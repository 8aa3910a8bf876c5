import ProviderSdk.Toml.Scalar

/-!
# Written TOML

The lines of a TOML text: headers of tables, and entries with their values. What the lines make
together is not decided here. Values are texts, lists and tables; numbers, truth values and dates
are kept as they are written.

Reading is by functions on what is left of the text, which give back what they leave. `fuel` bounds
the recursion; twice the length of the text is always enough. `depth` counts the brackets that may
still be opened in a value.
-/

namespace ProviderSdk.Toml

/-- A value as it is written. Keys of a table may lead through further tables. -/
inductive Written where
  | text (s : String)
  | scalar (run : String)
  | list (items : List Written)
  | table (entries : List (List String × Written))
  deriving Inhabited

inductive Line where
  | table (path : List String)
  | element (path : List String)
  | entry (path : List String) (value : Written)
  deriving Inhabited

def isBlank (c : Char) : Bool := c == ' ' || c == '\t'

/-- Whether a character may stand in a comment or in a text as it is. -/
def isPlain (c : Char) : Bool := c == '\t' || (decide (32 ≤ c.toNat) && c.toNat != 127)

/-- Whether a character may stand in a key without quotes. -/
def isBare (c : Char) : Bool := c.isAlphanum || c == '_' || c == '-'

def break? : List Char → Option (List Char × List Char)
  | '\n' :: rest => some (['\n'], rest)
  | '\r' :: '\n' :: rest => some (['\r', '\n'], rest)
  | _ => none

def afterBreak? (cs : List Char) : Option (List Char) := (break? cs).map (·.2)

def skipBlanks (cs : List Char) : List Char := cs.dropWhile isBlank

def skipLayout : List Char → List Char
  | [] => []
  | '\n' :: rest => skipLayout rest
  | '\r' :: '\n' :: rest => skipLayout rest
  | c :: rest => if isBlank c then skipLayout rest else c :: rest

/-- What follows blanks, line breaks and comments. A character that no comment may hold is left. -/
def skipGaps : (inComment : Bool) → List Char → List Char
  | _, [] => []
  | _, '\n' :: rest => skipGaps false rest
  | _, '\r' :: '\n' :: rest => skipGaps false rest
  | true, c :: rest => if isPlain c then skipGaps true rest else c :: rest
  | false, c :: rest =>
    if isBlank c then skipGaps false rest
    else if c = '#' then skipGaps true rest
    else c :: rest

/-- What follows a line at whose end nothing is said. -/
def endLine? (cs : List Char) : Option (List Char) :=
  let cs := skipBlanks cs
  let cs := if cs.head? = some '#' then cs.dropWhile isPlain else cs
  if cs.isEmpty then some [] else afterBreak? cs

structure Quotes where
  mark : Char
  hasEscapes : Bool
  isLong : Bool
  deriving DecidableEq, Repr

/-- The character that some hexadecimal digits name. -/
def namedChar? (count : Nat) (cs : List Char) : Option (Char × List Char) :=
  if cs.length < count then none
  else do
    let n ← Text.hexNumber? (cs.take count)
    some (← Text.charOf? n, cs.drop count)

/-- The character of an escape, behind its backslash. -/
def escape? : List Char → Option (Char × List Char)
  | '"' :: rest => some ('"', rest)
  | '\\' :: rest => some ('\\', rest)
  | 'b' :: rest => some ('\x08', rest)
  | 'e' :: rest => some ('\x1b', rest)
  | 'f' :: rest => some ('\x0c', rest)
  | 'n' :: rest => some ('\n', rest)
  | 'r' :: rest => some ('\r', rest)
  | 't' :: rest => some ('\t', rest)
  | 'x' :: rest => namedChar? 2 rest
  | 'u' :: rest => namedChar? 4 rest
  | 'U' :: rest => namedChar? 8 rest
  | _ => none

/-- What follows a backslash at the end of a line: the text goes on at the next character that is no
layout. -/
def joinedLine? (cs : List Char) : Option (List Char) := (afterBreak? (skipBlanks cs)).map skipLayout

/-- The text up to its closing quotes, `read` having been read in reverse. A long text keeps its
line breaks as they are, and of the quotes behind it up to two more than three belong to it. -/
def textTail (q : Quotes) : (fuel : Nat) → (read : List Char) → List Char → Option (String × List Char)
  | 0, _, _ => none
  | _, _, [] => none
  | fuel + 1, read, c :: rest =>
    if c = q.mark then
      if q.isLong then
        let count := min 5 ((c :: rest).takeWhile (· == q.mark)).length
        if count < 3 then textTail q fuel (c :: read) rest
        else some (String.ofList (List.replicate (count - 3) c ++ read).reverse, (c :: rest).drop count)
      else some (String.ofList read.reverse, rest)
    else if c = '\\' && q.hasEscapes then
      match escape? rest with
      | some (a, rest) => textTail q fuel (a :: read) rest
      | none => if q.isLong then (joinedLine? rest).bind (textTail q fuel read) else none
    else if isPlain c then textTail q fuel (c :: read) rest
    else if q.isLong then do
      let (lineBreak, rest) ← break? (c :: rest)
      textTail q fuel (lineBreak.reverse ++ read) rest
    else none

def quoted? (q : Quotes) (cs : List Char) : Option (String × List Char) := textTail q (cs.length + 1) [] cs

/-- A text behind its first quote. A long text starts behind the line break that may follow its quotes. -/
def text? (mark : Char) (cs : List Char) : Option (String × List Char) :=
  let hasEscapes := mark == '"'
  match Text.afterStart? [mark, mark] cs with
  | some inner => quoted? ⟨mark, hasEscapes, true⟩ ((afterBreak? inner).getD inner)
  | none => quoted? ⟨mark, hasEscapes, false⟩ cs

def key? : List Char → Option (String × List Char)
  | [] => none
  | c :: rest =>
    if c = '"' || c = '\'' then
      if (Text.afterStart? [c, c] rest).isSome then none else quoted? ⟨c, c == '"', false⟩ rest
    else if isBare c then some (String.ofList ((c :: rest).takeWhile isBare), rest.dropWhile isBare)
    else none

def keys? : (fuel : Nat) → List Char → Option (List String × List Char)
  | 0, _ => none
  | fuel + 1, cs => do
    let (key, cs) ← key? (skipBlanks cs)
    match skipBlanks cs with
    | '.' :: cs => do
      let (path, cs) ← keys? fuel cs
      some (key :: path, cs)
    | cs => some ([key], cs)

def path? (cs : List Char) : Option (List String × List Char) := keys? (cs.length + 1) cs

/-- The number of brackets that may be open at once in a value. -/
def depthLimit : Nat := 80

mutual

def value? : (fuel depth : Nat) → List Char → Option (Written × List Char)
  | 0, _, _ => none
  | _, _, [] => none
  | fuel + 1, depth, c :: cs =>
    if c = '"' || c = '\'' then do
      let (s, cs) ← text? c cs
      some (.text s, cs)
    else if c = '[' then do
      let (items, cs) ← if depth = 0 then none else items? fuel (depth - 1) cs
      some (.list items, cs)
    else if c = '\x7b' then do
      let (entries, cs) ← if depth = 0 then none else entries? fuel (depth - 1) cs
      some (.table entries, cs)
    else do
      let (run, cs) ← scalar? (c :: cs)
      some (.scalar run, cs)

/-- The items of a list up to its end. Behind the last there may be a comma. -/
def items? : (fuel depth : Nat) → List Char → Option (List Written × List Char)
  | 0, _, _ => none
  | fuel + 1, depth, cs =>
    match skipGaps false cs with
    | ']' :: cs => some ([], cs)
    | cs => do
      let (item, cs) ← value? fuel depth cs
      match skipGaps false cs with
      | ',' :: cs => do
        let (items, cs) ← items? fuel depth cs
        some (item :: items, cs)
      | ']' :: cs => some ([item], cs)
      | _ => none

/-- The entries of a table in braces up to its end. Behind the last there may be a comma. -/
def entries? : (fuel depth : Nat) → List Char → Option (List (List String × Written) × List Char)
  | 0, _, _ => none
  | fuel + 1, depth, cs =>
    match skipGaps false cs with
    | '\x7d' :: cs => some ([], cs)
    | cs => do
      let (entry, cs) ← assignment? (skipGaps false) fuel depth cs
      match skipGaps false cs with
      | ',' :: cs => do
        let (entries, cs) ← entries? fuel depth cs
        some (entry :: entries, cs)
      | '\x7d' :: cs => some ([entry], cs)
      | _ => none

/-- A path with its value. `skip` passes what may stand around the sign between them. -/
def assignment? (skip : List Char → List Char) :
    (fuel depth : Nat) → List Char → Option ((List String × Written) × List Char)
  | 0, _, _ => none
  | fuel + 1, depth, cs => do
    let (path, cs) ← path? cs
    match skip cs with
    | '=' :: cs => do
      let (value, cs) ← value? fuel depth (skip cs)
      some ((path, value), cs)
    | _ => none

end

def header? (closing : List Char) (cs : List Char) : Option (List String × List Char) := do
  let (path, cs) ← path? cs
  some (path, ← Text.afterStart? closing cs)

/-- A line that says something, from its first character. -/
def line? (cs : List Char) : Option (Line × List Char) :=
  match cs with
  | '[' :: '[' :: cs => (header? [']', ']'] cs).map (fun (path, cs) => (.element path, cs))
  | '[' :: cs => (header? [']'] cs).map (fun (path, cs) => (.table path, cs))
  | cs =>
    (assignment? skipBlanks (2 * cs.length + 2) depthLimit cs).map
      (fun ((path, value), cs) => (.entry path value, cs))

def lines? : (fuel : Nat) → List Char → Option (List Line)
  | 0, _ => none
  | fuel + 1, cs =>
    match skipGaps false cs with
    | [] => some []
    | cs => do
      let (line, cs) ← line? cs
      let lines ← lines? fuel (← endLine? cs)
      some (line :: lines)

/-- The lines of a text, which may start with a byte order mark. -/
def Line.read? (text : String) : Option (List Line) :=
  let cs := text.toList
  let cs := if cs.head? = some '\uFEFF' then cs.tail else cs
  lines? (cs.length + 1) cs

end ProviderSdk.Toml
