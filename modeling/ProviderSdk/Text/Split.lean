/-!
# Splitting and joining

Text as a list of characters, cut at single characters and put together again; a first part or last part
taken off; one text replaced by another wherever it stands. Main facts: joining the pieces of a split with
the separator gives the text back, and no piece holds the separator.
-/

namespace ProviderSdk.Text

/-- The pieces of a text between the characters that satisfy `p`; there is always at least one. -/
def splitWhere (p : Char → Bool) : List Char → List (List Char)
  | [] => [[]]
  | c :: rest =>
    if p c then [] :: splitWhere p rest
    else match splitWhere p rest with
      | [] => [[c]]
      | piece :: pieces => (c :: piece) :: pieces

/-- The pieces of a text between the occurrences of one character. -/
def splitAt (sep : Char) (cs : List Char) : List (List Char) := splitWhere (· == sep) cs

/-- The pieces of a text between the occurrences of one character. -/
def split (sep : Char) (s : String) : List String := (splitAt sep s.toList).map String.ofList

/-- Pieces with a separator between each two. -/
def joinWith (sep : List Char) : List (List Char) → List Char
  | [] => []
  | [piece] => piece
  | piece :: rest => piece ++ sep ++ joinWith sep rest

def unsnoc {α : Type} : List α → Option (List α × α)
  | [] => none
  | [a] => some ([], a)
  | a :: rest => (unsnoc rest).map (fun (front, last) => (a :: front, last))

def afterStart? : (start cs : List Char) → Option (List Char)
  | [], cs => some cs
  | _ :: _, [] => none
  | a :: start, c :: cs => if a = c then afterStart? start cs else none

/-- What precedes `suffix`, if the text ends with it. -/
def beforeEnd? (suffix cs : List Char) : Option (List Char) :=
  (afterStart? suffix.reverse cs.reverse).map List.reverse

def withoutReturn (line : List Char) : List Char := (beforeEnd? ['\r'] line).getD line

/-- The lines of a text. A carriage return before a line feed belongs to the line break; behind the
last line feed there is a line only if something stands there. -/
def textLines (cs : List Char) : List (List Char) :=
  match unsnoc (splitAt '\n' cs) with
  | none => []
  | some (ended, last) => ended.map withoutReturn ++ (if last.isEmpty then [] else [last])

def dropStart? (start s : String) : Option String := (afterStart? start.toList s.toList).map String.ofList

/-- What precedes `suffix`, if the text ends with it. -/
def dropEnd? (suffix s : String) : Option String := (beforeEnd? suffix.toList s.toList).map String.ofList

/-- The parts before and after the first character that satisfies `p`, which is left out. -/
def cutAt? (p : Char → Bool) : List Char → Option (List Char × List Char)
  | [] => none
  | c :: rest => if p c then some ([], rest) else (cutAt? p rest).map (fun (a, b) => (c :: a, b))

/-- Every occurrence of `old`, found from left to right, replaced by `new`. After a hit, `skip` more
characters belong to it. -/
def replacedFrom (old new : List Char) : (skip : Nat) → List Char → List Char
  | _, [] => []
  | skip + 1, _ :: rest => replacedFrom old new skip rest
  | 0, c :: rest =>
    if old.isPrefixOf (c :: rest) && !old.isEmpty then new ++ replacedFrom old new (old.length - 1) rest
    else c :: replacedFrom old new 0 rest

/-- Every occurrence of `old`, found from left to right without overlap, replaced by `new`. -/
def replaced (old new : List Char) (cs : List Char) : List Char := replacedFrom old new 0 cs

/-- Every occurrence of `old`, found from left to right without overlap, replaced by `new`. -/
def replace (s old new : String) : String := String.ofList (replaced old.toList new.toList s.toList)

/-- Whether `part` stands somewhere in the text. -/
def containsPart (part : List Char) : List Char → Bool
  | [] => part.isEmpty
  | c :: rest => part.isPrefixOf (c :: rest) || containsPart part rest

/-- Whether `part` stands somewhere in the text. -/
def contains (s part : String) : Bool := containsPart part.toList s.toList

theorem splitWhere_ne_nil (p : Char → Bool) (cs : List Char) : splitWhere p cs ≠ [] := by
  cases cs with
  | nil => simp [splitWhere]
  | cons c rest =>
    unfold splitWhere
    split
    · simp
    · split <;> simp

theorem joinWith_splitAt (sep : Char) (cs : List Char) : joinWith [sep] (splitAt sep cs) = cs := by
  unfold splitAt
  induction cs with
  | nil => rfl
  | cons c rest ih =>
    unfold splitWhere
    have hne := splitWhere_ne_nil (· == sep) rest
    revert ih hne
    generalize splitWhere (· == sep) rest = pieces
    intro ih hne
    cases pieces with
    | nil => exact absurd rfl hne
    | cons piece more =>
      by_cases h : c = sep
      · subst h
        simp [joinWith, ih]
      · cases more with
        | nil => simp [h, joinWith] at ih ⊢; exact ih
        | cons b bs => simp [h, joinWith] at ih ⊢; exact ih

theorem not_mem_of_mem_splitAt {sep : Char} {cs piece : List Char} (h : piece ∈ splitAt sep cs) :
    sep ∉ piece := by
  unfold splitAt at h
  induction cs generalizing piece with
  | nil => simp [splitWhere] at h; simp [h]
  | cons c rest ih =>
    unfold splitWhere at h
    split at h
    · rcases List.mem_cons.1 h with rfl | h
      · simp
      · exact ih h
    · rename_i hc
      have hc' : ¬ sep = c := fun e => hc (by simp [e])
      split at h
      · simp at h; subst h; simp [hc']
      · rename_i first more heq
        rcases List.mem_cons.1 h with rfl | h
        · have := @ih first (by simp [heq])
          simp [hc', this]
        · exact ih (by simp [heq, h])

end ProviderSdk.Text
