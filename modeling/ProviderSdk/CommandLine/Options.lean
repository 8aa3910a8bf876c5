import ProviderSdk.Text.Split

/-!
# Options on a command line

The arguments of one command are options, which may stand anywhere, and words. An option is named in
full behind two hyphens or by a letter behind one; letters may stand together. A value follows its
option as the next argument, behind an equals sign or right behind the letter. A single hyphen is a
word, and behind two hyphens alone every argument is one.

Arguments are judged in their order, so the first thing that is wrong, or the first wish for help,
decides.
-/

namespace ProviderSdk.CommandLine

/-- Why a command line names no command to be run. -/
inductive Early where
  | misuse
  | help
  | version
  deriving DecidableEq, Repr

inductive OptionKind where
  | flag
  | counted
  | text
  | path
  | ending (e : Early)
  deriving DecidableEq, Repr

structure OptionForm where
  name : String
  letter : Option Char
  kind : OptionKind
  deriving DecidableEq, Repr

namespace OptionKind

def hasValue : OptionKind → Bool
  | text => true
  | path => true
  | _ => false

def accepts (kind : OptionKind) (value : String) : Bool := kind != path || value != ""

end OptionKind

inductive Argument where
  | word (s : String)
  | named (name : String) (value : Option String)
  | letters (cs : List Char)
  | separator
  deriving DecidableEq, Repr

def Argument.of (s : String) : Argument :=
  match s.toList with
  | ['-', '-'] => .separator
  | '-' :: '-' :: cs =>
    match Text.cutAt? (· == '=') cs with
    | some (name, value) => .named (String.ofList name) (some (String.ofList value))
    | none => .named (String.ofList cs) none
  | '-' :: c :: cs => .letters (c :: cs)
  | _ => .word s

structure Given where
  options : List (String × String) := []
  words : List String := []
  deriving DecidableEq, Repr, Inhabited

namespace Given

def has (g : Given) (name : String) : Bool := (g.options.lookup name).isSome

def value? (g : Given) (name : String) : Option String := g.options.lookup name

def addOption (g : Given) (form : OptionForm) (value : String) : Except Early Given :=
  match form.kind with
  | .ending e => .error e
  | .counted => .ok { g with options := g.options ++ [(form.name, value)] }
  | kind =>
    if g.has form.name || (kind.hasValue && !kind.accepts value) then .error .misuse
    else .ok { g with options := g.options ++ [(form.name, value)] }

/-- What is given, with the options of some letters more, and the option whose value is still to come. -/
def addLetters (forms : List OptionForm) (g : Given) : List Char → Except Early (Given × Option OptionForm)
  | [] => .ok (g, none)
  | c :: cs =>
    match forms.find? (fun f => f.letter == some c) with
    | none => .error .misuse
    | some form =>
      if form.kind.hasValue then
        if cs.isEmpty then .ok (g, some form)
        else do
          let g ← g.addOption form (String.ofList ((Text.afterStart? ['='] cs).getD cs))
          .ok (g, none)
      else do addLetters forms (← g.addOption form "") cs

/-- What is given, with the option of a name more, and the option whose value is still to come. -/
def addNamed (forms : List OptionForm) (g : Given) (name : String) (value : Option String) :
    Except Early (Given × Option OptionForm) :=
  match forms.find? (fun f => f.name == name) with
  | none => .error .misuse
  | some form =>
    match value with
    | some value => do
      if form.kind.hasValue then
        let g ← g.addOption form value
        .ok (g, none)
      else .error .misuse
    | none => do
      if form.kind.hasValue then .ok (g, some form)
      else
        let g ← g.addOption form ""
        .ok (g, none)

end Given

inductive WordRole where
  | refused
  | taken
  | left
  deriving DecidableEq, Repr

structure CommandForm where
  options : List OptionForm
  role : (before : List String) → String → WordRole

namespace CommandForm

/-- What is given, with a word more that must be taken. -/
def addWord (form : CommandForm) (g : Given) (word : String) : Except Early Given :=
  match form.role g.words word with
  | .taken => .ok { g with words := g.words ++ [word] }
  | _ => .error .misuse

def read (form : CommandForm) (g : Given) : List String → Except Early (Given × List String)
  | [] => .ok (g, [])
  | a :: rest =>
    match Argument.of a with
    | .word word =>
      if form.role g.words word = .left then .ok (g, a :: rest)
      else do form.read (← form.addWord g word) rest
    | .separator => do .ok (← rest.foldlM form.addWord g, [])
    | .named name value => do
      let (g, awaiting) ← g.addNamed form.options name value
      match awaiting, rest with
      | none, rest => form.read g rest
      | some _, [] => .error .misuse
      | some f, v :: rest =>
        match Argument.of v with
        | .word value => do form.read (← g.addOption f value) rest
        | _ => .error .misuse
    | .letters cs => do
      let (g, awaiting) ← g.addLetters form.options cs
      match awaiting, rest with
      | none, rest => form.read g rest
      | some _, [] => .error .misuse
      | some f, v :: rest =>
        match Argument.of v with
        | .word value => do form.read (← g.addOption f value) rest
        | _ => .error .misuse

end CommandForm

end ProviderSdk.CommandLine
