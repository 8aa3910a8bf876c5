import ProviderSdk.Banner
import ProviderSdk.Code.Fragment

/-!
# TypeScript source files

A source file has imports, no two of them equal, and items with an empty line between them. An item
knows the names that it declares; pieces that write nothing are no items.
-/

namespace ProviderSdk.TypeScriptLibrary

open Code (Fragment Step braced openBrace closeBrace)

structure Import where
  source : String
  wholeName : Option String := none
  names : List String := []
  deriving DecidableEq, Repr, Inhabited

namespace Import

def everything (source name : String) : Import := { source := source, wholeName := some name }

def runtime : Import := everything "@pulumi/pulumi" "pulumi"

/-- The import with a name more, unless it has it. -/
def withName (i : Import) (name : String) : Import :=
  if i.names.contains name then i else { i with names := i.names ++ [name] }

def binds (i : Import) : List String :=
  match i.wholeName with
  | some name => [name]
  | none => i.names

def statement (i : Import) : String :=
  match i.wholeName with
  | some name => s!"import * as {name} from " ++ "\"" ++ i.source ++ "\";"
  | none =>
    if i.names.isEmpty then "import \"" ++ i.source ++ "\";"
    else "import " ++ braced (" " ++ ", ".intercalate i.names ++ " ") ++ " from \"" ++ i.source ++ "\";"

end Import

structure Item where
  declares : List String := []
  fragments : List Fragment
  deriving Inhabited

namespace Item

/-- Code whose lines are known only once it is written out. -/
def ofText (declares : List String) (text : String) : Item := ⟨declares, Fragment.ofText text⟩

def ofSteps (declares : List String) (steps : List Step) : Item := ofText declares (Code.text .two steps)

end Item

/-- An export statement: everything or some names of another file, or names of this file. -/
structure Export where
  source : Option String := none
  names : List String := []
  deriving DecidableEq, Repr, Inhabited

namespace Export

def isEmpty (e : Export) : Bool := e.source.isNone && e.names.isEmpty

def fragments (e : Export) : List Fragment :=
  match e.source with
  | some source =>
    if e.names.isEmpty then [.line ("export * from \"" ++ source ++ "\";")]
    else [.line ("export " ++ braced (" " ++ ", ".intercalate e.names ++ " ") ++ " from \"" ++
      source ++ "\";")]
  | none =>
    if e.names.isEmpty then []
    else [.block ("export " ++ openBrace) (e.names.map (fun name => .line (name ++ ",")))
      (some (closeBrace ++ ";"))]

def item (e : Export) : Item := ⟨[], e.fragments⟩

end Export

structure InterfaceMember where
  name : String
  type : String
  doc : String
  optional : Bool
  deriving DecidableEq, Repr, Inhabited

def InterfaceMember.fragments (m : InterfaceMember) : List Fragment :=
  (if m.doc = "" then [] else [.comment .starred .filled m.doc]) ++
    [.line ("readonly " ++ m.name ++ (if m.optional then "?" else "") ++ ": " ++ m.type ++ ";")]

/-- An exported interface whose members cannot be assigned. -/
structure Interface where
  name : String
  doc : String
  members : List InterfaceMember
  deriving DecidableEq, Repr, Inhabited

namespace Interface

def fragments (i : Interface) : List Fragment :=
  (if i.doc = "" then [] else [.comment .starred .kept i.doc]) ++
    (if i.members.isEmpty then [.line (s!"export interface {i.name} " ++ braced "")]
     else [.block (s!"export interface {i.name} " ++ openBrace) (i.members.flatMap InterfaceMember.fragments)
       (some closeBrace)])

def item (i : Interface) : Item := ⟨[i.name], i.fragments⟩

end Interface

structure SourceFile where
  imports : List Import := []
  items : List Item := []
  deriving Inhabited

namespace SourceFile

def distinct (imports : List Import) : List Import :=
  imports.foldl (fun known i => if known.contains i then known else known ++ [i]) []

def of (imports : List Import) (items : List Item) : SourceFile :=
  ⟨distinct imports, items.filter (fun i => !i.fragments.isEmpty)⟩

def isEmpty (f : SourceFile) : Bool := f.imports.isEmpty && f.items.isEmpty

def declares (f : SourceFile) : List String := f.items.flatMap Item.declares

def steps (f : SourceFile) : List Step :=
  f.imports.map (fun i => .line i.statement) ++
    (if f.imports.isEmpty || f.items.isEmpty then [] else Code.blank) ++
    Code.spaced (f.items.map (fun i => Code.stepsOf i.fragments))

def render (f : SourceFile) : String := Code.text .two f.steps

def content (f : SourceFile) : String := CommentStyle.slash.banner ++ f.render

end SourceFile

end ProviderSdk.TypeScriptLibrary
