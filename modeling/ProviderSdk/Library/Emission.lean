import ProviderSdk.Package.Tree
import ProviderSdk.Plan

/-!
# Emission of a library

A library is planned module after module: each gives the files and copies that it consists of, and
the first conflict ends the planning, with the module in which it arose.
-/

namespace ProviderSdk

/-- A file or a copy that is going to be planned. -/
inductive PlanEntry where
  | file (f : PlannedFile)
  | overlay (o : PlannedCopy)
  deriving DecidableEq, Repr

inductive EmitCause where
  | conflict (e : PlanError)
  | identifierTwice (identifier first second : String)
  deriving DecidableEq, Repr

def EmitCause.message : EmitCause → String
  | conflict e => e.message
  | identifierTwice identifier first second =>
    s!"Go identifier '{identifier}' is declared by both {first} and {second}"

/-- Why a library cannot be planned, and in which module if it is in one. -/
structure EmitError where
  module : Option String
  cause : EmitCause
  deriving DecidableEq, Repr

/-- What is said about it, the outermost message first. -/
def EmitError.chain (e : EmitError) : List String :=
  (e.module.map (fun name => s!"failed to generate module '{name}'")).toList ++ [e.cause.message]

namespace PlanEntry

def fileIn (directory : Path) (name content : String) : PlanEntry := .file ⟨directory.join ⟨name⟩, content⟩

def fileAt (name content : String) : PlanEntry := .file ⟨⟨name⟩, content⟩

def overlayIn (directory : Path) (o : OverlayFile) : PlanEntry := .overlay ⟨directory.join ⟨o.name⟩, o.source⟩

end PlanEntry

namespace Plan

def add (p : Plan) : PlanEntry → Except PlanError Plan
  | .file f => p.addFile f
  | .overlay o => p.addOverlay o

def addEntries (p : Plan) (entries : List PlanEntry) : Except EmitCause Plan :=
  (entries.foldlM add p).mapError EmitCause.conflict

/-- The plan with files and copies more that belong to no module. -/
def addOutside (p : Plan) (entries : List PlanEntry) : Except EmitError Plan :=
  (p.addEntries entries).mapError (EmitError.mk none)

def addModule (entries : Module → Except EmitCause (List PlanEntry)) (p : Plan) (m : Module) :
    Except EmitError Plan :=
  ((entries m).bind p.addEntries).mapError (EmitError.mk (some m.name))

def addModules (p : Plan) (entries : Module → Except EmitCause (List PlanEntry)) (ms : List Module) :
    Except EmitError Plan :=
  ms.foldlM (addModule entries) p

end Plan

end ProviderSdk
