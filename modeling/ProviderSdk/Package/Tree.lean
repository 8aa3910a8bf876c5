import ProviderSdk.Json.Value
import ProviderSdk.Package.Member
import ProviderSdk.Schema.Override

/-!
# Packages

A package has modules, and a module has members in the order in which they were added, no two of one
name. The modules stand in the order of their names.
-/

namespace ProviderSdk

def configModule : String := "config"

structure Module where
  name : String
  members : List Member
  deriving Inhabited

inductive MemberError where
  | duplicate (module name : String)
  deriving DecidableEq, Repr

/-- What is said about a member that cannot be added. -/
def MemberError.message : MemberError → String
  | .duplicate module name => s!"module '{module}' already has a member named '{name}'"

namespace Module

def empty (name : String) : Module := ⟨name, []⟩

def isRoot (m : Module) : Bool := m.name == rootModule

def isConfig (m : Module) : Bool := m.name == configModule

def has (m : Module) (name : String) : Bool := m.members.any (fun member => member.name == name)

def add (m : Module) (member : Member) : Except MemberError Module :=
  if m.has member.name then .error (.duplicate m.name member.name)
  else .ok { m with members := m.members ++ [member] }

def resources (m : Module) : List Resource :=
  m.members.filterMap (fun | .resource r => some r | _ => none)

def dataSources (m : Module) : List DataSource :=
  m.members.filterMap (fun | .dataSource f => some f | _ => none)

def configVariables (m : Module) : List Property :=
  m.members.filterMap (fun | .variable v => some v | _ => none)

/-- The hand-written files, in their order. -/
def overlays (m : Module) : List OverlayFile :=
  m.members.filterMap (fun | .overlay o => some o | _ => none)

end Module

structure PackageMetadata where
  description : String := ""
  keywords : List String := []
  homepage : String := ""
  repository : String := ""
  license : String := ""
  deriving DecidableEq, Repr, Inhabited

structure PackagingOptions where
  typeScriptDependencies : Dependencies := []
  typeScriptDevDependencies : Dependencies := []
  typeScriptPeerDependencies : Dependencies := []
  pythonRequirements : Dependencies := []
  cSharpReferences : Dependencies := []
  goImportBasePath : Option String := none
  deriving DecidableEq, Repr, Inhabited

/-- A package, from which the library of any language is generated. -/
structure Package where
  name : String
  version : String
  metadata : PackageMetadata := {}
  modules : List Module := []
  provenance : Option Provenance := none
  packaging : PackagingOptions := {}
  deriving Inhabited

namespace Package

def addToModules (name : String) (member : Member) : List Module → Except MemberError (List Module)
  | [] => do
    let m ← (Module.empty name).add member
    pure [m]
  | m :: rest =>
    if name = m.name then do
      let m ← m.add member
      pure (m :: rest)
    else if name < m.name then do
      let new ← (Module.empty name).add member
      pure (new :: m :: rest)
    else do
      let rest ← addToModules name member rest
      pure (m :: rest)

/-- The package with a member more. The module is made if it is not there. -/
def addMember (p : Package) (module : String) (member : Member) : Except MemberError Package := do
  let modules ← addToModules module member p.modules
  pure { p with modules := modules }

def module? (p : Package) (name : String) : Option Module := p.modules.find? (fun m => m.name == name)

def root? (p : Package) : Option Module := p.module? rootModule

def config? (p : Package) : Option Module := p.module? configModule

def submodules (p : Package) : List Module := p.modules.filter (fun m => !m.isRoot)

def resources (p : Package) : List Resource := p.modules.flatMap Module.resources

def dataSources (p : Package) : List DataSource := p.modules.flatMap Module.dataSources

end Package

end ProviderSdk
