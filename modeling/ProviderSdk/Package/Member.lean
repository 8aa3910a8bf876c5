import ProviderSdk.Disk.Path
import ProviderSdk.Package.Property
import ProviderSdk.Text.Case

/-!
# Members of a package

What a generated library offers: resources, data sources and configuration variables; and the
hand-written files that are copied into it.
-/

namespace ProviderSdk

structure Resource where
  token : Token
  name : String
  rawName : String
  fileStem : String
  doc : String
  inputs : List Property
  outputs : List Property
  isProvider : Bool
  deleteBeforeReplace : Bool
  deriving Inhabited

namespace Resource

def argsTypeName (r : Resource) : String := r.name ++ "Args"

def hasRequiredInputs (r : Resource) : Bool := r.inputs.any Property.needsCheck

def outputOnly (r : Resource) : List Property :=
  r.outputs.filter (fun o => !r.inputs.any (fun i => i.rawName == o.rawName))

def input? (r : Resource) (rawName : String) : Option Property :=
  r.inputs.find? (fun p => p.rawName == rawName)

end Resource

/-- A data source, which generated libraries offer as a function. -/
structure DataSource where
  token : Token
  name : String
  rawName : String
  fileStem : String
  doc : String
  arguments : List Property
  results : List Property
  deriving Inhabited

namespace DataSource

def argsTypeName (f : DataSource) : String := Text.upperFirst f.name ++ "Args"

def resultTypeName (f : DataSource) : String := Text.upperFirst f.name ++ "Result"

def hasRequiredArguments (f : DataSource) : Bool := f.arguments.any Property.needsCheck

end DataSource

structure OverlayFile where
  name : String
  source : Path
  deriving DecidableEq, Repr, Inhabited

inductive Member where
  | resource (r : Resource)
  | dataSource (f : DataSource)
  | variable (v : Property)
  | overlay (o : OverlayFile)
  deriving Inhabited

def Member.name : Member → String
  | .resource r => r.name
  | .dataSource f => f.name
  | .variable v => v.name
  | .overlay o => o.name

end ProviderSdk
