import ProviderSdk.Disk.Path
import ProviderSdk.Language

/-!
# Preferences

What one source of settings, a configuration file or a command line, asks for. It may leave
everything open. Preferences may be laid over others, and then win wherever they say something.
-/

namespace ProviderSdk

structure Preferences where
  package : Option String := none
  version : Option String := none
  /-- The provider document; a hyphen stands for standard input. -/
  schema : Option Path := none
  out : Option Path := none
  overlays : Option Path := none
  docs : Option Path := none
  languages : List Language := []
  deriving DecidableEq, Repr, Inhabited

namespace Preferences

/-- The output directory if none is asked for. -/
def outDefault : Path := "pack"

def outDirectory (p : Preferences) : Path := p.out.getD outDefault

def overlaysDirectory (p : Preferences) : Path := p.overlays.getD "overlays"

def readsStandardInput (p : Preferences) : Bool := p.schema.all (fun path => path.same "-")

def laidOver (upper lower : Preferences) : Preferences where
  package := upper.package <|> lower.package
  version := upper.version <|> lower.version
  schema := upper.schema <|> lower.schema
  out := upper.out <|> lower.out
  overlays := upper.overlays <|> lower.overlays
  docs := upper.docs <|> lower.docs
  languages := if upper.languages.isEmpty then lower.languages else upper.languages

/-- Preferences that say nothing change nothing. -/
@[simp] theorem empty_laidOver (p : Preferences) : ({} : Preferences).laidOver p = p := by cases p; rfl

/-- Over preferences that say nothing, preferences stay as they are. -/
@[simp] theorem laidOver_empty (p : Preferences) : p.laidOver {} = p := by
  obtain ⟨a, b, c, d, e, f, ls⟩ := p
  cases a <;> cases b <;> cases c <;> cases d <;> cases e <;> cases f <;> cases ls <;> rfl

end Preferences

end ProviderSdk
