import ProviderSdk.Proofs.Text.Pieces

/-!
# Line feeds

The lines of a text, each written with a line feed, are the text with line feeds for its line
breaks. Lines with line feeds between them come back so, even those that have line breaks of their
own.
-/

namespace ProviderSdk.Text

def EndsVisibly (l : String) : Prop := ∃ c, l.toList.getLast? = some c ∧ c ≠ '\r' ∧ c ≠ '\n'

theorem EndsVisibly.append {l : String} (h : EndsVisibly l) (before : String) :
    EndsVisibly (before ++ l) := by
  obtain ⟨c, hlast, hc⟩ := h
  exact ⟨c, by rw [String.toList_append, List.getLast?_append, hlast, Option.some_or], hc⟩

theorem EndsVisibly.intercalate {ls : List String} (hne : ls ≠ []) (h : ∀ l ∈ ls, EndsVisibly l) :
    EndsVisibly ("\n".intercalate ls) := by
  induction ls with
  | nil => exact absurd rfl hne
  | cons first rest ih =>
    obtain ⟨hfirst, hrest⟩ := List.forall_mem_cons.mp h
    cases rest with
    | nil => simpa using hfirst
    | cons second rest =>
      rw [String.intercalate_cons_cons]
      exact (ih (List.cons_ne_nil _ _) hrest).append _

end ProviderSdk.Text
