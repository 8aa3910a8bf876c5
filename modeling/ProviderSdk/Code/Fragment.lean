import ProviderSdk.Code.Step

/-!
# Fragments of code

A fragment is a piece of code as a tree: lines, comments and blocks with a header, a body one level deeper and
perhaps a closing line. Main statement: a fragment leaves the level of indentation as it found it.
-/

namespace ProviderSdk.Code

inductive Fragment where
  | line (text : String)
  | block (header : String) (body : List Fragment) (close : Option String)
  | comment (form : CommentForm) (rule : LineRule) (text : String)
  deriving Repr, Inhabited

mutual

def Fragment.steps : Fragment → List Step
  | .line text => [.line text]
  | .block header body close =>
    .line header :: .indent :: stepsOf body ++ .dedent :: (close.map Step.line).toList
  | .comment form rule text => [.comment form rule text]
  termination_by structural f => f

def stepsOf : List Fragment → List Step
  | [] => []
  | f :: rest => f.steps ++ stepsOf rest
  termination_by structural fs => fs

end

/-- The lines of a text as fragments. A carriage return before a line feed belongs to the line
break, and the end of the last line is no line. -/
def Fragment.ofText (text : String) : List Fragment :=
  (Text.textLines text.toList).map (fun l => .line (String.ofList l))

mutual

theorem Fragment.levelAfter_steps (level : Nat) : (f : Fragment) → levelAfter level f.steps = level
  | .line _ => rfl
  | .comment _ _ _ => rfl
  | .block header body close => by
    have h := levelAfter_stepsOf (level + 1) body
    cases close <;> simp_all [Fragment.steps, levelAfter, Step.next]

/-- Fragments leave the level of indentation as they found it. -/
theorem levelAfter_stepsOf (level : Nat) : (fs : List Fragment) → levelAfter level (stepsOf fs) = level
  | [] => rfl
  | f :: rest => by
    have hf := Fragment.levelAfter_steps level f
    have hr := levelAfter_stepsOf level rest
    simp_all [stepsOf, levelAfter]

end

end ProviderSdk.Code
