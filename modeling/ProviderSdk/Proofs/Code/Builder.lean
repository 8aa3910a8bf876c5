import ProviderSdk.Proofs.Code.CommentLines

/-!
# Code that is built in place

A builder appends to what it has written and goes one level deeper and back. It writes a fragment by
following the tree, which comes to following the steps of the fragment: whatever was written before
and at whatever level the builder stands, it appends the text of the fragment and is at its level
again. If the lines of a fragment have no line breaks in them, its text at a level is its text at
the margin with the indentation of the level before every line that is not empty. So code may be put
together from fragments, and what is put together may be nested at any depth.
-/

namespace ProviderSdk

namespace Text

/-- A text with something before each of its lines that is not empty. -/
def shifted (before cs : List Char) : List Char :=
  joinWith ['\n'] ((splitAt '\n' cs).map (fun l => if l.isEmpty then [] else before ++ l))

variable {cs : List Char}

theorem shifted_line (before : List Char) {line : List Char} (h : '\n' ∉ line) (rest : List Char) :
    shifted before (line ++ '\n' :: rest) =
      (if line.isEmpty then [] else before ++ line) ++ '\n' :: shifted before rest := by
  have hsplit : splitAt '\n' (line ++ '\n' :: rest) = line :: splitAt '\n' rest := by
    rw [splitAt_append, splitAt_of_not_mem h]
    rfl
  have hne : (splitAt '\n' rest).map (fun l => if l.isEmpty then [] else before ++ l) ≠ [] := by
    exact mt List.map_eq_nil_iff.mp (splitWhere_ne_nil (· == '\n') rest)
  rw [shifted, hsplit, List.map_cons, joinWith_cons_of_ne_nil _ _ hne, shifted]
  simp

end Text

namespace Code

open Text (shifted shifted_line)

/-- What has been written, and the level at which the next line is written. -/
structure Builder where
  indent : Indent
  level : Nat := 0
  written : List Char := []

namespace Builder

def push (b : Builder) (step : Step) : Builder :=
  { b with level := step.next b.level, written := b.written ++ step.chars b.indent b.level }

mutual

def apply : Builder → Fragment → Builder
  | b, .line text => b.push (.line text)
  | b, .block header body close =>
    let inner := emit ((b.push (.line header)).push .indent) body
    let outer := inner.push .dedent
    match close with
    | some text => outer.push (.line text)
    | none => outer
  | b, .comment form rule text => b.push (.comment form rule text)
  termination_by structural _ f => f

def emit : Builder → List Fragment → Builder
  | b, [] => b
  | b, f :: rest => emit (b.apply f) rest
  termination_by structural _ fs => fs

end

theorem foldl_push (b : Builder) (steps : List Step) :
    steps.foldl push b =
      { b with level := levelAfter b.level steps, written :=
        b.written ++ charsFrom b.indent b.level steps } := by
  induction steps generalizing b with
  | nil => simp [levelAfter]
  | cons step rest ih => simp [ih, push, levelAfter, List.append_assoc]

mutual

theorem apply_eq_foldl (b : Builder) : (f : Fragment) → b.apply f = f.steps.foldl push b
  | .line _ => rfl
  | .comment _ _ _ => rfl
  | .block header body close => by
    have h := emit_eq_foldl ((b.push (.line header)).push .indent) body
    cases close <;> simp [apply, Fragment.steps, h]

theorem emit_eq_foldl (b : Builder) : (fs : List Fragment) → b.emit fs = (stepsOf fs).foldl push b
  | [] => rfl
  | f :: rest => by
    have hf := apply_eq_foldl b f
    have hrest := emit_eq_foldl (b.apply f) rest
    rw [emit, stepsOf, List.foldl_append, hrest, hf]

end

theorem apply_eq (b : Builder) (f : Fragment) :
    b.apply f = { b with written := b.written ++ charsFrom b.indent b.level f.steps } := by
  rw [apply_eq_foldl, foldl_push, f.levelAfter_steps]

theorem emit_eq (b : Builder) (fs : List Fragment) :
    b.emit fs = { b with written := b.written ++ charsFrom b.indent b.level (stepsOf fs) } := by
  rw [emit_eq_foldl, foldl_push, levelAfter_stepsOf]

end Builder

/-- The fragment is a tree of lines and blocks, and no line break stands in any of its lines. -/
inductive Fragment.OfLines : Fragment → Prop where
  | line {text} (whole : '\n' ∉ text.toList) : OfLines (.line text)
  | block {header body close} (whole : '\n' ∉ header.toList) (inner : ∀ f ∈ body, OfLines f)
      (ended : ∀ text, close = some text → '\n' ∉ text.toList) : OfLines (.block header body close)

variable (i : Indent) (outer inner : Nat)

theorem Indent.levels_add : i.levels (outer + inner) = i.levels outer ++ i.levels inner := by
  rw [Indent.levels, List.replicate_add, List.flatten_append]
  rfl

theorem feed_not_mem_levels : '\n' ∉ i.levels inner := by
  intro h
  rcases mem_levels h with heq | heq <;> cases heq

/-- A line that is written further inside, with what follows it. -/
theorem shifted_indentedLine {l : List Char} (h : '\n' ∉ l) (rest : List Char) :
    shifted (i.levels outer) (indentedLine i inner l ++ rest) =
      indentedLine i (outer + inner) l ++ shifted (i.levels outer) rest := by
  have hline : '\n' ∉ indented i inner l := by
    rw [indented]
    split
    · exact List.not_mem_nil
    · exact fun hmem => (List.mem_append.mp hmem).elim (feed_not_mem_levels i inner) h
  rw [indentedLine_eq, indentedLine_eq, List.append_assoc, List.singleton_append, shifted_line _ hline]
  by_cases hl : l = []
  · simp [indented, hl]
  · simp [indented, hl, Indent.levels_add]

theorem charsFrom_block (level : Nat) (header : String) (body : List Fragment) (close : Option String) :
    charsFrom i level (Fragment.block header body close).steps =
      indentedLine i level header.toList ++ (charsFrom i (level + 1) (stepsOf body) ++
        (close.map (fun text => indentedLine i level text.toList)).getD []) := by
  rw [Fragment.steps, List.cons_append, List.cons_append, charsFrom_cons, charsFrom_cons, charsFrom_append]
  simp only [Step.chars, Step.next, levelAfter_stepsOf, List.nil_append, charsFrom_cons, Nat.add_sub_cancel]
  cases close <;> simp [Step.chars]

mutual

/-- A fragment that is written further inside, with what follows it. -/
theorem Fragment.OfLines.shifted_chars (inner : Nat) (rest : List Char) : {f : Fragment} → f.OfLines →
    shifted (i.levels outer) (charsFrom i inner f.steps ++ rest) =
      charsFrom i (outer + inner) f.steps ++ shifted (i.levels outer) rest
  | .line text, .line whole => by
    rw [Fragment.steps, charsFrom_cons, charsFrom_cons, Step.chars, Step.chars, charsFrom_nil, charsFrom_nil,
      List.append_nil, List.append_nil]
    exact shifted_indentedLine i outer inner whole rest
  | .block header body close, .block whole each ended => by
    have hbody :=
      shifted_stepsOf (inner + 1) ((close.map (fun text => indentedLine i inner text.toList)).getD [] ++ rest)
      body each
    rw [charsFrom_block, charsFrom_block, List.append_assoc, List.append_assoc, List.append_assoc,
      List.append_assoc, shifted_indentedLine i outer inner whole, hbody, Nat.add_assoc]
    cases close with
    | none => rfl
    | some text => rw [Option.map_some, Option.map_some, Option.getD_some, Option.getD_some,
        shifted_indentedLine i outer inner (ended text rfl)]
  | .comment form rule text, h => nomatch h

theorem shifted_stepsOf (inner : Nat) (rest : List Char) : (fs : List Fragment) → (∀ f ∈ fs, f.OfLines) →
    shifted (i.levels outer) (charsFrom i inner (stepsOf fs) ++ rest) =
      charsFrom i (outer + inner) (stepsOf fs) ++ shifted (i.levels outer) rest
  | [], _ => rfl
  | f :: fs, h => by
    obtain ⟨hf, hfs⟩ := List.forall_mem_cons.mp h
    rw [stepsOf, charsFrom_append, charsFrom_append, f.levelAfter_steps, f.levelAfter_steps,
      List.append_assoc, hf.shifted_chars, shifted_stepsOf, List.append_assoc]
    exact hfs

end

/-- Whatever a builder has written and wherever it stands: a fragment of lines is appended as the
text that it is at the margin, with the indentation of the level before every line that is not
empty, and the level is the same afterwards; and of several fragments each is appended as the text
that it is alone. -/
theorem Builder.apply_composes (b : Builder) :
    (∀ f : Fragment, f.OfLines → b.apply f = { b with
      written := b.written ++ shifted (b.indent.levels b.level)
        (Builder.apply { indent := b.indent } f).written }) ∧
    ∀ fs : List Fragment, b.emit fs = { b with
      written := b.written ++ fs.flatMap (fun f => (Builder.apply { b with written := [] } f).written) } := by
  constructor
  · intro f h
    have hmargin := h.shifted_chars b.indent b.level 0 []
    rw [List.append_nil] at hmargin
    rw [apply_eq, apply_eq, List.nil_append, hmargin]
    exact congrArg (fun cs => { b with written := b.written ++ cs }) (List.append_nil _).symm
  · intro fs
    rw [emit_eq]
    refine congrArg (fun cs => { b with written := b.written ++ cs }) ?_
    induction fs with
    | nil => rfl
    | cons f rest ih =>
      rw [stepsOf, charsFrom_append, f.levelAfter_steps, List.flatMap_cons, ih, apply_eq]
      rfl

/-- A class with an empty line and a method. -/
def hostBlock : Fragment :=
  .block "class Host \x7b" [.line "", .block "run() \x7b" [.line "return;"] (some "\x7d")] (some "\x7d")

theorem hostBlock_ofLines : hostBlock.OfLines := by
  refine .block (by decide) (fun f hf => ?_) (by simp)
  rcases List.mem_pair.mp hf with rfl | rfl
  · exact .line (by decide)
  · refine .block (by decide) (fun f hf => ?_) (by simp)
    rw [List.mem_singleton.mp hf]
    exact .line (by decide)

/-- The class in a namespace, two spaces inside. -/
theorem hostBlock_composes : hostBlock.OfLines ∧
    (Builder.apply ⟨.two, 1, "namespace Acme \x7b\n".toList⟩ hostBlock).written =
      ("namespace Acme \x7b\n  class Host \x7b\n\n    run() \x7b\n      return;\n    \x7d\n  \x7d\n").toList := by
  refine ⟨hostBlock_ofLines, ?_⟩
  rw [(Builder.apply_composes _).1 hostBlock hostBlock_ofLines]
  decide +kernel

end Code

end ProviderSdk
