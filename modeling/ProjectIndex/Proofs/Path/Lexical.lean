import ProjectIndex.Proofs.Path.Relative
import Mathlib.Logic.Relation

/-!
# The lexical rules of paths

Which spellings are one key is said here without the stack that computes keys: `Simplifies` lists the
rules that drop a dot, a name that is left again, and a way up from the root, and two spellings are
alike if these rules turn one into the other.  Spellings are alike exactly if they stand for one path
(`ofSpelling_eq_iff`), hence joining to a path is joining to any of its spellings (`join_ofSpelling`).
The rules are lexical: a link makes two keys of what is one place on the disk.
-/

namespace ProjectIndex

/-- What a piece of a spelling stands for: the way up or a plain name. -/
def Component.IsStep (c : Component) : Prop :=
  c = .up ∨ ∃ n, c = .name n ∧ n.Plain

theorem Component.IsStep.ne_root {c : Component} (step : c.IsStep) : c ≠ .root := by
  rcases step with rfl | ⟨n, rfl, _⟩ <;> exact Component.noConfusion

def Path.base (rooted : Bool) : List Component :=
  if rooted then [.root] else []

namespace Spelling

def steps (s : Spelling) : List Component :=
  (split s.bytes).filterMap component?

theorem isStep_of_mem_steps {s : Spelling} : ∀ c ∈ s.steps, c.IsStep :=
  Path.plain_pieces s

/-- Where a spelling starts. -/
def start (s : Spelling) : List Component :=
  Path.base s.isAbsolute

theorem root_not_mem_steps (s : Spelling) : Component.root ∉ s.steps := by
  intro member
  exact (isStep_of_mem_steps _ member).ne_root rfl

/-- A relative spelling may have a dot in front of its steps. -/
theorem components_relative {s : Spelling} (relative : s.isAbsolute = false) :
    s.components = s.steps ∨ s.components = .current :: s.steps := by
  simp only [components, relative, Bool.false_eq_true, if_false]
  split
  · exact Or.inr rfl
  · exact Or.inl rfl

theorem components_absolute {s : Spelling} (absolute : s.isAbsolute = true) :
    s.components = .root :: s.steps := by
  simp [components, absolute, steps]

theorem split_concat (before after : List UInt8) :
    split (before ++ separator :: after) = split before ++ split after := by
  induction before with
  | nil => simp [split]
  | cons b before ih =>
    by_cases same : b = separator
    · simp [split, same, ih]
    · obtain ⟨head, tail, pieces, whole⟩ := split_cons same before
      rw [List.cons_append, split, if_neg same, ih, pieces, whole]
      rfl

/-- What is joined below a spelling goes on from its steps. -/
theorem steps_join {base child : Spelling} (relative : child.isAbsolute = false) :
    (base.join child).steps = base.steps ++ child.steps := by
  simp only [join, relative, Bool.false_eq_true, if_false]
  split
  next empty => simp [steps, empty, split, component?]
  next =>
    split
    next last =>
      obtain ⟨init, shape⟩ := List.getLast?_eq_some_iff.1 last
      simp [steps, shape, split_concat, split, component?]
    next => simp [steps, split_concat]

theorem start_join {base child : Spelling} (relative : child.isAbsolute = false) :
    (base.join child).start = base.start := by
  unfold start
  congr 1
  simp only [join, relative, Bool.false_eq_true, if_false]
  split
  next empty =>
    rw [relative]
    simp [isAbsolute, empty]
  next some =>
    obtain ⟨b, rest, shape⟩ := List.exists_cons_of_ne_nil some
    split <;> simp [isAbsolute, shape]

theorem isAbsolute_join {base : Spelling} (absolute : base.isAbsolute = true) (child : Spelling) :
    (base.join child).isAbsolute = true := by
  cases anchored : child.isAbsolute with
  | true => simp [join, anchored]
  | false =>
    have same := @start_join base child anchored
    by_contra relative
    simp [start, Path.base, absolute, relative] at same

end Spelling

namespace Path

open Spelling

/-- One lexical simplification: a dot is dropped, a name that is left again is dropped, and the way
up from the root leads to the root. -/
inductive Simplifies : List Component → List Component → Prop where
  | dot (before after : List Component) (unrooted : .root ∉ after) :
      Simplifies (before ++ .current :: after) (before ++ after)
  | back (before : List Component) (n : Name) (after : List Component) (unrooted : .root ∉ after) :
      Simplifies (before ++ .name n :: .up :: after) (before ++ after)
  | top (after : List Component) : Simplifies (.root :: .up :: after) (.root :: after)

theorem normalise_congr {cs ds : List Component}
    (start : (cs.head? == some .root) = (ds.head? == some .root))
    (pushed : cs.foldl (push (ds.head? == some .root)) [] = ds.foldl (push (ds.head? == some .root)) []) :
    normalise cs = normalise ds := by
  unfold normalise
  rw [start, pushed]

/-- What is put in between without a root does not change whether there is a root in front. -/
theorem head?_append_eq {before middle after : List Component} (inner : .root ∉ middle)
    (outer : .root ∉ after) :
    ((before ++ (middle ++ after)).head? == some Component.root) =
      ((before ++ after).head? == some Component.root) := by
  cases before with
  | cons c before => rfl
  | nil =>
    have unrooted : Component.root ∉ middle ++ after := by simp [inner, outer]
    rw [List.nil_append, List.nil_append, head?_ne_root unrooted, head?_ne_root outer]

/-- A simplification keeps the normal form. -/
theorem Simplifies.normalise_eq {cs ds : List Component} (step : Simplifies cs ds) :
    normalise cs = normalise ds := by
  cases step with
  | dot before after unrooted =>
    have inner : Component.root ∉ [Component.current] := by simp
    refine normalise_congr (head?_append_eq inner unrooted) ?_
    rw [List.foldl_append, List.foldl_append]
    rfl
  | back before n after unrooted =>
    have inner : Component.root ∉ [Component.name n, .up] := by simp
    refine normalise_congr (head?_append_eq inner unrooted) ?_
    rw [List.foldl_append, List.foldl_append]
    rfl
  | top after => exact normalise_congr rfl rfl

/-- What simplifies does so in front of further steps. -/
theorem Simplifies.append {cs ds rest : List Component} (step : Simplifies cs ds)
    (unrooted : .root ∉ rest) : Simplifies (cs ++ rest) (ds ++ rest) := by
  cases step with
  | dot before after inner =>
    have further := Simplifies.dot before (after ++ rest) (by simp [inner, unrooted])
    simpa using further
  | back before n after inner =>
    have further := Simplifies.back before n (after ++ rest) (by simp [inner, unrooted])
    simpa using further
  | top after => exact .top (after ++ rest)

/-- Two lists of components are alike if the lexical rules turn one into the other. -/
abbrev Alike : List Component → List Component → Prop :=
  Relation.EqvGen Simplifies

theorem Alike.normalise_eq {cs ds : List Component} (alike : Alike cs ds) :
    normalise cs = normalise ds := by
  induction alike with
  | rel cs ds step => exact step.normalise_eq
  | refl cs => rfl
  | symm cs ds _ ih => exact ih.symm
  | trans cs ds es _ _ first second => exact first.trans second

theorem Alike.append {cs ds rest : List Component} (alike : Alike cs ds) (unrooted : .root ∉ rest) :
    Alike (cs ++ rest) (ds ++ rest) := by
  induction alike with
  | rel cs ds step => exact .rel _ _ (step.append unrooted)
  | refl cs => exact .refl _
  | symm cs ds _ ih => exact ih.symm
  | trans cs ds es _ _ first second => exact first.trans _ _ _ second

/-- What a stack is written as: a dot stands for nothing. -/
def unstack : List Component → List Component
  | [] => [.current]
  | top :: below => (top :: below).reverse

theorem unstack_of_ne_nil {stack : List Component} (some : stack ≠ []) :
    unstack stack = stack.reverse := by
  cases stack with
  | nil => exact absurd rfl some
  | cons top below => rfl

theorem push_up (ups : Nat) :
    push false (List.replicate ups .up) .up = List.replicate (ups + 1) .up := by
  cases ups <;> rfl

/-- A stack that is not anchored at the root is one of names on ways up. -/
theorem foldl_push_free {cs : List Component} (steps : ∀ c ∈ cs, c.IsStep) :
    ∃ (ups : Nat) (left : List Name), (∀ n ∈ left, n.Plain) ∧
      cs.foldl (push false) [] = piled (List.replicate ups .up) left := by
  have rises : ∀ floor, (∃ ups, floor = List.replicate ups Component.up) →
      ∃ ups, push false floor .up = List.replicate ups .up := by
    rintro floor ⟨ups, rfl⟩
    exact ⟨ups + 1, push_up ups⟩
  have none : ∀ n ∈ ([] : List Name), n.Plain := by simp
  obtain ⟨_, left, ⟨ups, rfl⟩, plain, stack⟩ := foldl_push_piled rises ⟨0, rfl⟩ none steps
  exact ⟨ups, left, plain, stack⟩

theorem normalise_base {rooted : Bool} {cs : List Component} (unrooted : .root ∉ cs) :
    normalise (base rooted ++ cs) = unstack (cs.foldl (push rooted) (base rooted)) := by
  have head : ((base rooted ++ cs).head? == some Component.root) = rooted := by
    cases rooted with
    | true => rfl
    | false => exact head?_ne_root unrooted
  have pushed : (base rooted ++ cs).foldl (push rooted) [] = cs.foldl (push rooted) (base rooted) := by
    cases rooted <;> rfl
  unfold normalise
  rw [head, pushed]
  cases cs.foldl (push rooted) (base rooted) <;> rfl

/-- The way up from a pile of names, if it is known what it is from the floor. -/
theorem alike_up {rooted : Bool} {floor : List Component}
    (rises : Alike (floor.reverse.concat .up) (push rooted floor .up).reverse) (names : List Name) :
    Alike ((piled floor names).reverse.concat .up) (push rooted (piled floor names) .up).reverse := by
  rcases List.eq_nil_or_concat' names with rfl | ⟨init, n, rfl⟩
  · exact rises
  · have left := Simplifies.back (piled floor init).reverse n [] (by simp)
    rw [piled_concat]
    exact .rel _ _ (by simpa [push] using left)

/-- A further step is alike to what the stack makes of it. -/
theorem alike_push (rooted : Bool) {cs : List Component} (steps : ∀ c ∈ cs, c.IsStep) {c : Component}
    (step : c.IsStep) :
    Alike ((cs.foldl (push rooted) (base rooted)).reverse.concat c)
      (push rooted (cs.foldl (push rooted) (base rooted)) c).reverse := by
  rcases step with rfl | ⟨n, rfl, _⟩
  · cases rooted with
    | true =>
      obtain ⟨left, _, stack⟩ := @foldl_push cs [] (by simp) steps
      have onRoot : cs.foldl (push true) (base true) = piled [.root] left := stack
      have top : Alike ([Component.root].reverse.concat .up) (push true [.root] .up).reverse :=
        .rel _ _ (.top [])
      rw [onRoot]
      exact alike_up top left
    | false =>
      obtain ⟨ups, left, _, stack⟩ := foldl_push_free steps
      have onUps : cs.foldl (push false) (base false) = piled (List.replicate ups .up) left := stack
      rw [onUps]
      refine alike_up ?_ left
      rw [push_up, List.replicate_succ, List.reverse_cons, List.concat_eq_append]
      exact .refl _
  · simpa [push] using Relation.EqvGen.refl _

/-- Steps are alike to the stack that they lead to.  The induction takes the last step off, as it is
the one that is pushed last. -/
theorem alike_stack (rooted : Bool) {cs : List Component} (steps : ∀ c ∈ cs, c.IsStep) :
    Alike (base rooted ++ cs) (cs.foldl (push rooted) (base rooted)).reverse := by
  induction cs using List.reverseRecOn with
  | nil => cases rooted <;> exact .refl _
  | append_singleton cs c ih =>
    have earlier := fun c member => steps c (List.mem_append_left _ member)
    have own : c.IsStep := steps c (by simp)
    have alone : Component.root ∉ [c] := by simpa using own.ne_root.symm
    have pushed := alike_push rooted earlier own
    rw [List.concat_eq_append] at pushed
    rw [← List.append_assoc, List.foldl_append]
    exact ((ih earlier).append alone).trans _ _ _ pushed

theorem alike_components (s : Spelling) : Alike s.components (s.start ++ s.steps) := by
  cases anchored : s.isAbsolute with
  | true =>
    rw [components_absolute anchored]
    simpa [start, base, anchored] using Relation.EqvGen.refl _
  | false =>
    have origin : s.start = [] := by simp [start, base, anchored]
    rw [origin, List.nil_append]
    rcases components_relative anchored with plain | dotted
    · rw [plain]
      exact .refl _
    · rw [dotted]
      exact .rel _ _ (.dot [] s.steps (root_not_mem_steps s))

/-- Where a spelling leads depends on its start and its steps. -/
theorem ofSpelling_eq (s : Spelling) : ofSpelling s = ⟨normalise (s.start ++ s.steps)⟩ :=
  congrArg Path.mk (alike_components s).normalise_eq

theorem components_ofSpelling (s : Spelling) :
    (ofSpelling s).components = unstack (s.steps.foldl (push s.isAbsolute) s.start) := by
  rw [ofSpelling_eq]
  exact normalise_base (root_not_mem_steps s)

/-- A spelling is alike to the path that it stands for. -/
theorem alike_ofSpelling (s : Spelling) : Alike s.components (ofSpelling s).components := by
  refine (alike_components s).trans _ _ _ ?_
  refine (alike_stack s.isAbsolute isStep_of_mem_steps).trans _ _ _ ?_
  rw [components_ofSpelling]
  unfold start
  cases s.steps.foldl (push s.isAbsolute) (base s.isAbsolute) with
  | nil => exact (Relation.EqvGen.rel _ _ (.dot [] [] (by simp))).symm
  | cons top below => exact .refl _

/-- Spellings stand for one path exactly if the lexical rules turn one into the other. -/
theorem ofSpelling_eq_iff {s t : Spelling} :
    ofSpelling s = ofSpelling t ↔ Alike s.components t.components := by
  constructor
  · intro same
    have turned := alike_ofSpelling t
    rw [← same] at turned
    exact (alike_ofSpelling s).trans _ _ _ turned.symm
  · intro alike
    exact congrArg Path.mk alike.normalise_eq

/-- Joining to the path that a spelling stands for is joining to the spelling. -/
theorem join_ofSpelling (base child : Spelling) :
    (ofSpelling base).join child = ofSpelling (base.join child) := by
  cases anchored : child.isAbsolute with
  | true => simp [Path.join, Spelling.join, anchored]
  | false =>
    have unrooted := root_not_mem_components anchored
    have alike : Alike ((ofSpelling base).components ++ child.components)
        (base.start ++ base.steps ++ child.components) := by
      have left := (alike_ofSpelling base).symm.trans _ _ _ (alike_components base)
      exact Alike.append left unrooted
    have dropped : Alike (base.start ++ base.steps ++ child.components)
        (base.start ++ base.steps ++ child.steps) := by
      rcases components_relative anchored with plain | dotted
      · rw [plain]
        exact .refl _
      · rw [dotted]
        exact .rel _ _ (.dot _ _ (root_not_mem_steps child))
    rw [ofSpelling_eq (base.join child), start_join anchored, steps_join anchored,
      ← List.append_assoc]
    simp only [Path.join, anchored, Bool.false_eq_true, if_false]
    rw [alike.normalise_eq, dropped.normalise_eq]

end Path

end ProjectIndex
