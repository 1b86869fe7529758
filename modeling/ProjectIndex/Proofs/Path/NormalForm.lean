import ProjectIndex.Proofs.Path.Ancestry
import ProjectIndex.Proofs.Path.Lexical

/-!
# Normal forms

A path is normal if some spelling stands for it.  Normal paths come in two shapes: the root and plain
names below it, or, where the spelling does not start at the root, ways up and plain names after them,
with a dot where nothing is left.  The canonical spelling of a normal path stands for that path again,
so a key can be spelled and read again, and stays the same key (`one_key_for_each_place`).
-/

namespace ProjectIndex.Path

open Spelling

open renderTail (renderOne)

theorem renderTail_eq_names (cs : List Component) :
    renderTail cs = renderTail ((cs.map renderOne).map .name) := by
  induction cs with
  | nil => rfl
  | cons c rest ih =>
    cases rest with
    | nil => rfl
    | cons d rest => exact congrArg (renderOne c ++ separator :: ·) ih

theorem component_renderOne {c : Component} (step : c.IsStep) : component? (renderOne c) = some c := by
  rcases step with rfl | ⟨n, rfl, plain⟩
  · rfl
  · simp [component?, renderOne, plain.nonempty, plain.notDot, plain.notDotDot]

theorem unsplit_renderOne {c : Component} (step : c.IsStep) : separator ∉ renderOne c := by
  rcases step with rfl | ⟨n, rfl, plain⟩
  · decide
  · exact plain.unsplit

theorem head?_renderOne {c : Component} (step : c.IsStep) :
    ∃ b rest, renderOne c = b :: rest ∧ b ≠ separator := by
  rcases step with rfl | ⟨n, rfl, plain⟩
  · exact ⟨_, _, rfl, by decide⟩
  · obtain ⟨b, rest, shape⟩ := List.exists_cons_of_ne_nil plain.nonempty
    refine ⟨b, rest, shape, fun same => plain.unsplit ?_⟩
    simp [shape, same]

theorem renderOne_ne_dot {c : Component} (step : c.IsStep) : renderOne c ≠ dot := by
  rcases step with rfl | ⟨n, rfl, plain⟩
  · decide
  · exact plain.notDot

theorem split_renderTail_steps {cs : List Component} (some : cs ≠ []) (steps : ∀ c ∈ cs, c.IsStep) :
    split (renderTail cs) = cs.map renderOne := by
  rw [renderTail_eq_names]
  refine split_renderTail (by simpa using some) fun n member => ?_
  obtain ⟨c, inside, rfl⟩ := List.mem_map.1 member
  exact unsplit_renderOne (steps c inside)

/-- The steps of what is rendered are what was rendered. -/
theorem steps_renderTail {cs : List Component} (steps : ∀ c ∈ cs, c.IsStep) :
    Spelling.steps ⟨renderTail cs⟩ = cs := by
  by_cases empty : cs = []
  · subst empty
    rfl
  · have each : cs.filterMap (component? ∘ renderOne) = cs.filterMap some :=
      List.filterMap_congr fun c member => component_renderOne (steps c member)
    rw [Spelling.steps, split_renderTail_steps empty steps, List.filterMap_map, each,
      List.filterMap_some]

theorem isAbsolute_renderTail {cs : List Component} (steps : ∀ c ∈ cs, c.IsStep) :
    Spelling.isAbsolute ⟨renderTail cs⟩ = false := by
  cases cs with
  | nil => rfl
  | cons c rest =>
    obtain ⟨b, tail, shape, other⟩ := head?_renderOne (steps c (by simp))
    cases rest <;> simp [Spelling.isAbsolute, renderTail, shape, other]

/-- Steps that are rendered are read again as they were. -/
theorem components_renderTail {cs : List Component} (steps : ∀ c ∈ cs, c.IsStep) :
    Spelling.components ⟨renderTail cs⟩ = cs := by
  rcases components_relative (isAbsolute_renderTail steps) with plain | dotted
  · rw [plain, steps_renderTail steps]
  · exfalso
    have front : (split (renderTail cs)).head? = some dot := by
      by_contra other
      simp [Spelling.components, isAbsolute_renderTail steps, other, Spelling.steps] at dotted
    cases cs with
    | nil => simp [renderTail, split, dot] at front
    | cons c rest =>
      rw [split_renderTail_steps (by simp) steps] at front
      exact renderOne_ne_dot (steps c (by simp)) (Option.some.inj front)

theorem render_of_steps {cs : List Component} (steps : ∀ c ∈ cs, c.IsStep) :
    render cs = renderTail cs := by
  unfold render
  split
  next rest => exact absurd rfl (steps .root (by simp)).ne_root
  · rfl

/-- A normal path that is not anchored at the root: ways up and plain names after them, or a dot. -/
def Relative (p : Path) : Prop :=
  p.components = [.current] ∨
    ∃ (ups : Nat) (names : List Name), 0 < ups + names.length ∧ (∀ n ∈ names, n.Plain) ∧
      p.components = List.replicate ups .up ++ names.map .name

theorem isStep_of_shape {ups : Nat} {names : List Name} (plain : ∀ n ∈ names, n.Plain) :
    ∀ c ∈ List.replicate ups .up ++ names.map .name, Component.IsStep c := by
  intro c member
  rcases List.mem_append.1 member with up | named
  · exact Or.inl (List.eq_of_mem_replicate up)
  · obtain ⟨n, inside, rfl⟩ := List.mem_map.1 named
    exact Or.inr ⟨n, rfl, plain n inside⟩

theorem shape_ne_nil {ups : Nat} {names : List Name} (some : 0 < ups + names.length) :
    List.replicate ups Component.up ++ names.map .name ≠ [] := by
  intro empty
  have lengths := congrArg List.length empty
  simp only [List.length_append, List.length_map, List.length_replicate, List.length_nil] at lengths
  omega

theorem Plain.components_spelling {p : Path} (plain : p.Plain) : p.spelling.components = p.components := by
  obtain ⟨names, rfl, each⟩ := plain
  have steps := @isStep_of_shape 0 names each
  have own : Spelling.steps ⟨renderTail (names.map .name)⟩ = names.map .name :=
    steps_renderTail (by simpa using steps)
  have anchored : (root.descend names).spelling.isAbsolute = true := rfl
  rw [components_absolute anchored]
  have below : (root.descend names).spelling.steps = Spelling.steps ⟨renderTail (names.map .name)⟩ := by
    simp [Spelling.steps, spelling_descend, split, component?]
  rw [below, own]
  rfl

theorem Relative.components_spelling {p : Path} (relative : p.Relative) :
    p.spelling.components = p.components := by
  obtain ⟨components⟩ := p
  rcases relative with rfl | ⟨ups, names, _, plain, rfl⟩
  · rfl
  · have steps := @isStep_of_shape ups names plain
    simp only [spelling, render_of_steps steps]
    exact components_renderTail steps

/-- A relative spelling stands for ways up and names, or for a dot. -/
theorem relative_ofSpelling {s : Spelling} (relative : s.isAbsolute = false) :
    (ofSpelling s).Relative := by
  obtain ⟨ups, left, plain, shape⟩ := foldl_push_free (@isStep_of_mem_steps s)
  have stack : s.steps.foldl (push s.isAbsolute) s.start = piled (List.replicate ups .up) left := by
    simpa [start, base, relative] using shape
  have components := components_ofSpelling s
  rw [stack] at components
  by_cases empty : piled (List.replicate ups .up) left = []
  · rw [empty] at components
    exact Or.inl components
  · refine Or.inr ⟨ups, left, ?_, plain, ?_⟩
    · by_contra none
      have noUps : ups = 0 := by omega
      have noNames : left = [] := List.eq_nil_of_length_eq_zero (by omega)
      simp [piled, noUps, noNames] at empty
    · rw [unstack_of_ne_nil empty] at components
      simpa [piled] using components

theorem plain_of_absolute {s : Spelling} (absolute : s.isAbsolute = true) : (ofSpelling s).Plain :=
  plain_ofSpelling ((isAbsolute_ofSpelling_eq s).trans absolute)

/-- Some spelling stands for the path. -/
def Normal (p : Path) : Prop :=
  ∃ s, ofSpelling s = p

theorem normal_ofSpelling (s : Spelling) : (ofSpelling s).Normal :=
  ⟨s, rfl⟩

theorem Normal.shape {p : Path} (normal : p.Normal) : p.Plain ∨ p.Relative := by
  obtain ⟨s, rfl⟩ := normal
  cases anchored : s.isAbsolute with
  | true => exact Or.inl (plain_of_absolute anchored)
  | false => exact Or.inr (relative_ofSpelling anchored)

theorem components_spelling_of_shape {p : Path} (shape : p.Plain ∨ p.Relative) :
    p.spelling.components = p.components :=
  shape.elim Plain.components_spelling Relative.components_spelling

theorem Normal.components_spelling {p : Path} (normal : p.Normal) :
    p.spelling.components = p.components :=
  components_spelling_of_shape normal.shape

/-- The canonical spelling of a normal path stands for it. -/
theorem Normal.ofSpelling_spelling {p : Path} (normal : p.Normal) : ofSpelling p.spelling = p := by
  obtain ⟨s, rfl⟩ := normal
  have read := (normal_ofSpelling s).components_spelling
  refine ofSpelling_eq_iff.2 ?_
  rw [read]
  exact (alike_ofSpelling s).symm

theorem Plain.normalise_components {p : Path} (plain : p.Plain) :
    normalise p.components = p.components := by
  obtain ⟨names, rfl, _⟩ := plain
  have stack : (names.map Component.name).foldl (push true) (base true) =
      (names.map .name).reverse ++ [.root] := foldl_push_append names true [.root]
  have normal := @normalise_base true (names.map .name) (by simp)
  rw [stack, unstack_of_ne_nil (by simp)] at normal
  simpa [descend, root, base] using normal

theorem foldl_push_ups (ups more : Nat) :
    (List.replicate more .up).foldl (push false) (List.replicate ups .up) =
      List.replicate (ups + more) .up := by
  induction more generalizing ups with
  | zero => rfl
  | succ more ih =>
    rw [List.replicate_succ, List.foldl_cons, push_up, ih]
    congr 1
    omega

theorem Relative.normalise_components {p : Path} (relative : p.Relative) :
    normalise p.components = p.components := by
  obtain ⟨components⟩ := p
  rcases relative with rfl | ⟨ups, names, some, plain, rfl⟩
  · rfl
  · have ascended : (List.replicate ups .up).foldl (push false) (base false) =
        List.replicate ups .up := by
      have all := foldl_push_ups 0 ups
      rwa [Nat.zero_add] at all
    have stack : (List.replicate ups Component.up ++ names.map Component.name).foldl (push false)
        (base false) =
        (List.replicate ups Component.up ++ names.map Component.name).reverse := by
      rw [List.foldl_append, ascended, List.reverse_append, List.reverse_replicate]
      exact foldl_push_append names false _
    have unrooted : Component.root ∉ List.replicate ups .up ++ names.map .name :=
      fun member => (isStep_of_shape plain _ member).ne_root rfl
    have nonempty := List.reverse_ne_nil_iff.2 (shape_ne_nil some)
    have normal := @normalise_base false _ unrooted
    rwa [stack, unstack_of_ne_nil nonempty, List.reverse_reverse] at normal

theorem normalise_of_shape {p : Path} (shape : p.Plain ∨ p.Relative) :
    normalise p.components = p.components :=
  shape.elim Plain.normalise_components Relative.normalise_components

theorem Normal.normalise_components {p : Path} (normal : p.Normal) :
    normalise p.components = p.components :=
  normalise_of_shape normal.shape

/-- The normal paths are those of the two shapes. -/
theorem normal_iff {p : Path} : p.Normal ↔ p.Plain ∨ p.Relative := by
  constructor
  · exact Normal.shape
  · intro shape
    refine ⟨p.spelling, ?_⟩
    rw [ofSpelling, components_spelling_of_shape shape, normalise_of_shape shape]

theorem Normal.nonempty {p : Path} (normal : p.Normal) : p.components ≠ [] := by
  rcases normal.shape with ⟨names, rfl, _⟩ | dot | ⟨ups, names, some, _, shape⟩
  · simp [descend, root]
  · simp [dot]
  · rw [shape]
    exact shape_ne_nil some

/-- After its first component a normal path goes on in steps. -/
theorem Normal.isStep_of_mem_tail {p : Path} (normal : p.Normal) :
    ∀ c ∈ p.components.tail, c.IsStep := by
  intro c member
  rcases normal.shape with ⟨names, rfl, plain⟩ | dot | ⟨ups, names, _, plain, shape⟩
  · obtain ⟨n, inside, rfl⟩ := List.mem_map.1 (show c ∈ names.map .name from member)
    exact Or.inr ⟨n, rfl, plain n inside⟩
  · simp [dot] at member
  · rw [shape] at member
    exact isStep_of_shape plain c (List.mem_of_mem_tail member)

/-- Among all spellings of one place exactly one is that of a normal path. -/
theorem existsUnique_normal (s : Spelling) :
    ∃! q : Path, q.Normal ∧ Alike q.spelling.components s.components := by
  refine ⟨ofSpelling s, ⟨normal_ofSpelling s, ?_⟩, ?_⟩
  · rw [(normal_ofSpelling s).components_spelling]
    exact (alike_ofSpelling s).symm
  · rintro q ⟨normal, alike⟩
    exact normal.ofSpelling_spelling.symm.trans (ofSpelling_eq_iff.2 alike)

/-- A beginning of a path of plain names is one, as long as the root is in it. -/
theorem Plain.of_covered {p q : Path} (plain : p.Plain) (covers : q.Covers p)
    (nonempty : q.components ≠ []) : q.Plain := by
  obtain ⟨names, rfl, each⟩ := plain
  obtain ⟨components⟩ := q
  obtain ⟨first, rest, rfl⟩ := List.exists_cons_of_ne_nil nonempty
  have inside : first :: rest <+: .root :: names.map .name := covers
  obtain ⟨rfl, below⟩ := List.cons_prefix_cons.1 inside
  obtain ⟨n, taken⟩ : ∃ n, rest = (names.take n).map .name := by
    refine ⟨rest.length, ?_⟩
    rw [List.map_take]
    exact List.prefix_iff_eq_take.1 below
  refine ⟨names.take n, ?_, fun m member => each m (List.mem_of_mem_take member)⟩
  simp [descend, root, taken]

theorem Plain.parent {p d : Path} (plain : p.Plain) (parent : p.parent = some d) : d.Plain := by
  refine plain.of_covered (covers_of_parent parent) fun empty => ?_
  obtain ⟨names, rfl, _⟩ := plain
  obtain ⟨c, notRoot, split⟩ := parent_eq_some_iff.1 parent
  rw [empty] at split
  have first : Component.root = c := (List.cons.inj split).1
  exact notRoot first.symm

theorem Plain.ancestor {p q : Path} (plain : p.Plain) (above : q ∈ p.ancestors) : q.Plain := by
  obtain ⟨_, covers, counts⟩ := mem_ancestors_iff.1 above
  refine plain.of_covered covers fun empty => counts ⟨?_, empty⟩
  obtain ⟨names, rfl, _⟩ := plain
  rfl

theorem Plain.join {s : Spelling} (absolute : s.isAbsolute = true) (c : Spelling) :
    ((ofSpelling s).join c).Plain := by
  rw [join_ofSpelling]
  exact plain_of_absolute (isAbsolute_join absolute c)

/-- Normalisation settles at once, gives one of the two normal shapes, and may be done before or after
joining; the absolute normal paths are closed under parents, ancestors and joining.  Two spellings are
one key exactly if the lexical rules turn one into the other, so each place that can be spelled has
exactly one key. -/
theorem one_key_for_each_place (p c : Spelling) :
    ofSpelling (ofSpelling p).spelling = ofSpelling p ∧
      (if p.isAbsolute then (ofSpelling p).Plain else (ofSpelling p).Relative) ∧
      (∀ q : Path, q.Normal ↔ q.Plain ∨ q.Relative) ∧
      (ofSpelling p).join c = ofSpelling (p.join c) ∧
      (p.isAbsolute = true →
        (∀ d, (ofSpelling p).parent = some d → d.Plain) ∧ (∀ q ∈ (ofSpelling p).ancestors, q.Plain) ∧
          ((ofSpelling p).join c).Plain) ∧
      (ofSpelling p = ofSpelling c ↔ Alike p.components c.components) ∧
      ∃! q : Path, q.Normal ∧ Alike q.spelling.components p.components := by
  refine ⟨(normal_ofSpelling p).ofSpelling_spelling, ?_, fun q => normal_iff, join_ofSpelling p c,
    fun absolute => ?_, ofSpelling_eq_iff, existsUnique_normal p⟩
  · split
    next absolute => exact plain_of_absolute absolute
    next relative => exact relative_ofSpelling (by simpa using relative)
  · have plain := plain_of_absolute absolute
    exact ⟨fun d => plain.parent, fun q => plain.ancestor, .join absolute c⟩

/-- A spelling with every kind of detour, and one that leaves it again. -/
theorem one_key_for_each_place_detour :
    let p := Spelling.ofString "/../srv//a/./b/../c/"
    let c := Spelling.ofString "../../d"
    p.isAbsolute = true ∧ ofSpelling p = ofSpelling (.ofString "/srv/a/c") ∧
      (ofSpelling p).join c = ofSpelling (.ofString "/srv/d") ∧
      (∀ q ∈ (ofSpelling p).ancestors, q.Plain) ∧ ((ofSpelling p).join c).Plain := by
  intro p c
  have absolute : p.isAbsolute = true := by decide
  obtain ⟨_, above, joined⟩ := (one_key_for_each_place p c).2.2.2.2.1 absolute
  exact ⟨absolute, by decide, by decide, above, joined⟩

end ProjectIndex.Path
