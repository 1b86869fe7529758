import ProjectIndex.Change
import ProjectIndex.Proofs.Path.NormalForm
import Mathlib.Data.List.Destutter

/-!
# Changes keep their paths

A reported path is split into a directory and a name, equal neighbours among the splits are merged, and
each split is put together again before the entry is looked at.  Splitting is the inverse of putting
together on every normal path that ends in a name (`resolve_eq_of_ofPath?`), so splits are equal exactly
if their paths are, and merging splits is merging paths.  No path that ends in a name is lost on the way
(`changes_keep_paths`); the root, the dot and the ways up have no name to split off and are dropped.
-/

namespace ProjectIndex

namespace Path

variable {p : Path} {n : Name}

/-- The path leads to an entry of some directory. -/
def EndsInName (p : Path) : Prop :=
  ∃ n, p.components.getLast? = some (.name n)

theorem isSome_name?_iff : p.name?.isSome = true ↔ p.EndsInName := by
  rw [Option.isSome_iff_exists]
  exact exists_congr fun n => name?_eq_some_iff

instance : DecidablePred EndsInName :=
  fun _ => decidable_of_iff _ isSome_name?_iff

theorem Normal.plain_of_mem (normal : p.Normal) (member : .name n ∈ p.components) : n.Plain := by
  rcases normal.shape with ⟨names, rfl, plain⟩ | dot | ⟨ups, names, _, plain, shape⟩
  · exact plain n (by simpa [descend, root] using member)
  · simp [dot] at member
  · exact plain n (by simpa [shape] using member)

/-- A normal path ends in a name unless it is the root, the dot or a way up. -/
theorem Normal.endsInName_iff (normal : p.Normal) :
    p.EndsInName ↔ p ≠ root ∧ p ≠ .ofString "." ∧ p.components.getLast? ≠ some .up := by
  constructor
  · rintro ⟨n, last⟩
    refine ⟨?_, ?_, by simp [last]⟩
    · rintro rfl
      simp [root] at last
    · rintro rfl
      have dot : (ofString ".").components = [.current] := by decide
      simp [dot] at last
  · rintro ⟨notRoot, notDot, notUp⟩
    rcases normal.shape with ⟨names, rfl, _⟩ | dot | ⟨ups, names, some, _, shape⟩
    · rcases List.eq_nil_or_concat' names with rfl | ⟨init, n, rfl⟩
      · exact absurd (descend_nil root) notRoot
      · refine ⟨n, ?_⟩
        rw [descend, List.map_append, ← List.append_assoc]
        exact List.getLast?_concat ..
    · exact absurd (congrArg Path.mk dot) notDot
    · rcases List.eq_nil_or_concat' names with rfl | ⟨init, n, rfl⟩
      · have above : 0 < ups := some
        have last : (List.replicate ups Component.up).getLast? = Option.some .up := by
          rw [List.getLast?_replicate, if_neg (by omega)]
        exact absurd (by simpa [shape] using last) notUp
      · exact ⟨n, by simp [shape]⟩

end Path

namespace Change

open ProjectIndex.Path

variable {p : Path} {n : Name}

theorem ofPath?_eq_some (last : p.components.getLast? = some (.name n)) :
    ofPath? p = some ⟨⟨p.components.dropLast⟩, ⟨n⟩⟩ := by
  simp [ofPath?, Path.parent, name?_eq_some_iff.2 last, last]

theorem ofPath?_eq_none (unnamed : ¬ p.EndsInName) : ofPath? p = none := by
  have nameless : p.name? = none := by
    rwa [← isSome_name?_iff, Option.not_isSome_iff_eq_none] at unnamed
  unfold ofPath?
  rw [nameless]
  cases p.parent <;> rfl

/-- The name is put back where it was split off.  It stands for itself in a spelling, since it is a
component of a normal path. -/
theorem resolve_split (normal : p.Normal) (last : p.components.getLast? = some (.name n)) :
    resolve ⟨⟨p.components.dropLast⟩, ⟨n⟩⟩ = p := by
  have plain : n.Plain := normal.plain_of_mem (List.mem_of_getLast? last)
  have step : ∀ c ∈ [Component.name n], c.IsStep := by
    intro c member
    rw [List.mem_singleton.1 member]
    exact Or.inr ⟨n, rfl, plain⟩
  have relative : Spelling.isAbsolute ⟨n⟩ = false := isAbsolute_renderTail step
  have own : Spelling.components ⟨n⟩ = [.name n] := components_renderTail step
  have whole : p.components.dropLast ++ [.name n] = p.components :=
    List.dropLast_append_getLast? _ last
  calc resolve ⟨⟨p.components.dropLast⟩, ⟨n⟩⟩
    _ = ⟨normalise (p.components.dropLast ++ [.name n])⟩ := by simp [resolve, join, relative, own]
    _ = ⟨normalise p.components⟩ := by rw [whole]
    _ = p := by rw [normal.normalise_components]

/-- What was split off a normal path is put together to that path again. -/
theorem resolve_eq_of_ofPath? {c : Change} (normal : p.Normal) (split : ofPath? p = some c) :
    c.resolve = p := by
  have named : p.EndsInName := by
    by_contra unnamed
    simp [ofPath?_eq_none unnamed] at split
  obtain ⟨n, last⟩ := named
  rw [ofPath?_eq_some last, Option.some.injEq] at split
  subst split
  exact resolve_split normal last

theorem map_resolve_ofPath? (normal : p.Normal) :
    (ofPath? p).map resolve = if p.EndsInName then some p else none := by
  split
  next named =>
    obtain ⟨n, last⟩ := named
    rw [ofPath?_eq_some last, Option.map_some, resolve_split normal last]
  next unnamed => rw [ofPath?_eq_none unnamed, Option.map_none]

section Repeats

variable {α : Type} [DecidableEq α]

/-- An element is dropped only next to an equal one. -/
theorem dropRepeats_eq_destutter (xs : List α) : dropRepeats xs = xs.destutter (· ≠ ·) := by
  fun_induction dropRepeats xs with
  | case1 => rfl
  | case2 a => rfl
  | case3 b rest ih => simp [ih, List.destutter_cons']
  | case4 a b rest other ih => simp [ih, other, List.destutter_cons']

theorem mem_dropRepeats {a : α} {xs : List α} : a ∈ dropRepeats xs ↔ a ∈ xs := by
  fun_induction dropRepeats xs with
  | case1 | case2 => rfl
  | case3 b rest ih => simp [ih]
  | case4 b c rest other ih => rw [List.mem_cons, ih, ← List.mem_cons]

end Repeats

def splits (paths : List Spelling) : List Change :=
  paths.filterMap fun s => ofPath? (.ofSpelling s)

theorem map_resolve_splits (paths : List Spelling) :
    (splits paths).map resolve = (paths.map Path.ofSpelling).filter fun p => p.EndsInName := by
  have each : ∀ s, (ofPath? (.ofSpelling s)).map resolve =
      Option.guard (fun p => decide p.EndsInName) (Path.ofSpelling s) := by
    intro s
    rw [map_resolve_ofPath? (normal_ofSpelling s), Option.guard]
    simp only [decide_eq_true_eq]
  rw [splits, List.map_filterMap, ← List.filterMap_eq_filter, List.filterMap_map]
  exact List.filterMap_congr fun s _ => each s

/-- A split of a reported path is the split of what it is put together to. -/
theorem ofPath?_resolve {paths : List Spelling} {c : Change} (member : c ∈ splits paths) :
    ofPath? c.resolve = some c := by
  obtain ⟨s, _, split⟩ := List.mem_filterMap.1 member
  rw [resolve_eq_of_ofPath? (normal_ofSpelling s) split, split]

/-- Splits of reported paths differ exactly if the paths do. -/
theorem ne_iff_resolve_ne {paths : List Spelling} {c d : Change} (first : c ∈ splits paths)
    (second : d ∈ splits paths) : c ≠ d ↔ c.resolve ≠ d.resolve := by
  refine not_congr ⟨congrArg resolve, fun same => ?_⟩
  have splits : some c = some d := by
    rw [← ofPath?_resolve first, ← ofPath?_resolve second, same]
  exact Option.some.inj splits

/-- Merging the splits is merging the paths. -/
theorem map_resolve_ofReport (r : Report) :
    (ofReport r).map resolve = if r.isAccess then []
      else ((r.paths.map Path.ofSpelling).filter fun p => p.EndsInName).destutter (· ≠ ·) := by
  have merged : ofReport r = if r.isAccess then [] else (splits r.paths).destutter (· ≠ ·) := by
    rw [← dropRepeats_eq_destutter]
    rfl
  have apart := List.map_destutter fun c first d second => @ne_iff_resolve_ne r.paths c d first second
  rw [merged]
  split
  · rfl
  · rw [apart, map_resolve_splits]

theorem mem_map_resolve_ofReport (r : Report) (p : Path) :
    p ∈ (ofReport r).map resolve ↔
      r.isAccess = false ∧ p.EndsInName ∧ ∃ s ∈ r.paths, Path.ofSpelling s = p := by
  rw [map_resolve_ofReport]
  cases r.isAccess with
  | true => simp
  | false =>
    simp only [Bool.false_eq_true, if_false, ← dropRepeats_eq_destutter, mem_dropRepeats,
      List.mem_filter, List.mem_map, decide_eq_true_eq, true_and]
    exact and_comm

/-- The changes of a report are about its paths that end in a name, in their order, equal neighbours
merged, and about nothing else; that a file was read is no change.  Splitting a path and putting it
together again gives the path, wherever it starts and whatever bytes its name is made of, and only
the root, the dot and the ways up cannot be split. -/
theorem changes_keep_paths (r : Report) :
    (ofReport r).map resolve =
        (if r.isAccess then []
          else ((r.paths.map Path.ofSpelling).filter fun p => p.EndsInName).destutter (· ≠ ·)) ∧
      (∀ p, p ∈ (ofReport r).map resolve ↔
        r.isAccess = false ∧ p.EndsInName ∧ ∃ s ∈ r.paths, Path.ofSpelling s = p) ∧
      (∀ s, (ofPath? (.ofSpelling s)).map resolve =
        if (Path.ofSpelling s).EndsInName then some (.ofSpelling s) else none) ∧
      ∀ s, (Path.ofSpelling s).EndsInName ↔
        Path.ofSpelling s ≠ .root ∧ Path.ofSpelling s ≠ .ofString "." ∧
          (Path.ofSpelling s).components.getLast? ≠ some .up := by
  refine ⟨map_resolve_ofReport r, mem_map_resolve_ofReport r, fun s => ?_, fun s => ?_⟩
  · exact map_resolve_ofPath? (normal_ofSpelling s)
  · exact (normal_ofSpelling s).endsInName_iff

/-- Two spellings of one entry with the root between them, a name that is no text, and a way that leads
back to where it starts. -/
example :
    (ofReport ⟨false, [.ofString "/a/./b", .ofString "/", .ofString "/a/c/../b/", ⟨[0xFF]⟩,
      .ofString "x/.."]⟩).map resolve = [.ofString "/a/b", .ofSpelling ⟨[0xFF]⟩] := by
  decide

end Change

end ProjectIndex
