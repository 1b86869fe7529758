import ProjectIndex.Manifest.Layout
import ProjectIndex.Proofs.Path.NormalForm
import ProjectIndex.Proofs.Text.Encoded

/-!
# The place of a manifest

A manifest counts outside of third-party packages, and inside of them if it is the manifest of a
package itself.  The place is judged from the names of a path that are UTF-8, as if the others were not
there.  So the rule is that of `Placed` for the legible part of a path (`counts_iff_placed_legibly`).
Where the last four components can be read, this is the rule for the whole path; where they cannot, a
package without a legible name loses its manifest, and test data in a directory without one is taken
for a package.
-/

namespace ProjectIndex

def Component.isLegible : Component → Bool
  | .name n => Utf8.isValid n
  | _ => true

def Path.legible (p : Path) : Path :=
  ⟨p.components.filter Component.isLegible⟩

/-- Outside of third-party packages, or directly in one of them, whose name may follow a scope. -/
def Layout.Placed (l : Layout) (p : Path) : Prop :=
  Component.name l.dependencyDir ∉ p.components ∨
    (∃ package, isScope package = false ∧
      [.name l.dependencyDir, .name package, .name l.manifestName] <:+ p.components) ∨
    ∃ scope package, isScope scope = true ∧
      [.name l.dependencyDir, .name scope, .name package, .name l.manifestName] <:+ p.components

namespace Layout

theorem prefix_filter_iff {α : Type} {keep : α → Bool} {xs : List α} {n : Nat}
    (kept : ∀ x ∈ xs.take n, keep x = true) {s : List α} (short : s.length ≤ n) :
    s <+: xs.filter keep ↔ s <+: xs := by
  induction xs generalizing n s with
  | nil => simp
  | cons x xs ih =>
    cases s with
    | nil => simp
    | cons a s =>
      obtain ⟨n, rfl⟩ : ∃ m, n = m + 1 := ⟨n - 1, by simp at short; omega⟩
      have first : keep x = true := kept x (by simp)
      have later : ∀ y ∈ xs.take n, keep y = true := fun y member => kept y (by simp [member])
      rw [List.filter_cons_of_pos first, List.cons_prefix_cons, List.cons_prefix_cons,
        ih later (by simpa using short)]

/-- A short end is an end of what is kept if the whole end of that length is kept. -/
theorem suffix_filter_iff {α : Type} {keep : α → Bool} {xs : List α} {n : Nat}
    (kept : ∀ x ∈ xs.reverse.take n, keep x = true) {s : List α} (short : s.length ≤ n) :
    s <:+ xs.filter keep ↔ s <:+ xs := by
  rw [← List.reverse_prefix, ← List.reverse_prefix, ← List.filter_reverse]
  exact prefix_filter_iff kept (by simpa using short)

theorem prefix_names_iff {base : List Component} (nameless : ∀ n, Component.name n ∉ base)
    {s names : List Name} : s.map Component.name <+: names.map .name ++ base ↔ s <+: names := by
  induction s generalizing names with
  | nil => simp
  | cons a s ih =>
    cases names with
    | nil =>
      have none : ¬ (a :: s).map Component.name <+: base := by
        rintro ⟨rest, split⟩
        exact nameless a (by simp [← split])
      simpa using none
    | cons b names =>
      simp only [List.map_cons, List.cons_append, List.cons_prefix_cons, ih, Component.name.injEq]

/-- Names at the end of a path are at the end of its names. -/
theorem suffix_names_iff {base : List Component} (nameless : ∀ n, Component.name n ∉ base)
    {s names : List Name} : s.map Component.name <:+ base ++ names.map .name ↔ s <:+ names := by
  rw [← List.reverse_prefix, ← List.reverse_prefix, List.reverse_append, ← List.map_reverse,
    ← List.map_reverse]
  exact prefix_names_iff (by simpa using nameless)

end Layout

/-- A normal path is a start without names and names after it. -/
theorem Path.Normal.exists_names {p : Path} (normal : p.Normal) :
    ∃ (base : List Component) (names : List Name), (∀ n, Component.name n ∉ base) ∧
      p.components = base ++ names.map .name := by
  rcases normal.shape with ⟨names, rfl, _⟩ | dot | ⟨ups, names, _, _, shape⟩
  · exact ⟨[.root], names, by simp, rfl⟩
  · exact ⟨[.current], [], by simp, by simpa using dot⟩
  · exact ⟨List.replicate ups .up, names, by simp, shape⟩

namespace Path

variable {p : Path} {base : List Component} {names : List Name}

theorem legible_components (nameless : ∀ n, Component.name n ∉ base)
    (shape : p.components = base ++ names.map .name) :
    p.legible.components = base ++ (names.filter Utf8.isValid).map .name := by
  have kept : base.filter Component.isLegible = base := by
    refine List.filter_eq_self.2 fun c member => ?_
    cases c with
    | name n => exact absurd member (nameless n)
    | _ => rfl
  have named : Component.isLegible ∘ Component.name = Utf8.isValid := rfl
  rw [legible, shape, List.filter_append, kept, List.filter_map, named]

theorem segments_of_shape (nameless : ∀ n, Component.name n ∉ base)
    (shape : p.components = base ++ names.map .name) : p.segments = names.filter Utf8.isValid := by
  unfold segments
  rw [shape, List.filterMap_append, List.filterMap_map, List.filterMap_eq_nil_iff.2,
    ← List.filterMap_eq_filter]
  · rfl
  · intro c member
    cases c with
    | name n => exact absurd member (nameless n)
    | _ => rfl

theorem basename_eq_some_iff {n : Name} :
    p.basename = some n ↔ p.components.getLast? = some (.name n) ∧ Utf8.isValid n = true := by
  rw [basename, Option.filter_eq_some_iff, name?_eq_some_iff]

end Path

namespace Layout

variable {l : Layout} {p : Path}

/-- The rule of `Placed` for the legible names above the manifest, the nearest first. -/
theorem placed_legible_iff {base : List Component} {names : List Name}
    (nameless : ∀ n, Component.name n ∉ base)
    (shape : p.components = base ++ (names ++ [l.manifestName]).map .name)
    (legible : Utf8.isValid l.manifestName = true) :
    l.Placed p.legible ↔
      l.isDependency p = false ∨
        (∃ package, isScope package = false ∧
          [package, l.dependencyDir] <+: (names.filter Utf8.isValid).reverse) ∨
        ∃ scope package, isScope scope = true ∧
          [package, scope, l.dependencyDir] <+: (names.filter Utf8.isValid).reverse := by
  have ends (s : List Name) :
      (s ++ [l.manifestName]).map .name <:+ p.legible.components ↔
        s.reverse <+: (names.filter Utf8.isValid).reverse := by
    rw [Path.legible_components nameless shape, suffix_names_iff nameless, ← List.reverse_prefix,
      List.filter_append, List.filter_cons_of_pos legible]
    simp
  have absent : Component.name l.dependencyDir ∉ p.legible.components ↔ l.isDependency p = false := by
    rw [Path.legible_components nameless shape, isDependency, Path.segments_of_shape nameless shape]
    simp [nameless]
  have direct (package : Name) := ends [l.dependencyDir, package]
  have inScope (scope package : Name) := ends [l.dependencyDir, scope, package]
  simp only [List.map_cons, List.map_nil, List.cons_append, List.nil_append, List.reverse_cons,
    List.reverse_nil] at direct inScope
  unfold Placed
  simp only [absent, direct, inScope]

/-- The program judges a file by its last component and the place of the legible part of its path. -/
theorem isOfInterest_iff (normal : p.Normal) (legible : Utf8.isValid l.manifestName = true) :
    l.isOfInterest p = true ↔
      p.components.getLast? = some (.name l.manifestName) ∧ l.Placed p.legible := by
  by_cases last : p.components.getLast? = some (.name l.manifestName)
  · have named : l.isManifestName p = true := by
      simp [isManifestName, Path.basename_eq_some_iff.2 ⟨last, legible⟩]
    obtain ⟨base, all, nameless, shape⟩ := normal.exists_names
    obtain ⟨names, rfl⟩ : ∃ names, all = names ++ [l.manifestName] := by
      rcases List.eq_nil_or_concat' all with rfl | ⟨names, n, rfl⟩
      · rw [shape, List.map_nil, List.append_nil] at last
        exact absurd (List.mem_of_getLast? last) (nameless _)
      · rw [shape] at last
        simp only [List.map_append, List.map_cons, List.map_nil, ← List.append_assoc,
          List.getLast?_concat, Option.some.injEq, Component.name.injEq] at last
        exact ⟨names, by rw [last]⟩
    have segments : p.segments.reverse = l.manifestName :: (names.filter Utf8.isValid).reverse := by
      rw [Path.segments_of_shape nameless shape, List.filter_append, List.filter_cons_of_pos legible]
      simp
    rw [placed_legible_iff nameless shape legible]
    simp only [isOfInterest, named, segments, last, true_and]
    cases l.isDependency p with
    | false => simp
    | true =>
      rcases (names.filter Utf8.isValid).reverse with _ | ⟨package, _ | ⟨parent, rest⟩⟩
      · simp
      · simp
      · have turned (n : Name) : l.dependencyDir = n ↔ n = l.dependencyDir := eq_comm
        cases rest <;> simp [List.cons_prefix_cons, turned, and_comm]
  · have unnamed : l.isManifestName p = false := by
      simp only [isManifestName, beq_eq_false_iff_ne, ne_eq, Path.basename_eq_some_iff, not_and]
      exact fun same => absurd same last
    simp [isOfInterest, unnamed, last]

/-- The legible part decides alone if the path lies outside of third-party packages, or if its last
four components are legible. -/
theorem placed_legible_iff_placed (legible : Utf8.isValid l.dependencyDir = true)
    (ends : .name l.dependencyDir ∉ p.components ∨
      ∀ c ∈ p.components.reverse.take 4, c.isLegible = true) :
    l.Placed p.legible ↔ l.Placed p := by
  have inside : Component.name l.dependencyDir ∈ p.legible.components ↔
      Component.name l.dependencyDir ∈ p.components := by
    simp [Path.legible, Component.isLegible, legible]
  rcases ends with outside | ends
  · exact iff_of_true (Or.inl (inside.not.2 outside)) (Or.inl outside)
  · have kept (s : List Component) (short : s.length ≤ 4) :
        s <:+ p.legible.components ↔ s <:+ p.components := suffix_filter_iff ends short
    have direct (package : Name) :=
      kept [.name l.dependencyDir, .name package, .name l.manifestName] (by simp)
    have inScope (scope package : Name) :=
      kept [.name l.dependencyDir, .name scope, .name package, .name l.manifestName] (by simp)
    unfold Placed
    simp only [inside, direct, inScope]

/-- A file counts exactly if it has the name of a manifest and the legible part of its path has a place
for one.  Outside of third-party packages, and wherever the last four components are legible, that is a
question about the path itself. -/
theorem counts_iff_placed_legibly (manifestName dependencyDir : String) (s : Spelling) :
    let l : Layout := ⟨.ofString manifestName, .ofString dependencyDir⟩
    let p := Path.ofSpelling s
    (l.isOfInterest p = true ↔
        p.components.getLast? = some (.name l.manifestName) ∧ l.Placed p.legible) ∧
      ((.name l.dependencyDir ∉ p.components ∨
          ∀ c ∈ p.components.reverse.take 4, c.isLegible = true) →
        (l.isOfInterest p = true ↔
          p.components.getLast? = some (.name l.manifestName) ∧ l.Placed p)) := by
  intro l p
  have judged : l.isOfInterest p = true ↔
      p.components.getLast? = some (.name l.manifestName) ∧ l.Placed p.legible :=
    isOfInterest_iff (Path.normal_ofSpelling s) (Utf8.isValid_encode manifestName)
  refine ⟨judged, fun ends => ?_⟩
  rw [judged, placed_legible_iff_placed (Utf8.isValid_encode dependencyDir) ends]

/-- The manifest of a package in a scope counts. -/
theorem counts_iff_placed_legibly_scoped :
    let l : Layout := ⟨.ofString "package.json", .ofString "node_modules"⟩
    let p := Path.ofString "/proj/node_modules/@babel/core/package.json"
    (∀ c ∈ p.components.reverse.take 4, c.isLegible = true) ∧ l.Placed p ∧
      l.isOfInterest p = true := by
  intro l p
  have ends : ∀ c ∈ p.components.reverse.take 4, c.isLegible = true := by decide
  have placed : l.Placed p := by
    refine Or.inr (Or.inr ⟨.ofString "@babel", .ofString "core", by decide, ?_⟩)
    exact ⟨[.root, .name (.ofString "proj")], by decide⟩
  have judged := (counts_iff_placed_legibly "package.json" "node_modules"
    (.ofString "/proj/node_modules/@babel/core/package.json")).2 (Or.inr ends)
  exact ⟨ends, placed, judged.2 ⟨by decide, placed⟩⟩

/-- The names of the tree that is spelled `/node_modules/a/x/package.json`, with one byte that is no
UTF-8 in place of `x`. -/
def illegibleInternals : Path :=
  .ofSpelling ⟨Utf8.encode "/node_modules/a/" ++ 0xFF :: Utf8.encode "/package.json"⟩

/-- The package whose name is one byte that is no UTF-8. -/
def illegiblePackage : Path :=
  .ofSpelling ⟨Utf8.encode "/node_modules/" ++ 0xFF :: Utf8.encode "/package.json"⟩

/-- A package without a legible name has a place for its manifest, which does not count; internals of a
package in a directory without a legible name have none, and count. -/
theorem illegible_names_shift_manifests :
    let l : Layout := ⟨.ofString "package.json", .ofString "node_modules"⟩
    (illegiblePackage.components.getLast? = some (.name l.manifestName) ∧ l.Placed illegiblePackage ∧
        l.isOfInterest illegiblePackage = false) ∧
      ¬ l.Placed illegibleInternals ∧ l.isOfInterest illegibleInternals = true := by
  intro l
  refine ⟨⟨by decide, ?_, by decide⟩, ?_, by decide⟩
  · exact Or.inr (Or.inl ⟨[0xFF], by decide, ⟨[.root], by decide⟩⟩)
  · have components : illegibleInternals.components = [.root, .name l.dependencyDir,
        .name (.ofString "a"), .name [0xFF], .name l.manifestName] := by decide
    unfold Placed
    rw [components]
    rintro (outside | ⟨package, _, ends⟩ | ⟨scope, package, isScope, ends⟩)
    · simp at outside
    · rw [List.suffix_iff_eq_drop] at ends
      have parent : Component.name l.dependencyDir = .name (.ofString "a") := (List.cons.inj ends).1
      exact absurd parent (by decide)
    · rw [List.suffix_iff_eq_drop] at ends
      have parent : Component.name scope = .name (.ofString "a") :=
        (List.cons.inj (List.cons.inj ends).2).1
      rw [Component.name.inj parent] at isScope
      exact absurd isScope (by decide)

end Layout

end ProjectIndex
