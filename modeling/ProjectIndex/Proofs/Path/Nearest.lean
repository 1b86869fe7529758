import ProjectIndex.Index.Basic
import ProjectIndex.Projects
import ProjectIndex.Proofs.Path.NormalForm

/-!
# The nearest entry at or above a path

Manifests and projects belong to all that lies below their directory, as long as no other entry lies
in between.  Both are found by asking for the path, its parent, and so on.  On normal paths this finds
the lowest of all entries at or above the path, because three notions agree there: lying below a path
(a beginning of components), being reached on the way up (`mem_withAncestors_iff`), and being joined
back from the rest of the way (`join_relativeTo`).
-/

namespace ProjectIndex.Path

/-- The rest of the way down to a normal path leads there again. -/
theorem join_relativeTo {p q : Path} (lower : p.Normal) (upper : q.Normal) {way : Spelling}
    (relative : p.relativeTo q = some way) : q.join way = p := by
  unfold relativeTo at relative
  split at relative
  next above =>
    obtain ⟨rest, split⟩ := isAncestorOrSelfOf_iff.1 above
    obtain rfl := Option.some.inj relative
    have steps : ∀ c ∈ rest, c.IsStep := by
      intro c member
      refine lower.isStep_of_mem_tail c ?_
      obtain ⟨first, init, cons⟩ := List.exists_cons_of_ne_nil upper.nonempty
      simp [← split, cons, member]
    have down : p.components.drop q.components.length = rest := by simp [← split]
    rw [down, render_of_steps steps]
    simp only [join, isAbsolute_renderTail steps, Bool.false_eq_true, if_false,
      components_renderTail steps, split, lower.normalise_components]
  next => cases relative

theorem isSome_relativeTo {p q : Path} :
    (p.relativeTo q).isSome = true ↔ q.isAncestorOrSelfOf p = true := by
  unfold relativeTo
  split <;> simp_all

/-- A path lies strictly below exactly its ancestors. -/
theorem isDescendantOf_iff_mem_ancestors {p q : Path} (upper : q.Normal) :
    p.isDescendantOf q = true ↔ q ∈ p.ancestors := by
  rw [isDescendantOf_iff, mem_ancestors_iff]
  simp [upper.nonempty]

/-- Of the entries at or above `p`, the one at `dir` is the lowest. -/
structure Nearest (entry : Path → Prop) (p dir : Path) : Prop where
  entered : entry dir
  above : dir.isAncestorOrSelfOf p = true
  lowest : ∀ other, entry other → other.isAncestorOrSelfOf p = true → other ≠ dir →
    dir.isDescendantOf other = true

theorem Nearest.unique {entry : Path → Prop} {p dir dir' : Path} (first : Nearest entry p dir)
    (second : Nearest entry p dir') : dir = dir' := by
  by_contra other
  have down := second.lowest dir first.entered first.above other
  have up := first.lowest dir' second.entered second.above (Ne.symm other)
  exact other ((isDescendantOf_iff.1 up).2.antisymm (isDescendantOf_iff.1 down).2).symm

variable {β : Type} {find : Path → Option β}

/-- The first answer on the way up is that of the nearest path with an answer. -/
theorem nearest_of_findSome? (normal : ∀ dir, (find dir).isSome → dir.Normal) {p : Path} {b : β}
    (found : p.withAncestors.findSome? find = some b) :
    ∃ dir, find dir = some b ∧ Nearest (fun dir => (find dir).isSome) p dir := by
  obtain ⟨nearer, dir, farther, split, answer, silent⟩ := List.findSome?_eq_some_iff.1 found
  have known : (find dir).isSome := by simp [answer]
  have above : dir.Covers p := by
    refine (mem_withAncestors_iff (normal dir known).nonempty).1 ?_
    simp [split]
  refine ⟨dir, answer, known, isAncestorOrSelfOf_iff.2 above, ?_⟩
  intro other asked covers different
  have member : other ∈ p.withAncestors :=
    (mem_withAncestors_iff (normal other asked).nonempty).2 (isAncestorOrSelfOf_iff.1 covers)
  rw [split, List.mem_append, List.mem_cons] at member
  rcases member with near | same | far
  · simp [silent other near] at asked
  · exact absurd same different
  · have ordered := withAncestors_ordered p
    rw [split] at ordered
    have beyond := (List.pairwise_append.1 ordered).2.1
    obtain ⟨other, covers⟩ := (List.pairwise_cons.1 beyond).1 other far
    exact isDescendantOf_iff.2 ⟨other.symm, covers⟩

theorem findSome?_withAncestors_eq_none_iff (normal : ∀ dir, (find dir).isSome → dir.Normal) {p : Path} :
    p.withAncestors.findSome? find = none ↔
      ∀ dir, (find dir).isSome → ¬ dir.isAncestorOrSelfOf p = true := by
  rw [List.findSome?_eq_none_iff]
  constructor
  · intro silent dir known above
    have member := (mem_withAncestors_iff (normal dir known).nonempty).2 (isAncestorOrSelfOf_iff.1 above)
    simp [silent dir member] at known
  · intro none dir member
    by_contra some
    have known : (find dir).isSome := Option.isSome_iff_ne_none.2 some
    have covers := (mem_withAncestors_iff (normal dir known).nonempty).1 member
    exact none dir known (isAncestorOrSelfOf_iff.2 covers)

/-- An answer is found on the way up exactly if it is that of the nearest path with an answer. -/
theorem findSome?_withAncestors_eq_some_iff (normal : ∀ dir, (find dir).isSome → dir.Normal) {p : Path}
    {b : β} :
    p.withAncestors.findSome? find = some b ↔
      ∃ dir, find dir = some b ∧ Nearest (fun dir => (find dir).isSome) p dir := by
  constructor
  · exact nearest_of_findSome? normal
  · rintro ⟨dir, answer, nearest⟩
    cases result : p.withAncestors.findSome? find with
    | none =>
      have silent := (findSome?_withAncestors_eq_none_iff normal).1 result
      exact absurd nearest.above (silent dir nearest.entered)
    | some c =>
      obtain ⟨dir', answer', nearest'⟩ := nearest_of_findSome? normal result
      rw [nearest.unique nearest', answer'] at answer
      exact answer

end ProjectIndex.Path

namespace ProjectIndex

open ProjectIndex.Path

theorem Index.isSome_manifest?_iff {ix : Index} {dir : Path} :
    (ix.manifest? dir).isSome = true ↔ dir ∈ ix.manifests := by
  simp [manifest?]

/-- The manifest that a path belongs to is that of the nearest directory with one. -/
theorem Index.ownedManifest?_eq_some_iff {ix : Index} (normal : ∀ dir ∈ ix.manifests, dir.Normal)
    {p : Path} {d : Definition} :
    ix.ownedManifest? p = some d ↔
      ∃ dir, ix.manifests[dir]? = some d ∧ Nearest (· ∈ ix.manifests) p dir := by
  have found := @findSome?_withAncestors_eq_some_iff _ ix.manifest?
    (fun dir known => normal dir (isSome_manifest?_iff.1 known)) p d
  simp only [isSome_manifest?_iff] at found
  exact found

theorem Index.ownedManifest?_eq_none_iff {ix : Index} (normal : ∀ dir ∈ ix.manifests, dir.Normal)
    {p : Path} :
    ix.ownedManifest? p = none ↔ ∀ dir ∈ ix.manifests, ¬ dir.isAncestorOrSelfOf p = true := by
  have silent := @findSome?_withAncestors_eq_none_iff _ ix.manifest?
    (fun dir known => normal dir (isSome_manifest?_iff.1 known)) p
  simp only [isSome_manifest?_iff] at silent
  exact silent

theorem Projects.isSome_get?_iff {ps : Projects} {root : Path} :
    ((ps.get? root).map Project.id).isSome = true ↔ root ∈ ps.records := by
  simp [get?]

/-- The project that a path belongs to is the one with the nearest root. -/
theorem Projects.find?_eq_some_iff {ps : Projects} (normal : ∀ root ∈ ps.records, root.Normal)
    {p : Path} {id : ProjectId} :
    ps.find? p = some id ↔
      ∃ root project, ps.records[root]? = some project ∧ project.id = id ∧
        Nearest (· ∈ ps.records) p root := by
  have found := @findSome?_withAncestors_eq_some_iff _ (fun root => (ps.get? root).map Project.id)
    (fun root known => normal root (isSome_get?_iff.1 known)) p id
  simp only [isSome_get?_iff] at found
  refine found.trans (exists_congr fun root => ?_)
  rw [Option.map_eq_some_iff, ← exists_and_right]
  simp only [get?, and_assoc]

theorem Projects.find?_eq_none_iff {ps : Projects} (normal : ∀ root ∈ ps.records, root.Normal)
    {p : Path} :
    ps.find? p = none ↔ ∀ root ∈ ps.records, ¬ root.isAncestorOrSelfOf p = true := by
  have silent := @findSome?_withAncestors_eq_none_iff _ (fun root => (ps.get? root).map Project.id)
    (fun root known => normal root (isSome_get?_iff.1 known)) p
  simp only [isSome_get?_iff] at silent
  exact silent

/-- On normal paths containment is a partial order in which the paths above one path form a chain; a
path lies strictly below exactly its ancestors; it can be seen from exactly the paths at or above it,
and the way down from there leads to it.  The manifest and the project of a path are those of the
nearest directory with an entry, and there are none exactly if no entry is at or above the path. -/
theorem nearest_entry_owns {p q r : Path} (hp : p.Normal) (hq : q.Normal) (ix : Index)
    (filed : ∀ dir ∈ ix.manifests, dir.Normal) (ps : Projects)
    (declared : ∀ root ∈ ps.records, root.Normal) :
    p.isAncestorOrSelfOf p = true ∧
      (p.isAncestorOrSelfOf q = true → q.isAncestorOrSelfOf p = true → p = q) ∧
      (p.isAncestorOrSelfOf q = true → q.isAncestorOrSelfOf r = true → p.isAncestorOrSelfOf r = true) ∧
      (p.isAncestorOrSelfOf r = true → q.isAncestorOrSelfOf r = true →
        p.isAncestorOrSelfOf q = true ∨ q.isAncestorOrSelfOf p = true) ∧
      (p.isDescendantOf q = true ↔ q ∈ p.ancestors) ∧
      ((p.relativeTo q).isSome = true ↔ q.isAncestorOrSelfOf p = true) ∧
      (∀ way, p.relativeTo q = some way → q.join way = p) ∧
      (∀ d, ix.ownedManifest? p = some d ↔
        ∃ dir, ix.manifests[dir]? = some d ∧ Nearest (· ∈ ix.manifests) p dir) ∧
      (ix.ownedManifest? p = none ↔ ∀ dir ∈ ix.manifests, ¬ dir.isAncestorOrSelfOf p = true) ∧
      (∀ id, ps.find? p = some id ↔
        ∃ root project, ps.records[root]? = some project ∧ project.id = id ∧
          Nearest (· ∈ ps.records) p root) ∧
      (ps.find? p = none ↔ ∀ root ∈ ps.records, ¬ root.isAncestorOrSelfOf p = true) := by
  simp only [isAncestorOrSelfOf_iff]
  refine ⟨.refl p, fun down up => down.antisymm up, fun first second => first.trans second,
    fun left right => left.comparable right, isDescendantOf_iff_mem_ancestors hq, ?_,
    fun way => join_relativeTo hp hq, fun d => Index.ownedManifest?_eq_some_iff filed, ?_,
    fun id => Projects.find?_eq_some_iff declared, ?_⟩
  · rw [isSome_relativeTo, isAncestorOrSelfOf_iff]
  · simpa using Index.ownedManifest?_eq_none_iff filed
  · simpa using Projects.find?_eq_none_iff declared

def packageAt (id : ManifestId) (dir : Spelling) : Definition :=
  ⟨id, (Path.ofSpelling dir).child (.ofString "package.json"), .ofSpelling dir, .blank, ""⟩

def nestedPackages : Index :=
  let outer := ((Index.empty (.ofString "package.json")).setManifest (packageAt 1 (.ofString "/srv")) true).1
  (outer.setManifest (packageAt 2 (.ofString "/srv/app")) true).1

/-- The inner package and the outer project own what is below both. -/
theorem nearest_entry_owns_nested :
    let p := Path.ofString "/srv/app/lib/x.js"
    let ps := Projects.declare {} (.ofString "/srv")
    (∀ dir ∈ nestedPackages.manifests, dir.Normal) ∧ (∀ root ∈ ps.records, root.Normal) ∧
      (∃ dir, nestedPackages.manifests[dir]? = some (packageAt 2 (.ofString "/srv/app")) ∧
        Nearest (· ∈ nestedPackages.manifests) p dir) ∧
      (∃ root project, ps.records[root]? = some project ∧ project.id = ⟨1, by decide⟩ ∧
        Nearest (· ∈ ps.records) p root) ∧
      Path.ofString "/srv" ∈ p.ancestors := by
  intro p ps
  have filed : ∀ dir ∈ nestedPackages.manifests, dir.Normal := by
    intro dir member
    simp only [nestedPackages, Index.setManifest, if_true, Std.ExtTreeMap.mem_insert, Index.empty,
      Std.ExtTreeMap.not_mem_empty, or_false, Std.LawfulEqCmp.compare_eq_iff_eq] at member
    rcases member with rfl | rfl <;> exact normal_ofSpelling _
  have declared : ∀ root ∈ ps.records, root.Normal := by
    intro root member
    have only : root = .ofString "/srv" := by
      have same : compare (ofString "/srv") root = .eq := by
        simpa [ps, Projects.declare, Projects.isRoot, ProjectId.ofUInt32?] using member
      exact (Std.LawfulEqOrd.eq_of_compare same).symm
    rw [only]
    exact normal_ofSpelling _
  have laws := @nearest_entry_owns p (.ofString "/srv") p (normal_ofSpelling _) (normal_ofSpelling _)
    nestedPackages filed ps declared
  obtain ⟨_, _, _, _, below, _, _, owned, _, found, _⟩ := laws
  exact ⟨filed, declared, (owned _).1 rfl, (found _).1 rfl, below.1 (by decide)⟩

end ProjectIndex
