import ProjectIndex.Proofs.Index.Walks

/-!
# Exact evictions

Where the tables agree and everything known below a path hangs together through known directories,
an eviction takes away what lies at or below the path, and touches three things beyond it: the path
leaves the listing of its parent, that listing goes if nothing is left in it and the parent is no
known directory, and a manifest goes with its file.
-/

namespace ProjectIndex.Index

open Std

/-- Everything known strictly below the path has a parent, and all that lies between the path and it,
the path included, are known directories. -/
def Hangs (ix : Index) (p : Path) : Prop :=
  ∀ q, ix.Known q → p.Covers q → q ≠ p →
    q.parent.isSome ∧ ∀ d, p.Covers d → d.Covers q → d ≠ q → d ∈ ix.directories

/-- It is enough that each has a known directory as its parent. -/
theorem hangs_iff {ix : Index} {p : Path} :
    ix.Hangs p ↔ ∀ q, ix.Known q → p.Covers q → q ≠ p → ∃ d, q.parent = some d ∧ d ∈ ix.directories := by
  constructor
  · intro hangs q known covers other
    obtain ⟨hasParent, between⟩ := hangs q known covers other
    obtain ⟨d, parent⟩ := Option.isSome_iff_exists.1 hasParent
    have above : p.Covers d := (covers.eq_or_parent parent).resolve_left (Ne.symm other)
    have apart : d ≠ q := (Path.ne_of_parent parent).symm
    exact ⟨d, parent, between d above (Path.covers_of_parent parent) apart⟩
  · intro step q known covers other
    constructor
    · obtain ⟨d, parent, _⟩ := step q known covers other
      simp [parent]
    · induction n : q.components.length using Nat.strong_induction_on generalizing q with
      | _ n ih =>
        intro d low high apart
        obtain ⟨up, parent, directory⟩ := step q known covers other
        have reached : d.Covers up := (high.eq_or_parent parent).resolve_left apart
        by_cases same : d = up
        · exact same ▸ directory
        · have shorter := Path.length_of_parent parent
          have below : up ≠ p := by
            rintro rfl
            exact same (reached.antisymm low)
          exact ih up.components.length (by omega) up (Or.inr directory) (low.trans reached) below rfl
            d low reached same

/-- A walk from the path comes to everything known below it. -/
theorem Hangs.reaches {ix : Index} {p q : Path} (hangs : ix.Hangs p) (coherent : ix.Coherent)
    (known : ix.Known q) (covers : p.Covers q) : ix.Reaches p q := by
  induction n : q.components.length using Nat.strong_induction_on generalizing q with
  | _ n ih =>
    by_cases atTop : q = p
    · exact atTop ▸ .here q
    · obtain ⟨d, parent, directory⟩ := hangs_iff.1 hangs q known covers atTop
      have above : p.Covers d := (covers.eq_or_parent parent).resolve_left (Ne.symm atTop)
      have shorter := Path.length_of_parent parent
      have reached : ix.Reaches p d :=
        ih d.components.length (by omega) (Or.inr directory) above rfl
      exact reached.child directory ((coherent.entries d q).2 ⟨parent, known⟩)

/-- The listing of the parent loses the path, and goes with its last member unless its directory is
known.  Other listings stay. -/
theorem getElem?_listings_unlistChild (ix : Index) (p d : Path) :
    (ix.unlistChild p).listings[d]? =
      if p.parent = some d then
        ((ix.listings[d]?).map (·.erase p)).filter fun left => !left.isEmpty || ix.isDirectory d
      else ix.listings[d]? := by
  unfold unlistChild
  split
  next none => simp [none]
  next dir parent =>
    rw [parent]
    by_cases own : dir = d
    · subst own
      cases listed : ix.listings[dir]? with
      | none => simp [listed]
      | some listing =>
        cases empty : (listing.erase p).isEmpty <;> cases ix.isDirectory dir <;>
          simp [empty, Option.filter]
    · have other : (some dir : Option Path) ≠ some d := fun same => own (Option.some.inj same)
      rw [if_neg other]
      split
      · rfl
      · dsimp only
        split
        · simp [ExtTreeMap.getElem?_erase, own]
        · simp [ExtTreeMap.getElem?_insert, own]

/-- The index after an eviction of a path has nothing at or below the path. -/
structure Emptied (left : Index) (p : Path) : Prop where
  files : ∀ q ∈ left.files, ¬ p.Covers q
  directories : ∀ q ∈ left.directories, ¬ p.Covers q
  listings : ∀ q ∈ left.listings, ¬ p.Covers q
  members : ∀ d c, c ∈ left.children d → ¬ p.Covers c
  manifests : ∀ q ∈ left.manifests, ¬ p.Covers q

/-- Beyond the path the index is as it was, but for the listing and the manifest of its parent. -/
structure KeptBeyond (ix left : Index) (p : Path) : Prop where
  files : ∀ q, ¬ p.Covers q → left.files[q]? = ix.files[q]?
  directories : ∀ q, ¬ p.Covers q → left.directories[q]? = ix.directories[q]?
  listings : ∀ q, ¬ p.Covers q → left.listings[q]? =
    if p.parent = some q then
      ((ix.listings[q]?).map (·.erase p)).filter fun members => !members.isEmpty || ix.isDirectory q
    else ix.listings[q]?
  manifests : ∀ q, ¬ p.Covers q → left.manifests[q]? =
    if p.parent = some q ∧ p ∈ ix.files ∧ p.basename = some ix.manifestName then none
    else ix.manifests[q]?

namespace Coherent

variable {ix : Index} {p : Path}

theorem not_known_evict (coherent : ix.Coherent) (hangs : ix.Hangs p) {q : Path}
    (left : (ix.evict p).1.Known q) : ¬ p.Covers q := by
  intro covers
  obtain ⟨known, unreached⟩ := coherent.known_evict.1 left
  exact unreached (hangs.reaches coherent known covers)

theorem emptied_evict (coherent : ix.Coherent) (hangs : ix.Hangs p)
    (held : ∀ d ∈ ix.manifests, p.Covers d → d ∈ ix.directories) : (ix.evict p).1.Emptied p where
  files q file := coherent.not_known_evict hangs (Or.inl file)
  directories q directory := coherent.not_known_evict hangs (Or.inr directory)
  listings q listing covers := by
    rcases ((coherent.evict p).listed q).1 listing with directory | ⟨c, entry⟩
    · exact coherent.not_known_evict hangs (Or.inr directory) covers
    · obtain ⟨parent, known⟩ := ((coherent.evict p).entries q c).1 entry
      exact coherent.not_known_evict hangs known (covers.of_parent parent)
  members d c entry := coherent.not_known_evict hangs (((coherent.evict p).entries d c).1 entry).2
  manifests q manifest covers := by
    have walked := coherent.filed.walked p
    rw [Index.evict, unlistChild_manifests] at manifest
    have before : q ∈ ix.manifests := by
      by_contra absent
      exact walked.not_mem_manifests absent manifest
    have directory := held q before covers
    exact walked.bare q (hangs.reaches coherent (Or.inr directory) covers) directory manifest

theorem keptBeyond_evict (coherent : ix.Coherent) (p : Path) : ix.KeptBeyond (ix.evict p).1 p := by
  have filed := coherent.filed
  have walked := filed.walked p
  have same : ∀ q, ¬ p.Covers q → SameAt ix (forgetWithin (ix.depthBound + 1) ix p).1 q := by
    intro q out
    exact walked.outside q fun reached => out (reached.covers filed)
  refine ⟨?_, ?_, ?_, ?_⟩
  · intro q out
    rw [Index.evict, unlistChild_files]
    exact (same q out).files
  · intro q out
    rw [Index.evict, unlistChild_directories]
    exact (same q out).directories
  · intro q out
    have directory : (forgetWithin (ix.depthBound + 1) ix p).1.isDirectory q = ix.isDirectory q := by
      rw [Bool.eq_iff_iff, isDirectory_iff, isDirectory_iff]
      exact (same q out).mem_directories
    rw [Index.evict, getElem?_listings_unlistChild, (same q out).listings, directory]
  · intro q out
    split
    next declares =>
      obtain ⟨parent, file, named⟩ := declares
      have gone := walked.undeclared p q (.here p) file (coherent.apart p file) named parent
      rw [Index.evict, unlistChild_manifests]
      exact ExtTreeMap.getElem?_eq_none gone
    next other =>
      apply filed.manifest_evict out
      intro file _ parent named
      exact other ⟨parent, file, named⟩

end Coherent

/-- In an index whose tables agree, let everything known strictly below a path hang from it through
known directories, and let the directory of each manifest at or below it be known.  After an eviction
of the path no table has a key and no listing a member at or below it; everything else is as it was,
but that the path leaves its parent's listing, which goes if it is empty and no known directory's, and
that with a file named like manifests goes the manifest of its directory.  The files that the eviction
names are the files at and below the path, each once and in order, so for a known directory they are
the listing of the files below it.  A deletion does the same and sends one notice for each of the
files, in this order. -/
theorem evict_exact (ix : Index) (p : Path) (coherent : ix.Coherent) (hangs : ix.Hangs p)
    (held : ∀ d ∈ ix.manifests, p.Covers d → d ∈ ix.directories) :
    let left := (ix.evict p).1
    let gone := (ix.evict p).2
    left.Emptied p ∧ ix.KeptBeyond left p ∧
      (gone.Nodup ∧ gone.Pairwise Path.Before ∧ ∀ f, f ∈ gone ↔ f ∈ ix.files ∧ p.Covers f) ∧
      (p ∈ ix.directories → gone = ix.filesBelow p) ∧
      ix.delete p = (left, gone.map .deleted) := by
  intro left gone
  have ordered : gone.Pairwise Path.Before := ordered_evict coherent.filed p
  have members : ∀ f, f ∈ gone ↔ f ∈ ix.files ∧ p.Covers f := by
    intro f
    rw [coherent.mem_evict]
    apply and_congr_right
    intro file
    exact ⟨fun reached => reached.covers coherent.filed,
      fun covers => hangs.reaches coherent (Or.inl file) covers⟩
  refine ⟨?_, ?_, ⟨?_, ordered, members⟩, ?_, rfl⟩
  · exact coherent.emptied_evict hangs held
  · exact coherent.keptBeyond_evict p
  · exact Path.nodup_of_ordered ordered
  · exact coherent.evict_eq_filesBelow

/-- The directory `/w` with the file `/w/a.b` and the directory `/w/a`, in which there are the file
`/w/a/x`, the directory `/w/a/s` with a file and a manifest, and the manifest of `/w/a`. -/
def twoLevels : List Operation :=
  let dir (names : List Name) : Operation :=
    .insertDirectory (Path.under names) ⟨.directory, 0, 1⟩ true
  let file (names : List Name) : Operation := .insertFile (Path.under names) ⟨.file, 1, 1⟩ true
  [dir [[119]], file [[119], [97, 46, 98]], dir [[119], [97]], file [[119], [97], [120]],
    dir [[119], [97], [115]], file [[119], [97], [115], [121]], file [[119], [97], [115], [109]],
    file [[119], [97], [109]],
    .setManifest ⟨1, Path.under [[119], [97], [115], [109]], Path.under [[119], [97], [115]],
      .blank, ""⟩ true,
    .setManifest ⟨2, Path.under [[119], [97], [109]], Path.under [[119], [97]], .blank, ""⟩ true]

/-- With `/w/a` go two manifests and four files, which are named in order although the walk enters a
directory between two of them. -/
theorem evict_exact_two_levels :
    let ix := (empty [109]).performAll twoLevels
    let dir := Path.under [[119], [97]]
    let gone := [Path.under [[119], [97], [109]], Path.under [[119], [97], [115], [109]],
      Path.under [[119], [97], [115], [121]], Path.under [[119], [97], [120]]]
    (ix.evict dir).1.Emptied dir ∧ ix.KeptBeyond (ix.evict dir).1 dir ∧ ix.filesBelow dir = gone ∧
      (ix.delete dir).2 = gone.map .deleted := by
  intro ix dir gone
  have unmixed : Unmixed (empty [109]) twoLevels := by decide +kernel
  have coherent : ix.Coherent := (coherent_empty [109]).performAll unmixed
  have hangs : ix.Hangs dir := by
    have parents : ∀ q ∈ ix.files.keys ++ ix.directories.keys,
        dir.Covers q → q ≠ dir → ix.knowsParent q = true := by
      decide +kernel
    apply hangs_iff.2
    intro q known covers other
    apply knowsParent_iff.1
    apply parents q _ covers other
    simpa [Known] using known
  have held : ∀ d ∈ ix.manifests, dir.Covers d → d ∈ ix.directories := by
    have keys : ∀ d ∈ ix.manifests.keys, dir.Covers d → d ∈ ix.directories := by
      decide +kernel
    intro d manifest
    exact keys d (by simpa using manifest)
  have named : (ix.evict dir).2 = gone := by decide +kernel
  obtain ⟨emptied, kept, _, walk, deleted⟩ := evict_exact ix dir coherent hangs held
  refine ⟨emptied, kept, ?_, ?_⟩
  · exact (walk (by decide +kernel)).symm.trans named
  · rw [deleted, named]

end ProjectIndex.Index
