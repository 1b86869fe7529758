import ProjectIndex.Proofs.Watch.Backing

/-!
# What a withdrawn root leaves

A root that is withdrawn is evicted, and the eviction walks down the listings of known directories.
It comes to everything that crawls of this root have found.  But roots take over what other roots
have found: a watch on a directory ends the watches below it, and its crawl need not pass through the
directories on the way to them, which may be denied or gone.  Nothing leads from the root to what was
known there, so it stays when the root is withdrawn.  What is a file and a directory at once stays as
a file.

There is nothing else that stays: a root below which no watch was ever made is forgotten.
-/

namespace ProjectIndex

/-- The index has nothing at the path and below it. -/
structure Index.Forgets (ix : Index) (root : Path) : Prop where
  files : ∀ q, root.Covers q → q ∉ ix.files
  directories : ∀ q, root.Covers q → q ∉ ix.directories
  listings : ∀ q, root.Covers q → q ∉ ix.listings
  members : ∀ q, root.Covers q → ∀ d, q ∉ ix.children d
  manifests : ∀ q, root.Covers q → q ∉ ix.manifests

namespace Index

variable {ix : Index} {layout : Layout} {anchor : Path → Prop} {root : Path}

/-- A consistent index has listings and manifests only beside files and directories. -/
theorem Consistent.forgets_iff (consistent : ix.Consistent layout anchor) :
    ix.Forgets root ↔ ∀ q, root.Covers q → ¬ ix.Known q := by
  refine ⟨fun forgets q covers known => ?_, fun unknown => ?_⟩
  · exact known.elim (forgets.files q covers) (forgets.directories q covers)
  · have entry : ∀ d c, c ∈ ix.children d → ¬ root.Covers c :=
      fun d c listed covers => unknown c covers (consistent.anchored.entries d c listed).2
    refine ⟨fun q covers file => unknown q covers (Or.inl file),
      fun q covers directory => unknown q covers (Or.inr directory), fun q covers listing => ?_,
      fun q covers d listed => entry d q listed covers, fun q covers manifest => ?_⟩
    · rcases consistent.anchored.listed q listing with directory | ⟨c, listed⟩
      · exact unknown q covers (Or.inr directory)
      · exact entry q c listed (covers.of_parent (consistent.filed q c listed))
    · rw [Std.ExtTreeMap.mem_iff_isSome_getElem?] at manifest
      obtain ⟨D, found⟩ := Option.isSome_iff_exists.1 manifest
      have backs := consistent.backed q D found
      exact unknown D.path (covers.of_parent backs.inside) (Or.inl backs.file)

/-- What is known after an eviction was known, and the walk did not come to it, or took a file for
the directory that it was as well. -/
theorem Filed.known_evict (filed : ix.Filed) {p q : Path} :
    (ix.evict p).1.Known q ↔
      ix.Known q ∧ (¬ ix.Reaches p q ∨ (q ∈ ix.files ∧ q ∈ ix.directories)) := by
  rw [Known, Known, filed.mem_files_evict, filed.mem_directories_evict]
  tauto

/-- Where everything known is listed in a known directory, the walk from the root comes to all of it
that lies below. -/
theorem Anchored.reaches (anchored : ix.Anchored anchor)
    (only : ∀ q, root.Covers q → q ≠ root → ¬ anchor q) {q : Path} (covers : root.Covers q)
    (known : ix.Known q) : ix.Reaches root q := by
  by_cases own : q = root
  · exact own ▸ .here q
  · obtain ⟨d, parent, directory, listed⟩ :=
      (anchored.placed q known).resolve_left (only q covers own)
    have above : root.Covers d := (covers.eq_or_parent parent).resolve_left (Ne.symm own)
    exact (anchored.reaches only above (Or.inr directory)).child directory listed
termination_by q.components.length
decreasing_by
  rw [Path.length_of_parent parent]
  exact Nat.lt_succ_self _

end Index

namespace Watch

/-- Right after a root was withdrawn, what is still known at and below it is what no listing led to
from the root, and what was a file and a directory at once.  So everything is forgotten if and only if
there was nothing of the kind, which is so when no watch was ever made below the root and the root
was not watched as a file. -/
theorem withdrawn_root_forgets_what_it_reaches (policy : Policy) (errands : List Errand) (h : Host)
    (history : History policy World.ListsOnce errands h)
    (absolute : ∀ root result, .watch root result ∈ errands → root.isAbsolute = true)
    (name : h.store.index.manifestName = policy.layout.manifestName) (root : Path)
    (found : (h.unwatch root).2 = true) :
    (∀ q, root.Covers q → ((h.unwatch root).1.store.index.Known q ↔
      h.store.index.Known q ∧ (¬ h.store.index.Reaches root q ∨
        (q ∈ h.store.index.files ∧ q ∈ h.store.index.directories)))) ∧
    ((h.unwatch root).1.store.index.Forgets root ↔
      ∀ q, root.Covers q → h.store.index.Known q → h.store.index.Reaches root q ∧
        ¬ (q ∈ h.store.index.files ∧ q ∈ h.store.index.directories)) ∧
    ((∀ q, root.Covers q → q ≠ root →
        ¬ WatchedWhile policy World.ListsOnce (fun _ => True) q errands h) →
      ¬ WatchedWhile policy World.ListsOnce (fun h => root ∈ h.store.index.files) root errands h →
      (h.unwatch root).1.store.index.Forgets root) := by
  have consistent := history.consistent absolute name
  have left := consistent.evict root
  rw [Host.unwatch_index found]
  have exactly : (h.store.index.evict root).1.Forgets root ↔
      ∀ q, root.Covers q → h.store.index.Known q → h.store.index.Reaches root q ∧
        ¬ (q ∈ h.store.index.files ∧ q ∈ h.store.index.directories) := by
    rw [left.forgets_iff]
    refine forall₂_congr fun q _ => ?_
    rw [consistent.filed.known_evict]
    tauto
  refine ⟨fun q _ => consistent.filed.known_evict, exactly, fun below own => ?_⟩
  refine exactly.2 fun q covers known => ?_
  refine ⟨consistent.anchored.reaches below covers known, fun ⟨file, directory⟩ => ?_⟩
  by_cases same : q = root
  · exact own (same ▸ history.kinded.2.apart q file directory)
  · exact below q covers same (consistent.kinded.apart q file directory)

/-- The package is forgotten when its root is withdrawn. -/
theorem withdrawn_root_forgets_what_it_reaches_package :
    (packageWatched.unwatch ⟨[.root, .name [97]]⟩).1.store.index.Forgets ⟨[.root, .name [97]]⟩ := by
  refine (withdrawn_root_forgets_what_it_reaches _ _ _ packageWatched_history
    (by simp [Path.isAbsolute]) (by decide +kernel) _ (by decide +kernel)).2.2 ?_ ?_
  · intro q _ other watched
    obtain ⟨_, member⟩ := watched.errand
    simp only [List.mem_singleton, Errand.watch.injEq] at member
    exact other member.1
  · intro watched
    cases watched with
    | now before _ held _ =>
      cases before
      simp [Store.empty, Index.empty] at held
    | later earlier _ => cases earlier

def insideDenied : Disk where
  root := .directory 0
    [([97], .directory 0 [(.ofString ".git", .directory 0 [([120], .directory 0 [])])])]

/-- A host that watched `/a/.git/x`, and then `/a`, whose `.git` is denied. -/
def deniedRootTakenOver : Host :=
  let fresh : Host := { store := .empty [] .recursive }
  let inner := serve (.ofSettings {})
    (fresh.watch ⟨[.root, .name [97], .name (.ofString ".git"), .name [120]]⟩)
    (List.replicate 4 (.ofDisk insideDenied))
  (serve (.ofSettings {}) (inner.1.watch ⟨[.root, .name [97]]⟩)
    (List.replicate 6 (.ofDisk insideDenied))).1

theorem deniedRootTakenOver_history : History (.ofSettings {}) World.ListsOnce
    [.watch ⟨[.root, .name [97]]⟩ (.ok ()),
      .watch ⟨[.root, .name [97], .name (.ofString ".git"), .name [120]]⟩ (.ok ())]
    deniedRootTakenOver := by
  refine .next (.next (.fresh [] .recursive)
    (.watch (.of_serve (World.listsOnce_replicate (by decide) 4) ?_)))
    (.watch (.of_serve (World.listsOnce_replicate (by decide) 6) ?_))
  · with_unfolding_all rfl
  · with_unfolding_all rfl

/-- A withdrawn root can leave a directory below it known. -/
theorem withdrawn_root_leaves_directory :
    ∃ errands h root q, History (.ofSettings {}) World.ListsOnce errands h ∧
      (h.unwatch root).2 = true ∧ root.Covers q ∧
      q ∈ (h.unwatch root).1.store.index.directories :=
  ⟨_, deniedRootTakenOver, ⟨[.root, .name [97]]⟩,
    ⟨[.root, .name [97], .name (.ofString ".git"), .name [120]]⟩, deniedRootTakenOver_history,
    by decide +kernel, by decide, by decide +kernel⟩

end Watch

end ProjectIndex
