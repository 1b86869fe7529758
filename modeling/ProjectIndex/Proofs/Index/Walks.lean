import ProjectIndex.Proofs.Index.Operations
import ProjectIndex.Proofs.Path.Order

/-!
# Walks in order

A listing is in order, and what lies below one entry lies before what lies below the next.  So the
walk that collects the files below a directory, and the walk that forgets them, both come to the
files in order, and sorting what they found changes nothing.
-/

namespace ProjectIndex.Index

open Std

/-- The entries of a directory are in order. -/
theorem ordered_children (ix : Index) (d : Path) : (ix.children d).Pairwise Path.Before := by
  unfold children
  cases ix.listings[d]? with
  | none => exact List.Pairwise.nil
  | some listing => exact Path.ordered_toList listing

def filesAt (ix : Index) (depth : Nat) (c : Path) : List Path :=
  if ix.isFile c then [c] else if ix.isDirectory c then ix.filesWithin depth c else []

theorem filesWithin_succ (ix : Index) (depth : Nat) (d : Path) :
    ix.filesWithin (depth + 1) d = (ix.children d).flatMap (ix.filesAt depth) :=
  rfl

theorem mem_filesAt {ix : Index} {depth : Nat} {c f : Path} :
    f ∈ ix.filesAt depth c ↔
      (c ∈ ix.files ∧ f = c) ∨
        (c ∉ ix.files ∧ c ∈ ix.directories ∧ f ∈ ix.filesWithin depth c) := by
  unfold filesAt
  by_cases file : c ∈ ix.files
  · simp [isFile_iff.2 file, file]
  · have notFile : ix.isFile c = false := Bool.eq_false_iff.2 (mt isFile_iff.1 file)
    by_cases directory : c ∈ ix.directories
    · simp [notFile, isDirectory_iff.2 directory, file, directory]
    · have notDirectory : ix.isDirectory c = false :=
        Bool.eq_false_iff.2 (mt isDirectory_iff.1 directory)
      simp [notFile, notDirectory, file, directory]

/-- What the walk finds are files, and it came to each through an entry of the directory. -/
theorem reached_of_mem_filesWithin {ix : Index} {depth : Nat} {d f : Path}
    (found : f ∈ ix.filesWithin depth d) : f ∈ ix.files ∧ ∃ c ∈ ix.children d, ix.Reaches c f := by
  induction depth generalizing d with
  | zero => cases found
  | succ depth ih =>
    rw [filesWithin_succ] at found
    obtain ⟨c, entry, inside⟩ := List.mem_flatMap.1 found
    rcases mem_filesAt.1 inside with ⟨file, same⟩ | ⟨_, directory, deeper⟩
    · subst same
      exact ⟨file, f, entry, .here f⟩
    · obtain ⟨file, c', entry', reaches⟩ := ih deeper
      exact ⟨file, c, entry, .entry directory entry' reaches⟩

theorem covers_of_mem_filesAt {ix : Index} (filed : ix.Filed) {depth : Nat} {c f : Path}
    (found : f ∈ ix.filesAt depth c) : c.Covers f := by
  rcases mem_filesAt.1 found with ⟨_, same⟩ | ⟨_, _, deeper⟩
  · exact same ▸ .refl c
  · obtain ⟨_, c', entry, reaches⟩ := reached_of_mem_filesWithin deeper
    exact (Path.covers_of_parent (filed c c' entry)).trans (reaches.covers filed)

/-- The walk finds the files in order. -/
theorem ordered_filesWithin {ix : Index} (filed : ix.Filed) (depth : Nat) (d : Path) :
    (ix.filesWithin depth d).Pairwise Path.Before := by
  induction depth generalizing d with
  | zero => exact List.Pairwise.nil
  | succ depth ih =>
    rw [filesWithin_succ]
    apply List.pairwise_flatMap.2
    constructor
    · intro c _
      unfold filesAt
      split
      · exact List.pairwise_singleton _ c
      · split
        · exact ih c
        · exact List.Pairwise.nil
    · apply (ix.ordered_children d).imp_of_mem
      intro a b first second before f found g found'
      exact before.below (filed d a first) (filed d b second) (covers_of_mem_filesAt filed found)
        (covers_of_mem_filesAt filed found')

/-- Sorting the files that were found changes nothing. -/
theorem filesBelow_eq {ix : Index} (filed : ix.Filed) (d : Path) :
    ix.filesBelow d = ix.filesWithin ix.depthBound d :=
  Path.sortByPath_of_ordered (ordered_filesWithin filed ix.depthBound d)

theorem ordered_filesBelow {ix : Index} (filed : ix.Filed) (d : Path) :
    (ix.filesBelow d).Pairwise Path.Before := by
  rw [filesBelow_eq filed]
  exact ordered_filesWithin filed ix.depthBound d

theorem countBelow_eq (ix : Index) (d : Path) : ix.countBelow d = (ix.filesBelow d).length :=
  (List.length_mergeSort _).symm

namespace Coherent

variable {ix : Index}

/-- With more levels than directories the walk finds every file that it can come to. -/
theorem mem_filesWithin_of_reaches (coherent : ix.Coherent) {depth : Nat} {d f : Path}
    (enough : ∀ c ∈ ix.children d, (ix.directoriesAt c).card < depth) (file : f ∈ ix.files)
    (reached : ∃ c ∈ ix.children d, ix.Reaches c f) : f ∈ ix.filesWithin depth d := by
  induction depth generalizing d with
  | zero =>
    obtain ⟨c, entry, _⟩ := reached
    exact absurd (enough c entry) (Nat.not_lt_zero _)
  | succ depth ih =>
    obtain ⟨c, entry, reaches⟩ := reached
    rw [filesWithin_succ]
    apply List.mem_flatMap.2
    refine ⟨c, entry, mem_filesAt.2 ?_⟩
    cases reaches with
    | here => exact Or.inl ⟨file, rfl⟩
    | @entry _ c' _ directory entry' below =>
      have notFile : c ∉ ix.files := fun file => coherent.apart c file directory
      have deeper : ∀ c' ∈ ix.children c, (ix.directoriesAt c').card < depth := by
        intro c' member
        have fewer : (ix.directoriesAt c').card < (ix.directoriesAt c).card :=
          directoriesAt_lt directory (coherent.filed c c' member) fun _ _ known => known
        have bound := enough c entry
        omega
      exact Or.inr ⟨notFile, directory, ih deeper ⟨c', entry', below⟩⟩

theorem mem_filesBelow (coherent : ix.Coherent) {d f : Path} :
    f ∈ ix.filesBelow d ↔ f ∈ ix.files ∧ ∃ c ∈ ix.children d, ix.Reaches c f := by
  rw [filesBelow_eq coherent.filed]
  constructor
  · exact reached_of_mem_filesWithin
  · rintro ⟨file, reached⟩
    apply coherent.mem_filesWithin_of_reaches ?_ file reached
    intro c _
    have all : (ix.directoriesAt c).card ≤ ix.directories.size := ix.directoriesAt_card_le c
    exact Nat.lt_succ_of_le all

/-- The files below a known directory are those that a walk from it comes to. -/
theorem mem_filesBelow_directory (coherent : ix.Coherent) {d f : Path}
    (directory : d ∈ ix.directories) : f ∈ ix.filesBelow d ↔ f ∈ ix.files ∧ ix.Reaches d f := by
  rw [coherent.mem_filesBelow]
  apply and_congr_right
  intro file
  constructor
  · rintro ⟨c, entry, reaches⟩
    exact .entry directory entry reaches
  · intro reaches
    cases reaches with
    | here => exact absurd directory (coherent.apart d file)
    | @entry _ c _ _ entry below => exact ⟨c, entry, below⟩

end Coherent

/-- If each entry's files go in order, the files of all entries go in order.  What has gone so far comes
before anything at or below the entries still to come. -/
private theorem ordered_foldl {depth : Nat} {p : Path}
    (one : ∀ ix c, ix.Filed → (forgetWithin depth ix c).2.Pairwise Path.Before)
    (entries : List Path) (inOrder : entries.Pairwise Path.Before)
    (siblings : ∀ c ∈ entries, c.parent = some p) (ix : Index) (filed : ix.Filed)
    (gone : List Path) (ordered : gone.Pairwise Path.Before)
    (earlier : ∀ f ∈ gone, ∀ c ∈ entries, ∀ g, c.Covers g → f.Before g) :
    (entries.foldl
      (fun (ix, gone) child =>
        let (ix, more) := forgetWithin depth ix child
        (ix, gone ++ more)) (ix, gone)).2.Pairwise Path.Before := by
  induction entries generalizing ix gone with
  | nil => exact ordered
  | cons c rest ih =>
    have departed := forgetWithin_departed depth ix c filed
    obtain ⟨first, inOrder⟩ := List.pairwise_cons.1 inOrder
    apply ih inOrder
    · intro c' member
      exact siblings c' (by simp [member])
    · exact departed.filed
    · apply List.pairwise_append.2
      refine ⟨ordered, one ix c filed, ?_⟩
      intro f before g after
      exact earlier f before c (by simp) g (departed.below g after)
    · intro f member c' member' g covers
      rcases List.mem_append.1 member with before | after
      · exact earlier f before c' (by simp [member']) g covers
      · have parent := siblings c (by simp)
        have parent' := siblings c' (by simp [member'])
        exact (first c' member').below parent parent' (departed.below f after) covers

/-- The walk names the files that go in order. -/
theorem ordered_forgetWithin (depth : Nat) (ix : Index) (p : Path) (filed : ix.Filed) :
    (forgetWithin depth ix p).2.Pairwise Path.Before := by
  induction depth generalizing ix p with
  | zero => exact List.Pairwise.nil
  | succ depth ih =>
    unfold forgetWithin
    split
    · exact ordered_foldl ih (ix.children p) (ix.ordered_children p) (filed p) (ix.stripped p)
        (filed.stripped p) [] List.Pairwise.nil (by simp)
    · split
      · exact List.pairwise_singleton _ p
      · exact List.Pairwise.nil

theorem ordered_evict {ix : Index} (filed : ix.Filed) (p : Path) :
    (ix.evict p).2.Pairwise Path.Before :=
  ordered_forgetWithin (ix.depthBound + 1) ix p filed

/-- The files that an eviction names are those that its walk comes to. -/
theorem Coherent.mem_evict {ix : Index} (coherent : ix.Coherent) {p f : Path} :
    f ∈ (ix.evict p).2 ↔ f ∈ ix.files ∧ ix.Reaches p f := by
  have departed := coherent.filed.evict p
  have left := coherent.filed.mem_files_evict (p := p) (q := f)
  rw [departed.files] at left
  constructor
  · intro gone
    have file := departed.were f gone
    have leaf := coherent.apart f file
    refine ⟨file, ?_⟩
    by_contra unreached
    exact (left.2 ⟨file, fun reached => absurd reached unreached⟩).2 gone
  · rintro ⟨file, reached⟩
    have leaf := coherent.apart f file
    by_contra kept
    exact leaf ((left.1 ⟨file, kept⟩).2 reached)

/-- The files that go with a known directory are the files below it, in the same order. -/
theorem Coherent.evict_eq_filesBelow {ix : Index} (coherent : ix.Coherent) {p : Path}
    (directory : p ∈ ix.directories) : (ix.evict p).2 = ix.filesBelow p := by
  apply Path.eq_of_ordered (ordered_evict coherent.filed p) (ordered_filesBelow coherent.filed p)
  intro f
  rw [coherent.mem_evict, coherent.mem_filesBelow_directory directory]

end ProjectIndex.Index
