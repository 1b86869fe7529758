import ProjectIndex.Proofs.Index.Reach

/-!
# Indexes of several roots

An index that is filled below one root is `Sound`.  Here is what is left of that when roots come and
go, and may lie anywhere: below each other, or in directories that are left out.  Paths at which a
crawl was started from outside are anchors.  Everything else that is known is listed in a known
directory, everything that is listed is known, and only an anchor can be a file and a directory at
once.  Writes next to what is known and evictions, of anything anywhere, keep it so.
-/

namespace ProjectIndex.Index

open Std

/-- What each eviction keeps is kept by several of them. -/
theorem evictAll_keeps {P : Index → Prop} {paths : List Path}
    (each : ∀ ix, ∀ p ∈ paths, P ix → P (ix.evict p).1) {ix : Index} (start : P ix) :
    P (ix.evictAll paths) := by
  induction paths generalizing ix with
  | nil => exact start
  | cons p rest ih =>
    exact ih (fun ix p member => each ix p (by simp [member])) (each ix p (by simp) start)

/-- What an eviction of the path keeps is kept when the path is cleared for its new status. -/
theorem clearedFor_keeps {P : Index → Prop} {p : Path} (evicted : ∀ ix, P ix → P (ix.evict p).1)
    {ix : Index} (start : P ix) (st : Status) : P (ix.clearedFor p st) := by
  unfold clearedFor
  split
  · split
    · exact start
    · exact evicted ix start
  · exact start

theorem Filed.clearedFor {ix : Index} (filed : ix.Filed) (p : Path) (st : Status) :
    (ix.clearedFor p st).Filed :=
  clearedFor_keeps (fun _ filed => (filed.evict p).filed) filed st

/-- Every status has the kind of the table that it is in, and only excepted paths are in both. -/
structure Kinded (ix : Index) (excepted : Path → Prop) : Prop where
  fileKind : ∀ (p : Path) (st : Status), ix.files[p]? = some st → st.kind = .file
  directoryKind : ∀ (p : Path) (st : Status), ix.directories[p]? = some st → st.kind = .directory
  apart : ∀ p, p ∈ ix.files → p ∈ ix.directories → excepted p

theorem kinded_empty (name : Name) (excepted : Path → Prop) : (empty name).Kinded excepted := by
  constructor <;> simp [empty]

namespace Kinded

variable {ix : Index} {excepted : Path → Prop} {p : Path} {st : Status}

theorem mono {wider : Path → Prop} (kinded : ix.Kinded excepted) (more : ∀ q, excepted q → wider q) :
    ix.Kinded wider :=
  ⟨kinded.fileKind, kinded.directoryKind, fun q file directory =>
    more q (kinded.apart q file directory)⟩

theorem evict (kinded : ix.Kinded excepted) (filed : ix.Filed) (p : Path) :
    (ix.evict p).1.Kinded excepted where
  fileKind q st found := kinded.fileKind q st ((filed.evict_kept p q st).1 found)
  directoryKind q st found := kinded.directoryKind q st ((filed.evict_kept p q st).2 found)
  apart q file directory :=
    kinded.apart q (filed.mem_files_evict.1 file).1 (filed.mem_directories_evict.1 directory).1

theorem clearedFor (kinded : ix.Kinded excepted) (filed : ix.Filed) (p : Path) (st : Status) :
    (ix.clearedFor p st).Kinded excepted :=
  (clearedFor_keeps (P := fun ix => ix.Filed ∧ ix.Kinded excepted) (p := p)
    (fun _ kept => ⟨(kept.1.evict p).filed, kept.2.evict kept.1 p⟩) ⟨filed, kinded⟩ st).2

/-- A path that was cleared for a directory is a file only if it was both before. -/
theorem apart_of_directory (kinded : ix.Kinded excepted) (filed : ix.Filed)
    (kind : st.kind = .directory) (file : p ∈ (ix.clearedFor p st).files) : excepted p := by
  unfold Index.clearedFor at file
  split at file
  next old found =>
    split at file
    next same =>
      obtain ⟨old', own⟩ := Option.isSome_iff_exists.1 (ExtTreeMap.mem_iff_isSome_getElem?.1 file)
      have known : ix.status? p = some old' := by simp [status?, own]
      rw [found, Option.some.injEq] at known
      rw [known, kinded.fileKind p old' own, kind] at same
      cases same
    · obtain ⟨before, both⟩ := filed.mem_files_evict.1 file
      exact kinded.apart p before (both (.here p))
  next unknown => exact absurd (Or.inl file) (status?_eq_none.1 unknown)

/-- A path that was cleared for a file is a directory only if it was both before. -/
theorem apart_of_file (kinded : ix.Kinded excepted) (filed : ix.Filed) (kind : st.kind = .file)
    (directory : p ∈ (ix.clearedFor p st).directories) : excepted p := by
  unfold Index.clearedFor at directory
  split at directory
  next old found =>
    split at directory
    next same =>
      refine kinded.apart p ?_ directory
      rw [kind] at same
      simp only [status?, Option.orElse_eq_orElse, Option.orElse_eq_or, Option.or_eq_some_iff] at found
      rcases found with file | ⟨_, other⟩
      · exact ExtTreeMap.mem_iff_isSome_getElem?.2 (by simp [file])
      · rw [kinded.directoryKind p old other] at same
        cases same
    · exact absurd (.here p) (filed.mem_directories_evict.1 directory).2
  next unknown => exact absurd (Or.inr directory) (status?_eq_none.1 unknown)

theorem insertDirectory (kinded : ix.Kinded excepted) (kind : st.kind = .directory)
    (met : p ∈ ix.files → excepted p) : (ix.insertDirectory p st true).1.Kinded excepted where
  fileKind q st' found := kinded.fileKind q st' (by simpa using found)
  directoryKind q st' found := by
    rw [insertDirectory_directories, ExtTreeMap.getElem?_insert] at found
    split at found
    · exact Option.some.inj found ▸ kind
    · exact kinded.directoryKind q st' found
  apart q file directory := by
    rw [insertDirectory_files] at file
    by_cases own : p = q
    · exact own ▸ met (own ▸ file)
    · exact kinded.apart q file (by simpa [own] using directory)

theorem insertFile (kinded : ix.Kinded excepted) (kind : st.kind = .file)
    (met : p ∈ ix.directories → excepted p) : (ix.insertFile p st true).1.Kinded excepted where
  fileKind q st' found := by
    rw [insertFile_files, ExtTreeMap.getElem?_insert] at found
    split at found
    · exact Option.some.inj found ▸ kind
    · exact kinded.fileKind q st' found
  directoryKind q st' found := kinded.directoryKind q st' (by simpa using found)
  apart q file directory := by
    rw [insertFile_directories] at directory
    by_cases own : p = q
    · exact own ▸ met (own ▸ directory)
    · exact kinded.apart q (by simpa [own] using file) directory

theorem setManifest (kinded : ix.Kinded excepted) (D : Definition) :
    (ix.setManifest D true).1.Kinded excepted :=
  ⟨kinded.fileKind, kinded.directoryKind, kinded.apart⟩

end Kinded

def Footed (ix : Index) (anchor : Path → Prop) (p : Path) : Prop :=
  anchor p ∨ ∃ d, p.parent = some d ∧ d ∈ ix.directories

structure Anchored (ix : Index) (anchor : Path → Prop) : Prop where
  /-- Everything known but the anchors is listed in a known directory. -/
  placed : ∀ p, ix.Known p → anchor p ∨
    ∃ d, p.parent = some d ∧ d ∈ ix.directories ∧ p ∈ ix.children d
  entries : ∀ d c, c ∈ ix.children d → c.parent = some d ∧ ix.Known c
  /-- The listing of what is no directory has entries. -/
  listed : ∀ d, d ∈ ix.listings → d ∈ ix.directories ∨ ∃ c, c ∈ ix.children d

theorem anchored_empty (name : Name) (anchor : Path → Prop) : (empty name).Anchored anchor := by
  constructor <;> simp [empty, Known, mem_children]

namespace Anchored

variable {ix : Index} {anchor : Path → Prop} {p : Path} {st : Status}

theorem mono {wider : Path → Prop} (anchored : ix.Anchored anchor) (more : ∀ q, anchor q → wider q) :
    ix.Anchored wider :=
  ⟨fun q known => (anchored.placed q known).imp_left (more q), anchored.entries, anchored.listed⟩

theorem filed (anchored : ix.Anchored anchor) : ix.Filed :=
  fun d c member => (anchored.entries d c member).1

/-- An eviction takes what it reaches off the listings, and what it leaves stays listed. -/
theorem evict (anchored : ix.Anchored anchor) (kinded : ix.Kinded anchor) (p : Path) :
    (ix.evict p).1.Anchored anchor := by
  have filed := anchored.filed
  refine ⟨fun q known => ?_, fun d c entry => ?_, fun d => filed.listed_evict anchored.listed p d⟩
  · by_contra loose
    obtain ⟨noAnchor, unlisted⟩ := not_or.1 loose
    have before : ix.Known q := known.imp (fun file => (filed.mem_files_evict.1 file).1)
      fun directory => (filed.mem_directories_evict.1 directory).1
    have hit : ¬ ix.Reaches p q := by
      intro hit
      rcases known with file | directory
      · obtain ⟨file, both⟩ := filed.mem_files_evict.1 file
        exact noAnchor (kinded.apart q file (both hit))
      · exact (filed.mem_directories_evict.1 directory).2 hit
    obtain ⟨d, parent, directory, entry⟩ := (anchored.placed q before).resolve_left noAnchor
    have stays : ¬ ix.Reaches p d := fun reaches => hit (reaches.child directory entry)
    refine unlisted ⟨d, parent, filed.mem_directories_evict.2 ⟨directory, stays⟩, ?_⟩
    refine filed.mem_children_evict.2 ⟨entry, fun reached => stays reached.1, ?_⟩
    rintro rfl
    exact hit (.here q)
  · obtain ⟨entry, kept, other⟩ := filed.mem_children_evict.1 entry
    obtain ⟨parent, known⟩ := anchored.entries d c entry
    have hit : ¬ ix.Reaches p c := by
      intro reaches
      rcases reaches.eq_or_listed with same | ⟨d', reached, directory, listed⟩
      · exact other same
      · obtain rfl : d' = d := Option.some.inj ((filed d' c listed).symm.trans parent)
        exact kept ⟨reached, directory⟩
    refine ⟨parent, known.imp (fun file => filed.mem_files_evict.2 ⟨file, fun reached => ?_⟩)
      fun directory => filed.mem_directories_evict.2 ⟨directory, hit⟩⟩
    exact absurd reached hit

/-- A write that makes one more path known and lists it. -/
private theorem grown {ix' : Index} (anchored : ix.Anchored anchor) (footed : ix.Footed anchor p)
    (known : ∀ q, ix'.Known q ↔ ix.Known q ∨ q = p)
    (directories : ∀ d, d ∈ ix.directories → d ∈ ix'.directories)
    (children : ∀ d c, c ∈ ix'.children d ↔ c ∈ ix.children d ∨ (p.parent = some d ∧ c = p))
    (listings : ∀ d, d ∈ ix'.listings → d ∈ ix.listings ∨ d ∈ ix'.directories ∨ p.parent = some d) :
    ix'.Anchored anchor where
  placed q member := by
    rcases (known q).1 member with before | rfl
    · refine (anchored.placed q before).imp_right fun ⟨d, parent, directory, entry⟩ => ?_
      exact ⟨d, parent, directories d directory, (children d q).2 (Or.inl entry)⟩
    · refine footed.imp_right fun ⟨d, parent, directory⟩ => ?_
      exact ⟨d, parent, directories d directory, (children d q).2 (Or.inr ⟨parent, rfl⟩)⟩
  entries d c member := by
    rcases (children d c).1 member with before | ⟨parent, rfl⟩
    · exact (anchored.entries d c before).imp_right fun before => (known c).2 (Or.inl before)
    · exact ⟨parent, (known c).2 (Or.inr rfl)⟩
  listed d member := by
    rcases listings d member with before | directory | parent
    · exact (anchored.listed d before).imp (directories d)
        fun ⟨c, entry⟩ => ⟨c, (children d c).2 (Or.inl entry)⟩
    · exact Or.inl directory
    · exact Or.inr ⟨p, (children d p).2 (Or.inr ⟨parent, rfl⟩)⟩

theorem insertDirectory (anchored : ix.Anchored anchor) (footed : ix.Footed anchor p) :
    (ix.insertDirectory p st true).1.Anchored anchor := by
  refine anchored.grown footed (fun q => known_insertDirectory)
    (fun d directory => by simp [directory]) (fun d c => mem_children_insertDirectory)
    fun d member => ?_
  rcases mem_listings_insertDirectory.1 member with before | rfl | parent
  · exact Or.inl before
  · exact Or.inr (Or.inl (by simp))
  · exact Or.inr (Or.inr parent)

theorem insertFile (anchored : ix.Anchored anchor) (footed : ix.Footed anchor p) :
    (ix.insertFile p st true).1.Anchored anchor := by
  refine anchored.grown footed (fun q => known_insertFile)
    (fun d directory => by simpa using directory) (fun d c => mem_children_insertFile)
    fun d member => ?_
  exact (mem_listings_insertFile.1 member).imp_right Or.inr

theorem setManifest (anchored : ix.Anchored anchor) (D : Definition) :
    (ix.setManifest D true).1.Anchored anchor :=
  ⟨anchored.placed, anchored.entries, anchored.listed⟩

end Anchored

end ProjectIndex.Index
