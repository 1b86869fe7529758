import ProjectIndex.Index.Basic
import ProjectIndex.Proofs.Path.Containment
import Mathlib.Data.Finset.Card

/-!
# What an eviction takes away

`Index.forgetWithin` walks down the listings, as many levels deep as it is told.  Where the listings
tell the truth about what is known, and the number of levels exceeds the number of directories, it
takes away exactly what lies at or below the path, and nothing else.  The walk takes a directory out
before its entries, so what is assumed of an index has to concern the part below one path only.
-/

namespace ProjectIndex.Index

open Std

/-- The entries of a listing are its members. -/
theorem mem_children {ix : Index} {d c : Path} :
    c ∈ ix.children d ↔ ∃ listing, ix.listings[d]? = some listing ∧ c ∈ listing := by
  unfold children
  cases ix.listings[d]? <;> simp

/-- A listing that has an entry is there. -/
theorem mem_listings_of_child {ix : Index} {d c : Path} (member : c ∈ ix.children d) :
    d ∈ ix.listings := by
  obtain ⟨listing, found, _⟩ := mem_children.1 member
  exact ExtTreeMap.mem_iff_isSome_getElem?.2 (by simp [found])

theorem isDirectory_iff {ix : Index} {p : Path} : ix.isDirectory p = true ↔ p ∈ ix.directories :=
  ExtTreeMap.contains_iff_mem

theorem isFile_iff {ix : Index} {p : Path} : ix.isFile p = true ↔ p ∈ ix.files :=
  ExtTreeMap.contains_iff_mem

structure SameAt (ix ix' : Index) (q : Path) : Prop where
  files : ix'.files[q]? = ix.files[q]?
  directories : ix'.directories[q]? = ix.directories[q]?
  listings : ix'.listings[q]? = ix.listings[q]?

structure BlankAt (ix : Index) (q : Path) : Prop where
  files : q ∉ ix.files
  directories : q ∉ ix.directories
  listings : q ∉ ix.listings

namespace SameAt

theorem refl (ix : Index) (q : Path) : SameAt ix ix q :=
  ⟨rfl, rfl, rfl⟩

theorem trans {ix ix' ix'' : Index} {q : Path} (first : SameAt ix ix' q)
    (second : SameAt ix' ix'' q) : SameAt ix ix'' q :=
  ⟨second.files.trans first.files, second.directories.trans first.directories,
    second.listings.trans first.listings⟩

theorem mem_files {ix ix' : Index} {q : Path} (same : SameAt ix ix' q) :
    q ∈ ix'.files ↔ q ∈ ix.files := by
  simp only [ExtTreeMap.mem_iff_isSome_getElem?, same.files]

theorem mem_directories {ix ix' : Index} {q : Path} (same : SameAt ix ix' q) :
    q ∈ ix'.directories ↔ q ∈ ix.directories := by
  simp only [ExtTreeMap.mem_iff_isSome_getElem?, same.directories]

theorem mem_listings {ix ix' : Index} {q : Path} (same : SameAt ix ix' q) :
    q ∈ ix'.listings ↔ q ∈ ix.listings := by
  simp only [ExtTreeMap.mem_iff_isSome_getElem?, same.listings]

theorem children {ix ix' : Index} {q : Path} (same : SameAt ix ix' q) :
    ix'.children q = ix.children q := by
  simp only [Index.children, same.listings]

theorem blank {ix ix' : Index} {q : Path} (same : SameAt ix ix' q) (blank : ix.BlankAt q) :
    ix'.BlankAt q :=
  ⟨mt same.mem_files.1 blank.files, mt same.mem_directories.1 blank.directories,
    mt same.mem_listings.1 blank.listings⟩

end SameAt

/-- At and below `top` the listings tell the truth. -/
structure Truthful (ix : Index) (top : Path) : Prop where
  /-- Only directories have listings. -/
  listed : ∀ d, top.Covers d → d ∈ ix.listings → d ∈ ix.directories
  /-- What is listed is an entry of the directory. -/
  entries : ∀ d c, top.Covers d → c ∈ ix.children d → c.parent = some d
  /-- What is known below the top is listed. -/
  known : ∀ q, top.Covers q → q ≠ top → (q ∈ ix.files ∨ q ∈ ix.directories) →
    ∃ d, q.parent = some d ∧ q ∈ ix.children d
  /-- Nothing is both a file and a directory. -/
  apart : ∀ q, top.Covers q → q ∈ ix.files → q ∉ ix.directories

theorem Truthful.congr {ix ix' : Index} {top : Path} (truthful : ix.Truthful top)
    (same : ∀ q, top.Covers q → SameAt ix ix' q) : ix'.Truthful top where
  listed d covers member :=
    (same d covers).mem_directories.2 (truthful.listed d covers ((same d covers).mem_listings.1 member))
  entries d c covers member :=
    truthful.entries d c covers ((same d covers).children ▸ member)
  known q covers below member := by
    have before : q ∈ ix.files ∨ q ∈ ix.directories :=
      member.imp (same q covers).mem_files.1 (same q covers).mem_directories.1
    obtain ⟨d, parent, listed⟩ := truthful.known q covers below before
    have above : top.Covers d := (covers.eq_or_parent parent).resolve_left (Ne.symm below)
    exact ⟨d, parent, (same d above).children ▸ listed⟩
  apart q covers file :=
    mt (same q covers).mem_directories.1 (truthful.apart q covers ((same q covers).mem_files.1 file))

theorem truthful_of_blank {ix : Index} {top : Path} (blank : ∀ q, top.Covers q → ix.BlankAt q) :
    ix.Truthful top where
  listed d covers member := absurd member (blank d covers).listings
  entries d c covers member := absurd (mem_listings_of_child member) (blank d covers).listings
  known q covers below member :=
    absurd member (by simp [(blank q covers).files, (blank q covers).directories])
  apart q covers file := absurd file (blank q covers).files

/-- Something known strictly below the top lies at or below an entry of the top.  Going up from it, each
parent is listed, hence a directory, hence known. -/
theorem Truthful.below_entry {ix : Index} {top q : Path} (truthful : ix.Truthful top)
    (covers : top.Covers q) (below : q ≠ top) (member : q ∈ ix.files ∨ q ∈ ix.directories) :
    ∃ c ∈ ix.children top, c.Covers q := by
  induction n : q.components.length using Nat.strong_induction_on generalizing q with
  | _ n ih =>
    obtain ⟨d, parent, listed⟩ := truthful.known q covers below member
    by_cases atTop : d = top
    · exact ⟨q, atTop ▸ listed, .refl q⟩
    · have above : top.Covers d := (covers.eq_or_parent parent).resolve_left (Ne.symm below)
      have shorter := Path.length_of_parent parent
      have directory := truthful.listed d above (mem_listings_of_child listed)
      obtain ⟨c, entry, reaches⟩ :=
        ih d.components.length (by omega) above atTop (Or.inr directory) rfl
      exact ⟨c, entry, reaches.of_parent parent⟩

/-- Below something that has no listing the index says nothing. -/
theorem Truthful.blank_below {ix : Index} {top q : Path} (truthful : ix.Truthful top)
    (bare : top ∉ ix.listings) (covers : top.Covers q) (below : q ≠ top) : ix.BlankAt q := by
  have unknown : ¬ (q ∈ ix.files ∨ q ∈ ix.directories) := by
    intro member
    obtain ⟨c, entry, _⟩ := truthful.below_entry covers below member
    exact bare (mem_listings_of_child entry)
  refine ⟨fun file => unknown (Or.inl file), fun directory => unknown (Or.inr directory), ?_⟩
  exact fun listed => unknown (Or.inr (truthful.listed q covers listed))

structure Cleared (ix ix' : Index) (p : Path) : Prop where
  inside : ∀ q, p.Covers q → ix'.BlankAt q
  outside : ∀ q, ¬ p.Covers q → SameAt ix ix' q

theorem Cleared.with_manifests {ix left : Index} {p : Path} (cleared : Cleared ix left p)
    (manifests : Table Definition) : Cleared ix { left with manifests } p where
  inside q covers :=
    have blank := cleared.inside q covers
    ⟨blank.files, blank.directories, blank.listings⟩
  outside q out :=
    have same := cleared.outside q out
    ⟨same.files, same.directories, same.listings⟩

def directoriesAt (ix : Index) (p : Path) : Finset Path :=
  ix.directories.keys.toFinset.filter fun d => p.Covers d

theorem mem_directoriesAt {ix : Index} {p d : Path} :
    d ∈ ix.directoriesAt p ↔ d ∈ ix.directories ∧ p.Covers d := by
  simp [directoriesAt]

/-- Below an entry of a known directory there are fewer directories than below the directory. -/
theorem directoriesAt_lt {ix ix' : Index} {p c : Path} (directory : p ∈ ix.directories)
    (parent : c.parent = some p)
    (same : ∀ q, c.Covers q → q ∈ ix'.directories → q ∈ ix.directories) :
    (ix'.directoriesAt c).card < (ix.directoriesAt p).card := by
  apply Finset.card_lt_card
  refine (Finset.ssubset_iff_of_subset ?_).2 ⟨p, ?_, ?_⟩
  · intro d member
    obtain ⟨known, covers⟩ := mem_directoriesAt.1 member
    exact mem_directoriesAt.2 ⟨same d covers known, (Path.covers_of_parent parent).trans covers⟩
  · exact mem_directoriesAt.2 ⟨directory, .refl p⟩
  · intro member
    exact Path.not_covers_of_parent parent (mem_directoriesAt.1 member).2

/-- What the walk leaves of an index after it has gone through some entries of one directory. -/
private theorem fold_cleared {depth : Nat} {p : Path}
    (one : ∀ ix c, Truthful ix c → (ix.directoriesAt c).card < depth →
      Cleared ix (forgetWithin depth ix c).1 c)
    (entries : List Path) (siblings : ∀ c ∈ entries, c.parent = some p) (ix : Index)
    (gone : List Path)
    (ready : ∀ c ∈ entries, Truthful ix c ∧ (ix.directoriesAt c).card < depth) :
    let left := (entries.foldl
      (fun (ix, gone) child =>
        let (ix, more) := forgetWithin depth ix child
        (ix, gone ++ more)) (ix, gone)).1
    (∀ q, (∃ c ∈ entries, c.Covers q) → left.BlankAt q) ∧
      ∀ q, (∀ c ∈ entries, ¬ c.Covers q) → SameAt ix left q := by
  induction entries generalizing ix gone with
  | nil => exact ⟨fun q ⟨c, member, _⟩ => absurd member (by simp), fun q _ => .refl ix q⟩
  | cons c rest ih =>
    obtain ⟨truthful, enough⟩ := ready c (by simp)
    have cleared := one ix c truthful enough
    have later : ∀ c' ∈ rest, Truthful (forgetWithin depth ix c).1 c' ∧
        ((forgetWithin depth ix c).1.directoriesAt c').card < depth := by
      intro c' member
      obtain ⟨truthful', enough'⟩ := ready c' (by simp [member])
      by_cases same : c' = c
      · subst same
        refine ⟨truthful_of_blank cleared.inside, ?_⟩
        have none : (forgetWithin depth ix c').1.directoriesAt c' = ∅ := by
          refine Finset.eq_empty_of_forall_notMem fun d member => ?_
          obtain ⟨known, covers⟩ := mem_directoriesAt.1 member
          exact (cleared.inside d covers).directories known
        rw [none]
        exact Nat.lt_of_le_of_lt (Nat.zero_le _) enough'
      · have untouched : ∀ q, c'.Covers q → SameAt ix (forgetWithin depth ix c).1 q := by
          intro q covers
          refine cleared.outside q fun both => same ?_
          exact Path.eq_of_siblings (siblings c' (by simp [member])) (siblings c (by simp)) covers both
        refine ⟨truthful'.congr untouched, Nat.lt_of_le_of_lt (Finset.card_le_card ?_) enough'⟩
        intro d member
        obtain ⟨known, covers⟩ := mem_directoriesAt.1 member
        exact mem_directoriesAt.2 ⟨(untouched d covers).mem_directories.1 known, covers⟩
    obtain ⟨inside, outside⟩ := ih (fun c' member => siblings c' (by simp [member]))
      (forgetWithin depth ix c).1 (gone ++ (forgetWithin depth ix c).2) later
    constructor
    · rintro q ⟨c', member, covers⟩
      by_cases further : ∃ c' ∈ rest, c'.Covers q
      · exact inside q further
      · have here : c' = c := by
          rcases List.mem_cons.1 member with same | there
          · exact same
          · exact absurd ⟨c', there, covers⟩ further
        have kept := outside q fun c'' there covers' => further ⟨c'', there, covers'⟩
        exact kept.blank (cleared.inside q (here ▸ covers))
    · intro q clear
      have kept := outside q fun c' there => clear c' (by simp [there])
      exact (cleared.outside q (clear c (by simp))).trans kept

/-- The index without the directory itself; its entries are still there. -/
def stripped (ix : Index) (p : Path) : Index :=
  { ix with directories := ix.directories.erase p, listings := ix.listings.erase p }

theorem sameAt_stripped {ix : Index} {p q : Path} (other : q ≠ p) : SameAt ix (ix.stripped p) q := by
  refine ⟨rfl, ?_, ?_⟩ <;> simp [stripped, ExtTreeMap.getElem?_erase, Ne.symm other]

/-- Below an entry listings tell the truth as well. -/
theorem Truthful.entry {ix : Index} {p c : Path} (truthful : ix.Truthful p)
    (parent : c.parent = some p) : ix.Truthful c := by
  have below : ∀ q, c.Covers q → p.Covers q :=
    fun q covers => (Path.covers_of_parent parent).trans covers
  have apart : ∀ q, c.Covers q → q ≠ p := by
    rintro q covers rfl
    exact Path.not_covers_of_parent parent covers
  exact { listed := fun d covers => truthful.listed d (below d covers)
          entries := fun d c' covers => truthful.entries d c' (below d covers)
          known := fun q covers _ => truthful.known q (below q covers) (apart q covers)
          apart := fun q covers => truthful.apart q (below q covers) }

/-- A directory is cleared once it is stripped and each of its entries is cleared. -/
theorem cleared_of_entries {ix left : Index} {p : Path} (truthful : ix.Truthful p)
    (directory : p ∈ ix.directories)
    (inside : ∀ q, (∃ c ∈ ix.children p, c.Covers q) → left.BlankAt q)
    (outside : ∀ q, (∀ c ∈ ix.children p, ¬ c.Covers q) → SameAt (ix.stripped p) left q) :
    Cleared ix left p := by
  have siblings : ∀ c ∈ ix.children p, c.parent = some p :=
    fun c member => truthful.entries p c (.refl p) member
  constructor
  · intro q covers
    by_cases atTop : q = p
    · subst atTop
      have kept := outside q fun c member => Path.not_covers_of_parent (siblings c member)
      refine kept.blank ⟨?_, by simp [stripped], by simp [stripped]⟩
      exact fun file => truthful.apart q covers file directory
    · by_cases reached : ∃ c ∈ ix.children p, c.Covers q
      · exact inside q reached
      · have unknown : ¬ (q ∈ ix.files ∨ q ∈ ix.directories) :=
          fun member => reached (truthful.below_entry covers atTop member)
        have blank : ix.BlankAt q := ⟨fun file => unknown (Or.inl file),
          fun known => unknown (Or.inr known),
          fun listed => unknown (Or.inr (truthful.listed q covers listed))⟩
        have kept := outside q fun c member reaches => reached ⟨c, member, reaches⟩
        exact kept.blank ((sameAt_stripped atTop).blank blank)
  · intro q out
    have other : q ≠ p := fun same => out (same ▸ .refl p)
    refine (sameAt_stripped other).trans (outside q fun c member reaches => out ?_)
    exact (Path.covers_of_parent (siblings c member)).trans reaches

/-- Below what is no directory there is nothing to clear. -/
theorem cleared_of_leaf {ix left : Index} {p : Path} (truthful : ix.Truthful p)
    (notDirectory : p ∉ ix.directories) (noFile : p ∉ left.files)
    (same : ∀ q, q ≠ p → SameAt ix left q) (directories : left.directories = ix.directories)
    (listings : left.listings = ix.listings) : Cleared ix left p := by
  have bare : p ∉ ix.listings := mt (truthful.listed p (.refl p)) notDirectory
  constructor
  · intro q covers
    by_cases atTop : q = p
    · subst atTop
      exact ⟨noFile, directories ▸ notDirectory, listings ▸ bare⟩
    · exact (same q atTop).blank (truthful.blank_below bare covers atTop)
  · exact fun q outside => same q fun equal => outside (equal ▸ .refl p)

/-- With more levels than directories the walk clears exactly what lies at or below the path. -/
theorem forgetWithin_cleared (depth : Nat) (ix : Index) (p : Path) (truthful : ix.Truthful p)
    (enough : (ix.directoriesAt p).card < depth) : Cleared ix (forgetWithin depth ix p).1 p := by
  induction depth generalizing ix p with
  | zero => exact absurd enough (Nat.not_lt_zero _)
  | succ depth ih =>
    unfold forgetWithin
    split
    next directory =>
      have directory := isDirectory_iff.1 directory
      have siblings : ∀ c ∈ ix.children p, c.parent = some p :=
        fun c member => truthful.entries p c (.refl p) member
      have ready : ∀ c ∈ ix.children p,
          (ix.stripped p).Truthful c ∧ ((ix.stripped p).directoriesAt c).card < depth := by
        intro c member
        have same : ∀ q, c.Covers q → SameAt ix (ix.stripped p) q := by
          intro q covers
          refine sameAt_stripped ?_
          rintro rfl
          exact Path.not_covers_of_parent (siblings c member) covers
        refine ⟨(truthful.entry (siblings c member)).congr same,
          Nat.lt_of_lt_of_le ?_ (Nat.le_of_lt_succ enough)⟩
        exact directoriesAt_lt directory (siblings c member)
          (fun q covers known => (same q covers).mem_directories.1 known)
      obtain ⟨inside, outside⟩ := fold_cleared ih (ix.children p) siblings (ix.stripped p) [] ready
      exact (cleared_of_entries truthful directory inside outside).with_manifests _
    next notDirectory =>
      have notDirectory : p ∉ ix.directories := mt isDirectory_iff.2 (by simpa using notDirectory)
      split
      · refine cleared_of_leaf truthful notDirectory (by simp [forgetFile]) (fun q other => ?_) rfl rfl
        refine ⟨?_, rfl, rfl⟩
        simp [forgetFile, ExtTreeMap.getElem?_erase, Ne.symm other]
      next notFile =>
        have noFile : p ∉ ix.files := mt isFile_iff.2 (by simpa using notFile)
        exact cleared_of_leaf truthful notDirectory noFile (fun q _ => .refl ix q) rfl rfl

end ProjectIndex.Index
