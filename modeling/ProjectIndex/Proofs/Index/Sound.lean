import ProjectIndex.Proofs.Index.Eviction

/-!
# Indexes of one root

An index is orderly when everything known is in one table, under its own kind, and is listed in its
parent, and nothing else is listed.  In an orderly index the status of each path says everything:
which tables it is in, and what is listed.  An index that was filled below one root is sound: it is
orderly, and what it knows lies at or below the root and hangs together through known directories.

Writing a directory or a file below a known directory, and evicting anything at or below the root,
keep an index sound, and change the status of the paths that they are about and of no other.
-/

namespace ProjectIndex.Index

open Std

def evictAll (ix : Index) (paths : List Path) : Index :=
  paths.foldl (fun ix p => (ix.evict p).1) ix

/-- The index without a path that changed its kind. -/
def clearedFor (ix : Index) (p : Path) (st : Status) : Index :=
  match ix.status? p with
  | some old => if old.kind = st.kind then ix else (ix.evict p).1
  | none => ix

/-- The index has a status for the path. -/
def Known (ix : Index) (p : Path) : Prop :=
  p ∈ ix.files ∨ p ∈ ix.directories

theorem knows_iff {ix : Index} {p : Path} : ix.knows p = true ↔ ix.Known p := by
  simp only [knows, status?, Option.orElse_eq_orElse, Option.orElse_eq_or, Option.isSome_or,
    Bool.or_eq_true, Known, ExtTreeMap.mem_iff_isSome_getElem?]

theorem known_iff {ix : Index} {p : Path} : ix.Known p ↔ ∃ st, ix.status? p = some st := by
  rw [← knows_iff, knows, Option.isSome_iff_exists]

theorem status?_eq_none {ix : Index} {p : Path} : ix.status? p = none ↔ ¬ ix.Known p := by
  rw [known_iff, ← Option.ne_none_iff_exists']
  exact Decidable.not_not.symm

theorem knowsParent_iff {ix : Index} {p : Path} :
    ix.knowsParent p = true ↔ ∃ d, p.parent = some d ∧ d ∈ ix.directories := by
  unfold knowsParent
  cases p.parent <;> simp [isDirectory_iff]

/-- What is known is in one table, under its own kind, and listed. -/
structure Orderly (ix : Index) : Prop where
  fileKind : ∀ (p : Path) (st : Status), ix.files[p]? = some st → st.kind = .file
  directoryKind : ∀ (p : Path) (st : Status), ix.directories[p]? = some st → st.kind = .directory
  apart : ∀ p, p ∈ ix.files → p ∉ ix.directories
  entries : ∀ d c, c ∈ ix.children d ↔ c.parent = some d ∧ ix.Known c
  listed : ∀ d, d ∈ ix.listings ↔ d ∈ ix.directories ∨ ∃ c, c ∈ ix.children d

def Hooked (ix : Index) (root p : Path) : Prop :=
  p = root ∨ ∃ d, p.parent = some d ∧ d ∈ ix.directories

structure Sound (ix : Index) (root : Path) : Prop where
  fileKind : ∀ (p : Path) (st : Status), ix.files[p]? = some st → st.kind = .file
  directoryKind : ∀ (p : Path) (st : Status), ix.directories[p]? = some st → st.kind = .directory
  apart : ∀ p, p ∈ ix.files → p ∉ ix.directories
  /-- Everything but the root is in a known directory. -/
  parents : ∀ p, ix.Known p → ix.Hooked root p
  /-- The entries of a listing are the known paths whose parent it is about. -/
  entries : ∀ d c, c ∈ ix.children d ↔ c.parent = some d ∧ ix.Known c
  /-- A directory is listed, and so is the parent of something known. -/
  listed : ∀ d, d ∈ ix.listings ↔ d ∈ ix.directories ∨ ∃ c, c ∈ ix.children d

theorem Sound.orderly {ix : Index} {root : Path} (sound : ix.Sound root) : ix.Orderly :=
  ⟨sound.fileKind, sound.directoryKind, sound.apart, sound.entries, sound.listed⟩

theorem Orderly.sound {ix : Index} {root : Path} (orderly : ix.Orderly)
    (parents : ∀ p, ix.Known p → ix.Hooked root p) : ix.Sound root :=
  ⟨orderly.fileKind, orderly.directoryKind, orderly.apart, parents, orderly.entries, orderly.listed⟩

theorem orderly_empty (name : Name) : (empty name).Orderly := by
  constructor <;> simp [empty, Known, mem_children]

theorem sound_empty (name : Name) (root : Path) : (empty name).Sound root :=
  (orderly_empty name).sound (by simp [empty, Known])

/-- Listings of the same directories with the same entries are the same. -/
theorem listings_ext {ix ix' : Index} (children : ∀ d c, c ∈ ix.children d ↔ c ∈ ix'.children d)
    (listed : ∀ d, d ∈ ix.listings ↔ d ∈ ix'.listings) : ix.listings = ix'.listings := by
  refine ExtTreeMap.ext_getElem? fun d => ?_
  have listed := listed d
  rw [ExtTreeMap.mem_iff_isSome_getElem?, ExtTreeMap.mem_iff_isSome_getElem?] at listed
  cases here : ix.listings[d]? with
  | none =>
    have none : ix'.listings[d]? = none := by simpa [here] using listed
    exact none.symm
  | some listing =>
    obtain ⟨listing', there⟩ := Option.isSome_iff_exists.1 (listed.1 (by simp [here]))
    rw [there]
    refine congrArg some (ExtTreeSet.ext_mem fun c => ?_)
    have entries := children d c
    simpa [mem_children, here, there] using entries

namespace Orderly

variable {ix : Index}

theorem file_iff (orderly : ix.Orderly) {p : Path} {st : Status} :
    ix.files[p]? = some st ↔ ix.status? p = some st ∧ st.kind = .file := by
  constructor
  · intro found
    exact ⟨by simp [status?, found], orderly.fileKind p st found⟩
  · rintro ⟨found, kind⟩
    simp only [status?, Option.orElse_eq_orElse, Option.orElse_eq_or, Option.or_eq_some_iff] at found
    rcases found with file | ⟨_, directory⟩
    · exact file
    · rw [orderly.directoryKind p st directory] at kind
      cases kind

theorem directory_iff (orderly : ix.Orderly) {p : Path} {st : Status} :
    ix.directories[p]? = some st ↔ ix.status? p = some st ∧ st.kind = .directory := by
  constructor
  · intro found
    have directory : p ∈ ix.directories := ExtTreeMap.mem_iff_isSome_getElem?.2 (by simp [found])
    have noFile : ix.files[p]? = none :=
      ExtTreeMap.getElem?_eq_none fun file => orderly.apart p file directory
    exact ⟨by simp [status?, noFile, found], orderly.directoryKind p st found⟩
  · rintro ⟨found, kind⟩
    simp only [status?, Option.orElse_eq_orElse, Option.orElse_eq_or, Option.or_eq_some_iff] at found
    rcases found with file | ⟨_, directory⟩
    · rw [orderly.fileKind p st file] at kind
      cases kind
    · exact directory

theorem mem_directories (orderly : ix.Orderly) {p : Path} :
    p ∈ ix.directories ↔ ∃ st, ix.status? p = some st ∧ st.kind = .directory := by
  simp only [ExtTreeMap.mem_iff_isSome_getElem?, Option.isSome_iff_exists, orderly.directory_iff]

theorem mem_files (orderly : ix.Orderly) {p : Path} :
    p ∈ ix.files ↔ ∃ st, ix.status? p = some st ∧ st.kind = .file := by
  simp only [ExtTreeMap.mem_iff_isSome_getElem?, Option.isSome_iff_exists, orderly.file_iff]

/-- Nothing has a kind other than file and directory. -/
theorem kind (orderly : ix.Orderly) {p : Path} {st : Status} (found : ix.status? p = some st) :
    st.kind = .file ∨ st.kind = .directory := by
  simp only [status?, Option.orElse_eq_orElse, Option.orElse_eq_or, Option.or_eq_some_iff] at found
  rcases found with file | ⟨_, directory⟩
  · exact Or.inl (orderly.fileKind p st file)
  · exact Or.inr (orderly.directoryKind p st directory)

/-- Two orderly indexes with the same statuses have the same directories, files and listings. -/
theorem tables_eq (orderly : ix.Orderly) {ix' : Index} (orderly' : ix'.Orderly)
    (same : ∀ p, ix.status? p = ix'.status? p) :
    ix.files = ix'.files ∧ ix.directories = ix'.directories ∧ ix.listings = ix'.listings := by
  have files : ix.files = ix'.files := by
    refine ExtTreeMap.ext_getElem? fun p => Option.ext fun st => ?_
    rw [orderly.file_iff, orderly'.file_iff, same]
  have directories : ix.directories = ix'.directories := by
    refine ExtTreeMap.ext_getElem? fun p => Option.ext fun st => ?_
    rw [orderly.directory_iff, orderly'.directory_iff, same]
  have children : ∀ d c, c ∈ ix.children d ↔ c ∈ ix'.children d := by
    intro d c
    rw [orderly.entries, orderly'.entries, Known, Known, files, directories]
  refine ⟨files, directories, listings_ext children fun d => ?_⟩
  rw [orderly.listed, orderly'.listed, directories]
  exact or_congr_right (exists_congr fun c => children d c)

end Orderly

namespace Sound

variable {ix : Index} {root : Path}

theorem file_iff (sound : ix.Sound root) {p : Path} {st : Status} :
    ix.files[p]? = some st ↔ ix.status? p = some st ∧ st.kind = .file :=
  sound.orderly.file_iff

theorem directory_iff (sound : ix.Sound root) {p : Path} {st : Status} :
    ix.directories[p]? = some st ↔ ix.status? p = some st ∧ st.kind = .directory :=
  sound.orderly.directory_iff

theorem mem_directories (sound : ix.Sound root) {p : Path} :
    p ∈ ix.directories ↔ ∃ st, ix.status? p = some st ∧ st.kind = .directory :=
  sound.orderly.mem_directories

theorem mem_files (sound : ix.Sound root) {p : Path} :
    p ∈ ix.files ↔ ∃ st, ix.status? p = some st ∧ st.kind = .file :=
  sound.orderly.mem_files

/-- Nothing has a kind other than file and directory. -/
theorem kind (sound : ix.Sound root) {p : Path} {st : Status} (found : ix.status? p = some st) :
    st.kind = .file ∨ st.kind = .directory :=
  sound.orderly.kind found

/-- The entries of what is no directory are unknown. -/
theorem unknown_of_parent (sound : ix.Sound root) {p d : Path} (parent : p.parent = some d)
    (notRoot : p ≠ root) (notDirectory : d ∉ ix.directories) : ix.status? p = none := by
  refine status?_eq_none.2 fun known => ?_
  rcases sound.parents p known with same | ⟨d', parent', directory⟩
  · exact notRoot same
  · rw [parent] at parent'
    exact notDirectory (Option.some.inj parent' ▸ directory)

/-- At and below anything below the root, listings tell the truth. -/
theorem truthful (sound : ix.Sound root) {p : Path} (below : root.Covers p) : ix.Truthful p where
  listed d covers member := by
    rcases (sound.listed d).1 member with directory | ⟨c, entry⟩
    · exact directory
    · obtain ⟨parent, known⟩ := (sound.entries d c).1 entry
      rcases sound.parents c known with rfl | ⟨d', parent', directory⟩
      · exact absurd (below.trans covers) (Path.not_covers_of_parent parent)
      · rw [parent] at parent'
        exact Option.some.inj parent' ▸ directory
  entries d c _ member := ((sound.entries d c).1 member).1
  known q covers other member := by
    rcases sound.parents q member with rfl | ⟨d, parent, _⟩
    · exact absurd (below.antisymm covers) other
    · exact ⟨d, parent, (sound.entries d q).2 ⟨parent, member⟩⟩
  apart q _ file := sound.apart q file

/-- What lies strictly above something known, up to the root, is a directory. -/
theorem directory_above (sound : ix.Sound root) {p q : Path} (below : root.Covers p)
    (covers : p.Covers q) (other : q ≠ p) (known : ix.Known q) : p ∈ ix.directories := by
  obtain ⟨c, entry, _⟩ := (sound.truthful below).below_entry covers other known
  exact (sound.truthful below).listed p (.refl p) (mem_listings_of_child entry)

/-- What lies above something known, up to the root, is known. -/
theorem known_above (sound : ix.Sound root) {p q : Path} (below : root.Covers p) (covers : p.Covers q)
    (known : ix.Known q) : ix.Known p := by
  by_cases same : q = p
  · exact same ▸ known
  · exact Or.inr (sound.directory_above below covers same known)

theorem unknown_below (sound : ix.Sound root) {p q : Path} (below : root.Covers p)
    (covers : p.Covers q) (unknown : ¬ ix.Known p) : ix.status? q = none :=
  status?_eq_none.2 fun known => unknown (sound.known_above below covers known)

/-- Two sound indexes with the same statuses have the same directories, files and listings. -/
theorem tables_eq (sound : ix.Sound root) {ix' : Index} (sound' : ix'.Sound root)
    (same : ∀ p, ix.status? p = ix'.status? p) :
    ix.files = ix'.files ∧ ix.directories = ix'.directories ∧ ix.listings = ix'.listings :=
  sound.orderly.tables_eq sound'.orderly same

end Sound

@[simp] theorem listChild_files (ix : Index) (p : Path) : (ix.listChild p).files = ix.files := by
  unfold listChild
  cases p.parent <;> rfl

@[simp] theorem listChild_directories (ix : Index) (p : Path) :
    (ix.listChild p).directories = ix.directories := by
  unfold listChild
  cases p.parent <;> rfl

theorem mem_children_listChild {ix : Index} {p d c : Path} :
    c ∈ (ix.listChild p).children d ↔ c ∈ ix.children d ∨ (p.parent = some d ∧ c = p) := by
  unfold listChild
  cases parent : p.parent with
  | none => simp
  | some dir =>
    by_cases same : dir = d
    · subst same
      simp only [mem_children, ExtTreeMap.getElem?_insert_self, Option.some.injEq]
      cases found : ix.listings[dir]? <;>
        simp [ExtTreeMap.getD_eq_getD_getElem?, found, @eq_comm _ c p, or_comm]
    · simp [mem_children, ExtTreeMap.getElem?_insert, same]

theorem mem_listings_listChild {ix : Index} {p d : Path} :
    d ∈ (ix.listChild p).listings ↔ d ∈ ix.listings ∨ p.parent = some d := by
  unfold listChild
  cases p.parent with
  | none => simp
  | some dir => simp [or_comm]

@[simp] theorem unlistChild_files (ix : Index) (p : Path) : (ix.unlistChild p).files = ix.files := by
  unfold unlistChild
  split
  · rfl
  · split
    · rfl
    · dsimp only
      split <;> rfl

@[simp] theorem unlistChild_directories (ix : Index) (p : Path) :
    (ix.unlistChild p).directories = ix.directories := by
  unfold unlistChild
  split
  · rfl
  · split
    · rfl
    · dsimp only
      split <;> rfl

theorem mem_children_unlistChild {ix : Index} {p d c : Path} :
    c ∈ (ix.unlistChild p).children d ↔ c ∈ ix.children d ∧ ¬ (p.parent = some d ∧ c = p) := by
  unfold unlistChild
  split
  next none => simp [none]
  next dir parent =>
    split
    next unlisted =>
      have nothing : ∀ c, c ∉ ix.children dir := by simp [mem_children, unlisted]
      constructor
      · rintro member
        refine ⟨member, ?_⟩
        rintro ⟨same, _⟩
        rw [parent] at same
        exact nothing c (Option.some.inj same ▸ member)
      · exact And.left
    next listing listed =>
      dsimp only
      by_cases same : dir = d
      · subst same
        have members : ∀ c, c ∈ ix.children dir ↔ c ∈ listing := by simp [mem_children, listed]
        split
        next left =>
          have last : ∀ c, c ∈ listing → c = p := by
            intro c member
            by_contra other
            have kept : c ∈ listing.erase p := by simp [member, Ne.symm other]
            simp only [Bool.and_eq_true, ExtTreeSet.isEmpty_iff] at left
            simp [left.1] at kept
          rw [members, mem_children]
          simp only [ExtTreeMap.getElem?_erase_self, reduceCtorEq, false_and, exists_false, false_iff]
          rintro ⟨member, kept⟩
          exact kept ⟨parent, last c member⟩
        · rw [members, mem_children]
          simp [parent, and_comm, @eq_comm _ c p]
      · split <;> simp [mem_children, ExtTreeMap.getElem?_erase, ExtTreeMap.getElem?_insert, same, parent]

/-- The listing of what is no directory goes with its last entry. -/
theorem mem_listings_unlistChild {ix : Index} {p d : Path} :
    d ∈ (ix.unlistChild p).listings ↔
      d ∈ ix.listings ∧
        (p.parent = some d → d ∈ ix.directories ∨ ∃ c, c ∈ ix.children d ∧ c ≠ p) := by
  unfold unlistChild
  split
  next none => simp [none]
  next dir parent =>
    split
    next unlisted =>
      have absent : dir ∉ ix.listings := by simp [ExtTreeMap.mem_iff_isSome_getElem?, unlisted]
      constructor
      · refine fun member => ⟨member, fun same => absurd member ?_⟩
        rw [parent] at same
        exact Option.some.inj same ▸ absent
      · exact And.left
    next listing listed =>
      have present : dir ∈ ix.listings := by simp [ExtTreeMap.mem_iff_isSome_getElem?, listed]
      have members : ∀ c, c ∈ ix.children dir ↔ c ∈ listing := by simp [mem_children, listed]
      by_cases same : dir = d
      · subst same
        have left : (listing.erase p).isEmpty = true ↔ ¬ ∃ c, c ∈ ix.children dir ∧ c ≠ p := by
          rw [ExtTreeSet.isEmpty_iff, ExtTreeSet.eq_empty_iff_forall_not_mem]
          simp only [ExtTreeSet.mem_erase, Std.LawfulEqCmp.compare_eq_iff_eq, members, ne_eq,
            not_exists, not_and, @eq_comm _ p]
          exact forall_congr' fun c => ⟨fun out member other => out other member,
            fun out other member => out member other⟩
        simp only [parent, present, true_and, forall_const]
        split
        next drop =>
          simp only [Bool.and_eq_true, Bool.not_eq_true', ← Bool.not_eq_true, isDirectory_iff] at drop
          simp [left.1 drop.1, drop.2]
        next keep =>
          simp only [Bool.and_eq_true, left, Bool.not_eq_true', ← Bool.not_eq_true,
            isDirectory_iff] at keep
          simp only [ExtTreeMap.mem_insert_self, true_iff]
          tauto
      · dsimp only
        split <;> simp [parent, same]

/-- Taking an entry out leaves the directories and the parents of entries listed, and no others. -/
theorem listed_unlistChild {ix : Index}
    (listed : ∀ d, d ∈ ix.listings ↔ d ∈ ix.directories ∨ ∃ c, c ∈ ix.children d) (p d : Path) :
    d ∈ (ix.unlistChild p).listings ↔
      d ∈ (ix.unlistChild p).directories ∨ ∃ c, c ∈ (ix.unlistChild p).children d := by
  simp only [mem_listings_unlistChild, unlistChild_directories, mem_children_unlistChild, listed]
  constructor
  · rintro ⟨directory | ⟨c, entry⟩, left⟩
    · exact Or.inl directory
    · by_cases own : p.parent = some d
      · refine (left own).imp_right fun ⟨c, entry, other⟩ => ⟨c, entry, fun same => other same.2⟩
      · exact Or.inr ⟨c, entry, fun same => own same.1⟩
  · rintro (directory | ⟨c, entry, other⟩)
    · exact ⟨Or.inl directory, fun _ => Or.inl directory⟩
    · exact ⟨Or.inr ⟨c, entry⟩, fun own => Or.inr ⟨c, entry, fun same => other ⟨own, same⟩⟩⟩

theorem mem_children_insertDirectory {ix : Index} {p d c : Path} {st : Status} :
    c ∈ (ix.insertDirectory p st true).1.children d ↔
      c ∈ ix.children d ∨ (p.parent = some d ∧ c = p) := by
  dsimp only [insertDirectory]
  rw [if_neg (by simp), mem_children_listChild]
  refine or_congr_left ?_
  simp only [mem_children]
  split
  · rfl
  next unlisted =>
    have absent : ix.listings[p]? = none := by simpa using unlisted
    by_cases same : p = d
    · subst same
      simp [absent]
    · simp [ExtTreeMap.getElem?_insert, same]

theorem mem_listings_insertDirectory {ix : Index} {p d : Path} {st : Status} :
    d ∈ (ix.insertDirectory p st true).1.listings ↔
      d ∈ ix.listings ∨ d = p ∨ p.parent = some d := by
  dsimp only [insertDirectory]
  rw [if_neg (by simp), mem_listings_listChild, ← or_assoc]
  refine or_congr_left ?_
  dsimp only
  split
  next listed =>
    refine ⟨Or.inl, fun member => member.elim id fun same => ?_⟩
    exact same ▸ ExtTreeMap.contains_iff_mem.1 listed
  · simp [or_comm, @eq_comm _ d p]

theorem mem_children_insertFile {ix : Index} {p d c : Path} {st : Status} :
    c ∈ (ix.insertFile p st true).1.children d ↔
      c ∈ ix.children d ∨ (p.parent = some d ∧ c = p) := by
  dsimp only [insertFile]
  rw [if_neg (by simp), mem_children_listChild]
  rfl

theorem mem_listings_insertFile {ix : Index} {p d : Path} {st : Status} :
    d ∈ (ix.insertFile p st true).1.listings ↔ d ∈ ix.listings ∨ p.parent = some d := by
  dsimp only [insertFile]
  rw [if_neg (by simp), mem_listings_listChild]

@[simp] theorem insertDirectory_files (ix : Index) (p : Path) (st : Status) :
    (ix.insertDirectory p st true).1.files = ix.files := by
  simp [insertDirectory]

@[simp] theorem insertDirectory_directories (ix : Index) (p : Path) (st : Status) :
    (ix.insertDirectory p st true).1.directories = ix.directories.insert p st := by
  simp [insertDirectory]

@[simp] theorem insertFile_files (ix : Index) (p : Path) (st : Status) :
    (ix.insertFile p st true).1.files = ix.files.insert p st := by
  simp [insertFile]

@[simp] theorem insertFile_directories (ix : Index) (p : Path) (st : Status) :
    (ix.insertFile p st true).1.directories = ix.directories := by
  simp [insertFile]

theorem status?_insertDirectory {ix : Index} {p : Path} (noFile : p ∉ ix.files) (st : Status)
    (q : Path) :
    (ix.insertDirectory p st true).1.status? q = if q = p then some st else ix.status? q := by
  simp only [status?, insertDirectory_files, insertDirectory_directories,
    ExtTreeMap.getElem?_insert, Std.LawfulEqCmp.compare_eq_iff_eq]
  by_cases same : p = q
  · subst same
    simp [ExtTreeMap.getElem?_eq_none noFile]
  · simp [same, Ne.symm same]

theorem status?_insertFile (ix : Index) (p : Path) (st : Status) (q : Path) :
    (ix.insertFile p st true).1.status? q = if q = p then some st else ix.status? q := by
  simp only [status?, insertFile_files, insertFile_directories, ExtTreeMap.getElem?_insert,
    Std.LawfulEqCmp.compare_eq_iff_eq]
  by_cases same : p = q
  · subst same
    simp
  · simp [same, Ne.symm same]

theorem known_insertDirectory {ix : Index} {p q : Path} {st : Status} :
    (ix.insertDirectory p st true).1.Known q ↔ ix.Known q ∨ q = p := by
  simp only [Known, insertDirectory_files, insertDirectory_directories, ExtTreeMap.mem_insert,
    Std.LawfulEqCmp.compare_eq_iff_eq, @eq_comm _ q p]
  tauto

theorem known_insertFile {ix : Index} {p q : Path} {st : Status} :
    (ix.insertFile p st true).1.Known q ↔ ix.Known q ∨ q = p := by
  simp only [Known, insertFile_files, insertFile_directories, ExtTreeMap.mem_insert,
    Std.LawfulEqCmp.compare_eq_iff_eq, @eq_comm _ q p]
  tauto

namespace Orderly

variable {ix : Index} {p : Path} {st : Status}

/-- A write that makes one more path known and lists it. -/
private theorem grown {ix' : Index} (orderly : ix.Orderly)
    (fileKind : ∀ (q : Path) (st : Status), ix'.files[q]? = some st → st.kind = .file)
    (directoryKind : ∀ (q : Path) (st : Status), ix'.directories[q]? = some st →
      st.kind = .directory)
    (apart : ∀ q, q ∈ ix'.files → q ∉ ix'.directories)
    (known : ∀ q, ix'.Known q ↔ ix.Known q ∨ q = p)
    (directories : ∀ d, d ∈ ix.directories → d ∈ ix'.directories)
    (children : ∀ d c, c ∈ ix'.children d ↔ c ∈ ix.children d ∨ (p.parent = some d ∧ c = p))
    (listings : ∀ d, d ∈ ix'.listings ↔ d ∈ ix.listings ∨ d ∈ ix'.directories ∨ p.parent = some d) :
    ix'.Orderly where
  fileKind := fileKind
  directoryKind := directoryKind
  apart := apart
  entries d c := by
    rw [children, orderly.entries, known, and_or_left]
    refine or_congr_right ⟨fun ⟨parent, same⟩ => ⟨same ▸ parent, same⟩, fun ⟨parent, same⟩ => ?_⟩
    exact ⟨same ▸ parent, same⟩
  listed d := by
    simp only [listings, orderly.listed, children]
    constructor
    · rintro ((directory | ⟨c, entry⟩) | directory | parent)
      · exact Or.inl (directories d directory)
      · exact Or.inr ⟨c, Or.inl entry⟩
      · exact Or.inl directory
      · exact Or.inr ⟨p, Or.inr ⟨parent, rfl⟩⟩
    · rintro (directory | ⟨c, entry | ⟨parent, _⟩⟩)
      · exact Or.inr (Or.inl directory)
      · exact Or.inl (Or.inr ⟨c, entry⟩)
      · exact Or.inr (Or.inr parent)

theorem insertDirectory (orderly : ix.Orderly) (kind : st.kind = .directory)
    (noFile : p ∉ ix.files) : (ix.insertDirectory p st true).1.Orderly := by
  refine orderly.grown ?_ ?_ ?_ (fun q => known_insertDirectory) ?_
    (fun d c => mem_children_insertDirectory) ?_
  · simpa using orderly.fileKind
  · intro q st' found
    rw [insertDirectory_directories, ExtTreeMap.getElem?_insert] at found
    split at found
    · exact Option.some.inj found ▸ kind
    · exact orderly.directoryKind q st' found
  · intro q file
    rw [insertDirectory_files] at file
    have other : q ≠ p := fun same => noFile (same ▸ file)
    simp [Ne.symm other, orderly.apart q file]
  · intro d directory
    simp [directory]
  · intro d
    rw [mem_listings_insertDirectory]
    have listed := fun directory => (orderly.listed d).2 (Or.inl directory)
    simp only [insertDirectory_directories, ExtTreeMap.mem_insert,
      Std.LawfulEqCmp.compare_eq_iff_eq]
    tauto

theorem insertFile (orderly : ix.Orderly) (kind : st.kind = .file)
    (noDirectory : p ∉ ix.directories) : (ix.insertFile p st true).1.Orderly := by
  refine orderly.grown ?_ ?_ ?_ (fun q => known_insertFile) ?_
    (fun d c => mem_children_insertFile) ?_
  · intro q st' found
    rw [insertFile_files, ExtTreeMap.getElem?_insert] at found
    split at found
    · exact Option.some.inj found ▸ kind
    · exact orderly.fileKind q st' found
  · simpa using orderly.directoryKind
  · intro q file directory
    rw [insertFile_directories] at directory
    have other : q ≠ p := fun same => noDirectory (same ▸ directory)
    have before : q ∈ ix.files := by simpa [Ne.symm other] using file
    exact orderly.apart q before directory
  · intro d directory
    simpa using directory
  · intro d
    rw [mem_listings_insertFile]
    have listed := fun directory => (orderly.listed d).2 (Or.inl directory)
    simp only [insertFile_directories]
    tauto

/-- A manifest is nothing that the other tables know of. -/
theorem setManifest (orderly : ix.Orderly) (d : Definition) :
    (ix.setManifest d true).1.Orderly :=
  ⟨orderly.fileKind, orderly.directoryKind, orderly.apart, orderly.entries, orderly.listed⟩

end Orderly

namespace Sound

variable {ix : Index} {root p : Path} {st : Status}

/-- Everything still hangs together when one more path of a known directory is known. -/
private theorem hooked_grown {ix' : Index} (sound : ix.Sound root) (hooked : ix.Hooked root p)
    (known : ∀ q, ix'.Known q ↔ ix.Known q ∨ q = p)
    (directories : ∀ d, d ∈ ix.directories → d ∈ ix'.directories) (q : Path)
    (member : ix'.Known q) : ix'.Hooked root q := by
  rcases (known q).1 member with before | rfl
  · exact (sound.parents q before).imp_right fun ⟨d, parent, dir⟩ => ⟨d, parent, directories d dir⟩
  · exact hooked.imp_right fun ⟨d, parent, dir⟩ => ⟨d, parent, directories d dir⟩

theorem insertDirectory (sound : ix.Sound root) (hooked : ix.Hooked root p)
    (kind : st.kind = .directory) (noFile : p ∉ ix.files) :
    (ix.insertDirectory p st true).1.Sound root ∧
      ∀ q, (ix.insertDirectory p st true).1.status? q = if q = p then some st else ix.status? q := by
  refine ⟨(sound.orderly.insertDirectory kind noFile).sound ?_, status?_insertDirectory noFile st⟩
  exact sound.hooked_grown hooked (fun q => known_insertDirectory) fun d directory => by
    simp [directory]

theorem insertFile (sound : ix.Sound root) (hooked : ix.Hooked root p)
    (kind : st.kind = .file) (noDirectory : p ∉ ix.directories) :
    (ix.insertFile p st true).1.Sound root ∧
      ∀ q, (ix.insertFile p st true).1.status? q = if q = p then some st else ix.status? q := by
  refine ⟨(sound.orderly.insertFile kind noDirectory).sound ?_, status?_insertFile ix p st⟩
  exact sound.hooked_grown hooked (fun q => known_insertFile) fun d directory => by
    simpa using directory

section

variable {left : Index}

private theorem known_cleared (cleared : Cleared ix left p) (q : Path) :
    (left.unlistChild p).Known q ↔ ix.Known q ∧ ¬ p.Covers q := by
  simp only [Known, unlistChild_files, unlistChild_directories]
  by_cases inside : p.Covers q
  · simp [inside, (cleared.inside q inside).files, (cleared.inside q inside).directories]
  · simp [inside, (cleared.outside q inside).mem_files, (cleared.outside q inside).mem_directories]

private theorem directories_cleared (cleared : Cleared ix left p) (d : Path) :
    d ∈ left.directories ↔ d ∈ ix.directories ∧ ¬ p.Covers d := by
  by_cases inside : p.Covers d
  · simp [inside, (cleared.inside d inside).directories]
  · simp [inside, (cleared.outside d inside).mem_directories]

/-- A known path whose parent stays goes only if it is the evicted one. -/
private theorem entries_cleared (sound : ix.Sound root) (cleared : Cleared ix left p) (d c : Path) :
    c ∈ (left.unlistChild p).children d ↔ c.parent = some d ∧ ix.Known c ∧ ¬ p.Covers c := by
  rw [mem_children_unlistChild]
  by_cases inside : p.Covers d
  · have bare : c ∉ left.children d :=
      fun entry => (cleared.inside d inside).listings (mem_listings_of_child entry)
    simp only [bare, false_and, false_iff, not_and, not_not]
    exact fun parent _ => inside.of_parent parent
  · rw [(cleared.outside d inside).children, sound.entries]
    constructor
    · rintro ⟨⟨parent, known⟩, kept⟩
      refine ⟨parent, known, fun covers => ?_⟩
      rcases covers.eq_or_parent parent with same | above
      · exact kept ⟨same ▸ parent, same.symm⟩
      · exact inside above
    · rintro ⟨parent, known, kept⟩
      exact ⟨⟨parent, known⟩, fun ⟨_, same⟩ => kept (same ▸ .refl p)⟩

private theorem listed_cleared (sound : ix.Sound root) (cleared : Cleared ix left p) (d : Path) :
    d ∈ left.listings ↔ d ∈ left.directories ∨ ∃ c, c ∈ left.children d := by
  by_cases inside : p.Covers d
  · have blank := cleared.inside d inside
    have bare : ¬ ∃ c, c ∈ left.children d :=
      fun ⟨c, entry⟩ => blank.listings (mem_listings_of_child entry)
    simp [blank.listings, blank.directories, bare]
  · have same := cleared.outside d inside
    rw [same.mem_listings, same.mem_directories, same.children, sound.listed]

/-- What is cleared and taken off its listing leaves a sound index. -/
private theorem unlisted (sound : ix.Sound root) (cleared : Cleared ix left p) :
    (left.unlistChild p).Sound root where
  fileKind q st found := by
    rw [unlistChild_files] at found
    by_cases inside : p.Covers q
    · rw [ExtTreeMap.getElem?_eq_none (cleared.inside q inside).files] at found
      cases found
    · exact sound.fileKind q st ((cleared.outside q inside).files ▸ found)
  directoryKind q st found := by
    rw [unlistChild_directories] at found
    by_cases inside : p.Covers q
    · rw [ExtTreeMap.getElem?_eq_none (cleared.inside q inside).directories] at found
      cases found
    · exact sound.directoryKind q st ((cleared.outside q inside).directories ▸ found)
  apart q file directory := by
    rw [unlistChild_directories, directories_cleared cleared] at directory
    rw [unlistChild_files, (cleared.outside q directory.2).mem_files] at file
    exact sound.apart q file directory.1
  parents q member := by
    obtain ⟨before, outside⟩ := (known_cleared cleared q).1 member
    refine (sound.parents q before).imp_right fun ⟨d, parent, directory⟩ => ⟨d, parent, ?_⟩
    rw [unlistChild_directories, directories_cleared cleared]
    exact ⟨directory, fun covers => outside (covers.of_parent parent)⟩
  entries d c := by
    rw [entries_cleared sound cleared, known_cleared cleared]
  listed := listed_unlistChild (listed_cleared sound cleared) p

end

/-- An eviction takes away what lies at or below the path, and nothing else. -/
theorem evict (sound : ix.Sound root) (below : root.Covers p) :
    (ix.evict p).1.Sound root ∧
      ∀ q, (ix.evict p).1.status? q = if p.Covers q then none else ix.status? q := by
  have enough : (ix.directoriesAt p).card < ix.depthBound + 1 := by
    have all : (ix.directoriesAt p).card ≤ ix.directories.size := by
      refine (Finset.card_le_card (Finset.filter_subset _ _)).trans ?_
      exact (List.toFinset_card_le _).trans (by simp)
    unfold depthBound
    omega
  have cleared := forgetWithin_cleared (ix.depthBound + 1) ix p (sound.truthful below) enough
  have evicted : (ix.evict p).1 = (forgetWithin (ix.depthBound + 1) ix p).1.unlistChild p := rfl
  rw [evicted]
  refine ⟨sound.unlisted cleared, fun q => ?_⟩
  split
  next inside => exact status?_eq_none.2 fun member => ((known_cleared cleared q).1 member).2 inside
  next outside =>
    have same := cleared.outside q outside
    simp [status?, same.files, same.directories]

theorem evictAll (sound : ix.Sound root) {paths : List Path} (below : ∀ p ∈ paths, root.Covers p) :
    (ix.evictAll paths).Sound root ∧
      (∀ q, (∃ p ∈ paths, p.Covers q) → (ix.evictAll paths).status? q = none) ∧
      ∀ q, (∀ p ∈ paths, ¬ p.Covers q) → (ix.evictAll paths).status? q = ix.status? q := by
  induction paths generalizing ix with
  | nil => exact ⟨sound, by simp, fun q _ => rfl⟩
  | cons p rest ih =>
    obtain ⟨evicted, statuses⟩ := sound.evict (below p (by simp))
    obtain ⟨left, gone, kept⟩ := ih evicted fun p' member => below p' (by simp [member])
    refine ⟨left, fun q covered => ?_, fun q clear => ?_⟩
    · by_cases further : ∃ p' ∈ rest, p'.Covers q
      · exact gone q further
      · have here : p.Covers q := by
          obtain ⟨p', member, covers⟩ := covered
          rcases List.mem_cons.1 member with same | there
          · exact same ▸ covers
          · exact absurd ⟨p', there, covers⟩ further
        have untouched := kept q fun p' there covers => further ⟨p', there, covers⟩
        exact untouched.trans ((statuses q).trans (if_pos here))
    · have untouched := kept q fun p' there => clear p' (by simp [there])
      exact untouched.trans ((statuses q).trans (if_neg (clear p (by simp))))

/-- A path that changed its kind is gone with what lies below it; otherwise nothing happens. -/
theorem clearedFor (sound : ix.Sound root) (below : root.Covers p) (st : Status) :
    (ix.clearedFor p st).Sound root ∧
      ((ix.clearedFor p st = ix ∧ ∀ old, ix.status? p = some old → old.kind = st.kind) ∨
        ∀ q, (ix.clearedFor p st).status? q = if p.Covers q then none else ix.status? q) := by
  unfold Index.clearedFor
  split
  next old found =>
    split
    next same =>
      refine ⟨sound, Or.inl ⟨rfl, fun old' found' => ?_⟩⟩
      rw [found] at found'
      exact Option.some.inj found' ▸ same
    · exact ⟨(sound.evict below).1, Or.inr (sound.evict below).2⟩
  next unknown =>
    refine ⟨sound, Or.inl ⟨rfl, fun old found => ?_⟩⟩
    rw [unknown] at found
    cases found

theorem setManifest (sound : ix.Sound root) (d : Definition) :
    (ix.setManifest d true).1.Sound root :=
  (sound.orderly.setManifest d).sound sound.parents

end Sound

end ProjectIndex.Index
