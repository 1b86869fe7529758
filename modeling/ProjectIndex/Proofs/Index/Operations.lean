import ProjectIndex.Proofs.Index.Reach

/-!
# Sequences of operations

The operations on an index, as values, so that what any sequence of them keeps can be stated.  The
statuses and paths are arbitrary: nobody asks whether a file is entered with the status of a file,
whether its directory is known, or whether what is evicted was ever there.  One thing is asked for,
that no path is entered as a file while it is a directory, or the other way round.

After such operations the four tables agree with each other: the index is coherent.  Nothing is both
a file and a directory, listings hold what is known and nothing else, and only directories have
empty ones.
-/

namespace ProjectIndex.Index

open Std

/-- What can be done to an index.  Who writes does so on behalf of a generation, live or not. -/
inductive Operation where
  | insertDirectory (path : Path) (status : Status) (live : Bool)
  | insertFile (path : Path) (status : Status) (live : Bool)
  | evict (path : Path)
  | delete (path : Path)
  | setManifest (definition : Definition) (live : Bool)

namespace Operation

/-- The index after an operation. -/
def perform (ix : Index) : Operation → Index
  | insertDirectory p st live => (ix.insertDirectory p st live).1
  | insertFile p st live => (ix.insertFile p st live).1
  | evict p => (ix.evict p).1
  | delete p => (ix.delete p).1
  | setManifest D live => (ix.setManifest D live).1

/-- The generation of a write is cancelled. -/
def isStale : Operation → Bool
  | insertDirectory _ _ live => !live
  | insertFile _ _ live => !live
  | setManifest _ live => !live
  | evict _ => false
  | delete _ => false

/-- No path is entered as one kind while it is present as the other. -/
def KeepsKinds (ix : Index) : Operation → Prop
  | insertDirectory p _ live => live = true → p ∉ ix.files
  | insertFile p _ live => live = true → p ∉ ix.directories
  | evict _ => True
  | delete _ => True
  | setManifest _ _ => True

instance (ix : Index) (op : Operation) : Decidable (op.KeepsKinds ix) :=
  match op with
  | insertDirectory p _ live => inferInstanceAs (Decidable (live = true → p ∉ ix.files))
  | insertFile p _ live => inferInstanceAs (Decidable (live = true → p ∉ ix.directories))
  | evict _ => inferInstanceAs (Decidable True)
  | delete _ => inferInstanceAs (Decidable True)
  | setManifest _ _ => inferInstanceAs (Decidable True)

/-- A stale write changes nothing. -/
theorem perform_of_isStale {op : Operation} (stale : op.isStale = true) (ix : Index) :
    op.perform ix = ix := by
  cases op with
  | insertDirectory p st live =>
    have refused : live = false := by simpa [isStale] using stale
    simp [perform, Index.insertDirectory, refused]
  | insertFile p st live =>
    have refused : live = false := by simpa [isStale] using stale
    simp [perform, Index.insertFile, refused]
  | setManifest D live =>
    have refused : live = false := by simpa [isStale] using stale
    simp [perform, Index.setManifest, refused]
  | evict p => cases stale
  | delete p => cases stale

end Operation

def performAll (ix : Index) (ops : List Operation) : Index :=
  ops.foldl Operation.perform ix

/-- None of the operations enters a path as one kind while it is present as the other. -/
def Unmixed : Index → List Operation → Prop
  | _, [] => True
  | ix, op :: rest => op.KeepsKinds ix ∧ Unmixed (op.perform ix) rest

instance decidableUnmixed : (ix : Index) → (ops : List Operation) → Decidable (Unmixed ix ops)
  | _, [] => inferInstanceAs (Decidable True)
  | ix, op :: rest =>
    have := decidableUnmixed (op.perform ix) rest
    inferInstanceAs (Decidable (op.KeepsKinds ix ∧ Unmixed (op.perform ix) rest))

theorem Unmixed.take {ix : Index} {ops : List Operation} (unmixed : Unmixed ix ops) (n : Nat) :
    Unmixed ix (ops.take n) := by
  induction n generalizing ix ops with
  | zero => exact trivial
  | succ n ih =>
    cases ops with
    | nil => exact trivial
    | cons op rest => exact ⟨unmixed.1, ih unmixed.2⟩

/-- Nothing is known under two kinds, and the listings are those of what is known. -/
structure Coherent (ix : Index) : Prop where
  apart : ∀ p, p ∈ ix.files → p ∉ ix.directories
  /-- The entries of a listing are the known paths whose parent it is about. -/
  entries : ∀ d c, c ∈ ix.children d ↔ c.parent = some d ∧ ix.Known c
  /-- A directory is listed, and so is the parent of something known. -/
  listed : ∀ d, d ∈ ix.listings ↔ d ∈ ix.directories ∨ ∃ c, c ∈ ix.children d

theorem coherent_empty (name : Name) : (empty name).Coherent := by
  constructor <;> simp [empty, Known, mem_children]

namespace Coherent

variable {ix : Index} {p : Path} {st : Status}

theorem filed (coherent : ix.Coherent) : ix.Filed :=
  fun d c entry => ((coherent.entries d c).1 entry).1

/-- A write that makes a path known and lists it. -/
private theorem grown {ix' : Index} (coherent : ix.Coherent)
    (apart : ∀ q, q ∈ ix'.files → q ∉ ix'.directories)
    (known : ∀ q, ix'.Known q ↔ ix.Known q ∨ q = p)
    (children : ∀ d c, c ∈ ix'.children d ↔ c ∈ ix.children d ∨ (p.parent = some d ∧ c = p))
    (listings : ∀ d, d ∈ ix'.listings ↔
      d ∈ ix.listings ∨ (d ∈ ix'.directories ∧ d = p) ∨ p.parent = some d)
    (directories : ∀ d, d ∈ ix'.directories ↔ d ∈ ix.directories ∨ (d ∈ ix'.directories ∧ d = p)) :
    ix'.Coherent where
  apart := apart
  entries d c := by
    rw [children, coherent.entries, known, and_or_left]
    apply or_congr_right
    constructor
    · intro ⟨parent, same⟩
      exact ⟨same ▸ parent, same⟩
    · intro ⟨parent, same⟩
      exact ⟨same ▸ parent, same⟩
  listed d := by
    have entered : (∃ c, c ∈ ix'.children d) ↔ (∃ c, c ∈ ix.children d) ∨ p.parent = some d := by
      simp only [children, exists_or]
      apply or_congr_right
      exact ⟨fun ⟨_, parent, _⟩ => parent, fun parent => ⟨p, parent, rfl⟩⟩
    rw [listings, coherent.listed, directories, entered]
    tauto

theorem insertDirectory (coherent : ix.Coherent) (noFile : p ∉ ix.files) :
    (ix.insertDirectory p st true).1.Coherent := by
  apply coherent.grown (p := p)
  · intro q file
    rw [insertDirectory_files] at file
    have other : q ≠ p := fun same => noFile (same ▸ file)
    simp [Ne.symm other, coherent.apart q file]
  · exact fun q => known_insertDirectory
  · exact fun d c => mem_children_insertDirectory
  · intro d
    rw [mem_listings_insertDirectory]
    have own : d = p → d ∈ (ix.insertDirectory p st true).1.directories := by
      intro same
      simp [same]
    tauto
  · intro d
    simp only [insertDirectory_directories, ExtTreeMap.mem_insert,
      Std.LawfulEqCmp.compare_eq_iff_eq, @eq_comm _ p d]
    tauto

theorem insertFile (coherent : ix.Coherent) (noDirectory : p ∉ ix.directories) :
    (ix.insertFile p st true).1.Coherent := by
  apply coherent.grown (p := p)
  · intro q file directory
    rw [insertFile_directories] at directory
    have other : q ≠ p := fun same => noDirectory (same ▸ directory)
    have before : q ∈ ix.files := by simpa [Ne.symm other] using file
    exact coherent.apart q before directory
  · exact fun q => known_insertFile
  · exact fun d c => mem_children_insertFile
  · intro d
    rw [mem_listings_insertFile, insertFile_directories]
    have other : ¬ (d ∈ ix.directories ∧ d = p) := fun ⟨directory, same⟩ =>
      noDirectory (same ▸ directory)
    tauto
  · intro d
    rw [insertFile_directories]
    tauto

/-- What an eviction reaches is not known any more, and everything else is. -/
theorem known_evict (coherent : ix.Coherent) {q : Path} :
    (ix.evict p).1.Known q ↔ ix.Known q ∧ ¬ ix.Reaches p q := by
  have filed := coherent.filed
  rw [Known, filed.mem_files_evict, filed.mem_directories_evict, Known]
  have apart := coherent.apart q
  tauto

theorem evict (coherent : ix.Coherent) (p : Path) : (ix.evict p).1.Coherent where
  apart q file directory :=
    coherent.apart q (coherent.filed.mem_files_evict.1 file).1
      (coherent.filed.mem_directories_evict.1 directory).1
  entries d c := by
    have filed := coherent.filed
    rw [filed.mem_children_evict, coherent.known_evict, coherent.entries]
    constructor
    · intro ⟨⟨parent, known⟩, kept, other⟩
      refine ⟨parent, known, fun reached => ?_⟩
      rcases reached.eq_or_listed with same | ⟨d', above, directory, entry⟩
      · exact other same
      · obtain rfl : d' = d := Option.some.inj ((filed d' c entry).symm.trans parent)
        exact kept ⟨above, directory⟩
    · intro ⟨parent, known, hidden⟩
      refine ⟨⟨parent, known⟩, fun ⟨above, directory⟩ => ?_, fun same => ?_⟩
      · exact hidden (above.child directory ((coherent.entries d c).2 ⟨parent, known⟩))
      · subst same
        exact hidden (.here c)
  listed d := by
    have filed := coherent.filed
    constructor
    · exact filed.listed_evict (fun d => (coherent.listed d).1) p d
    · intro left
      rcases left with directory | ⟨c, entry⟩
      · obtain ⟨before, hidden⟩ := filed.mem_directories_evict.1 directory
        have same := (filed.walked p).outside d hidden
        have stays : d ∈ (forgetWithin (ix.depthBound + 1) ix p).1.directories :=
          same.mem_directories.2 before
        have listing := (coherent.listed d).2 (Or.inl before)
        exact mem_listings_unlistChild.2 ⟨same.mem_listings.2 listing, fun _ => Or.inl stays⟩
      · exact mem_listings_of_child entry

/-- A manifest is nothing that the other tables know of. -/
theorem setManifest (coherent : ix.Coherent) (D : Definition) :
    (ix.setManifest D true).1.Coherent :=
  ⟨coherent.apart, coherent.entries, coherent.listed⟩

/-- Every operation that keeps kinds apart keeps the tables in agreement. -/
theorem perform (coherent : ix.Coherent) {op : Operation} (kinds : op.KeepsKinds ix) :
    (op.perform ix).Coherent := by
  by_cases stale : op.isStale = true
  · rwa [op.perform_of_isStale stale]
  · cases op with
    | insertDirectory p st live =>
      obtain rfl : live = true := by simpa [Operation.isStale] using stale
      exact coherent.insertDirectory (kinds rfl)
    | insertFile p st live =>
      obtain rfl : live = true := by simpa [Operation.isStale] using stale
      exact coherent.insertFile (kinds rfl)
    | evict p => exact coherent.evict p
    | delete p => exact coherent.evict p
    | setManifest D live =>
      obtain rfl : live = true := by simpa [Operation.isStale] using stale
      exact coherent.setManifest D

theorem performAll (coherent : ix.Coherent) {ops : List Operation} (unmixed : Unmixed ix ops) :
    (ix.performAll ops).Coherent := by
  induction ops generalizing ix with
  | nil => exact coherent
  | cons op rest ih => exact ih (coherent.perform unmixed.1) unmixed.2

end Coherent

/-- After each of any operations on an empty index of which none enters a path as one kind while it is
present as the other: everything known is in the listing of its parent, what is listed is known and in
the listing of its parent, every directory has a listing, and what is no directory has none that is
empty.  An operation of a cancelled generation has changed nothing. -/
theorem tables_agree_after_operations (name : Name) (ops : List Operation)
    (unmixed : Unmixed (empty name) ops) (n : Nat) :
    let ix := (empty name).performAll (ops.take n)
    (∀ p d, ix.Known p → p.parent = some d → p ∈ ix.children d) ∧
    (∀ d c, c ∈ ix.children d → c.parent = some d ∧ ix.Known c) ∧
    (∀ d ∈ ix.directories, d ∈ ix.listings) ∧
    (∀ d ∈ ix.listings, d ∉ ix.directories → ∃ c, c ∈ ix.children d) ∧
    ∀ op, ops[n]? = some op → op.isStale = true →
      (empty name).performAll (ops.take (n + 1)) = ix := by
  intro ix
  have coherent : ix.Coherent := (coherent_empty name).performAll (unmixed.take n)
  refine ⟨?_, ?_, ?_, ?_, ?_⟩
  · exact fun p d known parent => (coherent.entries d p).2 ⟨parent, known⟩
  · exact fun d c entry => (coherent.entries d c).1 entry
  · exact fun d directory => (coherent.listed d).2 (Or.inl directory)
  · exact fun d listing other => ((coherent.listed d).1 listing).resolve_left other
  · intro op found stale
    calc (empty name).performAll (ops.take (n + 1))
        = op.perform ix := by
          rw [List.take_add_one, found, Index.performAll, List.foldl_append]
          rfl
      _ = ix := op.perform_of_isStale stale ix

/-- The file `/a/b/x` is entered before any directory.  The directory `/a/b` is entered in a cancelled
generation, then in a live one with a manifest; it is evicted and comes back as a file. -/
def fileFirst : List Operation :=
  let dir : Path := ⟨[.root, .name [97], .name [98]]⟩
  let file : Path := ⟨[.root, .name [97], .name [98], .name [120]]⟩
  [.insertFile file ⟨.file, 1, 1⟩ true, .insertDirectory dir ⟨.directory, 0, 1⟩ false,
    .insertDirectory dir ⟨.directory, 0, 1⟩ true, .setManifest ⟨1, file, dir, .blank, ""⟩ true,
    .evict dir, .insertFile dir ⟨.file, 2, 2⟩ true]

/-- The listing of `/a/b`, which nobody has entered yet, holds the file, and the entry of `/a/b` that
comes too late changes nothing. -/
theorem tables_agree_after_operations_file_first :
    let ix := (empty []).performAll (fileFirst.take 1)
    let dir : Path := ⟨[.root, .name [97], .name [98]]⟩
    (dir ∈ ix.listings ∧ dir ∉ ix.directories ∧ ∃ c, c ∈ ix.children dir) ∧
      (empty []).performAll (fileFirst.take 2) = ix := by
  intro ix dir
  have unmixed : Unmixed (empty []) fileFirst := by decide +kernel
  have listing : dir ∈ ix.listings := by decide +kernel
  have other : dir ∉ ix.directories := by decide +kernel
  obtain ⟨_, _, _, occupied, stale⟩ := tables_agree_after_operations [] fileFirst unmixed 1
  exact ⟨⟨listing, other, occupied dir listing other⟩, stale _ rfl rfl⟩

end ProjectIndex.Index
