import ProjectIndex.Policy
import ProjectIndex.Proofs.Disk.Links
import ProjectIndex.Proofs.Index.Reach

/-!
# Indexes beside a disk that does not change

An index is attested by a disk when every status in it is what the disk tells of the path.  An entry
is told of without its last link followed; a root is told of with its link followed, so it may be a
link itself.  What the index lacks are entries of the directories that it knows: they are on the disk
and the policy takes them in, but the index does not know them.

An index that is attested and lacks nothing is all that a crawl could make of the disk below the
directories that are known.
-/

namespace ProjectIndex

/-- The disk has the path as the status says, and the policy takes it in.  Without its last link
followed it is the same, but for paths that may be links. -/
structure Disk.Attests (d : Disk) (policy : Policy) (linked : Path → Prop) (p : Path) (st : Status) :
    Prop where
  plain : p.Plain
  told : d.stat p.spelling = .ok st
  taken : policy.ignores p st.kind = false
  entry : d.statEntry p.spelling = .ok st ∨ linked p

def Disk.HasLink (d : Disk) (p : Path) : Prop :=
  ∃ st, d.statEntry p.spelling = .ok st ∧ st.kind = .unknown

/-- The disk has a directory at the path, or a link to one. -/
def Disk.HasDirectory (d : Disk) (p : Path) : Prop :=
  ∃ st, d.stat p.spelling = .ok st ∧ st.kind = .directory

namespace Disk.Attests

variable {d : Disk} {policy : Policy} {linked : Path → Prop} {p : Path} {st st' : Status}

/-- What the disk tells without following the last link is the status, unless it is a link. -/
theorem eq_of_entry (attests : d.Attests policy linked p st) (told : d.statEntry p.spelling = .ok st')
    (kind : st'.kind ≠ .unknown) : st' = st := by
  have followed := Disk.stat_of_statEntry told kind
  exact Except.ok.inj (followed.symm.trans attests.told)

/-- The entry is there, if perhaps as a link. -/
theorem exists_entry (attests : d.Attests policy linked p st) :
    ∃ st', d.statEntry p.spelling = .ok st' := by
  rcases Disk.statEntry_of_stat attests.told with same | ⟨st', link, _⟩
  · exact ⟨st, same⟩
  · exact ⟨st', link⟩

end Disk.Attests

namespace Index

open Std

/-- The disk attests everything that the index knows. -/
structure Attested (ix : Index) (d : Disk) (policy : Policy) (linked : Path → Prop) : Prop where
  filed : ix.Filed
  files : ∀ (p : Path) (st : Status), ix.files[p]? = some st →
    st.kind = .file ∧ d.Attests policy linked p st
  directories : ∀ (p : Path) (st : Status), ix.directories[p]? = some st →
    st.kind = .directory ∧ d.Attests policy linked p st

theorem attested_empty (name : Name) (d : Disk) (policy : Policy) (linked : Path → Prop) :
    (empty name).Attested d policy linked :=
  ⟨filed_empty name, by simp [empty], by simp [empty]⟩

namespace Attested

variable {ix : Index} {d : Disk} {policy : Policy} {linked : Path → Prop} {p : Path} {st : Status}

theorem status (attested : ix.Attested d policy linked) (found : ix.status? p = some st) :
    st.kind ≠ .unknown ∧ d.Attests policy linked p st := by
  simp only [status?, Option.orElse_eq_orElse, Option.orElse_eq_or, Option.or_eq_some_iff] at found
  rcases found with file | ⟨_, directory⟩
  · exact ⟨by simp [(attested.files p st file).1], (attested.files p st file).2⟩
  · exact ⟨by simp [(attested.directories p st directory).1], (attested.directories p st directory).2⟩

theorem known (attested : ix.Attested d policy linked) (known : ix.Known p) :
    ∃ st, d.Attests policy linked p st := by
  obtain ⟨st, found⟩ := known_iff.1 known
  exact ⟨st, (attested.status found).2⟩

theorem directory (attested : ix.Attested d policy linked) (known : p ∈ ix.directories) :
    ∃ st, st.kind = .directory ∧ d.Attests policy linked p st := by
  obtain ⟨st, found⟩ := Option.isSome_iff_exists.1 (ExtTreeMap.mem_iff_isSome_getElem?.1 known)
  exact ⟨st, attested.directories p st found⟩

/-- What is known and is a directory on disk is known as one. -/
theorem mem_directories (attested : ix.Attested d policy linked) (known : ix.Known p)
    (directory : d.HasDirectory p) : p ∈ ix.directories := by
  rcases known with file | known
  · obtain ⟨st, found⟩ := Option.isSome_iff_exists.1 (ExtTreeMap.mem_iff_isSome_getElem?.1 file)
    obtain ⟨kind, attests⟩ := attested.files p st found
    obtain ⟨st', told, other⟩ := directory
    cases told.symm.trans attests.told
    cases kind.symm.trans other
  · exact known

theorem unchanged (attested : ix.Attested d policy linked) (known : ix.Known p)
    (told : d.stat p.spelling = .ok st) : ix.hasChanged p st = false := by
  obtain ⟨old, found⟩ := known_iff.1 known
  cases told.symm.trans (attested.status found).2.told
  simp [hasChanged, found]

theorem evict (attested : ix.Attested d policy linked) (p : Path) :
    (ix.evict p).1.Attested d policy linked where
  filed := (attested.filed.evict p).filed
  files q st found := attested.files q st ((attested.filed.evict_kept p q st).1 found)
  directories q st found := attested.directories q st ((attested.filed.evict_kept p q st).2 found)

theorem insertDirectory (attested : ix.Attested d policy linked) (kind : st.kind = .directory)
    (attests : d.Attests policy linked p st) :
    (ix.insertDirectory p st true).1.Attested d policy linked where
  filed := attested.filed.insertDirectory p st
  files q st' found := attested.files q st' (by simpa using found)
  directories q st' found := by
    rw [insertDirectory_directories, ExtTreeMap.getElem?_insert] at found
    split at found
    next own =>
      obtain rfl := Std.LawfulEqCmp.compare_eq_iff_eq.1 own
      cases found
      exact ⟨kind, attests⟩
    · exact attested.directories q st' found

theorem insertFile (attested : ix.Attested d policy linked) (kind : st.kind = .file)
    (attests : d.Attests policy linked p st) :
    (ix.insertFile p st true).1.Attested d policy linked where
  filed := attested.filed.insertFile p st
  files q st' found := by
    rw [insertFile_files, ExtTreeMap.getElem?_insert] at found
    split at found
    next own =>
      obtain rfl := Std.LawfulEqCmp.compare_eq_iff_eq.1 own
      cases found
      exact ⟨kind, attests⟩
    · exact attested.files q st' found
  directories q st' found := attested.directories q st' (by simpa using found)

theorem setManifest (attested : ix.Attested d policy linked) (D : Definition) :
    (ix.setManifest D true).1.Attested d policy linked :=
  ⟨attested.filed, attested.files, attested.directories⟩

end Attested

/-- The index does not know an entry of a directory that it knows, although the disk has it and the
policy takes it in. -/
structure Lacks (ix : Index) (d : Disk) (policy : Policy) (q : Path) : Prop where
  plain : q.Plain
  unknown : ¬ ix.Known q
  parent : ∃ dir, q.parent = some dir ∧ dir ∈ ix.directories
  entry : ∃ st, d.statEntry q.spelling = .ok st ∧ st.kind ≠ .unknown ∧
    policy.ignores q st.kind = false

namespace Lacks

variable {ix : Index} {d : Disk} {policy : Policy} {p q : Path} {st : Status}

/-- What is lacking without the evicted path was lacking before, if the path is a link: nobody comes
to what is below it any more. -/
theorem of_evict (lacks : (ix.evict p).1.Lacks d policy q) (filed : ix.Filed) (link : d.HasLink p) :
    ix.Lacks d policy q := by
  obtain ⟨plain, unknown, ⟨dir, parent, directory⟩, st, told, kind, taken⟩ := lacks
  obtain ⟨directory, unreached⟩ := filed.mem_directories_evict.1 directory
  refine ⟨plain, fun known => ?_, ⟨dir, parent, directory⟩, st, told, kind, taken⟩
  have reached : ix.Reaches p q := by
    by_contra out
    exact unknown (known.imp (fun file => filed.mem_files_evict.2 ⟨file, fun hit => absurd hit out⟩)
      fun directory => filed.mem_directories_evict.2 ⟨directory, out⟩)
  rcases reached.eq_or_listed with rfl | ⟨dir', above, _, listed⟩
  · obtain ⟨st', link, unknownKind⟩ := link
    cases told.symm.trans link
    exact kind unknownKind
  · cases parent.symm.trans (filed dir' q listed)
    exact unreached above

/-- What is lacking beside a new directory was lacking before, or it is an entry of the directory. -/
theorem of_insertDirectory (lacks : (ix.insertDirectory p st true).1.Lacks d policy q) :
    q ≠ p ∧ (ix.Lacks d policy q ∨ q.parent = some p) := by
  obtain ⟨plain, unknown, ⟨dir, parent, directory⟩, entry⟩ := lacks
  rw [known_insertDirectory, not_or] at unknown
  refine ⟨unknown.2, ?_⟩
  rw [insertDirectory_directories, ExtTreeMap.mem_insert] at directory
  rcases directory with own | directory
  · obtain rfl := Std.LawfulEqCmp.compare_eq_iff_eq.1 own
    exact Or.inr parent
  · exact Or.inl ⟨plain, unknown.1, ⟨dir, parent, directory⟩, entry⟩

theorem of_insertFile (lacks : (ix.insertFile p st true).1.Lacks d policy q) :
    q ≠ p ∧ ix.Lacks d policy q := by
  obtain ⟨plain, unknown, ⟨dir, parent, directory⟩, entry⟩ := lacks
  rw [known_insertFile, not_or] at unknown
  exact ⟨unknown.2, plain, unknown.1, ⟨dir, parent, by simpa using directory⟩, entry⟩

theorem of_setManifest {D : Definition} (lacks : (ix.setManifest D true).1.Lacks d policy q) :
    ix.Lacks d policy q :=
  ⟨lacks.plain, lacks.unknown, lacks.parent, lacks.entry⟩

end Lacks

end Index

end ProjectIndex
