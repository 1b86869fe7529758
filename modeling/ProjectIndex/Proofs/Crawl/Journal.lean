import ProjectIndex.Proofs.Crawl.Outcomes
import ProjectIndex.Proofs.Index.Departures

/-!
# The journal that a crawl writes

Whoever reads the notices from the start and keeps a set of files, adding what is new and taking out
what was deleted, should have the files of the index.  A crawl writes a file into the index before
it announces it, and other entries go on in between; so in the middle of a crawl the files are those
of the replayed set together with the arrivals that some task still bears.

That a notice always finds the set as it expects it rests on where the tasks are: the entries of a
directory that are crawled at once are different, so what one of them deletes or announces lies
below its own path and is no arrival of another.
-/

namespace ProjectIndex

/-- What a reader of notices knows after one more; nothing if the notice contradicts what was known
before. -/
def Notice.follow (known : PathSet) : Notice → Option PathSet
  | .new p => if known.contains p then none else some (known.insert p)
  | .changed p old now => if known.contains p && old.mtime != now.mtime then some known else none
  | .deleted p => if known.contains p then some (known.erase p) else none

/-- What a reader of notices knows who has read them from the start, the oldest first. -/
def Notice.replay (notices : List Notice) : Option PathSet :=
  notices.foldlM Notice.follow ∅

namespace Notice

theorem replay_append (first second : List Notice) :
    replay (first ++ second) = (replay first).bind fun known => second.foldlM follow known := by
  simp [replay, List.foldlM_append]

/-- A reader who is told that known files were deleted, each of them once, forgets them. -/
theorem foldlM_deleted (gone : List Path) (known : PathSet) (nodup : gone.Nodup)
    (were : ∀ f ∈ gone, f ∈ known) :
    ∃ left, (gone.map Notice.deleted).foldlM follow known = some left ∧
      ∀ f, f ∈ left ↔ f ∈ known ∧ f ∉ gone := by
  induction gone generalizing known with
  | nil => exact ⟨known, rfl, by simp⟩
  | cons f rest ih =>
    obtain ⟨unlike, distinct⟩ := List.nodup_cons.1 nodup
    have here : f ∈ known := were f (by simp)
    have later : ∀ g ∈ rest, g ∈ known.erase f := by
      intro g member
      have other : f ≠ g := fun same => unlike (same ▸ member)
      simpa [Std.ExtTreeSet.mem_erase, other] using were g (by simp [member])
    obtain ⟨left, replayed, members⟩ := ih (known.erase f) distinct later
    refine ⟨left, ?_, fun g => ?_⟩
    · simpa [List.foldlM_cons, follow, here] using replayed
    · rw [members g]
      by_cases same : f = g
      · simp [same]
      · simp [Std.ExtTreeSet.mem_erase, same, Ne.symm same]

end Notice

namespace Store

structure Calm (s t : Store) : Prop where
  files : t.index.files = s.index.files
  notices : t.notices = s.notices
  filed : s.index.Filed → t.index.Filed

namespace Calm

theorem trans {s t u : Store} (first : Calm s t) (second : Calm t u) : Calm s u where
  files := second.files.trans first.files
  notices := second.notices.trans first.notices
  filed := fun filed => second.filed (first.filed filed)

theorem of_quiet {s t : Store} (quiet : s.Quiet t) : Calm s t where
  files := by rw [quiet.index]
  notices := quiet.notices
  filed := fun filed => quiet.index ▸ filed

theorem refl (s : Store) : Calm s s :=
  of_quiet (.refl s)

theorem directory (s : Store) (p : Path) (status : Status) :
    Calm s { s with index := (s.index.insertDirectory p status true).1 } where
  files := Index.insertDirectory_files s.index p status
  notices := rfl
  filed := fun filed => filed.insertDirectory p status

end Calm

end Store

namespace Declaration

open Store (Calm)

theorem calm_publish (d : Definition) (s : Scope) : Calm s.store (publish d s).1.store := by
  unfold publish
  dsimp only
  split
  · exact .of_quiet (((Store.quiet_replace s.store s.store.backend _).trans
      (Store.quiet_emit (by simp [Store.Silent]) _)).trans
      (Store.quiet_emit (by simp [Store.Silent]) _))
  · exact .of_quiet ((Store.quiet_log s.store _).trans
      (Store.quiet_emit (by simp [Store.Silent]) _))

theorem calm_takeNumber {g : Generation} {r : Request} {m : Manifest} {hash : String} {s t : Store}
    {d : Option Definition} (taken : takeNumber g r m hash s = (t, d)) : Calm s t := by
  unfold takeNumber Index.setManifest at taken
  cases live : s.isLive g with
  | false =>
    simp only [live, Bool.false_eq_true, if_false, Prod.mk.injEq] at taken
    obtain ⟨rfl, -⟩ := taken
    exact ⟨rfl, rfl, id⟩
  | true =>
    simp only [live, if_true, Prod.mk.injEq] at taken
    obtain ⟨rfl, -⟩ := taken
    exact ⟨rfl, rfl, id⟩

theorem calm_install (policy : Policy) (g : Generation) (r : Request) (bytes : List UInt8)
    (s : Scope) : Calm s.store (install policy g r bytes s).1.store := by
  unfold install
  split
  · exact .refl _
  · dsimp only
    split
    · exact .of_quiet (Store.quiet_log _ _)
    · split
      next store refused => exact calm_takeNumber refused
      next store d installed =>
        have written : Calm s.store store := calm_takeNumber installed
        split
        · exact written.trans (.of_quiet (Store.quiet_askProject _ _))
        · refine .trans ?_ (calm_publish d _)
          exact written

/-- A declaration touches no file and sends no notice. -/
theorem calm_step (policy : Policy) (world : World) (g : Generation) (d : Declaration) (s : Scope) :
    Calm s.store (d.step policy world g s).1.store := by
  unfold step
  split
  · split
    · exact calm_install policy g _ _ s
    · split
      · exact .of_quiet (Store.quiet_log _ _)
      · exact .refl _
  next d =>
    have declared : Calm s.store (s.store.projectDeclared d.directory) :=
      .of_quiet (Store.quiet_projectDeclared _ _)
    refine .trans ?_ (calm_publish d _)
    exact declared
  · exact .refl _

end Declaration

namespace Crawl

open Store (Calm)

/-- The notices can be replayed, and the files are those that a reader of them knows and those that
are borne: registered but not announced.  A file that is borne as new is not known to the reader,
and one that is borne as changed is known and changed its time. -/
structure Journal (s : Store) (bears : Arrival → Prop) (known : PathSet) : Prop where
  replayed : Notice.replay s.notices.reverse = some known
  files : ∀ p, p ∈ s.index.files ↔ p ∈ known ∨ ∃ a, bears a ∧ a.path = p
  fresh : ∀ a, bears a → a.previous = none → a.path ∉ known
  renewed : ∀ a old, bears a → a.previous = some old →
    a.path ∈ known ∧ old.mtime ≠ a.status.mtime
  filed : s.index.Filed

def Journalled (s : Store) (bears : Arrival → Prop) : Prop :=
  ∃ known, Journal s bears known

namespace Journalled

variable {s t : Store} {bears : Arrival → Prop}

theorem congr {bears' : Arrival → Prop} (journal : Journalled s bears)
    (same : ∀ a, bears' a ↔ bears a) : Journalled s bears' := by
  obtain rfl : bears' = bears := funext fun a => propext (same a)
  exact journal

theorem filed (journal : Journalled s bears) : s.index.Filed := by
  obtain ⟨_, journal⟩ := journal
  exact journal.filed

theorem calm (journal : Journalled s bears) (calm : Calm s t) : Journalled t bears := by
  obtain ⟨known, journal⟩ := journal
  refine ⟨known, ?_, ?_, journal.fresh, journal.renewed, calm.filed journal.filed⟩
  · rw [calm.notices]
    exact journal.replayed
  · rw [calm.files]
    exact journal.files

theorem quiet (journal : Journalled s bears) (quiet : s.Quiet t) : Journalled t bears :=
  journal.calm (.of_quiet quiet)

/-- The notices of a deletion come after those before, in the order of the list. -/
theorem notices_delete (s : Store) (p : Path) :
    (s.delete p).notices.reverse = s.notices.reverse ++ (s.index.evict p).2.map .deleted := by
  have evicted : (s.evict p).1.notices = s.notices := (s.quiet_evict p).notices
  rw [s.delete_eq, ← evicted]
  simp [Store.notices, List.filterMap_append, List.filterMap_map]

/-- Deleting a path keeps the journal, as long as nothing at or below it is borne. -/
theorem delete (journal : Journalled s bears) {p : Path}
    (apart : ∀ a, bears a → ¬ p.Covers a.path) : Journalled (s.delete p) bears := by
  obtain ⟨known, journal⟩ := journal
  have departed := journal.filed.evict p
  have told : ∀ f ∈ (s.index.evict p).2, f ∈ known := by
    intro f gone
    rcases (journal.files f).1 (departed.were f gone) with known | ⟨a, borne, rfl⟩
    · exact known
    · exact absurd (departed.below a.path gone) (apart a borne)
  obtain ⟨left, replayed, members⟩ := Notice.foldlM_deleted _ known departed.nodup told
  refine ⟨left, ?_, ?_, ?_, ?_, ?_⟩
  · rw [notices_delete, Notice.replay_append, journal.replayed]
    exact replayed
  · intro f
    rw [delete_index, departed.files, journal.files, members]
    constructor
    · rintro ⟨known | borne, stays⟩
      · exact Or.inl ⟨known, stays⟩
      · exact Or.inr borne
    · rintro (⟨known, stays⟩ | ⟨a, borne, rfl⟩)
      · exact ⟨Or.inl known, stays⟩
      · exact ⟨Or.inr ⟨a, borne, rfl⟩, fun gone => apart a borne (departed.below _ gone)⟩
  · intro a borne new member
    exact journal.fresh a borne new ((members a.path).1 member).1
  · intro a old borne changed
    obtain ⟨member, differs⟩ := journal.renewed a old borne changed
    exact ⟨(members a.path).2 ⟨member, fun gone => apart a borne (departed.below _ gone)⟩, differs⟩
  · rw [delete_index]
    exact departed.filed

/-- A file that is registered is borne from then on. -/
theorem register (journal : Journalled s bears) {p : Path} {status : Status}
    (changed : s.index.hasChanged p status = true) (apart : ∀ a, bears a → a.path ≠ p) :
    Journalled { s with index := (s.index.insertFile p status true).1 }
      (fun a => bears a ∨ a = ⟨p, status, s.index.files[p]?⟩) := by
  obtain ⟨known, journal⟩ := journal
  refine ⟨known, journal.replayed, fun q => ?_, ?_, ?_, journal.filed.insertFile p status⟩
  · rw [Index.insertFile_files, Std.ExtTreeMap.mem_insert, journal.files]
    constructor
    · rintro (same | known | ⟨a, borne, rfl⟩)
      · exact Or.inr ⟨_, Or.inr rfl, Std.LawfulEqOrd.eq_of_compare same⟩
      · exact Or.inl known
      · exact Or.inr ⟨a, Or.inl borne, rfl⟩
    · rintro (known | ⟨a, borne | rfl, rfl⟩)
      · exact Or.inr (Or.inl known)
      · exact Or.inr (Or.inr ⟨a, borne, rfl⟩)
      · exact Or.inl Std.ReflCmp.compare_self
  · rintro a (borne | rfl) new member
    · exact journal.fresh a borne new member
    · have file := (journal.files p).2 (Or.inl member)
      rw [Std.ExtTreeMap.mem_iff_isSome_getElem?] at file
      simp [show s.index.files[p]? = none from new] at file
  · rintro a old (borne | rfl) replaced
    · exact journal.renewed a old borne replaced
    · have found : s.index.files[p]? = some old := replaced
      constructor
      · have file : p ∈ s.index.files := Std.ExtTreeMap.mem_iff_isSome_getElem?.2 (by simp [found])
        rcases (journal.files p).1 file with known | ⟨b, borne, same⟩
        · exact known
        · exact absurd same (apart b borne)
      · simpa [Index.hasChanged, Index.status?, found] using changed

/-- A file that was borne as new is announced. -/
theorem announce_new {a : Arrival} (journal : Journalled s fun b => bears b ∨ b = a)
    (new : a.previous = none) (apart : ∀ b, bears b → b.path ≠ a.path) :
    Journalled (s.emit (.notice (.new a.path))) bears := by
  obtain ⟨known, journal⟩ := journal
  have unknown := journal.fresh a (Or.inr rfl) new
  refine ⟨known.insert a.path, ?_, fun q => ?_, ?_, ?_, journal.filed⟩
  · have told : (s.emit (.notice (.new a.path))).notices.reverse =
        s.notices.reverse ++ [.new a.path] := List.reverse_cons
    rw [told, Notice.replay_append, journal.replayed]
    simp [Notice.follow, unknown]
  · rw [show (s.emit (.notice (.new a.path))).index = s.index from rfl, journal.files,
      Std.ExtTreeSet.mem_insert]
    constructor
    · rintro (known | ⟨b, borne | rfl, rfl⟩)
      · exact Or.inl (Or.inr known)
      · exact Or.inr ⟨b, borne, rfl⟩
      · exact Or.inl (Or.inl Std.ReflCmp.compare_self)
    · rintro ((same | known) | ⟨b, borne, rfl⟩)
      · exact Or.inr ⟨a, Or.inr rfl, Std.LawfulEqOrd.eq_of_compare same⟩
      · exact Or.inl known
      · exact Or.inr ⟨b, Or.inl borne, rfl⟩
  · intro b borne fresh member
    rcases Std.ExtTreeSet.mem_insert.1 member with same | known
    · exact apart b borne (Std.LawfulEqOrd.eq_of_compare same).symm
    · exact journal.fresh b (Or.inl borne) fresh known
  · intro b old borne changed
    obtain ⟨member, differs⟩ := journal.renewed b old (Or.inl borne) changed
    exact ⟨Std.ExtTreeSet.mem_insert.2 (Or.inr member), differs⟩

/-- A file that was borne as changed is known anyway, whether the change is announced or not. -/
theorem unburden {a : Arrival} {old : Status} (journal : Journalled s fun b => bears b ∨ b = a)
    (changed : a.previous = some old) (announced : Bool) :
    Journalled (if announced then s.emit (.notice (.changed a.path old a.status)) else s) bears := by
  obtain ⟨known, journal⟩ := journal
  obtain ⟨member, differs⟩ := journal.renewed a old (Or.inr rfl) changed
  have files : ∀ q, q ∈ s.index.files ↔ q ∈ known ∨ ∃ b, bears b ∧ b.path = q := by
    intro q
    rw [journal.files]
    constructor
    · rintro (known | ⟨b, borne | rfl, rfl⟩)
      · exact Or.inl known
      · exact Or.inr ⟨b, borne, rfl⟩
      · exact Or.inl member
    · exact Or.imp_right fun ⟨b, borne, same⟩ => ⟨b, Or.inl borne, same⟩
  cases announced with
  | false =>
    exact ⟨known, journal.replayed, files, fun b borne => journal.fresh b (Or.inl borne),
      fun b old borne => journal.renewed b old (Or.inl borne), journal.filed⟩
  | true =>
    refine ⟨known, ?_, files, fun b borne => journal.fresh b (Or.inl borne),
      fun b old borne => journal.renewed b old (Or.inl borne), journal.filed⟩
    have told : (s.emit (.notice (.changed a.path old a.status))).notices.reverse =
        s.notices.reverse ++ [.changed a.path old a.status] := List.reverse_cons
    rw [if_pos rfl, told, Notice.replay_append, journal.replayed]
    simp [Notice.follow, member, differs]

end Journalled

end Crawl

end ProjectIndex
