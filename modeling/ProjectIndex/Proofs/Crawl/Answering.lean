import ProjectIndex.Proofs.Crawl.Journal
import ProjectIndex.Proofs.Crawl.OneEntry

/-!
# What a crawl says about its path

The crawl of an entry ends with a word on whether anything has changed.  The word is that of its last
step.  From the moment at which the entry is registered, nothing that the crawl does touches the record of
the entry again, and the crawl ends with yes.  There is one exception: when the entry is a directory that
turns out to be gone as its entries are asked for, the entry is dropped again and the crawl ends with no,
whatever was written before.
-/

namespace ProjectIndex

open Std

namespace Index

variable {ix ix' ix'' : Index} {p q : Path}

/-- Away from the path the two indexes have the same files and the same directories, each with the same
status. -/
structure SameStatuses (ix ix' : Index) (p : Path) : Prop where
  files : ∀ q, ¬ p.Covers q → ix'.files[q]? = ix.files[q]?
  directories : ∀ q, ¬ p.Covers q → ix'.directories[q]? = ix.directories[q]?

namespace SameStatuses

theorem refl (ix : Index) (p : Path) : ix.SameStatuses ix p :=
  ⟨fun _ _ => rfl, fun _ _ => rfl⟩

theorem trans (first : ix.SameStatuses ix' p) (second : ix'.SameStatuses ix'' p) :
    ix.SameStatuses ix'' p where
  files q out := (second.files q out).trans (first.files q out)
  directories q out := (second.directories q out).trans (first.directories q out)

theorem above (same : ix.SameStatuses ix' q) (covers : p.Covers q) : ix.SameStatuses ix' p where
  files r out := same.files r fun inside => out (covers.trans inside)
  directories r out := same.directories r fun inside => out (covers.trans inside)

theorem evict (filed : ix.Filed) (p : Path) : ix.SameStatuses (ix.evict p).1 p := by
  have unreached : ∀ q, ¬ p.Covers q → ¬ ix.Reaches p q :=
    fun q out reached => out (reached.covers filed)
  constructor
  · intro q out
    rw [Index.evict, unlistChild_files]
    exact ((filed.walked p).outside q (unreached q out)).files
  · intro q out
    rw [Index.evict, unlistChild_directories]
    exact ((filed.walked p).outside q (unreached q out)).directories

theorem clearedFor (filed : ix.Filed) (p : Path) (st : Status) :
    ix.SameStatuses (ix.clearedFor p st) p :=
  (clearedFor_keeps (P := fun ix' => ix'.Filed ∧ ix.SameStatuses ix' p) (p := p)
    (fun _ kept => ⟨(kept.1.evict p).filed, kept.2.trans (.evict kept.1 p)⟩) ⟨filed, .refl ix p⟩ st).2

theorem insertDirectory (ix : Index) (p : Path) (st : Status) :
    ix.SameStatuses (ix.insertDirectory p st true).1 p := by
  constructor
  · intro q _
    rw [insertDirectory_files]
  · intro q out
    have other : p ≠ q := fun same => out (same ▸ .refl p)
    simp [ExtTreeMap.getElem?_insert, other]

theorem insertFile (ix : Index) (p : Path) (st : Status) :
    ix.SameStatuses (ix.insertFile p st true).1 p := by
  constructor
  · intro q out
    have other : p ≠ q := fun same => out (same ▸ .refl p)
    simp [ExtTreeMap.getElem?_insert, other]
  · intro q _
    rw [insertFile_directories]

end SameStatuses

structure SameRecord (ix ix' : Index) (p : Path) : Prop where
  file : ix'.files[p]? = ix.files[p]?
  directory : ix'.directories[p]? = ix.directories[p]?

namespace SameRecord

theorem refl (ix : Index) (p : Path) : ix.SameRecord ix p :=
  ⟨rfl, rfl⟩

theorem trans (first : ix.SameRecord ix' p) (second : ix'.SameRecord ix'' p) : ix.SameRecord ix'' p :=
  ⟨second.file.trans first.file, second.directory.trans first.directory⟩

theorem of_outside (same : ix.SameStatuses ix' q) (out : ¬ q.Covers p) : ix.SameRecord ix' p :=
  ⟨same.files p out, same.directories p out⟩

/-- What goes of the entries of a directory leaves the directory as it is. -/
theorem evictAll (filed : ix.Filed) {paths : List Path} {dir : Path}
    (members : ∀ c ∈ paths, c.parent = some dir) : ix.SameRecord (ix.evictAll paths) dir := by
  apply (evictAll_keeps (P := fun ix' => ix'.Filed ∧ ix.SameRecord ix' dir) ?_
    ⟨filed, .refl ix dir⟩).2
  rintro ix' c member ⟨filed', same⟩
  have evicted := SameStatuses.evict filed' c
  have outside := Path.not_covers_of_parent (members c member)
  exact ⟨(filed'.evict c).filed, same.trans (.of_outside evicted outside)⟩

end SameRecord

end Index

namespace Store

/-- The store without the path, if the path is known as something else than the status says. -/
def clearedFor (s : Store) (p : Path) (st : Status) : Store :=
  match s.index.status? p with
  | some old => if old.kind = st.kind then s else s.delete p
  | none => s

def withDirectory (s : Store) (p : Path) (st : Status) : Store :=
  { s with index := (s.index.insertDirectory p st true).1 }

theorem Quiet.withDirectory {s t : Store} (quiet : s.Quiet t) (p : Path) (st : Status) :
    (s.withDirectory p st).Quiet (t.withDirectory p st) where
  index := by
    dsimp only [Store.withDirectory]
    rw [quiet.index]
  notices := quiet.notices
  cancelled := quiet.cancelled
  nextGeneration := quiet.nextGeneration

end Store

namespace Crawl

variable {ctx : Context} {world : World} {s : Scope} {p : Path} {r : Scope × Progress}

/-- Away from the path of its task, a deed leaves every status as it is. -/
theorem Deed.sameStatuses {ix ix' : Index} {task : Task} {next : Progress}
    (deed : Deed ctx world ix task ix' next) (filed : ix.Filed) : ix.SameStatuses ix' task.path := by
  cases deed with
  | ended | begun | subscribed | project | declared => exact .refl ix _
  | removed result => exact .evict filed _
  | cleared p st result => exact .clearedFor filed p st
  | @directory p st task kind goesOn =>
    exact (Index.SameStatuses.clearedFor filed p st).trans (.insertDirectory _ p st)
  | @file p st next kind goesOn =>
    exact (Index.SameStatuses.clearedFor filed p st).trans (.insertFile _ p st)
  | @listed dir known cs gone told entries =>
    apply (Index.evictAll_keeps (P := fun ix' => ix'.Filed ∧ ix.SameStatuses ix' dir) ?_
      ⟨filed, .refl ix dir⟩).2
    rintro ix' c member ⟨filed', same⟩
    have below := Path.covers_of_parent (filed dir c (entries c member))
    exact ⟨(filed'.evict c).filed, same.trans ((Index.SameStatuses.evict filed' c).above below)⟩
  | installed => exact ⟨fun _ _ => rfl, fun _ _ => rfl⟩

/-- Away from the path of its task, a move leaves every status as it is. -/
theorem Task.Moves.sameStatuses {task : Task} (moved : Task.Moves ctx world s task r)
    (live : s.store.isStale ctx.generation = false) (placed : task.Placed)
    (filed : s.store.index.Filed) : s.store.index.SameStatuses r.1.store.index task.path := by
  cases moved.shifts live placed with
  | leaf inside single moved closes =>
    rw [closes.index]
    exact ((moved.deed live single).sameStatuses filed).above (placed.covers_leaf inside)
  | idle closes =>
    rw [closes.index]
    exact .refl _ _

def Progress.Affirms (next : Progress) : Prop :=
  ∀ changed, next = .finished (.ok changed) → changed = true

theorem affirms_waiting (task : Task) : (Progress.waiting task).Affirms := by
  rintro changed ⟨⟩

theorem affirms_error (e : IndexError) : (Progress.finished (.error e)).Affirms := by
  rintro changed ⟨⟩

theorem affirms_yes : (Progress.finished (.ok true)).Affirms := by
  rintro changed ⟨⟩
  rfl

theorem affirms_conclude (dir : Path) (failure : Option IndexError) (s : Scope) :
    (conclude dir failure s).2.Affirms := by
  cases failure with
  | none => exact affirms_yes
  | some e => exact affirms_error e

theorem affirms_following (dir : Path) (queue rest : List Path) :
    (following dir queue rest).Affirms := by
  cases queue with
  | nil =>
    simp only [following]
    split
    · exact affirms_yes
    · exact affirms_waiting _
  | cons p queue => exact affirms_waiting _

theorem affirms_resume {a : Arrival} {r : Scope × Declaration.Progress}
    (live : r.1.store.isStale ctx.generation = false) : (ctx.resume a r).2.Affirms := by
  obtain ⟨s, d | d | e⟩ := r
  · exact affirms_waiting _
  · exact affirms_error _
  · rw [Context.resume, (announce_outcome live a).2]
    exact affirms_yes

theorem affirms_interest (a : Arrival) (D : Declaration) :
    (if ctx.policy.layout.isOfInterest a.path then Progress.waiting (.manifest a D)
      else .finished (.ok true)).Affirms := by
  split
  · exact affirms_waiting _
  · exact affirms_yes

/-- The task has come past the registration of its entry, and past the question for the entries of a
directory. -/
def Task.Further : Task → Prop
  | .begin _ | .entry _ | .subscribe _ _ | .list _ _ => False
  | _ => True

theorem further_following {dir : Path} {queue rest : List Path} {task : Task}
    (waits : following dir queue rest = .waiting task) : task.Further := by
  cases queue with
  | nil =>
    simp only [following] at waits
    split at waits
    · cases waits
    · cases waits
      trivial
  | cons p queue =>
    cases waits
    trivial

/-- Past the registration of its entry a crawl leaves the record of the entry as it is, and if it ends
well it ends with yes. -/
theorem Task.Moves.further {task : Task} (moved : Task.Moves ctx world s task r)
    (further : task.Further) (live : s.store.isStale ctx.generation = false) (placed : task.Placed)
    (filed : s.store.index.Filed) :
    s.store.index.SameRecord r.1.store.index task.path ∧ r.2.Affirms ∧
      ∀ next, r.2 = .waiting next → next.Further := by
  have inner : ∀ {current : Task} {r' : Scope × Progress} {dir : Path},
      Task.Moves ctx world s current r' → current.Placed → current.path.parent = some dir →
      s.store.index.SameRecord r'.1.store.index dir := by
    intro current r' dir moved placed parent
    exact .of_outside (moved.sameStatuses live placed filed) (Path.not_covers_of_parent parent)
  cases moved with
  | begin | entry | subscribe | list => exact absurd further id
  | project a root =>
    obtain ⟨index, goesOn⟩ := projectDeclared_outcome live a root (world.projectRemarks root)
    rw [index, goesOn]
    refine ⟨.refl _ _, affirms_interest a _, ?_⟩
    intro next waits
    split at waits
    · cases waits
      trivial
    · cases waits
  | manifest a D =>
    obtain ⟨index, goesOn⟩ := @manifest_still ctx s live world a D
    have declared : (D.step ctx.policy world ctx.generation s).1.store.isStale ctx.generation = false :=
      ((edits_declaration world D s).isStale _).trans live
    refine ⟨?_, affirms_resume declared, ?_⟩
    · rcases index with same | ⟨E, installed⟩
      · rw [same]
        exact .refl _ _
      · rw [installed]
        exact ⟨rfl, rfl⟩
    · intro next waits
      obtain ⟨D', rfl⟩ := goesOn next waits
      trivial
  | inOrder dir queue rest moved =>
    cases placed with
    | inOrder first siblings distinct =>
      have kept := inner moved first (siblings _ List.mem_cons_self)
      refine ⟨kept, affirms_waiting _, ?_⟩
      intro next waits
      cases waits
      trivial
  | inOrderFailed dir queue rest moved =>
    cases placed with
    | inOrder first siblings distinct =>
      have kept := inner moved first (siblings _ List.mem_cons_self)
      refine ⟨kept, affirms_error _, ?_⟩
      intro next waits
      cases waits
  | inOrderDone dir queue rest moved =>
    cases placed with
    | inOrder first siblings distinct =>
      have kept := inner moved first (siblings _ List.mem_cons_self)
      obtain ⟨index, goesOn⟩ := nextInOrder_outcome ((moved.edits.isStale _).trans live) dir queue rest
      rw [index, goesOn]
      exact ⟨kept, affirms_following dir queue rest, fun next => further_following⟩
  | @together s' task task' dir before after failure moved =>
    cases placed with
    | together each siblings distinct =>
      have kept := inner moved (each task (by simp)) (siblings task (by simp))
      refine ⟨kept, affirms_waiting _, ?_⟩
      intro next waits
      cases waits
      trivial
  | @togetherDone s' task result dir before after failure moved left =>
    cases placed with
    | together each siblings distinct =>
      have kept := inner moved (each task (by simp)) (siblings task (by simp))
      refine ⟨kept, affirms_waiting _, ?_⟩
      intro next waits
      cases waits
      trivial
  | @togetherLast s' task result dir failure moved =>
    cases placed with
    | together each siblings distinct =>
      have kept := inner moved (each task (by simp)) (siblings task (by simp))
      rw [conclude_index]
      exact ⟨kept, affirms_conclude dir _ _, fun next waits => absurd waits conclude_not_waiting⟩
  | togetherNone dir failure =>
    rw [conclude_index]
    exact ⟨.refl _ _, affirms_conclude dir _ _, fun next waits => absurd waits conclude_not_waiting⟩

/-- Stores that are the same to those who ask are so after a deletion. -/
theorem quiet_delete {s t : Store} (quiet : s.Quiet t) (p : Path) : (s.delete p).Quiet (t.delete p) where
  index := by rw [delete_index, delete_index, quiet.index]
  notices := by
    apply List.reverse_injective
    rw [Journalled.notices_delete, Journalled.notices_delete, quiet.index, quiet.notices]
  cancelled := by rw [(delete_cancelled t p).1, (delete_cancelled s p).1, quiet.cancelled]
  nextGeneration := by rw [(delete_cancelled t p).2, (delete_cancelled s p).2, quiet.nextGeneration]

/-- In a live generation a removal is a deletion. -/
theorem remove_live (live : s.store.isStale ctx.generation = false) (p : Path) :
    (s.store.delete p).Quiet (ctx.remove p s).1.store ∧ (ctx.remove p s).2 = true := by
  unfold Context.remove
  rw [if_neg (by simp [Context.isStale, live])]
  refine ⟨?_, rfl⟩
  dsimp only
  split
  · exact Store.quiet_forgetDirectory (s.store.delete p) p
  · exact .refl (s.store.delete p)

/-- The crawl of the path has come past the registration, and the record of the path is that of the
index. -/
structure PastRegistration (p : Path) (ix : Index) (now : Scope × Progress) : Prop where
  filed : now.1.store.index.Filed
  same : ix.SameRecord now.1.store.index p
  affirms : now.2.Affirms
  goesOn : ∀ task, now.2 = .waiting task → task.Further ∧ task.Placed ∧ task.path = p

/-- What has become of a directory since its crawl registered it in the store. -/
inductive Tenure (ctx : Context) (admits : World → Prop) (p : Path) (start : Store) :
    Scope × Progress → Prop where
  /-- Its entries are still to be asked for. -/
  | asking {s : Scope} {known : Bool} {task : Task} (quiet : start.Quiet s.store)
      (asks : task = .subscribe p known ∨ task = .list p known) :
      Tenure ctx admits p start (s, .waiting task)
  /-- Its record stays. -/
  | kept {now : Scope × Progress} (kept : PastRegistration p start.index now) :
      Tenure ctx admits p start now
  /-- It was gone as its entries were asked for, and is dropped. -/
  | vanished {s : Scope} {world : World} {cause : DiskError} (admitted : admits world)
      (told : world.children p = .error cause) (gone : cause.isNotFound = true)
      (dropped : (start.delete p).Quiet s.store) :
      Tenure ctx admits p start (s, .finished (.ok false))

variable {admits : World → Prop} {start : Store}

theorem PastRegistration.step {ix : Index} {task : Task} (kept : PastRegistration p ix (s, .waiting task))
    (moved : Task.Moves ctx world s task r) (lists : world.ListsOnce) (absolute : p.isAbsolute = true)
    (live : s.store.isStale ctx.generation = false) : PastRegistration p ix r := by
  obtain ⟨further, placed, rfl⟩ := kept.goesOn task rfl
  obtain ⟨same, affirms, further'⟩ := moved.further further live placed kept.filed
  obtain ⟨stints, taken⟩ := moved.takes
  constructor
  · exact Edits.filed moved.edits kept.filed
  · exact kept.same.trans same
  · exact affirms
  · exact fun next waits => ⟨further' next waits, taken.placed lists absolute placed waits⟩

/-- The entries of a directory are asked for: the directory is dropped, or its record stays. -/
theorem tenure_listed (admitted : admits world) (lists : world.ListsOnce) (absolute : p.isAbsolute = true)
    (filed : s.store.index.Filed) (live : s.store.isStale ctx.generation = false)
    (quiet : start.Quiet s.store) (known : Bool) :
    Tenure ctx admits p start (ctx.listed p known (world.children p) s) := by
  have moved : Task.Moves ctx world s (.list p known) (ctx.listed p known (world.children p) s) :=
    .list p known
  have filed' := Edits.filed moved.edits filed
  rcases listed_outcome live p known (world.children p) with
    ⟨cause, told, ⟨gone, _, _⟩ | ⟨index, ends⟩⟩ | ⟨cs, told, index, goesOn⟩
  · have removed := (remove_live live p).1
    have same : ctx.listed p known (world.children p) s =
        ((ctx.remove p s).1, .finished (.ok false)) := by
      simp [told, Context.listed, gone]
    rw [same]
    exact .vanished admitted told gone ((quiet_delete quiet p).trans removed)
  · apply Tenure.kept
    constructor
    · exact filed'
    · rw [index, quiet.index]
      exact .refl _ p
    · rw [ends]
      exact affirms_error _
    · rw [ends]
      rintro task ⟨⟩
  · obtain ⟨stints, taken⟩ := moved.takes
    apply Tenure.kept
    constructor
    · exact filed'
    · rw [index, ← quiet.index]
      split
      · apply Index.SameRecord.evictAll filed
        intro c member
        exact filed p c (List.mem_filter.1 member).1
      · exact .refl _ p
    · rw [goesOn]
      exact affirms_following p _ _
    · intro task waits
      refine ⟨further_following (goesOn.symm.trans waits), ?_⟩
      exact taken.placed lists absolute (.list p known) waits

/-- What was quiet before the registration does not count. -/
theorem Tenure.after {start' : Store} {now : Scope × Progress}
    (tenure : Tenure ctx admits p start' now) (quiet : start.Quiet start') :
    Tenure ctx admits p start now := by
  cases tenure with
  | asking later asks => exact .asking (quiet.trans later) asks
  | kept kept => exact .kept (quiet.index ▸ kept)
  | vanished admitted told gone dropped =>
    exact .vanished admitted told gone ((quiet_delete quiet p).trans dropped)

/-- A move keeps track of what has become of the path. -/
theorem Tenure.step {task : Task} (tenure : Tenure ctx admits p start (s, .waiting task))
    (moved : Task.Moves ctx world s task r) (admitted : admits world) (lists : world.ListsOnce)
    (absolute : p.isAbsolute = true) (filed : start.index.Filed)
    (live : s.store.isStale ctx.generation = false) : Tenure ctx admits p start r := by
  cases tenure with
  | asking quiet asks =>
    rcases asks with rfl | rfl
    · cases moved
      exact .asking (quiet.trans (quiet_subscribed p _ s)) (Or.inr rfl)
    · cases moved
      exact tenure_listed admitted lists absolute (quiet.index ▸ filed) live quiet _
  | kept kept => exact .kept (kept.step moved lists absolute live)

/-- What has become of a directory when the crawl is over. -/
theorem Served.tenure {s' : Scope} {result : Except IndexError Bool}
    (served : Served ctx admits r s' result) (tenure : Tenure ctx admits p start r)
    (lists : ∀ world, admits world → world.ListsOnce) (absolute : p.isAbsolute = true)
    (filed : start.index.Filed) (live : r.1.store.isStale ctx.generation = false) :
    Tenure ctx admits p start (s', .finished result) := by
  refine (served.keeps (P := fun now => now.1.store.isStale ctx.generation = false ∧
    Tenure ctx admits p start now) ⟨live, tenure⟩ ?_).2
  rintro s task world now admitted moved ⟨live, tenure⟩
  exact ⟨(moved.edits.isStale _).trans live,
    tenure.step moved admitted (lists world admitted) absolute filed live⟩

theorem Served.kept {s' : Scope} {result : Except IndexError Bool} {ix : Index}
    (served : Served ctx admits r s' result) (kept : PastRegistration p ix r)
    (lists : ∀ world, admits world → world.ListsOnce) (absolute : p.isAbsolute = true)
    (live : r.1.store.isStale ctx.generation = false) : PastRegistration p ix (s', .finished result) := by
  refine (served.keeps
    (P := fun now => now.1.store.isStale ctx.generation = false ∧ PastRegistration p ix now)
    ⟨live, kept⟩ ?_).2
  rintro s task world now admitted moved ⟨live, kept⟩
  exact ⟨(moved.edits.isStale _).trans live, kept.step moved (lists world admitted) absolute live⟩

theorem clearedFor_index (s : Store) (p : Path) (st : Status) :
    (s.clearedFor p st).index = s.index.clearedFor p st := by
  unfold Store.clearedFor Index.clearedFor
  cases s.index.status? p with
  | none => rfl
  | some old =>
    dsimp only
    split
    · rfl
    · exact delete_index s p

/-- A directory is passed over without a word, or it is registered and its entries are going to be asked
for. -/
theorem addDirectory_registers (live : s.store.isStale ctx.generation = false) (p : Path) (st : Status) :
    (s.store.Quiet (ctx.addDirectory p st s).1.store ∧
        (ctx.addDirectory p st s).2 = .finished (.ok false) ∧
        (ctx.policy.ignores p .directory = true ∨ s.store.index.hasChanged p st = false)) ∨
      (s.store.index.hasChanged p st = true ∧
        Tenure ctx admits p (s.store.withDirectory p st) (ctx.addDirectory p st s)) := by
  have added := directoryAdded ctx p st s
  generalize ctx.addDirectory p st s = r at added ⊢
  cases added with
  | unchanged same => exact Or.inl ⟨.refl _, rfl, Or.inr same⟩
  | ignored _ denied => exact Or.inl ⟨Store.quiet_log _ _, rfl, Or.inl denied⟩
  | withdrawn _ _ stale =>
    rw [live] at stale
    cases stale
  | subscribing changed => exact Or.inr ⟨changed, .asking (Store.quiet_askDirectory _ p) (Or.inl rfl)⟩
  | listing changed => exact Or.inr ⟨changed, .asking (.refl _) (Or.inr rfl)⟩

/-- A file is passed over without a word, or it is registered and its record stays. -/
theorem addFile_registers (live : s.store.isStale ctx.generation = false)
    (filed : s.store.index.Filed) (p : Path) (st : Status) :
    (s.store.Quiet (ctx.addFile p st s).1.store ∧ (ctx.addFile p st s).2 = .finished (.ok false) ∧
        (ctx.policy.ignores p .file = true ∨ s.store.index.hasChanged p st = false)) ∨
      (s.store.index.hasChanged p st = true ∧
        PastRegistration p (s.store.index.insertFile p st true).1 (ctx.addFile p st s)) := by
  have stays := @stays_addFile ctx p st s
  rcases addFile_outcome live p st with ⟨passed, _, ends⟩ | ⟨⟨changed, taken⟩, index, a, own, goesOn⟩
  · rw [addFile_passed passed]
    exact Or.inl ⟨.refl _, rfl, passed.symm⟩
  · refine Or.inr ⟨changed, ?_⟩
    constructor
    · rw [index]
      exact filed.insertFile p st
    · rw [index]
      exact .refl _ p
    · rcases goesOn with ⟨root, waits⟩ | goesOn
      · rw [waits]
        exact affirms_waiting _
      · rw [goesOn, ← own]
        exact affirms_interest a _
    · intro task waits
      rw [waits] at stays
      refine ⟨?_, stays.1.placed, stays.2⟩
      rcases goesOn with ⟨root, next⟩ | next
      · cases next.symm.trans waits
        trivial
      · rw [next] at waits
        split at waits
        · cases waits
          trivial
        · cases waits

/-- An entry that the disk tells of is cleared first, and then it is passed over, or registered as what it
is. -/
theorem examined_registers (live : s.store.isStale ctx.generation = false)
    (filed : s.store.index.Filed) (p : Path) (st : Status) :
    ((s.store.clearedFor p st).Quiet (ctx.examined p (.ok st) s).1.store ∧
        (ctx.examined p (.ok st) s).2 = .finished (.ok false) ∧
        (st.kind = .unknown ∨ ctx.policy.ignores p st.kind = true ∨
          (s.store.index.clearedFor p st).hasChanged p st = false)) ∨
      ((s.store.index.clearedFor p st).hasChanged p st = true ∧
        ((st.kind = .directory ∧ Tenure ctx admits p ((s.store.clearedFor p st).withDirectory p st)
            (ctx.examined p (.ok st) s)) ∨
          (st.kind = .file ∧ PastRegistration p ((s.store.index.clearedFor p st).insertFile p st true).1
            (ctx.examined p (.ok st) s)))) := by
  obtain ⟨s', origin, examined⟩ := @examined_told ctx p st s
  have cleared : (s.store.clearedFor p st).Quiet s'.store := by
    unfold Store.clearedFor
    rcases origin with ⟨rfl, same⟩ | ⟨rfl, old, found, other⟩
    · cases found : s'.store.index.status? p with
      | none => exact .refl _
      | some old =>
        dsimp only
        rw [if_pos (same old found)]
        exact .refl _
    · rw [found]
      dsimp only
      rw [if_neg other]
      exact (remove_live live p).1
  have index : s'.store.index = s.store.index.clearedFor p st :=
    cleared.index.trans (clearedFor_index s.store p st)
  have live' : s'.store.isStale ctx.generation = false := by
    rcases origin with ⟨rfl, _⟩ | ⟨rfl, _⟩
    · exact live
    · exact ((edits_remove p s).isStale _).trans live
  have filed' : s'.store.index.Filed := by
    rw [index]
    exact filed.clearedFor p st
  rw [examined, ← index]
  cases st.kind with
  | directory =>
    rcases @addDirectory_registers ctx s' admits live' p st with ⟨quiet, ends, passed⟩ | ⟨changed, tenure⟩
    · exact Or.inl ⟨cleared.trans quiet, ends, Or.inr passed⟩
    · exact Or.inr ⟨changed, Or.inl ⟨rfl, tenure.after (cleared.withDirectory p st)⟩⟩
  | file =>
    rcases addFile_registers live' filed' p st with ⟨quiet, ends, passed⟩ | ⟨changed, kept⟩
    · exact Or.inl ⟨cleared.trans quiet, ends, Or.inr passed⟩
    · exact Or.inr ⟨changed, Or.inr ⟨rfl, kept⟩⟩
  | unknown => exact Or.inl ⟨cleared, rfl, Or.inl rfl⟩

end Crawl

end ProjectIndex
