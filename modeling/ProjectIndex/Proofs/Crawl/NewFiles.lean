import ProjectIndex.Proofs.Crawl.Frontier
import ProjectIndex.Proofs.Crawl.Turns

/-!
# New files are announced

A file that a crawl registers for the first time is announced before the crawl ends.  In between it is
borne by a wait, and all waits under way are kept, whatever fails beside them.  Of the waits that bear
a file a single one can fail: that for the contents of a manifest.  Then the crawl fails, and the file
stays registered and is never announced.
-/

namespace ProjectIndex

/-- A manifest that counts was asked for and could not be read, though the world did not say that it
is not there. -/
def Policy.Unreadable (policy : Policy) (admits : World → Prop) (p : Path) : Prop :=
  policy.layout.isOfInterest p = true ∧
    ∃ world cause, admits world ∧ world.contents p = .error cause ∧ cause.isNotFound = false

/-- Whoever has read the notices up to the old store is told by the others that the file is new. -/
def Store.Announced (old s : Store) (p : Path) : Prop :=
  ∃ sent, s.notices = sent ++ old.notices ∧ Notice.new p ∈ sent

namespace Crawl

open Store (Announced Calm)

/-- Notices are only added. -/
theorem Edits.notices {ctx : Context} {s t : Store} (edits : Edits ctx s t) :
    ∃ sent, t.notices = sent ++ s.notices := by
  induction edits with
  | refl => exact ⟨[], rfl⟩
  | @tail t u _ edit ih =>
    obtain ⟨sent, before⟩ := ih
    have added : ∃ more, u.notices = more ++ t.notices := by
      cases edit with
      | quiet same => exact ⟨[], same.notices⟩
      | delete p live =>
        have deleted := congrArg List.reverse (Journalled.notices_delete t p)
        rw [List.reverse_reverse, List.reverse_append, List.reverse_reverse] at deleted
        exact ⟨_, deleted⟩
      | notice n live => exact ⟨[n], rfl⟩
      | directory | file | manifest => exact ⟨[], rfl⟩
    obtain ⟨more, after⟩ := added
    exact ⟨more ++ sent, by rw [after, before, List.append_assoc]⟩

theorem announced_later {ctx : Context} {old s t : Store} {p : Path}
    (announced : Announced old s p) (edits : Edits ctx s t) : Announced old t p := by
  obtain ⟨sent, before, member⟩ := announced
  obtain ⟨more, after⟩ := edits.notices
  refine ⟨more ++ sent, ?_, List.mem_append_right _ member⟩
  rw [after, before, List.append_assoc]

theorem announced_since {ctx : Context} {old s t : Store} {p : Path} (edits : Edits ctx old s)
    (announced : Announced s t p) : Announced old t p := by
  obtain ⟨sent, after, member⟩ := announced
  obtain ⟨more, before⟩ := edits.notices
  refine ⟨sent ++ more, ?_, List.mem_append_left _ member⟩
  rw [after, before, List.append_assoc]

namespace Task

mutual

/-- What a task bears is borne by one of its waits. -/
theorem bears_iff_frontier (a : Arrival) (task : Task) :
    task.Bears a ↔ ∃ wait ∈ task.frontier, wait.Bears a := by
  match task with
  | .begin _ | .entry _ | .subscribe _ _ | .list _ _ | .project _ _ | .manifest _ _ =>
    simp [frontier]
  | .inOrder _ current _ _ =>
    rw [bears_inOrder, frontier]
    exact bears_iff_frontier a current
  | .together _ running _ =>
    rw [bears_together, frontier]
    exact bears_iff_frontiers a running

theorem bears_iff_frontiers (a : Arrival) (tasks : List Task) :
    (∃ task ∈ tasks, task.Bears a) ↔ ∃ wait ∈ frontiers tasks, wait.Bears a := by
  match tasks with
  | [] => simp [frontiers]
  | task :: rest =>
    have first := bears_iff_frontier a task
    have others := bears_iff_frontiers a rest
    simp only [frontiers, List.mem_cons, List.mem_append, or_and_right, exists_or, exists_eq_left,
      first, others]

end

end Task

theorem Progress.bears_iff_frontier {a : Arrival} {progress : Progress} :
    progress.Bears a ↔ ∃ wait ∈ progress.frontier, wait.Bears a := by
  cases progress with
  | waiting task => exact Task.bears_iff_frontier a task
  | finished result => simp [Progress.frontier]

def Greets (old : Store) (p : Path) (r : Scope × Progress) : Prop :=
  Announced old r.1.store p ∨ ∃ a, r.2.Bears a ∧ a.path = p ∧ a.previous = none

theorem Greets.after {s t : Store} {p : Path} {r : Scope × Progress} (greets : Greets t p r)
    (calm : Calm s t) : Greets s p r := by
  rcases greets with ⟨sent, notices, member⟩ | borne
  · exact Or.inl ⟨sent, notices.trans (congrArg _ calm.notices), member⟩
  · exact Or.inr borne

section

variable {ctx : Context} {world : World} {s : Scope}

theorem greets_announce (live : s.store.isStale ctx.generation = false) {a : Arrival}
    (new : a.previous = none) : Greets s.store a.path (ctx.announce a s) := by
  have announced := fileAnnounced ctx a s
  generalize ctx.announce a s = r at announced ⊢
  cases announced with
  | withdrawn stale =>
    rw [live] at stale
    cases stale
  | new => exact Or.inl ⟨[.new a.path], rfl, by simp⟩
  | changed _ previous | untold _ previous =>
    rw [new] at previous
    cases previous

theorem greets_resume {a : Arrival} {r : Scope × Declaration.Progress}
    (live : r.1.store.isStale ctx.generation = false) (new : a.previous = none)
    (fine : ∀ e, ¬ (ctx.resume a r).2.Failed e) : Greets r.1.store a.path (ctx.resume a r) := by
  obtain ⟨s, _ | _ | _⟩ := r
  · exact Or.inr ⟨a, .manifest a _, rfl, new⟩
  · exact absurd rfl (fine _)
  · exact greets_announce live new

theorem greets_declareManifest (live : s.store.isStale ctx.generation = false) {a : Arrival}
    (new : a.previous = none) : Greets s.store a.path (ctx.declareManifest a s) := by
  have declared := manifestDeclared ctx a s
  generalize ctx.declareManifest a s = r at declared ⊢
  cases declared with
  | unnamed => exact greets_announce live new
  | skipped =>
    have logged := s.store.quiet_log (Declaration.line "skipped" a.path.display)
    exact (@greets_announce ctx (s.log _) live a new).after (.of_quiet logged)
  | reading => exact Or.inr ⟨a, .manifest a _, rfl, new⟩

theorem greets_declareFile (live : s.store.isStale ctx.generation = false) {a : Arrival}
    (new : a.previous = none) : Greets s.store a.path (ctx.declareFile a s) := by
  unfold Context.declareFile
  split
  next root _ => exact Or.inr ⟨a, .project a root, rfl, new⟩
  · exact greets_declareManifest live new

/-- A file that was not known before is greeted when it is taken in. -/
theorem greets_addFile (live : s.store.isStale ctx.generation = false) {file : Path}
    {status : Status} {p : Path} (unknown : p ∉ s.store.index.files)
    (known : p ∈ (ctx.addFile file status s).1.store.index.files) :
    Greets s.store p (ctx.addFile file status s) := by
  have added := fileAdded ctx file status s
  generalize ctx.addFile file status s = r at added known ⊢
  cases added with
  | unchanged | ignored | withdrawn => exact absurd known unknown
  | registered =>
    let written := s.update fun store =>
      { store with index := (s.store.index.insertFile file status true).1 }
    let a : Arrival := ⟨file, status, s.store.index.files[file]?⟩
    rw [(@declareFile_outcome ctx written live a).1] at known
    have inside : p ∈ (s.store.index.insertFile file status true).1.files := known
    rw [Index.insertFile_files, Std.ExtTreeMap.mem_insert] at inside
    have own : file = p := Std.LawfulEqOrd.eq_of_compare (inside.resolve_right unknown)
    subst own
    exact @greets_declareFile ctx written live a (Std.ExtTreeMap.getElem?_eq_none unknown)

theorem greets_examined (live : s.store.isStale ctx.generation = false)
    (filed : s.store.index.Filed) {entry : Path} {answer : Except DiskError Status} {p : Path}
    (unknown : p ∉ s.store.index.files)
    (known : p ∈ (ctx.examined entry answer s).1.store.index.files) :
    Greets s.store p (ctx.examined entry answer s) := by
  obtain ⟨gone, removed⟩ := @vanished_remove ctx s filed entry
  cases answer with
  | error cause =>
    exfalso
    unfold Context.examined at known
    dsimp only at known
    split at known
    · split at known
      · exact unknown ((removed.files p).1 known).1
      · exact unknown known
    · exact unknown known
  | ok status =>
    obtain ⟨s', origin, examined⟩ := @examined_told ctx entry status s
    have cleared : (∃ gone, Vanished s.store s'.store gone) ∧ Edits ctx s.store s'.store := by
      rcases origin with ⟨rfl, _⟩ | ⟨rfl, _⟩
      · exact ⟨⟨[], .of_calm (.refl _)⟩, .refl⟩
      · exact ⟨⟨gone, removed⟩, edits_remove entry s⟩
    obtain ⟨⟨gone, vanished⟩, edits⟩ := cleared
    have still := (edits.isStale ctx.generation).trans live
    have missing : p ∉ s'.store.index.files := fun there => unknown ((vanished.files p).1 there).1
    rw [examined] at known ⊢
    split at known
    · rw [(calm_addDirectory entry status s').files] at known
      exact absurd known missing
    · rcases greets_addFile still missing known with announced | borne
      · exact Or.inl (announced_since edits announced)
      · exact Or.inr borne
    · exact absurd known missing

/-- The entries of a directory are listed, and no file is taken in. -/
theorem files_listed (filed : s.store.index.Filed) (dir : Path) (known : Bool)
    (answer : Except DiskError (List Path)) {p : Path}
    (there : p ∈ (ctx.listed dir known answer s).1.store.index.files) : p ∈ s.store.index.files := by
  unfold Context.listed at there
  cases answer with
  | error cause =>
    dsimp only at there
    split at there
    · obtain ⟨gone, removed⟩ := @vanished_remove ctx s filed dir
      exact ((removed.files p).1 there).1
    · exact there
  | ok children =>
    dsimp only at there
    split at there
    · exact there
    · rw [(quiet_nextInOrder dir _ _ _).index] at there
      split at there
      · obtain ⟨gone, vanished⟩ := @vanished_reconcile ctx s filed dir children
        exact ((vanished.files p).1 there).1
      · exact there

/-- A file that is there when a single wait has ended was there before, or is greeted. -/
theorem Task.Moves.greets_new {wait : Task} {r : Scope × Progress}
    (moved : Task.Moves ctx world s wait r) (single : wait.Single)
    (live : s.store.isStale ctx.generation = false) (filed : s.store.index.Filed) {p : Path}
    (unknown : p ∉ s.store.index.files) (known : p ∈ r.1.store.index.files) :
    Greets s.store p r := by
  cases moved with
  | begin q =>
    rw [addEntry_outcome live] at known
    exact absurd known unknown
  | entry q => exact greets_examined live filed unknown known
  | subscribe dir followed =>
    rw [(quiet_subscribed dir _ s).index] at known
    exact absurd known unknown
  | list dir followed => exact absurd (files_listed filed dir followed _ known) unknown
  | project a root =>
    rw [(projectDeclared_outcome live a root _).1] at known
    exact absurd known unknown
  | manifest a d =>
    have stepped := Declaration.calm_step ctx.policy world ctx.generation d s
    have resumed : (ctx.resume a (d.step ctx.policy world ctx.generation s)).1.store.index.files =
        (d.step ctx.policy world ctx.generation s).1.store.index.files := by
      have still := ((@edits_declaration ctx world d s).isStale ctx.generation).trans live
      generalize d.step ctx.policy world ctx.generation s = r at still
      obtain ⟨s', _ | _ | _⟩ := r
      · rfl
      · rfl
      · rw [Context.resume, (announce_outcome still a).1]
    rw [resumed, stepped.files] at known
    exact absurd known unknown
  | inOrder | inOrderFailed | inOrderDone | together | togetherDone | togetherLast | togetherNone =>
    exact absurd single id

/-- A file that is borne as new by a single wait is greeted when the wait ends without a failure. -/
theorem Task.Moves.greets_borne {wait : Task} {r : Scope × Progress}
    (moved : Task.Moves ctx world s wait r) (live : s.store.isStale ctx.generation = false)
    (single : wait.Single) (fine : ∀ e, ¬ r.2.Failed e) {a : Arrival} (borne : wait.Bears a)
    (new : a.previous = none) : Greets s.store a.path r := by
  cases moved with
  | begin | entry | subscribe | list => cases borne
  | project b root =>
    obtain rfl := Task.bears_project.1 borne
    have declared := Store.quiet_projectDeclared s.store root
    exact (greets_declareManifest ((declared.isStale _).trans live) new).after (.of_quiet declared)
  | manifest b d =>
    obtain rfl := Task.bears_manifest.1 borne
    have stepped := @edits_declaration ctx world d s
    exact (greets_resume ((stepped.isStale _).trans live) new fine).after
      (Declaration.calm_step _ world _ d s)
  | inOrder | inOrderFailed | inOrderDone | together | togetherDone | togetherLast | togetherNone =>
    exact absurd single id

/-- A wait for contents is for those of the file that it bears, which is a manifest that counts. -/
def Task.Reads (policy : Policy) (wait : Task) : Prop :=
  ∀ a path directory, wait = .manifest a (.reading path directory) →
    path = a.path ∧ policy.layout.isOfInterest a.path = true

theorem Task.Starts.reads {policy : Policy} {wait : Task} (starts : wait.Starts) :
    wait.Reads policy := by
  rintro a path directory rfl
  exact starts.elim

/-- The waits that a file goes on with are for its project, for its contents, or none. -/
theorem reads_of_file {progress : Progress} {a : Arrival}
    (next : (∃ root, progress = .waiting (.project a root)) ∨
      progress = if ctx.policy.layout.isOfInterest a.path then
          .waiting (.manifest a (.reading a.path (a.path.parent.getD a.path)))
        else .finished (.ok true)) :
    ∀ wait ∈ progress.frontier, wait.Reads ctx.policy := by
  rcases next with ⟨root, rfl⟩ | rfl
  · intro wait member b path directory reads
    obtain rfl := List.mem_singleton.1 member
    cases reads
  · split
    next interest =>
      intro wait member b path directory reads
      obtain rfl := List.mem_singleton.1 member
      cases reads
      exact ⟨rfl, interest⟩
    · simp [Progress.frontier]

/-- The waits that a directory goes on with are for its subscription or its entries, or none. -/
theorem reads_addDirectory (live : s.store.isStale ctx.generation = false) (dir : Path)
    (status : Status) :
    ∀ wait ∈ (ctx.addDirectory dir status s).2.frontier, wait.Reads ctx.policy := by
  intro wait member a path directory reads
  rcases addDirectory_outcome live dir status with ⟨_, _, next⟩ | ⟨_, _, next | next⟩
  · rw [next] at member
    cases member
  all_goals
    rw [next] at member
    obtain rfl := List.mem_singleton.1 member
    cases reads

theorem reads_examined (live : s.store.isStale ctx.generation = false) (p : Path)
    (answer : Except DiskError Status) :
    ∀ wait ∈ (ctx.examined p answer s).2.frontier, wait.Reads ctx.policy := by
  have ended : ∀ result, ∀ wait ∈ (Progress.finished result).frontier, wait.Reads ctx.policy := by
    simp [Progress.frontier]
  cases answer with
  | error cause =>
    rcases examined_error live p cause with ⟨_, _, changed, next⟩ | ⟨_, _, next⟩
    · exact next ▸ ended _
    · exact next ▸ ended _
  | ok status =>
    obtain ⟨s', still, _, examined⟩ := examined_ok live p status
    rw [examined]
    split
    · exact reads_addDirectory still p status
    · rcases addFile_outcome still p status with ⟨_, _, next⟩ | ⟨_, _, a, rfl, next⟩
      · exact next ▸ ended _
      · exact reads_of_file next
    · exact ended _

/-- What a single wait is followed by reads what it bears, if it reads anything. -/
theorem Task.Moves.reads {wait : Task} {r : Scope × Progress}
    (moved : Task.Moves ctx world s wait r) (single : wait.Single)
    (live : s.store.isStale ctx.generation = false) :
    ∀ next ∈ r.2.frontier, next.Reads ctx.policy := by
  cases moved with
  | begin p =>
    rw [addEntry_outcome live]
    intro next member
    obtain rfl := List.mem_singleton.1 member
    exact Task.Starts.reads trivial
  | entry p => exact reads_examined live p _
  | subscribe dir known =>
    intro next member b path directory reads
    obtain rfl := List.mem_singleton.1 member
    cases reads
  | list dir known =>
    unfold Context.listed
    split
    · split <;> simp [Progress.frontier]
    · split
      · simp [Progress.frontier]
      · exact fun next member => (frontier_nextInOrder dir _ _ _ next member).reads
  | project a root =>
    exact reads_of_file (Or.inr (projectDeclared_outcome live a root (world.projectRemarks root)).2)
  | manifest a d =>
    have further : ∀ D : Declaration, (∀ path directory, D ≠ .reading path directory) →
        ∀ next ∈ (Progress.waiting (.manifest a D)).frontier, next.Reads ctx.policy := by
      intro D other next member b path directory reads
      obtain rfl := List.mem_singleton.1 member
      cases reads
      exact absurd rfl (other path directory)
    have closed : ∀ result, ∀ next ∈ (Progress.finished result).frontier, next.Reads ctx.policy := by
      simp [Progress.frontier]
    cases d with
    | reading path directory =>
      have outcome := reading_outcome live world a path directory
      dsimp only at outcome
      split at outcome
      · rw [outcome.2]
        split
        · exact closed _
        · exact closed _
      · split at outcome
        · exact outcome.2 ▸ closed _
        · rcases outcome.2 with next | next
          · exact next ▸ further _ (by simp)
          · exact next ▸ further _ (by simp)
    | declaring D => exact (installed_outcome live world a D).1.2 ▸ further _ (by simp)
    | publishing D => exact (installed_outcome live world a D).2.2 ▸ closed _
  | inOrder | inOrderFailed | inOrderDone | together | togetherDone | togetherLast | togetherNone =>
    exact absurd single id

/-- A file that was not there is announced or borne, or it could not be read and the crawl fails. -/
def Accounts (policy : Policy) (admits : World → Prop) (old : Store) (p : Path)
    (r : Scope × Progress) : Prop :=
  Greets old p r ∨ (policy.Unreadable admits p ∧ ∃ e, r.2.Failed e)

/-- A crawl accounts for all files that are new since the store was `old`. -/
structure Welcomes (policy : Policy) (admits : World → Prop) (old : Store)
    (r : Scope × Progress) : Prop where
  reads : ∀ wait ∈ r.2.frontier, wait.Reads policy
  files : ∀ p ∈ r.1.store.index.files, p ∈ old.index.files ∨ Accounts policy admits old p r

/-- A single wait that bears a new file accounts for it: of those that do, only the wait for the
contents can fail. -/
theorem Task.Moves.accounts {admits : World → Prop} {wait : Task} {r : Scope × Progress}
    (moved : Task.Moves ctx world s wait r) (admitted : admits world) (single : wait.Single)
    (live : s.store.isStale ctx.generation = false) (reads : wait.Reads ctx.policy) {a : Arrival}
    (borne : wait.Bears a) (new : a.previous = none) :
    Accounts ctx.policy admits s.store a.path r := by
  by_cases fine : ∀ e, ¬ r.2.Failed e
  · exact Or.inl (moved.greets_borne live single fine borne new)
  · simp only [not_forall, not_not] at fine
    obtain ⟨e, failed⟩ := fine
    obtain ⟨_, refused⟩ := moved.refused single failed
    cases refused with
    | entry | list => cases borne
    | reading answer other =>
      obtain rfl := Task.bears_manifest.1 borne
      obtain ⟨rfl, interest⟩ := reads _ _ _ rfl
      exact Or.inr ⟨⟨interest, world, _, admitted, answer, other⟩, _, failed⟩

/-- Every move accounts for the new files, those from before included. -/
theorem Task.Moves.welcomes {admits : World → Prop} {old : Store} {task : Task}
    {r : Scope × Progress} (moved : Task.Moves ctx world s task r) (admitted : admits world)
    (live : s.store.isStale ctx.generation = false) (filed : s.store.index.Filed)
    (since : Edits ctx old s.store) (welcomes : Welcomes ctx.policy admits old (s, .waiting task)) :
    Welcomes ctx.policy admits old r := by
  have edits := moved.edits
  cases moved.ends with
  | @wait wait r' others started single ended before after starts _ fails quiet =>
    have kept : ∀ a, r'.2.Bears a ∨ (∃ other ∈ others, other.Bears a) → r.2.Bears a := by
      intro a borne
      rw [Progress.bears_iff_frontier] at borne ⊢
      simp only [after.mem_iff, List.mem_append, or_and_right, exists_or]
      exact borne.imp_right Or.inr
    have now : ∀ {p}, Accounts ctx.policy admits s.store p r' →
        Accounts ctx.policy admits old p r := by
      rintro p ((⟨sent, notices, member⟩ | ⟨a, borne, path, new⟩) | ⟨unreadable, e, failed⟩)
      · exact Or.inl (Or.inl (announced_since since ⟨sent, quiet.notices.trans notices, member⟩))
      · exact Or.inl (Or.inr ⟨a, kept a (Or.inl borne), path, new⟩)
      · exact Or.inr ⟨unreadable, fails e failed⟩
    refine ⟨fun next member => ?_, fun p known => ?_⟩
    · rw [after.mem_iff, List.mem_append, List.mem_append] at member
      rcases member with following | fresh | other
      · exact ended.reads single live next following
      · exact (starts next fresh).reads
      · exact welcomes.reads next (before.mem_iff.2 (List.mem_cons_of_mem _ other))
    · rw [quiet.index] at known
      by_cases there : p ∈ s.store.index.files
      · rcases welcomes.files p there with there | (announced | ⟨a, borne, rfl, new⟩) |
          ⟨unreadable, e, failed⟩
        · exact Or.inl there
        · exact Or.inr (Or.inl (Or.inl (announced_later announced edits)))
        · rw [Progress.bears_iff_frontier] at borne
          obtain ⟨leaf, member, borne⟩ := borne
          rcases List.mem_cons.1 (before.mem_iff.1 member) with rfl | other
          · have reads := welcomes.reads leaf member
            exact Or.inr (now (ended.accounts admitted single live reads borne new))
          · exact Or.inr (Or.inl (Or.inr ⟨a, kept a (Or.inr ⟨leaf, other, borne⟩), rfl, new⟩))
        · exact Or.inr (Or.inr ⟨unreadable, moved.fails failed⟩)
      · exact Or.inr (now (Or.inl (ended.greets_new single live filed there known)))
  | idle started after starts _ quiet =>
    refine ⟨fun next member => ?_, fun p known => ?_⟩
    · rcases List.mem_append.1 (after.mem_iff.1 member) with fresh | stays
      · exact (starts next fresh).reads
      · exact welcomes.reads next stays
    · rw [quiet.index] at known
      rcases welcomes.files p known with there | (announced | ⟨a, borne, path, new⟩) |
        ⟨unreadable, e, failed⟩
      · exact Or.inl there
      · exact Or.inr (Or.inl (Or.inl (announced_later announced edits)))
      · refine Or.inr (Or.inl (Or.inr ⟨a, ?_, path, new⟩))
        rw [Progress.bears_iff_frontier] at borne ⊢
        obtain ⟨leaf, member, borne⟩ := borne
        exact ⟨leaf, after.mem_iff.2 (List.mem_append_right _ member), borne⟩
      · exact Or.inr (Or.inr ⟨unreadable, moved.fails failed⟩)

/-- Where a crawl has ended, every file that is new was announced, or could not be read and the crawl
has failed. -/
theorem Served.announced {admits : World → Prop} {old : Store} {r : Scope × Progress} {s : Scope}
    {result : Except IndexError Bool} (served : Served ctx admits r s result)
    (live : r.1.store.isStale ctx.generation = false) (filed : r.1.store.index.Filed)
    (since : Edits ctx old r.1.store) (welcomes : Welcomes ctx.policy admits old r) {p : Path}
    (known : p ∈ s.store.index.files) (unknown : p ∉ old.index.files) :
    Announced old s.store p ∨ (ctx.policy.Unreadable admits p ∧ ∃ e, result = .error e) := by
  induction served with
  | finished s result =>
    rcases welcomes.files p known with there | (announced | ⟨a, borne, _⟩) | unread
    · exact absurd there unknown
    · exact Or.inl announced
    · exact absurd borne Progress.bears_finished
    · exact Or.inr unread
  | step admitted moved rest ih =>
    exact ih ((moved.edits.isStale _).trans live) (moved.edits.filed filed)
      (since.trans moved.edits) (moved.welcomes admitted live filed since welcomes) known

end

end Crawl

end ProjectIndex
