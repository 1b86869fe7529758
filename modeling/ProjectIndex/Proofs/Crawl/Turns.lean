import ProjectIndex.Proofs.Crawl.Bearing

/-!
# What a move does to files and notices

A move that does not fail does one of three things.  It takes files out and says so of each of them;
or it takes files out, registers a file, and announces it at once or bears it from then on; or it
announces a file that was borne.  Nothing is said here of what other requests do between two moves,
so the file that is announced need not be known any more.

Seen from a single path a turn has five outcomes, and all that is said about interleaved requests is
said by these.
-/

namespace ProjectIndex

/-- The notice says that there is a file. -/
def Notice.isArrival : Notice → Bool
  | .new _ => true
  | .changed _ _ _ => true
  | .deleted _ => false

/-- The newest of the notices about a path. -/
def Notice.latest (notices : List Notice) (p : Path) : Option Notice :=
  notices.find? fun n => n.path = p

namespace Notice

theorem latest_append (sent before : List Notice) (p : Path) :
    latest (sent ++ before) p = (latest sent p).or (latest before p) :=
  List.find?_append

theorem latest_eq_none {notices : List Notice} {p : Path} :
    latest notices p = none ↔ ∀ n ∈ notices, n.path ≠ p := by
  simp [latest]

theorem latest_append_of_silent {sent : List Notice} {p : Path} (silent : ∀ n ∈ sent, n.path ≠ p)
    (before : List Notice) : latest (sent ++ before) p = latest before p := by
  rw [latest_append, latest_eq_none.2 silent, Option.none_or]

/-- Of paths that were all deleted the newest notice says that it was deleted. -/
theorem latest_deleted {gone : List Path} {p : Path} (member : p ∈ gone) :
    latest (gone.map Notice.deleted) p = some (.deleted p) := by
  induction gone with
  | nil => cases member
  | cons q rest ih =>
    by_cases same : q = p
    · simp [latest, same, Notice.path]
    · have later := ih ((List.mem_cons.1 member).resolve_left (Ne.symm same))
      simpa [latest, same, Notice.path] using later

end Notice

namespace Crawl

open Store (Calm)

def Progress.Bears : Progress → Arrival → Prop
  | .waiting task, a => task.Bears a
  | .finished _, _ => False

@[simp] theorem Progress.bears_waiting {task : Task} {a : Arrival} :
    (Progress.waiting task).Bears a ↔ task.Bears a := Iff.rfl

@[simp] theorem Progress.bears_finished {result : Except IndexError Bool} {a : Arrival} :
    ¬ (Progress.finished result).Bears a := id

structure Vanished (s t : Store) (gone : List Path) : Prop where
  files : ∀ p, p ∈ t.index.files ↔ p ∈ s.index.files ∧ p ∉ gone
  notices : t.notices = gone.reverse.map .deleted ++ s.notices

/-- What is sent when the file is announced.  A file that is no news may be passed over. -/
def Arrival.Sends (a : Arrival) (sent : List Notice) : Prop :=
  (∃ n, sent = [n] ∧ n.path = a.path ∧ n.isArrival = true) ∨ (sent = [] ∧ a.previous ≠ none)

/-- The files and notices before and after a move, and what is borne. -/
inductive Turn (s t : Store) (bears bears' : Arrival → Prop) : Prop where
  | vanished {gone : List Path} (vanished : Vanished s t gone) (kept : ∀ b, bears b → bears' b)
  | registered {gone : List Path} {mid : Store} {sent : List Notice} (a : Arrival)
      (vanished : Vanished s mid gone) (previous : a.previous = mid.index.files[a.path]?)
      (files : ∀ p, p ∈ t.index.files ↔ p = a.path ∨ p ∈ mid.index.files)
      (notices : t.notices = sent ++ mid.notices) (told : (sent = [] ∧ bears' a) ∨ a.Sends sent)
      (kept : ∀ b, bears b → bears' b)
  | announced {sent : List Notice} (a : Arrival) (bore : bears a)
      (files : ∀ p, p ∈ t.index.files ↔ p ∈ s.index.files) (notices : t.notices = sent ++ s.notices)
      (told : a.Sends sent) (kept : ∀ b, bears b → bears' b ∨ b = a)

namespace Vanished

variable {s t u : Store} {gone more : List Path}

theorem of_calm (calm : Calm s t) : Vanished s t [] :=
  ⟨fun p => by simp [calm.files], by simp [calm.notices]⟩

theorem trans (first : Vanished s t gone) (second : Vanished t u more) :
    Vanished s u (gone ++ more) where
  files p := by
    rw [second.files, first.files, List.mem_append, not_or, and_assoc]
  notices := by
    rw [second.notices, first.notices, List.reverse_append, List.map_append, List.append_assoc]

theorem calm (vanished : Vanished s t gone) (calm : Calm t u) : Vanished s u gone :=
  ⟨fun p => by rw [calm.files, vanished.files], calm.notices.trans vanished.notices⟩

end Vanished

namespace Turn

variable {s t u : Store} {bears bears' : Arrival → Prop}

theorem of_calm (calm : Calm s t) (kept : ∀ b, bears b → bears' b) : Turn s t bears bears' :=
  .vanished (.of_calm calm) kept

/-- Calm changes at the end of a turn belong to it. -/
theorem calm (turn : Turn s t bears bears') (calm : Calm t u) : Turn s u bears bears' := by
  cases turn with
  | vanished vanished kept => exact .vanished (vanished.calm calm) kept
  | registered a vanished previous files notices told kept =>
    exact .registered a vanished previous (fun p => by rw [calm.files, files])
      (calm.notices.trans notices) told kept
  | announced a bore files notices told kept =>
    exact .announced a bore (fun p => by rw [calm.files, files]) (calm.notices.trans notices) told
      kept

/-- What others bear is borne on. -/
theorem beside {wider wider' : Arrival → Prop} (turn : Turn s t bears bears')
    (others : Arrival → Prop) (split : ∀ a, wider a ↔ bears a ∨ others a)
    (next : ∀ a, bears' a ∨ others a → wider' a) : Turn s t wider wider' := by
  have on : (∀ b, bears b → bears' b) → ∀ b, wider b → wider' b := fun kept b borne =>
    next b (((split b).1 borne).imp_left (kept b))
  cases turn with
  | vanished vanished kept => exact .vanished vanished (on kept)
  | registered a vanished previous files notices told kept =>
    refine .registered a vanished previous files notices (told.imp_left ?_) (on kept)
    exact And.imp_right fun borne => next a (Or.inl borne)
  | announced a bore files notices told kept =>
    refine .announced a ((split a).2 (Or.inl bore)) files notices told fun b borne => ?_
    rcases (split b).1 borne with own | other
    · exact (kept b own).imp_left fun borne => next b (Or.inl borne)
    · exact Or.inl (next b (Or.inr other))

theorem congr {wider wider' : Arrival → Prop} (turn : Turn s t bears bears')
    (same : ∀ a, wider a ↔ bears a) (next : ∀ a, bears' a → wider' a) : Turn s t wider wider' :=
  turn.beside (fun _ => False) (fun a => by simp [same]) fun a borne => next a (by simpa using borne)

end Turn

/-- What a turn means to one path. -/
inductive TurnAt (s t : Store) (bears bears' : Arrival → Prop) (p : Path) (sent : List Notice) :
    Prop where
  /-- Nothing is said of it. -/
  | silent (nothing : ∀ n ∈ sent, n.path ≠ p) (same : p ∈ t.index.files ↔ p ∈ s.index.files)
      (kept : ∀ b, bears b → b.path = p → b.previous = none → bears' b)
  /-- It is a new file that is still to be announced. -/
  | pending (known : p ∈ t.index.files) (borne : ∃ a, bears' a ∧ a.path = p ∧ a.previous = none)
  /-- It is a file, and that is the last that was said. -/
  | arrived {n : Notice} (newest : Notice.latest sent p = some n) (arrival : n.isArrival = true)
      (known : p ∈ t.index.files)
  /-- It is announced as a file that was borne, and it is none any more. -/
  | late {n : Notice} {a : Arrival} (bore : bears a) (path : a.path = p) (only : sent = [n])
      (about : n.path = p) (gone : p ∉ t.index.files)
  /-- It went, and that is the last that was said. -/
  | deleted (newest : Notice.latest sent p = some (.deleted p)) (gone : p ∉ t.index.files)

theorem Turn.told {s t : Store} {bears bears' : Arrival → Prop} (turn : Turn s t bears bears')
    (p : Path) : ∃ sent, t.notices = sent ++ s.notices ∧ TurnAt s t bears bears' p sent := by
  have unnamed : ∀ {gone : List Path}, p ∉ gone →
      ∀ n ∈ gone.reverse.map Notice.deleted, n.path ≠ p := by
    simp only [List.mem_map, List.mem_reverse]
    rintro gone stays n ⟨q, member, rfl⟩ rfl
    exact stays member
  cases turn with
  | @vanished gone vanished kept =>
    refine ⟨_, vanished.notices, ?_⟩
    by_cases went : p ∈ gone
    · exact .deleted (Notice.latest_deleted (List.mem_reverse.2 went))
        fun known => ((vanished.files p).1 known).2 went
    · exact .silent (unnamed went) (by simp [vanished.files, went]) fun b borne _ _ => kept b borne
  | @registered gone mid sent a vanished previous files notices told kept =>
    refine ⟨sent ++ gone.reverse.map .deleted, ?_, ?_⟩
    · rw [notices, vanished.notices, List.append_assoc]
    · by_cases own : p = a.path
      · subst own
        have known : a.path ∈ t.index.files := (files _).2 (Or.inl rfl)
        rcases told with ⟨rfl, borne⟩ | ⟨n, rfl, about, arrival⟩ | ⟨rfl, old⟩
        · by_cases before : a.path ∈ mid.index.files
          · have stays := (vanished.files _).1 before
            exact .silent (unnamed stays.2) (by simp [known, stays.1]) fun b borne _ _ => kept b borne
          · have new := previous.trans (Std.ExtTreeMap.getElem?_eq_none before)
            exact .pending known ⟨a, borne, rfl, new⟩
        · exact .arrived (n := n) (by simp [Notice.latest, about]) arrival known
        · have before : a.path ∈ mid.index.files :=
            Std.ExtTreeMap.mem_iff_isSome_getElem?.2
              (by rw [← previous]; exact Option.isSome_iff_ne_none.2 old)
          have stays := (vanished.files _).1 before
          exact .silent (unnamed stays.2) (by simp [known, stays.1]) fun b borne _ _ => kept b borne
      · have silent : ∀ n ∈ sent, n.path ≠ p := by
          rcases told with ⟨rfl, _⟩ | ⟨n, rfl, about, _⟩ | ⟨rfl, _⟩
          · simp
          · simpa [about] using Ne.symm own
          · simp
        by_cases went : p ∈ gone
        · refine .deleted ?_ fun known => ?_
          · rw [Notice.latest_append_of_silent silent]
            exact Notice.latest_deleted (List.mem_reverse.2 went)
          · exact ((vanished.files p).1 (((files p).1 known).resolve_left own)).2 went
        · refine .silent (fun n member => ?_) (by simp [files, vanished.files, own, went])
            fun b borne _ _ => kept b borne
          rcases List.mem_append.1 member with told | vanished
          · exact silent n told
          · exact unnamed went n vanished
  | @announced sent a bore files notices told kept =>
    refine ⟨sent, notices, ?_⟩
    by_cases own : a.path = p
    · rcases told with ⟨n, rfl, about, arrival⟩ | ⟨rfl, old⟩
      · by_cases known : p ∈ t.index.files
        · exact .arrived (n := n) (by simp [Notice.latest, about, own]) arrival known
        · exact .late bore own rfl (about.trans own) known
      · refine .silent (by simp) (files p) fun b borne _ new => (kept b borne).resolve_right ?_
        rintro rfl
        exact old new
    · refine .silent ?_ (files p) fun b borne path _ => (kept b borne).resolve_right ?_
      · rcases told with ⟨n, rfl, about, _⟩ | ⟨rfl, _⟩
        · simpa [about] using own
        · simp
      · rintro rfl
        exact own path

/-- Every listing still has entries of its own directory only. -/
theorem Edits.filed {ctx : Context} {s t : Store} (edits : Edits ctx s t) (filed : s.index.Filed) :
    t.index.Filed := by
  induction edits with
  | refl => exact filed
  | tail _ edit ih =>
    cases edit with
    | quiet same => rwa [same.index]
    | delete p live =>
      rw [delete_index]
      exact (ih.evict p).filed
    | directory p status => exact ih.insertDirectory p status
    | file p status => exact ih.insertFile p status
    | notice | manifest => exact ih

/-- What the crawl of a registered file does next: it waits and bears the file, or announces it. -/
inductive Reports (s : Store) (a : Arrival) (r : Scope × Progress) : Prop where
  | waits (calm : Calm s r.1.store) (borne : r.2.Bears a)
  | tells {sent : List Notice} (told : a.Sends sent)
      (files : r.1.store.index.files = s.index.files)
      (notices : r.1.store.notices = sent ++ s.notices)

namespace Reports

variable {s t : Store} {a : Arrival} {r : Scope × Progress}

theorem after (reports : Reports t a r) (calm : Calm s t) : Reports s a r := by
  cases reports with
  | waits later borne => exact .waits (calm.trans later) borne
  | tells told files notices =>
    exact .tells told (files.trans calm.files) (by rw [notices, calm.notices])

/-- The turn of a task that bears the file. -/
theorem turn (reports : Reports s a r) : Turn s r.1.store (fun b => b = a) r.2.Bears := by
  cases reports with
  | waits calm borne =>
    refine .of_calm calm fun b same => ?_
    subst same
    exact borne
  | tells told files notices =>
    exact .announced a rfl (fun p => by rw [files]) notices told fun b same => Or.inr same

end Reports

section

variable {ctx : Context} {s : Scope}

theorem reports_announce (live : s.store.isStale ctx.generation = false) (a : Arrival) :
    Reports s.store a (ctx.announce a s) := by
  have ticked : ∀ t : Store, t.Quiet (t.emit (.tick a.path)) :=
    Store.quiet_emit (by simp [Store.Silent])
  have announced := fileAnnounced ctx a s
  generalize ctx.announce a s = r at announced ⊢
  cases announced with
  | withdrawn stale =>
    rw [live] at stale
    cases stale
  | new => exact .tells (Or.inl ⟨.new a.path, rfl, rfl, rfl⟩) rfl (ticked _).notices
  | @changed _ old =>
    exact .tells (Or.inl ⟨.changed a.path old a.status, rfl, rfl, rfl⟩) rfl (ticked _).notices
  | untold _ previous => exact .tells (Or.inr ⟨rfl, by simp [previous]⟩) rfl (ticked _).notices

theorem reports_resume {a : Arrival} {r : Scope × Declaration.Progress}
    (live : r.1.store.isStale ctx.generation = false)
    (fine : ∀ e, ¬ (ctx.resume a r).2.Failed e) : Reports r.1.store a (ctx.resume a r) := by
  obtain ⟨s, _ | _ | _⟩ := r
  · exact .waits (.refl _) (.manifest a _)
  · exact absurd rfl (fine _)
  · exact reports_announce live a

theorem reports_declareManifest (live : s.store.isStale ctx.generation = false) (a : Arrival) :
    Reports s.store a (ctx.declareManifest a s) := by
  have declared := manifestDeclared ctx a s
  generalize ctx.declareManifest a s = r at declared ⊢
  cases declared with
  | unnamed => exact reports_announce live a
  | skipped =>
    have logged := s.store.quiet_log (Declaration.line "skipped" a.path.display)
    exact (@reports_announce ctx (s.log _) live a).after (.of_quiet logged)
  | reading => exact .waits (.refl _) (.manifest a _)

theorem reports_declareFile (live : s.store.isStale ctx.generation = false) (a : Arrival) :
    Reports s.store a (ctx.declareFile a s) := by
  unfold Context.declareFile
  split
  next root _ =>
    exact .waits (.of_quiet (Store.quiet_askProject s.store root)) (.project a root)
  · exact reports_declareManifest live a

/-- A file that is taken in, after others went. -/
theorem turn_addFile (live : s.store.isStale ctx.generation = false) {before : Store}
    {gone : List Path} (vanished : Vanished before s.store gone) (file : Path) (status : Status) :
    Turn before (ctx.addFile file status s).1.store (fun _ => False)
      (ctx.addFile file status s).2.Bears := by
  have files : ∀ p, p ∈ (s.store.index.insertFile file status true).1.files ↔
      p = file ∨ p ∈ s.store.index.files := by
    intro p
    simp [Index.insertFile_files, @eq_comm _ p file]
  have declared :
      let r := ctx.declareFile ⟨file, status, s.store.index.files[file]?⟩ (s.update fun store =>
        { store with index := (s.store.index.insertFile file status true).1 })
      Turn before r.1.store (fun _ => False) r.2.Bears := by
    intro r
    have reports := @reports_declareFile ctx (s.update fun store =>
      { store with index := (s.store.index.insertFile file status true).1 }) live
        ⟨file, status, s.store.index.files[file]?⟩
    cases reports with
    | waits calm borne =>
      refine .registered _ vanished rfl (fun p => ?_)
        (calm.notices.trans (List.nil_append _).symm) (Or.inl ⟨rfl, borne⟩) fun _ => False.elim
      rw [calm.files]
      exact files p
    | tells told same notices =>
      refine .registered _ vanished rfl (fun p => ?_) notices (Or.inr told) fun _ => False.elim
      rw [same]
      exact files p
  have added := fileAdded ctx file status s
  generalize ctx.addFile file status s = r at added ⊢
  cases added with
  | unchanged | ignored | withdrawn => exact .vanished vanished fun _ => False.elim
  | registered => exact declared

theorem calm_addDirectory (dir : Path) (status : Status) (s : Scope) :
    Calm s.store (ctx.addDirectory dir status s).1.store := by
  have written := Calm.directory s.store dir status
  have added := directoryAdded ctx dir status s
  generalize ctx.addDirectory dir status s = r at added ⊢
  cases added with
  | unchanged | withdrawn => exact .refl _
  | ignored => exact .of_quiet (Store.quiet_log s.store _)
  | subscribing => exact written.trans (.of_quiet (Store.quiet_askDirectory _ dir))
  | listing => exact written

theorem vanished_remove (filed : s.store.index.Filed) (p : Path) :
    ∃ gone, Vanished s.store (ctx.remove p s).1.store gone := by
  have departed := filed.evict p
  have deleted : Vanished s.store (s.store.delete p) (s.store.index.evict p).2 := by
    refine ⟨fun q => by rw [delete_index, departed.files], ?_⟩
    rw [← List.reverse_inj, Journalled.notices_delete]
    simp
  exact remove_related (R := fun s t => ∃ gone, Vanished s t gone) (fun s => ⟨[], .of_calm (.refl s)⟩)
    (fun ⟨_, first⟩ ⟨_, second⟩ => ⟨_, first.trans second⟩) (fun _ => ⟨_, deleted⟩)
    fun t => ⟨[], .of_calm (.of_quiet (t.quiet_forgetDirectory p))⟩

theorem vanished_reconcile (filed : s.store.index.Filed) (dir : Path) (onDisk : List Path) :
    ∃ gone, Vanished s.store (ctx.reconcile dir onDisk s).store gone := by
  refine (reconcile_related (R := fun s t => s.index.Filed → t.index.Filed ∧ ∃ gone, Vanished s t gone)
    (fun s filed => ⟨filed, [], .of_calm (.refl s)⟩) ?_ ?_ ?_ onDisk filed).2
  · intro s t u first second filed
    obtain ⟨filed, gone, before⟩ := first filed
    obtain ⟨filed, more, after⟩ := second filed
    exact ⟨filed, _, before.trans after⟩
  · intro t line filed
    have logged : Calm t (t.log line) := .of_quiet (t.quiet_log line)
    exact ⟨logged.filed filed, [], .of_calm logged⟩
  · exact fun child _ s filed => ⟨(edits_remove child s).filed filed, vanished_remove filed child⟩

theorem turn_examined (live : s.store.isStale ctx.generation = false)
    (filed : s.store.index.Filed) (p : Path) (answer : Except DiskError Status)
    (fine : ∀ e, ¬ (ctx.examined p answer s).2.Failed e) :
    Turn s.store (ctx.examined p answer s).1.store (fun _ => False)
      (ctx.examined p answer s).2.Bears := by
  obtain ⟨gone, removed⟩ := @vanished_remove ctx s filed p
  have same : Vanished s.store s.store [] := .of_calm (.refl _)
  cases answer with
  | error cause =>
    unfold Context.examined at fine ⊢
    dsimp only at fine ⊢
    split
    · split
      · exact .vanished removed fun _ => False.elim
      · exact .vanished same fun _ => False.elim
    next failed =>
      rw [if_neg failed] at fine
      exact absurd rfl (fine _)
  | ok st =>
    obtain ⟨s', origin, examined⟩ := @examined_told ctx p st s
    have cleared : ∃ gone, Vanished s.store s'.store gone ∧
        s'.store.isStale ctx.generation = false := by
      rcases origin with ⟨rfl, _⟩ | ⟨rfl, _⟩
      · exact ⟨[], same, live⟩
      · exact ⟨gone, removed, ((edits_remove p s).isStale _).trans live⟩
    obtain ⟨gone, vanished, still⟩ := cleared
    rw [examined]
    split
    · exact .vanished (vanished.calm (calm_addDirectory p st s')) fun _ => False.elim
    · exact turn_addFile still vanished p st
    · exact .vanished vanished fun _ => False.elim

theorem turn_listed (live : s.store.isStale ctx.generation = false) (filed : s.store.index.Filed)
    (dir : Path) (known : Bool) (answer : Except DiskError (List Path))
    (fine : ∀ e, ¬ (ctx.listed dir known answer s).2.Failed e) :
    Turn s.store (ctx.listed dir known answer s).1.store (fun _ => False)
      (ctx.listed dir known answer s).2.Bears := by
  unfold Context.listed at fine ⊢
  cases answer with
  | error cause =>
    dsimp only at fine ⊢
    split
    · obtain ⟨gone, removed⟩ := @vanished_remove ctx s filed dir
      exact .vanished removed fun _ => False.elim
    next failed =>
      rw [if_neg failed] at fine
      exact absurd rfl (fine _)
  | ok children =>
    simp only [Context.isStale, live, Bool.false_eq_true, if_false]
    split
    · obtain ⟨gone, vanished⟩ := @vanished_reconcile ctx s filed dir children
      exact .vanished (vanished.calm (.of_quiet (quiet_nextInOrder dir _ _ _))) fun _ => False.elim
    · exact .of_calm (.of_quiet (quiet_nextInOrder dir _ _ _)) fun _ => False.elim

end

/-- Every move that has not failed is a turn: that of the leaf whose wait is over. -/
theorem Task.Moves.turn {ctx : Context} {world : World} {s : Scope} {task : Task}
    {r : Scope × Progress} (moved : Task.Moves ctx world s task r)
    (live : s.store.isStale ctx.generation = false) (filed : s.store.index.Filed)
    (fine : ∀ e, ¬ r.2.Failed e) : Turn s.store r.1.store task.Bears r.2.Bears := by
  induction moved with
  | begin p =>
    rw [addEntry_outcome live]
    exact .of_calm (.refl _) fun _ borne => by simp at borne
  | entry p =>
    exact (turn_examined live filed p _ fine).congr (by simp) (by simp)
  | subscribe dir known =>
    exact .of_calm (.of_quiet (quiet_subscribed dir _ s)) fun _ borne => by simp at borne
  | list dir known =>
    exact (turn_listed live filed dir known _ fine).congr (by simp) (by simp)
  | project a root =>
    have declared := Store.quiet_projectDeclared s.store root
    have reports := @reports_declareManifest ctx
      ((s.remarkAll (world.projectRemarks root)).update (·.projectDeclared root))
      ((declared.isStale _).trans live) a
    exact (reports.after (.of_quiet declared)).turn.congr (by simp) (by simp)
  | manifest a d =>
    have stepped := @edits_declaration ctx world d s
    have reports := (reports_resume ((stepped.isStale _).trans live) fine).after
      (Declaration.calm_step _ world _ d s)
    exact reports.turn.congr (by simp) (by simp)
  | inOrder dir queue rest moved ih =>
    exact (ih fun e failed => fine e (.inOrder failed)).congr (by simp) (by simp)
  | inOrderFailed dir queue rest moved ih => exact absurd rfl (fine _)
  | inOrderDone dir queue rest moved ih =>
    have ended := (ih (by simp [Progress.Failed])).calm
      (.of_quiet (@quiet_nextInOrder ctx dir queue rest _))
    exact ended.congr (by simp) (by simp)
  | together dir before after failure moved ih =>
    have turn := ih fun e failed => fine e (.among (by simp) failed)
    refine turn.beside (besides (fun _ => False) (before ++ after)) ?_ ?_
    · intro a
      rw [or_comm, bears_split, false_or]
    · exact fun a borne => ((bears_split a).1 borne.symm).resolve_left id
  | @togetherDone s' task result dir before after failure moved left ih =>
    have ended : ∀ e, result ≠ .error e := by
      rintro e rfl
      cases failure with
      | none => exact fine e (.together dir _)
      | some first => exact fine first (.together dir _)
    refine (ih ended).beside (besides (fun _ => False) (before ++ after)) ?_ ?_
    · intro a
      rw [or_comm, bears_split, false_or]
    · simp [besides]
  | @togetherLast s' task result dir failure moved ih =>
    cases failure with
    | some e => exact absurd (failed_conclude.2 rfl) (fine e)
    | none =>
      cases result with
      | error e => exact absurd (failed_conclude.2 rfl) (fine e)
      | ok changed =>
        have ended := (ih (by simp [Progress.Failed])).calm
          (.of_quiet (quiet_finishDirectory dir s'))
        exact ended.congr (by simp) (by simp)
  | togetherNone dir failure =>
    cases failure with
    | some e => exact absurd rfl (fine e)
    | none =>
      exact .of_calm (.of_quiet (quiet_finishDirectory dir s)) fun _ borne => by simp at borne

end Crawl

end ProjectIndex
