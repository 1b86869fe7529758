import ProjectIndex.Proofs.Crawl.Deeds
import ProjectIndex.Proofs.Store.Calls

/-!
# What a crawl has to do with the backend

A crawl asks for a subscription when it registers a directory, and it tells the backend when a
directory is deleted; everything else that it does is aside.  A `Deal` says what the end of a single
wait means for the backend, whether the crawl is still wanted or not.

With subscriptions per directory, the subscriptions mirror the known directories up to those that a
task of the crawl is about to subscribe.  The entries that are crawled at once are different ones, so
no task drops what another one is about to subscribe.
-/

namespace ProjectIndex.Crawl

open Store (Aside)

variable {ctx : Context} {s : Scope}

private theorem aside_publish (d : Definition) (s : Scope) :
    Aside s.store (Declaration.publish d s).1.store := by
  have sent : ∀ t : Store, Aside t (t.emit (.broadcast d.summary)) :=
    Store.aside_emit (by simp [Store.Elsewhere])
  unfold Declaration.publish
  dsimp only
  split
  · exact ((Store.aside_projects s.store _).trans
      (Store.aside_emit (by simp [Store.Elsewhere]) _)).trans (sent _)
  · exact (Store.aside_log s.store _).trans (sent _)

private theorem aside_takeNumber {g : Generation} {r : Declaration.Request} {m : Manifest}
    {hash : String} {s t : Store} {d : Option Definition}
    (taken : Declaration.takeNumber g r m hash s = (t, d)) : Aside s t := by
  unfold Declaration.takeNumber Index.setManifest at taken
  cases live : s.isLive g with
  | false =>
    simp only [live, Bool.false_eq_true, if_false, Prod.mk.injEq] at taken
    obtain ⟨rfl, -⟩ := taken
    exact ⟨rfl, rfl, rfl⟩
  | true =>
    simp only [live, if_true, Prod.mk.injEq] at taken
    obtain ⟨rfl, -⟩ := taken
    exact ⟨rfl, rfl, rfl⟩

private theorem aside_install (policy : Policy) (g : Generation) (r : Declaration.Request)
    (bytes : List UInt8) (s : Scope) :
    Aside s.store (Declaration.install policy g r bytes s).1.store := by
  unfold Declaration.install
  split
  · exact .refl _
  · dsimp only
    split
    · exact Store.aside_log _ _
    · split
      next store refused => exact aside_takeNumber refused
      next store d installed =>
        have written : Aside s.store store := aside_takeNumber installed
        split
        · exact written.trans (Store.aside_askProject _ _)
        · refine .trans ?_ (aside_publish d _)
          exact written

theorem aside_declaration (policy : Policy) (world : World) (g : Generation)
    (d : Declaration) (s : Scope) : Aside s.store (d.step policy world g s).1.store := by
  unfold Declaration.step
  split
  · split
    · exact aside_install policy g _ _ s
    · split
      · exact Store.aside_log _ _
      · exact .refl _
  next d =>
    have declared := Store.aside_projectDeclared s.store d.directory
    refine .trans ?_ (aside_publish d _)
    exact declared
  · exact .refl _

private theorem aside_announce (a : Arrival) (s : Scope) :
    Aside s.store (ctx.announce a s).1.store := by
  have ticked : ∀ t : Store, Aside t (t.emit (.tick a.path)) :=
    Store.aside_emit (by simp [Store.Elsewhere])
  have told : ∀ (n : Notice) (t : Store), Aside t (t.emit (.notice n)) :=
    fun n => Store.aside_emit (by simp [Store.Elsewhere])
  have announced := fileAnnounced ctx a s
  generalize ctx.announce a s = r at announced ⊢
  cases announced with
  | withdrawn => exact .refl _
  | new | changed => exact (told _ s.store).trans (ticked _)
  | untold => exact ticked _

theorem aside_resume (a : Arrival) (r : Scope × Declaration.Progress) :
    Aside r.1.store (ctx.resume a r).1.store := by
  unfold Context.resume
  split
  · exact .refl _
  · exact aside_announce a _
  · exact .refl _

theorem aside_declareManifest (a : Arrival) (s : Scope) :
    Aside s.store (ctx.declareManifest a s).1.store := by
  have declared := manifestDeclared ctx a s
  generalize ctx.declareManifest a s = r at declared ⊢
  cases declared with
  | unnamed => exact aside_announce a s
  | skipped => exact (s.store.aside_log _).trans (aside_announce a (s.log _))
  | reading => exact .refl _

private theorem aside_addFile (file : Path) (status : Status) (s : Scope) :
    Aside s.store (ctx.addFile file status s).1.store := by
  have declared : ∀ (a : Arrival) (s : Scope), Aside s.store (ctx.declareFile a s).1.store := by
    intro a s
    unfold Context.declareFile
    split
    · exact Store.aside_askProject _ _
    · exact aside_declareManifest a s
  have added := fileAdded ctx file status s
  generalize ctx.addFile file status s = r at added ⊢
  cases added with
  | unchanged | ignored | withdrawn => exact .refl _
  | registered =>
    refine .trans ?_ (declared _ _)
    exact ⟨rfl, rfl, Index.insertFile_directories _ _ _⟩

private theorem aside_finishDirectory (dir : Path) (s : Scope) :
    Aside s.store (Context.finishDirectory dir s).1.store :=
  (Store.aside_directoryDone s.store dir).trans (Store.aside_emit (by simp [Store.Elsewhere]) _)

theorem aside_nextInOrder (dir : Path) (queue rest : List Path) (s : Scope) :
    Aside s.store (ctx.nextInOrder dir queue rest s).1.store := by
  have goesOn := entriesNext ctx s dir queue rest
  generalize ctx.nextInOrder dir queue rest s = r at goesOn ⊢
  cases goesOn with
  | next | others => exact .refl _
  | done => exact aside_finishDirectory dir s

theorem aside_conclude (dir : Path) (failure : Option IndexError) (s : Scope) :
    Aside s.store (conclude dir failure s).1.store := by
  cases failure with
  | none => exact aside_finishDirectory dir s
  | some e => exact .refl _

/-- The task is about to subscribe this directory. -/
inductive Task.Subscribes : Task → Path → Prop where
  | subscribe (dir : Path) (known : Bool) : Subscribes (.subscribe dir known) dir
  | inOrder {q dir : Path} {current : Task} {queue rest : List Path} (waits : Subscribes current q) :
      Subscribes (.inOrder dir current queue rest) q
  | together {q dir : Path} {task : Task} {running : List Task} {failure : Option IndexError}
      (member : task ∈ running) (waits : Subscribes task q) : Subscribes (.together dir running failure) q

def Progress.Subscribes (next : Progress) (q : Path) : Prop :=
  ∃ task, next = .waiting task ∧ task.Subscribes q

namespace Task

@[simp] theorem subscribes_begin (p q : Path) : ¬ (Task.begin p).Subscribes q := by rintro ⟨⟩

@[simp] theorem subscribes_entry (p q : Path) : ¬ (Task.entry p).Subscribes q := by rintro ⟨⟩

@[simp] theorem subscribes_subscribe {dir q : Path} {known : Bool} :
    (Task.subscribe dir known).Subscribes q ↔ q = dir :=
  ⟨fun waits => by cases waits; rfl, fun same => same ▸ .subscribe q known⟩

@[simp] theorem subscribes_list (dir : Path) (known : Bool) (q : Path) :
    ¬ (Task.list dir known).Subscribes q := by rintro ⟨⟩

@[simp] theorem subscribes_project (a : Arrival) (root q : Path) :
    ¬ (Task.project a root).Subscribes q := by
  rintro ⟨⟩

@[simp] theorem subscribes_manifest (a : Arrival) (d : Declaration) (q : Path) :
    ¬ (Task.manifest a d).Subscribes q := by
  rintro ⟨⟩

@[simp] theorem subscribes_inOrder {dir : Path} {current : Task} {queue rest : List Path} {q : Path} :
    (Task.inOrder dir current queue rest).Subscribes q ↔ current.Subscribes q :=
  ⟨fun waits => by cases waits; assumption, .inOrder⟩

@[simp] theorem subscribes_together {dir : Path} {running : List Task} {failure : Option IndexError}
    {q : Path} : (Task.together dir running failure).Subscribes q ↔ ∃ task ∈ running, task.Subscribes q :=
  ⟨fun waits => by cases waits with | together member waits => exact ⟨_, member, waits⟩,
    fun ⟨_, member, waits⟩ => .together member waits⟩

/-- What the entries that are crawled at once are about to subscribe, one of them apart. -/
theorem subscribes_split {dir q : Path} {before after : List Task} {task : Task}
    {failure : Option IndexError} :
    (Task.together dir (before ++ task :: after) failure).Subscribes q ↔
      (∃ other ∈ before ++ after, other.Subscribes q) ∨ task.Subscribes q := by
  rw [subscribes_together]
  simp only [List.mem_append, List.mem_cons]
  grind

end Task

@[simp] theorem Progress.subscribes_waiting {task : Task} {q : Path} :
    (Progress.waiting task).Subscribes q ↔ task.Subscribes q := by
  simp [Progress.Subscribes]

@[simp] theorem Progress.subscribes_finished (result : Except IndexError Bool) (q : Path) :
    ¬ (Progress.finished result).Subscribes q := by
  simp [Progress.Subscribes]

/-- The entries of a directory are not asked about before they are registered. -/
theorem subscribes_nextInOrder (dir : Path) (queue rest : List Path) (s : Scope) (q : Path) :
    ¬ (ctx.nextInOrder dir queue rest s).2.Subscribes q := by
  have goesOn := entriesNext ctx s dir queue rest
  generalize ctx.nextInOrder dir queue rest s = r at goesOn ⊢
  cases goesOn with
  | next | others => simp
  | done => exact Progress.subscribes_finished _ q

theorem subscribes_conclude (dir : Path) (failure : Option IndexError) (s : Scope) (q : Path) :
    ¬ (conclude dir failure s).2.Subscribes q :=
  fun ⟨_, waits, _⟩ => conclude_not_waiting waits

private theorem subscribes_announce (a : Arrival) (s : Scope) (q : Path) :
    ¬ (ctx.announce a s).2.Subscribes q := by
  obtain ⟨changed, ends⟩ := @announce_ends ctx a s
  rw [ends]
  exact Progress.subscribes_finished _ q

private theorem subscribes_resume (a : Arrival) (r : Scope × Declaration.Progress) (q : Path) :
    ¬ (ctx.resume a r).2.Subscribes q := by
  unfold Context.resume
  split
  · simp
  · exact subscribes_announce a _ q
  · exact Progress.subscribes_finished _ q

private theorem subscribes_declareManifest (a : Arrival) (s : Scope) (q : Path) :
    ¬ (ctx.declareManifest a s).2.Subscribes q := by
  have declared := manifestDeclared ctx a s
  generalize ctx.declareManifest a s = r at declared ⊢
  cases declared with
  | unnamed => exact subscribes_announce a s q
  | skipped => exact subscribes_announce a _ q
  | reading => simp

private theorem subscribes_addFile (file : Path) (status : Status) (s : Scope) (q : Path) :
    ¬ (ctx.addFile file status s).2.Subscribes q := by
  have declared : ∀ (a : Arrival) (s : Scope), ¬ (ctx.declareFile a s).2.Subscribes q := by
    intro a s
    unfold Context.declareFile
    split
    · simp
    · exact subscribes_declareManifest a s q
  have added := fileAdded ctx file status s
  generalize ctx.addFile file status s = r at added ⊢
  cases added with
  | unchanged | ignored | withdrawn => exact Progress.subscribes_finished _ q
  | registered => exact declared _ _

/-- A path was deleted, and the backend was told if it was a directory. -/
structure Retired (p : Path) (s t : Store) : Prop where
  index : t.index = (s.index.evict p).1
  directory : s.index.isDirectory p = true → t.backend = (s.backend.forgetDirectory p).1 ∧
    t.calls = (.forgetDirectory, p) :: s.calls
  other : s.index.isDirectory p = false → t.backend = s.backend ∧ t.calls = s.calls

inductive Clears : List Path → Store → Store → Prop where
  | nil {s t : Store} (index : t.index = s.index) (aside : s.Aside t) : Clears [] s t
  | cons {p : Path} {gone : List Path} {s t u : Store} (retired : Retired p s t)
      (rest : Clears gone t u) : Clears (p :: gone) s u

theorem Clears.refl (s : Store) : Clears [] s s :=
  .nil rfl (.refl s)

/-- What the end of a single wait means for the backend. -/
inductive Deal (ctx : Context) (world : World) (s : Store) : Task → Store → Progress → Prop where
  /-- Paths are deleted and the backend hears of nothing else. -/
  | passed {task : Task} {gone : List Path} {t u : Store} {next : Progress}
      (clears : Clears gone s t)
      (own : ∀ c ∈ gone, c = task.path ∨ c ∈ s.index.children task.path) (aside : t.Aside u)
      (before : ∀ q, ¬ task.Subscribes q) (after : ∀ q, ¬ next.Subscribes q) : Deal ctx world s task u next
  /-- A directory is registered and a subscription is asked for. -/
  | asked {p : Path} {st : Status} {gone : List Path} {t u : Store} {known : Bool}
      (told : world.entry p = .ok st) (clears : Clears gone s t) (own : ∀ c ∈ gone, c = p)
      (changed : t.index.hasChanged p st = true)
      (index : u.index = (t.index.insertDirectory p st true).1) (backend : u.backend = t.backend)
      (calls : u.calls = (.watchDirectory, p) :: t.calls) :
      Deal ctx world s (.entry p) u (.waiting (.subscribe p known))
  /-- The answer has come. -/
  | answered {dir : Path} {known : Bool} {t : Store} (index : t.index = s.index)
      (backend : t.backend = s.backend.watchDirectory dir (world.watchDirectory dir).isOk)
      (calls : t.calls = s.calls) :
      Deal ctx world s (.subscribe dir known) t (.waiting (.list dir known))

section

variable {world : World}

/-- What is deleted is deleted with everything below it, unless the crawl is not wanted any more. -/
theorem clears_remove (follows : ctx.follows = true) (p : Path) (s : Scope) :
    ∃ gone, Clears gone s.store (ctx.remove p s).1.store ∧ ∀ c ∈ gone, c = p := by
  unfold Context.remove
  split
  · exact ⟨[], .refl _, by simp⟩
  · refine ⟨[p], .cons ?_ (.refl _), by simp⟩
    obtain ⟨backend, calls⟩ := Store.delete_calls s.store p
    have index := delete_index s.store p
    cases known : s.store.index.isDirectory p with
    | false =>
      simp only [Bool.false_and, Bool.false_eq_true, if_false]
      exact ⟨index, fun directory => by simp [known] at directory, fun _ => ⟨backend, calls⟩⟩
    | true =>
      simp only [follows, Bool.and_self, if_true]
      refine ⟨(Store.quiet_forgetDirectory _ p).index.trans index, fun _ => ?_,
        fun other => by simp [known] at other⟩
      obtain ⟨told, recorded⟩ := Store.forgetDirectory_recorded (s.store.delete p) p
      refine ⟨told.trans ?_, recorded.trans ?_⟩
      · exact congrArg (fun b => (Backend.forgetDirectory b p).1) backend
      · exact congrArg _ calls

theorem Clears.after {gone : List Path} {s t u : Store} (index : t.index = s.index)
    (aside : s.Aside t) (clears : Clears gone t u) : Clears gone s u := by
  cases clears with
  | nil same rest => exact .nil (same.trans index) (aside.trans rest)
  | cons retired rest =>
    refine .cons ⟨?_, ?_, ?_⟩ rest
    · rw [retired.index, index]
    · rw [← index, ← aside.backend, ← aside.calls]
      exact retired.directory
    · rw [← index, ← aside.backend, ← aside.calls]
      exact retired.other

theorem Clears.append {first second : List Path} {s t u : Store} (clears : Clears first s t)
    (rest : Clears second t u) : Clears (first ++ second) s u := by
  induction clears with
  | nil index aside => exact rest.after index aside
  | cons retired _ ih => exact .cons retired (ih rest)

theorem clears_reconcile (follows : ctx.follows = true) (dir : Path) (onDisk : List Path) (s : Scope) :
    ∃ gone, Clears gone s.store (ctx.reconcile dir onDisk s).store ∧
      ∀ c ∈ gone, c ∈ s.store.index.children dir := by
  refine reconcile_related
    (R := fun t u => ∃ gone, Clears gone t u ∧ ∀ c ∈ gone, c ∈ s.store.index.children dir)
    (fun t => ⟨[], .refl t, by simp⟩) ?_ ?_ ?_ onDisk
  · rintro t u v ⟨first, removed, early⟩ ⟨later, clears, late⟩
    refine ⟨first ++ later, removed.append clears, ?_⟩
    intro c member
    exact (List.mem_append.1 member).elim (early c) (late c)
  · exact fun t line => ⟨[], .nil rfl (t.aside_log line), by simp⟩
  · intro child known s'
    obtain ⟨gone, removed, own⟩ := clears_remove follows child s'
    exact ⟨gone, removed, fun c member => own c member ▸ known⟩

/-- A directory is passed over, or it is registered and a subscription is asked for. -/
theorem addDirectory_deal (follows : ctx.follows = true) (dir : Path) (status : Status) (s : Scope) :
    let r := ctx.addDirectory dir status s
    (r.1.store.index = s.store.index ∧ s.store.Aside r.1.store ∧ r.2 = .finished (.ok false)) ∨
      (s.store.isStale ctx.generation = false ∧ s.store.index.hasChanged dir status = true ∧
        r.1.store.index = (s.store.index.insertDirectory dir status true).1 ∧
        r.1.store.backend = s.store.backend ∧
        r.1.store.calls = (.watchDirectory, dir) :: s.store.calls ∧
        ∃ known, r.2 = .waiting (.subscribe dir known)) := by
  dsimp only
  have added := directoryAdded ctx dir status s
  generalize ctx.addDirectory dir status s = r at added ⊢
  cases added with
  | unchanged | withdrawn => exact Or.inl ⟨rfl, .refl _, rfl⟩
  | ignored => exact Or.inl ⟨rfl, Store.aside_log _ _, rfl⟩
  | subscribing changed _ live => exact Or.inr ⟨live, changed, rfl, rfl, rfl, _, rfl⟩
  | listing _ _ _ alone =>
    rw [follows] at alone
    cases alone

/-- An entry that changed its kind is deleted first, and then the entry is taken in. -/
private theorem clears_examined (follows : ctx.follows = true) (p : Path) (st : Status) (s : Scope) :
    ∃ (s' : Scope) (gone : List Path), Clears gone s.store s'.store ∧ (∀ c ∈ gone, c = p) ∧
      ctx.examined p (.ok st) s =
        match st.kind with
        | .directory => ctx.addDirectory p st s'
        | .file => ctx.addFile p st s'
        | .unknown => (s', .finished (.ok false)) := by
  obtain ⟨s', origin, examined⟩ := @examined_told ctx p st s
  rcases origin with ⟨rfl, _⟩ | ⟨rfl, _⟩
  · exact ⟨s', [], .refl _, by simp, examined⟩
  · obtain ⟨gone, removed, own⟩ := clears_remove follows p s
    exact ⟨_, gone, removed, own, examined⟩

theorem deal_entry (follows : ctx.follows = true) (p : Path) :
    Deal ctx world s.store (.entry p) (ctx.examined p (world.entry p) s).1.store
      (ctx.examined p (world.entry p) s).2 := by
  have passed : ∀ {gone : List Path} {t u : Store} {next : Progress}, Clears gone s.store t →
      (∀ c ∈ gone, c = p) → t.Aside u → (∀ q, ¬ next.Subscribes q) →
      Deal ctx world s.store (.entry p) u next :=
    fun clears own aside after => .passed clears (fun c member => Or.inl (own c member)) aside
      (Task.subscribes_entry p) after
  have free : ∀ (b : Bool) (q : Path), ¬ (Progress.finished (.ok b)).Subscribes q :=
    fun b => Progress.subscribes_finished _
  cases told : world.entry p with
  | error cause =>
    obtain ⟨gone, removed, own⟩ := clears_remove follows p s
    unfold Context.examined
    dsimp only
    split
    · split
      · exact passed removed own (.refl _) (free _)
      · exact passed (.refl _) (by simp) (.refl _) (free _)
    · exact passed (.refl _) (by simp) (.refl _) (Progress.subscribes_finished _)
  | ok st =>
    obtain ⟨s', gone, clears, own, examined⟩ := clears_examined follows p st s
    rw [examined]
    cases st.kind with
    | directory =>
      rcases addDirectory_deal follows p st s' with
        ⟨_, aside, ends⟩ | ⟨_, changed, index, backend, calls, known, waits⟩
      · dsimp only
        rw [ends]
        exact passed clears own aside (free false)
      · dsimp only
        rw [waits]
        exact .asked told clears own changed index backend calls
    | file => exact passed clears own (aside_addFile p st s') (subscribes_addFile p st s')
    | unknown => exact passed clears own (.refl _) (free false)

theorem deal_list (follows : ctx.follows = true) (dir : Path) (known : Bool) :
    Deal ctx world s.store (.list dir known) (ctx.listed dir known (world.children dir) s).1.store
      (ctx.listed dir known (world.children dir) s).2 := by
  have passed : ∀ {gone : List Path} {t u : Store} {next : Progress}, Clears gone s.store t →
      (∀ c ∈ gone, c = dir ∨ c ∈ s.store.index.children dir) → t.Aside u →
      (∀ q, ¬ next.Subscribes q) → Deal ctx world s.store (.list dir known) u next :=
    fun clears own aside after => .passed clears own aside (Task.subscribes_list dir known) after
  cases world.children dir with
  | error cause =>
    obtain ⟨gone, removed, own⟩ := clears_remove follows dir s
    unfold Context.listed
    dsimp only
    split
    · exact passed removed (fun c member => Or.inl (own c member)) (.refl _)
        (Progress.subscribes_finished _)
    · exact passed (.refl _) (by simp) (.refl _) (Progress.subscribes_finished _)
  | ok children =>
    obtain ⟨gone, reconciled, own⟩ := clears_reconcile follows dir children s
    unfold Context.listed
    dsimp only
    split
    · exact passed (.refl _) (by simp) (.refl _) (Progress.subscribes_finished _)
    · split
      · exact passed reconciled (fun c member => Or.inr (own c member)) (aside_nextInOrder _ _ _ _)
          (subscribes_nextInOrder _ _ _ _)
      · exact passed (.refl _) (by simp) (aside_nextInOrder _ _ _ _) (subscribes_nextInOrder _ _ _ _)

/-- The end of a single wait is a deal. -/
theorem Task.Moves.deal {task : Task} {r : Scope × Progress} (moved : Task.Moves ctx world s task r)
    (follows : ctx.follows = true) (single : task.Single) :
    Deal ctx world s.store task r.1.store r.2 := by
  cases moved with
  | begin p =>
    unfold Context.addEntry
    split
    · exact .passed (.refl _) (by simp) (.refl _) (by simp) (by simp)
    · exact .passed (.refl _) (by simp) (.refl _) (by simp) (by simp)
  | entry p => exact deal_entry follows p
  | subscribe dir known =>
    unfold Context.subscribed
    split
    next taken => exact .answered rfl (by rw [taken]; rfl) rfl
    next e refused => exact .answered rfl (by rw [refused]; rfl) rfl
  | list dir known => exact deal_list follows dir known
  | project a root =>
    have declared := Store.aside_projectDeclared s.store root
    refine .passed (.refl _) (by simp) (.trans ?_ (aside_declareManifest a _)) (by simp)
      (subscribes_declareManifest a _)
    exact declared
  | manifest a d =>
    exact .passed (.refl _) (by simp)
      ((aside_declaration ctx.policy world ctx.generation d s).trans (aside_resume a _)) (by simp)
      (subscribes_resume a _)
  | inOrder | inOrderFailed | inOrderDone | together | togetherDone | togetherLast | togetherNone =>
    exact absurd single id

theorem Clears.told {gone : List Path} {s t : Store} (clears : Clears gone s t) :
    s.Told t fun _ => False := by
  induction clears with
  | nil index aside => exact .of_calls aside.calls
  | @cons p gone s t u retired rest ih =>
    cases directory : s.index.isDirectory p with
    | true =>
      have forgotten : s.Told t fun _ => False :=
        .of_call (retired.directory directory).2 (by simp)
      exact (forgotten.trans ih).congr fun _ => by simp
    | false => exact ih.after (retired.other directory).2

/-- A crawl neither closes a root nor releases one. -/
theorem Deal.told {task : Task} {s t : Store} {next : Progress}
    (deal : Deal ctx world s task t next) : s.Told t fun _ => False := by
  cases deal with
  | passed clears own aside before after => exact clears.told.before aside.calls
  | @asked p _ _ t _ _ _ clears _ _ _ _ calls =>
    have asked : Store.Told t _ fun _ => False := .of_call calls (by simp)
    exact (clears.told.trans asked).congr fun _ => by simp
  | answered index backend calls => exact .of_calls calls

theorem Task.Moves.told {task : Task} {r : Scope × Progress} (moved : Task.Moves ctx world s task r)
    (follows : ctx.follows = true) : s.store.Told r.1.store fun _ => False := by
  have single : ∀ {task : Task} {r : Scope × Progress}, Task.Moves ctx world s task r →
      task.Single → s.store.Told r.1.store fun _ => False :=
    fun moved single => (moved.deal follows single).told
  induction moved with
  | begin p => exact single (.begin p) trivial
  | entry p => exact single (.entry p) trivial
  | subscribe dir known => exact single (.subscribe dir known) trivial
  | list dir known => exact single (.list dir known) trivial
  | project a root => exact single (.project a root) trivial
  | manifest a d => exact single (.manifest a d) trivial
  | inOrder _ _ _ _ ih | inOrderFailed _ _ _ _ ih | together _ _ _ _ _ ih
  | togetherDone _ _ _ _ _ _ ih => exact ih
  | inOrderDone dir queue rest _ ih => exact ih.before (aside_nextInOrder dir queue rest _).calls
  | togetherLast dir failure _ ih => exact ih.before (aside_conclude dir _ _).calls
  | togetherNone dir failure => exact .of_calls (aside_conclude dir failure s).calls

theorem told_addDirectory (follows : ctx.follows = true) (dir : Path) (status : Status) (s : Scope) :
    s.store.Told (ctx.addDirectory dir status s).1.store fun _ => False := by
  rcases addDirectory_deal follows dir status s with ⟨_, aside, _⟩ | ⟨_, _, _, _, calls, _⟩
  · exact .of_calls aside.calls
  · exact .of_call calls (by simp)

end

end ProjectIndex.Crawl
