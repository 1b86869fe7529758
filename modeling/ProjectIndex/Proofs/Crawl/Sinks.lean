import ProjectIndex.Proofs.Crawl.Moves

/-!
# What a crawl adds to the remarks

Every step of a request gets the remarks that were made before and hands them on with its own.  It
never looks at them and never drops one: what a step does, and what it adds, is the same whatever
was remarked before.
-/

namespace ProjectIndex

namespace Scope

def behind (s : Scope) (ds : List Diagnostic) : Scope :=
  { s with remarks := ds ++ s.remarks }

@[simp] theorem behind_store (s : Scope) (ds : List Diagnostic) : (s.behind ds).store = s.store :=
  rfl

@[simp] theorem update_behind (s : Scope) (ds : List Diagnostic) (f : Store → Store) :
    (s.behind ds).update f = (s.update f).behind ds :=
  rfl

@[simp] theorem log_behind (s : Scope) (ds : List Diagnostic) (line : Log.Line) :
    (s.behind ds).log line = (s.log line).behind ds :=
  rfl

@[simp] theorem remark_behind (s : Scope) (ds : List Diagnostic) (d : Diagnostic) :
    (s.behind ds).remark d = (s.remark d).behind ds := by
  simp [behind, remark]

@[simp] theorem remarkAll_behind (s : Scope) (ds ds' : List Diagnostic) :
    (s.behind ds).remarkAll ds' = (s.remarkAll ds').behind ds := by
  simp [behind, remarkAll]

/-- Replacing the store leaves the remarks of before where they are. -/
theorem mk_behind (s : Scope) (ds : List Diagnostic) (store : Store) :
    ({ s.behind ds with store } : Scope) = ({ s with store } : Scope).behind ds :=
  rfl

end Scope

/-- The step only adds to the remarks, and nothing that it does depends on them. -/
def Appends {α : Type} (f : Scope → Scope × α) : Prop :=
  ∀ s ds, f (s.behind ds) = ((f s).1.behind ds, (f s).2)

namespace Declaration

theorem appends_publish (d : Definition) : Appends (publish d) := by
  intro s ds
  unfold publish
  rw [Scope.behind_store]
  cases s.store.projects.find? d.path with
  | none => rfl
  | some project => rfl

theorem appends_install (policy : Policy) (g : Generation) (r : Request) (bytes : List UInt8) :
    Appends (install policy g r bytes) := by
  intro s ds
  unfold install
  cases Json.parse bytes with
  | error fault => simp
  | ok value =>
    simp only [Scope.remarkAll_behind, Scope.behind_store]
    generalize Manifest.normalise _ value = outcome
    cases outcome.manifest with
    | none => simp
    | some m =>
      dsimp only
      generalize takeNumber g r m (Sha256.hex bytes) _ = taken
      obtain ⟨store, _ | d⟩ := taken
      · rfl
      · dsimp only
        split
        · rfl
        · rw [Scope.mk_behind]
          exact appends_publish d _ ds

theorem appends_begin (policy : Policy) (g : Generation) (r : Request) :
    Appends (begin policy g r) := by
  intro s ds
  unfold begin
  split
  · rfl
  · cases r.contents with
    | none => rfl
    | some bytes => exact appends_install policy g r bytes s ds

theorem appends_step (policy : Policy) (world : World) (g : Generation) (d : Declaration) :
    Appends (d.step policy world g) := by
  intro s ds
  cases d with
  | reading path directory =>
    unfold step
    dsimp only
    cases world.contents path with
    | ok bytes => exact appends_install policy g ⟨path, directory, none⟩ bytes s ds
    | error cause =>
      dsimp only
      split <;> rfl
  | declaring d =>
    unfold step
    dsimp only
    rw [Scope.remarkAll_behind, Scope.update_behind]
    exact appends_publish d _ ds
  | publishing d => rfl

end Declaration

namespace Crawl

variable {ctx : Context}

namespace Context

theorem isStale_behind (s : Scope) (ds : List Diagnostic) :
    ctx.isStale (s.behind ds) = ctx.isStale s :=
  rfl

theorem appends_remove (p : Path) : Appends (ctx.remove p) := by
  intro s ds
  unfold remove
  rw [isStale_behind, Scope.behind_store]
  split
  · rfl
  · dsimp only
    split <;> rfl

theorem reconcile_behind (dir : Path) (onDisk : List Path) (s : Scope) (ds : List Diagnostic) :
    ctx.reconcile dir onDisk (s.behind ds) = (ctx.reconcile dir onDisk s).behind ds := by
  unfold reconcile
  rw [Scope.behind_store]
  generalize (s.store.index.children dir).filter _ = gone
  induction gone generalizing s with
  | nil => rfl
  | cons child rest ih =>
    rw [List.foldl_cons, List.foldl_cons, Scope.log_behind, appends_remove child _ ds]
    exact ih _

theorem appends_finishDirectory (dir : Path) : Appends (finishDirectory dir) :=
  fun _ _ => rfl

theorem appends_fanOut (dir : Path) (rest : List Path) : Appends (fanOut dir rest) := by
  intro s ds
  unfold fanOut
  split
  · exact appends_finishDirectory dir s ds
  · rfl

theorem appends_nextInOrder (dir : Path) (queue rest : List Path) :
    Appends (ctx.nextInOrder dir queue rest) := by
  intro s ds
  induction queue with
  | nil => exact appends_fanOut dir rest s ds
  | cons p queue ih =>
    unfold nextInOrder
    rw [isStale_behind]
    split
    · exact ih
    · rfl

theorem appends_ask (dir : Path) (known : Bool) :
    Appends fun s => addDirectory.ask ctx dir s known := by
  intro s ds
  dsimp only [addDirectory.ask]
  split <;> rfl

theorem appends_addDirectory (dir : Path) (status : Status) :
    Appends (ctx.addDirectory dir status) := by
  intro s ds
  unfold addDirectory
  simp only [isStale_behind, Scope.behind_store]
  by_cases changed : s.store.index.hasChanged dir status = true
  · by_cases ignored : ctx.policy.ignores dir .directory = true
    · simp [changed, ignored]
    · simp only [changed, ignored, Bool.not_true, Bool.false_eq_true, if_false]
      generalize s.store.index.insertDirectory dir status _ = written
      obtain ⟨index, _ | _ | old⟩ := written
      · rfl
      · exact @appends_ask ctx dir false (s.update fun store => { store with index }) ds
      · exact @appends_ask ctx dir true (s.update fun store => { store with index }) ds
  · simp [changed]

theorem subscribed_behind (dir : Path) (answer : Except SubscriptionError Unit) (s : Scope)
    (ds : List Diagnostic) :
    subscribed dir answer (s.behind ds) = (subscribed dir answer s).behind ds := by
  cases answer with
  | ok => rfl
  | error e => simp [subscribed]

theorem appends_listed (dir : Path) (known : Bool) (answer : Except DiskError (List Path)) :
    Appends (ctx.listed dir known answer) := by
  intro s ds
  cases answer with
  | error cause =>
    dsimp only [listed]
    split
    · rw [appends_remove dir s ds]
    · rfl
  | ok children =>
    dsimp only [listed]
    rw [isStale_behind, reconcile_behind]
    split
    · rfl
    · cases known with
      | true => exact appends_nextInOrder dir _ _ _ ds
      | false => exact appends_nextInOrder dir _ _ s ds

theorem appends_announce (a : Arrival) : Appends (ctx.announce a) := by
  intro s ds
  unfold announce
  rw [isStale_behind]
  split
  · rfl
  · cases a.previous with
    | none => rfl
    | some old =>
      dsimp only
      split <;> rfl

/-- Where a declaration stands with the remarks of before, the file stands with them too. -/
theorem resume_behind (a : Arrival) (r : Scope × Declaration.Progress) (ds : List Diagnostic) :
    ctx.resume a (r.1.behind ds, r.2) =
      ((ctx.resume a r).1.behind ds, (ctx.resume a r).2) := by
  obtain ⟨s, d | result⟩ := r
  · rfl
  · cases result with
    | error e => rfl
    | ok installed => exact appends_announce a s ds

theorem appends_declareManifest (a : Arrival) : Appends (ctx.declareManifest a) := by
  intro s ds
  unfold declareManifest
  split
  · rw [Declaration.appends_begin ctx.policy ctx.generation _ s ds]
    exact resume_behind a _ ds
  · exact appends_announce a s ds

theorem appends_declareFile (a : Arrival) : Appends (ctx.declareFile a) := by
  intro s ds
  unfold declareFile
  cases ctx.policy.projectRoot? a.path with
  | some root => rfl
  | none => exact appends_declareManifest a s ds

theorem appends_addFile (file : Path) (status : Status) : Appends (ctx.addFile file status) := by
  intro s ds
  unfold addFile
  simp only [isStale_behind, Scope.behind_store]
  by_cases changed : s.store.index.hasChanged file status = true
  · by_cases ignored : ctx.policy.ignores file .file = true
    · simp [changed, ignored]
    · simp only [changed, ignored, Bool.not_true, Bool.false_eq_true, if_false]
      generalize s.store.index.insertFile file status _ = written
      obtain ⟨index, _ | _ | old⟩ := written
      · rfl
      · exact appends_declareFile _ (s.update fun store => { store with index }) ds
      · exact appends_declareFile _ (s.update fun store => { store with index }) ds
  · simp [changed]

theorem appends_addEntry (p : Path) : Appends (ctx.addEntry p) := by
  intro s ds
  unfold addEntry
  rw [isStale_behind]
  split <;> rfl

theorem appends_examined (p : Path) (answer : Except DiskError Status) :
    Appends (ctx.examined p answer) := by
  intro s ds
  cases answer with
  | error cause =>
    dsimp only [examined]
    rw [Scope.behind_store, appends_remove p s ds]
    split
    · split <;> rfl
    · rfl
  | ok status =>
    dsimp only [examined]
    rw [Scope.behind_store]
    cases s.store.index.status? p with
    | none =>
      cases status.kind with
      | directory => exact appends_addDirectory p status s ds
      | file => exact appends_addFile p status s ds
      | unknown => rfl
    | some old =>
      dsimp only
      rw [appends_remove p s ds, ← apply_ite fun t : Scope => t.behind ds]
      cases status.kind with
      | directory => exact appends_addDirectory p status _ ds
      | file => exact appends_addFile p status _ ds
      | unknown => rfl

end Context

namespace Task

mutual

/-- A step of a crawl only adds to the remarks. -/
theorem appends_step (ctx : Context) (world : World) (schedule : List Nat) (task : Task) :
    Appends (step ctx world schedule task) := by
  intro s ds
  match task with
  | .begin p => rw [step, step]; exact Context.appends_addEntry p s ds
  | .entry p => rw [step, step]; exact Context.appends_examined p _ s ds
  | .subscribe dir known => rw [step, step, Context.subscribed_behind]
  | .list dir known => rw [step, step]; exact Context.appends_listed dir known _ s ds
  | .project a root =>
    rw [step, step, Scope.remarkAll_behind, Scope.update_behind]
    exact Context.appends_declareManifest a _ ds
  | .manifest a d =>
    rw [step, step, Declaration.appends_step ctx.policy world ctx.generation d s ds]
    exact Context.resume_behind a _ ds
  | .inOrder dir current queue rest =>
    have moved := appends_step ctx world schedule current s ds
    rw [step, step, moved]
    obtain ⟨s', current' | e | changed⟩ := step ctx world schedule current s
    · rfl
    · rfl
    · exact Context.appends_nextInOrder dir queue rest s' ds
  | .together dir running failure =>
    have moved := appends_stepOne ctx world schedule.tail (schedule.headD 0) running s ds
    rw [step, step, moved]
    obtain ⟨s', left, failed⟩ := stepOne ctx world schedule.tail (schedule.headD 0) running s
    cases left with
    | cons task others => rfl
    | nil =>
      cases failed with
      | some e => rfl
      | none => cases failure <;> rfl

/-- So does the step of one of the entries that are crawled at once. -/
theorem appends_stepOne (ctx : Context) (world : World) (schedule : List Nat) (i : Nat)
    (running : List Task) : Appends (stepOne ctx world schedule i running) := by
  intro s ds
  match running with
  | [] => rw [stepOne, stepOne]
  | task :: others =>
    rw [stepOne, stepOne]
    split
    · rw [appends_step ctx world schedule task s ds]
      obtain ⟨s', task' | e | changed⟩ := step ctx world schedule task s <;> rfl
    · rw [appends_stepOne ctx world schedule (i - 1) others s ds]

end

end Task

end Crawl

end ProjectIndex
