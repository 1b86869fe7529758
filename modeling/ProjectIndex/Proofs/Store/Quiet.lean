import ProjectIndex.Store.Scope

/-!
# Changes that nobody who asks the index sees

Much of what is done to a store is bookkeeping: lines of the log, calls to the backend, records of
projects.  A change is quiet when it leaves the index, the notices that were sent, the cancelled
generations and the number of the next generation as they were.  Everything that a crawl does is
quiet except the few writes that are named as such.
-/

namespace ProjectIndex.Store

/-- The notices that were sent, the newest first. -/
def notices (s : Store) : List Notice :=
  s.trace.filterMap fun
    | .notice n => some n
    | _ => none

/-- The change from `s` to `t` touches neither the index, nor the notices, nor the generations. -/
structure Quiet (s t : Store) : Prop where
  index : t.index = s.index
  notices : t.notices = s.notices
  cancelled : t.cancelled = s.cancelled
  nextGeneration : t.nextGeneration = s.nextGeneration

namespace Quiet

@[simp] theorem refl (s : Store) : Quiet s s :=
  ⟨rfl, rfl, rfl, rfl⟩

theorem trans {s t u : Store} (first : Quiet s t) (second : Quiet t u) : Quiet s u where
  index := second.index.trans first.index
  notices := second.notices.trans first.notices
  cancelled := second.cancelled.trans first.cancelled
  nextGeneration := second.nextGeneration.trans first.nextGeneration

theorem isStale {s t : Store} (quiet : Quiet s t) (g : Generation) : t.isStale g = s.isStale g := by
  simp [Store.isStale, quiet.cancelled]

end Quiet

def Silent (e : Effect) : Prop :=
  ∀ n, e ≠ .notice n

theorem quiet_emit {e : Effect} (silent : Silent e) (s : Store) : Quiet s (s.emit e) := by
  refine ⟨rfl, ?_, rfl, rfl⟩
  cases e with
  | notice n => exact absurd rfl (silent n)
  | _ => rfl

/-- Effects one after the other relate two stores as each single effect does. -/
theorem emitAll_related {R : Store → Store → Prop} (refl : ∀ s, R s s)
    (trans : ∀ {s t u}, R s t → R t u → R s u) {es : List Effect}
    (each : ∀ e ∈ es, ∀ s : Store, R s (s.emit e)) (s : Store) : R s (s.emitAll es) := by
  induction es generalizing s with
  | nil => exact refl s
  | cons e rest ih =>
    have head := each e (by simp) s
    exact trans head (ih (fun other member => each other (by simp [member])) (s.emit e))

theorem quiet_emitAll {es : List Effect} (silent : ∀ e ∈ es, Silent e) (s : Store) :
    Quiet s (s.emitAll es) :=
  emitAll_related .refl .trans (fun e member => quiet_emit (silent e member)) s

theorem quiet_log (s : Store) (line : Log.Line) : Quiet s (s.log line) :=
  quiet_emit (by simp [Silent]) s

/-- Another backend and another set of projects are nothing that the index shows. -/
theorem quiet_replace (s : Store) (backend : Backend) (projects : Projects) :
    Quiet s { s with backend, projects } :=
  ⟨rfl, rfl, rfl, rfl⟩

theorem quiet_askDirectory (s : Store) (dir : Path) : Quiet s (s.askDirectory dir) :=
  quiet_emit (by simp [Silent]) s

theorem quiet_askRoot (s : Store) (root : Path) : Quiet s (s.askRoot root) :=
  quiet_emit (by simp [Silent]) s

theorem quiet_askProject (s : Store) (root : Path) : Quiet s (s.askProject root) :=
  quiet_emit (by simp [Silent]) s

theorem quiet_directoryAnswered (s : Store) (dir : Path) (taken : Bool) :
    Quiet s (s.directoryAnswered dir taken) :=
  quiet_replace s _ s.projects

/-- A call to the backend changes the backend and is recorded with lines of the log. -/
private theorem quiet_call (s : Store) (backend : Backend) (effects : List Effect)
    (silent : ∀ e ∈ effects, Silent e) : Quiet s ({ s with backend }.emitAll effects) :=
  (quiet_replace s backend s.projects).trans (quiet_emitAll silent _)

theorem quiet_rootTaken (s : Store) (root : Path) : Quiet s (s.rootTaken root) :=
  quiet_call s _ _ (by simp [Silent])

theorem quiet_closeRoot (s : Store) (root : Path) : Quiet s (s.closeRoot root) :=
  quiet_call s _ _ (by simp [Silent])

theorem quiet_releaseRoot (s : Store) (root : Path) : Quiet s (s.releaseRoot root) :=
  quiet_call s _ _ (by simp [Silent])

theorem quiet_forgetDirectory (s : Store) (dir : Path) : Quiet s (s.forgetDirectory dir) :=
  quiet_call s _ _ (by simp [Silent])

theorem quiet_projectDeclared (s : Store) (root : Path) : Quiet s (s.projectDeclared root) := by
  have declared := quiet_replace s s.backend (s.projects.declare root)
  dsimp only [projectDeclared]
  split
  · exact declared
  · exact declared.trans (quiet_log _ _)

theorem quiet_directoryDone (s : Store) (dir : Path) : Quiet s (s.directoryDone dir) := by
  unfold directoryDone
  split
  · exact ((quiet_replace s s.backend _).trans (quiet_emit (by simp [Silent]) _)).trans
      (quiet_log _ _)
  · exact .refl s

/-- Effects are recorded in the trace and nowhere else. -/
theorem emitAll_eq (s : Store) (es : List Effect) :
    s.emitAll es = { s with trace := es.reverse ++ s.trace } := by
  unfold emitAll
  induction es generalizing s with
  | nil => rfl
  | cons e rest ih =>
    rw [List.foldl_cons, ih]
    simp [emit]

/-- Cancelling generations one after the other changes their list and nothing else. -/
theorem foldl_cancel (ended : List Generation) (s : Store) :
    ended.foldl cancel s = { s with cancelled := ended.reverse ++ s.cancelled } := by
  induction ended generalizing s with
  | nil => rfl
  | cons g rest ih =>
    rw [List.foldl_cons, ih]
    simp [cancel]

/-- Eviction changes the index, and leaves at most a line in the log. -/
theorem evict_logged (s : Store) (p : Path) :
    (s.evict p).1 = { s with index := (s.index.evict p).1 } ∨
      ∃ line, (s.evict p).1 = ({ s with index := (s.index.evict p).1 } : Store).log line := by
  dsimp only [evict]
  split
  · exact Or.inl rfl
  · exact Or.inr ⟨_, rfl⟩

theorem quiet_evict (s : Store) (p : Path) :
    Quiet { s with index := (s.index.evict p).1 } (s.evict p).1 := by
  rcases s.evict_logged p with same | ⟨line, logged⟩
  · rw [same]
    exact .refl _
  · rw [logged]
    exact quiet_log _ line

theorem evict_gone (s : Store) (p : Path) : (s.evict p).2 = (s.index.evict p).2 := by
  dsimp only [evict]
  split <;> rfl

/-- A deletion is an eviction with a notice for each file. -/
theorem delete_eq (s : Store) (p : Path) :
    s.delete p = { (s.evict p).1 with
      trace := ((s.index.evict p).2.map fun file => .notice (.deleted file)).reverse ++
        (s.evict p).1.trace } := by
  rw [← s.evict_gone]
  exact emitAll_eq _ _

end ProjectIndex.Store
