import ProjectIndex.Proofs.Crawl.Bearing

/-!
# Projects that are reported complete

When the crawl of a directory has come to its end, and the directory is the root of a project, the
project is reported complete.  Nothing else that a crawl does reports that of any project.
-/

namespace ProjectIndex

def Effect.completes? : Effect → Option Path
  | .project .initialized dir => some dir
  | _ => none

namespace Store

def completed (s : Store) : List Path :=
  s.trace.filterMap Effect.completes?

theorem completed_emit (s : Store) {e : Effect} (other : e.completes? = none) :
    (s.emit e).completed = s.completed := by
  rw [completed, emit, List.filterMap_cons_none other]
  rfl

theorem completed_emitAll (s : Store) {es : List Effect} (others : ∀ e ∈ es, e.completes? = none) :
    (s.emitAll es).completed = s.completed :=
  emitAll_related (R := fun s t => t.completed = s.completed) (fun _ => rfl)
    (fun first second => second.trans first) (fun e member s => s.completed_emit (others e member)) s

@[simp] theorem completed_log (s : Store) (line : Log.Line) : (s.log line).completed = s.completed :=
  s.completed_emit rfl

theorem completed_delete (s : Store) (p : Path) : (s.delete p).completed = s.completed := by
  have evicted : (s.evict p).1.completed = s.completed := by
    rcases s.evict_logged p with same | ⟨line, logged⟩
    · rw [same]
      rfl
    · rw [logged]
      exact completed_log _ line
  refine Eq.trans ?_ evicted
  apply completed_emitAll
  simp [Effect.completes?]

theorem completed_forgetDirectory (s : Store) (dir : Path) :
    (s.forgetDirectory dir).completed = s.completed := by
  unfold forgetDirectory
  apply completed_emitAll
  simp [Effect.completes?]

theorem completed_projectDeclared (s : Store) (root : Path) :
    (s.projectDeclared root).completed = s.completed := by
  unfold projectDeclared
  dsimp only
  split
  · rfl
  · exact completed_log _ _

/-- The end of a directory reports the project of this directory complete, if there is one. -/
theorem completed_directoryDone (s : Store) (dir : Path) :
    (s.directoryDone dir).completed =
      if s.projects.isRoot dir then dir :: s.completed else s.completed := by
  unfold directoryDone
  split
  · rw [completed_log]
    rfl
  · rfl

end Store

namespace Crawl

variable {ctx : Context} {s : Scope}

theorem completed_remove (p : Path) (s : Scope) :
    (ctx.remove p s).1.store.completed = s.store.completed :=
  remove_related (R := fun s t => t.completed = s.completed) (fun _ => rfl)
    (fun first second => second.trans first) (fun _ => s.store.completed_delete p)
    fun t => t.completed_forgetDirectory p

theorem completed_reconcile (dir : Path) (onDisk : List Path) (s : Scope) :
    (ctx.reconcile dir onDisk s).store.completed = s.store.completed :=
  reconcile_related (R := fun s t => t.completed = s.completed) (fun _ => rfl)
    (fun first second => second.trans first) Store.completed_log
    (fun child _ => completed_remove child) onDisk

theorem completed_addDirectory (dir : Path) (status : Status) (s : Scope) :
    (ctx.addDirectory dir status s).1.store.completed = s.store.completed := by
  have added := directoryAdded ctx dir status s
  generalize ctx.addDirectory dir status s = r at added ⊢
  cases added with
  | unchanged | withdrawn | listing => rfl
  | ignored => exact s.store.completed_log _
  | subscribing => exact Store.completed_emit _ rfl

theorem completed_subscribed (dir : Path) (answer : Except SubscriptionError Unit) (s : Scope) :
    (Context.subscribed dir answer s).store.completed = s.store.completed := by
  unfold Context.subscribed
  split
  · rfl
  · exact Store.completed_log _ _

theorem completed_announce (a : Arrival) (s : Scope) :
    (ctx.announce a s).1.store.completed = s.store.completed := by
  have announced := fileAnnounced ctx a s
  generalize ctx.announce a s = r at announced ⊢
  cases announced with
  | withdrawn => rfl
  | new | changed => exact (Store.completed_emit _ rfl).trans (s.store.completed_emit rfl)
  | untold => exact s.store.completed_emit rfl

theorem completed_publish (d : Definition) (s : Scope) :
    (Declaration.publish d s).1.store.completed = s.store.completed := by
  unfold Declaration.publish
  dsimp only
  refine (Store.completed_emit _ rfl).trans ?_
  split
  · exact Store.completed_emit _ rfl
  · exact Store.completed_log _ _

theorem completed_takeNumber {g : Generation} {r : Declaration.Request} {m : Manifest}
    {hash : String} {s t : Store} {d : Option Definition}
    (taken : Declaration.takeNumber g r m hash s = (t, d)) : t.completed = s.completed := by
  unfold Declaration.takeNumber at taken
  dsimp only at taken
  split at taken
  · cases taken
    exact Store.completed_log _ _
  · cases taken
    rfl

theorem completed_install (policy : Policy) (g : Generation) (r : Declaration.Request)
    (bytes : List UInt8) (s : Scope) :
    (Declaration.install policy g r bytes s).1.store.completed = s.store.completed := by
  unfold Declaration.install
  split
  · rfl
  · dsimp only
    split
    · exact Store.completed_log _ _
    · split
      next store refused => exact completed_takeNumber refused
      next store d installed =>
        have numbered := completed_takeNumber installed
        split
        · exact (Store.completed_emit _ rfl).trans numbered
        · exact (completed_publish d _).trans numbered

theorem completed_declaration (policy : Policy) (world : World) (g : Generation) (d : Declaration)
    (s : Scope) : (d.step policy world g s).1.store.completed = s.store.completed := by
  unfold Declaration.step
  split
  · split
    · exact completed_install _ _ _ _ s
    · split
      · exact Store.completed_log _ _
      · rfl
  next d => exact (completed_publish d _).trans (s.store.completed_projectDeclared d.directory)
  · rfl

theorem completed_resume (a : Arrival) (r : Scope × Declaration.Progress) :
    (ctx.resume a r).1.store.completed = r.1.store.completed := by
  unfold Context.resume
  split
  · rfl
  · exact completed_announce a _
  · rfl

theorem completed_declareManifest (a : Arrival) (s : Scope) :
    (ctx.declareManifest a s).1.store.completed = s.store.completed := by
  have declared := manifestDeclared ctx a s
  generalize ctx.declareManifest a s = r at declared ⊢
  cases declared with
  | unnamed => exact completed_announce a s
  | skipped => exact (completed_announce a _).trans (s.store.completed_log _)
  | reading => rfl

theorem completed_addFile (file : Path) (status : Status) (s : Scope) :
    (ctx.addFile file status s).1.store.completed = s.store.completed := by
  have declared : ∀ (a : Arrival) (s : Scope),
      (ctx.declareFile a s).1.store.completed = s.store.completed := by
    intro a s
    unfold Context.declareFile
    split
    · exact s.store.completed_emit rfl
    · exact completed_declareManifest a s
  have added := fileAdded ctx file status s
  generalize ctx.addFile file status s = r at added ⊢
  cases added with
  | unchanged | ignored | withdrawn => rfl
  | registered => exact declared _ _

theorem completed_examined (p : Path) (answer : Except DiskError Status) (s : Scope) :
    (ctx.examined p answer s).1.store.completed = s.store.completed := by
  cases answer with
  | error cause =>
    unfold Context.examined
    dsimp only
    split
    · split
      · exact completed_remove p s
      · rfl
    · rfl
  | ok st =>
    obtain ⟨s', origin, examined⟩ := @examined_told ctx p st s
    have cleared : s'.store.completed = s.store.completed := by
      rcases origin with ⟨same, _⟩ | ⟨removed, _⟩
      · rw [same]
      · rw [removed]
        exact completed_remove p s
    rw [examined]
    split
    · exact (completed_addDirectory p st s').trans cleared
    · exact (completed_addFile p st s').trans cleared
    · exact cleared

/-- What was reported from the first scope to the second: nothing, or the project of the directory,
whose crawl ended well with it. -/
def Reported (dir : Path) (s : Scope) (r : Scope × Progress) : Prop :=
  r.1.store.completed = s.store.completed ∨
    (r.1.store.completed = dir :: s.store.completed ∧ r.2 = .finished (.ok true))

theorem Reported.after {dir : Path} {s s' : Scope} {r : Scope × Progress} (reported : Reported dir s' r)
    (same : s'.store.completed = s.store.completed) : Reported dir s r := by
  unfold Reported at reported ⊢
  rwa [same] at reported

theorem reported_finishDirectory (dir : Path) (s : Scope) :
    Reported dir s (Context.finishDirectory dir s) := by
  have done := s.store.completed_directoryDone dir
  have ticked := (s.store.directoryDone dir).completed_emit (e := .tick dir) rfl
  split at done
  · exact Or.inr ⟨ticked.trans done, rfl⟩
  · exact Or.inl (ticked.trans done)

theorem reported_conclude (dir : Path) (failure : Option IndexError) (s : Scope) :
    Reported dir s (conclude dir failure s) := by
  cases failure with
  | none => exact reported_finishDirectory dir s
  | some e => exact Or.inl rfl

theorem reported_nextInOrder (dir : Path) (queue rest : List Path) (s : Scope) :
    Reported dir s (ctx.nextInOrder dir queue rest s) := by
  have goesOn := entriesNext ctx s dir queue rest
  generalize ctx.nextInOrder dir queue rest s = r at goesOn ⊢
  cases goesOn with
  | next | others => exact Or.inl rfl
  | done => exact reported_finishDirectory dir s

theorem reported_listed (dir : Path) (known : Bool) (answer : Except DiskError (List Path))
    (s : Scope) : Reported dir s (ctx.listed dir known answer s) := by
  unfold Context.listed
  split
  · split
    · exact Or.inl (completed_remove dir s)
    · exact Or.inl rfl
  next children =>
    split
    · exact Or.inl rfl
    · dsimp only
      split
      · exact (reported_nextInOrder dir _ _ _).after (completed_reconcile dir children s)
      · exact reported_nextInOrder dir _ _ s

/-- The end of a single wait reports at most the project of its own directory. -/
theorem Task.Moves.reported {world : World} {task : Task} {r : Scope × Progress}
    (moved : Task.Moves ctx world s task r) (single : task.Single) : Reported task.path s r := by
  cases moved with
  | begin p =>
    unfold Context.addEntry
    split <;> exact Or.inl rfl
  | entry p => exact Or.inl (completed_examined p _ s)
  | subscribe dir known => exact Or.inl (completed_subscribed dir _ s)
  | list dir known => exact reported_listed dir known _ s
  | project a root =>
    exact Or.inl ((completed_declareManifest a _).trans (s.store.completed_projectDeclared root))
  | manifest a d =>
    exact Or.inl ((completed_resume a _).trans (completed_declaration _ world _ d s))
  | inOrder | inOrderFailed | inOrderDone | together | togetherDone | togetherLast | togetherNone =>
    exact absurd single id

end Crawl

end ProjectIndex
