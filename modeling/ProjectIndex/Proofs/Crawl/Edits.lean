import ProjectIndex.Proofs.Crawl.Steps
import ProjectIndex.Proofs.Crawl.Moves
import ProjectIndex.Proofs.Store.Quiet
import Mathlib.Logic.Relation

/-!
# What a move of a crawl can do to the store

One move makes a few edits, one after the other: it deletes a path with what lies below it, writes
a directory or a file, sends a notice, or installs a manifest, and the rest of what it does is
quiet.  Each edit that is not quiet is made in a generation that was live at that moment.  So a
crawl whose generation is cancelled makes quiet changes only, and an invariant of the index holds
along every crawl as soon as each kind of edit keeps it.
-/

namespace ProjectIndex.Crawl

open Relation (ReflTransGen)

/-- The store after a manifest took the next number. -/
def withManifest (d : Definition) (s : Store) : Store :=
  { s with index := (s.index.setManifest d true).1, nextManifest := s.nextManifest + 1 }

/-- One edit of the store on behalf of a crawl. -/
inductive Edit (ctx : Context) : Store → Store → Prop where
  | quiet {s t : Store} (same : s.Quiet t) : Edit ctx s t
  | delete (s : Store) (p : Path) (live : s.isStale ctx.generation = false) :
      Edit ctx s (s.delete p)
  | directory (s : Store) (p : Path) (status : Status) (live : s.isStale ctx.generation = false)
      (changed : s.index.hasChanged p status = true)
      (taken : ctx.policy.ignores p .directory = false) :
      Edit ctx s { s with index := (s.index.insertDirectory p status true).1 }
  | file (s : Store) (p : Path) (status : Status) (live : s.isStale ctx.generation = false)
      (changed : s.index.hasChanged p status = true)
      (taken : ctx.policy.ignores p .file = false) :
      Edit ctx s { s with index := (s.index.insertFile p status true).1 }
  | notice (s : Store) (n : Notice) (live : s.isStale ctx.generation = false) :
      Edit ctx s (s.emit (.notice n))
  | manifest (s : Store) (d : Definition) (live : s.isStale ctx.generation = false) :
      Edit ctx s (withManifest d s)

abbrev Edits (ctx : Context) : Store → Store → Prop :=
  ReflTransGen (Edit ctx)

variable {ctx : Context}

theorem Edits.quiet {s t : Store} (same : s.Quiet t) : Edits ctx s t :=
  .single (.quiet same)

theorem delete_cancelled (s : Store) (p : Path) :
    (s.delete p).cancelled = s.cancelled ∧ (s.delete p).nextGeneration = s.nextGeneration := by
  rw [Store.delete_eq]
  exact ⟨(s.quiet_evict p).cancelled, (s.quiet_evict p).nextGeneration⟩

/-- An edit cancels nothing and gives out no generation. -/
theorem Edit.generations {s t : Store} (edit : Edit ctx s t) :
    t.cancelled = s.cancelled ∧ t.nextGeneration = s.nextGeneration := by
  cases edit with
  | quiet same => exact ⟨same.cancelled, same.nextGeneration⟩
  | delete p live => exact delete_cancelled s p
  | directory | file | notice | manifest => exact ⟨rfl, rfl⟩

theorem Edits.generations {s t : Store} (edits : Edits ctx s t) :
    t.cancelled = s.cancelled ∧ t.nextGeneration = s.nextGeneration := by
  induction edits with
  | refl => exact ⟨rfl, rfl⟩
  | tail _ edit ih => exact ⟨edit.generations.1.trans ih.1, edit.generations.2.trans ih.2⟩

theorem Edits.isStale {s t : Store} (edits : Edits ctx s t) (g : Generation) :
    t.isStale g = s.isStale g := by
  simp [Store.isStale, edits.generations.1]

/-- Edits on behalf of a cancelled generation are quiet. -/
theorem Edits.quiet_of_stale {s t : Store} (edits : Edits ctx s t)
    (stale : s.isStale ctx.generation = true) : s.Quiet t := by
  induction edits with
  | refl => exact .refl s
  | tail before edit ih =>
    have still := (Edits.isStale before ctx.generation).trans stale
    cases edit with
    | quiet same => exact ih.trans same
    | delete _ live | directory _ _ live | file _ _ live | notice _ live | manifest _ live =>
      rw [still] at live
      cases live

section Removal

variable {R : Store → Store → Prop}

/-- A removal relates two stores as a deletion does, if a call to the backend afterwards makes no
difference. -/
theorem remove_related (refl : ∀ s, R s s) (trans : ∀ {s t u}, R s t → R t u → R s u) {p : Path}
    {s : Scope} (deleted : s.store.isStale ctx.generation = false → R s.store (s.store.delete p))
    (forgotten : ∀ t : Store, R t (t.forgetDirectory p)) : R s.store (ctx.remove p s).1.store := by
  unfold Context.remove
  split
  · exact refl s.store
  next live =>
    have gone := deleted (by simpa [Context.isStale] using live)
    dsimp only
    split
    · exact trans gone (forgotten _)
    · exact gone

/-- Entries that are not on disk are dropped by removals, one after the other, with a line in the log for
each. -/
theorem reconcile_related (refl : ∀ s, R s s) (trans : ∀ {s t u}, R s t → R t u → R s u)
    {dir : Path} {s : Scope} (logged : ∀ (t : Store) (line : Log.Line), R t (t.log line))
    (removed : ∀ child ∈ s.store.index.children dir, ∀ s' : Scope,
      R s'.store (ctx.remove child s').1.store) (onDisk : List Path) :
    R s.store (ctx.reconcile dir onDisk s).store := by
  have each : ∀ gone : List Path, (∀ child ∈ gone, child ∈ s.store.index.children dir) →
      ∀ s' : Scope, R s'.store
        (gone.foldl (fun s child => (ctx.remove child (s.log (line "vanished" child))).1) s').store := by
    intro gone
    induction gone with
    | nil => exact fun _ s' => refl s'.store
    | cons child rest ih =>
      intro among s'
      have dropped := trans (logged s'.store (line "vanished" child))
        (removed child (among child (by simp)) (s'.log (line "vanished" child)))
      exact trans dropped (ih (fun other member => among other (by simp [member])) _)
  exact each _ (fun child member => (List.mem_filter.1 member).1) s

end Removal

theorem edits_remove (p : Path) (s : Scope) : Edits ctx s.store (ctx.remove p s).1.store :=
  remove_related (fun _ => .refl) .trans (fun live => .single (.delete s.store p live))
    fun t => .quiet (t.quiet_forgetDirectory p)

theorem edits_reconcile (dir : Path) (onDisk : List Path) (s : Scope) :
    Edits ctx s.store (ctx.reconcile dir onDisk s).store :=
  reconcile_related (fun _ => .refl) .trans (fun t line => .quiet (t.quiet_log line))
    (fun child _ => edits_remove child) onDisk

theorem edits_finishDirectory (dir : Path) (s : Scope) :
    Edits ctx s.store (Context.finishDirectory dir s).1.store :=
  .quiet ((Store.quiet_directoryDone s.store dir).trans
    (Store.quiet_emit (by simp [Store.Silent]) _))

theorem edits_nextInOrder (dir : Path) (queue rest : List Path) (s : Scope) :
    Edits ctx s.store (ctx.nextInOrder dir queue rest s).1.store := by
  have goesOn := entriesNext ctx s dir queue rest
  generalize ctx.nextInOrder dir queue rest s = r at goesOn ⊢
  cases goesOn with
  | next | others => exact .refl
  | done => exact edits_finishDirectory dir s

theorem edits_addDirectory (dir : Path) (status : Status) (s : Scope) :
    Edits ctx s.store (ctx.addDirectory dir status s).1.store := by
  have added := directoryAdded ctx dir status s
  generalize ctx.addDirectory dir status s = r at added ⊢
  cases added with
  | unchanged | withdrawn => exact .refl
  | ignored => exact .quiet (s.store.quiet_log _)
  | subscribing changed taken live =>
    have written := Edit.directory s.store dir status live changed taken
    exact .tail (.single written) (.quiet (Store.quiet_askDirectory _ dir))
  | listing changed taken live => exact .single (.directory s.store dir status live changed taken)

theorem edits_announce (a : Arrival) (s : Scope) : Edits ctx s.store (ctx.announce a s).1.store := by
  have ticked : ∀ t : Store, t.Quiet (t.emit (.tick a.path)) :=
    Store.quiet_emit (by simp [Store.Silent])
  have announced := fileAnnounced ctx a s
  generalize ctx.announce a s = r at announced ⊢
  cases announced with
  | withdrawn => exact .refl
  | new live | changed live => exact .tail (.single (.notice s.store _ live)) (.quiet (ticked _))
  | untold => exact .quiet (ticked _)

theorem edits_publish (d : Definition) (s : Scope) :
    Edits ctx s.store (Declaration.publish d s).1.store := by
  unfold Declaration.publish
  dsimp only
  split
  · exact .quiet (((Store.quiet_replace s.store s.store.backend _).trans
      (Store.quiet_emit (by simp [Store.Silent]) _)).trans
      (Store.quiet_emit (by simp [Store.Silent]) _))
  · exact .quiet ((Store.quiet_log s.store _).trans (Store.quiet_emit (by simp [Store.Silent]) _))

theorem edits_takeNumber {r : Declaration.Request} {m : Manifest} {hash : String} {s t : Store}
    {d : Option Definition}
    (taken : Declaration.takeNumber ctx.generation r m hash s = (t, d)) : Edits ctx s t := by
  unfold Declaration.takeNumber Index.setManifest at taken
  cases stale : s.isStale ctx.generation with
  | true =>
    simp only [Store.isLive, stale, Bool.not_true, Bool.false_eq_true, if_false, Prod.mk.injEq]
      at taken
    obtain ⟨rfl, -⟩ := taken
    exact .quiet ⟨rfl, rfl, rfl, rfl⟩
  | false =>
    simp only [Store.isLive, stale, Bool.not_false, if_true, Prod.mk.injEq] at taken
    obtain ⟨rfl, -⟩ := taken
    have installed : Edits ctx s (withManifest ⟨s.nextManifest, r.path, r.directory, m, hash⟩ s) :=
      .single (.manifest s _ stale)
    exact installed.tail (.quiet (Store.quiet_log _ _))

theorem edits_install (r : Declaration.Request) (bytes : List UInt8) (s : Scope) :
    Edits ctx s.store (Declaration.install ctx.policy ctx.generation r bytes s).1.store := by
  unfold Declaration.install
  split
  · exact .refl
  · dsimp only
    split
    · exact .quiet (Store.quiet_log _ _)
    · split
      next store refused => exact edits_takeNumber refused
      next store d installed =>
        have written : Edits ctx s.store store := edits_takeNumber installed
        split
        · exact written.tail (.quiet (Store.quiet_askProject _ _))
        · refine .trans ?_ (edits_publish d _)
          exact written

theorem edits_declaration (world : World) (d : Declaration) (s : Scope) :
    Edits ctx s.store (d.step ctx.policy world ctx.generation s).1.store := by
  unfold Declaration.step
  split
  · split
    · exact edits_install _ _ s
    · split
      · exact .quiet (Store.quiet_log _ _)
      · exact .refl
  next d =>
    have declared : Edits ctx s.store (s.store.projectDeclared d.directory) :=
      .quiet (Store.quiet_projectDeclared _ _)
    refine .trans ?_ (edits_publish d _)
    exact declared
  · exact .refl

theorem edits_resume (a : Arrival) (r : Scope × Declaration.Progress) :
    Edits ctx r.1.store (ctx.resume a r).1.store := by
  unfold Context.resume
  split
  · exact .refl
  · exact edits_announce a _
  · exact .refl

theorem edits_declareManifest (a : Arrival) (s : Scope) :
    Edits ctx s.store (ctx.declareManifest a s).1.store := by
  have declared := manifestDeclared ctx a s
  generalize ctx.declareManifest a s = r at declared ⊢
  cases declared with
  | unnamed => exact edits_announce a s
  | skipped => exact .head (.quiet (s.store.quiet_log _)) (edits_announce a (s.log _))
  | reading => exact .refl

theorem edits_addFile (file : Path) (status : Status) (s : Scope) :
    Edits ctx s.store (ctx.addFile file status s).1.store := by
  have declared : ∀ (a : Arrival) (s : Scope), Edits ctx s.store (ctx.declareFile a s).1.store := by
    intro a s
    unfold Context.declareFile
    split
    · exact .quiet (Store.quiet_askProject _ _)
    · exact edits_declareManifest a s
  have added := fileAdded ctx file status s
  generalize ctx.addFile file status s = r at added ⊢
  cases added with
  | unchanged | ignored | withdrawn => exact .refl
  | registered changed taken live =>
    refine .trans ?_ (declared _ _)
    exact .single (.file s.store file status live changed taken)

/-- An entry that the disk tells of is taken in as what it is.  What was known of it is removed first,
if it was of another kind. -/
theorem examined_told (p : Path) (st : Status) (s : Scope) :
    ∃ s' : Scope, ((s' = s ∧ ∀ old, s.store.index.status? p = some old → old.kind = st.kind) ∨
        (s' = (ctx.remove p s).1 ∧ ∃ old, s.store.index.status? p = some old ∧ old.kind ≠ st.kind)) ∧
      ctx.examined p (.ok st) s =
        match st.kind with
        | .directory => ctx.addDirectory p st s'
        | .file => ctx.addFile p st s'
        | .unknown => (s', .finished (.ok false)) := by
  unfold Context.examined
  dsimp only
  cases s.store.index.status? p with
  | none => exact ⟨s, Or.inl ⟨rfl, by simp⟩, rfl⟩
  | some old =>
    dsimp only
    by_cases same : old.kind = st.kind
    · rw [if_pos same]
      exact ⟨s, Or.inl ⟨rfl, by simpa using same⟩, rfl⟩
    · rw [if_neg same]
      exact ⟨(ctx.remove p s).1, Or.inr ⟨rfl, old, rfl, same⟩, rfl⟩

theorem edits_examined (p : Path) (answer : Except DiskError Status) (s : Scope) :
    Edits ctx s.store (ctx.examined p answer s).1.store := by
  cases answer with
  | error cause =>
    unfold Context.examined
    dsimp only
    split
    · split
      · exact edits_remove p s
      · exact .refl
    · exact .refl
  | ok st =>
    obtain ⟨s', origin, examined⟩ := @examined_told ctx p st s
    have cleared : Edits ctx s.store s'.store := by
      rcases origin with ⟨rfl, _⟩ | ⟨rfl, _⟩
      · exact .refl
      · exact edits_remove p s
    rw [examined]
    split
    · exact cleared.trans (edits_addDirectory p st s')
    · exact cleared.trans (edits_addFile p st s')
    · exact cleared

theorem edits_listed (dir : Path) (known : Bool) (answer : Except DiskError (List Path))
    (s : Scope) : Edits ctx s.store (ctx.listed dir known answer s).1.store := by
  unfold Context.listed
  split
  · split
    · exact edits_remove dir s
    · exact .refl
  next children =>
    split
    · exact .refl
    · dsimp only
      split
      · exact (edits_reconcile dir children s).trans (edits_nextInOrder _ _ _ _)
      · exact edits_nextInOrder _ _ _ _

theorem edits_conclude (dir : Path) (failure : Option IndexError) (s : Scope) :
    Edits ctx s.store (conclude dir failure s).1.store := by
  cases failure with
  | none => exact edits_finishDirectory dir s
  | some e => exact .refl

theorem edits_subscribed (dir : Path) (answer : Except SubscriptionError Unit) (s : Scope) :
    Edits ctx s.store (Context.subscribed dir answer s).store := by
  unfold Context.subscribed
  split
  · exact .quiet (Store.quiet_directoryAnswered _ _ _)
  · exact .quiet ((Store.quiet_directoryAnswered _ _ _).trans (Store.quiet_log _ _))

/-- A move changes the store by edits. -/
theorem Task.Moves.edits {world : World} {s : Scope} {task : Task} {r : Scope × Progress}
    (moved : Task.Moves ctx world s task r) : Edits ctx s.store r.1.store := by
  induction moved with
  | begin p =>
    unfold Context.addEntry
    split <;> exact .refl
  | entry p => exact edits_examined p _ s
  | subscribe dir known => exact edits_subscribed dir _ s
  | list dir known => exact edits_listed dir known _ s
  | project a root =>
    have declared : Edits ctx s.store (s.store.projectDeclared root) :=
      .quiet (Store.quiet_projectDeclared _ _)
    refine .trans ?_ (edits_declareManifest a _)
    exact declared
  | manifest a d => exact (edits_declaration world d s).trans (edits_resume a _)
  | inOrder dir queue rest moved ih => exact ih
  | inOrderFailed dir queue rest moved ih => exact ih
  | inOrderDone dir queue rest moved ih => exact ih.trans (edits_nextInOrder _ _ _ _)
  | together dir before after failure moved ih => exact ih
  | togetherDone dir before after failure moved left ih => exact ih
  | togetherLast dir failure moved ih => exact ih.trans (edits_conclude _ _ _)
  | togetherNone dir failure => exact edits_conclude _ _ _

/-- A crawl that goes on until it ends, in admitted worlds. -/
inductive Served (ctx : Context) (admits : World → Prop) :
    Scope × Progress → Scope → Except IndexError Bool → Prop where
  | finished (s : Scope) (result : Except IndexError Bool) :
      Served ctx admits (s, .finished result) s result
  | step {s s' : Scope} {task : Task} {r : Scope × Progress} {world : World}
      {result : Except IndexError Bool} (admitted : admits world)
      (moved : Task.Moves ctx world s task r) (rest : Served ctx admits r s' result) :
      Served ctx admits (s, .waiting task) s' result

/-- What every move in an admitted world keeps holds at the end of the crawl. -/
theorem Served.keeps {admits : World → Prop} {r : Scope × Progress} {s : Scope}
    {result : Except IndexError Bool} {P : Scope × Progress → Prop}
    (served : Served ctx admits r s result) (start : P r)
    (kept : ∀ s task world r, admits world → Task.Moves ctx world s task r → P (s, .waiting task) →
      P r) : P (s, .finished result) := by
  induction served with
  | finished => exact start
  | step admitted moved _ ih => exact ih (kept _ _ _ _ admitted moved start)

theorem Served.edits {admits : World → Prop} {r : Scope × Progress} {s : Scope}
    {result : Except IndexError Bool} (served : Served ctx admits r s result) :
    Edits ctx r.1.store s.store := by
  induction served with
  | finished => exact .refl
  | step _ moved _ ih => exact moved.edits.trans ih

end ProjectIndex.Crawl
