import ProjectIndex.Proofs.Crawl.Outcomes
import ProjectIndex.Proofs.Store.Stages

/-!
# What a crawl does to the stages of projects

Of all that a crawl does without waiting, three things are not uneventful.  It enters a directory that it
registers, it lets a project come into force that a file declared, and it completes the project of a
directory that comes to its end.
-/

namespace ProjectIndex.Crawl

variable {ctx : Context} {s : Scope}

theorem uneventful_remove (p : Path) (s : Scope) : s.store.Uneventful (ctx.remove p s).1.store :=
  remove_related .refl .trans (fun _ => s.store.uneventful_delete p)
    fun t => t.uneventful_forgetDirectory p

theorem uneventful_reconcile (dir : Path) (onDisk : List Path) (s : Scope) :
    s.store.Uneventful (ctx.reconcile dir onDisk s).store :=
  reconcile_related .refl .trans Store.uneventful_log (fun child _ => uneventful_remove child) onDisk

theorem uneventful_subscribed (dir : Path) (answer : Except SubscriptionError Unit) (s : Scope) :
    s.store.Uneventful (Context.subscribed dir answer s).store := by
  unfold Context.subscribed
  split
  · exact s.store.uneventful_directoryAnswered dir true
  · exact (s.store.uneventful_directoryAnswered dir false).trans (Store.uneventful_log _ _)

theorem uneventful_publish (d : Definition) (s : Scope) :
    s.store.Uneventful (Declaration.publish d s).1.store := by
  have sent : ∀ t : Store, t.Uneventful (t.emit (.broadcast d.summary)) :=
    Store.uneventful_emit rfl
  unfold Declaration.publish
  dsimp only
  refine .trans ?_ (sent _)
  split
  next project _ =>
    have owned : s.store.Uneventful
        { s.store with projects := s.store.projects.associate project d.id } :=
      ⟨s.store.projects.stage?_associate project d.id, rfl, (Store.Uneventful.refl s.store).index⟩
    exact owned.trans (Store.uneventful_emit rfl _)
  · exact Store.uneventful_log _ _

theorem uneventful_takeNumber {g : Generation} {r : Declaration.Request} {m : Manifest}
    {hash : String} {s t : Store} {d : Option Definition}
    (taken : Declaration.takeNumber g r m hash s = (t, d)) : s.Uneventful t := by
  have written : s.Uneventful
      { s with
        index := (s.index.setManifest ⟨s.nextManifest, r.path, r.directory, m, hash⟩ (s.isLive g)).1
        nextManifest := s.nextManifest + 1 } := by
    refine ⟨fun _ => rfl, rfl, ?_⟩
    intro filed
    unfold Index.setManifest
    split <;> exact ⟨filed, fun _ known => known⟩
  unfold Declaration.takeNumber at taken
  dsimp only at taken
  split at taken
  · cases taken
    exact written.trans (Store.uneventful_log _ _)
  · cases taken
    exact written

theorem uneventful_install (policy : Policy) (g : Generation) (r : Declaration.Request)
    (bytes : List UInt8) (s : Scope) :
    s.store.Uneventful (Declaration.install policy g r bytes s).1.store := by
  unfold Declaration.install
  split
  · exact .refl _
  · dsimp only
    split
    · exact Store.uneventful_log _ _
    · split
      next store refused => exact uneventful_takeNumber refused
      next store d installed =>
        have numbered := uneventful_takeNumber installed
        split
        · exact numbered.trans (Store.uneventful_emit rfl _)
        · refine .trans ?_ (uneventful_publish d _)
          exact numbered

theorem uneventful_announce (a : Arrival) (s : Scope) :
    s.store.Uneventful (ctx.announce a s).1.store := by
  have told : ∀ (n : Notice) (t : Store), t.Uneventful (t.emit (.notice n)) :=
    fun n => Store.uneventful_emit rfl
  have ticked : ∀ t : Store, t.Uneventful (t.emit (.tick a.path)) := Store.uneventful_emit rfl
  have announced := fileAnnounced ctx a s
  generalize ctx.announce a s = r at announced ⊢
  cases announced with
  | withdrawn => exact .refl _
  | new | changed => exact (told _ _).trans (ticked _)
  | untold => exact ticked _

theorem uneventful_resume (a : Arrival) (r : Scope × Declaration.Progress) :
    r.1.store.Uneventful (ctx.resume a r).1.store := by
  unfold Context.resume
  split
  · exact .refl _
  · exact uneventful_announce a _
  · exact .refl _

theorem uneventful_declareManifest (a : Arrival) (s : Scope) :
    s.store.Uneventful (ctx.declareManifest a s).1.store := by
  have declared := manifestDeclared ctx a s
  generalize ctx.declareManifest a s = r at declared ⊢
  cases declared with
  | unnamed => exact uneventful_announce a s
  | skipped => exact (s.store.uneventful_log _).trans (uneventful_announce a (s.log _))
  | reading => exact .refl _

theorem uneventful_addFile (file : Path) (status : Status) (s : Scope) :
    s.store.Uneventful (ctx.addFile file status s).1.store := by
  have declared : ∀ (a : Arrival) (s : Scope), s.store.Uneventful (ctx.declareFile a s).1.store := by
    intro a s
    unfold Context.declareFile
    split
    · exact Store.uneventful_emit rfl _
    · exact uneventful_declareManifest a s
  have written : s.store.Uneventful
      { s.store with index := (s.store.index.insertFile file status true).1 } := by
    apply Store.uneventful_index
    intro filed
    refine ⟨filed.insertFile file status, ?_⟩
    rw [Index.insertFile_directories]
    exact fun _ known => known
  have added := fileAdded ctx file status s
  generalize ctx.addFile file status s = r at added ⊢
  cases added with
  | unchanged | ignored | withdrawn => exact .refl _
  | registered =>
    refine .trans ?_ (declared _ _)
    exact written

structure Enters (p : Path) (s t : Store) : Prop where
  stage : ∀ r, t.projects.stage? r = s.projects.stage? r
  entered : t.entered = p :: s.entered
  index : s.index.Filed → t.index.Filed ∧ ∀ q ∈ t.index.directories, q = p ∨ q ∈ s.index.directories

theorem Enters.after {p : Path} {s t u : Store} (enters : Enters p t u) (before : s.Uneventful t) :
    Enters p s u where
  stage r := (enters.stage r).trans (before.stage r)
  entered := by rw [enters.entered, before.entered]
  index filed := by
    obtain ⟨filed', known⟩ := before.index filed
    obtain ⟨filed'', origin⟩ := enters.index filed'
    exact ⟨filed'', fun q member => (origin q member).imp_right (known q)⟩

/-- A directory is passed over, or it is entered and the crawl waits for the subscription. -/
theorem addDirectory_enters (follows : ctx.follows = true) (dir : Path) (status : Status) (s : Scope) :
    let r := ctx.addDirectory dir status s
    (s.store.Uneventful r.1.store ∧ r.2 = .finished (.ok false)) ∨
      (Enters dir s.store r.1.store ∧ ∃ known, r.2 = .waiting (.subscribe dir known)) := by
  dsimp only
  have added := directoryAdded ctx dir status s
  generalize ctx.addDirectory dir status s = r at added ⊢
  cases added with
  | unchanged | withdrawn => exact Or.inl ⟨.refl _, rfl⟩
  | ignored => exact Or.inl ⟨Store.uneventful_log _ _, rfl⟩
  | subscribing =>
    have entered : Enters dir s.store (({ s.store with
        index := (s.store.index.insertDirectory dir status true).1 } : Store).askDirectory dir) := by
      refine ⟨fun _ => rfl, rfl, ?_⟩
      intro filed
      refine ⟨filed.insertDirectory dir status, fun q member => ?_⟩
      have member : q ∈ (s.store.index.insertDirectory dir status true).1.directories := member
      rcases eq_or_ne q dir with own | other
      · exact Or.inl own
      · exact Or.inr (by simpa [other.symm] using member)
    exact Or.inr ⟨entered, _, rfl⟩
  | listing _ _ _ alone =>
    rw [follows] at alone
    cases alone

end ProjectIndex.Crawl
