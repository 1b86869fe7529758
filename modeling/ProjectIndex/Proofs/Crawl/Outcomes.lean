import ProjectIndex.Proofs.Crawl.Edits
import ProjectIndex.Proofs.Index.Sound

/-!
# What the parts of a crawl leave behind

For each part of a move that is made in a live generation: the index afterwards, and what the crawl
waits for next.  `Edits` says which kinds of writes a move can make; here it is said which writes
are made when.
-/

namespace ProjectIndex

/-- The manifest that the bytes of a file hold. -/
def Policy.manifestIn (policy : Policy) (path : Path) (bytes : List UInt8) : Option Manifest :=
  match Json.parse bytes with
  | .error _ => none
  | .ok value =>
    (Manifest.normalise ⟨policy.configField, path.spelling, !policy.layout.isDependency path⟩
      value).manifest

/-- Nothing is lost or doubled when the entries of a directory are put in order. -/
theorem Policy.arrange_perm (policy : Policy) (children : List Path) :
    List.Perm ((policy.arrange children).1 ++ (policy.arrange children).2) children := by
  dsimp only [Policy.arrange]
  rw [List.partition_eq_filter_filter]
  refine (List.Perm.append_right _ (List.mergeSort_perm _ _)).trans ?_
  exact List.filter_append_perm _ _

namespace Crawl

variable {ctx : Context} {s : Scope}

theorem delete_index (s : Store) (p : Path) : (s.delete p).index = (s.index.evict p).1 := by
  rw [Store.delete_eq]
  exact (s.quiet_evict p).index

theorem remove_index (live : s.store.isStale ctx.generation = false) (p : Path) :
    (ctx.remove p s).1.store.index = (s.store.index.evict p).1 := by
  unfold Context.remove
  rw [if_neg (by simp [Context.isStale, live])]
  dsimp only
  split
  · exact (Store.quiet_forgetDirectory _ p).index.trans (delete_index _ p)
  · exact delete_index _ p

theorem reconcile_index (live : s.store.isStale ctx.generation = false) (dir : Path)
    (onDisk : List Path) :
    (ctx.reconcile dir onDisk s).store.index =
      s.store.index.evictAll
        ((s.store.index.children dir).filter fun child => !onDisk.contains child) := by
  have each : ∀ (gone : List Path) (s : Scope), s.store.isStale ctx.generation = false →
      (gone.foldl (fun s child => (ctx.remove child (s.log (line "vanished" child))).1) s).store.index
        = s.store.index.evictAll gone := by
    intro gone
    induction gone with
    | nil => exact fun s live => rfl
    | cons child rest ih =>
      intro s live
      have logged := Store.quiet_log s.store (line "vanished" child)
      have still : (s.log (line "vanished" child)).store.isStale ctx.generation = false :=
        (logged.isStale _).trans live
      rw [List.foldl_cons, ih _ (((edits_remove child _).isStale _).trans still),
        remove_index still child]
      rfl
  exact each _ s live

/-- A directory is passed over, or it is written and its entries are asked for. -/
theorem addDirectory_outcome (live : s.store.isStale ctx.generation = false) (dir : Path)
    (status : Status) :
    ((s.store.index.hasChanged dir status = false ∨ ctx.policy.ignores dir .directory = true) ∧
        (ctx.addDirectory dir status s).1.store.index = s.store.index ∧
        (ctx.addDirectory dir status s).2 = .finished (.ok false)) ∨
      ((s.store.index.hasChanged dir status = true ∧ ctx.policy.ignores dir .directory = false) ∧
        (ctx.addDirectory dir status s).1.store.index =
          (s.store.index.insertDirectory dir status true).1 ∧
        ((ctx.addDirectory dir status s).2 =
            .waiting (.subscribe dir (s.store.index.isDirectory dir)) ∨
          (ctx.addDirectory dir status s).2 =
            .waiting (.list dir (s.store.index.isDirectory dir)))) := by
  have added := directoryAdded ctx dir status s
  generalize ctx.addDirectory dir status s = r at added ⊢
  cases added with
  | unchanged same => exact Or.inl ⟨Or.inl same, rfl, rfl⟩
  | ignored _ denied => exact Or.inl ⟨Or.inr denied, rfl, rfl⟩
  | withdrawn _ _ stale =>
    rw [live] at stale
    cases stale
  | subscribing changed taken => exact Or.inr ⟨⟨changed, taken⟩, rfl, Or.inl rfl⟩
  | listing changed taken => exact Or.inr ⟨⟨changed, taken⟩, rfl, Or.inr rfl⟩

/-- How the crawl of a directory goes on when some of its entries are left: those in the queue one by
one, and then the others at once. -/
def following (dir : Path) (queue rest : List Path) : Progress :=
  match queue with
  | [] =>
    if rest = [] then .finished (.ok true) else .waiting (.together dir (rest.map .begin) none)
  | p :: queue => .waiting (.inOrder dir (.entry p) queue rest)

theorem nextInOrder_outcome (live : s.store.isStale ctx.generation = false) (dir : Path)
    (queue rest : List Path) :
    (ctx.nextInOrder dir queue rest s).1.store.index = s.store.index ∧
      (ctx.nextInOrder dir queue rest s).2 = following dir queue rest := by
  have goesOn := entriesNext ctx s dir queue rest
  generalize ctx.nextInOrder dir queue rest s = r at goesOn ⊢
  cases goesOn with
  | next _ first =>
    rw [first]
    exact ⟨rfl, rfl⟩
  | others passed some =>
    obtain rfl := passed.resolve_right (by simp [live])
    rw [following, if_neg some]
    exact ⟨rfl, rfl⟩
  | done passed none =>
    obtain rfl := passed.resolve_right (by simp [live])
    rw [following, if_pos none]
    exact ⟨(Store.quiet_directoryDone s.store dir).index, rfl⟩

theorem conclude_index (dir : Path) (failure : Option IndexError) (s : Scope) :
    (conclude dir failure s).1.store.index = s.store.index := by
  cases failure with
  | none => exact (Store.quiet_directoryDone s.store dir).index
  | some e => rfl

theorem conclude_not_waiting {dir : Path} {failure : Option IndexError} {task : Task} :
    (conclude dir failure s).2 ≠ .waiting task := by
  unfold conclude
  split <;> exact fun waits => by cases waits

theorem subscribed_index (dir : Path) (answer : Except SubscriptionError Unit) (s : Scope) :
    (Context.subscribed dir answer s).store.index = s.store.index := by
  unfold Context.subscribed
  split <;> rfl

theorem addEntry_outcome (live : s.store.isStale ctx.generation = false) (p : Path) :
    ctx.addEntry p s = (s, .waiting (.entry p)) := by
  unfold Context.addEntry
  rw [if_neg (by simp [Context.isStale, live])]

/-- A directory that cannot be listed is gone or a failure; otherwise what is not on disk goes, and
the entries on disk are crawled. -/
theorem listed_outcome (live : s.store.isStale ctx.generation = false) (dir : Path) (known : Bool)
    (answer : Except DiskError (List Path)) :
    (∃ cause, answer = .error cause ∧
        ((cause.isNotFound = true ∧
            (ctx.listed dir known answer s).1.store.index = (s.store.index.evict dir).1 ∧
            (ctx.listed dir known answer s).2 = .finished (.ok false)) ∨
          ((ctx.listed dir known answer s).1.store.index = s.store.index ∧
            (ctx.listed dir known answer s).2 = .finished (.error (.io dir.spelling cause))))) ∨
      ∃ children, answer = .ok children ∧
        (ctx.listed dir known answer s).1.store.index =
          (if known then
            s.store.index.evictAll
              ((s.store.index.children dir).filter fun child => !children.contains child)
          else s.store.index) ∧
        (ctx.listed dir known answer s).2 =
          following dir (ctx.policy.arrange children).1 (ctx.policy.arrange children).2 := by
  cases answer with
  | error cause =>
    refine Or.inl ⟨cause, rfl, ?_⟩
    dsimp only [Context.listed]
    by_cases gone : cause.isNotFound = true
    · rw [if_pos gone]
      exact Or.inl ⟨gone, remove_index live dir, rfl⟩
    · rw [if_neg gone]
      exact Or.inr ⟨rfl, rfl⟩
  | ok children =>
    refine Or.inr ⟨children, rfl, ?_⟩
    unfold Context.listed
    simp only [Context.isStale, live, Bool.false_eq_true, if_false]
    cases known with
    | false => exact nextInOrder_outcome live dir _ _
    | true =>
      have still : (ctx.reconcile dir children s).store.isStale ctx.generation = false :=
        ((edits_reconcile dir children s).isStale _).trans live
      have next := nextInOrder_outcome still dir (ctx.policy.arrange children).1
        (ctx.policy.arrange children).2
      exact ⟨next.1.trans (reconcile_index live dir children), next.2⟩

theorem announce_outcome (live : s.store.isStale ctx.generation = false) (a : Arrival) :
    (ctx.announce a s).1.store.index = s.store.index ∧
      (ctx.announce a s).2 = .finished (.ok true) := by
  have announced := fileAnnounced ctx a s
  generalize ctx.announce a s = r at announced ⊢
  cases announced with
  | withdrawn stale =>
    rw [live] at stale
    cases stale
  | new | changed | untold => exact ⟨rfl, rfl⟩

/-- A file that is a manifest that counts is read next; any other one is done. -/
theorem declareManifest_outcome (live : s.store.isStale ctx.generation = false) (a : Arrival) :
    (ctx.declareManifest a s).1.store.index = s.store.index ∧
      (ctx.declareManifest a s).2 =
        if ctx.policy.layout.isOfInterest a.path then
          .waiting (.manifest a (.reading a.path (a.path.parent.getD a.path)))
        else .finished (.ok true) := by
  have declared := manifestDeclared ctx a s
  generalize ctx.declareManifest a s = r at declared ⊢
  cases declared with
  | unnamed other =>
    rw [other]
    exact announce_outcome live a
  | skipped other =>
    rw [other]
    exact @announce_outcome ctx (s.log _) live a
  | reading counts =>
    rw [counts]
    exact ⟨rfl, rfl⟩

/-- Once the project of a file is declared, its manifest is asked for if the file is one. -/
theorem projectDeclared_outcome (live : s.store.isStale ctx.generation = false) (a : Arrival)
    (root : Path) (remarks : List Diagnostic) :
    let r := ctx.declareManifest a ((s.remarkAll remarks).update (·.projectDeclared root))
    r.1.store.index = s.store.index ∧
      r.2 = if ctx.policy.layout.isOfInterest a.path then
          .waiting (.manifest a (.reading a.path (a.path.parent.getD a.path)))
        else .finished (.ok true) := by
  have declared := Store.quiet_projectDeclared s.store root
  have still : ((s.remarkAll remarks).update (·.projectDeclared root)).store.isStale
      ctx.generation = false := (declared.isStale _).trans live
  obtain ⟨index, next⟩ := declareManifest_outcome still a
  exact ⟨index.trans declared.index, next⟩

/-- The project of a registered file is asked for, or its manifest if the file is one. -/
theorem declareFile_outcome (live : s.store.isStale ctx.generation = false) (a : Arrival) :
    (ctx.declareFile a s).1.store.index = s.store.index ∧
      ((∃ root, (ctx.declareFile a s).2 = .waiting (.project a root)) ∨
        (ctx.declareFile a s).2 =
          if ctx.policy.layout.isOfInterest a.path then
            .waiting (.manifest a (.reading a.path (a.path.parent.getD a.path)))
          else .finished (.ok true)) := by
  unfold Context.declareFile
  split
  next root _ => exact ⟨rfl, Or.inl ⟨root, rfl⟩⟩
  · exact ⟨(declareManifest_outcome live a).1, Or.inr (declareManifest_outcome live a).2⟩

/-- A file is passed over, or it is written and its project or its manifest is asked for. -/
theorem addFile_outcome (live : s.store.isStale ctx.generation = false) (file : Path)
    (status : Status) :
    ((s.store.index.hasChanged file status = false ∨ ctx.policy.ignores file .file = true) ∧
        (ctx.addFile file status s).1.store.index = s.store.index ∧
        (ctx.addFile file status s).2 = .finished (.ok false)) ∨
      ((s.store.index.hasChanged file status = true ∧ ctx.policy.ignores file .file = false) ∧
        (ctx.addFile file status s).1.store.index =
          (s.store.index.insertFile file status true).1 ∧
        ∃ a : Arrival, a.path = file ∧
          ((∃ root, (ctx.addFile file status s).2 = .waiting (.project a root)) ∨
            (ctx.addFile file status s).2 =
              if ctx.policy.layout.isOfInterest file then
                .waiting (.manifest a (.reading file (file.parent.getD file)))
              else .finished (.ok true))) := by
  have added := fileAdded ctx file status s
  generalize ctx.addFile file status s = r at added ⊢
  cases added with
  | unchanged same => exact Or.inl ⟨Or.inl same, rfl, rfl⟩
  | ignored _ denied => exact Or.inl ⟨Or.inr denied, rfl, rfl⟩
  | withdrawn _ _ stale =>
    rw [live] at stale
    cases stale
  | registered changed taken =>
    obtain ⟨index, goesOn⟩ := @declareFile_outcome ctx (s.update fun store =>
      { store with index := (s.store.index.insertFile file status true).1 }) live
        ⟨file, status, s.store.index.files[file]?⟩
    exact Or.inr ⟨⟨changed, taken⟩, index, _, rfl, goesOn⟩

/-- An entry that cannot be examined is gone or a failure. -/
theorem examined_error (live : s.store.isStale ctx.generation = false) (p : Path)
    (cause : DiskError) :
    (cause.isNotFound = true ∧
        (ctx.examined p (.error cause) s).1.store.index =
          (if s.store.index.knows p then (s.store.index.evict p).1 else s.store.index) ∧
        ∃ changed, (ctx.examined p (.error cause) s).2 = .finished (.ok changed)) ∨
      (cause.isNotFound = false ∧
        (ctx.examined p (.error cause) s).1.store.index = s.store.index ∧
        (ctx.examined p (.error cause) s).2 = .finished (.error (.io p.spelling cause))) := by
  unfold Context.examined
  dsimp only
  split
  next gone =>
    refine Or.inl ⟨gone, ?_⟩
    split
    · exact ⟨remove_index live p, _, rfl⟩
    · exact ⟨rfl, _, rfl⟩
  next failed => exact Or.inr ⟨by simpa using failed, rfl, rfl⟩

/-- An entry that changed its kind is taken out first, and then the entry is taken in. -/
theorem examined_ok (live : s.store.isStale ctx.generation = false) (p : Path) (st : Status) :
    ∃ s' : Scope, s'.store.isStale ctx.generation = false ∧
      s'.store.index = s.store.index.clearedFor p st ∧
      ctx.examined p (.ok st) s =
        match st.kind with
        | .directory => ctx.addDirectory p st s'
        | .file => ctx.addFile p st s'
        | .unknown => (s', .finished (.ok false)) := by
  obtain ⟨s', origin, examined⟩ := @examined_told ctx p st s
  refine ⟨s', ?_, ?_, examined⟩
  · rcases origin with ⟨rfl, _⟩ | ⟨rfl, _⟩
    · exact live
    · exact ((edits_remove p s).isStale _).trans live
  · unfold Index.clearedFor
    rcases origin with ⟨rfl, same⟩ | ⟨rfl, old, found, other⟩
    · cases found : s'.store.index.status? p with
      | none => rfl
      | some old => exact (if_pos (same old found)).symm
    · rw [found]
      exact (remove_index live p).trans (if_neg other).symm

theorem publish_outcome (d : Definition) (s : Scope) :
    (Declaration.publish d s).1.store.index = s.store.index ∧
      (Declaration.publish d s).2 = .waiting (.publishing d) := by
  refine ⟨?_, rfl⟩
  unfold Declaration.publish
  dsimp only
  split <;> rfl

/-- Bytes that hold a manifest install it under the next number; any others leave the index. -/
theorem install_outcome (policy : Policy) {g : Generation} (live : s.store.isStale g = false)
    (r : Declaration.Request) (bytes : List UInt8) :
    match policy.manifestIn r.path bytes with
    | none =>
      (Declaration.install policy g r bytes s).1.store.index = s.store.index ∧
        (Declaration.install policy g r bytes s).2 = .finished (.ok none)
    | some m =>
      let d : Definition := ⟨s.store.nextManifest, r.path, r.directory, m, Sha256.hex bytes⟩
      (Declaration.install policy g r bytes s).1.store.index = (s.store.index.setManifest d true).1 ∧
        ((Declaration.install policy g r bytes s).2 = .waiting (.declaring d) ∨
          (Declaration.install policy g r bytes s).2 = .waiting (.publishing d)) := by
  unfold Declaration.install Policy.manifestIn
  cases Json.parse bytes with
  | error fault => exact ⟨rfl, rfl⟩
  | ok value =>
    dsimp only
    cases (Manifest.normalise ⟨policy.configField, r.path.spelling,
        !policy.layout.isDependency r.path⟩ value).manifest with
    | none => exact ⟨rfl, rfl⟩
    | some m =>
      simp only [Declaration.takeNumber, Store.isLive, Scope.remarkAll, live, Bool.not_false,
        Index.setManifest, if_true]
      split
      · exact ⟨rfl, Or.inl rfl⟩
      · exact ⟨(publish_outcome _ _).1, Or.inr rfl⟩

/-- The contents of a manifest have come: it is installed, or the file is done. -/
theorem reading_outcome (live : s.store.isStale ctx.generation = false) (world : World)
    (a : Arrival) (path directory : Path) :
    let r := ctx.resume a
      (Declaration.step ctx.policy world ctx.generation (.reading path directory) s)
    match world.contents path with
    | .error cause =>
      r.1.store.index = s.store.index ∧
        r.2 = if cause.isNotFound then .finished (.ok true)
          else .finished (.error (.io path.spelling cause))
    | .ok bytes =>
      match ctx.policy.manifestIn path bytes with
      | none => r.1.store.index = s.store.index ∧ r.2 = .finished (.ok true)
      | some m =>
        let d : Definition := ⟨s.store.nextManifest, path, directory, m, Sha256.hex bytes⟩
        r.1.store.index = (s.store.index.setManifest d true).1 ∧
          (r.2 = .waiting (.manifest a (.declaring d)) ∨
            r.2 = .waiting (.manifest a (.publishing d))) := by
  dsimp only [Declaration.step]
  cases world.contents path with
  | error cause =>
    dsimp only
    by_cases gone : cause.isNotFound = true
    · simp only [gone, if_true, Context.resume]
      have logged := Store.quiet_log s.store (Declaration.line "vanished" path.display)
      have still : (s.log (Declaration.line "vanished" path.display)).store.isStale
          ctx.generation = false := (logged.isStale _).trans live
      exact announce_outcome still a
    · simp only [gone, Bool.false_eq_true, if_false, Context.resume, and_self]
  | ok bytes =>
    have installed := install_outcome ctx.policy live ⟨path, directory, none⟩ bytes
    have edits : Edits ctx s.store (Declaration.install ctx.policy ctx.generation
        ⟨path, directory, none⟩ bytes s).1.store := edits_install _ _ s
    have still := (edits.isStale ctx.generation).trans live
    dsimp only at installed still ⊢
    generalize Declaration.install ctx.policy ctx.generation ⟨path, directory, none⟩ bytes s = r
      at installed still ⊢
    obtain ⟨s', progress⟩ := r
    split at installed
    · obtain ⟨index, rfl⟩ := installed
      exact ⟨(announce_outcome still a).1.trans index, (announce_outcome still a).2⟩
    · obtain ⟨index, rfl | rfl⟩ := installed
      · exact ⟨index, Or.inl rfl⟩
      · exact ⟨index, Or.inr rfl⟩

/-- Once a manifest is installed, what is left to do does not touch the index. -/
theorem installed_outcome (live : s.store.isStale ctx.generation = false) (world : World)
    (a : Arrival) (d : Definition) :
    ((ctx.resume a (Declaration.step ctx.policy world ctx.generation (.declaring d) s)).1.store.index
          = s.store.index ∧
        (ctx.resume a (Declaration.step ctx.policy world ctx.generation (.declaring d) s)).2 =
          .waiting (.manifest a (.publishing d))) ∧
      (ctx.resume a (Declaration.step ctx.policy world ctx.generation (.publishing d) s)).1.store.index
          = s.store.index ∧
        (ctx.resume a (Declaration.step ctx.policy world ctx.generation (.publishing d) s)).2 =
          .finished (.ok true) := by
  refine ⟨⟨?_, rfl⟩, announce_outcome live a⟩
  have declared := Store.quiet_projectDeclared s.store d.directory
  exact (publish_outcome d _).1.trans declared.index

end Crawl

end ProjectIndex
