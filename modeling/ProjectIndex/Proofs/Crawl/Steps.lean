import ProjectIndex.Crawl.Task

/-!
# What the steps of a crawl come to

A step of a crawl that decides something can end in a few ways.  They are listed here, each with what is
found when the step ends in that way, so that whatever is said of all crawls is said of these ways.

A directory or a file that is added is passed over if the index has it as it is, if it is left out, or if
the watch was withdrawn.  Otherwise it is registered.  A registered directory is subscribed, where the
backend follows directories one by one, and listed.  What a registered file declares is declared, and at
the end the file is announced.
-/

namespace ProjectIndex.Crawl

/-- Adding a directory can end in this way. -/
inductive DirectoryAdded (ctx : Context) (dir : Path) (status : Status) (s : Scope) :
    Scope × Progress → Prop where
  | unchanged (same : s.store.index.hasChanged dir status = false) :
      DirectoryAdded ctx dir status s (s, .finished (.ok false))
  | ignored (changed : s.store.index.hasChanged dir status = true)
      (denied : ctx.policy.ignores dir .directory = true) :
      DirectoryAdded ctx dir status s (s.log (line "ignored" dir), .finished (.ok false))
  | withdrawn (changed : s.store.index.hasChanged dir status = true)
      (taken : ctx.policy.ignores dir .directory = false)
      (stale : s.store.isStale ctx.generation = true) :
      DirectoryAdded ctx dir status s (s, .finished (.ok false))
  | subscribing (changed : s.store.index.hasChanged dir status = true)
      (taken : ctx.policy.ignores dir .directory = false)
      (live : s.store.isStale ctx.generation = false) (follows : ctx.follows = true) :
      DirectoryAdded ctx dir status s
        (s.update fun store =>
            { store with index := (s.store.index.insertDirectory dir status true).1 }.askDirectory dir,
          .waiting (.subscribe dir (s.store.index.isDirectory dir)))
  | listing (changed : s.store.index.hasChanged dir status = true)
      (taken : ctx.policy.ignores dir .directory = false)
      (live : s.store.isStale ctx.generation = false) (alone : ctx.follows = false) :
      DirectoryAdded ctx dir status s
        (s.update fun store =>
            { store with index := (s.store.index.insertDirectory dir status true).1 },
          .waiting (.list dir (s.store.index.isDirectory dir)))

/-- Adding a file can end in this way. -/
inductive FileAdded (ctx : Context) (file : Path) (status : Status) (s : Scope) :
    Scope × Progress → Prop where
  | unchanged (same : s.store.index.hasChanged file status = false) :
      FileAdded ctx file status s (s, .finished (.ok false))
  | ignored (changed : s.store.index.hasChanged file status = true)
      (denied : ctx.policy.ignores file .file = true) :
      FileAdded ctx file status s (s, .finished (.ok false))
  | withdrawn (changed : s.store.index.hasChanged file status = true)
      (taken : ctx.policy.ignores file .file = false)
      (stale : s.store.isStale ctx.generation = true) :
      FileAdded ctx file status s (s, .finished (.ok false))
  | registered (changed : s.store.index.hasChanged file status = true)
      (taken : ctx.policy.ignores file .file = false)
      (live : s.store.isStale ctx.generation = false) :
      FileAdded ctx file status s
        (ctx.declareFile ⟨file, status, s.store.index.files[file]?⟩
          (s.update fun store =>
            { store with index := (s.store.index.insertFile file status true).1 }))

/-- Declaring the manifest that a registered file may hold can go on in this way. -/
inductive ManifestDeclared (ctx : Context) (a : Arrival) (s : Scope) : Scope × Progress → Prop where
  | unnamed (other : ctx.policy.layout.isOfInterest a.path = false) :
      ManifestDeclared ctx a s (ctx.announce a s)
  | skipped (other : ctx.policy.layout.isOfInterest a.path = false) :
      ManifestDeclared ctx a s (ctx.announce a (s.log (Declaration.line "skipped" a.path.display)))
  | reading (counts : ctx.policy.layout.isOfInterest a.path = true) :
      ManifestDeclared ctx a s
        (s, .waiting (.manifest a (.reading a.path (a.path.parent.getD a.path))))

/-- Announcing a registered file can end in this way. -/
inductive FileAnnounced (ctx : Context) (a : Arrival) (s : Scope) : Scope × Progress → Prop where
  | withdrawn (stale : s.store.isStale ctx.generation = true) :
      FileAnnounced ctx a s (s, .finished (.ok false))
  | new (live : s.store.isStale ctx.generation = false) (previous : a.previous = none) :
      FileAnnounced ctx a s
        ((s.update (·.emit (.notice (.new a.path)))).update (·.emit (.tick a.path)),
          .finished (.ok true))
  | changed (live : s.store.isStale ctx.generation = false) {old : Status}
      (previous : a.previous = some old) :
      FileAnnounced ctx a s
        ((s.update (·.emit (.notice (.changed a.path old a.status)))).update (·.emit (.tick a.path)),
          .finished (.ok true))
  | untold (live : s.store.isStale ctx.generation = false) {old : Status}
      (previous : a.previous = some old) :
      FileAnnounced ctx a s (s.update (·.emit (.tick a.path)), .finished (.ok true))

/-- With these entries still to come, those in the queue before the others, the crawl of a directory can go
on in this way. -/
inductive EntriesNext (ctx : Context) (dir : Path) (queue rest : List Path) (s : Scope) :
    Scope × Progress → Prop where
  | next {p : Path} {left : List Path} (live : s.store.isStale ctx.generation = false)
      (first : queue = p :: left) :
      EntriesNext ctx dir queue rest s (s, .waiting (.inOrder dir (.entry p) left rest))
  | others (passed : queue = [] ∨ s.store.isStale ctx.generation = true) (some : rest ≠ []) :
      EntriesNext ctx dir queue rest s (s, .waiting (.together dir (rest.map .begin) none))
  | done (passed : queue = [] ∨ s.store.isStale ctx.generation = true) (none : rest = []) :
      EntriesNext ctx dir queue rest s (Context.finishDirectory dir s)

section

variable (ctx : Context) (p : Path) (status : Status) (a : Arrival) (s : Scope)

theorem directoryAdded : DirectoryAdded ctx p status s (ctx.addDirectory p status s) := by
  unfold Context.addDirectory
  split
  next same => exact .unchanged (by simpa using same)
  next changed =>
    have changed : s.store.index.hasChanged p status = true := by simpa using changed
    split
    next denied => exact .ignored changed denied
    next taken =>
      have taken : ctx.policy.ignores p .directory = false := by simpa using taken
      cases stale : ctx.isStale s with
      | true => exact .withdrawn changed taken stale
      | false =>
        have asked : ∀ known, s.store.index.isDirectory p = known → DirectoryAdded ctx p status s
            (Context.addDirectory.ask ctx p (s.update fun store =>
              { store with index := (s.store.index.insertDirectory p status true).1 }) known) := by
          rintro known rfl
          unfold Context.addDirectory.ask
          split
          next follows => exact .subscribing changed taken stale follows
          next alone => exact .listing changed taken stale (by simpa using alone)
        have inserted : (s.store.index.insertDirectory p status true).2 =
            Index.insertion s.store.index.directories[p]? := rfl
        simp only [Bool.not_false, inserted]
        cases found : s.store.index.directories[p]? with
        | none =>
          apply asked
          simp [Index.isDirectory, Std.ExtTreeMap.contains_eq_isSome_getElem?, found]
        | some old =>
          apply asked
          simp [Index.isDirectory, Std.ExtTreeMap.contains_eq_isSome_getElem?, found]

theorem fileAdded : FileAdded ctx p status s (ctx.addFile p status s) := by
  unfold Context.addFile
  split
  next same => exact .unchanged (by simpa using same)
  next changed =>
    have changed : s.store.index.hasChanged p status = true := by simpa using changed
    split
    next denied => exact .ignored changed denied
    next taken =>
      have taken : ctx.policy.ignores p .file = false := by simpa using taken
      cases stale : ctx.isStale s with
      | true => exact .withdrawn changed taken stale
      | false =>
        have registered := FileAdded.registered changed taken stale
        have inserted : (s.store.index.insertFile p status true).2 =
            Index.insertion s.store.index.files[p]? := rfl
        simp only [Bool.not_false, inserted]
        cases found : s.store.index.files[p]? with
        | none =>
          rw [found] at registered
          exact registered
        | some old =>
          rw [found] at registered
          exact registered

theorem manifestDeclared : ManifestDeclared ctx a s (ctx.declareManifest a s) := by
  unfold Context.declareManifest
  split
  next named =>
    unfold Declaration.begin
    split
    next other => exact .skipped (by simpa [Declaration.Request.ofPath] using other)
    next counts => exact .reading (by simpa [Declaration.Request.ofPath] using counts)
  next unnamed => exact .unnamed (by simp [Layout.isOfInterest, unnamed])

theorem fileAnnounced : FileAnnounced ctx a s (ctx.announce a s) := by
  unfold Context.announce
  split
  next stale => exact .withdrawn stale
  next live =>
    have live : s.store.isStale ctx.generation = false := by simpa [Context.isStale] using live
    dsimp only
    split
    next previous => exact .new live previous
    next old previous =>
      split
      · exact .changed live previous
      · exact .untold live previous

theorem entriesNext (dir : Path) (queue rest : List Path) :
    EntriesNext ctx dir queue rest s (ctx.nextInOrder dir queue rest s) := by
  have fanned : queue = [] ∨ s.store.isStale ctx.generation = true →
      EntriesNext ctx dir queue rest s (Context.fanOut dir rest s) := by
    intro passed
    unfold Context.fanOut
    split
    next none => exact .done passed (List.isEmpty_iff.1 none)
    next some => exact .others passed (by simpa using some)
  cases stale : s.store.isStale ctx.generation with
  | true =>
    have through : ctx.nextInOrder dir queue rest s = Context.fanOut dir rest s := by
      clear fanned
      induction queue with
      | nil => rfl
      | cons p left ih => rw [Context.nextInOrder, if_pos (show ctx.isStale s = true from stale), ih]
    rw [through]
    exact fanned (Or.inr stale)
  | false =>
    cases queue with
    | nil => exact fanned (Or.inl rfl)
    | cons p left =>
      rw [Context.nextInOrder, if_neg (by simp [Context.isStale, stale])]
      exact .next stale rfl

end

variable {ctx : Context} {status : Status} {s : Scope}

/-- Announcing a file ends its crawl, and never with a failure. -/
theorem announce_ends (a : Arrival) (s : Scope) :
    ∃ changed, (ctx.announce a s).2 = .finished (.ok changed) := by
  have announced := fileAnnounced ctx a s
  generalize ctx.announce a s = r at announced ⊢
  cases announced with
  | withdrawn | new | changed | untold => exact ⟨_, rfl⟩

/-- A directory that is passed over leaves at most a line in the log. -/
theorem addDirectory_passed {dir : Path}
    (kept : s.store.index.hasChanged dir status = false ∨ ctx.policy.ignores dir .directory = true) :
    ∃ s', (s' = s ∨ ∃ line, s' = s.log line) ∧
      ctx.addDirectory dir status s = (s', .finished (.ok false)) := by
  have added := directoryAdded ctx dir status s
  generalize ctx.addDirectory dir status s = r at added ⊢
  cases added with
  | unchanged | withdrawn => exact ⟨s, Or.inl rfl, rfl⟩
  | ignored => exact ⟨_, Or.inr ⟨_, rfl⟩, rfl⟩
  | subscribing changed taken | listing changed taken => simp [changed, taken] at kept

theorem addFile_passed {file : Path}
    (kept : s.store.index.hasChanged file status = false ∨ ctx.policy.ignores file .file = true) :
    ctx.addFile file status s = (s, .finished (.ok false)) := by
  have added := fileAdded ctx file status s
  generalize ctx.addFile file status s = r at added ⊢
  cases added with
  | unchanged | ignored | withdrawn => rfl
  | registered changed taken => simp [changed, taken] at kept

end ProjectIndex.Crawl
