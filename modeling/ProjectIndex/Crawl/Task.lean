import ProjectIndex.Manifest.Declaration

/-!
# Crawling

A crawl brings the index in line with the disk below a path.  For each directory it registers the
directory, asks for a subscription, lists the entries, deals with the entries that come first one by
one, and then with all the others at once.  Files are registered, declare projects and manifests,
and are announced last.

A `Task` is a crawl that waits: for the disk, for the backend, for a project, or for the crawls of
entries.  `Task.step` says what happens when a wait is over.  Entries that are crawled at once are a
list of tasks, and each step names the one that goes on; the names chosen are the schedule.  No two
writes of one step are separated by a wait, which is what makes a step atomic.

Everything is done on behalf of a generation.  Once it is cancelled nothing is written any more.
-/

namespace ProjectIndex.Crawl

/-- Why a crawl is made.  Updates found by the first crawl of a root are not announced. -/
inductive Reason where
  | initial
  | watch
  deriving DecidableEq, Repr, Inhabited

def Reason.word : Reason → String
  | .initial => "Initial"
  | .watch => "Watch"

/-- What a crawl serves. -/
structure Context where
  policy : Policy
  reason : Reason
  generation : Generation
  /-- The backend is told about directories. -/
  follows : Bool := true

/-- A file that was registered and is not announced yet. -/
structure Arrival where
  path : Path
  status : Status
  /-- What the index had before. -/
  previous : Option Status
  deriving DecidableEq, Repr

/-- What a crawl waits for. -/
inductive Task where
  /-- To be started, among the entries that are crawled at once. -/
  | begin (path : Path)
  /-- The status of an entry. -/
  | entry (path : Path)
  /-- The subscription of a registered directory; `known` says that it was registered before. -/
  | subscribe (dir : Path) (known : Bool)
  /-- The entries of a registered directory. -/
  | list (dir : Path) (known : Bool)
  /-- The project that a configuration file declares. -/
  | project (arrival : Arrival) (root : Path)
  /-- The manifest that a file holds. -/
  | manifest (arrival : Arrival) (declaration : Declaration)
  /-- One of the entries that come first, with those still to come and the others after them. -/
  | inOrder (dir : Path) (current : Task) (queue rest : List Path)
  /-- The other entries, and the first failure among those that have ended. -/
  | together (dir : Path) (running : List Task) (failure : Option IndexError)

/-- A crawl that waits, or its end: whether the index changed. -/
inductive Progress where
  | waiting (task : Task)
  | finished (result : Except IndexError Bool)

def line (name : String) (path : Path) : Log.Line :=
  .event .debug .crawler "crawler" name path.display

namespace Context

/-- The watch that the crawl serves was withdrawn. -/
def isStale (ctx : Context) (s : Scope) : Bool :=
  s.store.isStale ctx.generation

def describe (ctx : Context) (remarks : Nat) (stale : Bool) : String :=
  "CrawlContext \x7b reason: " ++ ctx.reason.word ++ ", diagnostics: " ++ toString remarks ++
    ", stale: " ++ (if stale then "true" else "false") ++ " \x7d"

/-- Deletes a path with everything below it and tells the backend, unless the crawl is stale. -/
def remove (ctx : Context) (p : Path) (s : Scope) : Scope × Bool :=
  if ctx.isStale s then (s, false)
  else
    let deleted := s.update (·.delete p)
    let told :=
      if s.store.index.isDirectory p && ctx.follows then deleted.update (·.forgetDirectory p)
      else deleted
    (told, true)

/-- Drops the known entries of a directory that are not on disk any more. -/
def reconcile (ctx : Context) (dir : Path) (onDisk : List Path) (s : Scope) : Scope :=
  let gone := (s.store.index.children dir).filter fun child => !onDisk.contains child
  gone.foldl (fun s child => (ctx.remove child (s.log (line "vanished" child))).1) s

def finishDirectory (dir : Path) (s : Scope) : Scope × Progress :=
  (s.update fun store => (store.directoryDone dir).emit (.tick dir), .finished (.ok true))

def fanOut (dir : Path) (rest : List Path) (s : Scope) : Scope × Progress :=
  if rest.isEmpty then finishDirectory dir s
  else (s, .waiting (.together dir (rest.map .begin) none))

/-- Goes on with the next of the entries that come first.  A stale crawl passes over them. -/
def nextInOrder (ctx : Context) (dir : Path) (queue rest : List Path) (s : Scope) :
    Scope × Progress :=
  match queue with
  | [] => fanOut dir rest s
  | p :: queue =>
    if ctx.isStale s then nextInOrder ctx dir queue rest s
    else (s, .waiting (.inOrder dir (.entry p) queue rest))

/-- Registers a directory, unless it is unchanged or left out. -/
def addDirectory (ctx : Context) (dir : Path) (status : Status) (s : Scope) : Scope × Progress :=
  if !s.store.index.hasChanged dir status then (s, .finished (.ok false))
  else if ctx.policy.ignores dir .directory then (s.log (line "ignored" dir), .finished (.ok false))
  else
    let (index, insertion) := s.store.index.insertDirectory dir status (!ctx.isStale s)
    let written := s.update fun store => { store with index }
    match insertion with
    | .stale => (written, .finished (.ok false))
    | .inserted => ask written false
    | .replaced _ => ask written true
where
  /-- Asks for a subscription and then for the entries. -/
  ask (s : Scope) (known : Bool) : Scope × Progress :=
    if ctx.follows then (s.update (·.askDirectory dir), .waiting (.subscribe dir known))
    else (s, .waiting (.list dir known))

/-- The answer about the subscription of a directory.  A refusal is remarked and no more. -/
def subscribed (dir : Path) (answer : Except SubscriptionError Unit) (s : Scope) : Scope :=
  match answer with
  | .ok () => s.update (·.directoryAnswered dir true)
  | .error e =>
    ((s.update (·.directoryAnswered dir false)).log
      ⟨.warn, .crawler, "[crawler] failed to watch " ++ dir.display ++ ": " ++ e.message⟩).remark
        ⟨.warning, "watch/subscribe", dir.spelling, e.message⟩

/-- The answer about the entries of a directory. -/
def listed (ctx : Context) (dir : Path) (known : Bool) (answer : Except DiskError (List Path))
    (s : Scope) : Scope × Progress :=
  match answer with
  | .error cause =>
    if cause.isNotFound then ((ctx.remove dir s).1, .finished (.ok false))
    else (s, .finished (.error (.io dir.spelling cause)))
  | .ok children =>
    if ctx.isStale s then (s, .finished (.ok false))
    else
      let s := if known then ctx.reconcile dir children s else s
      let (first, rest) := ctx.policy.arrange children
      ctx.nextInOrder dir first rest s

/-- Announces a file that was registered, unless its watch was withdrawn meanwhile. -/
def announce (ctx : Context) (a : Arrival) (s : Scope) : Scope × Progress :=
  if ctx.isStale s then (s, .finished (.ok false))
  else
    let told :=
      match a.previous with
      | none => s.update (·.emit (.notice (.new a.path)))
      | some old =>
        if ctx.reason = Reason.watch then
          s.update (·.emit (.notice (.changed a.path old a.status)))
        else s
    (told.update (·.emit (.tick a.path)), .finished (.ok true))

/-- Where a declaration stands is where the file stands. -/
def resume (ctx : Context) (a : Arrival) : Scope × Declaration.Progress → Scope × Progress
  | (s, .waiting d) => (s, .waiting (.manifest a d))
  | (s, .finished (.ok _)) => ctx.announce a s
  | (s, .finished (.error e)) => (s, .finished (.error e))

/-- Declares the manifest that a registered file holds, if it is one. -/
def declareManifest (ctx : Context) (a : Arrival) (s : Scope) : Scope × Progress :=
  if ctx.policy.layout.isManifestName a.path then
    ctx.resume a (Declaration.begin ctx.policy ctx.generation (.ofPath a.path none) s)
  else ctx.announce a s

/-- Declares what a registered file declares: first a project, then a manifest. -/
def declareFile (ctx : Context) (a : Arrival) (s : Scope) : Scope × Progress :=
  match ctx.policy.projectRoot? a.path with
  | some root => (s.update (·.askProject root), .waiting (.project a root))
  | none => ctx.declareManifest a s

/-- Registers a file, unless it is unchanged or left out. -/
def addFile (ctx : Context) (file : Path) (status : Status) (s : Scope) : Scope × Progress :=
  if !s.store.index.hasChanged file status then (s, .finished (.ok false))
  else if ctx.policy.ignores file .file then (s, .finished (.ok false))
  else
    let (index, insertion) := s.store.index.insertFile file status (!ctx.isStale s)
    let written := s.update fun store => { store with index }
    match insertion with
    | .stale => (written, .finished (.ok false))
    | .inserted => ctx.declareFile ⟨file, status, none⟩ written
    | .replaced old => ctx.declareFile ⟨file, status, some old⟩ written

/-- Starts with an entry of which nothing is known but its path. -/
def addEntry (ctx : Context) (p : Path) (s : Scope) : Scope × Progress :=
  if ctx.isStale s then (s, .finished (.ok false)) else (s, .waiting (.entry p))

/-- The answer about the status of an entry.  What is gone is deleted, and what changed its kind is
deleted and taken in anew. -/
def examined (ctx : Context) (p : Path) (answer : Except DiskError Status) (s : Scope) :
    Scope × Progress :=
  match answer with
  | .error cause =>
    if cause.isNotFound then
      if s.store.index.knows p then
        let (s, removed) := ctx.remove p s
        (s, .finished (.ok removed))
      else (s, .finished (.ok false))
    else (s, .finished (.error (.io p.spelling cause)))
  | .ok status =>
    let s :=
      match s.store.index.status? p with
      | some old => if old.kind = status.kind then s else (ctx.remove p s).1
      | none => s
    match status.kind with
    | .directory => ctx.addDirectory p status s
    | .file => ctx.addFile p status s
    | .unknown => (s, .finished (.ok false))

/-- Starts to bring the index in line with one path.  A path of which neither itself nor its parent
is known is nobody's business. -/
def refresh (ctx : Context) (p : Path) (s : Scope) : Scope × Progress :=
  if s.store.index.knows p || s.store.index.knowsParent p then ctx.addEntry p s
  else (s.log (line "outside index" p), .finished (.ok false))

end Context

namespace Task

mutual

/-- The end of one wait.  The schedule names, from the outside in, which of the entries that are
crawled at once goes on. -/
def step (ctx : Context) (world : World) (schedule : List Nat) (task : Task) (s : Scope) :
    Scope × Progress :=
  match task with
  | .begin p => ctx.addEntry p s
  | .entry p => ctx.examined p (world.entry p) s
  | .subscribe dir known =>
    (Context.subscribed dir (world.watchDirectory dir) s, .waiting (.list dir known))
  | .list dir known => ctx.listed dir known (world.children dir) s
  | .project a root =>
    ctx.declareManifest a
      ((s.remarkAll (world.projectRemarks root)).update (·.projectDeclared root))
  | .manifest a d => ctx.resume a (d.step ctx.policy world ctx.generation s)
  | .inOrder dir current queue rest =>
    match step ctx world schedule current s with
    | (s, .waiting current) => (s, .waiting (.inOrder dir current queue rest))
    | (s, .finished (.error e)) => (s, .finished (.error e))
    | (s, .finished (.ok _)) => ctx.nextInOrder dir queue rest s
  | .together dir running failure =>
    match stepOne ctx world schedule.tail (schedule.headD 0) running s with
    | (s, [], none) => match failure with
      | some e => (s, .finished (.error e))
      | none => Context.finishDirectory dir s
    | (s, [], some e) => (s, .finished (.error (failure.getD e)))
    | (s, running, failed) => (s, .waiting (.together dir running (failure <|> failed)))

/-- The end of a wait of the task with this number, or of the last one if there are not so many.  A
task that has ended leaves the list; its failure is given back. -/
def stepOne (ctx : Context) (world : World) (schedule : List Nat) (i : Nat)
    (running : List Task) (s : Scope) : Scope × List Task × Option IndexError :=
  match running with
  | [] => (s, [], none)
  | task :: others =>
    if i = 0 || others.isEmpty then
      match step ctx world schedule task s with
      | (s, .waiting task) => (s, task :: others, none)
      | (s, .finished (.ok _)) => (s, others, none)
      | (s, .finished (.error e)) => (s, others, some e)
    else
      let (s, others, failed) := stepOne ctx world schedule (i - 1) others s
      (s, task :: others, failed)

end

end Task

end ProjectIndex.Crawl
