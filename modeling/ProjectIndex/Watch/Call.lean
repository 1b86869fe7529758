import ProjectIndex.Watch.Host

/-!
# Watching and refreshing

The requests that wait.  A watch joins a crawl that is under way, or waits for the crawls below it,
or looks at its root, asks for a subscription and crawls.  A refresh crawls a single path.  A `Call`
is a request that waits, `Call.step` what happens when the wait is over; any number of calls may be
under way on one host, and between two steps of one call the others go on.
-/

namespace ProjectIndex.Watch

open Crawl (Context Task)

/-- What a request waits for. -/
inductive Call where
  /-- The first crawl of a root at or above. -/
  | joining (root : Path) (generation : Generation)
  /-- The first crawls of roots below. -/
  | draining (root : Path) (below : List Generation)
  /-- The status of the root. -/
  | looking (root : Path) (generation : Generation)
  /-- The subscription of the root. -/
  | opening (root : Path) (generation : Generation) (status : Status)
  /-- The first crawl of the root. -/
  | crawling (root : Path) (generation : Generation) (task : Task) (remarks : List Diagnostic)
  /-- The crawl of a refreshed path. -/
  | refreshing (path : Path) (generation : Generation) (task : Task) (remarks : List Diagnostic)

inductive Reply where
  | watched (result : Except IndexError Unit)
  /-- Whether the index changed. -/
  | refreshed (result : Except IndexError Bool)

inductive Progress where
  | waiting (call : Call)
  | finished (reply : Reply)

def firstCrawl (policy : Policy) (g : Generation) : Context where
  policy
  reason := .initial
  generation := g

def refreshCrawl (policy : Policy) (g : Generation) : Context where
  policy
  reason := .watch
  generation := g

namespace Host

/-- A remark that a request ended with. -/
def warn (h : Host) (d : Diagnostic) : Host :=
  h.log ⟨.warn, .watches, "[watcher] " ++ d.line⟩

/-- Retires a pending root and tells those that wait. -/
def settle (h : Host) (root : Path) (g : Generation) (ok : Bool) : Host :=
  let (roots, settlement) := h.roots.settle root g (ok && h.store.isLive g)
  let settled := { h with roots }
  let told :=
    match settlement with
    | .dropped => settled
    | .subsumed above =>
      (settled.log (line .debug "subsumed" (root.display ++ " by " ++ above.display))).update
        (·.releaseRoot root)
    | .installed released => released.foldl (fun h r => h.update (·.releaseRoot r)) settled
  { told with roots := told.roots.announce g ok }

/-- The end of a first crawl. -/
def finishWatch (root : Path) (g : Generation) (result : Except IndexError Bool)
    (remarks : List Diagnostic) (h : Host) : Host × Except IndexError Unit :=
  match result with
  | .error e =>
    let closed := (h.settle root g false).update (·.closeRoot root)
    let message := "[watcher] failed to watch " ++ root.display ++ ": " ++ e.message
    (closed.log ⟨.error, .watches, message⟩, .error (e.withDiagnostics remarks))
  | .ok _ =>
    let settled := h.settle root g true
    if settled.store.isStale g then
      (settled.log (line .debug "unwatched during crawl" root.display), .ok ())
    else
      let index := settled.store.index
      let summary :=
        root.display ++ " (" ++ toString (index.countBelow root) ++ " files, " ++
          toString index.directoryCount ++ " directories, " ++ settled.store.backend.name ++ ")"
      let told := remarks.foldl warn (settled.log (line .info "watching" summary))
      (told,
        if remarks.any Diagnostic.isError then .error (.diagnostics root.spelling remarks)
        else .ok ())

/-- Where the first crawl of a root stands is where its watch stands. -/
def resumeWatch (root : Path) (g : Generation) (roots : Roots) :
    Scope × Crawl.Progress → Host × Progress
  | (s, .waiting task) => (⟨s.store, roots⟩, .waiting (.crawling root g task s.remarks))
  | (s, .finished result) =>
    let (h, reply) := finishWatch root g result s.remarks ⟨s.store, roots⟩
    (h, .finished (.watched reply))

/-- A watch that failed before its crawl began. -/
def failWatch (root : Path) (g : Generation) (e : IndexError) (h : Host) : Host × Progress :=
  let (h, reply) := finishWatch root g (.error e) [] h
  (h, .finished (.watched reply))

/-- Starts a watch. -/
def watch (root : Path) (h : Host) : Host × Progress :=
  match h.roots.plan root with
  | .join above g =>
    (h.log (line .debug "joining" (root.display ++ " under pending " ++ above.display)),
      .waiting (.joining root g))
  | .covered above =>
    (h.log (line .debug "covered" (root.display ++ " by " ++ above.display)),
      .finished (.watched (.ok ())))
  | .drain below =>
    (h.log (line .debug "draining"
        (root.display ++ " (" ++ toString below.length ++ " pending below)")),
      .waiting (.draining root below))
  | .start subsumed =>
    let (store, g) := h.store.freshGeneration
    let reserved : Host := { store, roots := h.roots.reserve root g }
    let released := subsumed.foldl
      (fun h r =>
        (h.log (line .debug "subsumed" (r.display ++ " by " ++ root.display))).update
          (·.releaseRoot r))
      reserved
    (released, .waiting (.looking root g))

/-- The end of a refresh. -/
def finishRefresh (path : Path) (result : Except IndexError Bool) (remarks : List Diagnostic)
    (h : Host) : Host × Except IndexError Bool :=
  match result with
  | .error e => (h, .error (e.withDiagnostics remarks))
  | .ok changed =>
    if remarks.any Diagnostic.isError then (h, .error (.diagnostics path.spelling remarks))
    else (remarks.foldl warn h, .ok changed)

/-- Where the crawl of a path stands is where its refresh stands. -/
def resumeRefresh (path : Path) (g : Generation) (roots : Roots) :
    Scope × Crawl.Progress → Host × Progress
  | (s, .waiting task) => (⟨s.store, roots⟩, .waiting (.refreshing path g task s.remarks))
  | (s, .finished result) =>
    let (h, reply) := finishRefresh path result s.remarks ⟨s.store, roots⟩
    (h, .finished (.refreshed reply))

/-- Starts a refresh.  A path that no root covers is nobody's business. -/
def refresh (policy : Policy) (path : Path) (h : Host) : Host × Progress :=
  match h.roots.generationFor path with
  | none =>
    (h.log (line .debug "unwatched path" path.display), .finished (.refreshed (.ok false)))
  | some g =>
    resumeRefresh path g h.roots ((refreshCrawl policy g).refresh path { store := h.store })

end Host

namespace Call

def isBlocked (roots : Roots) : Call → Bool
  | .joining _ g => (roots.outcome? g).isNone
  | .draining _ below => below.any fun g => (roots.outcome? g).isNone
  | _ => false

/-- The end of one wait.  A blocked call stays where it is. -/
def step (policy : Policy) (world : World) (schedule : List Nat) (call : Call) (h : Host) :
    Host × Progress :=
  match call with
  | .joining root g =>
    match h.roots.outcome? g with
    | none => (h, .waiting call)
    | some true => (h, .finished (.watched (.ok ())))
    | some false => (h, .finished (.watched (.error (.watchFailed root.spelling))))
  | .draining root below =>
    match below.filter fun g => (h.roots.outcome? g).isNone with
    | [] => h.watch root
    | left => (h, .waiting (.draining root left))
  | .looking root g =>
    match world.stat root with
    | .error cause =>
      h.failWatch root g
        (if cause.isNotFound then .notFound root.spelling else .io root.spelling cause)
    | .ok status =>
      if status.kind = Kind.directory then
        (h.update (·.askRoot root), .waiting (.opening root g status))
      else h.failWatch root g (.notADirectory root.spelling)
  | .opening root g status =>
    match world.openRoot root with
    | .error e => h.failWatch root g (.watch e)
    | .ok () =>
      Host.resumeWatch root g h.roots
        ((firstCrawl policy g).addDirectory root status { store := h.store.rootTaken root })
  | .crawling root g task remarks =>
    Host.resumeWatch root g h.roots
      (task.step (firstCrawl policy g) world schedule ⟨h.store, remarks⟩)
  | .refreshing path g task remarks =>
    Host.resumeRefresh path g h.roots
      (task.step (refreshCrawl policy g) world schedule ⟨h.store, remarks⟩)

end Call

end ProjectIndex.Watch
