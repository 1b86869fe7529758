import ProjectIndex.Crawl.Task
import ProjectIndex.Watch.Roots

/-!
# The host of watches

The store together with the watched roots, and the requests that touch no disk: withdrawing a watch,
and the questions that the index alone can answer.
-/

namespace ProjectIndex.Watch

structure Host where
  store : Store
  roots : Roots := {}

def line (level : Log.Level) (name details : String) : Log.Line :=
  .event level .watches "watcher" name details

namespace Host

def update (h : Host) (f : Store → Store) : Host :=
  { h with store := f h.store }

def log (h : Host) (line : Log.Line) : Host :=
  h.update (·.log line)

def watched (h : Host) : List Path :=
  h.roots.active.keys

/-- Whether `p` exists, without a look at the disk. -/
def exists? (h : Host) (p : Path) : Existence :=
  h.store.index.exists? p (h.roots.isInFlight p)

/-- Whether something exists, with a look at the disk where the index does not know. -/
def existsOnDisk (h : Host) (d : Disk) (s : Spelling) : Bool :=
  match h.exists? (.ofSpelling s) with
  | .exists => true
  | .missing => false
  | .unknown => (d.statEntry s).isOk

/-- Cancels generations, closes the root and forgets everything below it. -/
def forget (root : Path) (ended : List Generation) (s : Store) : Store :=
  let closed := (ended.foldl Store.cancel s).closeRoot root
  let (left, gone) := closed.evict root
  left.log (line .info "unwatched"
    (root.display ++ " (" ++ toString gone.length ++ " files)"))

/-- Withdraws the watch on a root, together with the first crawls that run at or below it.  Says
whether there was anything to withdraw. -/
def unwatch (h : Host) (root : Path) : Host × Bool :=
  match h.roots.withdraw root with
  | (_, []) => (h, false)
  | (roots, ended) => ({ store := forget root ended h.store, roots }, true)

/-- Withdraws every watch. -/
def unwatchAll (h : Host) : Host :=
  (h.roots.active.keys ++ h.roots.pending.keys).foldl (fun h root => (h.unwatch root).1) h

/-- One line about the watched roots. -/
def describeRoots (h : Host) : String :=
  "WatchOrchestrator \x7b backend: " ++ Quoted.text h.store.backend.name ++ ", pending: " ++
    toString h.roots.pending.size ++ ", active: " ++ toString h.roots.active.size ++ " \x7d"

def describe (h : Host) : String :=
  "MemoryFs \x7b files: " ++ toString h.store.index.fileCount ++ ", directories: " ++
    toString h.store.index.directoryCount ++ ", watches: " ++ h.describeRoots ++ " \x7d"

end Host

end ProjectIndex.Watch
