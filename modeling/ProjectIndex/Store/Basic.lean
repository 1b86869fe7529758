import ProjectIndex.Backend
import ProjectIndex.Index.Basic
import ProjectIndex.Projects
import ProjectIndex.Store.Effect

/-!
# The store

Everything that crawls share: the index, the projects, the subscriptions, the numbers that were
given out, and the generations that were cancelled.  A crawl, a refresh and the withdrawal of a
watch are functions on stores, each of them between two of its waits.

The store also keeps the trace of effects, the newest first.
-/

namespace ProjectIndex

/-- The number of a generation.  Each watch crawls in a generation of its own, and withdrawing the
watch cancels it. -/
abbrev Generation := Nat

structure Store where
  index : Index
  projects : Projects := {}
  backend : Backend
  /-- The number of the next manifest. -/
  nextManifest : ManifestId := 1
  /-- The number of the next generation. -/
  nextGeneration : Generation := 0
  cancelled : List Generation := []
  /-- What happened so far, the newest first. -/
  trace : List Effect := []

namespace Store

/-- A store that knows nothing. -/
def empty (manifestName : Name) (style : Backend.Style) : Store where
  index := .empty manifestName
  backend := { style }

def isStale (s : Store) (g : Generation) : Bool :=
  s.cancelled.contains g

def isLive (s : Store) (g : Generation) : Bool :=
  !s.isStale g

/-- Cancels a generation: nothing is written for it from now on. -/
def cancel (s : Store) (g : Generation) : Store :=
  { s with cancelled := g :: s.cancelled }

/-- A generation that nobody has used before. -/
def freshGeneration (s : Store) : Store × Generation :=
  ({ s with nextGeneration := s.nextGeneration + 1 }, s.nextGeneration)

def emit (s : Store) (e : Effect) : Store :=
  { s with trace := e :: s.trace }

def emitAll (s : Store) (es : List Effect) : Store :=
  es.foldl emit s

def log (s : Store) (line : Log.Line) : Store :=
  s.emit (.log line)

/-- The effects since the store was `old`, in the order in which they happened. -/
def since (s : Store) (old : Store) : List Effect :=
  (s.trace.take (s.trace.length - old.trace.length)).reverse

/-- Forgets a path and everything below it without notices. -/
def evict (s : Store) (p : Path) : Store × List Path :=
  let (index, gone) := s.index.evict p
  let s := { s with index }
  let count := toString gone.length
  if gone.isEmpty then (s, gone)
  else
    (s.log (.event .debug .index "index" "evicted" (p.display ++ " (" ++ count ++ " files)")), gone)

/-- Forgets a path and everything below it, with a notice for each file. -/
def delete (s : Store) (p : Path) : Store :=
  let (s, gone) := s.evict p
  s.emitAll (gone.map fun file => .notice (.deleted file))

/-- The crawl came to a directory and asks for a subscription; the answer comes later. -/
def askDirectory (s : Store) (dir : Path) : Store :=
  s.emit (.backend .watchDirectory dir)

/-- The system's answer to the subscription of a directory. -/
def directoryAnswered (s : Store) (dir : Path) (taken : Bool) : Store :=
  { s with backend := s.backend.watchDirectory dir taken }

/-- A root is about to be crawled and a subscription is asked for; the answer comes later. -/
def askRoot (s : Store) (root : Path) : Store :=
  s.emit (.backend .openRoot root)

/-- The system took the subscription of a root. -/
def rootTaken (s : Store) (root : Path) : Store :=
  let (backend, lines) := s.backend.openRoot root
  { s with backend }.emitAll (lines.map .log)

def closeRoot (s : Store) (root : Path) : Store :=
  let (backend, lines) := s.backend.closeRoot root
  { s with backend }.emitAll (.backend .closeRoot root :: lines.map .log)

def releaseRoot (s : Store) (root : Path) : Store :=
  let (backend, lines) := s.backend.releaseRoot root
  { s with backend }.emitAll (.backend .releaseRoot root :: lines.map .log)

def forgetDirectory (s : Store) (dir : Path) : Store :=
  let (backend, lines) := s.backend.forgetDirectory dir
  { s with backend }.emitAll (.backend .forgetDirectory dir :: lines.map .log)

/-- A project is being declared; the declaration comes into force later. -/
def askProject (s : Store) (root : Path) : Store :=
  s.emit (.project .declare root)

/-- The declaration of a project comes into force. -/
def projectDeclared (s : Store) (root : Path) : Store :=
  let projects := s.projects.declare root
  let declared := { s with projects }
  if projects.size = s.projects.size then declared
  else declared.log (.event .info .projects "projects" "declared" root.display)

/-- The crawl of a directory has ended; if it is the root of a project, the project is complete. -/
def directoryDone (s : Store) (dir : Path) : Store :=
  if s.projects.isRoot dir then
    ({ s with projects := s.projects.markInitialized dir }.emit (.project .initialized dir)).log
      (.event .debug .crawler "crawler" "project initialized" dir.display)
  else s

end Store

end ProjectIndex
