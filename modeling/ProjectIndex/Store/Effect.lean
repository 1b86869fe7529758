import ProjectIndex.Log.Line
import ProjectIndex.Manifest.Basic
import ProjectIndex.Notice

/-!
# Effects

What the outside world sees of a crawl, in the order in which it happens: notices to subscribers,
calls to the backend and to the projects, summaries sent to workers, and lines of the log.  A call
is recorded when it is made, before its outcome is known.
-/

namespace ProjectIndex

/-- Calls to the backend. -/
inductive BackendCall where
  | openRoot
  | watchDirectory
  | closeRoot
  | releaseRoot
  | forgetDirectory
  deriving DecidableEq, Repr, Inhabited

/-- Calls to the projects. -/
inductive ProjectCall where
  | declare
  | initialized
  | associate
  deriving DecidableEq, Repr, Inhabited

inductive Effect where
  | notice (notice : Notice)
  | backend (call : BackendCall) (path : Path)
  | project (call : ProjectCall) (path : Path)
  /-- A manifest was sent to the workers. -/
  | broadcast (summary : Summary)
  /-- A path was dealt with. -/
  | tick (path : Path)
  | log (line : Log.Line)
  deriving DecidableEq, Repr, Inhabited

end ProjectIndex
