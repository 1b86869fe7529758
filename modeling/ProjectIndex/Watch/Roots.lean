import ProjectIndex.Store.Basic

/-!
# Watched roots

Which roots are watched.  A root is pending while its first crawl runs and active afterwards.  At
most one of them covers any path: a watch on a path that is covered joins what is there, and a watch
above others waits for the pending ones and takes over the active ones.

`plan`, `reserve`, `settle` and `withdraw` are the four critical sections of the table; between two
of them anything may happen.
-/

namespace ProjectIndex.Watch

structure Roots where
  /-- Roots whose first crawl runs, with the generation it runs in. -/
  pending : Table Generation := ∅
  /-- Roots that are watched, with the generation that refreshes below them run in. -/
  active : Table Generation := ∅
  /-- The first crawls that have ended, and whether they succeeded. -/
  outcomes : List (Generation × Bool) := []

/-- What a watch has to do first. -/
inductive Plan where
  /-- A pending root covers the path: wait for its crawl. -/
  | join (root : Path) (generation : Generation)
  /-- An active root covers the path: nothing. -/
  | covered (root : Path)
  /-- Crawls below have to end. -/
  | drain (below : List Generation)
  /-- Crawl, in place of the active roots below. -/
  | start (subsumed : List Path)
  deriving DecidableEq, Repr

/-- What became of a root whose crawl has ended. -/
inductive Settlement where
  /-- The crawl failed or its watch was withdrawn. -/
  | dropped
  /-- An active root covers it. -/
  | subsumed (root : Path)
  /-- It is active, in place of the active roots below. -/
  | installed (released : List Path)
  deriving DecidableEq, Repr

namespace Roots

/-- The pending root at or above a path. -/
def pendingCovering (w : Roots) (p : Path) : Option (Path × Generation) :=
  w.pending.toList.find? fun entry => entry.1.isAncestorOrSelfOf p

/-- The active root at or above a path. -/
def activeCovering (w : Roots) (p : Path) : Option (Path × Generation) :=
  w.active.toList.find? fun entry => entry.1.isAncestorOrSelfOf p

/-- The generations of the pending roots strictly below a path. -/
def pendingBelow (w : Roots) (root : Path) : List Generation :=
  (w.pending.toList.filter fun entry => entry.1.isDescendantOf root).map (·.2)

/-- The active roots strictly below a path. -/
def activeBelow (w : Roots) (root : Path) : List Path :=
  w.active.keys.filter (·.isDescendantOf root)

/-- The root at or above `p` is still in its first crawl. -/
def isInFlight (w : Roots) (p : Path) : Bool :=
  (w.pendingCovering p).isSome

/-- The generation that a refresh of a path runs in. -/
def generationFor (w : Roots) (p : Path) : Option Generation :=
  ((w.activeCovering p) <|> (w.pendingCovering p)).map (·.2)

/-- Whether a first crawl succeeded, once it has ended. -/
def outcome? (w : Roots) (g : Generation) : Option Bool :=
  w.outcomes.lookup g

def plan (w : Roots) (root : Path) : Plan :=
  match w.pendingCovering root with
  | some (above, g) => .join above g
  | none =>
    match w.activeCovering root with
    | some (above, _) => .covered above
    | none =>
      match w.pendingBelow root with
      | [] => .start (w.activeBelow root)
      | below => .drain below

def release (w : Roots) (roots : List Path) : Roots :=
  { w with active := roots.foldl (fun active root => active.erase root) w.active }

/-- Makes a root pending, in place of the active roots below it. -/
def reserve (w : Roots) (root : Path) (g : Generation) : Roots :=
  let released := w.release (w.activeBelow root)
  { released with pending := released.pending.insert root g }

/-- The crawl of a pending root has ended; `wanted` says that it succeeded and its watch was not
withdrawn. -/
def settle (w : Roots) (root : Path) (g : Generation) (wanted : Bool) : Roots × Settlement :=
  let retired := { w with pending := w.pending.erase root }
  if !wanted then (retired, .dropped)
  else
    match retired.activeCovering root with
    | some (above, _) => (retired, .subsumed above)
    | none =>
      let below := retired.activeBelow root
      let left := retired.release below
      ({ left with active := left.active.insert root g }, .installed below)

/-- Tells those that wait how the first crawl of a generation ended. -/
def announce (w : Roots) (g : Generation) (ok : Bool) : Roots :=
  { w with outcomes := (g, ok) :: w.outcomes }

/-- Takes a root out of the active ones, and says which generations end with it: its own, and those
of the pending roots at or below it. -/
def withdraw (w : Roots) (root : Path) : Roots × List Generation :=
  let pending :=
    (w.pending.toList.filter fun entry => root.isAncestorOrSelfOf entry.1).map (·.2)
  ({ w with active := w.active.erase root }, pending ++ (w.active[root]?).toList)

end Roots

end ProjectIndex.Watch
