import ProjectIndex.Error
import ProjectIndex.Log.Line
import ProjectIndex.Text.Quoted

/-!
# Subscriptions

The operating system reports changes only where it was asked to.  There are two ways to ask: once
for a whole tree, or once for each directory as a crawl comes to it.  The second way keeps the set
of directories it has asked about, which is the set of directories that the index knows.

Whether the system takes a subscription is its own answer and is passed in.
-/

namespace ProjectIndex

/-- The ways to subscribe. -/
inductive Backend.Style where
  | perDirectory
  | recursive
  /-- Subscriptions are somebody else's business. -/
  | external (name : String)
  deriving DecidableEq, Repr, Inhabited

structure Backend where
  style : Backend.Style
  /-- The paths that the system was asked about. -/
  subscribed : PathSet := ∅

namespace Backend

/-- The name under which a way to subscribe is announced. -/
def name (b : Backend) : String :=
  match b.style with
  | .perDirectory => "per-directory"
  | .recursive => "recursive"
  | .external name => name

def count (b : Backend) : Nat :=
  b.subscribed.size

/-- The subscriptions at or below `top`.  They stand together in the order of paths, so the search
stops at the first one that is not below. -/
def closing (b : Backend) (top : Path) : List Path :=
  ((b.subscribed.toList.dropWhile fun p => compare p top == .lt).takeWhile top.isAncestorOrSelfOf)

/-- Drops the subscriptions at or below `top` and says how many there were. -/
def unsubscribe (b : Backend) (top : Path) : Backend × Nat :=
  let gone := b.closing top
  ({ b with subscribed := gone.foldl (fun set p => set.erase p) b.subscribed }, gone.length)

/-- A line of the log about subscriptions. -/
def line (name details : String) : Log.Line :=
  .event .debug .backend "watcher" name details

/-- What the log says about a backend that was just made. -/
def announce (b : Backend) : List Log.Line :=
  let built := Log.Line.event .debug .facade "memory_fs" "built" ("backend " ++ b.name)
  match b.style with
  | .external _ => [built]
  | _ => [line "backend" b.name, built]

/-- What the system says when it is asked to stop what it never started. -/
def neverStarted (root : Path) : String :=
  "No watch was found. about [" ++ Quoted.bytes root.spelling.bytes ++ "]"

/-- A root is about to be crawled, and the system took the subscription. -/
def openRoot (b : Backend) (root : Path) : Backend × List Log.Line :=
  match b.style with
  | .recursive =>
    ({ b with subscribed := b.subscribed.insert root },
      [line "subscribed" (root.display ++ " (recursive)")])
  | _ => (b, [])

/-- A crawl came to a directory; `taken` is the system's answer.  The subscription is asked for
again even where there is one, because the directory may be a new one under an old name. -/
def watchDirectory (b : Backend) (dir : Path) (taken : Bool) : Backend :=
  match b.style with
  | .perDirectory =>
    { b with
      subscribed := if taken then b.subscribed.insert dir else b.subscribed.erase dir }
  | _ => b

/-- A root and everything below it is not watched any more. -/
def closeRoot (b : Backend) (root : Path) : Backend × List Log.Line :=
  match b.style with
  | .perDirectory =>
    let (b, n) := b.unsubscribe root
    (b, [line "unsubscribed" (root.display ++ " (" ++ toString n ++ " directories)")])
  | .recursive =>
    if b.subscribed.contains root then ({ b with subscribed := b.subscribed.erase root }, [])
    else (b, [line "unwatch failed" (root.display ++ ": " ++ neverStarted root)])
  | .external _ => (b, [])

/-- A directory left the index. -/
def forgetDirectory (b : Backend) (dir : Path) : Backend × List Log.Line :=
  match b.style with
  | .perDirectory =>
    let (b, n) := b.unsubscribe dir
    let told := line "forgot" (dir.display ++ " (" ++ toString n ++ " directories)")
    (b, if n = 0 then [] else [told])
  | _ => (b, [])

/-- A root became part of a larger one, which still needs what lies below. -/
def releaseRoot (b : Backend) (root : Path) : Backend × List Log.Line :=
  match b.style with
  | .recursive => b.closeRoot root
  | _ => (b, [])

end Backend

end ProjectIndex
