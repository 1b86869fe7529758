import ProjectIndex.Backend
import ProjectIndex.Settings.Basic
import ProjectIndex.World

/-!
# Subscriptions of the operating system

What the system answers when a subscription is asked for: it takes every path that leads somewhere.
-/

namespace ProjectIndex

/-- The way to subscribe that a kind of backend stands for. -/
def BackendKind.style (kind : BackendKind) : Backend.Style :=
  match kind.resolve with
  | .recursive => .recursive
  | _ => .perDirectory

/-- A path that cannot be watched, and is named again in the words. -/
def SubscriptionError.about (reason : String) (p : Spelling) : SubscriptionError :=
  .pathFailed p (reason ++ " about [" ++ Quoted.bytes p.bytes ++ "]")

/-- The system's answer to a subscription of one path, which `named` says is repeated in the words.
-/
def Disk.subscribe (d : Disk) (named : Bool) (p : Path) : Except SubscriptionError Unit :=
  match d.stat p.spelling with
  | .ok _ => .ok ()
  | .error cause =>
    let reason := if cause.isNotFound then "No path was found." else cause.message
    .error (if named then .about reason p.spelling else .pathFailed p.spelling reason)

/-- The system can report changes only to a program that has something to run the waiting on. -/
def SubscriptionError.noRuntime : SubscriptionError :=
  .initFailed "the native watcher needs a tokio runtime"

/-- The world of a disk on which the system is asked for subscriptions. -/
def World.native (style : Backend.Style) (d : Disk) : World :=
  let free : Path → Except SubscriptionError Unit := fun _ => .ok ()
  match style with
  | .recursive => { World.ofDisk d with openRoot := d.subscribe false }
  | .perDirectory => { World.ofDisk d with watchDirectory := d.subscribe true }
  | .external _ => { World.ofDisk d with openRoot := free }

end ProjectIndex
