import ProjectIndex.Disk.Basic

/-!
# The world outside

The answers that a crawl gets when it asks: about the disk, about subscriptions, and what the
loading of a project remarks.  Each question is put to the world of that moment, so a disk that
changes while a crawl is on its way is a different `World` at each step.
-/

namespace ProjectIndex

structure World where
  /-- The status of the entry itself. -/
  entry : Path → Except DiskError Status
  /-- The status of what the path names in the end. -/
  stat : Path → Except DiskError Status
  /-- The entries of a directory. -/
  children : Path → Except DiskError (List Path)
  /-- The bytes of a file. -/
  contents : Path → Except DiskError (List UInt8)
  /-- The system's answer to the subscription of a root. -/
  openRoot : Path → Except SubscriptionError Unit := fun _ => .ok ()
  /-- The system's answer to the subscription of a directory. -/
  watchDirectory : Path → Except SubscriptionError Unit := fun _ => .ok ()
  /-- The remarks made when the project of a root is loaded. -/
  projectRemarks : Path → List Diagnostic := fun _ => []

/-- The world in which a disk answers and everything else succeeds. -/
def World.ofDisk (d : Disk) : World where
  entry p := d.statEntry p.spelling
  stat p := d.stat p.spelling
  children p := d.children p
  contents p := d.contents p.spelling

end ProjectIndex
