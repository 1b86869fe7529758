import ProjectIndex.Path.Basic
import ProjectIndex.Status

/-!
# Notices

The messages that the index sends: a file appeared, changed or went away.  Directories are never
announced.
-/

namespace ProjectIndex

inductive Notice where
  | new (path : Path)
  | changed (path : Path) (old now : Status)
  | deleted (path : Path)
  deriving DecidableEq, Repr, Inhabited

namespace Notice

def path : Notice → Path
  | .new p => p
  | .changed p _ _ => p
  | .deleted p => p

/-- The line that the watch command prints. -/
def line : Notice → String
  | .new p => "+ " ++ p.display
  | .changed p old now =>
    "~ " ++ p.display ++ " (" ++ toString old.size ++ " -> " ++ toString now.size ++ " bytes)"
  | .deleted p => "- " ++ p.display

end Notice

end ProjectIndex
