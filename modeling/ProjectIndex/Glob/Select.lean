import ProjectIndex.Glob.Pattern
import ProjectIndex.Index.Basic

/-!
# Selecting files by patterns

The files below a directory whose way from there matches one of some patterns and none of others.
-/

namespace ProjectIndex.Glob

/-- Files must match one of `patterns`, all if there is none, and none of `ignore`. -/
structure Selection where
  patterns : List String := []
  ignore : List String := []

/-- A relative path matches one of the patterns; one that is not UTF-8 matches nothing. -/
def anyMatches (patterns : List Pattern) (relative : Spelling) : Bool :=
  match Utf8.text? relative.bytes with
  | none => false
  | some text => patterns.any fun p => Pattern.matches p text

/-- The selected files below a directory, sorted. -/
def select (ix : Index) (dir : Path) (s : Selection) : Except IndexError (List Path) := do
  let wanted ← s.patterns.mapM parse
  let unwanted ← s.ignore.mapM parse
  return (ix.filesBelow dir).filter fun file =>
    match file.relativeTo dir with
    | none => false
    | some relative =>
      (wanted.isEmpty || anyMatches wanted relative) && !anyMatches unwanted relative

end ProjectIndex.Glob
