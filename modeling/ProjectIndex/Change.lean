import ProjectIndex.Path.Basic

/-!
# Changes

A change that the operating system reports, reduced to the place where something happened: the
directory it was reported in and the name of the entry.  What kind of change it was is dropped on
purpose, because the entry is looked at again in any case.
-/

namespace ProjectIndex

structure Change where
  directory : Path
  filename : Spelling
  deriving DecidableEq, Repr

namespace Change

/-- Splits a path into directory and name; a path that does not end in a name has neither. -/
def ofPath? (p : Path) : Option Change := do
  let directory ← p.parent
  let name ← p.name?
  return ⟨directory, ⟨name⟩⟩

/-- The path that a change is about. -/
def resolve (c : Change) : Path :=
  c.directory.join c.filename

def dropRepeats {α : Type} [DecidableEq α] : List α → List α
  | [] => []
  | [a] => [a]
  | a :: b :: rest => if a = b then dropRepeats (b :: rest) else a :: dropRepeats (b :: rest)

/-- What was reported about some paths.  Having been read is no change. -/
structure Report where
  isAccess : Bool
  paths : List Spelling
  deriving DecidableEq, Repr

/-- The changes of a report, one for each path, equal neighbours merged. -/
def ofReport (r : Report) : List Change :=
  if r.isAccess then []
  else dropRepeats (r.paths.filterMap fun s => ofPath? (.ofSpelling s))

end Change

end ProjectIndex
