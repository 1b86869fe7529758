/-!
# Status of a path

What the index remembers about an entry: its kind, its size and its time of last change.
-/

namespace ProjectIndex

/-- The kind of an entry.  Links and special files are `unknown`. -/
inductive Kind where
  | unknown
  | directory
  | file
  deriving DecidableEq, Repr, Inhabited

def Kind.word : Kind → String
  | .unknown => "unknown"
  | .directory => "directory"
  | .file => "file"

/-- A snapshot of an entry.  The size of a directory is zero; `mtime` counts milliseconds since the
epoch. -/
structure Status where
  kind : Kind
  size : Nat
  mtime : Int
  deriving DecidableEq, Repr, Inhabited

end ProjectIndex
