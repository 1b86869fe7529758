import ProjectIndex.Watch.Call

/-!
# Requests as they are spelled

Whoever asks has a spelling and not a path.  A question is answered about the path that its spelling
stands for.  A root is first seen from the current directory, and the empty spelling names no root.
Only where the disk has to decide whether something exists is it asked about the spelling itself.
-/

namespace ProjectIndex.Watch

/-- What can be asked about a path. -/
inductive Question where
  | isFile
  | isDirectory
  /-- Whether it exists, as far as the index knows. -/
  | existence
  /-- Whether it exists, with a look at the disk where the index does not know. -/
  | existenceOnDisk
  | status
  /-- The known entries of a directory. -/
  | children
  | filesBelow
  | countBelow
  /-- The manifest of a directory. -/
  | manifest
  /-- The nearest manifest at or above. -/
  | ownedManifest
  deriving DecidableEq, Repr

/-- What a question is answered with. -/
inductive Answer where
  | flag (holds : Bool)
  | existence (known : Existence)
  | status (result : Except IndexError Status)
  | paths (paths : List Path)
  | count (count : Nat)
  | manifest (definition : Option Definition)

namespace Host

/-- The status of a known path. -/
def status (h : Host) (p : Path) : Except IndexError Status :=
  match h.store.index.status? p with
  | some status => .ok status
  | none => .error (.notFound p.spelling)

/-- Answers a question about what a spelling stands for. -/
def answer (h : Host) (d : Disk) (question : Question) (s : Spelling) : Answer :=
  let p := Path.ofSpelling s
  let index := h.store.index
  match question with
  | .isFile => .flag (index.isFile p)
  | .isDirectory => .flag (index.isDirectory p)
  | .existence => .existence (h.exists? p)
  | .existenceOnDisk => .flag (h.existsOnDisk d s)
  | .status => .status (h.status p)
  | .children => .paths (index.children p)
  | .filesBelow => .paths (index.filesBelow p)
  | .countBelow => .count (index.countBelow p)
  | .manifest => .manifest (index.manifest? p)
  | .ownedManifest => .manifest (index.ownedManifest? p)

/-- Starts the watch of a root that somebody spelled. -/
def watchSpelled (d : Disk) (s : Spelling) (h : Host) : Host × Progress :=
  match d.absolute s with
  | .ok root => h.watch root
  | .error cause => (h, .finished (.watched (.error (.io s cause))))

/-- Withdraws the watch on a root that somebody spelled. -/
def unwatchSpelled (d : Disk) (s : Spelling) (h : Host) : Host × Bool :=
  match d.absolute s with
  | .ok root => h.unwatch root
  | .error _ => (h, false)

/-- Starts the refresh of what a spelling stands for. -/
def refreshSpelled (policy : Policy) (s : Spelling) (h : Host) : Host × Progress :=
  h.refresh policy (.ofSpelling s)

end Host

end ProjectIndex.Watch
