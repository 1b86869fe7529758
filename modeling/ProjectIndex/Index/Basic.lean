import ProjectIndex.Manifest.Basic
import ProjectIndex.Notice

/-!
# The path index

Everything that is known about the watched trees: the directories and files with their status, for
each directory the list of its known entries, and for each directory its manifest.  The tables are
plain values and every operation is total.

A crawl writes on behalf of a generation.  Once the generation is cancelled its writes are refused
as stale, which is what keeps a crawl that is winding down from bringing back what was evicted.

`listings` may have an entry for a directory that is not known itself: the parent of a root is
listed although nobody crawled it.  Such an entry disappears with its last member.
-/

namespace ProjectIndex

/-- The answer of a question that the index alone may be unable to decide. -/
inductive Existence where
  | exists
  | missing
  /-- The parent was never crawled, or its crawl has not ended. -/
  | unknown
  deriving DecidableEq, Repr, Inhabited

def Existence.word : Existence → String
  | .exists => "exists"
  | .missing => "missing"
  | .unknown => "unknown"

/-- What became of a write. -/
inductive Insertion where
  /-- The generation is cancelled and nothing was written. -/
  | stale
  | inserted
  | replaced (old : Status)
  deriving DecidableEq, Repr, Inhabited

structure Index where
  /-- The name of manifest files. -/
  manifestName : Name
  directories : Table Status := ∅
  files : Table Status := ∅
  listings : Table PathSet := ∅
  manifests : Table Definition := ∅

namespace Index

def empty (manifestName : Name) : Index :=
  { manifestName }

def isFile (ix : Index) (p : Path) : Bool :=
  ix.files.contains p

def isDirectory (ix : Index) (p : Path) : Bool :=
  ix.directories.contains p

def status? (ix : Index) (p : Path) : Option Status :=
  ix.files[p]? <|> ix.directories[p]?

def knows (ix : Index) (p : Path) : Bool :=
  (ix.status? p).isSome

/-- The parent of `p` is a known directory. -/
def knowsParent (ix : Index) (p : Path) : Bool :=
  p.parent.any ix.isDirectory

/-- Whether `p` exists, as far as the index can tell.  `inFlight` says that a root above `p` is
still being crawled. -/
def exists? (ix : Index) (p : Path) (inFlight : Bool) : Existence :=
  if ix.isFile p || ix.isDirectory p then .exists
  else if inFlight then .unknown
  else if ix.knowsParent p then .missing
  else .unknown

/-- The gate in front of every write: an unknown path, or one whose time of change differs. -/
def hasChanged (ix : Index) (p : Path) (s : Status) : Bool :=
  match ix.status? p with
  | some old => old.mtime != s.mtime
  | none => true

def listChild (ix : Index) (p : Path) : Index :=
  match p.parent with
  | none => ix
  | some dir => { ix with listings := ix.listings.insert dir ((ix.listings.getD dir ∅).insert p) }

/-- Takes a path out of its parent's listing.  The listing of an unknown parent goes with its last
member. -/
def unlistChild (ix : Index) (p : Path) : Index :=
  match p.parent with
  | none => ix
  | some dir =>
    match ix.listings[dir]? with
    | none => ix
    | some listing =>
      let left := listing.erase p
      if left.isEmpty && !ix.isDirectory dir then { ix with listings := ix.listings.erase dir }
      else { ix with listings := ix.listings.insert dir left }

/-- What became of a write over `old`. -/
def insertion (old : Option Status) : Insertion :=
  match old with
  | none => .inserted
  | some s => .replaced s

/-- Registers a directory on behalf of a generation. -/
def insertDirectory (ix : Index) (p : Path) (s : Status) (live : Bool) : Index × Insertion :=
  if !live then (ix, .stale)
  else
    let written : Index :=
      { ix with
        directories := ix.directories.insert p s
        listings := if ix.listings.contains p then ix.listings else ix.listings.insert p ∅ }
    (written.listChild p, insertion ix.directories[p]?)

/-- Registers a file on behalf of a generation. -/
def insertFile (ix : Index) (p : Path) (s : Status) (live : Bool) : Index × Insertion :=
  if !live then (ix, .stale)
  else
    let written : Index := { ix with files := ix.files.insert p s }
    (written.listChild p, insertion ix.files[p]?)

def children (ix : Index) (dir : Path) : List Path :=
  ((ix.listings[dir]?).map (·.toList)).getD []

/-- The files below `dir` in the order of a walk that goes at most `depth` listings deep. -/
def filesWithin (ix : Index) : Nat → Path → List Path
  | 0, _ => []
  | depth + 1, dir =>
    (ix.children dir).flatMap fun child =>
      if ix.isFile child then [child]
      else if ix.isDirectory child then ix.filesWithin depth child
      else []

/-- The depth that no walk exceeds: each level enters another known directory. -/
def depthBound (ix : Index) : Nat :=
  ix.directories.size + 1

def filesBelow (ix : Index) (dir : Path) : List Path :=
  sortByPath id (ix.filesWithin ix.depthBound dir)

def countBelow (ix : Index) (dir : Path) : Nat :=
  (ix.filesWithin ix.depthBound dir).length

def allFiles (ix : Index) : List Path :=
  ix.files.keys

def fileCount (ix : Index) : Nat :=
  ix.files.size

def directoryCount (ix : Index) : Nat :=
  ix.directories.size

/-- Forgets a file; with a manifest goes what it declared. -/
def forgetFile (ix : Index) (p : Path) : Index :=
  let manifests :=
    if p.basename = some ix.manifestName then
      match p.parent with
      | some dir => ix.manifests.erase dir
      | none => ix.manifests
    else ix.manifests
  { ix with files := ix.files.erase p, manifests }

/-- Forgets `p` and everything listed below it, at most `depth` levels deep, and says which files
went, in the order of the walk. -/
def forgetWithin : Nat → Index → Path → Index × List Path
  | 0, ix, _ => (ix, [])
  | depth + 1, ix, p =>
    if ix.isDirectory p then
      let entries := ix.children p
      let bare : Index :=
        { ix with directories := ix.directories.erase p, listings := ix.listings.erase p }
      let (left, gone) :=
        entries.foldl
          (fun (ix, gone) child =>
            let (ix, more) := forgetWithin depth ix child
            (ix, gone ++ more))
          (bare, [])
      ({ left with manifests := left.manifests.erase p }, gone)
    else if ix.isFile p then (ix.forgetFile p, [p])
    else (ix, [])

/-- Forgets a path and everything below it without a word, and says which files went. -/
def evict (ix : Index) (p : Path) : Index × List Path :=
  let (left, gone) := forgetWithin (ix.depthBound + 1) ix p
  (left.unlistChild p, gone)

/-- Forgets a path and everything below it, with a notice for each file that went. -/
def delete (ix : Index) (p : Path) : Index × List Notice :=
  let (left, gone) := ix.evict p
  (left, gone.map .deleted)

/-- Installs a manifest on behalf of a generation, in place of what its directory held before. -/
def setManifest (ix : Index) (d : Definition) (live : Bool) : Index × Bool :=
  if live then ({ ix with manifests := ix.manifests.insert d.directory d }, true) else (ix, false)

def manifest? (ix : Index) (dir : Path) : Option Definition :=
  ix.manifests[dir]?

/-- The nearest manifest at or above a path. -/
def ownedManifest? (ix : Index) (p : Path) : Option Definition :=
  p.withAncestors.findSome? ix.manifest?

def manifestList (ix : Index) : List Definition :=
  ix.manifests.toList.map (·.2)

end Index

end ProjectIndex
