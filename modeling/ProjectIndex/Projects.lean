import ProjectIndex.Manifest.Basic

/-!
# Projects

The projects that were declared, one for each root directory.  They are numbered 1, 2, … in the
order of their first declaration; declaring a root again changes nothing.
-/

namespace ProjectIndex

/-- The number of a project.  Zero is no number of a project. -/
structure ProjectId where
  val : UInt32
  ne_zero : val ≠ 0
  deriving DecidableEq, Repr

/-- The project number `n`, if there is one. -/
def ProjectId.ofUInt32? (n : UInt32) : Option ProjectId :=
  if h : n ≠ 0 then some ⟨n, h⟩ else none

structure Project where
  id : ProjectId
  root : Path
  /-- The crawl of the root has come to its end. -/
  initialized : Bool
  /-- The manifests that belong to the project, in the order in which they were found. -/
  manifests : List ManifestId
  deriving DecidableEq, Repr

structure Projects where
  records : Table Project := ∅
  nextId : UInt32 := 1

namespace Projects

def get? (ps : Projects) (root : Path) : Option Project :=
  ps.records[root]?

def isRoot (ps : Projects) (dir : Path) : Bool :=
  ps.records.contains dir

/-- Declares a project, unless its root is known already. -/
def declare (ps : Projects) (root : Path) : Projects :=
  if ps.isRoot root then ps
  else
    match ProjectId.ofUInt32? ps.nextId with
    | none => { ps with nextId := ps.nextId + 1 }
    | some id =>
      { records := ps.records.insert root ⟨id, root, false, []⟩
        nextId := ps.nextId + 1 }

/-- The project that `path` belongs to: the one with the nearest root at or above it. -/
def find? (ps : Projects) (path : Path) : Option ProjectId :=
  path.withAncestors.findSome? fun dir => (ps.get? dir).map Project.id

/-- The crawl of a root has come to its end. -/
def markInitialized (ps : Projects) (root : Path) : Projects :=
  { ps with records := ps.records.modify root fun p => { p with initialized := true } }

/-- The roots of the project with this number. -/
def rootsOf (ps : Projects) (id : ProjectId) : List Path :=
  (ps.records.toList.filter fun entry => entry.2.id == id).map (·.1)

/-- Adds a manifest to the project with this number. -/
def associate (ps : Projects) (id : ProjectId) (manifest : ManifestId) : Projects :=
  match (ps.rootsOf id).head? with
  | none => ps
  | some root =>
    { ps with
      records := ps.records.modify root fun p => { p with manifests := p.manifests ++ [manifest] } }

def toList (ps : Projects) : List Project :=
  ps.records.toList.map (·.2)

def roots (ps : Projects) : List Path :=
  ps.records.keys

def size (ps : Projects) : Nat :=
  ps.records.size

end Projects

end ProjectIndex
