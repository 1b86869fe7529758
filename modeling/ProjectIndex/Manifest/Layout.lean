import ProjectIndex.Path.Basic

/-!
# Where manifests count

Naming rules that decide which files are manifests.  Inside a directory of third-party packages only
the manifest of a package itself counts, `packages/name/manifest` or
`packages/@scope/name/manifest`; test data and internals of a package do not.
-/

namespace ProjectIndex

structure Layout where
  manifestName : Name
  dependencyDir : Name
  deriving DecidableEq, Repr

namespace Layout

/-- A name that stands for a scope of packages. -/
def isScope (n : Name) : Bool :=
  n.head? == some 0x40

def isManifestName (l : Layout) (p : Path) : Bool :=
  p.basename == some l.manifestName

/-- The path lies in a directory of third-party packages. -/
def isDependency (l : Layout) (p : Path) : Bool :=
  p.segments.contains l.dependencyDir

/-- The file is a manifest that counts. -/
def isOfInterest (l : Layout) (p : Path) : Bool :=
  if !l.isManifestName p then false
  else if !l.isDependency p then true
  else
    match p.segments.reverse with
    | _ :: package :: above :: rest =>
      (above == l.dependencyDir && !isScope package) ||
        (rest.head? == some l.dependencyDir && isScope above)
    | _ => false

end Layout

end ProjectIndex
