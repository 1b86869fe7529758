import ProjectIndex.Disk.Basic

/-!
# Listings of a disk

Every entry of a disk with its place and status.  Two listings show what changed between them.
-/

namespace ProjectIndex

namespace Node

mutual

/-- The entries at and below a node that stands at `place`. -/
def listing (place : List Name) : Node → List (List Name × Status)
  | .directory time es => (place, (Node.directory time []).status) :: listingAll place es
  | .file time bytes => [(place, (Node.file time bytes).status)]
  | .link time target => [(place, (Node.link time target).status)]
  | .pipe time => [(place, (Node.pipe time).status)]

/-- The entries at and below the nodes of a directory that stands at `place`. -/
def listingAll (place : List Name) : List (Name × Node) → List (List Name × Status)
  | [] => []
  | (n, node) :: rest => listing (place ++ [n]) node ++ listingAll place rest

end

end Node

namespace Disk

def listing (d : Disk) : List (List Name × Status) :=
  d.root.listing []

/-- The entries that are on one disk only, or not the same on both. -/
def differences (old new : Disk) : List Path :=
  let before := old.listing
  let after := new.listing
  let gone := before.filter fun entry => !after.contains entry
  let come := after.filter fun entry => !before.contains entry
  ((gone ++ come).map fun entry => (⟨.root :: entry.1.map .name⟩ : Path)).eraseDups

end Disk

end ProjectIndex
