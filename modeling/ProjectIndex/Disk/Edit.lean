import ProjectIndex.Disk.Basic

/-!
# Changing a disk

The changes that other programs make.  Missing parents are made on the way, and what cannot be done
is not done.
-/

namespace ProjectIndex.Disk

/-- A change of the disk.  Times are in nanoseconds. -/
inductive Edit where
  /-- Makes a directory, or sets the time of one that is there. -/
  | mkdir (path : Spelling) (time : Int)
  /-- Makes a file or overwrites it. -/
  | write (path : Spelling) (bytes : List UInt8) (time : Int)
  | touch (path : Spelling) (time : Int)
  /-- Removes an entry with everything below it. -/
  | remove (path : Spelling)
  | rename (path target : Spelling)
  | symlink (path : Spelling) (target : List UInt8) (time : Int)
  | pipe (path : Spelling) (time : Int)
  deriving Repr, Inhabited

/-- Makes the directories on the way to `names` where they are missing, following links, and gives
the place of the last one. -/
def makeParents (d : Disk) : List Name → List Name → Disk × Option (List Name)
  | location, [] => (d, some location)
  | location, n :: rest =>
    match resolve d.root true maxLinks location [n] with
    | .ok next => makeParents d next rest
    | .error _ =>
      if (d.root.get? (location ++ [n])).isSome then (d, none)
      else
        let made := d.root.alter (fun _ => some (.directory defaultTime [])) (location ++ [n])
        makeParents { d with root := made } (location ++ [n]) rest

/-- The names of a spelling from the root on, `..` taken out. -/
def absoluteNames (d : Disk) (s : Spelling) : List Name :=
  (d.currentPath.join s).components.filterMap fun
    | .name n => some n
    | _ => none

/-- The disk seen from another current directory.  Links on the way to it are followed, since the
system knows a directory by its place; one that is not there is taken by its names. -/
def enter (d : Disk) (s : Spelling) : Disk :=
  { d with current := (d.locate true s).toOption.getD (d.absoluteNames s) }

/-- Changes the entry that a spelling names, its parents made first. -/
def place (d : Disk) (s : Spelling) (change : Option Node → Option Node) : Disk :=
  match (d.absoluteNames s).reverse with
  | [] => { d with root := (change (some d.root)).getD d.root }
  | last :: above =>
    match makeParents d [] above.reverse with
    | (d, none) => d
    | (d, some location) => { d with root := d.root.alter change (location ++ [last]) }

/-- The entry that a spelling names, links in the last place not followed. -/
def entryAt (d : Disk) (s : Spelling) : Option Node :=
  match d.node false ⟨Path.render (d.currentPath.join s).components⟩ with
  | .ok n => some n
  | .error _ => none

/-- Applies one change. -/
def apply (d : Disk) : Edit → Disk
  | .mkdir s time =>
    d.place s fun
      | some (.directory _ es) => some (.directory time es)
      | some other => some other
      | none => some (.directory time [])
  | .write s bytes time =>
    d.place s fun
      | some (.directory t es) => some (.directory t es)
      | _ => some (.file time bytes)
  | .touch s time => d.place s (·.map (·.withTime time))
  | .remove s => d.place s fun _ => none
  | .rename s target =>
    match d.entryAt s with
    | none => (d.place s id).place target id
    | some n => (d.place target fun _ => some n).place s fun _ => none
  | .symlink s target time => d.place s fun
      | none => some (.link time target)
      | some other => some other
  | .pipe s time => d.place s fun
      | none => some (.pipe time)
      | some other => some other

def applyAll (d : Disk) (edits : List Edit) : Disk :=
  edits.foldl apply d

end ProjectIndex.Disk
