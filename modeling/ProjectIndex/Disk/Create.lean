import ProjectIndex.Disk.Basic

/-!
# Making files

How a program makes a file and the directories above it, and what the system answers when it cannot
be done.
-/

namespace ProjectIndex.Disk

/-- Makes the directories that components lead through, from a place on, where they are missing. -/
def makeAlong (d : Disk) (location : List Name) : List Component → Except DiskError Disk
  | [] => .ok d
  | .root :: rest => makeAlong d [] rest
  | .current :: rest => makeAlong d location rest
  | .up :: rest => makeAlong d location.dropLast rest
  | .name n :: rest =>
    match resolve d.root true maxLinks location [n] with
    | .ok next => makeAlong d next rest
    | .error cause =>
      let new := location ++ [n]
      if cause = .notFound && (d.root.get? new).isNone then
        let root := d.root.alter (fun _ => some (.directory defaultTime [])) new
        makeAlong { d with root } new rest
      else .error cause

/-- Makes a directory and those above it. -/
def makeDirectory (d : Disk) (s : Spelling) : Except DiskError Disk :=
  if s.bytes.contains 0 then .error .nulByte
  else if maxPathLength < s.bytes.length then .error .nameTooLong
  else d.makeAlong (if s.isAbsolute then [] else d.current) s.components

/-- Where a file goes that is not there yet: its directory has to be, and it needs a name. -/
def newPlace (d : Disk) (s : Spelling) : Except DiskError (List Name) :=
  let start := if s.isAbsolute then [] else d.current
  match (pieces s).reverse with
  | [] => .error .notFound
  | last :: above =>
    if s.bytes.getLast? = some Spelling.separator then .error .isADirectory
    else if last = Spelling.dot || last = Spelling.dotDot then .error .notFound
    else do
      let parent ← resolve d.root true maxLinks start above.reverse
      return parent ++ [last]

/-- Makes a file, or overwrites the one that is there. -/
def createFile (d : Disk) (s : Spelling) (bytes : List UInt8) : Except DiskError Disk := do
  let location ← match d.locate true s with
    | .ok location => .ok location
    | .error cause => if cause = .notFound then d.newPlace s else .error cause
  if ((d.root.get? location).map Node.isDirectory).getD false then throw .isADirectory
  return { d with root := d.root.alter (fun _ => some (.file defaultTime bytes)) location }

end ProjectIndex.Disk
