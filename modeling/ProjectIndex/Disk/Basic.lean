import ProjectIndex.Error
import ProjectIndex.Status

/-!
# A disk as a value

A finite tree of directories, files, links and pipes, and what the system answers when it is asked
about a path of it.  Links are followed the way the system follows them: in every component but the
last, and there too if the caller wants it, up to forty of them.

Times are kept in nanoseconds since the epoch.  A directory's time says when it was made or touched;
entering or removing entries does not change it.
-/

namespace ProjectIndex

/-- An entry of a disk with its time of last change. -/
inductive Node where
  | file (time : Int) (bytes : List UInt8)
  | directory (time : Int) (entries : List (Name × Node))
  | link (time : Int) (target : List UInt8)
  | pipe (time : Int)
  deriving Repr, Inhabited

namespace Node

def entries : Node → List (Name × Node)
  | .directory _ es => es
  | _ => []

def isDirectory : Node → Bool
  | .directory _ _ => true
  | _ => false

def entry? (node : Node) (n : Name) : Option Node :=
  node.entries.lookup n

/-- The node that is reached by following names. -/
def get? (node : Node) : List Name → Option Node
  | [] => some node
  | n :: rest =>
    match node.entry? n with
    | some next => next.get? rest
    | none => none

/-- Puts an entry in its place among entries that are sorted by name. -/
def insertEntry (n : Name) (node : Node) : List (Name × Node) → List (Name × Node)
  | [] => [(n, node)]
  | (m, other) :: rest =>
    match compare n m with
    | .lt => (n, node) :: (m, other) :: rest
    | .eq => (n, node) :: rest
    | .gt => (m, other) :: insertEntry n node rest

def eraseEntry (n : Name) (es : List (Name × Node)) : List (Name × Node) :=
  es.filter fun e => e.1 != n

/-- Changes what is reached by following names through existing directories. -/
def alter (change : Option Node → Option Node) : List Name → Node → Node
  | [], node => (change (some node)).getD node
  | n :: rest, .directory time es =>
    match rest with
    | [] =>
      match change (es.lookup n) with
      | some node => .directory time (insertEntry n node es)
      | none => .directory time (eraseEntry n es)
    | _ =>
      match es.lookup n with
      | some next => .directory time (insertEntry n (next.alter change rest) es)
      | none => .directory time es
  | _ :: _, node => node

/-- The time of last change. -/
def time : Node → Int
  | .file t _ => t
  | .directory t _ => t
  | .link t _ => t
  | .pipe t => t

/-- The same entry with another time of last change. -/
def withTime (t : Int) : Node → Node
  | .file _ bytes => .file t bytes
  | .directory _ es => .directory t es
  | .link _ target => .link t target
  | .pipe _ => .pipe t

/-- Whole milliseconds; a time before the epoch counts as the epoch. -/
def millis (t : Int) : Int :=
  if t < 0 then 0 else t / 1000000

/-- What is shown of an entry. -/
def status : Node → Status
  | .file t bytes => ⟨.file, bytes.length, millis t⟩
  | .directory t _ => ⟨.directory, 0, millis t⟩
  | .link t target => ⟨.unknown, target.length, millis t⟩
  | .pipe t => ⟨.unknown, 0, millis t⟩

end Node

/-- A disk and the current directory on it. -/
structure Disk where
  root : Node
  current : List Name := []
  deriving Repr, Inhabited

namespace Disk

/-- The time of entries for which no other was asked: a thousand seconds. -/
def defaultTime : Int := 1000000 * 1000000

def empty : Disk := { root := .directory defaultTime [] }

def maxNameLength : Nat := 255

def maxPathLength : Nat := 4095

def maxLinks : Nat := 40

/-- Where a walk stops: at an entry, or at a link with what to walk instead. -/
inductive Stop where
  | entry (location : List Name)
  | link (start : List Name) (pieces : List Name)

/-- The pieces of a spelling that a walk goes through.  A separator at the end asks for a directory,
as a final `.` does. -/
def pieces (s : Spelling) : List Name :=
  let named := (Spelling.split s.bytes).filter (· != [])
  if s.bytes.getLast? = some Spelling.separator then named ++ [Spelling.dot] else named

/-- Walks from a directory up to the first link that has to be followed. -/
def walk (root : Node) (follow : Bool) (location : List Name) : List Name → Except DiskError Stop
  | [] => .ok (.entry location)
  | piece :: rest =>
    match root.get? location with
    | some (.directory _ es) =>
      if piece = Spelling.dot then walk root follow location rest
      else if piece = Spelling.dotDot then walk root follow location.dropLast rest
      else if maxNameLength < piece.length then .error .nameTooLong
      else
        match es.lookup piece with
        | none => .error .notFound
        | some (.link _ target) =>
          if rest.isEmpty && !follow then .ok (.entry (location ++ [piece]))
          else
            let start := if (⟨target⟩ : Spelling).isAbsolute then [] else location
            .ok (.link start (pieces ⟨target⟩ ++ rest))
        | some _ => walk root follow (location ++ [piece]) rest
    | some _ => .error .notADirectory
    | none => .error .notFound

/-- Walks and follows links, at most `links` of them. -/
def resolve (root : Node) (follow : Bool) : Nat → List Name → List Name →
    Except DiskError (List Name)
  | links, start, todo =>
    match walk root follow start todo with
    | .error e => .error e
    | .ok (.entry location) => .ok location
    | .ok (.link start todo) =>
      match links with
      | 0 => .error .tooManyLinks
      | links + 1 => resolve root follow links start todo

/-- The place of what a spelling names. -/
def locate (d : Disk) (follow : Bool) (s : Spelling) : Except DiskError (List Name) :=
  if s.bytes.contains 0 then .error .nulByte
  else if s.bytes.isEmpty then .error .notFound
  else if maxPathLength < s.bytes.length then .error .nameTooLong
  else resolve d.root follow maxLinks (if s.isAbsolute then [] else d.current) (pieces s)

/-- What a spelling names. -/
def node (d : Disk) (follow : Bool) (s : Spelling) : Except DiskError Node := do
  let location ← d.locate follow s
  match d.root.get? location with
  | some n => return n
  | none => throw .notFound

/-- The status of what a path names in the end. -/
def stat (d : Disk) (s : Spelling) : Except DiskError Status := do
  return (← d.node true s).status

/-- The status of the entry itself, be it a link. -/
def statEntry (d : Disk) (s : Spelling) : Except DiskError Status := do
  return (← d.node false s).status

def names (d : Disk) (s : Spelling) : Except DiskError (List Name) := do
  match ← d.node true s with
  | .directory _ es => return es.map (·.1)
  | _ => throw .notADirectory

def children (d : Disk) (p : Path) : Except DiskError (List Path) := do
  return (← d.names p.spelling).map p.child

/-- The bytes of a file. -/
def contents (d : Disk) (s : Spelling) : Except DiskError (List UInt8) := do
  match ← d.node true s with
  | .file _ bytes => return bytes
  | .directory _ _ => throw .isADirectory
  | _ => return []

/-- The names of the current directory as a path. -/
def currentPath (d : Disk) : Path :=
  ⟨.root :: d.current.map .name⟩

/-- The path that a spelling names, seen from the current directory. -/
def absolute (d : Disk) (s : Spelling) : Except DiskError Path :=
  if s.bytes.isEmpty then .error .emptyPath else .ok (d.currentPath.join s)

end Disk

end ProjectIndex
