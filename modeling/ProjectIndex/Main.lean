import ProjectIndex.CommandLine.Duration
import ProjectIndex.CommandLine.Run

/-!
# The program

Reads the part of the disk that a run is about, starts the run, and prints what it says.  A run that
watches looks at the disk again every second.
-/

namespace ProjectIndex.Program

open CommandLine

/-- The environment is asked for these variables. -/
def variableNames : List String :=
  ["RUST_LOG", "PROJFS_VERSION", "PROJFS_CRAWL__DENYLIST", "PROJFS_CRAWL__PRIORITY",
   "PROJFS_CRAWL__MAX_CONCURRENT_IO", "PROJFS_CRAWL__EXTENSIONS",
   "PROJFS_PROJECT__MANIFEST_FILENAME", "PROJFS_PROJECT__DEPENDENCY_DIR",
   "PROJFS_PROJECT__CONFIG_DIR", "PROJFS_PROJECT__CONFIG_FILENAMES",
   "PROJFS_PROJECT__EMBEDDED_CONFIG_FIELD", "PROJFS_WATCH__BACKEND",
   "PROJFS_WATCH__EVENT_CAPACITY", "PROJFS_LOGGING__DEFAULT"]

def environment : IO (List (String × String)) := do
  let values ← variableNames.mapM fun name => return (name, ← IO.getEnv name)
  return values.filterMap fun (name, value) => value.map fun value => (name, value)

def nanos (t : IO.FS.SystemTime) : Int :=
  t.sec * 1000000000 + t.nsec.toNat

/-- The bytes that a crawl wants of a file: all of them of a manifest, and only their number of any
other file that it takes. -/
def wantedBytes (policy : Policy) (p : Path) (size : Nat) (read : IO ByteArray) :
    IO (List UInt8) := do
  if policy.layout.isManifestName p then return (← read).data.toList
  else if policy.ignores p .file then return []
  else return List.replicate size 0

/-- The edits that make a copy of what is on the disk, down to some depth.  An entry that is gone
meanwhile is left out, and so is what lies below an entry that a crawl does not take. -/
def copy (policy : Policy) : Nat → IO.FS.DirEntry → IO (List Disk.Edit)
  | 0, _ => return []
  | depth + 1, entry => do
    try
      let found ← entry.path.symlinkMetadata
      let spelling := Spelling.ofString entry.path.toString
      let path := Path.ofSpelling spelling
      let time := nanos found.modified
      match found.type with
      | .dir =>
        let children ← if policy.isDenied path then pure #[] else entry.path.readDir
        let copies ← children.toList.mapM (copy policy depth)
        return .mkdir spelling time :: copies.flatten
      | .file =>
        let bytes ← wantedBytes policy path found.byteSize.toNat (IO.FS.readBinFile entry.path)
        return [.write spelling bytes time]
      | .symlink =>
        let target ← IO.FS.realPath entry.path
        return [.symlink spelling (Spelling.ofString target.toString).bytes time]
      | .other => return [.pipe spelling time]
    catch _ => return []

/-- The edits that make a copy of one file with its contents. -/
def copyFile (spelling : Spelling) : IO (List Disk.Edit) := do
  try
    let bytes ← IO.FS.readBinFile spelling.display
    return [.write spelling bytes.data.toList Disk.defaultTime]
  catch _ => return []

/-- An empty disk with the current directory on it. -/
def bareDisk : IO Disk := do
  let here ← IO.currentDir
  let place := Spelling.ofString here.toString
  return (Disk.empty.applyAll [.mkdir place Disk.defaultTime]).enter place

/-- A disk with nothing but the files that settings may come from. -/
def settingsDisk (file : Option Spelling) : IO Disk := do
  let d ← bareDisk
  let folders := d.currentPath.withAncestors
  let nearest := folders.map fun dir =>
    ((dir.child Settings.directoryName).child Settings.fileName).spelling
  let given := match file with
    | none => []
    | some file => folders.map fun dir => dir.spelling.join file
  let edits ← (nearest ++ given).mapM copyFile
  return d.applyAll edits.flatten

def maxDepth : Nat := 255

/-- The disk with what is at and below a directory. -/
def withTree (d : Disk) (policy : Policy) (dir : Spelling) : IO Disk := do
  let edits ← copy policy maxDepth ⟨← IO.currentDir, dir.display⟩
  return d.applyAll edits

def printLines (lines : List String) : IO Unit := do
  lines.forM fun line => IO.println line
  (← IO.getStdout).flush

def printOutcome (o : Outcome) : IO Unit := do
  o.messages.forM fun line => IO.eprintln line
  printLines o.output

/-- Looks at the disk again and again and prints what changed. -/
def follow (look : IO Disk) (w : Watching) : IO Unit := do
  let mut w := w
  repeat
    IO.sleep 1000
    let (next, notices) := w.update (← look)
    printLines (notices.map Notice.line)
    w := next

def directory : Command → Option Spelling
  | .scan dir _ => some dir
  | .watch dir => some dir
  | .config => none

/-- Runs the program. -/
def run (args : List Name) : IO UInt32 := do
  match parse args with
  | .error refusal =>
    printOutcome (refuse refusal)
    return UInt32.ofNat refusal.exitCode
  | .ok arguments =>
    let started ← IO.monoNanosNow
    let vars ← environment
    let bare ← settingsDisk arguments.config
    let setup := Setup.create ⟨bare, vars, ""⟩ arguments.config
    let look := match directory arguments.command with
      | some dir => withTree bare (.ofSettings setup.settings) dir
      | none => pure bare
    let disk ← look
    let elapsed := durationText ((← IO.monoNanosNow) - started)
    match start ⟨disk, vars, elapsed⟩ args with
    | .ended outcome =>
      printOutcome outcome
      return UInt32.ofNat outcome.code
    | .watching w =>
      printOutcome w.outcome
      follow look w
      return 0

end ProjectIndex.Program

def main (args : List String) : IO UInt32 :=
  ProjectIndex.Program.run (args.map ProjectIndex.Name.ofString)
