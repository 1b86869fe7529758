import ProjectIndex.Disk.Create
import ProjectIndex.Settings.Typed
import ProjectIndex.Settings.Variable
import ProjectIndex.Toml.Reader
import ProjectIndex.Toml.Writer

/-!
# Settings on disk

Settings are read from a file, if there is one, and from the environment, which overrides it.  The
file is the one that was asked for, or the one in the nearest directory `.projfs` at or above the
current directory.
-/

namespace ProjectIndex

/-- Why settings could not be read. -/
inductive LoadError where
  | flawed (flaw : Flaw)
  /-- A file is not well formed; the lines show where. -/
  | malformed (file : Spelling) (lines : List String)
  deriving DecidableEq, Repr, Inhabited

namespace LoadError

/-- The flaw behind an error. -/
def flaw : LoadError → Flaw
  | .flawed flaw => flaw
  | .malformed _ _ => ⟨[], .malformed⟩

/-- The first line of the message. -/
def message : LoadError → String
  | .flawed flaw =>
    flaw.message.getD "" ++ " for key " ++ Quoted.text (String.intercalate "." flaw.path)
  | .malformed _ _ => "TOML parse error"

/-- The lines after the first one of the message. -/
def details (cwd : Path) : LoadError → List String
  | .flawed _ => []
  | .malformed file lines =>
    if lines.isEmpty then []
    else lines ++ [" in " ++ relative cwd.components file.components ++ " TOML file"]
where
  /-- The way from one place to another. -/
  relative (cwd file : List Component) : String :=
    let shared := ((cwd.zip file).takeWhile fun (a, b) => a == b).length
    let up := List.replicate (cwd.length - shared) Component.up
    (⟨up ++ file.drop shared⟩ : Path).display

end LoadError

namespace Settings

/-- The directory that holds the settings file. -/
def directoryName : Name := .ofString ".projfs"

def fileName : Name := .ofString "settings.toml"

def isFile (d : Disk) (s : Spelling) : Bool :=
  match d.stat s with
  | .ok status => status.kind = Kind.file
  | .error _ => false

def isDirectory (d : Disk) (s : Spelling) : Bool :=
  match d.stat s with
  | .ok status => status.kind = Kind.directory
  | .error _ => false

/-- The settings file of the nearest directory at or above the current one. -/
def nearestFile (d : Disk) : Spelling :=
  let candidates := d.currentPath.withAncestors.map fun dir => dir.child directoryName
  match candidates.find? fun dir => isDirectory d dir.spelling with
  | some dir => (dir.child fileName).spelling
  | none => .ofString ".projfs/settings.toml"

/-- The file that a spelling means.  A relative one is searched for in the current directory and in
those above it. -/
def findFile (d : Disk) (s : Spelling) : Option Spelling :=
  if s.isAbsolute then if isFile d s then some s else none
  else
    (d.currentPath.withAncestors.map fun dir => dir.spelling.join s).find? fun s => isFile d s

/-- The layer that a file makes.  A file that is not there makes none. -/
def fileLayer (d : Disk) (s : Spelling) : Except LoadError Datum :=
  match findFile d s with
  | none => .ok (.table [])
  | some file =>
    match (d.contents file).toOption.bind Utf8.text? with
    | none => .error (.malformed file [])
    | some text =>
      match Toml.parse text with
      | .ok layer => .ok layer
      | .error fault => .error (.malformed file (fault.shown text))

/-- The settings of a file and an environment. -/
def loadFrom (d : Disk) (file : Spelling) (environment : List (String × String)) :
    Except LoadError Settings := do
  let layer ← fileLayer d file
  match (Datum.override (some layer) (Variable.layer environment)).settings with
  | .ok s => .ok s
  | .error flaw => .error (.flawed flaw)

/-- The settings of the nearest file and an environment. -/
def load (d : Disk) (environment : List (String × String)) : Except LoadError Settings :=
  loadFrom d (nearestFile d) environment

def entry (name value : String) : String :=
  name ++ " = " ++ value ++ "\n"

/-- The settings as a file.  `io` stands where the choice is left to the machine. -/
def written (s : Settings) (io : String) : String :=
  entry "version" (toString s.version) ++
  "\n[crawl]\n" ++
  entry "denylist" (Toml.texts s.crawl.denylist) ++
  entry "priority" (Toml.texts s.crawl.priority) ++
  entry "max_concurrent_io" ((s.crawl.maxConcurrentIo.map toString).getD io) ++
  entry "extensions" (Toml.texts s.crawl.extensions) ++
  "\n[project]\n" ++
  entry "manifest_filename" (Toml.text s.project.manifestFilename) ++
  entry "dependency_dir" (Toml.text s.project.dependencyDir) ++
  entry "config_dir" (Toml.text s.project.configDir) ++
  entry "config_filenames" (Toml.texts s.project.configFilenames) ++
  entry "embedded_config_field" (Toml.text s.project.embeddedConfigField) ++
  "\n[watch]\n" ++
  entry "backend" (Toml.text s.watch.backend.word) ++
  entry "event_capacity" (toString s.watch.eventCapacity) ++
  "\n[logging]\n" ++
  entry "default" (Toml.text s.logging.default) ++
  "\n[logging.modules]\n" ++
  String.join (s.logging.modules.map fun (name, level) => entry (Toml.name name) (Toml.text level))

/-- Why settings could not be saved. -/
inductive SaveError where
  /-- The file has no directory. -/
  | noDirectory
  | disk (cause : DiskError)
  deriving DecidableEq, Repr

def SaveError.message : SaveError → String
  | .noDirectory => "Invalid path"
  | .disk cause => cause.message

/-- Writes the settings to a file, its directories made first. -/
def save (s : Settings) (d : Disk) (file : Spelling) : Except SaveError Disk :=
  if file.bytes.isEmpty then .error .noDirectory
  else
    Except.mapError .disk do
      let d ← d.makeDirectory ⟨Path.render file.components.dropLast⟩
      d.createFile file (Utf8.encode (s.written "0"))

end Settings

end ProjectIndex
