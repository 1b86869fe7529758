/-!
# Settings

Everything that a user can set, with the values it has when nobody sets it.
-/

namespace ProjectIndex

/-- How changes on disk are noticed. -/
inductive BackendKind where
  /-- Whatever suits the operating system. -/
  | auto
  /-- One subscription for a whole tree. -/
  | recursive
  /-- One subscription for each directory. -/
  | perDirectory
  deriving DecidableEq, Repr, Inhabited

namespace BackendKind

def all : List BackendKind := [.auto, .recursive, .perDirectory]

def word : BackendKind → String
  | .auto => "auto"
  | .recursive => "recursive"
  | .perDirectory => "per_directory"

def resolve : BackendKind → BackendKind
  | .auto => .perDirectory
  | kind => kind

def title : BackendKind → String
  | .recursive => "recursive"
  | _ => "per-directory"

end BackendKind

structure CrawlSettings where
  /-- Names that are never indexed. -/
  denylist : List String := [".git", ".hg", ".svn", ".cache", ".yarn", ".pnpm-store"]
  /-- Names that are crawled to the end before their siblings start, the first ones first. -/
  priority : List String := [".config", "package.json"]
  /-- The most disk accesses at a time; `none` leaves the choice to the machine. -/
  maxConcurrentIo : Option Nat := none
  /-- The extensions of files worth indexing. -/
  extensions : List String :=
    ["js", "jsx", "mjs", "cjs", "ts", "tsx", "mts", "cts", "json", "jsonc", "md", "css"]
  deriving DecidableEq, Repr

structure ProjectSettings where
  manifestFilename : String := "package.json"
  /-- The directory of third-party packages. -/
  dependencyDir : String := "node_modules"
  /-- The directory that may hold a project's configuration. -/
  configDir : String := ".config"
  configFilenames : List String := ["projfs.json"]
  /-- The manifest field that makes a directory the root of a project. -/
  embeddedConfigField : String := "projfs"
  deriving DecidableEq, Repr

structure WatchSettings where
  backend : BackendKind := .auto
  /-- How many notices a slow subscriber may be behind. -/
  eventCapacity : Nat := 1024
  deriving DecidableEq, Repr

structure LogSettings where
  default : String := "warn"
  /-- Levels of single modules, sorted by module. -/
  modules : List (String × String) := []
  deriving DecidableEq, Repr

def LogSettings.directives (l : LogSettings) : String :=
  String.intercalate "," (l.default :: l.modules.map fun (name, level) => name ++ "=" ++ level)

structure Settings where
  version : Nat := 1
  crawl : CrawlSettings := {}
  project : ProjectSettings := {}
  watch : WatchSettings := {}
  logging : LogSettings := {}
  deriving DecidableEq, Repr

end ProjectIndex
