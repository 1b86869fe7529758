import ProjectIndex.Json.Value
import ProjectIndex.Path.Basic

/-!
# Manifests

A manifest marks a package boundary.  `Manifest` is what is kept of its contents, `Definition` a
manifest that is installed in the index under its directory, and `Summary` the part of a definition
that is sent to workers.
-/

namespace ProjectIndex

inductive ModuleType where
  | esModule
  | commonJs
  deriving DecidableEq, Repr, Inhabited

def ModuleType.word : ModuleType → String
  | .esModule => "module"
  | .commonJs => "commonjs"

/-- What a manifest declares. -/
structure Manifest where
  name : Option String
  version : Option String
  moduleType : Option ModuleType
  /-- The version ranges of dependencies and development dependencies. -/
  dependencies : Std.ExtTreeMap String String
  /-- The embedded project configuration. -/
  projectConfig : Option Json.Value
  raw : Json.Value

/-- A manifest with an empty object as its contents. -/
def Manifest.blank : Manifest where
  name := none
  version := none
  moduleType := none
  dependencies := ∅
  projectConfig := none
  raw := .null

abbrev ManifestId := UInt64

/-- An installed manifest. -/
structure Definition where
  id : ManifestId
  path : Path
  directory : Path
  manifest : Manifest
  /-- The digest of the manifest's bytes. -/
  hash : String

/-- What workers are told about a manifest. -/
structure Summary where
  id : ManifestId
  path : Spelling
  directory : Spelling
  name : Option String
  version : Option String
  hash : String
  deriving DecidableEq, Repr, Inhabited

def Definition.summary (d : Definition) : Summary where
  id := d.id
  path := d.path.spelling
  directory := d.directory.spelling
  name := d.manifest.name
  version := d.manifest.version
  hash := d.hash

end ProjectIndex
