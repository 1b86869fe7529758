import ProjectIndex.Settings.Basic
import ProjectIndex.Settings.Datum

/-!
# Typed settings

Reads settings out of a tree of values.  Names that are not set keep their values; names that nobody
knows are passed over.  The first value of the wrong type, in the order of the names, is the error.
A group of settings may also be written as a list, in the order of its fields.
-/

namespace ProjectIndex

/-- What is wrong with a value. -/
inductive Flaw.Cause where
  | invalidType (found expected : String)
  | invalidValue (found expected : String)
  | unknownVariant (found : String) (expected : List String)
  /-- The file is not well formed. -/
  | malformed
  deriving DecidableEq, Repr, Inhabited

/-- A value that is wrong, and the way to it. -/
structure Flaw where
  path : List String
  cause : Flaw.Cause
  deriving DecidableEq, Repr, Inhabited

namespace Flaw

/-- The words for a choice of names. -/
def choice (names : List String) : String :=
  match names with
  | [a] => "`" ++ a ++ "`"
  | [a, b] => "`" ++ a ++ "` or `" ++ b ++ "`"
  | names => "one of " ++ String.intercalate ", " (names.map fun n => "`" ++ n ++ "`")

/-- The wording; a malformed file has words of its own. -/
def message (f : Flaw) : Option String :=
  match f.cause with
  | .invalidType found expected =>
    some ("invalid type: found " ++ found ++ ", expected " ++ expected)
  | .invalidValue found expected => some ("invalid value " ++ found ++ ", expected " ++ expected)
  | .unknownVariant found expected =>
    some ("unknown variant: found `" ++ found ++ "`, expected `" ++ choice expected ++ "`")
  | .malformed => none

end Flaw

namespace Datum

/-- The value has the wrong type. -/
def mistyped {α : Type} (v : Datum) (expected : String) : Except Flaw α :=
  .error ⟨[], .invalidType v.describe expected⟩

/-- An error under a name. -/
def under {α : Type} (name : String) : Except Flaw α → Except Flaw α
  | .ok a => .ok a
  | .error f => .error { f with path := name :: f.path }

/-- A whole number below a limit. -/
def natural (type : String) (limit : Nat) (v : Datum) : Except Flaw Nat :=
  match v with
  | .unsigned n => if n < limit then .ok n else .error ⟨[], .invalidValue v.describe type⟩
  | .signed i =>
    if 0 ≤ i ∧ i.toNat < limit then .ok i.toNat else .error ⟨[], .invalidValue v.describe type⟩
  | v => v.mistyped type

def version (v : Datum) : Except Flaw Nat :=
  v.natural "u32" UInt32.size

def count (v : Datum) : Except Flaw Nat :=
  v.natural "usize" UInt64.size

def string (v : Datum) : Except Flaw String :=
  match v with
  | .text s => .ok s
  | .char c => .ok c.toString
  | v => v.mistyped "a string"

/-- Each item, with its place in the path of an error. -/
def items {α : Type} (read : Datum → Except Flaw α) (vs : List Datum) : Except Flaw (List α) :=
  vs.zipIdx.mapM fun (v, i) => under (toString i) (read v)

def strings (v : Datum) : Except Flaw (List String) :=
  match v with
  | .list vs => items string vs
  | v => v.mistyped "a sequence"

/-- Names with strings. -/
def stringTable (v : Datum) : Except Flaw (List (String × String)) :=
  match v with
  | .table entries => entries.mapM fun (name, v) => do return (name, ← under name v.string)
  | v => v.mistyped "a map"

/-- One of the ways to notice changes. -/
def backend (v : Datum) : Except Flaw BackendKind :=
  match v with
  | .text s => variant s
  | .table [] => v.mistyped "enum"
  | .table ((name, inner) :: _) =>
    under name do
      let _ ← variant name
      inner.mistyped "unit"
  | v => v.mistyped "enum WatchBackendKind"
where
  /-- The kind that a word names. -/
  variant (s : String) : Except Flaw BackendKind :=
    match BackendKind.all.find? (·.word = s) with
    | some kind => .ok kind
    | none => .error ⟨[], .unknownVariant s (BackendKind.all.map BackendKind.word)⟩

/-- A group of settings: `set` takes one field over, and `fields` is the order of a list. -/
def group {σ : Type} (title : String) (fields : List String)
    (set : σ → String → Datum → Except Flaw σ) (start : σ) (v : Datum) : Except Flaw σ :=
  match v with
  | .table entries => entries.foldlM (fun s (name, v) => under name (set s name v)) start
  | .list vs =>
    (fields.zip vs).zipIdx.foldlM
      (fun s ((name, v), i) => under (toString i) (set s name v)) start
  | v => v.mistyped ("struct " ++ title)

def crawl : Datum → Except Flaw CrawlSettings :=
  group "CrawlConfig" ["denylist", "priority", "max_concurrent_io", "extensions"] set {}
where
  /-- Takes one field over. -/
  set (s : CrawlSettings) (name : String) (v : Datum) : Except Flaw CrawlSettings := do
    match name with
    | "denylist" => return { s with denylist := ← v.strings }
    | "priority" => return { s with priority := ← v.strings }
    | "max_concurrent_io" => return { s with maxConcurrentIo := some (← v.count) }
    | "extensions" => return { s with extensions := ← v.strings }
    | _ => return s

def project : Datum → Except Flaw ProjectSettings :=
  group "ProjectConfig"
    ["manifest_filename", "dependency_dir", "config_dir", "config_filenames",
      "embedded_config_field"] set {}
where
  /-- Takes one field over. -/
  set (s : ProjectSettings) (name : String) (v : Datum) : Except Flaw ProjectSettings := do
    match name with
    | "manifest_filename" => return { s with manifestFilename := ← v.string }
    | "dependency_dir" => return { s with dependencyDir := ← v.string }
    | "config_dir" => return { s with configDir := ← v.string }
    | "config_filenames" => return { s with configFilenames := ← v.strings }
    | "embedded_config_field" => return { s with embeddedConfigField := ← v.string }
    | _ => return s

def watch : Datum → Except Flaw WatchSettings :=
  group "WatchConfig" ["backend", "event_capacity"] set {}
where
  /-- Takes one field over. -/
  set (s : WatchSettings) (name : String) (v : Datum) : Except Flaw WatchSettings := do
    match name with
    | "backend" => return { s with backend := ← v.backend }
    | "event_capacity" => return { s with eventCapacity := ← v.count }
    | _ => return s

def logging : Datum → Except Flaw LogSettings :=
  group "LoggingConfig" ["default", "modules"] set {}
where
  /-- Takes one field over. -/
  set (s : LogSettings) (name : String) (v : Datum) : Except Flaw LogSettings := do
    match name with
    | "default" => return { s with default := ← v.string }
    | "modules" => return { s with modules := ← v.stringTable }
    | _ => return s

/-- The settings that a tree of values stands for. -/
def settings : Datum → Except Flaw Settings :=
  group "Settings" ["version", "crawl", "project", "watch", "logging"] set {}
where
  /-- Takes one group over. -/
  set (s : Settings) (name : String) (v : Datum) : Except Flaw Settings := do
    match name with
    | "version" => return { s with version := ← v.version }
    | "crawl" => return { s with crawl := ← v.crawl }
    | "project" => return { s with project := ← v.project }
    | "watch" => return { s with watch := ← v.watch }
    | "logging" => return { s with logging := ← v.logging }
    | _ => return s

end Datum

/-- The settings as a tree of values.  `unset` stands where the choice is left to the machine. -/
def Settings.data (s : Settings) (unset : Option Datum) : Datum :=
  let texts (ss : List String) : Datum := .list (ss.map .text)
  let io := (s.crawl.maxConcurrentIo.map Datum.unsigned) <|> unset
  .table [
    ("version", .unsigned s.version),
    ("crawl", .table (
      [("denylist", texts s.crawl.denylist), ("priority", texts s.crawl.priority)] ++
      (io.map fun v => ("max_concurrent_io", v)).toList ++
      [("extensions", texts s.crawl.extensions)])),
    ("project", .table [
      ("manifest_filename", .text s.project.manifestFilename),
      ("dependency_dir", .text s.project.dependencyDir),
      ("config_dir", .text s.project.configDir),
      ("config_filenames", texts s.project.configFilenames),
      ("embedded_config_field", .text s.project.embeddedConfigField)]),
    ("watch", .table [
      ("backend", .text s.watch.backend.word),
      ("event_capacity", .unsigned s.watch.eventCapacity)]),
    ("logging", .table [
      ("default", .text s.logging.default),
      ("modules", .table (s.logging.modules.map fun (name, level) => (name, .text level)))])]

end ProjectIndex
