import ProjectIndex.Diagnostic
import ProjectIndex.Manifest.Basic

/-!
# From JSON to a manifest

Reads the fields of a manifest out of a JSON value.  A package's own manifest is read strictly: a
field of the wrong shape is an error, and a manifest with an error is no manifest.  Third-party
manifests are read leniently: a field of the wrong shape is as good as absent.
-/

namespace ProjectIndex.Manifest

open Json

/-- How a manifest is read: the field of embedded configuration, the place for remarks, and whether
remarks are made at all. -/
structure Reading where
  configField : String
  path : Spelling
  strict : Bool

/-- A field's value and the remarks made about it. -/
structure Field (α : Type) where
  value : α
  remarks : List Diagnostic := []

namespace Reading

/-- A remark, unless third-party code is read. -/
def remark (r : Reading) (severity : Severity) (message : String) : List Diagnostic :=
  if r.strict then [⟨severity, "manifest/normalize", r.path, message⟩] else []

/-- A field that must hold a non-empty string. -/
def text (r : Reading) (v : Value) (key : String) : Field (Option String) :=
  match v.get? key with
  | none => ⟨none, []⟩
  | some (.string s) =>
    if s = "" then ⟨none, wrong⟩ else ⟨some s, []⟩
  | some _ => ⟨none, wrong⟩
where
  /-- The remark on any other value. -/
  wrong : List Diagnostic := r.remark .error ("`" ++ key ++ "` must be a non-empty string")

/-- The module type. -/
def moduleType (r : Reading) (v : Value) : Field (Option ModuleType) :=
  match v.get? "type" with
  | none => ⟨none, []⟩
  | some (.string "module") => ⟨some .esModule, []⟩
  | some (.string "commonjs") => ⟨some .commonJs, []⟩
  | some other =>
    ⟨none, r.remark .error
      ("`type` must be \"module\" or \"commonjs\", found " ++ other.text)⟩

/-- The string ranges of one section of dependencies. -/
def section? (r : Reading) (v : Value) (key : String) : Field (List (String × String)) :=
  match v.get? key with
  | none => ⟨[], []⟩
  | some (.object members) =>
    ⟨members.filterMap fun
        | (name, .string range) => some (name, range)
        | _ => none,
      members.flatMap fun
        | (_, .string _) => []
        | (name, _) =>
          r.remark .warning
            ("ignoring non-string range for `" ++ name ++ "` in `" ++ key ++ "`")⟩
  | some _ => ⟨[], r.remark .error ("`" ++ key ++ "` must be an object")⟩

/-- The embedded project configuration. -/
def projectConfig (r : Reading) (v : Value) : Field (Option Value) :=
  match v.get? r.configField with
  | none => ⟨none, []⟩
  | some (.object members) => ⟨some (.object members), []⟩
  | some _ => ⟨none, r.remark .error ("`" ++ r.configField ++ "` must be an object")⟩

end Reading

/-- The result of reading: a manifest unless there were errors, and all remarks. -/
structure Outcome where
  manifest : Option Manifest
  remarks : List Diagnostic

/-- Reads a manifest. -/
def normalise (r : Reading) (v : Value) : Outcome :=
  match v with
  | .object _ =>
    let name := r.text v "name"
    let version := r.text v "version"
    let type := r.moduleType v
    let runtime := r.section? v "dependencies"
    let development := r.section? v "devDependencies"
    let config := r.projectConfig v
    let remarks :=
      name.remarks ++ version.remarks ++ type.remarks ++ runtime.remarks ++ development.remarks ++
        config.remarks
    let manifest : Manifest :=
      { name := name.value
        version := version.value
        moduleType := type.value
        dependencies :=
          (runtime.value ++ development.value).foldl (fun m (k, range) => m.insert k range) ∅
        projectConfig := config.value
        raw := v }
    ⟨if remarks.any Diagnostic.isError then none else some manifest, remarks⟩
  | _ => ⟨none, [⟨.error, "manifest/normalize", r.path, "expected a JSON object"⟩]⟩

end ProjectIndex.Manifest
