import ProjectIndex.Json.Shape
import ProjectIndex.Manifest.Basic
import ProjectIndex.Settings.Basic
import ProjectIndex.Status

/-!
# Records as JSON

How the records that are exchanged with other programs are read back.
-/

namespace ProjectIndex.Wire

open Json

/-- The element of a list that a word names. -/
def named {α : Type} (all : List α) (word : α → String) (v : Value) : Option α :=
  match v with
  | .string s => all.find? fun a => word a = s
  | _ => none

def kinds : List Kind := [.unknown, .directory, .file]

def moduleTypes : List ModuleType := [.esModule, .commonJs]

/-- The number of a value that was read as one. -/
def natOf : Value → Nat
  | .number (.whole n) => n
  | _ => 0

def intOf : Value → Int
  | .number (.whole n) => n
  | .number (.negative n) => -(n : Int)
  | _ => 0

/-- The text of a value that was read as one. -/
def textOf : Value → Option String
  | .string s => some s
  | _ => none

/-- One of some words. -/
def choose {α : Type} [Inhabited α] (all : List α) (word : α → String) (bytes : List UInt8) :
    Except Fault α := do
  let v ← readWhole (readWordOf (all.map word)) bytes
  return (named all word v).getD default

def kind : List UInt8 → Except Fault Kind :=
  choose kinds Kind.word

def moduleType : List UInt8 → Except Fault ModuleType :=
  choose moduleTypes ModuleType.word

def backendKind : List UInt8 → Except Fault BackendKind :=
  choose BackendKind.all BackendKind.word

def manifestId (bytes : List UInt8) : Except Fault ManifestId := do
  return UInt64.ofNat (natOf (← readWhole readUnsigned bytes))

def statusFields : List Field :=
  [{ name := "size", read := readUnsigned },
   { name := "mtime", read := readSigned },
   { name := "kind", read := readWordOf (kinds.map Kind.word) }]

def status (bytes : List UInt8) : Except Fault Status := do
  match ← readWhole (readRecord "Stats" statusFields) bytes with
  | [size, mtime, kind] =>
    return ⟨(named kinds Kind.word kind).getD default, natOf size, intOf mtime⟩
  | _ => return default

def summaryFields : List Field :=
  [{ name := "id", read := readUnsigned },
   { name := "path", read := readText "path string" },
   { name := "directory", read := readText "path string" },
   { name := "name", read := readOptional (readText "a string"), optional := true },
   { name := "version", read := readOptional (readText "a string"), optional := true },
   { name := "hash", read := readText "a string" }]

def summary (bytes : List UInt8) : Except Fault Summary := do
  match ← readWhole (readRecord "PartialManifest" summaryFields) bytes with
  | [id, path, directory, name, version, hash] =>
    let spelling (v : Value) : Spelling := .ofString ((textOf v).getD "")
    return ⟨UInt64.ofNat (natOf id), spelling path, spelling directory, textOf name, textOf version,
      (textOf hash).getD ""⟩
  | _ => return default

end ProjectIndex.Wire
