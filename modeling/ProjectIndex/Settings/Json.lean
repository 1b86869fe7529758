import ProjectIndex.Json.Value
import ProjectIndex.Settings.Datum

/-!
# Settings as JSON

Values that somebody set, given or shown as JSON.  A null sets nothing.
-/

namespace ProjectIndex.Datum

mutual

/-- The value that a JSON value stands for. -/
def ofJson : Json.Value → Datum
  | .null => .table []
  | .bool b => .flag b
  | .number (.whole n) => .unsigned n
  | .number (.negative n) => .signed (-n)
  | .number (.double bits) => .float bits
  | .string s => .text s
  | .array items => .list (ofItems items)
  | .object members => .table (ofMembers members)

def ofItems : List Json.Value → List Datum
  | [] => []
  | v :: rest => ofJson v :: ofItems rest

def ofMembers : List (String × Json.Value) → List (String × Datum)
  | [] => []
  | (name, v) :: rest => (name, ofJson v) :: ofMembers rest

end

mutual

/-- The JSON value that shows a value. -/
def toJson : Datum → Json.Value
  | .flag b => .bool b
  | .unsigned n => .nat n
  | .signed i => .int i
  | .float bits => .number (.double bits)
  | .char c => .string c.toString
  | .text s => .string s
  | .list items => .array (toItems items)
  | .table entries => .ofMembers (toMembers entries)

def toItems : List Datum → List Json.Value
  | [] => []
  | v :: rest => toJson v :: toItems rest

def toMembers : List (String × Datum) → List (String × Json.Value)
  | [] => []
  | (name, v) :: rest => (name, toJson v) :: toMembers rest

end

end ProjectIndex.Datum
