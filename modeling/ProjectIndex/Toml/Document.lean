import ProjectIndex.Toml.Scalar
import ProjectIndex.Toml.Writer

/-!
# TOML documents under construction

A document is built line by line: headers open tables, keys put values into the table that is open.
How a table came about decides what may still be added to it, so each table remembers that.
-/

namespace ProjectIndex.Toml

/-- How a table came about. -/
inductive Form where
  /-- As the front part of a longer header. -/
  | implicit
  /-- By a header of its own. -/
  | header
  /-- By the front part of a dotted key. -/
  | dotted
  deriving DecidableEq, Repr, Inhabited

/-- What a name stands for. -/
inductive Item where
  /-- A value that nothing can be added to. -/
  | leaf (v : Datum)
  | table (form : Form) (entries : List (String × Item))
  /-- A list of tables, the last one first. -/
  | tables (entries : List (List (String × Item)))
  deriving Inhabited

abbrev Entries := List (String × Item)

/-- Changes what a name stands for. -/
def Entries.set (entries : Entries) (name : String) (item : Item) : Entries :=
  match entries with
  | [] => [(name, item)]
  | (n, old) :: rest =>
    if n = name then (name, item) :: rest else (n, old) :: Entries.set rest name item

/-- Why something cannot be added. -/
inductive Clash where
  /-- The name is taken, in the table at a place if that is known. -/
  | taken (name : String) (place : Option (List String))
  /-- The way leads through a value of another type. -/
  | closed (way : List String) (type : String)
  deriving DecidableEq, Repr, Inhabited

/-- The words for a clash. -/
def Clash.message : Clash → String
  | .taken name none => "duplicate key `" ++ name ++ "`"
  | .taken name (some []) => "duplicate key `" ++ name ++ "` in document root"
  | .taken name (some place) =>
    "duplicate key `" ++ name ++ "` in table `" ++ String.intercalate "." place ++ "`"
  | .closed way type =>
    "dotted key `" ++ String.intercalate "." way ++ "` attempted to extend non-table type (" ++
      type ++ ")"

/-- The name of a value's type. -/
def typeName : Datum → String
  | .flag _ => "boolean"
  | .unsigned _ => "integer"
  | .signed _ => "integer"
  | .float _ => "float"
  | .char _ => "string"
  | .text _ => "string"
  | .list _ => "array"
  | .table entries => if entries.any (·.1 = momentName) then "datetime" else "inline table"

/-- Puts a value under a dotted key.  The key may pass through a table that longer headers made, and
through the last one of a list of tables, but it can add to neither: the table in front of its last
name has to come from a dotted key.  `place` is where the table is, if it is not in braces, and
`passed` the names in front of `key`. -/
def insert (place : Option (List String)) (v : Datum) (passed : List String) (entries : Entries)
    (key : List String) : Except Clash Entries :=
  match key with
  | [] => .ok entries
  | [name] =>
    if (entries.lookup name).isSome then .error (.taken name place)
    else .ok (entries.set name (.leaf v))
  | name :: next :: rest =>
    let passed := passed ++ [name]
    match entries.lookup name with
    | none =>
      (insert place v passed [] (next :: rest)).map fun inner =>
        entries.set name (.table .dotted inner)
    | some (.leaf old) =>
      if place.isNone && typeName old = "inline table" then .error (.taken name none)
      else .error (.closed passed (typeName old))
    | some (.table form inner) =>
      if form = .header then .error (.taken name none)
      else if form = .implicit && rest.isEmpty then .error (.taken next none)
      else
        (insert place v passed inner (next :: rest)).map fun inner =>
          entries.set name (.table form inner)
    | some (.tables (last :: earlier)) =>
      if rest.isEmpty then .error (.taken next none)
      else
        (insert place v passed last (next :: rest)).map fun last =>
          entries.set name (.tables (last :: earlier))
    | some (.tables []) => .error (.taken name none)

/-- Changes the table that a header leads to. -/
def alter (change : Entries → Except Clash Entries) (entries : Entries) (way : List String) :
    Except Clash Entries :=
  match way with
  | [] => change entries
  | name :: rest =>
    match entries.lookup name with
    | some (.table form inner) =>
      (alter change inner rest).map fun inner => entries.set name (.table form inner)
    | some (.tables (last :: earlier)) =>
      (alter change last rest).map fun last => entries.set name (.tables (last :: earlier))
    | _ => .error (.taken name none)

/-- Makes the tables in front of the last name of a header and changes what the last name stands
for. -/
def openWith (change : Option Item → Option Item) (passed : List String) (entries : Entries)
    (way : List String) : Except Clash Entries :=
  match way with
  | [] => .ok entries
  | [last] =>
    match change (entries.lookup last) with
    | some item => .ok (entries.set last item)
    | none => .error (.taken (name last) (some passed))
  | first :: rest =>
    let passed := passed ++ [first]
    match entries.lookup first with
    | none =>
      (openWith change passed [] rest).map fun inner => entries.set first (.table .implicit inner)
    | some (.table form inner) =>
      (openWith change passed inner rest).map fun inner => entries.set first (.table form inner)
    | some (.tables (last :: earlier)) =>
      (openWith change passed last rest).map fun last =>
        entries.set first (.tables (last :: earlier))
    | some (.tables []) => .error (.taken first none)
    | some (.leaf v) => .error (.closed passed (typeName v))

/-- Opens the table of a header.  A table can be opened once. -/
def openTable : Entries → List String → Except Clash Entries :=
  openWith
    (fun
      | none => some (.table .header [])
      | some (.table .implicit inner) => some (.table .header inner)
      | some _ => none)
    []

/-- Opens one more table of a list of tables. -/
def openListed : Entries → List String → Except Clash Entries :=
  openWith
    (fun
      | none => some (.tables [[]])
      | some (.tables all) => some (.tables ([] :: all))
      | some _ => none)
    []

mutual

def Item.datum : Item → Datum
  | .leaf v => v
  | .table _ entries => .table (data entries)
  | .tables all => .list (listed all)

def data : List (String × Item) → List (String × Datum)
  | [] => []
  | (name, item) :: rest => Datum.put name item.datum (data rest)

/-- The values of tables that are held last one first. -/
def listed : List (List (String × Item)) → List Datum
  | [] => []
  | entries :: earlier => listed earlier ++ [.table (data entries)]

end

end ProjectIndex.Toml
