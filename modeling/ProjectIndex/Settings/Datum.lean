import ProjectIndex.Decimal.Shortest
import ProjectIndex.Text.Quoted

/-!
# Settings before they are typed

Settings come in layers: a file, then the environment.  A layer is a tree of named values; a later
layer overrides an earlier one name by name.
-/

namespace ProjectIndex

/-- A value that somebody set. -/
inductive Datum where
  | flag (b : Bool)
  | unsigned (n : Nat)
  | signed (i : Int)
  /-- A double, by its bits. -/
  | float (bits : UInt64)
  | char (c : Char)
  | text (s : String)
  | list (items : List Datum)
  /-- Names with their values, sorted by name. -/
  | table (entries : List (String × Datum))
  deriving Repr, Inhabited

namespace Datum

/-- A number as messages show it: always positional, without a point where none is needed. -/
def floatStyle : Decimal.Style where
  tie := .up
  firstPositional := none
  lastPositional := none
  keepPoint := false
  plusSign := false

/-- What messages call a value. -/
def describe : Datum → String
  | .flag b => "bool " ++ (if b then "true" else "false")
  | .unsigned n => "unsigned int `" ++ toString n ++ "`"
  | .signed i => "signed int `" ++ toString i ++ "`"
  | .float bits => "float `" ++ floatStyle.text bits ++ "`"
  | .char c => "string " ++ Quoted.text c.toString
  | .text s => "string " ++ Quoted.text s
  | .list _ => "sequence"
  | .table _ => "map"

/-- Puts an entry in its place, in place of one with the same name. -/
def put (name : String) (v : Datum) : List (String × Datum) → List (String × Datum)
  | [] => [(name, v)]
  | (n, w) :: rest =>
    if name = n then (name, v) :: rest
    else if name < n then (name, v) :: (n, w) :: rest
    else (n, w) :: put name v rest

mutual

/-- The later value, tables merged name by name. -/
def override (old : Option Datum) (new : Datum) : Datum :=
  match old, new with
  | some (.table entries), .table later => .table (overrideAll entries later)
  | _, new => new

/-- The entries of a table after those of a later one. -/
def overrideAll (entries : List (String × Datum)) (later : List (String × Datum)) :
    List (String × Datum) :=
  match later with
  | [] => entries
  | (name, v) :: rest =>
    overrideAll (put name (override (entries.lookup name) v) entries) rest

end

/-- The value under a path of names. -/
def nest (names : List String) (v : Datum) : Datum :=
  names.foldr (fun name inner => .table [(name, inner)]) v

end Datum

end ProjectIndex
