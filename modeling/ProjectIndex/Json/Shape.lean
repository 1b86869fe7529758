import ProjectIndex.Json.Skip
import ProjectIndex.Text.Quoted

/-!
# JSON of a given shape

Readers for values of which the shape is known beforehand.  A value of another shape is refused with
the words "invalid type", placed where reading stopped.  A record is written as an object, or as a
list in the order of its fields.
-/

namespace ProjectIndex.Json

/-- What messages call a value; lists and objects are named without being read. -/
def Value.title : Value → String
  | .null => "null"
  | .bool b => "boolean `" ++ (if b then "true" else "false") ++ "`"
  | .number (.whole n) => "integer `" ++ toString n ++ "`"
  | .number (.negative n) => "integer `-" ++ toString n ++ "`"
  | .number n => "floating point `" ++ (Value.number n).text ++ "`"
  | .string s => "string " ++ Quoted.text s
  | .array _ => "sequence"
  | .object _ => "map"

/-- Refuses the value that comes next.  Lists and objects are refused at their first byte. -/
def mismatch {α : Type} (c : Cursor) (expected : String) : Except Fault α :=
  let refuse (c : Cursor) (title : String) : Except Fault α :=
    c.fail (.shape ("invalid type: " ++ title ++ ", expected " ++ expected))
  match c.rest with
  | [] => c.failAtNext .expectedValue
  | b :: _ =>
    if b = 0x5B then refuse c (Value.array []).title
    else if b = 0x7B then refuse c (Value.object []).title
    else do
      let (v, c) ← readValue 1 2 c
      refuse c v.title

/-- The value that comes next begins with one of these bytes. -/
def startsWith (c : Cursor) (starts : UInt8 → Bool) : Except Fault Bool :=
  match c.rest with
  | [] => c.failAtNext .endOfValue
  | b :: _ => .ok (starts b)

/-- A whole number between two bounds, called `type` in messages. -/
def readInteger (type : String) (low high : Int) (c : Cursor) : Except Fault (Value × Cursor) := do
  let c := c.skipBlanks
  if ← startsWith c fun b => isDigit b || b = 0x2D then
    let (v, c) ← readValue 1 2 c
    let outside : Except Fault (Value × Cursor) :=
      c.fail (.shape ("invalid value: " ++ v.title ++ ", expected " ++ type))
    match v with
    | .number (.whole n) => if (n : Int) ≤ high then return (v, c) else outside
    | .number (.negative n) => if low ≤ -(n : Int) then return (v, c) else outside
    | v => c.fail (.shape ("invalid type: " ++ v.title ++ ", expected " ++ type))
  else mismatch c type

def readUnsigned : Cursor → Except Fault (Value × Cursor) :=
  readInteger "u64" 0 (UInt64.size - 1)

def readSigned : Cursor → Except Fault (Value × Cursor) :=
  readInteger "i64" (-(UInt64.size / 2)) (UInt64.size / 2 - 1)

/-- A string, called `expected` in messages. -/
def readText (expected : String) (c : Cursor) : Except Fault (Value × Cursor) := do
  let c := c.skipBlanks
  if ← startsWith c (· = 0x22) then
    let (s, c) ← readString c.skip
    return (.string s, c)
  else mismatch c expected

/-- Null, or what another reader reads. -/
def readOptional (read : Cursor → Except Fault (Value × Cursor)) (c : Cursor) :
    Except Fault (Value × Cursor) :=
  let c := c.skipBlanks
  if c.peek = some 0x6E then readValue 1 2 c else read c

/-- The words for a choice. -/
def choice (words : List String) : String :=
  let quoted := words.map fun w => "`" ++ w ++ "`"
  match quoted with
  | [a] => a
  | [a, b] => a ++ " or " ++ b
  | all => "one of " ++ String.intercalate ", " all

/-- One of some words, alone or as the name of a null. -/
def readWordOf (words : List String) (c : Cursor) : Except Fault (Value × Cursor) := do
  let c := c.skipBlanks
  match c.rest with
  | [] => c.failAtNext .endOfValue
  | b :: _ =>
    if b = 0x22 then word c
    else if b = 0x7B then
      let (v, c) ← word c.skip.skipBlanks
      let (_, c) ← readColon c
      let c := c.skipBlanks
      if c.rest.isEmpty then c.failAtNext .endOfValue
      else if c.peek = some 0x6E then
        let (_, c) ← readValue 1 2 c
        let c := c.skipBlanks
        match c.rest with
        | [] => c.fail .endOfObject
        | b :: _ => if b = 0x7D then return (v, c.skip) else c.fail .expectedValue
      else mismatch c "unit"
    else c.failAtNext .expectedValue
where
  /-- The word itself. -/
  word (c : Cursor) : Except Fault (Value × Cursor) := do
    let (v, c) ← readText "variant identifier" c
    match v with
    | .string s =>
      if words.contains s then return (v, c)
      else c.fail (.shape ("unknown variant `" ++ s ++ "`, expected " ++ choice words))
    | v => return (v, c)

structure Field where
  name : String
  read : Cursor → Except Fault (Value × Cursor)
  /-- Absent means null. -/
  optional : Bool := false

/-- How the inside of a record was left: with the values of the fields, or with a complaint that is
placed after the end of the record. -/
inductive Inside where
  | done (values : List Value) (c : Cursor)
  | complaint (text : String) (c : Cursor)

/-- The values of the fields, or the first one that is missing. -/
def collect (got : List (String × Value)) : List Field → Except String (List Value)
  | [] => .ok []
  | f :: fields => do
    let v ← match got.lookup f.name with
      | some v => .ok v
      | none => if f.optional then .ok .null else .error ("missing field `" ++ f.name ++ "`")
    return v :: (← collect got fields)

/-- The members of a record.  Members that are no fields are passed over. -/
def readNamed (fields : List Field) : Nat → Bool → List (String × Value) → Cursor →
    Except Fault Inside
  | 0, _, _, c => c.fail .endOfObject
  | fuel + 1, first, got, c => do
    let (more, c) ← readObjectSeparator c first
    if !more then
      match collect got fields with
      | .ok values => return .done values c
      | .error text => return .complaint text c
    else
      let (key, c) ← readString c.skip
      match fields.find? (·.name = key) with
      | none =>
        let (_, c) ← readColon c
        let c ← skipValue c
        readNamed fields fuel false got c
      | some f =>
        if (got.lookup key).isSome then return .complaint ("duplicate field `" ++ key ++ "`") c
        else
          let (_, c) ← readColon c
          let (v, c) ← f.read c
          readNamed fields fuel false ((key, v) :: got) c

/-- The elements of a record that is written as a list. -/
def readPlaced (title : String) (count : Nat) : List Field → List Value → Cursor →
    Except Fault Inside
  | [], got, c => .ok (.done got.reverse c)
  | f :: fields, got, c => do
    let (more, c) ← readListSeparator c got.isEmpty
    if more then
      let (v, c) ← f.read c
      readPlaced title count fields (v :: got) c
    else
      return .complaint
        ("invalid length " ++ toString got.length ++ ", expected struct " ++ title ++ " with " ++
          toString count ++ " elements") c

/-- The values of a record's fields in their order. -/
def readRecord (title : String) (fields : List Field) (c : Cursor) :
    Except Fault (List Value × Cursor) := do
  let c := c.skipBlanks
  match c.rest with
  | [] => c.failAtNext .endOfValue
  | b :: _ =>
    if b = 0x5B then
      match ← readPlaced title fields.length fields [] c.skip with
      | .done values c =>
        let c := c.skipBlanks
        match c.rest with
        | [] => c.failAtNext .endOfList
        | b :: _ =>
          if b = 0x5D then return (values, c.skip)
          else if b = 0x2C then
            let c := c.skip.skipBlanks
            c.failAtNext (if c.peek = some 0x5D then .trailingComma else .trailingCharacters)
          else c.failAtNext .trailingCharacters
      | .complaint text c =>
        let c := c.skipBlanks
        (if c.peek = some 0x5D then c.skip else c).fail (.shape text)
    else if b = 0x7B then
      match ← readNamed fields (c.rest.length + 1) true [] c.skip with
      | .done values c => return (values, c.skip)
      | .complaint text c =>
        let c := c.skipBlanks
        (if c.peek = some 0x7D then c.skip else c).fail (.shape text)
    else mismatch c ("struct " ++ title)

/-- Reads a text that holds nothing else. -/
def readWhole {α : Type} (read : Cursor → Except Fault (α × Cursor)) (bytes : List UInt8) :
    Except Fault α := do
  let (a, c) ← read (.start bytes)
  readEnd c
  return a

end ProjectIndex.Json
