import ProjectIndex.Decimal.Shortest

/-!
# JSON values

A value as the manifest reader keeps it.  Whole numbers that fit in sixty-four bits stay whole;
every other number is a double, held by its bits.  The members of an object are sorted by key and
each key occurs once, so a value has one written form.
-/

namespace ProjectIndex.Json

/-- A number: unsigned, negative, or a double given by its bits. -/
inductive Number where
  | whole (n : Nat)
  /-- The number `-n`, with `n` positive. -/
  | negative (n : Nat)
  | double (bits : UInt64)
  deriving DecidableEq, Repr, Inhabited

inductive Value where
  | null
  | bool (b : Bool)
  | number (n : Number)
  | string (s : String)
  | array (items : List Value)
  | object (members : List (String × Value))
  deriving Repr, BEq, Inhabited

/-- Puts a member in its place; the last one of several with the same key counts. -/
def insertMember (key : String) (v : Value) : List (String × Value) → List (String × Value)
  | [] => [(key, v)]
  | (k, w) :: rest =>
    if key = k then (key, v) :: rest
    else if key < k then (key, v) :: (k, w) :: rest
    else (k, w) :: insertMember key v rest

namespace Value

def ofMembers (members : List (String × Value)) : Value :=
  .object (members.foldl (fun sorted (k, v) => insertMember k v sorted) [])

def get? (v : Value) (key : String) : Option Value :=
  match v with
  | .object members => (members.find? (·.1 = key)).map (·.2)
  | _ => none

def nat (n : Nat) : Value :=
  .number (.whole n)

def int (i : Int) : Value :=
  if i < 0 then .number (.negative i.natAbs) else .number (.whole i.natAbs)

def ofOption (v : Option Value) : Value :=
  v.getD .null

end Value

/-- Positional from `1e-5` up to `1e15`; a whole double keeps its point, an exponent its sign. -/
def doubleStyle : Decimal.Style where
  tie := .toEven
  firstPositional := some (-5)
  lastPositional := some 15
  keepPoint := true
  plusSign := true

def Number.text : Number → String
  | .whole n => toString n
  | .negative n => "-" ++ toString n
  | .double bits => if Decimal.isFinite bits then doubleStyle.text bits else "null"

/-- One character inside a quoted string. -/
def escapeChar (c : Char) : String :=
  match c with
  | '"' => "\\\""
  | '\\' => "\\\\"
  | '\n' => "\\n"
  | '\r' => "\\r"
  | '\t' => "\\t"
  | '\x08' => "\\b"
  | '\x0c' => "\\f"
  | _ =>
    if c.toNat < 0x20 then
      "\\u" ++ Decimal.padLeft 4 (String.ofList (Nat.toDigits 16 c.toNat))
    else c.toString

def quote (s : String) : String :=
  "\"" ++ String.join (s.toList.map escapeChar) ++ "\""

mutual

/-- The text of a value without blanks. -/
def Value.text : Value → String
  | .null => "null"
  | .bool true => "true"
  | .bool false => "false"
  | .number n => n.text
  | .string s => quote s
  | .array items => "[" ++ itemsText items ++ "]"
  | .object members => "\x7b" ++ membersText members ++ "\x7d"

def itemsText : List Value → String
  | [] => ""
  | [v] => v.text
  | v :: rest => v.text ++ "," ++ itemsText rest

def membersText : List (String × Value) → String
  | [] => ""
  | [(k, v)] => quote k ++ ":" ++ v.text
  | (k, v) :: rest => quote k ++ ":" ++ v.text ++ "," ++ membersText rest

end

end ProjectIndex.Json
