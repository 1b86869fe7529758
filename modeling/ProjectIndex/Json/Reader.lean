import ProjectIndex.Json.Value
import ProjectIndex.Text.Utf8

/-!
# Reading JSON

A reader over bytes that reports the first problem with its place.  Places are counted in bytes,
columns from the last line feed.  A problem is placed either where reading stopped or at the byte
that was looked at next; both are kept apart because the answers show the difference.

Nesting is limited: the value at level 128 is refused.  A number that does not fit in sixty-four
bits becomes a double by one multiplication or division of its leading digits with a power of ten,
which is the rule that fixes its last bit.
-/

namespace ProjectIndex.Json

/-- Why a text is no JSON value, or not one of the wanted shape. -/
inductive Problem where
  | endOfList
  | endOfObject
  | endOfString
  | endOfValue
  | expectedColon
  | expectedListComma
  | expectedObjectComma
  | expectedWord
  | expectedValue
  | invalidEscape
  | invalidNumber
  | numberOutOfRange
  | invalidScalar
  | controlCharacter
  | keyNotString
  | loneSurrogate
  | trailingComma
  | trailingCharacters
  | unfinishedHexEscape
  | tooDeep
  /-- The text is JSON, but not of the wanted shape. -/
  | shape (text : String)
  deriving DecidableEq, Repr

/-- The text of a problem. -/
def Problem.message : Problem → String
  | .endOfList => "EOF while parsing a list"
  | .endOfObject => "EOF while parsing an object"
  | .endOfString => "EOF while parsing a string"
  | .endOfValue => "EOF while parsing a value"
  | .expectedColon => "expected `:`"
  | .expectedListComma => "expected `,` or `]`"
  | .expectedObjectComma => "expected `,` or `\x7d`"
  | .expectedWord => "expected ident"
  | .expectedValue => "expected value"
  | .invalidEscape => "invalid escape"
  | .invalidNumber => "invalid number"
  | .numberOutOfRange => "number out of range"
  | .invalidScalar => "invalid unicode code point"
  | .controlCharacter => "control character (\\u0000-\\u001F) found while parsing a string"
  | .keyNotString => "key must be a string"
  | .loneSurrogate => "lone leading surrogate in hex escape"
  | .trailingComma => "trailing comma"
  | .trailingCharacters => "trailing characters"
  | .unfinishedHexEscape => "unexpected end of hex escape"
  | .tooDeep => "recursion limit exceeded"
  | .shape text => text

structure Fault where
  problem : Problem
  offset : Nat
  deriving DecidableEq, Repr

/-- What is left to read, and how many bytes came before. -/
structure Cursor where
  rest : List UInt8
  offset : Nat
  deriving DecidableEq, Repr

namespace Cursor

def start (bytes : List UInt8) : Cursor := ⟨bytes, 0⟩

def peek (c : Cursor) : Option UInt8 := c.rest.head?

def peekOrZero (c : Cursor) : UInt8 := c.rest.headD 0

def skip (c : Cursor) : Cursor :=
  match c.rest with
  | [] => c
  | _ :: rest => ⟨rest, c.offset + 1⟩

def fail {α : Type} (c : Cursor) (p : Problem) : Except Fault α :=
  .error ⟨p, c.offset⟩

def failAtNext {α : Type} (c : Cursor) (p : Problem) : Except Fault α :=
  .error ⟨p, if c.rest.isEmpty then c.offset else c.offset + 1⟩

def isBlank (b : UInt8) : Bool :=
  b == 0x20 || b == 0x0A || b == 0x09 || b == 0x0D

/-- Skips blanks. -/
def skipBlanks (c : Cursor) : Cursor :=
  go c.rest c.offset
where
  /-- Skips blanks from a place on. -/
  go : List UInt8 → Nat → Cursor
    | [], n => ⟨[], n⟩
    | b :: rest, n => if isBlank b then go rest (n + 1) else ⟨b :: rest, n⟩

def skipDigits (c : Cursor) : Cursor :=
  let digits := c.rest.takeWhile fun b => 0x30 ≤ b && b ≤ 0x39
  ⟨c.rest.drop digits.length, c.offset + digits.length⟩

end Cursor

def isDigit (b : UInt8) : Bool :=
  0x30 ≤ b && b ≤ 0x39

/-- Reads the rest of a word such as `null`. -/
def readWord (c : Cursor) : List UInt8 → Except Fault (Unit × Cursor)
  | [] => .ok ((), c)
  | w :: word =>
    match c.rest with
    | [] => c.fail .endOfValue
    | b :: _ => if b = w then readWord c.skip word else c.skip.fail .expectedWord

/-- The largest unsigned number that stays whole. -/
def maxWhole : Nat := UInt64.size - 1

/-- The double nearest to `digits * 10 ^ exponent`, as the product or quotient of two doubles.  An
exponent beyond the table is taken in steps of 308. -/
def doubleOf (c : Cursor) (negative : Bool) (digits : Nat) (exponent : Int) :
    Except Fault (UInt64 × Cursor) :=
  go 8 digits.toUInt64.toFloat exponent
where
  /-- Scales until the exponent is used up. -/
  go : Nat → Float → Int → Except Fault (UInt64 × Cursor)
    | 0, f, _ => .ok ((if negative then -f else f).toBits, c)
    | fuel + 1, f, e =>
      if e.natAbs ≤ 308 then
        let power := Float.ofScientific 1 false e.natAbs
        if 0 ≤ e then
          let g := f * power
          if g.isInf then c.fail .numberOutOfRange
          else .ok ((if negative then -g else g).toBits, c)
        else
          let g := f / power
          .ok ((if negative then -g else g).toBits, c)
      else if f == 0 then .ok ((if negative then -f else f).toBits, c)
      else if 0 ≤ e then c.fail .numberOutOfRange
      else go fuel (f / Float.ofScientific 1 false 308) (e + 308)

/-- Reads an exponent and gives the double. -/
def readExponent (c : Cursor) (negative : Bool) (digits : Nat) (exponent : Int) :
    Except Fault (UInt64 × Cursor) :=
  let c := c.skip
  let sign := c.peekOrZero
  let c := if sign = 0x2B ∨ sign = 0x2D then c.skip else c
  match c.rest with
  | [] => c.fail .endOfValue
  | b :: _ =>
    if isDigit b then
      go c.rest.length c 0 (sign = 0x2D)
    else c.skip.fail .invalidNumber
where
  /-- Collects digits; an exponent beyond thirty-one bits is out of range, or makes the number
  zero. -/
  go : Nat → Cursor → Nat → Bool → Except Fault (UInt64 × Cursor)
    | 0, c, e, down => finish c e down
    | fuel + 1, c, e, down =>
      match c.rest with
      | [] => finish c e down
      | b :: _ =>
        if isDigit b then
          let e' := e * 10 + (b.toNat - 0x30)
          if UInt32.size / 2 ≤ e' then
            if digits ≠ 0 ∧ !down then c.skip.fail .numberOutOfRange
            else .ok ((if negative then (-0.0 : Float) else 0.0).toBits, c.skipDigits)
          else go fuel c.skip e' down
        else finish c e down
  /-- The number once all digits are read. -/
  finish (c : Cursor) (e : Nat) (down : Bool) : Except Fault (UInt64 × Cursor) :=
    doubleOf c negative digits (if down then exponent - e else exponent + e)

/-- What may follow the digits of a double. -/
def readScale (c : Cursor) (negative : Bool) (digits : Nat) (exponent : Int) :
    Except Fault (UInt64 × Cursor) :=
  if c.peekOrZero = 0x65 ∨ c.peekOrZero = 0x45 then readExponent c negative digits exponent
  else doubleOf c negative digits exponent

/-- Reads the digits after a point.  Digits beyond sixty-four bits are ignored. -/
def readFraction (c : Cursor) (negative : Bool) (digits : Nat) (exponent : Int) :
    Except Fault (UInt64 × Cursor) :=
  go c.rest.length c.skip digits 0
where
  /-- Collects digits while they fit. -/
  go : Nat → Cursor → Nat → Nat → Except Fault (UInt64 × Cursor)
    | 0, c, digits, count => finish c digits count
    | fuel + 1, c, digits, count =>
      match c.rest with
      | [] => finish c digits count
      | b :: _ =>
        if isDigit b then
          let digits' := digits * 10 + (b.toNat - 0x30)
          if maxWhole < digits' then readScale c.skipDigits negative digits (exponent - count)
          else go fuel c.skip digits' (count + 1)
        else finish c digits count
  /-- The number once all digits are read; a point needs a digit after it. -/
  finish (c : Cursor) (digits count : Nat) : Except Fault (UInt64 × Cursor) :=
    if count = 0 then c.failAtNext (if c.rest.isEmpty then .endOfValue else .invalidNumber)
    else readScale c negative digits (exponent - count)

/-- Reads on after the whole digits of a number. -/
def readNumberTail (c : Cursor) (negative : Bool) (digits : Nat) : Except Fault (Number × Cursor) :=
  if c.peekOrZero = 0x2E then do
    let (bits, c) ← readFraction c negative digits 0
    return (.double bits, c)
  else if c.peekOrZero = 0x65 ∨ c.peekOrZero = 0x45 then do
    let (bits, c) ← readExponent c negative digits 0
    return (.double bits, c)
  else if !negative then .ok (.whole digits, c)
  else if digits = 0 ∨ UInt64.size / 2 < digits then
    .ok (.double (-digits.toUInt64.toFloat).toBits, c)
  else .ok (.negative digits, c)

/-- Reads the digits of a whole number that no longer fits: the further ones only count. -/
def readLong (c : Cursor) (negative : Bool) (digits : Nat) : Except Fault (Number × Cursor) := do
  let after := c.skipDigits
  let exponent : Int := (after.offset : Int) - c.offset
  let (bits, c) ←
    if after.peekOrZero = 0x2E then readFraction after negative digits exponent
    else readScale after negative digits exponent
  return (.double bits, c)

/-- Reads a number after its sign. -/
def readNumber (c : Cursor) (negative : Bool) : Except Fault (Number × Cursor) :=
  match c.rest with
  | [] => c.fail .endOfValue
  | b :: _ =>
    if b = 0x30 then
      if isDigit c.skip.peekOrZero then c.skip.failAtNext .invalidNumber
      else readNumberTail c.skip negative 0
    else if isDigit b then go c.rest.length c.skip (b.toNat - 0x30)
    else c.skip.fail .invalidNumber
where
  /-- Collects digits while they fit. -/
  go : Nat → Cursor → Nat → Except Fault (Number × Cursor)
    | 0, c, digits => readNumberTail c negative digits
    | fuel + 1, c, digits =>
      match c.rest with
      | [] => readNumberTail c negative digits
      | b :: _ =>
        if isDigit b then
          let digits' := digits * 10 + (b.toNat - 0x30)
          if maxWhole < digits' then readLong c negative digits else go fuel c.skip digits'
        else readNumberTail c negative digits

/-- The value of a hexadecimal digit. -/
def hexDigit? (b : UInt8) : Option Nat :=
  if isDigit b then some (b.toNat - 0x30)
  else if 0x61 ≤ b && b ≤ 0x66 then some (b.toNat - 0x61 + 10)
  else if 0x41 ≤ b && b ≤ 0x46 then some (b.toNat - 0x41 + 10)
  else none

/-- Reads four hexadecimal digits. -/
def readHex (c : Cursor) : Except Fault (Nat × Cursor) :=
  match c.rest with
  | b0 :: b1 :: b2 :: b3 :: rest =>
    let after : Cursor := ⟨rest, c.offset + 4⟩
    match hexDigit? b0, hexDigit? b1, hexDigit? b2, hexDigit? b3 with
    | some d0, some d1, some d2, some d3 => .ok (((d0 * 16 + d1) * 16 + d2) * 16 + d3, after)
    | _, _, _, _ => after.fail .invalidEscape
  | rest => Cursor.fail ⟨[], c.offset + rest.length⟩ .endOfString

/-- Reads the code of a `u` escape; two surrogates make one scalar value. -/
def readUnicode (c : Cursor) : Except Fault (Char × Cursor) := do
  let (high, c) ← readHex c
  if 0xDC00 ≤ high ∧ high ≤ 0xDFFF then c.fail .loneSurrogate
  else if high < 0xD800 ∨ 0xDBFF < high then return (Char.ofNat high, c)
  else do
    let c ← expect c 0x5C
    let c ← expect c 0x75
    let (low, c) ← readHex c
    if low < 0xDC00 ∨ 0xDFFF < low then c.fail .loneSurrogate
    else return (Char.ofNat ((high - 0xD800) * 1024 + (low - 0xDC00) + 0x10000), c)
where
  /-- The byte that must follow a first surrogate. -/
  expect (c : Cursor) (b : UInt8) : Except Fault Cursor :=
    match c.rest with
    | [] => c.fail .endOfString
    | next :: _ => if next = b then .ok c.skip else c.skip.fail .unfinishedHexEscape

/-- Reads an escape after its backslash. -/
def readEscape (c : Cursor) : Except Fault (Char × Cursor) :=
  match c.rest with
  | [] => c.fail .endOfString
  | b :: _ =>
    match Char.ofNat b.toNat with
    | '"' => .ok ('"', c.skip)
    | '\\' => .ok ('\\', c.skip)
    | '/' => .ok ('/', c.skip)
    | 'b' => .ok ('\x08', c.skip)
    | 'f' => .ok ('\x0c', c.skip)
    | 'n' => .ok ('\n', c.skip)
    | 'r' => .ok ('\r', c.skip)
    | 't' => .ok ('\t', c.skip)
    | 'u' => readUnicode c.skip
    | _ => c.skip.fail .invalidEscape

/-- The text of a string that was read up to its closing quote.  A problem with its bytes is placed
as if the decoded bytes stood right before the end of the string. -/
def stringText (c : Cursor) (decoded : List UInt8) : Except Fault (String × Cursor) :=
  match Utf8.text? decoded with
  | some s => .ok (s, c)
  | none => .error ⟨.invalidScalar, c.offset - decoded.length + Utf8.validLength decoded⟩

/-- Reads a string after its opening quote. -/
def readString (c : Cursor) : Except Fault (String × Cursor) :=
  go c.rest.length c []
where
  /-- Decodes up to the closing quote. -/
  go : Nat → Cursor → List UInt8 → Except Fault (String × Cursor)
    | fuel, c, done =>
      let plain := c.rest.takeWhile fun b => b != 0x22 && b != 0x5C && 0x20 ≤ b
      let done := plain.reverse ++ done
      let c : Cursor := ⟨c.rest.drop plain.length, c.offset + plain.length⟩
      match c.rest with
      | [] => c.fail .endOfString
      | b :: _ =>
        if b = 0x22 then stringText c.skip done.reverse
        else if b = 0x5C then
          match fuel with
          | 0 => c.fail .endOfString
          | fuel + 1 => do
            let (ch, c) ← readEscape c.skip
            go fuel c ((Utf8.encode ch.toString).reverse ++ done)
        else c.skip.fail .controlCharacter

/-- Reads the colon between a key and its value. -/
def readColon (c : Cursor) : Except Fault (Unit × Cursor) :=
  let c := c.skipBlanks
  match c.rest with
  | [] => c.failAtNext .endOfObject
  | b :: _ => if b = 0x3A then .ok ((), c.skip) else c.failAtNext .expectedColon

/-- Whether another element of a list follows, the comma before it read. -/
def readListSeparator (c : Cursor) (first : Bool) : Except Fault (Bool × Cursor) :=
  let c := c.skipBlanks
  match c.rest with
  | [] => c.failAtNext .endOfList
  | b :: _ =>
    if b = 0x5D then .ok (false, c)
    else if first then .ok (true, c)
    else if b = 0x2C then
      let c := c.skip.skipBlanks
      match c.rest with
      | [] => c.failAtNext .endOfValue
      | b :: _ => if b = 0x5D then c.failAtNext .trailingComma else .ok (true, c)
    else c.failAtNext .expectedListComma

/-- Whether another member of an object follows, the comma before it read. -/
def readObjectSeparator (c : Cursor) (first : Bool) : Except Fault (Bool × Cursor) :=
  let c := c.skipBlanks
  match c.rest with
  | [] => c.failAtNext .endOfObject
  | b :: _ =>
    if b = 0x7D then .ok (false, c)
    else if first then
      if b = 0x22 then .ok (true, c) else c.failAtNext .keyNotString
    else if b = 0x2C then
      let c := c.skip.skipBlanks
      match c.rest with
      | [] => c.failAtNext .endOfValue
      | b :: _ =>
        if b = 0x22 then .ok (true, c)
        else if b = 0x7D then c.failAtNext .trailingComma
        else c.failAtNext .keyNotString
    else c.failAtNext .expectedObjectComma

mutual

/-- Reads a value.  `depth` is the number of levels still allowed. -/
def readValue (fuel depth : Nat) (c : Cursor) : Except Fault (Value × Cursor) :=
  match fuel with
  | 0 => c.fail .endOfValue
  | fuel + 1 =>
    let c := c.skipBlanks
    match c.rest with
    | [] => c.failAtNext .endOfValue
    | b :: _ =>
      match Char.ofNat b.toNat with
      | 'n' => do
        let (_, c) ← readWord c.skip [0x75, 0x6C, 0x6C]
        return (.null, c)
      | 't' => do
        let (_, c) ← readWord c.skip [0x72, 0x75, 0x65]
        return (.bool true, c)
      | 'f' => do
        let (_, c) ← readWord c.skip [0x61, 0x6C, 0x73, 0x65]
        return (.bool false, c)
      | '-' => do
        let (n, c) ← readNumber c.skip true
        return (.number n, c)
      | '"' => do
        let (s, c) ← readString c.skip
        return (.string s, c)
      | '[' =>
        if depth ≤ 1 then c.failAtNext .tooDeep
        else do
          let (items, c) ← readItems fuel (depth - 1) c.skip true
          return (.array items, c)
      | '\x7b' =>
        if depth ≤ 1 then c.failAtNext .tooDeep
        else do
          let (members, c) ← readMembers fuel (depth - 1) c.skip []
          return (.object members, c)
      | _ =>
        if isDigit b then do
          let (n, c) ← readNumber c false
          return (.number n, c)
        else c.failAtNext .expectedValue

/-- Reads the elements of a list and its closing bracket. -/
def readItems (fuel depth : Nat) (c : Cursor) (first : Bool) : Except Fault (List Value × Cursor) :=
  match fuel with
  | 0 => c.fail .endOfValue
  | fuel + 1 => do
    let (more, c) ← readListSeparator c first
    if more then
      let (v, c) ← readValue fuel depth c
      let (rest, c) ← readItems fuel depth c false
      return (v :: rest, c)
    else return ([], c.skip)

/-- Reads the members of an object and its closing brace. -/
def readMembers (fuel depth : Nat) (c : Cursor) (done : List (String × Value)) :
    Except Fault (List (String × Value) × Cursor) :=
  match fuel with
  | 0 => c.fail .endOfValue
  | fuel + 1 => do
    let (more, c) ← readObjectSeparator c done.isEmpty
    if more then
      let (key, c) ← readString c.skip
      let (_, c) ← readColon c
      let (v, c) ← readValue fuel depth c
      readMembers fuel depth c (insertMember key v done)
    else return (done, c.skip)

end

/-- Nothing but blanks may follow a value. -/
def readEnd (c : Cursor) : Except Fault Unit :=
  let c := c.skipBlanks
  if c.rest.isEmpty then .ok () else c.failAtNext .trailingCharacters

/-- The level at which nesting is refused. -/
def depthLimit : Nat := 128

/-- Enough steps to read any value in that many bytes. -/
def fuelFor (bytes : List UInt8) : Nat :=
  2 * bytes.length + 4

/-- Line and column of a place. -/
def place (bytes : List UInt8) (offset : Nat) : Nat × Nat :=
  let before := bytes.take offset
  let lines := before.count 0x0A
  let column := (before.reverse.takeWhile (· != 0x0A)).length
  (lines + 1, column)

/-- The text of a fault in a text. -/
def Fault.message (bytes : List UInt8) (f : Fault) : String :=
  let (line, column) := place bytes f.offset
  f.problem.message ++ " at line " ++ toString line ++ " column " ++ toString column

/-- Reads one value that fills the whole text. -/
def parse (bytes : List UInt8) : Except Fault Value := do
  let (v, c) ← readValue (fuelFor bytes) depthLimit (.start bytes)
  readEnd c
  return v

end ProjectIndex.Json
