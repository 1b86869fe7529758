import ProjectIndex.Json.Reader

/-!
# Passing over JSON

A value that nobody asked for is read only as far as it takes to find its end.  Numbers are not
computed, so none is out of range; escapes are checked one by one, so surrogates need not be paired;
and values may be nested to any depth.
-/

namespace ProjectIndex.Json

def skipExponent (c : Cursor) : Except Fault Cursor :=
  let c := c.skip
  let c := if c.peekOrZero = 0x2B ∨ c.peekOrZero = 0x2D then c.skip else c
  if isDigit c.peekOrZero then .ok c.skipDigits else c.skip.fail .invalidNumber

def skipScale (c : Cursor) : Except Fault Cursor :=
  if c.peekOrZero = 0x65 ∨ c.peekOrZero = 0x45 then skipExponent c else .ok c

/-- Passes over a number after its sign. -/
def skipNumber (c : Cursor) : Except Fault Cursor :=
  let tail (c : Cursor) : Except Fault Cursor :=
    if c.peekOrZero = 0x2E then
      if isDigit c.skip.peekOrZero then skipScale c.skip.skipDigits
      else c.skip.failAtNext .invalidNumber
    else skipScale c
  if c.peekOrZero = 0x30 then
    if isDigit c.skip.peekOrZero then c.skip.failAtNext .invalidNumber else tail c.skip
  else if isDigit c.peekOrZero then tail c.skipDigits
  else c.skip.fail .invalidNumber

/-- Passes over an escape after its backslash. -/
def skipEscape (c : Cursor) : Except Fault Cursor :=
  match c.rest with
  | [] => c.fail .endOfString
  | b :: _ =>
    if b = 0x75 then (readHex c.skip).map (·.2)
    else if "\"\\/bfnrt".toList.contains (Char.ofNat b.toNat) then .ok c.skip
    else c.skip.fail .invalidEscape

/-- Passes over a string after its opening quote. -/
def skipString (c : Cursor) : Except Fault Cursor :=
  go c.rest.length c
where
  /-- Passes over plain bytes and escapes. -/
  go : Nat → Cursor → Except Fault Cursor
    | fuel, c =>
      let plain := c.rest.takeWhile fun b => b != 0x22 && b != 0x5C && 0x20 ≤ b
      let c : Cursor := ⟨c.rest.drop plain.length, c.offset + plain.length⟩
      match c.rest with
      | [] => c.fail .endOfString
      | b :: _ =>
        if b = 0x22 then .ok c.skip
        else if b = 0x5C then
          match fuel with
          | 0 => c.fail .endOfString
          | fuel + 1 => do go fuel (← skipEscape c.skip)
        else c.fail .controlCharacter

/-- What a value stands in. -/
inductive Bracket where
  | list
  | object
  deriving DecidableEq, Repr

def Bracket.closing : Bracket → UInt8
  | .list => 0x5D
  | .object => 0x7D

/-- The input ends inside a bracket. -/
def Bracket.atEnd : Bracket → Problem
  | .list => .endOfList
  | .object => .endOfObject

/-- A value in a bracket is followed by something else than it may be. -/
def Bracket.unexpected : Bracket → Problem
  | .list => .expectedListComma
  | .object => .expectedObjectComma

/-- Passes over the key and the colon in front of a member's value. -/
def skipKey (c : Cursor) : Except Fault Cursor :=
  let c := c.skipBlanks
  match c.rest with
  | [] => c.failAtNext .endOfObject
  | b :: _ =>
    if b = 0x22 then do
      let c ← skipString c.skip
      let (_, c) ← readColon c
      return c
    else c.failAtNext .keyNotString

mutual

/-- Passes over a value and everything up to the end of the outermost of the brackets around it. -/
def skipFrom (fuel : Nat) (around : List Bracket) (c : Cursor) : Except Fault Cursor :=
  match fuel with
  | 0 => c.fail .endOfValue
  | fuel + 1 =>
    let c := c.skipBlanks
    match c.rest with
    | [] => c.failAtNext .endOfValue
    | b :: _ =>
      match Char.ofNat b.toNat with
      | 'n' => do
        let (_, c) ← readWord c.skip [0x75, 0x6C, 0x6C]
        skipAfter fuel around true c
      | 't' => do
        let (_, c) ← readWord c.skip [0x72, 0x75, 0x65]
        skipAfter fuel around true c
      | 'f' => do
        let (_, c) ← readWord c.skip [0x61, 0x6C, 0x73, 0x65]
        skipAfter fuel around true c
      | '-' => do skipAfter fuel around true (← skipNumber c.skip)
      | '"' => do skipAfter fuel around true (← skipString c.skip)
      | '[' => skipAfter fuel (.list :: around) false c.skip
      | '\x7b' => skipAfter fuel (.object :: around) false c.skip
      | _ =>
        if isDigit b then do skipAfter fuel around true (← skipNumber c)
        else c.failAtNext .expectedValue

/-- Goes on inside a bracket; `filled` says that a value stands right in front. -/
def skipAfter (fuel : Nat) (around : List Bracket) (filled : Bool) (c : Cursor) :
    Except Fault Cursor :=
  match fuel, around with
  | _, [] => .ok c
  | 0, _ => c.fail .endOfValue
  | fuel + 1, bracket :: outer =>
    let c := c.skipBlanks
    let next (c : Cursor) : Except Fault Cursor := do
      let c ← if bracket = .object then skipKey c else .ok c
      skipFrom fuel around c
    match c.rest with
    | [] => c.failAtNext bracket.atEnd
    | b :: _ =>
      if b = 0x2C && filled then next c.skip
      else if b = bracket.closing then skipAfter fuel outer true c.skip
      else if filled then c.failAtNext bracket.unexpected
      else next c

end

def skipValue (c : Cursor) : Except Fault Cursor :=
  skipFrom (fuelFor c.rest) [] c

end ProjectIndex.Json
