import ProjectIndex.Decimal.Shortest

/-!
# Bytes in hexadecimal

Two digits for each byte, the higher one first.
-/

namespace ProjectIndex.Hex

def ofByte (b : UInt8) : String :=
  Decimal.padLeft 2 (String.ofList (Nat.toDigits 16 b.toNat))

def ofBytes (bytes : List UInt8) : String :=
  String.join (bytes.map ofByte)

/-- The value of a digit. -/
def digit? (c : Char) : Option Nat :=
  if c.isDigit then some (c.toNat - '0'.toNat)
  else if 'a' ≤ c && c ≤ 'f' then some (c.toNat - 'a'.toNat + 10)
  else if 'A' ≤ c && c ≤ 'F' then some (c.toNat - 'A'.toNat + 10)
  else none

/-- The character that is numbered by the first `count` digits of a text. -/
def char? (count : Nat) (cs : List Char) : Option Char := do
  let ds ← (cs.take count).mapM digit?
  let n := ds.foldl (fun n d => n * 16 + d) 0
  if ds.length = count && n.isValidChar then some (Char.ofNat n) else none

/-- The bytes that pairs of digits stand for; anything else has none. -/
def bytes? : List Char → Option (List UInt8)
  | [] => some []
  | a :: b :: rest => do
    return UInt8.ofNat ((← digit? a) * 16 + (← digit? b)) :: (← bytes? rest)
  | [_] => none

end ProjectIndex.Hex
