/-!
# Shortest decimal text of a binary number

A finite double is `m * 2 ^ q`.  The decimals that read back as it are those between its two
halfway points, the halfway points themselves included exactly when `m` is even.  `shortest` tries
one digit, two digits, and so on, and takes the first decimal that reads back; of two with the same
number of digits the nearer one.  All of it is exact arithmetic on natural numbers.

`Style` holds what a format decides on its own: which of two equally near decimals it takes, where
positional notation ends, how an exponent is written, and whether a whole number keeps its point.
-/

namespace ProjectIndex.Decimal

/-- A positive decimal `digits * 10 ^ exponent`. -/
structure Positive where
  digits : Nat
  exponent : Int
  deriving DecidableEq, Repr

/-- The parts of a double: sign, and the magnitude `mantissa * 2 ^ exponent`. -/
structure Parts where
  negative : Bool
  mantissa : Nat
  exponent : Int
  /-- The neighbour below is half as far away as the one above. -/
  boundary : Bool
  deriving DecidableEq, Repr

/-- The bits of a double in which the exponent is full stand for no number. -/
def isFinite (bits : UInt64) : Bool :=
  (bits.toNat / Nat.pow 2 52) % 2048 ≠ 2047

/-- Splits the bits of a finite double. -/
def parts (bits : UInt64) : Parts :=
  let n := bits.toNat
  let fraction : Nat := n % Nat.pow 2 52
  let exponent : Nat := (n / Nat.pow 2 52) % 2048
  { negative := n / Nat.pow 2 63 = 1
    mantissa := if exponent = 0 then fraction else fraction + Nat.pow 2 52
    exponent := (if exponent = 0 then 1 else (exponent : Int)) - 1075
    boundary := fraction = 0 ∧ 1 < exponent }

def digitCount (n : Nat) : Nat :=
  (Nat.toDigits 10 n).length

/-- The decimal exponent of the first digit of `num / den`, searched downwards below one. -/
def leading (num den : Nat) : Nat → Int
  | 0 => 0
  | fuel + 1 =>
    if den ≤ num then (digitCount (num / den) : Int) - 1 else leading (num * 10) den fuel - 1

def scale (num den : Nat) (k : Int) : Nat × Nat :=
  if 0 ≤ k then (num * Nat.pow 10 k.toNat, den) else (num, den * Nat.pow 10 (-k).toNat)

/-- Which of two equally near decimals is taken. -/
inductive Tie where
  /-- The one with the even last digit. -/
  | toEven
  /-- The larger one. -/
  | up
  deriving DecidableEq, Repr

/-- The nearer one of the two whole numbers around `n / d`, of which `below` is the smaller. -/
def Tie.nearer (tie : Tie) (below n d : Nat) : Nat :=
  match compare (2 * (n - below * d)) d, tie with
  | .lt, _ => below
  | .gt, _ => below + 1
  | .eq, .up => below + 1
  | .eq, .toEven => if below % 2 = 0 then below else below + 1

/-- Tries `count` digits for the value `num / den` whose first digit stands at `top`.  A candidate
reads back when it lies between `low / den` and `high / den`, the ends included if `closed`. -/
def candidate (tie : Tie) (num low high den : Nat) (closed : Bool) (top : Int) (count : Nat) :
    Option Positive :=
  let unit := top - (count : Int) + 1
  let (n, d) := scale num den (-unit)
  let below := n / d
  let inside (digits : Nat) : Bool :=
    let (x, y) := scale digits 1 unit
    let (left, right) := (x * den, y)
    if closed then low * right ≤ left && left ≤ high * right
    else low * right < left && left < high * right
  let above := below + 1
  let hitBelow := inside below && below ≠ 0
  let hitAbove := inside above
  if hitBelow && hitAbove then some ⟨tie.nearer below n d, unit⟩
  else if hitBelow then some ⟨below, unit⟩
  else if hitAbove then some ⟨above, unit⟩
  else none

/-- Moves trailing zeros into the exponent. -/
def dropZeros (fuel : Nat) (p : Positive) : Positive :=
  match fuel with
  | 0 => p
  | fuel + 1 =>
    if p.digits ≠ 0 ∧ p.digits % 10 = 0 then dropZeros fuel ⟨p.digits / 10, p.exponent + 1⟩ else p

/-- The shortest decimal that reads back as a positive magnitude. -/
def shortest (tie : Tie) (p : Parts) : Positive :=
  let (scaleUp, den) :=
    if 0 ≤ p.exponent then (Nat.pow 2 p.exponent.toNat, 4)
    else (1, 4 * Nat.pow 2 (-p.exponent).toNat)
  let num := 4 * p.mantissa * scaleUp
  let low := (4 * p.mantissa - (if p.boundary then 1 else 2)) * scaleUp
  let high := (4 * p.mantissa + 2) * scaleUp
  let top := leading num den 400
  let found :=
    (List.range 17).findSome? fun i =>
      candidate tie num low high den (p.mantissa % 2 = 0) top (i + 1)
  dropZeros 20 (found.getD ⟨0, 0⟩)

/-- How a format writes a number. -/
structure Style where
  tie : Tie
  /-- First and last exponent of the leading digit that is written positionally. -/
  firstPositional : Option Int
  lastPositional : Option Int
  /-- A whole number ends in `.0`. -/
  keepPoint : Bool
  /-- A positive exponent has a plus sign. -/
  plusSign : Bool

def padLeft (width : Nat) (s : String) : String :=
  String.ofList (List.replicate (width - s.length) '0') ++ s

/-- The text of a positive decimal. -/
def Style.write (style : Style) (p : Positive) : String :=
  let ds := toString p.digits
  let count := ds.length
  let top := p.exponent + (count : Int) - 1
  let zeros (n : Nat) := String.ofList (List.replicate n '0')
  if style.firstPositional.all (· ≤ top) && style.lastPositional.all (top ≤ ·) then
    if 0 ≤ p.exponent then
      ds ++ zeros p.exponent.toNat ++ (if style.keepPoint then ".0" else "")
    else if 0 ≤ top then
      let whole := (top + 1).toNat
      (ds.take whole).toString ++ "." ++ (ds.drop whole).toString
    else "0." ++ zeros (-top - 1).toNat ++ ds
  else
    let mantissa := if count = 1 then ds else (ds.take 1).toString ++ "." ++ (ds.drop 1).toString
    let sign := if top < 0 then "-" else if style.plusSign then "+" else ""
    mantissa ++ "e" ++ sign ++ toString top.natAbs

/-- The text of the double with these bits. -/
def Style.text (style : Style) (bits : UInt64) : String :=
  let p := parts bits
  let sign := if p.negative then "-" else ""
  if !isFinite bits then (if p.mantissa = Nat.pow 2 52 then sign ++ "inf" else "NaN")
  else if p.mantissa = 0 then sign ++ (if style.keepPoint then "0.0" else "0")
  else sign ++ style.write (shortest style.tie p)

end ProjectIndex.Decimal
