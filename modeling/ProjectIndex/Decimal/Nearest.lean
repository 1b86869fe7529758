/-!
# Nearest binary number

The double that is nearest to a decimal.
-/

namespace ProjectIndex.Decimal

/-- The bits of the double nearest to `mantissa * 10 ^ exponent`, with a sign.  Far outside the
range of doubles the exponent no longer matters and is cut. -/
def nearest (negative : Bool) (mantissa : Nat) (exponent : Int) : UInt64 :=
  let digits : Int := (Nat.toDigits 10 mantissa).length
  let lowest := -800 - digits
  let e := if 400 < exponent then 400 else if exponent < lowest then lowest else exponent
  let f := Float.ofScientific mantissa (e < 0) e.natAbs
  (if negative then -f else f).toBits

end ProjectIndex.Decimal
