import ProjectIndex.Decimal.Shortest

/-!
# Spans of time

A span is shown with two places in the largest unit that does not make it less than one.
-/

namespace ProjectIndex.CommandLine

def durationUnits : List (String × Nat) :=
  [("s", 1000000000), ("ms", 1000000), ("µs", 1000), ("ns", 1)]

def durationText (nanos : Nat) : String :=
  let (name, size) := (durationUnits.find? fun (_, size) => size ≤ nanos).getD ("ns", 1)
  let hundredths := (nanos * 100 + size / 2) / size
  toString (hundredths / 100) ++ "." ++ Decimal.padLeft 2 (toString (hundredths % 100)) ++ name

end ProjectIndex.CommandLine
