/-!
# UTF-8 reading of byte strings

File names and file contents are byte strings; most, but not all, of them are UTF-8.  This module
reads a byte string as a list of scalar values in which every maximal ill-formed chunk is marked,
so that one scan answers three questions: is the text well formed, which text is it, and how is it
shown when it is not.
-/

namespace ProjectIndex.Utf8

/-- An unfinished sequence: how many bytes it still needs, the value read so far, and the range
that its next byte must lie in. -/
structure Pending where
  needed : Nat
  value : Nat
  low : UInt8
  high : UInt8

/-- What one byte leads to: the values it completes, and the sequence it leaves open. -/
abbrev Reading := List (Option Char) × Option Pending

/-- A byte at the start of a sequence.  The ranges for the second byte keep out overlong forms,
surrogates and values above U+10FFFF. -/
def start (b : UInt8) : Reading :=
  if b < 0x80 then ([some (Char.ofNat b.toNat)], none)
  else if b < 0xC2 then ([none], none)
  else if b < 0xE0 then ([], some ⟨1, b.toNat % 32, 0x80, 0xBF⟩)
  else if b < 0xF0 then
    ([], some ⟨2, b.toNat % 16, if b = 0xE0 then 0xA0 else 0x80, if b = 0xED then 0x9F else 0xBF⟩)
  else if b < 0xF5 then
    ([], some ⟨3, b.toNat % 8, if b = 0xF0 then 0x90 else 0x80, if b = 0xF4 then 0x8F else 0xBF⟩)
  else ([none], none)

/-- A byte that meets an open sequence either continues it, or ends it as ill formed and starts
anew. -/
def advance (open? : Option Pending) (b : UInt8) : Reading :=
  match open? with
  | none => start b
  | some p =>
    if p.low ≤ b ∧ b ≤ p.high then
      let value := p.value * 64 + b.toNat % 64
      if p.needed ≤ 1 then ([some (Char.ofNat value)], none)
      else ([], some ⟨p.needed - 1, value, 0x80, 0xBF⟩)
    else
      let (done, next) := start b
      (none :: done, next)

/-- The values from an open sequence and the bytes after it. -/
def scalarsFrom (open? : Option Pending) : List UInt8 → List (Option Char)
  | [] => if open?.isSome then [none] else []
  | b :: rest =>
    let (done, next) := advance open? b
    done ++ scalarsFrom next rest

/-- The scalar values of a byte string.  `none` stands for one ill-formed chunk, which is the
longest start of a well-formed sequence found there, or a single byte. -/
def scalars (bytes : List UInt8) : List (Option Char) :=
  scalarsFrom none bytes

/-- The byte string is well-formed UTF-8. -/
def isValid (bytes : List UInt8) : Bool :=
  (scalars bytes).all Option.isSome

def text? (bytes : List UInt8) : Option String :=
  ((scalars bytes).mapM id).map String.ofList

/-- The text of any byte string, one replacement character for each ill-formed chunk. -/
def display (bytes : List UInt8) : String :=
  String.ofList ((scalars bytes).map (·.getD '\uFFFD'))

/-- The number of bytes before the first ill-formed chunk. -/
def validLength (bytes : List UInt8) : Nat :=
  ((scalars bytes).takeWhile Option.isSome).foldl (fun n c => n + (c.getD 'a').utf8Size) 0

def encode (s : String) : List UInt8 :=
  s.toUTF8.data.toList

end ProjectIndex.Utf8
