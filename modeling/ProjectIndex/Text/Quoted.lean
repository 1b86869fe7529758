import ProjectIndex.Text.Marks
import ProjectIndex.Text.Unseen
import ProjectIndex.Text.Utf8

/-!
# Quoted text

Text between double quotes, as messages show it: quotes, backslashes and control characters are
escaped, and so is every character that would not be seen.  Bytes that are not UTF-8 are shown by
their value.
-/

namespace ProjectIndex.Quoted

/-- The character is shown by its number: it would not be seen, or not as a character of its own. -/
def isHidden (c : Char) : Bool :=
  !(' ' ≤ c && c ≤ '~') && (Unseen.isUnseen c || Marks.isMark c)

/-- A character by its number. -/
def byNumber (c : Char) : String :=
  "\\u\x7b" ++ String.ofList (Nat.toDigits 16 c.toNat) ++ "\x7d"

/-- A character as it stands between double quotes. -/
def escape (c : Char) : String :=
  if c = '\x00' then "\\0"
  else if c = '\t' then "\\t"
  else if c = '\n' then "\\n"
  else if c = '\r' then "\\r"
  else if c = '"' then "\\\""
  else if c = '\\' then "\\\\"
  else if isHidden c then byNumber c
  else c.toString

def text (s : String) : String :=
  "\"" ++ String.join (s.toList.map escape) ++ "\""

/-- A byte that is not part of a character. -/
def rawByte (b : UInt8) : String :=
  let digits := (String.ofList (Nat.toDigits 16 b.toNat)).toUpper
  "\\x" ++ (if digits.length < 2 then "0" ++ digits else digits)

/-- Byte strings between quotes, characters where they are characters. -/
def bytes (bs : List UInt8) : String :=
  "\"" ++ go bs.length bs ++ "\""
where
  /-- Takes the longest run of characters, then one byte that is none. -/
  go : Nat → List UInt8 → String
    | 0, _ => ""
    | fuel + 1, bs =>
      let n := Utf8.validLength bs
      let shown := ((Utf8.text? (bs.take n)).getD "").toList.map escape
      String.join shown ++
        match bs.drop n with
        | [] => ""
        | b :: rest => rawByte b ++ go fuel rest

end ProjectIndex.Quoted
