import ProjectIndex.Decimal.Nearest
import ProjectIndex.Settings.Datum
import ProjectIndex.Text.Hex
import ProjectIndex.Toml.Fault

/-!
# Numbers, dates and words in TOML

Values that are written without quotes or brackets.
-/

namespace ProjectIndex.Toml

/-- The digits that follow a first one, with single underscores between them. -/
def moreDigits (isDigit : Char → Bool) : List Char → Except Fault (Front (List Char))
  | '_' :: c :: rest =>
    if isDigit c then (moreDigits isDigit rest).map fun (ds, rest) => (c :: ds, rest)
    else stray (c :: rest)
  | ['_'] => stray []
  | c :: rest =>
    if isDigit c then (moreDigits isDigit rest).map fun (ds, rest) => (c :: ds, rest)
    else .ok ([], c :: rest)
  | [] => .ok ([], [])
where
  /-- No digit follows an underscore. -/
  stray (rest : List Char) : Except Fault (Front (List Char)) :=
    settled (expecting ["digit"] (absent rest))

/-- Digits with single underscores between them. -/
def digits (isDigit : Char → Bool) (cs : List Char) : Except Fault (Front (List Char)) :=
  match cs with
  | c :: rest =>
    if isDigit c then (moreDigits isDigit rest).map fun (ds, rest) => (c :: ds, rest)
    else absent cs
  | [] => absent cs

def numeral (base : Nat) (ds : List Char) : Nat :=
  ds.foldl (fun n c => n * base + (Hex.digit? c).getD 0) 0

/-- The sign in front of a number and what follows it. -/
def sign (cs : List Char) : Bool × List Char :=
  match cs with
  | '-' :: rest => (true, rest)
  | '+' :: rest => (false, rest)
  | cs => (false, cs)

/-- A decimal numeral with its sign.  Nothing follows a zero in front. -/
def decimal (cs : List Char) : Except Fault (Front (Bool × List Char)) :=
  let (negative, body) := sign cs
  about "integer" do
    let (ds, rest) ← match body with
      | '0' :: rest => .ok (['0'], rest)
      | body => digits Char.isDigit body
    return ((negative, ds), rest)

/-- A whole number in sixty-four bits, written in front of `cs`. -/
def ranged (cs : List Char) (negative : Bool) (n : Nat) : Except Fault Datum :=
  let limit := UInt64.size / 2
  if negative then
    if n ≤ limit then .ok (.signed (-(n : Int)))
    else settled (refuse cs "number too small to fit in target type")
  else if n < limit then .ok (.signed n)
  else settled (refuse cs "number too large to fit in target type")

def integer (cs : List Char) : Except Fault (Front Datum) :=
  let based (title : String) (base : Nat) (isDigit : Char → Bool) (body : List Char) :
      Except Fault (Front Datum) := do
    let (ds, rest) ← about (title ++ " integer") (settled (digits isDigit body))
    return (← ranged cs false (numeral base ds), rest)
  match cs with
  | '0' :: 'x' :: body => based "hexadecimal" 16 (fun c => (Hex.digit? c).isSome) body
  | '0' :: 'o' :: body => based "octal" 8 (fun c => '0' ≤ c && c ≤ '7') body
  | '0' :: 'b' :: body => based "binary" 2 (fun c => c = '0' || c = '1') body
  | cs => do
    let ((negative, ds), rest) ← decimal cs
    return (← ranged cs negative (numeral 10 ds), rest)

/-- The exponent part of a number. -/
def exponent (cs : List Char) : Except Fault (Front Int) :=
  match cs with
  | c :: rest =>
    if c = 'e' || c = 'E' then do
      let (negative, body) := sign rest
      let (ds, rest) ← settled (digits Char.isDigit body)
      let n := numeral 10 ds
      return (if negative then -(n : Int) else n, rest)
    else absent cs
  | [] => absent cs

def fraction (cs : List Char) : Except Fault (Front (List Char)) :=
  match cs with
  | '.' :: rest => settled (expecting ["digit"] (digits Char.isDigit rest))
  | cs => absent cs

/-- A word that stands in front. -/
def word (w : String) (cs : List Char) : Except Fault (Front Unit) :=
  if w.toList.isPrefixOf cs then .ok ((), cs.drop w.length) else absent cs

/-- A number that is not finite. -/
def infinite (cs : List Char) : Except Fault (Front Datum) :=
  let (negative, body) := sign cs
  let signed (f : Float) : Datum := .float (if negative then -f else f).toBits
  either
    ((word "inf" body).map fun (_, rest) => (signed (1.0 / 0.0), rest))
    fun _ => (word "nan" body).map fun (_, rest) => (signed (0.0 / 0.0), rest)

/-- A number with a point or an exponent.  One that is too large is refused, one that is too small
is negative infinity. -/
def finite (cs : List Char) : Except Fault (Front Datum) := do
  let ((negative, whole), rest) ← decimal cs
  let ((ds, e), rest) ← either
    ((exponent rest).map fun (e, rest) => ((([] : List Char), e), rest))
    fun _ => do
      let (ds, rest) ← fraction rest
      either ((exponent rest).map fun (e, rest) => ((ds, e), rest)) fun _ => .ok ((ds, 0), rest)
  let bits := Decimal.nearest negative (numeral 10 (whole ++ ds)) (e - ds.length)
  if bits = (1.0 / 0.0 : Float).toBits then settled (absent cs) else return (.float bits, rest)

def float (cs : List Char) : Except Fault (Front Datum) :=
  about "floating-point number" (either (finite cs) fun _ => infinite cs)

/-- A number of two digits between two bounds. -/
def pair (low high : Nat) (cs : List Char) : Except Fault (Front Nat) :=
  match cs with
  | a :: b :: rest =>
    if a.isDigit && b.isDigit then
      let n := numeral 10 [a, b]
      if low ≤ n && n ≤ high then .ok (n, rest) else refuse cs "value is out of range"
    else absent cs
  | cs => absent cs

/-- A mark between two numbers. -/
def mark (c : Char) (cs : List Char) : Except Fault (Front Unit) :=
  word c.toString cs

/-- The number of days of a month. -/
def daysIn (year month : Nat) : Nat :=
  if month = 2 then
    if year % 4 = 0 ∧ (year % 100 ≠ 0 ∨ year % 400 = 0) then 29 else 28
  else if [4, 6, 9, 11].contains month then 30
  else 31

/-- A date in its usual spelling. -/
def date (cs : List Char) : Except Fault (Front (List Char)) := do
  let year := cs.take 4
  let (_, rest) ←
    if year.length = 4 && year.all Char.isDigit then mark '-' (cs.drop 4) else absent cs
  settled do
    let (month, rest) ← pair 1 12 rest
    let (_, start) ← mark '-' rest
    let (day, rest) ← pair 1 31 start
    if daysIn (numeral 10 year) month < day then refuse start "value is out of range"
    else return (cs.take 10, rest)

/-- Nine digits after the point count, and zeros at their end do not. -/
def precise (ds : List Char) : List Char :=
  match ((ds.take 9).reverse.dropWhile (· = '0')).reverse with
  | [] => []
  | ds => '.' :: ds

/-- A time of day in its usual spelling. -/
def time (cs : List Char) : Except Fault (Front (List Char)) := do
  let (_, rest) ← pair 0 23 cs
  let (_, rest) ← mark ':' rest
  settled do
    let (_, rest) ← pair 0 59 rest
    let (_, rest) ← mark ':' rest
    let (_, rest) ← pair 0 60 rest
    match rest with
    | '.' :: after =>
      let (ds, more) := after.span Char.isDigit
      return if ds.isEmpty then (cs.take 8, rest) else (cs.take 8 ++ precise ds, more)
    | rest => return (cs.take 8, rest)

/-- The distance from universal time, if there is one.  No distance at all is positive. -/
def zone (cs : List Char) : Except Fault (Front (List Char)) :=
  match cs with
  | 'Z' :: rest => .ok (['Z'], rest)
  | 'z' :: rest => .ok (['Z'], rest)
  | '+' :: rest => distance '+' rest
  | '-' :: rest => distance (if "00:00".toList.isPrefixOf rest then '+' else '-') rest
  | rest => .ok ([], rest)
where
  /-- Hours and minutes after a sign. -/
  distance (sign : Char) (cs : List Char) : Except Fault (Front (List Char)) :=
    about "time offset" <| settled do
      let (_, rest) ← pair 0 23 cs
      let (_, rest) ← mark ':' rest
      let (_, rest) ← pair 0 59 rest
      return (sign :: cs.take 5, rest)

/-- A time after a date, with the letter that stands between them. -/
def timeOfDate (cs : List Char) : Except Fault (Front (List Char)) :=
  match cs with
  | c :: after =>
    if c = 'T' || c = 't' || c = ' ' then do
      let (time, rest) ← time after
      let (zone, rest) ← zone rest
      return ('T' :: time ++ zone, rest)
    else absent cs
  | [] => absent cs

/-- A date, a time, or both. -/
def moment (cs : List Char) : Except Fault (Front (List Char)) :=
  either
    (about "date-time" do
      let (date, rest) ← date cs
      let (time, rest) ← either (timeOfDate rest) fun _ => .ok ([], rest)
      return (date ++ time, rest))
    fun _ => about "time" (time cs)

/-- The name under which a date stands for itself. -/
def momentName : String := "$__toml_private_datetime"

/-- A date, a time or a number. -/
def number (cs : List Char) : Except Fault (Front Datum) :=
  either
    ((moment cs).map fun (text, rest) =>
      (.table [(momentName, .text (String.ofList text))], rest))
    fun _ => either (float cs) fun _ => integer cs

/-- A value without quotes or brackets.  What is none is taken for a string without its quotes. -/
def scalar (cs : List Char) : Except Fault (Front Datum) :=
  let unquoted (r : Except Fault (Front Datum)) : Except Fault (Front Datum) :=
    expecting ["`\"`", "`'`"] (about "string" r)
  match cs with
  | [] => absent []
  | c :: _ =>
    if c.isDigit || c = '+' || c = '-' then number cs
    else if c = '_' then expecting ["leading digit"] (integer cs)
    else if c = '.' then expecting ["leading digit"] (float cs)
    else if c = 't' then
      unquoted ((settled (word "true" cs)).map fun (_, rest) => (.flag true, rest))
    else if c = 'f' then
      unquoted ((settled (word "false" cs)).map fun (_, rest) => (.flag false, rest))
    else if c = 'i' || c = 'n' then unquoted (infinite cs)
    else unquoted (absent cs)

end ProjectIndex.Toml
