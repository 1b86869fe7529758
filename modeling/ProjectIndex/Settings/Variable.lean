import ProjectIndex.Decimal.Nearest
import ProjectIndex.Settings.Datum
import ProjectIndex.Text.Blank
import ProjectIndex.Text.Hex

/-!
# Settings from the environment

A variable whose name starts with `PROJFS_`, in any case, sets the value that the rest of its name
leads to: two underscores go down one level.  Its text is read as a value: a flag, a number, a
quoted string or character, a list in brackets or a table in braces.  Text that is none of these is
a string.
-/

namespace ProjectIndex.Variable

/-- The start of the names that count. -/
def mark : List Char := "PROJFS_".toList

/-- Two underscores stand for a point. -/
def pointed : List Char → List Char
  | '_' :: '_' :: rest => '.' :: pointed rest
  | c :: rest => c :: pointed rest
  | [] => []

/-- The pieces between points. -/
def pieces (cs : List Char) : List (List Char) :=
  cs.foldr
    (fun c acc =>
      match acc with
      | [] => if c = '.' then [[], []] else [[c]]
      | p :: rest => if c = '.' then [] :: p :: rest else (c :: p) :: rest)
    [[]]

/-- The way that a variable's name leads, if it counts. -/
def way? (name : String) : Option (List String) :=
  let cs := Blank.trim name.toList
  if (cs.take mark.length).map Char.toUpper = mark then
    let ps := pieces (Blank.trim (pointed (cs.drop mark.length)))
    if ps.any List.isEmpty then none
    else some (ps.map fun p => String.ofList (p.map Char.toLower))
  else none

/-- The characters that end a bare word. -/
def isMark (c : Char) : Bool :=
  c = ',' || c = '[' || c = ']' || c = '\x7b' || c = '\x7d'

def isGap (c : Char) : Bool :=
  c = ' ' || c = '\t' || c = '\n' || c = '\r' || c = '\x0c'

def digits? (cs : List Char) : Option Nat :=
  if cs.isEmpty || !cs.all Char.isDigit then none
  else some (cs.foldl (fun n c => n * 10 + (c.toNat - 48)) 0)

/-- A whole number without a sign of its own, or with a plus. -/
def unsigned? (cs : List Char) : Option Nat :=
  let body := match cs with
    | '+' :: rest => rest
    | cs => cs
  (digits? body).filter (· < UInt64.size)

def signed? (cs : List Char) : Option Int :=
  match cs with
  | '-' :: rest => ((digits? rest).filter (· ≤ UInt64.size / 2)).map fun n => -(n : Int)
  | _ => none

/-- A number with a point. -/
def float? (cs : List Char) : Option UInt64 :=
  let (negative, body) := match cs with
    | '-' :: rest => (true, rest)
    | '+' :: rest => (false, rest)
    | cs => (false, cs)
  let (whole, rest) := body.span Char.isDigit
  let (fraction, rest) := match rest with
    | '.' :: rest => rest.span Char.isDigit
    | rest => ([], rest)
  let exponent : Option Int := match rest with
    | [] => some 0
    | e :: rest =>
      if e = 'e' || e = 'E' then
        match rest with
        | '-' :: rest => (digits? rest).map fun n => -(n : Int)
        | '+' :: rest => (digits? rest).map fun n => (n : Int)
        | rest => (digits? rest).map fun n => (n : Int)
      else none
  if !cs.contains '.' || (whole.isEmpty && fraction.isEmpty) then none
  else do
    let e ← exponent
    let mantissa ← digits? (whole ++ fraction)
    return Decimal.nearest negative mantissa (e - fraction.length)

/-- A bare word: a number if it reads as one, else a string. -/
def word (cs : List Char) : Datum :=
  let cs := Blank.trim cs
  match float? cs with
  | some bits => .float bits
  | none =>
    match unsigned? cs with
    | some n => .unsigned n
    | none =>
      match signed? cs with
      | some i => .signed i
      | none => .text (String.ofList cs)

/-- The inside of a string up to its closing quote, and what is left after it. -/
def inside : List Char → Option (List Char × List Char)
  | [] => none
  | '"' :: rest => some ([], rest)
  | '\\' :: c :: rest => (inside rest).map fun (s, rest) => ('\\' :: c :: s, rest)
  | c :: rest => (inside rest).map fun (s, rest) => (c :: s, rest)

/-- The character may stand for itself in a string. -/
def isPlain (c : Char) : Bool :=
  c = '\t' || (0x20 ≤ c.toNat && c.toNat ≠ 0x7F)

/-- The characters that fit into so many bytes. -/
def takeBytes : Nat → List Char → List Char
  | _, [] => []
  | room, c :: rest => if c.utf8Size ≤ room then c :: takeBytes (room - c.utf8Size) rest else []

/-- Resolves the escapes in a string. -/
def resolve : Nat → List Char → Option (List Char)
  | 0, _ => none
  | _, [] => some []
  | fuel + 1, '\\' :: c :: rest =>
    let single (p : Char) : Option (List Char) := (resolve fuel rest).map (p :: ·)
    match c with
    | '"' => single '"'
    | '\\' => single '\\'
    | 'b' => single '\x08'
    | 'f' => single '\x0c'
    | 'n' => single '\n'
    | 'r' => single '\r'
    | 't' => single '\t'
    | 'u' => do return (← Hex.char? 4 rest) :: (← resolve fuel (rest.drop 4))
    | 'U' => do return (← Hex.char? 8 rest) :: (← resolve fuel (rest.drop 8))
    | _ => none
  | fuel + 1, c :: rest => if isPlain c then (resolve fuel rest).map (c :: ·) else none

/-- The text that the inside of a string stands for.  Of the characters in front of the first escape
only as many bytes are kept as there are such characters. -/
def unquote (cs : List Char) : Option (List Char) :=
  let (front, rest) := cs.span (· != '\\')
  if !front.all isPlain then none
  else if rest.isEmpty then some front
  else (resolve (rest.length + 1) rest).map (takeBytes front.length front ++ ·)

/-- A string after its opening quote, and what is left after it. -/
def quoted (cs : List Char) : Option (List Char × List Char) := do
  let (body, rest) ← inside cs
  return (← unquote body, rest)

/-- The text after a fixed beginning. -/
def after? (start : String) (cs : List Char) : Option (List Char) :=
  if start.toList.isPrefixOf cs then some (cs.drop start.length) else none

mutual

/-- Reads one value and the blanks around it. -/
def value : Nat → List Char → Option (Datum × List Char)
  | 0, _ => none
  | fuel + 1, cs =>
    let cs := cs.dropWhile isGap
    let read : Option (Datum × List Char) :=
      match after? "true" cs, after? "false" cs with
      | some rest, _ => some (.flag true, rest)
      | _, some rest => some (.flag false, rest)
      | none, none =>
        match cs with
        | '[' :: rest => (list fuel rest).map fun (vs, rest) => (.list vs, rest)
        | '\x7b' :: rest =>
          (table fuel rest).map fun (es, rest) =>
            (.table (es.foldl (fun t (k, v) => Datum.put k v t) []), rest)
        | '"' :: rest => (quoted rest).map fun (s, rest) => (.text (String.ofList s), rest)
        | '\'' :: c :: '\'' :: rest => some (.char c, rest)
        | '\'' :: _ => none
        | cs =>
          let (body, rest) := cs.span fun c => !isMark c
          some (word body, rest)
    read.map fun (v, rest) => (v, rest.dropWhile isGap)

/-- Reads the rest of a list. -/
def list : Nat → List Char → Option (List Datum × List Char)
  | 0, _ => none
  | fuel + 1, cs =>
    match cs with
    | ']' :: rest => some ([], rest)
    | cs =>
      match value fuel cs with
      | some (v, ',' :: rest) => (list fuel rest).map fun (vs, rest) => (v :: vs, rest)
      | some (v, ']' :: rest) => some ([v], rest)
      | _ => none

/-- Reads the rest of a table. -/
def table : Nat → List Char → Option (List (String × Datum) × List Char)
  | 0, _ => none
  | fuel + 1, cs =>
    match cs with
    | '\x7d' :: rest => some ([], rest)
    | cs =>
      match key cs with
      | some (name, '=' :: rest) =>
        match value fuel rest with
        | some (v, ',' :: rest) =>
          (table fuel rest).map fun (es, rest) => ((name, v) :: es, rest)
        | some (v, '\x7d' :: rest) => some ([(name, v)], rest)
        | _ => none
      | _ => none
where
  /-- Reads the name of an entry and the blanks around it. -/
  key (cs : List Char) : Option (String × List Char) :=
    match cs.dropWhile isGap with
    | '"' :: rest =>
      (quoted rest).map fun (s, rest) => (String.ofList s, rest.dropWhile isGap)
    | cs =>
      let (name, rest) := cs.span fun c => c.isAlphanum || c = '_' || c = '-'
      if name.isEmpty then none else some (String.ofList name, rest.dropWhile isGap)

end

/-- The value of a variable's text. -/
def read (s : String) : Datum :=
  match value (s.length + 2) s.toList with
  | some (v, []) => v
  | _ => .text s

/-- The layer that the variables of an environment make. -/
def layer (environment : List (String × String)) : Datum :=
  environment.foldl
    (fun layer (name, s) =>
      match way? name with
      | some way => Datum.override (some layer) (Datum.nest way (read s))
      | none => layer)
    (.table [])

end ProjectIndex.Variable
