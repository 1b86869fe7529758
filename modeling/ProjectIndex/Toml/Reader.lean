import ProjectIndex.Toml.Document

/-!
# Except Fault (Front TOML)

Documents line by line, and the strings, keys, lists and tables in them.
-/

namespace ProjectIndex.Toml

def isBlank (c : Char) : Bool :=
  c = ' ' || c = '\t'

/-- Characters that may not stand anywhere as they are. -/
def isControl (c : Char) : Bool :=
  (c.toNat < 0x20 && c != '\t') || c.toNat = 0x7F

def skipBlanks (cs : List Char) : List Char :=
  cs.dropWhile isBlank

def newline? : List Char → Option (List Char)
  | '\n' :: rest => some rest
  | '\r' :: '\n' :: rest => some rest
  | _ => none

def skipComment (cs : List Char) : List Char :=
  match cs with
  | '#' :: rest => rest.dropWhile fun c => !isControl c
  | cs => cs

/-- The rest of a line after a value or a header: blanks, a comment, and the end of the line. -/
def endLine (cs : List Char) : Except Fault (List Char) :=
  let rest := skipComment (skipBlanks cs)
  match rest with
  | [] => .ok []
  | rest =>
    match newline? rest with
    | some rest => .ok rest
    | none => expecting ["newline", "`#`"] (absent rest)

/-- Skips blanks and ends of lines. -/
def skipEmpty : Nat → List Char → List Char
  | 0, cs => cs
  | fuel + 1, cs =>
    let rest := skipBlanks cs
    match newline? rest with
    | some rest => skipEmpty fuel rest
    | none => rest

/-- Skips blanks, and whole lines with or without a comment. -/
def skipLines : Nat → List Char → List Char
  | 0, cs => cs
  | fuel + 1, cs =>
    let rest := skipBlanks cs
    match newline? (skipComment rest) with
    | some rest => skipLines fuel rest
    | none => rest

/-- The character with a number in hexadecimal. -/
def numbered (count : Nat) (cs : List Char) : Except Fault (Front Char) :=
  about ("unicode " ++ toString count ++ "-digit hex code") <| settled <|
    if (cs.takeWhile fun c => (Hex.digit? c).isSome).length < count then absent cs
    else
      match Hex.char? count cs with
      | some c => .ok (c, cs.drop count)
      | none => refuse cs "value is out of range"

/-- The character that an escape stands for, from the letter after the backslash on. -/
def escape? : List Char → Except Fault (Front Char)
  | [] => absent []
  | c :: rest =>
    match c with
    | 'b' => .ok ('\x08', rest)
    | 'f' => .ok ('\x0c', rest)
    | 'n' => .ok ('\n', rest)
    | 'r' => .ok ('\r', rest)
    | 't' => .ok ('\t', rest)
    | 'u' => numbered 4 rest
    | 'U' => numbered 8 rest
    | '\\' => .ok ('\\', rest)
    | '"' => .ok ('"', rest)
    | _ =>
      expecting ["`b`", "`f`", "`n`", "`r`", "`t`", "`u`", "`U`", "`\\`", "`\"`"]
        (about "escape sequence" (settled (absent rest)))

/-- The rest of a string between quotes. -/
def basic : Nat → List Char → List Char → Except Fault (Front String)
  | 0, _, cs => settled (absent cs)
  | fuel + 1, got, cs =>
    match cs with
    | '"' :: rest => .ok (String.ofList got.reverse, rest)
    | '\\' :: rest => do
      let (c, rest) ← either (escape? rest) fun _ => about "basic string" (settled (absent cs))
      basic fuel (c :: got) rest
    | c :: rest =>
      if isControl c then about "basic string" (settled (absent cs))
      else basic fuel (c :: got) rest
    | [] => about "basic string" (settled (absent cs))

/-- One or two quotes inside a string between three; something has to follow them. -/
def quotes (quote : Char) (cs : List Char) : Except Fault (Front (List Char)) :=
  let found := (cs.take 2).takeWhile (· = quote)
  match cs.drop found.length with
  | [] => absent cs
  | c :: rest => if isControl c && c != '\n' && c != '\r' then absent cs else .ok (found, c :: rest)

/-- The rest of a string between three quotes. -/
def multiBasic : Nat → List Char → List Char → Except Fault (Front String)
  | 0, _, cs => absent cs
  | fuel + 1, got, cs =>
    match cs with
    | '"' :: '"' :: '"' :: '"' :: '"' :: rest =>
      .ok (String.ofList ('"' :: '"' :: got).reverse, rest)
    | '"' :: '"' :: '"' :: '"' :: rest => .ok (String.ofList ('"' :: got).reverse, rest)
    | '"' :: '"' :: '"' :: rest => .ok (String.ofList got.reverse, rest)
    | '"' :: _ => do
      let (found, rest) ← quotes '"' cs
      multiBasic fuel (found ++ got) rest
    | '\\' :: rest =>
      match newline? (skipBlanks rest) with
      | some after => multiBasic fuel got (skipEmpty after.length after)
      | none => do
        let (c, rest) ← either (escape? rest) fun _ => absent cs
        multiBasic fuel (c :: got) rest
    | '\r' :: '\n' :: rest => multiBasic fuel ('\n' :: got) rest
    | c :: rest =>
      if isControl c && c != '\n' then absent cs else multiBasic fuel (c :: got) rest
    | [] => absent cs

/-- The rest of a string between single quotes. -/
def literal (cs : List Char) : Except Fault (Front String) :=
  let (body, rest) := cs.span fun c => c != '\'' && !isControl c
  match rest with
  | '\'' :: rest => .ok (String.ofList body, rest)
  | rest => about "literal string" (settled (absent rest))

/-- The rest of a string between three single quotes. -/
def multiLiteral : Nat → List Char → List Char → Except Fault (Front String)
  | 0, _, cs => absent cs
  | fuel + 1, got, cs =>
    match cs with
    | '\'' :: '\'' :: '\'' :: '\'' :: '\'' :: rest =>
      .ok (String.ofList ('\'' :: '\'' :: got).reverse, rest)
    | '\'' :: '\'' :: '\'' :: '\'' :: rest => .ok (String.ofList ('\'' :: got).reverse, rest)
    | '\'' :: '\'' :: '\'' :: rest => .ok (String.ofList got.reverse, rest)
    | '\'' :: _ => do
      let (found, rest) ← quotes '\'' cs
      multiLiteral fuel (found ++ got) rest
    | '\r' :: '\n' :: rest => multiLiteral fuel ('\n' :: got) rest
    | c :: rest =>
      if isControl c && c != '\n' then absent cs else multiLiteral fuel (c :: got) rest
    | [] => absent cs

/-- A string of any kind, from its first quote on. -/
def string (cs : List Char) : Except Fault (Front String) :=
  match cs with
  | '"' :: '"' :: '"' :: rest =>
    about "multiline basic string"
      (settled (multiBasic (rest.length + 1) [] ((newline? rest).getD rest)))
  | '"' :: rest => basic (rest.length + 1) [] rest
  | '\'' :: '\'' :: '\'' :: rest =>
    about "multiline literal string"
      (settled (multiLiteral (rest.length + 1) [] ((newline? rest).getD rest)))
  | '\'' :: rest => literal rest
  | cs => absent cs

def isKeyChar (c : Char) : Bool :=
  c.isAlphanum || c = '_' || c = '-'

/-- One name of a key. -/
def simpleKey (cs : List Char) : Except Fault (Front String) :=
  match cs with
  | '"' :: rest => basic (rest.length + 1) [] rest
  | '\'' :: rest => literal rest
  | cs =>
    let (name, rest) := cs.span isKeyChar
    if name.isEmpty then absent cs else .ok (String.ofList name, rest)

/-- The names after points, and blanks after them.  A point that no name follows is left. -/
def furtherNames : Nat → List Char → Except Fault (Front (List String))
  | 0, cs => .ok ([], cs)
  | fuel + 1, cs =>
    match cs with
    | '.' :: rest =>
      match simpleKey (skipBlanks rest) with
      | .ok (name, rest) =>
        (furtherNames fuel (skipBlanks rest)).map fun (names, rest) => (name :: names, rest)
      | .error f => if f.final then .error f else .ok ([], cs)
    | cs => .ok ([], cs)

/-- More names than a key may have, and more brackets than a value may stand in. -/
def depthLimit : Nat := 80

/-- A key: names with points between them, and blanks around them. -/
def key (cs : List Char) : Except Fault (Front (List String)) := do
  let (names, rest) ← about "key" do
    let (name, rest) ← simpleKey (skipBlanks cs)
    let (names, rest) ← furtherNames rest.length (skipBlanks rest)
    return (name :: names, rest)
  if names.length < depthLimit then return (names, rest)
  else refuse cs "recursion limit exceeded"

def equals (cs : List Char) : Except Fault (Front Unit) :=
  expecting ["`.`", "`=`"] (mark '=' cs)

/-- The closing sign of a list or a table in braces. -/
def closing (subject : String) (c : Char) (cs : List Char) : Except Fault (Front Unit) :=
  expecting ["`" ++ c.toString ++ "`"] (about subject (settled (mark c cs)))

/-- The table that the pairs in braces make; a clash is found at the first of them. -/
def braced (cs : List Char) (pairs : List (List String × Datum)) : Except Fault Datum :=
  match pairs.foldlM (fun entries (way, v) => insert none v [] entries way) [] with
  | .ok entries => .ok (.table (data entries))
  | .error clash => settled (refuse cs clash.message)

mutual

/-- One value; `room` is how many brackets may still be opened. -/
def value : Nat → Nat → List Char → Except Fault (Front Datum)
  | 0, _, cs => absent cs
  | fuel + 1, room, cs =>
    match cs with
    | '[' :: rest =>
      if room = 0 then settled (refuse cs "recursion limit exceeded")
      else do
        let (vs, rest) ← items fuel (room - 1) rest
        let (_, rest) ← closing "array" ']' rest
        return (.list vs, rest)
    | '\x7b' :: rest =>
      if room = 0 then settled (refuse cs "recursion limit exceeded")
      else do
        let (pairs, after) ← pairs fuel (room - 1) rest rest
        let table ← braced rest pairs
        let (_, rest) ← closing "inline table" '\x7d' (skipBlanks after)
        return (table, rest)
    | '"' :: _ => do
      let (s, rest) ← string cs
      return (.text s, rest)
    | '\'' :: _ => do
      let (s, rest) ← string cs
      return (.text s, rest)
    | cs => scalar cs

/-- The elements of a list with commas after them, up to where no other one stands. -/
def items : Nat → Nat → List Char → Except Fault (Front (List Datum))
  | 0, _, cs => .ok ([], cs)
  | fuel + 1, room, cs =>
    let start := skipLines cs.length cs
    match value fuel room start with
    | .error f => if f.final then .error f else .ok ([], start)
    | .ok (v, rest) =>
      match skipLines rest.length rest with
      | ',' :: rest => (items fuel room rest).map fun (vs, rest) => (v :: vs, rest)
      | rest => .ok ([v], rest)

/-- The pairs of a table in braces, up to where no other one stands; then `back` is what is left.
-/
def pairs : Nat → Nat → List Char → List Char →
    Except Fault (Front (List (List String × Datum)))
  | 0, _, back, _ => .ok ([], back)
  | fuel + 1, room, back, cs =>
    match key cs with
    | .error f => if f.final then .error f else .ok ([], back)
    | .ok (way, rest) => settled do
      let (_, rest) ← equals rest
      let (v, rest) ← value fuel room (skipBlanks rest)
      let rest := skipBlanks rest
      match rest with
      | ',' :: further =>
        let (more, rest) ← pairs fuel room rest further
        return ((way, v) :: more, rest)
      | rest => return ([(way, v)], rest)

end

/-- Enough steps to read any value in these characters. -/
def steps (cs : List Char) : Nat :=
  2 * cs.length + 2

/-- A header: whether it opens one more table of a list, and the way to the table. -/
def header (cs : List Char) : Except Fault (Front (Bool × List String)) :=
  match cs with
  | '[' :: '[' :: rest => do
    let (way, rest) ← key rest
    let (_, rest) ← expecting ["`.`", "`]]`"] (word "]]" rest)
    return ((true, way), rest)
  | '[' :: c :: rest => do
    let (way, rest) ← key (c :: rest)
    let (_, rest) ← expecting ["`.`", "`]`"] (word "]" rest)
    return ((false, way), rest)
  | cs => absent cs

/-- What was changed by the line in front of `cs`, unless it clashes with an earlier one. -/
def changed (cs : List Char) : Except Clash Entries → Except Fault Entries
  | .ok entries => .ok entries
  | .error clash => refuse cs clash.message

/-- A header and the rest of its line: the entries with its table, and the way to it. -/
def headerLine (entries : Entries) (cs : List Char) :
    Except Fault (Front (Entries × List String)) :=
  about "table header" do
    let ((listed, way), rest) ← header cs
    let rest ← endLine rest
    let opened := if listed then openListed entries way else openTable entries way
    return ((← changed cs opened, way), rest)

/-- A key with its value and the rest of their line: the entries with it in the table at `way`. -/
def pairLine (entries : Entries) (way : List String) (cs : List Char) :
    Except Fault (Front Entries) := do
  let (names, rest) ← key cs
  let (_, rest) ← equals rest
  let (v, rest) ← value (steps rest) (depthLimit - 1) (skipBlanks rest)
  let rest ← endLine rest
  let added := alter (fun table => insert (some way) v [] table names) entries way
  return (← changed cs added, rest)

/-- The lines of a document; `way` leads to the table that is open. -/
def lines : Nat → Entries → List String → List Char → Except Fault Entries
  | 0, entries, _, _ => .ok entries
  | fuel + 1, entries, way, cs =>
    match skipLines cs.length cs with
    | [] => .ok entries
    | '#' :: rest =>
      match skipComment ('#' :: rest) with
      | [] => .ok entries
      | rest => absent rest
    | '\r' :: rest => absent ('\r' :: rest)
    | '[' :: rest => do
      let ((entries, way), rest) ← headerLine entries ('[' :: rest)
      lines fuel entries way rest
    | cs => do
      let (entries, rest) ← pairLine entries way cs
      lines fuel entries way rest

/-- The values of a document.  A byte order mark in front is passed over. -/
def parse (text : String) : Except Fault Datum := do
  let cs := text.toList
  let cs := if cs.head? = some '\uFEFF' then cs.tail else cs
  return .table (data (← lines (cs.length + 1) [] [] cs))

end ProjectIndex.Toml
