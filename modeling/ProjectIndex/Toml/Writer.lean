/-!
# Writing TOML

Names and strings in the form that needs the fewest escapes: plain quotes first, then single quotes,
then three quotes, and escapes only where no form does without them.  A string with line ends is
written over several lines.
-/

namespace ProjectIndex.Toml

/-- What decides on the form of a string. -/
structure Traits where
  /-- The longest runs of single and of double quotes. -/
  single : Nat := 0
  double : Nat := 0
  backslash : Bool := false
  newline : Bool := false
  /-- There are control characters other than tabs and line ends. -/
  control : Bool := false

def longestRun (c : Char) (cs : List Char) : Nat :=
  let count (counts : Nat × Nat) (d : Char) : Nat × Nat :=
    if d = c then (max counts.1 (counts.2 + 1), counts.2 + 1) else (counts.1, 0)
  (cs.foldl count (0, 0)).1

def Traits.ofChars (cs : List Char) : Traits where
  single := longestRun '\'' cs
  double := longestRun '"' cs
  backslash := cs.contains '\\'
  newline := cs.contains '\n'
  control := cs.any fun c => (c.toNat < 0x20 && c != '\t' && c != '\n') || c.toNat = 0x7F

def hex4 (n : Nat) : String :=
  let ds := (String.ofList (Nat.toDigits 16 n)).toUpper
  String.ofList (List.replicate (4 - ds.length) '0') ++ ds

/-- A character between double quotes. -/
def escape (c : Char) : String :=
  if c = '\x08' then "\\b"
  else if c = '\t' then "\\t"
  else if c = '\n' then "\\n"
  else if c = '\x0c' then "\\f"
  else if c = '\r' then "\\r"
  else if c = '"' then "\\\""
  else if c = '\\' then "\\\\"
  else if c.toNat < 0x20 || c.toNat = 0x7F then "\\u" ++ hex4 c.toNat
  else c.toString

def basicText (s : String) : String :=
  "\"" ++ String.join (s.toList.map escape) ++ "\""

/-- The characters of a string between three quotes.  Line ends stay, and so do quotes, unless two
of them stand in front: `run` counts those. -/
def multiLine (run : Nat) : List Char → String
  | [] => ""
  | '\n' :: rest => "\n" ++ multiLine 0 rest
  | '"' :: rest =>
    if run < 2 then "\"" ++ multiLine (run + 1) rest else escape '"' ++ multiLine 0 rest
  | c :: rest => escape c ++ multiLine 0 rest

/-- The string between three quotes.  One with line ends starts on a line of its own. -/
def multiText (s : String) : String :=
  let first := if s.toList.contains '\n' then "\n" else ""
  "\"\"\"" ++ first ++ multiLine 0 s.toList ++ "\"\"\""

/-- The written form of a string. -/
def text (s : String) : String :=
  let t := Traits.ofChars s.toList
  let first := if t.newline then "\n" else ""
  if !t.control && !t.backslash && t.double = 0 && !t.newline then basicText s
  else if !t.control && t.single = 0 && !t.newline then "'" ++ s ++ "'"
  else if !t.control && !t.backslash && t.double ≤ 2 then multiText s
  else if !t.control && t.single ≤ 2 then "'''" ++ first ++ s ++ "'''"
  else if t.newline then multiText s
  else basicText s

/-- A name can stand without quotes. -/
def isBare (s : String) : Bool :=
  !s.isEmpty && s.toList.all fun c => c.isAlphanum || c = '_' || c = '-'

/-- The written form of a name. -/
def name (s : String) : String :=
  let t := Traits.ofChars s.toList
  if isBare s then s
  else if !t.control && !t.backslash && t.double = 0 && !t.newline then basicText s
  else if !t.control && t.single = 0 && !t.newline then "'" ++ s ++ "'"
  else basicText s

/-- The written form of a list of strings: one on a line, unless there is only one. -/
def texts : List String → String
  | [] => "[]"
  | [s] => "[" ++ text s ++ "]"
  | ss => "[\n" ++ String.join (ss.map fun s => "    " ++ text s ++ ",\n") ++ "]"

end ProjectIndex.Toml
