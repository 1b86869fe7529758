/-!
# Faults in TOML

A reader takes the characters that are left and gives back a result with what is left after it, or a
fault.  A fault that is not final only says that something else stands here, so that another reading
may be tried; a final one says that something was begun that cannot be anything else.
-/

namespace ProjectIndex.Toml

/-- What is wrong with a document, and where. -/
structure Fault where
  /-- How many characters were left. -/
  left : Nat
  /-- What was being read. -/
  subject : Option String := none
  /-- What could have stood there. -/
  expected : List String := []
  /-- Why something is refused that can be read. -/
  reason : Option String := none
  final : Bool := false
  deriving DecidableEq, Repr, Inhabited

/-- What stands in front, and the characters after it. -/
abbrev Front (α : Type) := α × List Char

/-- What is looked for does not stand in front of these characters. -/
def absent {α : Type} (rest : List Char) : Except Fault α :=
  .error { left := rest.length }

/-- What stands in front of these characters is refused. -/
def refuse {α : Type} (rest : List Char) (reason : String) : Except Fault α :=
  .error { left := rest.length, reason := some reason }

/-- No other reading is tried. -/
def settled {α : Type} (r : Except Fault α) : Except Fault α :=
  r.mapError fun f => { f with final := true }

/-- A fault that has no subject yet is about this one. -/
def about {α : Type} (subject : String) (r : Except Fault α) : Except Fault α :=
  r.mapError fun f => { f with subject := f.subject <|> some subject }

/-- What could have stood at a fault. -/
def expecting {α : Type} (what : List String) (r : Except Fault α) : Except Fault α :=
  r.mapError fun f => { f with expected := f.expected ++ what }

/-- The first reading, or the second one if the first finds something else. -/
def either {α : Type} (first : Except Fault α) (second : Unit → Except Fault α) :
    Except Fault α :=
  match first with
  | .ok a => .ok a
  | .error f => if f.final then .error f else second ()

namespace Fault

/-- The words about a fault, on lines of their own. -/
def words (f : Fault) : List String :=
  let subject := f.subject.map fun s => "invalid " ++ s
  let expected :=
    if f.expected.isEmpty then none
    else some ("expected " ++ String.intercalate ", " f.expected)
  match [subject, expected, f.reason].filterMap id with
  | [] => [""]
  | lines => lines

/-- A fault below the line it is in.  A fault at the end of the text counts to the last line, and
the signs below a character are as many as its bytes. -/
def shown (text : String) (f : Fault) : List String :=
  let cs := text.toList
  let here := cs.length - f.left
  let inside := min here (cs.length - 1)
  let before := cs.take inside
  let start := before.length - (before.reverse.takeWhile (· != '\n')).length
  let line := (cs.drop start).takeWhile (· != '\n')
  let size := ((cs[here]?).map Char.utf8Size).getD 1
  let front := before.drop start
  let column :=
    if 1 < size then (String.ofList front).utf8ByteSize else front.length + (here - inside)
  let number := toString (before.count '\n' + 1)
  let gutter := String.ofList (List.replicate (number.length + 1) ' ')
  [number ++ " | " ++ String.ofList line,
    gutter ++ "|" ++ String.ofList (List.replicate (column + 1) ' ') ++
      String.ofList (List.replicate size '^')] ++ f.words

end Fault

end ProjectIndex.Toml
