import ProjectIndex.Error

/-!
# Glob patterns

`?` stands for one character, `*` for any characters of one component, `**` for any number of whole
components, and brackets for one character of a set or outside it.  A separator is matched only by
itself or by `**`; a leading dot is a character like any other.
-/

namespace ProjectIndex.Glob

inductive Range where
  | one (c : Char)
  | between (first last : Char)
  deriving DecidableEq, Repr

def Range.contains (r : Range) (c : Char) : Bool :=
  match r with
  | .one d => c == d
  | .between first last => first ≤ c && c ≤ last

inductive Token where
  | literal (c : Char)
  | anyChar
  | anyOf (set : List Range)
  | noneOf (set : List Range)
  /-- Any characters of one component. -/
  | span
  /-- Any number of whole components. -/
  | components
  deriving DecidableEq, Repr

abbrev Pattern := List Token

/-- The members of a bracket set.  A dash between two characters makes a range of them. -/
def ranges : List Char → List Range
  | first :: '-' :: last :: rest => .between first last :: ranges rest
  | c :: rest => .one c :: ranges rest
  | [] => []

/-- A bracket set at the start of `cs`, and what follows it.  The first character of a set is in it
even when it is the closing bracket. -/
def bracket? (cs : List Char) : Option (Token × List Char) :=
  match cs with
  | '!' :: first :: rest => close first rest .noneOf
  | '!' :: [] => none
  | first :: rest => close first rest .anyOf
  | [] => none
where
  /-- Reads up to the closing bracket. -/
  close (first : Char) (rest : List Char) (token : List Range → Token) :
      Option (Token × List Char) :=
    let members := rest.takeWhile (· != ']')
    match rest.drop members.length with
    | _ :: after => some (token (ranges (first :: members)), after)
    | [] => none

/-- Reads a pattern from position `at` on.  `before` is the character in front, `done` what was
read, newest first. -/
def parseFrom (fuel position : Nat) (before : Option Char) (done : List Token) (cs : List Char) :
    Except IndexError Pattern :=
  match fuel with
  | 0 => .ok done.reverse
  | fuel + 1 =>
    match cs with
    | [] => .ok done.reverse
    | '?' :: rest => parseFrom fuel (position + 1) (some '?') (.anyChar :: done) rest
    | '*' :: rest =>
      let stars := 1 + (rest.takeWhile (· == '*')).length
      let after := cs.drop stars
      if 2 < stars then .error (.pattern (position + 2) .wildcards)
      else if stars = 1 then parseFrom fuel (position + 1) (some '*') (.span :: done) after
      else if position ≠ 0 ∧ before ≠ some '/' then
        .error (.pattern (position - 1) .recursiveWildcards)
      else
        let next :=
          if 1 < done.length ∧ done.head? = some .components then done else .components :: done
        match after with
        | [] => .ok next.reverse
        | '/' :: rest => parseFrom fuel (position + 3) (some '/') next rest
        | _ => .error (.pattern (position + 2) .recursiveWildcards)
    | '[' :: rest =>
      match bracket? rest with
      | some (token, after) =>
        parseFrom fuel (position + (cs.length - after.length)) (some ']') (token :: done) after
      | none => .error (.pattern position .range)
    | c :: rest => parseFrom fuel (position + 1) (some c) (.literal c :: done) rest

def parse (text : String) : Except IndexError Pattern :=
  let cs := text.toList
  parseFrom (cs.length + 1) 0 none [] cs

/-- How the rest of a pattern fares on the rest of a text.  `hopeless` says that the text ended too
early, so that taking more of it before this point cannot help. -/
inductive Verdict where
  | matched
  | mismatch
  | hopeless
  deriving DecidableEq, Repr

/-- One character against a token that takes one. -/
def Token.takes (t : Token) (c : Char) : Bool :=
  match t with
  | .literal d => c == d
  | .anyChar => c != '/'
  | .anyOf set => c != '/' && set.any (·.contains c)
  | .noneOf set => c != '/' && !set.any (·.contains c)
  | .span => false
  | .components => false

/-- Lets a sequence take more and more of the text, and asks after each place where it may end how
the rest fares. -/
def sweep (whole : Bool) (rest : List Char → Verdict) : List Char → Verdict
  | [] => rest []
  | c :: cs =>
    if whole && c != '/' then sweep whole rest cs
    else if !whole && c == '/' then .mismatch
    else
      match rest cs with
      | .mismatch => sweep whole rest cs
      | verdict => verdict

/-- A pattern against a text. -/
def verdict : Pattern → List Char → Verdict
  | [], cs => if cs.isEmpty then .matched else .mismatch
  | t :: pattern, cs =>
    if t = .span ∨ t = .components then
      match verdict pattern cs with
      | .mismatch => sweep (t = .components) (verdict pattern) cs
      | v => v
    else
      match cs with
      | [] => .hopeless
      | c :: cs => if t.takes c then verdict pattern cs else .mismatch

def Pattern.matches (p : Pattern) (text : String) : Bool :=
  verdict p text.toList == .matched

end ProjectIndex.Glob
