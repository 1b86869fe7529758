import ProjectIndex.Log.Line
import ProjectIndex.Text.Blank
import ProjectIndex.Text.Letters

/-!
# Which lines are shown

A filter is a list of directives between commas: a level, or a source with a level.  The directive
with the longest source that a line's source starts with decides.  A directive may also ask for a
span, for fields, and for values of fields.  No line is inside a span and no field but the message
is ever there, so a directive that asks for a span or a value selects nothing.
-/

namespace ProjectIndex.Log

/-- A level by its name or number; `off` shows nothing. -/
def levelRank? (cs : List Char) : Option Nat :=
  let digits := match cs with
    | '+' :: rest => rest
    | cs => cs
  let names := ["off", "error", "warn", "info", "debug", "trace"]
  if !digits.isEmpty && digits.all Char.isDigit then
    let n := digits.foldl (fun n c => n * 10 + (c.toNat - '0'.toNat)) 0
    if n ≤ 5 then some n else none
  else if cs.isEmpty then some 1
  else names.idxOf? (String.ofList (cs.map Char.toLower))

/-- A field that a directive asks for, perhaps with a value. -/
structure FieldMatch where
  name : String
  valued : Bool
  deriving DecidableEq, Repr

structure Directive where
  /-- What the source of a line has to start with. -/
  target : Option String
  /-- How much is shown. -/
  rank : Nat
  span : Option String := none
  fields : List FieldMatch := []
  deriving DecidableEq, Repr

inductive DirectiveError where
  | malformed
  | level
  deriving DecidableEq, Repr

def DirectiveError.message : DirectiveError → String
  | .malformed => "invalid filter directive"
  | .level =>
    "error parsing level filter: expected one of \"off\", \"error\", \"warn\", \"info\", " ++
      "\"debug\", \"trace\", or a number 0-5"

/-- The characters of a text that start at or after a place and before another.  Places are counted
in bytes. -/
def cut (cs : List Char) (start stop : Nat) : List Char :=
  go 0 cs
where
  /-- Goes on from a place. -/
  go : Nat → List Char → List Char
    | _, [] => []
    | offset, c :: rest =>
      let later := go (offset + c.utf8Size) rest
      if start ≤ offset && offset < stop then c :: later else later

/-- Which part of a directive is being read, and where it started. -/
inductive Part where
  | start
  | levelOrTarget (start : Nat)
  | span (start : Nat)
  | field (start : Nat)
  | fields
  /-- After the closing bracket. -/
  | bracketed
  | level (start : Nat)
  deriving DecidableEq, Repr

/-- A directive as far as it is read. -/
structure Draft where
  part : Part := .start
  /-- The place of the next character. -/
  offset : Nat := 0
  target : Option String := none
  span : Option String := none
  fields : List FieldMatch := []

/-- A field without a name is none. -/
def FieldMatch.parse (cs : List Char) : Except DirectiveError FieldMatch :=
  if cs.isEmpty then .error .malformed
  else
    let (name, value) := cs.span (· != '=')
    .ok ⟨String.ofList name, !value.isEmpty⟩

/-- Takes one character of a directive.  Parts are cut out of `whole`, the directive with the blanks
around it, although characters are counted without them. -/
def Draft.take (whole : List Char) (d : Draft) (c : Char) : Except DirectiveError Draft :=
  let here := d.offset
  let next := { d with offset := here + c.utf8Size }
  let since (start : Nat) : List Char := cut whole start here
  match d.part with
  | .start =>
    if c = '[' then .ok { next with part := .span (here + 1) }
    else if c = '-' || c = ':' || c = '_' || Letters.isAlphanumeric c then
      .ok { next with part := .levelOrTarget here }
    else .error .malformed
  | .levelOrTarget start =>
    let target := some (String.ofList (since start))
    if c = '=' then .ok { next with target, part := .level (here + 1) }
    else if c = '[' then .ok { next with target, part := .span (here + 1) }
    else .ok next
  | .span start =>
    let name := since start
    if c = ']' then .ok { next with span := some (String.ofList name), part := .bracketed }
    else if c = '\x7b' then
      let span := if name.isEmpty then none else some (String.ofList name)
      .ok { next with span, part := .field (here + 1) }
    else .ok next
  | .field start =>
    if c = '\x7d' then do
      let field ← FieldMatch.parse (since start)
      return { next with fields := d.fields ++ [field], part := .fields }
    else .ok next
  | .fields => if c = ']' then .ok { next with part := .bracketed } else .error .malformed
  | .bracketed =>
    if c = '=' then .ok { next with part := .level (here + 1) } else .error .malformed
  | .level _ => .ok next

/-- The directive that was read. -/
def Draft.finish (whole : List Char) (d : Draft) : Except DirectiveError Directive :=
  let since (start : Nat) : List Char := cut whole start (String.ofList whole).utf8ByteSize
  let made (rank : Nat) : Directive :=
    { target := d.target, rank, span := d.span, fields := d.fields }
  match d.part with
  | .levelOrTarget start =>
    let text := since start
    if text.isEmpty then .ok (made 5)
    else
      match levelRank? text with
      | some rank => .ok (made rank)
      | none => .ok { made 5 with target := some (String.ofList text) }
  | .level start =>
    let text := since start
    if text.isEmpty then .ok (made 5)
    else
      match levelRank? text with
      | some rank => .ok (made rank)
      | none => .error .level
  | .bracketed => .ok (made 5)
  | _ => .error .malformed

def Directive.parse (s : String) : Except DirectiveError Directive := do
  let whole := s.toList
  (← (Blank.trim whole).foldlM (Draft.take whole) {}).finish whole

structure Filter where
  directives : List Directive
  deriving DecidableEq, Repr

/-- Reads a filter.  Directives that cannot be read are ignored, with a line about each; a filter
without directives shows errors. -/
def Filter.parse (s : String) : Filter × List String :=
  let parts := (s.splitOn ",").filter (· != "")
  let read := parts.map fun part => (part, Directive.parse part)
  let good := read.filterMap fun (_, r) => r.toOption
  let ignored := read.filterMap fun
    | (part, .error e) => some ("ignoring `" ++ part ++ "`: " ++ e.message)
    | _ => none
  (⟨if good.isEmpty then [{ target := none, rank := 1 }] else good⟩, ignored)

/-- The directive has a say about the lines of a source. -/
def Directive.fits (d : Directive) (source : Source) : Bool :=
  d.span.isNone && d.fields.all (fun f => !f.valued && f.name = "message") &&
    d.target.all fun target => target.toList.isPrefixOf source.target.toList

/-- How much a directive asks for: a target, by its length, and then fields. -/
def Directive.weight (d : Directive) : Nat × Nat :=
  ((d.target.map fun target => target.utf8ByteSize + 1).getD 0, d.fields.length)

/-- The directive that decides about a source: the one that asks for most, and of several the last
one. -/
def Filter.deciding (f : Filter) (source : Source) : Option Directive :=
  (f.directives.filter (·.fits source)).foldl
    (fun best d =>
      match best with
      | some b => if d.weight.1 < b.weight.1 ∨ (d.weight.1 = b.weight.1 ∧ d.weight.2 < b.weight.2)
          then best else some d
      | none => some d)
    none

def Filter.shows (f : Filter) (l : Line) : Bool :=
  match f.deciding l.source with
  | some d => l.level.rank ≤ d.rank
  | none => false

end ProjectIndex.Log
