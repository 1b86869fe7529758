import ProjectIndex.Text.Utf8
import Std.Data.ExtTreeMap
import Std.Data.ExtTreeSet

/-!
# Normalised paths

Two spellings of one location (`/a/./b`, `/a/c/../b`, `/a/b/`) must be one key, so every table of
this library is keyed by a `Path`: a list of components from which `.` and resolvable `..` are gone.
A `Spelling` is the byte string as somebody wrote it.  Normalisation is lexical and never asks the
disk, so links are not resolved.

Paths are ordered component by component and components by their bytes.  In that order everything
below a path follows it without a gap, which a byte order on spellings does not give: `/a/b` comes
before `/a-b`.
-/

namespace ProjectIndex

open Std

/-- The bytes of one entry name. -/
abbrev Name := List UInt8

def Name.ofString (s : String) : Name :=
  Utf8.encode s

/-- One step of a path. -/
inductive Component where
  | root
  | current
  | up
  | name (n : Name)
  deriving DecidableEq, Repr, Inhabited

/-- The byte string whose order is the order of components. -/
def Component.key : Component → List UInt8
  | .root => [0]
  | .current => [1]
  | .up => [2]
  | .name n => 3 :: n

theorem Component.key_injective {a b : Component} (h : a.key = b.key) : a = b := by
  cases a <;> cases b <;> simp_all [Component.key]

instance : Ord Component := ⟨compareOn Component.key⟩

instance : TransOrd Component :=
  inferInstanceAs (TransCmp (compareOn Component.key))

instance : LawfulEqOrd Component where
  compare_self := ReflCmp.compare_self
  eq_of_compare h := Component.key_injective (LawfulEqOrd.eq_of_compare h)

/-- A path as it was written: any byte string. -/
structure Spelling where
  bytes : List UInt8
  deriving DecidableEq, Repr, Inhabited

namespace Spelling

def separator : UInt8 := 0x2F

def dot : Name := [0x2E]

def dotDot : Name := [0x2E, 0x2E]

def ofString (s : String) : Spelling :=
  ⟨Utf8.encode s⟩

/-- The written text, with replacement characters where it is not UTF-8. -/
def display (s : Spelling) : String :=
  Utf8.display s.bytes

def isAbsolute (s : Spelling) : Bool :=
  s.bytes.head? == some separator

/-- The byte strings between separators. -/
def split : List UInt8 → List Name
  | [] => [[]]
  | b :: r =>
    if b = separator then [] :: split r
    else
      match split r with
      | [] => [[b]]
      | p :: ps => (b :: p) :: ps

/-- What one piece between separators stands for.  Empty pieces and `.` stand for nothing. -/
def component? (piece : Name) : Option Component :=
  if piece = [] ∨ piece = dot then none
  else if piece = dotDot then some .up
  else some (.name piece)

/-- The components of a spelling.  A `.` counts only at the start of a relative one. -/
def components (s : Spelling) : List Component :=
  let pieces := split s.bytes
  let first :=
    if s.isAbsolute then [.root]
    else if pieces.head? = some dot then [.current]
    else []
  first ++ pieces.filterMap component?

/-- Spellings are ordered as the components they stand for. -/
def compareComponents (a b : Spelling) : Ordering :=
  compare a.components b.components

/-- One spelling below another; an absolute one stands for itself. -/
def join (base child : Spelling) : Spelling :=
  if child.isAbsolute then child
  else if base.bytes = [] then child
  else if base.bytes.getLast? = some separator then ⟨base.bytes ++ child.bytes⟩
  else ⟨base.bytes ++ separator :: child.bytes⟩

end Spelling

/-- A path in normal form. -/
structure Path where
  components : List Component
  deriving DecidableEq, Repr, Inhabited

instance : Ord Path := ⟨compareOn Path.components⟩

instance : TransOrd Path :=
  inferInstanceAs (TransCmp (compareOn Path.components))

instance : LawfulEqOrd Path where
  compare_self := ReflCmp.compare_self
  eq_of_compare {a b} h := by
    cases a
    cases b
    exact congrArg Path.mk (LawfulEqOrd.eq_of_compare h)

namespace Path

/-- Puts one more component on a normalised stack, whose top is its head.  `..` takes a name off;
where there is none it stays, except at the root, which is its own parent. -/
def push (rooted : Bool) (stack : List Component) : Component → List Component
  | .root => [.root]
  | .current => stack
  | .name n => .name n :: stack
  | .up =>
    match stack with
    | .name _ :: below => below
    | _ => if rooted then stack else .up :: stack

/-- The normal form of a list of components; nothing at all is written `.`. -/
def normalise (cs : List Component) : List Component :=
  match cs.foldl (push (cs.head? == some .root)) [] with
  | [] => [.current]
  | stack => stack.reverse

def ofSpelling (s : Spelling) : Path :=
  ⟨normalise s.components⟩

def ofString (s : String) : Path :=
  ofSpelling (.ofString s)

/-- The root of the file system. -/
def root : Path := ⟨[.root]⟩

def isAbsolute (p : Path) : Bool :=
  p.components.head? == some .root

/-- The bytes of components without a root. -/
def renderTail : List Component → List UInt8
  | [] => []
  | [c] => renderOne c
  | c :: rest => renderOne c ++ Spelling.separator :: renderTail rest
where
  /-- The bytes of one component. -/
  renderOne : Component → List UInt8
    | .root => []
    | .current => Spelling.dot
    | .up => Spelling.dotDot
    | .name n => n

/-- The canonical spelling of a list of components. -/
def render : List Component → List UInt8
  | .root :: rest => Spelling.separator :: renderTail rest
  | cs => renderTail cs

/-- The canonical spelling of a path. -/
def spelling (p : Path) : Spelling :=
  ⟨render p.components⟩

/-- The text of a path, with replacement characters where it is not UTF-8. -/
def display (p : Path) : String :=
  p.spelling.display

/-- The location of `child` seen from `p`. -/
def join (p : Path) (child : Spelling) : Path :=
  if child.isAbsolute then ofSpelling child
  else ⟨normalise (p.components ++ child.components)⟩

def child (p : Path) (n : Name) : Path :=
  ⟨(if p.components = [.current] then [] else p.components) ++ [.name n]⟩

/-- The path without its last component.  The root and the empty path have no parent. -/
def parent (p : Path) : Option Path :=
  match p.components.getLast? with
  | none => none
  | some .root => none
  | some _ => some ⟨p.components.dropLast⟩

/-- The parent, its parent, and so on, the nearest first. -/
def ancestors (p : Path) : List Path :=
  ((List.range p.components.length).reverse.map fun n => (⟨p.components.take n⟩ : Path)).filter
    fun q => !(p.isAbsolute && q.components.isEmpty)

def withAncestors (p : Path) : List Path :=
  p :: p.ancestors

/-- The path `q` is `p` or lies above it. -/
def isAncestorOrSelfOf (q p : Path) : Bool :=
  q.components.isPrefixOf p.components

/-- The path `p` lies strictly below `q`. -/
def isDescendantOf (p q : Path) : Bool :=
  p != q && q.isAncestorOrSelfOf p

/-- The last component, when it is a name. -/
def name? (p : Path) : Option Name :=
  match p.components.getLast? with
  | some (.name n) => some n
  | _ => none

/-- The last component, when it is a name in UTF-8. -/
def basename (p : Path) : Option Name :=
  p.name?.filter fun n => Utf8.isValid n

/-- The names on the way, those that are not UTF-8 left out. -/
def segments (p : Path) : List Name :=
  p.components.filterMap fun
    | .name n => if Utf8.isValid n then some n else none
    | _ => none

/-- The way from `base` down to `p`, when `p` lies at or below it. -/
def relativeTo (p base : Path) : Option Spelling :=
  if base.isAncestorOrSelfOf p then some ⟨render (p.components.drop base.components.length)⟩
  else none

/-- What follows the last dot of the last name.  A dot in front does not count, so a hidden file
has no extension. -/
def extension (p : Path) : Option Name := do
  let n ← p.name?
  let after := n.reverse.takeWhile (· != 0x2E)
  if after.length + 1 < n.length then some after.reverse else none

end Path

abbrev Table (α : Type) := ExtTreeMap Path α

abbrev PathSet := ExtTreeSet Path

/-- Sorts by a path, keeping the order of what shares one. -/
def sortByPath {α : Type} (path : α → Path) (xs : List α) : List α :=
  xs.mergeSort fun a b => (compare (path a) (path b)).isLE

end ProjectIndex
