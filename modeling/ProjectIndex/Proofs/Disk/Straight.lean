import ProjectIndex.Proofs.Disk.Walk
import ProjectIndex.Proofs.Path.Relative

/-!
# Straight spellings

A spelling is straight when it never goes up and ends with a name.  Dots and doubled separators
inside such a spelling mean nothing to the disk either: two straight spellings of one path name one
entry.
-/

namespace ProjectIndex

namespace Spelling

/-- The pieces of a spelling that are not dots. -/
def names (s : Spelling) : List Name :=
  (Disk.pieces s).filter (· != dot)

/-- A spelling that the system takes, that has no `..` in it, and that ends with a name. -/
def isStraight (s : Spelling) : Bool :=
  s.bytes.length ≤ Disk.maxPathLength && !(Disk.pieces s).contains dotDot &&
    (Disk.pieces s).getLast?.any (· != dot)

/-- A byte other than the separator stands in a piece. -/
theorem mem_split {bytes : List UInt8} {b : UInt8} (other : b ≠ separator) :
    b ∈ bytes ↔ ∃ piece ∈ split bytes, b ∈ piece := by
  induction bytes with
  | nil => simp [split]
  | cons c rest ih =>
    by_cases same : c = separator
    · rw [split, if_pos same, List.mem_cons, ih]
      simp [same, other]
    · obtain ⟨head, tail, pieces, split⟩ := split_cons same rest
      rw [split, List.mem_cons, ih, pieces]
      simp [or_assoc]

variable {s : Spelling}

theorem short_of_isStraight (straight : s.isStraight = true) :
    s.bytes.length ≤ Disk.maxPathLength := by
  simp only [isStraight, Bool.and_eq_true, decide_eq_true_eq] at straight
  exact straight.1.1

theorem forward_of_isStraight (straight : s.isStraight = true) : dotDot ∉ Disk.pieces s := by
  simp only [isStraight, Bool.and_eq_true, Bool.not_eq_true', List.contains_eq_mem,
    decide_eq_false_iff_not] at straight
  exact straight.1.2

theorem last_of_isStraight (straight : s.isStraight = true) :
    ∃ n, (Disk.pieces s).getLast? = some n ∧ n ≠ dot := by
  simp only [isStraight, Bool.and_eq_true, Option.any_eq_true, bne_iff_ne] at straight
  exact straight.2

theorem names_ne_nil (straight : s.isStraight = true) : s.names ≠ [] := by
  obtain ⟨n, last, named⟩ := last_of_isStraight straight
  exact List.ne_nil_of_mem (List.mem_filter.2 ⟨List.mem_of_getLast? last, by simpa using named⟩)

theorem pieces_of_isStraight (straight : s.isStraight = true) :
    Disk.pieces s = (split s.bytes).filter (· != []) := by
  obtain ⟨n, last, named⟩ := last_of_isStraight straight
  unfold Disk.pieces at last ⊢
  split
  next ends => simp_all
  · rfl

/-- What a straight spelling stands for are its names. -/
theorem components_of_isStraight (straight : s.isStraight = true) :
    (split s.bytes).filterMap component? = s.names.map .name := by
  have pieces := pieces_of_isStraight straight
  have forward : ∀ piece ∈ split s.bytes, piece ≠ dotDot := by
    rintro _ member rfl
    apply forward_of_isStraight straight
    rw [pieces]
    exact List.mem_filter.2 ⟨member, by decide⟩
  rw [names, pieces, List.filter_filter, ← List.filterMap_eq_map, List.filterMap_filter]
  refine List.filterMap_congr fun piece member => ?_
  have named := forward piece member
  by_cases empty : piece = [] <;> by_cases dotted : piece = dot <;>
    simp [component?, empty, dotted, named]

theorem ofSpelling_absolute (straight : s.isStraight = true) (absolute : s.isAbsolute = true) :
    (Path.ofSpelling s).components = .root :: s.names.map .name := by
  have components : s.components = .root :: s.names.map .name := by
    simp [Spelling.components, absolute, components_of_isStraight straight]
  have pushed : s.components.foldl (Path.push true) [] =
      (s.names.map Component.name).reverse ++ [.root] := by
    rw [components]
    exact Path.foldl_push_append s.names true [.root]
  have normal := Path.normalise_of_stack (by simp [components]) pushed (by simp)
  simpa [Path.ofSpelling] using normal

theorem ofSpelling_relative (straight : s.isStraight = true) (relative : s.isAbsolute = false) :
    (Path.ofSpelling s).components = s.names.map .name := by
  have pushed : s.components.foldl (Path.push false) [] = (s.names.map Component.name).reverse := by
    have plain := Path.foldl_push_append s.names false []
    simp only [Spelling.components, relative, Bool.false_eq_true, if_false,
      components_of_isStraight straight]
    split <;> simpa [Path.push] using plain
  have start := Path.head?_ne_root (Path.root_not_mem_components relative)
  have normal := Path.normalise_of_stack start pushed (by simpa using names_ne_nil straight)
  simpa [Path.ofSpelling] using normal

/-- Two straight spellings of one path have the same names in the same order. -/
theorem names_congr {p q : Spelling} (first : p.isStraight = true) (second : q.isStraight = true)
    (same : Path.ofSpelling p = .ofSpelling q) : p.names = q.names := by
  have injective : Function.Injective Component.name := fun _ _ same => Component.name.inj same
  have anchored : p.isAbsolute = q.isAbsolute := by
    rw [← Path.isAbsolute_ofSpelling_eq, ← Path.isAbsolute_ofSpelling_eq, same]
  have components := congrArg Path.components same
  refine List.map_injective_iff.2 injective ?_
  cases absolute : p.isAbsolute with
  | true =>
    rw [ofSpelling_absolute first absolute, ofSpelling_absolute second (anchored ▸ absolute)]
      at components
    exact List.tail_eq_of_cons_eq components
  | false =>
    rw [ofSpelling_relative first absolute, ofSpelling_relative second (anchored ▸ absolute)]
      at components
    exact components

/-- Every byte of a straight spelling but separators and dots is one of its names. -/
theorem nul_of_isStraight (straight : s.isStraight = true) :
    s.bytes.contains 0 = true ↔ ∃ n ∈ s.names, 0 ∈ n := by
  rw [List.contains_iff_mem, mem_split (by decide)]
  constructor
  · rintro ⟨piece, member, inside⟩
    refine ⟨piece, List.mem_filter.2 ⟨?_, ?_⟩, inside⟩
    · rw [pieces_of_isStraight straight]
      exact List.mem_filter.2 ⟨member, by simpa using List.ne_nil_of_mem inside⟩
    · rw [bne_iff_ne]
      rintro rfl
      revert inside
      decide
  · rintro ⟨n, member, inside⟩
    have piece := (List.mem_filter.1 member).1
    rw [pieces_of_isStraight straight] at piece
    exact ⟨n, (List.mem_filter.1 piece).1, inside⟩

end Spelling

namespace Disk

open Spelling (dot)

/-- Two lists of pieces that end with a name and differ only in dots. -/
structure Alike (first second : List Name) : Prop where
  named : first.filter (· != dot) = second.filter (· != dot)
  ends : first.getLast? ≠ some dot
  endsAlso : second.getLast? ≠ some dot

namespace Alike

variable {first second : List Name}

/-- What ends with a name and has no names is empty. -/
theorem eq_nil {todo : List Name} (ends : todo.getLast? ≠ some dot)
    (bare : todo.filter (· != dot) = []) : todo = [] := by
  by_contra some
  have last := List.getLast?_eq_some_getLast some
  have named := List.filter_eq_nil_iff.1 bare _ (List.getLast_mem some)
  exact ends (by simpa [last] using named)

theorem nil_iff (alike : Alike first second) : first = [] ↔ second = [] := by
  constructor
  · rintro rfl
    exact eq_nil alike.endsAlso alike.named.symm
  · rintro rfl
    exact eq_nil alike.ends alike.named

/-- After the same pieces, what is alike stays so, unless it is empty. -/
theorem prepend (alike : Alike first second) (some : first ≠ []) (pieces : List Name) :
    Alike (pieces ++ first) (pieces ++ second) := by
  have other : second ≠ [] := fun empty => some (alike.nil_iff.2 empty)
  refine ⟨?_, ?_, ?_⟩
  · rw [List.filter_append, List.filter_append, alike.named]
  · rw [List.getLast?_append_of_ne_nil _ some]
    exact alike.ends
  · rw [List.getLast?_append_of_ne_nil _ other]
    exact alike.endsAlso

end Alike

/-- A dot in front of something means nothing. -/
theorem walk_dot (root : Node) (start : List Name) {rest : List Name} (some : rest ≠ []) :
    walk root false start (dot :: rest) = walk root false start rest := by
  obtain ⟨piece, rest, rfl⟩ := List.exists_cons_of_ne_nil some
  cases here : root.get? start with
  | none => simp [walk, here]
  | some node => cases node <;> simp [walk, here]

/-- A walk starts with the first name, whatever dots stand in front of it. -/
theorem walk_first {todo : List Name} {n : Name} {names : List Name} (root : Node)
    (start : List Name) (ends : todo.getLast? ≠ some dot)
    (first : todo.filter (· != dot) = n :: names) :
    ∃ rest, walk root false start todo = walk root false start (n :: rest) ∧
      rest.filter (· != dot) = names ∧ rest.getLast? ≠ some dot := by
  induction todo with
  | nil => cases first
  | cons piece rest ih =>
    by_cases dotted : piece = dot
    · subst dotted
      have some : rest ≠ [] := by
        rintro rfl
        exact ends rfl
      rw [List.getLast?_cons_of_ne_nil some] at ends
      rw [walk_dot root start some]
      exact ih ends (by simpa using first)
    · rw [List.filter_cons_of_pos (by simpa using dotted), List.cons.injEq] at first
      obtain ⟨rfl, rfl⟩ := first
      refine ⟨rest, rfl, rfl, fun last => ends ?_⟩
      rw [List.getLast?_cons, last]
      rfl

/-- Walks that differ in dots stop alike: at the same entry or at the same link.  The induction is on the
names, and the dots in front of each are passed over. -/
theorem walk_alike {first second : List Name} (root : Node) (start : List Name)
    (alike : Alike first second) :
    walk root false start first = walk root false start second ∨
      ∃ next todo todo', walk root false start first = .ok (.link next todo) ∧
        walk root false start second = .ok (.link next todo') ∧ Alike todo todo' := by
  generalize names : first.filter (· != dot) = common
  induction common generalizing start first second with
  | nil =>
    obtain rfl := Alike.eq_nil alike.ends names
    obtain rfl := alike.nil_iff.1 rfl
    exact Or.inl rfl
  | cons n common ih =>
    obtain ⟨rest, walked, left, ends⟩ := walk_first root start alike.ends names
    obtain ⟨rest', walked', left', ends'⟩ :=
      walk_first root start alike.endsAlso (alike.named.symm.trans names)
    have later : Alike rest rest' := ⟨left.trans left'.symm, ends, ends'⟩
    rw [walked, walked']
    rcases walk_cons root start n with ⟨e, fails⟩ | ⟨next, goesOn⟩ | ⟨_, target, next, _, linked⟩
    · exact Or.inl ((fails false rest).trans (fails false rest').symm)
    · rw [goesOn, goesOn]
      exact ih next later left
    · rw [linked, linked]
      by_cases last : rest = []
      · obtain rfl := later.nil_iff.1 last
        exact Or.inl (by rw [last])
      · have other : rest' ≠ [] := fun empty => last (later.nil_iff.2 empty)
        refine Or.inr ⟨next, _, _, if_neg (by simp [last]), if_neg (by simp [other]), ?_⟩
        exact later.prepend last (pieces ⟨target⟩)

theorem resolve_alike {first second : List Name} {root : Node} {links : Nat} {start : List Name}
    (alike : Alike first second) :
    resolve root false links start first = resolve root false links start second := by
  induction links generalizing start first second with
  | zero =>
    unfold resolve
    rcases walk_alike root start alike with same | ⟨next, todo, todo', one, other, _⟩
    · rw [same]
    · rw [one, other]
  | succ links ih =>
    unfold resolve
    rcases walk_alike root start alike with same | ⟨next, todo, todo', one, other, later⟩
    · rw [same]
    · rw [one, other]
      exact ih later

/-- Two straight spellings of one path name one entry. -/
theorem statEntry_congr (d : Disk) {p q : Spelling} (first : p.isStraight = true)
    (second : q.isStraight = true) (same : Path.ofSpelling p = .ofSpelling q) :
    d.statEntry p = d.statEntry q := by
  have ends {s : Spelling} (straight : s.isStraight = true) :
      (pieces s).getLast? ≠ some dot ∧ s.bytes.isEmpty = false ∧
        ¬ maxPathLength < s.bytes.length := by
    obtain ⟨n, last, named⟩ := Spelling.last_of_isStraight straight
    refine ⟨by simpa [last] using named, ?_, Nat.not_lt.2 (Spelling.short_of_isStraight straight)⟩
    cases bytes : s.bytes with
    | nil => simp [pieces, bytes, Spelling.split] at last
    | cons b rest => rfl
  have anchored : p.isAbsolute = q.isAbsolute := by
    rw [← Path.isAbsolute_ofSpelling_eq, ← Path.isAbsolute_ofSpelling_eq, same]
  have names := Spelling.names_congr first second same
  have nul : p.bytes.contains 0 = true ↔ q.bytes.contains 0 = true := by
    rw [Spelling.nul_of_isStraight first, Spelling.nul_of_isStraight second, names]
  have located : d.locate false p = d.locate false q := by
    unfold locate
    rw [if_congr nul rfl rfl, (ends first).2.1, (ends second).2.1, anchored,
      if_neg (ends first).2.2, if_neg (ends second).2.2,
      resolve_alike ⟨names, (ends first).1, (ends second).1⟩]
  unfold statEntry node
  rw [located]

end Disk

end ProjectIndex
