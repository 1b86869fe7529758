import ProjectIndex.Path.Basic
import Mathlib.Data.List.Infix

/-!
# Containment of paths

A path covers another one when it is that path or lies above it.  Covering is a partial order, and
the paths that cover one path form a chain: this is what makes "the root that covers a path" a
question with at most one answer once roots do not nest.

The children of a directory are the paths whose parent it is.  Two of them never cover the same
path, so what is done below one entry of a directory does not touch what lies below another.
-/

namespace ProjectIndex.Path

/-- The path `q` is `p` or lies above it. -/
def Covers (q p : Path) : Prop :=
  q.components <+: p.components

instance (q p : Path) : Decidable (q.Covers p) :=
  inferInstanceAs (Decidable (q.components <+: p.components))

@[simp] theorem isAncestorOrSelfOf_iff {q p : Path} : q.isAncestorOrSelfOf p = true ↔ q.Covers p :=
  List.isPrefixOf_iff_prefix

@[simp] theorem isDescendantOf_iff {p q : Path} : p.isDescendantOf q = true ↔ p ≠ q ∧ q.Covers p := by
  simp [isDescendantOf]

@[simp] theorem Covers.refl (p : Path) : p.Covers p :=
  List.prefix_refl _

theorem Covers.trans {p q r : Path} (first : p.Covers q) (second : q.Covers r) : p.Covers r :=
  List.IsPrefix.trans first second

theorem Covers.antisymm {p q : Path} (down : p.Covers q) (up : q.Covers p) : p = q := by
  cases p
  cases q
  exact congrArg Path.mk (down.eq_of_length (Nat.le_antisymm down.length_le up.length_le))

/-- Two paths that cover one path are comparable. -/
theorem Covers.comparable {p q r : Path} (left : p.Covers r) (right : q.Covers r) :
    p.Covers q ∨ q.Covers p := by
  rcases Nat.le_total p.components.length q.components.length with shorter | longer
  · exact Or.inl (List.prefix_of_prefix_length_le left right shorter)
  · exact Or.inr (List.prefix_of_prefix_length_le right left longer)

/-- A parent is what is left without the last component, and the root is nobody's last component. -/
theorem parent_eq_some_iff {p d : Path} :
    p.parent = some d ↔ ∃ c, c ≠ .root ∧ p.components = d.components ++ [c] := by
  constructor
  · intro found
    unfold parent at found
    split at found
    · cases found
    · cases found
    · next c notRoot last =>
      simp only [Option.some.injEq] at found
      subst found
      exact ⟨c, notRoot, (List.dropLast_append_getLast? c last).symm⟩
  · rintro ⟨c, notRoot, split⟩
    cases c <;> simp_all [parent]

/-- The parent lies strictly above. -/
theorem covers_of_parent {p d : Path} (parent : p.parent = some d) : d.Covers p := by
  obtain ⟨c, _, split⟩ := parent_eq_some_iff.1 parent
  exact ⟨[c], split.symm⟩

theorem length_of_parent {p d : Path} (parent : p.parent = some d) :
    p.components.length = d.components.length + 1 := by
  obtain ⟨c, _, split⟩ := parent_eq_some_iff.1 parent
  simp [split]

theorem ne_of_parent {p d : Path} (parent : p.parent = some d) : p ≠ d := by
  rintro rfl
  have := length_of_parent parent
  omega

theorem not_covers_of_parent {p d : Path} (parent : p.parent = some d) : ¬ p.Covers d := by
  intro up
  have shorter := up.length_le
  have := length_of_parent parent
  omega

/-- What covers a path is the path itself or covers its parent. -/
theorem Covers.eq_or_parent {q p d : Path} (above : q.Covers p) (parent : p.parent = some d) :
    q = p ∨ q.Covers d := by
  obtain ⟨c, _, split⟩ := parent_eq_some_iff.1 parent
  have shorter : q.components <+: d.components ++ [c] := split ▸ above
  rcases List.prefix_concat_iff.1 shorter with whole | inside
  · left
    cases p
    cases q
    exact congrArg Path.mk (whole.trans split.symm)
  · exact Or.inr inside

/-- What lies strictly above a path does not lie below it. -/
theorem Covers.of_parent {q p d : Path} (above : q.Covers d) (parent : p.parent = some d) : q.Covers p :=
  above.trans (covers_of_parent parent)

/-- Two entries of one directory never cover the same path. -/
theorem eq_of_siblings {a b d p : Path} (first : a.parent = some d) (second : b.parent = some d)
    (left : a.Covers p) (right : b.Covers p) : a = b := by
  rcases left.comparable right with down | up
  · rcases down.eq_or_parent second with same | above
    · exact same
    · exact absurd above (not_covers_of_parent first)
  · rcases up.eq_or_parent first with same | above
    · exact same.symm
    · exact absurd above (not_covers_of_parent second)

/-- The entry called `n` has the directory as its parent. -/
theorem parent_child {p : Path} (n : Name) (absolute : p.isAbsolute = true) :
    (p.child n).parent = some p := by
  have named : p.components ≠ [.current] := by
    intro relative
    simp [isAbsolute, relative] at absolute
  apply parent_eq_some_iff.2
  exact ⟨.name n, by simp, by simp [child, named]⟩

/-- The name of a path is its last component. -/
theorem name?_eq_some_iff {p : Path} {n : Name} :
    p.name? = some n ↔ p.components.getLast? = some (.name n) := by
  unfold name?
  split
  next m last => simp [last]
  next other => simpa using other n

/-- A path with a name is the entry of that name in its directory. -/
theorem components_of_name {p d : Path} {n : Name} (named : p.name? = some n)
    (parent : p.parent = some d) : p.components = d.components ++ [.name n] := by
  obtain ⟨c, _, split⟩ := parent_eq_some_iff.1 parent
  have last := name?_eq_some_iff.1 named
  rw [split] at last ⊢
  simpa using last

private theorem compare_cons (x y : Component) (xs ys : List Component) :
    compare (x :: xs) (y :: ys) = (compare x y).then (compare xs ys) :=
  List.compareLex_cons_cons

/-- What lies below a path does not come before it. -/
theorem Covers.not_before {top q : Path} (covers : top.Covers q) : compare q top ≠ .lt := by
  have after : ∀ ts rest : List Component, compare (ts ++ rest) ts ≠ .lt := by
    intro ts rest
    induction ts with
    | nil => cases rest <;> exact Ordering.noConfusion
    | cons t ts ih => rwa [List.cons_append, compare_cons, Std.ReflOrd.compare_self, Ordering.eq_then]
  obtain ⟨rest, split⟩ := covers
  change compare q.components top.components ≠ .lt
  exact split ▸ after _ rest

/-- Everything below a path follows it without a gap: what comes between the path and something below
it lies below it. -/
theorem Covers.between {top p q : Path} (covers : top.Covers q) (low : compare p top ≠ .lt)
    (high : compare p q ≠ .gt) : top.Covers p := by
  have inside : ∀ ts ps qs : List Component, ts <+: qs → compare ps ts ≠ .lt →
      compare ps qs ≠ .gt → ts <+: ps := by
    intro ts
    induction ts with
    | nil => exact fun ps _ _ _ _ => List.nil_prefix
    | cons t ts ih =>
      intro ps qs covers low high
      obtain ⟨rest, rfl⟩ := covers
      cases ps with
      | nil => exact absurd rfl low
      | cons x xs =>
        rw [compare_cons] at low
        rw [List.cons_append, compare_cons] at high
        cases order : compare x t with
        | lt => simp [order] at low
        | gt => simp [order] at high
        | eq =>
          obtain rfl := Std.LawfulEqOrd.eq_of_compare order
          simp only [order, Ordering.eq_then] at low high
          exact List.cons_prefix_cons.2 ⟨rfl, ih xs _ (List.prefix_append ts rest) low high⟩
  exact inside _ _ _ covers low high

end ProjectIndex.Path
