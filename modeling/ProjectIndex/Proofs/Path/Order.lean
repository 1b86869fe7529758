import ProjectIndex.Proofs.Path.Containment
import Mathlib.Data.List.Perm.Basic

/-!
# The order of paths

What lies below one entry of a directory comes, as a block, before what lies below any later entry.
A walk through a tree that takes the entries of each directory in order therefore comes to the paths
in order.  Lists that are in order and have the same members are the same.
-/

namespace ProjectIndex.Path

open Std

/-- The path `p` comes before `q`, component by component. -/
def Before (p q : Path) : Prop :=
  compare p q = .lt

instance (p q : Path) : Decidable (p.Before q) :=
  inferInstanceAs (Decidable (compare p q = .lt))

theorem Before.ne {p q : Path} (before : p.Before q) : p ≠ q := by
  rintro rfl
  unfold Before at before
  rw [ReflOrd.compare_self] at before
  cases before

theorem Before.not_gt {p q : Path} (before : p.Before q) : compare p q ≠ .gt := by
  intro after
  unfold Before at before
  rw [before] at after
  cases after

/-- No two paths come before each other. -/
theorem Before.asymm {p q : Path} (before : p.Before q) : ¬ q.Before p := by
  intro after
  have turned : compare p q = .gt := OrientedCmp.gt_iff_lt.2 after
  exact before.not_gt turned

/-- What does not come before a path comes after all that does. -/
theorem Before.of_not_before {p q r : Path} (before : p.Before q) (later : ¬ r.Before q) :
    p.Before r := by
  have reached : (compare q r).isLE = true := by
    have turned : compare q r ≠ .gt := fun after => later (OrientedCmp.gt_iff_lt.1 after)
    cases order : compare q r with
    | lt => rfl
    | eq => rfl
    | gt => exact absurd order turned
  exact TransCmp.lt_of_lt_of_isLE before reached

/-- Below two entries of one directory, the order is that of the entries.  Were `p` not before `q`, then
`b` would stand between `a` and `p`, hence below `a`. -/
theorem Before.below {a b d p q : Path} (before : a.Before b) (first : a.parent = some d)
    (second : b.parent = some d) (left : a.Covers p) (right : b.Covers q) : p.Before q := by
  by_contra late
  have high : ¬ p.Before b := by
    intro early
    exact late (early.of_not_before right.not_before)
  have low : compare b a ≠ .lt := before.asymm
  have inside : a.Covers b := by
    apply left.between low
    intro after
    exact high (OrientedCmp.gt_iff_lt.1 after)
  have same : a = b := eq_of_siblings first second inside (.refl b)
  exact before.ne same

theorem nodup_of_ordered {ps : List Path} (ordered : ps.Pairwise Before) : ps.Nodup :=
  ordered.imp Before.ne

/-- Lists in order that have the same members are the same. -/
theorem eq_of_ordered {ps qs : List Path} (left : ps.Pairwise Before) (right : qs.Pairwise Before)
    (members : ∀ p, p ∈ ps ↔ p ∈ qs) : ps = qs := by
  have perm : ps.Perm qs :=
    (List.perm_ext_iff_of_nodup (nodup_of_ordered left) (nodup_of_ordered right)).2 members
  have antisymmetric : ∀ p q, p ∈ ps → q ∈ qs → p.Before q → q.Before p → p = q := by
    intro p q _ _ before after
    exact absurd after before.asymm
  exact perm.eq_of_pairwise antisymmetric left right

/-- A set of paths is listed in order. -/
theorem ordered_toList (s : PathSet) : s.toList.Pairwise Before :=
  ExtTreeSet.ordered_toList

/-- Sorting keeps what is in order. -/
theorem sortByPath_of_ordered {ps : List Path} (ordered : ps.Pairwise Before) :
    sortByPath id ps = ps := by
  apply List.mergeSort_of_pairwise
  apply ordered.imp
  intro p q before
  exact congrArg Ordering.isLE before

def under (names : List Name) : Path :=
  ⟨.root :: names.map .name⟩

end ProjectIndex.Path
