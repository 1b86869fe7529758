import ProjectIndex.Proofs.Path.Order
import ProjectIndex.Proofs.Store.Calls

/-!
# Dropping the subscriptions of a subtree

The subscriptions at and below a path are searched in the order of paths: the search starts at the path
and stops at the first subscription that is not below it.  This is sound only because the order goes
component by component, so that a subtree is one block of it.  The search is then a filter of the whole
set, and dropping what it finds splits the set in two (`unsubscribe_splits`).

Whether the system still had the subscriptions is not asked: a directory that was deleted has none.
-/

namespace ProjectIndex

open Std

namespace Backend

variable {b : Backend} {top : Path}

theorem ordered_closing : (b.closing top).Pairwise Path.Before := by
  have part : (b.closing top).Sublist b.subscribed.toList :=
    (List.takeWhile_sublist _).trans (List.dropWhile_sublist _)
  exact (Path.ordered_toList b.subscribed).sublist part

/-- The search finds what a filter of the whole set finds, in the same order. -/
theorem closing_eq_filter : b.closing top = b.subscribed.toList.filter top.isAncestorOrSelfOf := by
  have ordered := (Path.ordered_toList b.subscribed).filter top.isAncestorOrSelfOf
  apply Path.eq_of_ordered ordered_closing ordered
  intro q
  rw [mem_closing, List.mem_filter, ExtTreeSet.mem_toList, Path.isAncestorOrSelfOf_iff]

/-- A dash comes before the separator, so in the order of whole spellings `/a-b` would stand between
`/a` and `/a/b` and end the search too early. -/
example :
    let b : Backend := ⟨.perDirectory, .ofList (["/a", "/a-b", "/a/b", "/ab"].map Path.ofString)⟩
    b.closing (.ofString "/a") = ["/a", "/a/b"].map Path.ofString := by
  decide +kernel

theorem length_closing :
    (b.closing top).length = (b.subscribed.filter top.isAncestorOrSelfOf).size := by
  rw [closing_eq_filter, ← ExtTreeSet.toList_filter, ExtTreeSet.length_toList]

/-- What is left is what a filter of the whole set leaves. -/
theorem subscribed_unsubscribe :
    (b.unsubscribe top).1.subscribed = b.subscribed.filter fun p => !top.isAncestorOrSelfOf p := by
  apply ExtTreeSet.ext_mem
  intro q
  rw [mem_unsubscribe, ExtTreeSet.mem_filter, ← Path.isAncestorOrSelfOf_iff]
  simp only [ExtTreeSet.get_eq, Bool.not_eq_true, Bool.not_eq_eq_eq_not, Bool.not_true, exists_prop]

/-- The two filters split the set. -/
theorem count_eq_kept_add_closing :
    b.count = (b.unsubscribe top).1.count + (b.closing top).length := by
  have split := b.subscribed.toList.length_eq_length_filter_add top.isAncestorOrSelfOf
  rw [count, count, subscribed_unsubscribe, closing_eq_filter, ← ExtTreeSet.length_toList,
    ← ExtTreeSet.length_toList, ExtTreeSet.toList_filter]
  omega

/-- Dropping the subscriptions of a subtree removes exactly those at and below its top, whatever bytes
their names are made of, and leaves every other one; the answer is the number of those removed.  The
way to subscribe is no part of it. -/
theorem unsubscribe_splits (b : Backend) (top : Path) :
    b.unsubscribe top =
        ({ b with subscribed := b.subscribed.filter fun p => !top.isAncestorOrSelfOf p },
          (b.subscribed.filter top.isAncestorOrSelfOf).size) ∧
      b.closing top = b.subscribed.toList.filter top.isAncestorOrSelfOf ∧
      b.count = (b.unsubscribe top).1.count + (b.unsubscribe top).2 := by
  refine ⟨?_, closing_eq_filter, count_eq_kept_add_closing⟩
  have left : (b.unsubscribe top).1 =
      { b with subscribed := b.subscribed.filter fun p => !top.isAncestorOrSelfOf p } := by
    rw [← subscribed_unsubscribe]
    rfl
  exact Prod.ext left length_closing

end Backend

end ProjectIndex
