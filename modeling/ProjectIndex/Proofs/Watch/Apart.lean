import ProjectIndex.Proofs.Path.Containment
import ProjectIndex.Watch.Roots

/-!
# Roots that do not nest

The critical sections of the table of roots, one after the other.  A table is `Apart` when no root
of it, pending or active, covers another one, and no root is both.  Each section keeps a table
apart: a watch that starts has looked for roots above and for pending roots below and takes the
active ones below with it, and a root that settles moves from one column to the other.

In a table that is apart a path is covered by at most one root, and a settlement finds neither an
active root above nor one below.
-/

namespace ProjectIndex.Watch.Roots

open Std

/-- The root is pending or active. -/
def Holds (w : Roots) (r : Path) : Prop :=
  r ∈ w.pending ∨ r ∈ w.active

structure Apart (w : Roots) : Prop where
  antichain : ∀ a b, w.Holds a → w.Holds b → a.Covers b → a = b
  disjoint : ∀ r, r ∈ w.pending → r ∉ w.active

theorem apart_empty : Apart {} where
  antichain a b held := by simp [Holds] at held
  disjoint r pending := by simp at pending

/-- Nothing in a table covers a path. -/
private theorem covering_eq_none {table : Table Generation} {p : Path} :
    (table.toList.find? fun entry => entry.1.isAncestorOrSelfOf p) = none ↔
      ∀ r ∈ table, ¬ r.Covers p := by
  simp only [List.find?_eq_none, Path.isAncestorOrSelfOf_iff, Prod.forall,
    ExtTreeMap.mem_toList_iff_getElem?_eq_some]
  constructor
  · intro none r member
    obtain ⟨g, found⟩ := Option.isSome_iff_exists.1 (ExtTreeMap.mem_iff_isSome_getElem?.1 member)
    exact none r g found
  · intro none r g found
    exact none r (ExtTreeMap.mem_iff_isSome_getElem?.2 (by simp [found]))

private theorem covering_eq_some {table : Table Generation} {p r : Path} {g : Generation}
    (found : (table.toList.find? fun entry => entry.1.isAncestorOrSelfOf p) = some (r, g)) :
    table[r]? = some g ∧ r.Covers p := by
  have member := List.mem_of_find?_eq_some found
  have covers := List.find?_some found
  rw [ExtTreeMap.mem_toList_iff_getElem?_eq_some] at member
  exact ⟨member, Path.isAncestorOrSelfOf_iff.1 covers⟩

theorem pendingCovering_eq_none {w : Roots} {p : Path} :
    w.pendingCovering p = none ↔ ∀ r ∈ w.pending, ¬ r.Covers p :=
  covering_eq_none

theorem activeCovering_eq_none {w : Roots} {p : Path} :
    w.activeCovering p = none ↔ ∀ r ∈ w.active, ¬ r.Covers p :=
  covering_eq_none

theorem pendingCovering_eq_some {w : Roots} {p r : Path} {g : Generation}
    (found : w.pendingCovering p = some (r, g)) : w.pending[r]? = some g ∧ r.Covers p :=
  covering_eq_some found

theorem activeCovering_eq_some {w : Roots} {p r : Path} {g : Generation}
    (found : w.activeCovering p = some (r, g)) : w.active[r]? = some g ∧ r.Covers p :=
  covering_eq_some found

theorem pendingBelow_eq_nil {w : Roots} {root : Path} :
    w.pendingBelow root = [] ↔ ∀ r ∈ w.pending, root.Covers r → r = root := by
  simp only [pendingBelow, List.map_eq_nil_iff, List.filter_eq_nil_iff, Path.isDescendantOf_iff,
    Prod.forall, ExtTreeMap.mem_toList_iff_getElem?_eq_some]
  constructor
  · intro none r member covers
    obtain ⟨g, found⟩ := Option.isSome_iff_exists.1 (ExtTreeMap.mem_iff_isSome_getElem?.1 member)
    by_contra different
    exact none r g found ⟨different, covers⟩
  · rintro only r g found ⟨different, covers⟩
    exact different (only r (ExtTreeMap.mem_iff_isSome_getElem?.2 (by simp [found])) covers)

theorem mem_activeBelow {w : Roots} {root r : Path} :
    r ∈ w.activeBelow root ↔ r ∈ w.active ∧ r ≠ root ∧ root.Covers r := by
  simp [activeBelow, List.mem_filter]

/-- What a watch that starts has found out: nothing above, and nothing pending below. -/
theorem plan_eq_start {w : Roots} {root : Path} {subsumed : List Path}
    (planned : w.plan root = .start subsumed) :
    (∀ r ∈ w.pending, ¬ r.Covers root ∧ ¬ root.Covers r) ∧ (∀ r ∈ w.active, ¬ r.Covers root) ∧
      subsumed = w.activeBelow root := by
  unfold plan at planned
  split at planned
  · cases planned
  next notPending =>
    split at planned
    · cases planned
    next notActive =>
      split at planned
      next noneBelow =>
        rw [pendingCovering_eq_none] at notPending
        rw [activeCovering_eq_none] at notActive
        rw [pendingBelow_eq_nil] at noneBelow
        refine ⟨?_, notActive, (Plan.start.inj planned).symm⟩
        intro r member
        refine ⟨notPending r member, fun below => ?_⟩
        have same := noneBelow r member below
        exact notPending r member (same ▸ Path.Covers.refl r)
      · cases planned

theorem foldl_erase_getElem? (roots : List Path) (table : Table Generation) (p : Path) :
    (roots.foldl (fun active root => active.erase root) table)[p]? =
      if p ∈ roots then none else table[p]? := by
  induction roots generalizing table with
  | nil => simp
  | cons head tail ih =>
    rw [List.foldl_cons, ih]
    by_cases later : p ∈ tail
    · simp [later]
    · by_cases same : head = p
      · simp [later, same]
      · simp [later, same, Ne.symm same, ExtTreeMap.getElem?_erase]

@[simp] theorem release_pending (w : Roots) (roots : List Path) :
    (w.release roots).pending = w.pending := rfl

@[simp] theorem release_active (w : Roots) (roots : List Path) (p : Path) :
    (w.release roots).active[p]? = if p ∈ roots then none else w.active[p]? :=
  foldl_erase_getElem? roots w.active p

theorem reserve_pending (w : Roots) (root p : Path) (g : Generation) :
    (w.reserve root g).pending[p]? = if root = p then some g else w.pending[p]? := by
  simp [reserve, ExtTreeMap.getElem?_insert]

theorem reserve_active (w : Roots) (root p : Path) (g : Generation) :
    (w.reserve root g).active[p]? = if p ∈ w.activeBelow root then none else w.active[p]? := by
  simp [reserve]

/-- Making a root pending keeps a table apart, because `plan` has looked. -/
theorem Apart.reserve {w : Roots} {root : Path} {subsumed : List Path} (apart : w.Apart)
    (planned : w.plan root = .start subsumed) (g : Generation) : (w.reserve root g).Apart := by
  obtain ⟨noPending, noActive, _⟩ := plan_eq_start planned
  have held : ∀ r, (w.reserve root g).Holds r →
      r = root ∨ (w.Holds r ∧ ¬ r.Covers root ∧ ¬ root.Covers r) := by
    rintro r (pending | active)
    · rw [ExtTreeMap.mem_iff_isSome_getElem?, reserve_pending] at pending
      by_cases same : root = r
      · exact Or.inl same.symm
      · rw [if_neg same, ← ExtTreeMap.mem_iff_isSome_getElem?] at pending
        exact Or.inr ⟨Or.inl pending, noPending r pending⟩
    · rw [ExtTreeMap.mem_iff_isSome_getElem?, reserve_active] at active
      by_cases below : r ∈ w.activeBelow root
      · simp [below] at active
      · rw [if_neg below, ← ExtTreeMap.mem_iff_isSome_getElem?] at active
        have above := noActive r active
        refine Or.inr ⟨Or.inr active, above, fun covers => below ?_⟩
        rw [mem_activeBelow]
        exact ⟨active, fun same => above (same ▸ Path.Covers.refl r), covers⟩
  constructor
  · intro a b first second covers
    rcases held a first with rfl | ⟨oldA, notUp, notDown⟩
    · rcases held b second with rfl | ⟨_, _, notBelow⟩
      · rfl
      · exact absurd covers notBelow
    · rcases held b second with rfl | ⟨oldB, _, _⟩
      · exact absurd covers notUp
      · exact apart.antichain a b oldA oldB covers
  · intro r pending active
    rw [ExtTreeMap.mem_iff_isSome_getElem?, reserve_pending] at pending
    rw [ExtTreeMap.mem_iff_isSome_getElem?, reserve_active] at active
    by_cases below : r ∈ w.activeBelow root
    · simp [below] at active
    · rw [if_neg below, ← ExtTreeMap.mem_iff_isSome_getElem?] at active
      by_cases same : root = r
      · exact noActive r active (same ▸ Path.Covers.refl r)
      · rw [if_neg same, ← ExtTreeMap.mem_iff_isSome_getElem?] at pending
        exact apart.disjoint r pending active

/-- No active root is comparable with a pending one. -/
theorem Apart.active_incomparable {w : Roots} (apart : w.Apart) {root r : Path}
    (pending : root ∈ w.pending) (active : r ∈ w.active) : ¬ r.Covers root ∧ ¬ root.Covers r := by
  constructor
  · intro above
    have same := apart.antichain r root (Or.inr active) (Or.inl pending) above
    exact apart.disjoint root pending (same ▸ active)
  · intro below
    have same := apart.antichain root r (Or.inl pending) (Or.inr active) below
    exact apart.disjoint root pending (same ▸ active)

/-- The settlement of a pending root finds no active root above it and none below. -/
theorem Apart.settlement {w : Roots} (apart : w.Apart) {root : Path} (pending : root ∈ w.pending)
    (g : Generation) (wanted : Bool) :
    w.settle root g wanted =
      if wanted then
        ({ w with pending := w.pending.erase root, active := w.active.insert root g },
          .installed [])
      else ({ w with pending := w.pending.erase root }, .dropped) := by
  have above : activeCovering { w with pending := w.pending.erase root } root = none := by
    rw [activeCovering_eq_none]
    exact fun r active => (apart.active_incomparable pending active).1
  have below : activeBelow { w with pending := w.pending.erase root } root = [] := by
    rw [List.eq_nil_iff_forall_not_mem]
    intro r member
    rw [mem_activeBelow] at member
    exact (apart.active_incomparable pending member.1).2 member.2.2
  cases wanted with
  | false => rfl
  | true => simp [settle, above, below, release]

/-- Retiring a pending root, whatever became of its crawl, keeps a table apart. -/
theorem Apart.settle {w : Roots} (apart : w.Apart) {root : Path} (pending : root ∈ w.pending)
    (g : Generation) (wanted : Bool) : (w.settle root g wanted).1.Apart := by
  rw [apart.settlement pending]
  have erased : ∀ r, r ∈ w.pending.erase root → r ∈ w.pending ∧ r ≠ root := by
    intro r member
    rw [ExtTreeMap.mem_erase] at member
    exact ⟨member.2, fun same => member.1 (same ▸ ReflCmp.compare_self)⟩
  cases wanted with
  | false =>
    constructor
    · intro a b first second
      exact apart.antichain a b (first.imp_left fun h => (erased a h).1)
        (second.imp_left fun h => (erased b h).1)
    · intro r member
      exact apart.disjoint r (erased r member).1
  | true =>
    have inserted : ∀ r, r ∈ w.active.insert root g → r = root ∨ r ∈ w.active := by
      intro r member
      rw [ExtTreeMap.mem_insert] at member
      exact member.imp_left fun same => (LawfulEqOrd.eq_of_compare same).symm
    have held : ∀ r, r ∈ w.pending.erase root ∨ r ∈ w.active.insert root g → w.Holds r := by
      rintro r (left | right)
      · exact Or.inl (erased r left).1
      · rcases inserted r right with rfl | active
        · exact Or.inl pending
        · exact Or.inr active
    constructor
    · intro a b first second
      exact apart.antichain a b (held a first) (held b second)
    · intro r member active
      rcases inserted r active with same | before
      · exact (erased r member).2 same
      · exact apart.disjoint r (erased r member).1 before

/-- Withdrawing a root keeps a table apart: it only takes an active root out. -/
theorem Apart.withdraw {w : Roots} (apart : w.Apart) (root : Path) : (w.withdraw root).1.Apart := by
  have erased : ∀ r, r ∈ w.active.erase root → r ∈ w.active := by
    intro r member
    rw [ExtTreeMap.mem_erase] at member
    exact member.2
  constructor
  · intro a b first second
    exact apart.antichain a b (first.imp_right (erased a)) (second.imp_right (erased b))
  · intro r member active
    exact apart.disjoint r member (erased r active)

theorem Apart.announce {w : Roots} (apart : w.Apart) (g : Generation) (ok : Bool) :
    (w.announce g ok).Apart :=
  ⟨apart.antichain, apart.disjoint⟩

/-- A path is covered by at most one root. -/
theorem Apart.unique_cover {w : Roots} (apart : w.Apart) {a b p : Path} (first : w.Holds a)
    (second : w.Holds b) (left : a.Covers p) (right : b.Covers p) : a = b := by
  rcases left.comparable right with down | up
  · exact apart.antichain a b first second down
  · exact (apart.antichain b a second first up).symm

end ProjectIndex.Watch.Roots
