import ProjectIndex.Proofs.Watch.Interleaving

/-!
# Watched roots never nest

However watches, refreshes and withdrawals are interleaved, the roots that are pending or active
never cover one another.  The invariant behind it ties the pending roots to the work under way: a
root is pending exactly as long as some request runs its first crawl, and no two requests run first
crawls of one root.  Withdrawing a root takes an active root away and leaves a pending one where it
is, cancelled, until its crawl ends; so a settlement always finds its own root pending.
-/

namespace ProjectIndex.Watch.System

open Std

/-- The roots do not nest, and the pending ones are those whose first crawl is under way. -/
structure Matched (s : System) : Prop where
  apart : s.host.roots.Apart
  crawled : ∀ root g, s.host.roots.pending[root]? = some g →
    ∃ i, s.dutyAt i = some (.crawl root g)
  pending : ∀ i root g, s.dutyAt i = some (.crawl root g) →
    s.host.roots.pending[root]? = some g
  once : ∀ i j root g g', s.dutyAt i = some (.crawl root g) →
    s.dutyAt j = some (.crawl root g') → i = j

theorem orderly_fresh (name : Name) (style : Backend.Style) : Matched (fresh name style) where
  apart := Roots.apart_empty
  crawled root g found := by simp [fresh] at found
  pending i root g working := by simp [dutyAt, fresh] at working
  once i j root g g' working := by simp [dutyAt, fresh] at working

/-- The root of a first crawl that is under way is pending. -/
theorem Matched.mem_pending {s : System} (matched : s.Matched) {i : Nat} {root : Path}
    {g : Generation} (working : s.dutyAt i = some (.crawl root g)) :
    root ∈ s.host.roots.pending := by
  rw [ExtTreeMap.mem_iff_isSome_getElem?, matched.pending i root g working]
  rfl

/-- A move that neither starts nor ends a first crawl and leaves the pending roots keeps order. -/
theorem Matched.of_same_crawls {s t : System} (matched : s.Matched) (apart : t.host.roots.Apart)
    (pending : t.host.roots.pending = s.host.roots.pending)
    (crawls : ∀ j root g, t.dutyAt j = some (.crawl root g) ↔ s.dutyAt j = some (.crawl root g)) :
    t.Matched where
  apart := apart
  crawled root g found := by
    obtain ⟨i, working⟩ := matched.crawled root g (pending ▸ found)
    exact ⟨i, (crawls i root g).2 working⟩
  pending i root g working := by
    rw [pending]
    exact matched.pending i root g ((crawls i root g).1 working)
  once i j root g g' first second :=
    matched.once i j root g g' ((crawls i root g).1 first) ((crawls j root g').1 second)

/-- A watch that starts brings one root and one first crawl of it. -/
theorem Matched.crawl_started {s t : System} (matched : s.Matched) {i : Nat} {root : Path}
    {subsumed : List Path} {new : Generation} (planned : s.host.roots.plan root = .start subsumed)
    (free : s.dutyAt i = none) (roots : t.host.roots = s.host.roots.reserve root new)
    (duties : ∀ j, t.dutyAt j = if j = i then some (.crawl root new) else s.dutyAt j) :
    t.Matched := by
  obtain ⟨noPending, _, _⟩ := Roots.plan_eq_start planned
  have unseen : ∀ j g, s.dutyAt j ≠ some (.crawl root g) := by
    intro j g working
    exact (noPending root (matched.mem_pending working)).1 (Path.Covers.refl root)
  have crawl_of : ∀ j r g, t.dutyAt j = some (.crawl r g) →
      (j = i ∧ r = root ∧ g = new) ∨ (j ≠ i ∧ s.dutyAt j = some (.crawl r g)) := by
    intro j r g working
    rw [duties j] at working
    split at working
    next same =>
      cases Option.some.inj working
      exact Or.inl ⟨same, rfl, rfl⟩
    next different => exact Or.inr ⟨different, working⟩
  refine ⟨roots ▸ matched.apart.reserve planned new, ?_, ?_, ?_⟩
  · intro r g found
    rw [roots, Roots.reserve_pending] at found
    split at found
    next same =>
      cases Option.some.inj found
      exact ⟨i, by rw [duties i, if_pos rfl, same]⟩
    · obtain ⟨j, working⟩ := matched.crawled r g found
      refine ⟨j, ?_⟩
      rw [duties j, if_neg (fun same => ?_), working]
      rw [same, free] at working
      cases working
  · intro j r g working
    rw [roots, Roots.reserve_pending]
    rcases crawl_of j r g working with ⟨_, rfl, rfl⟩ | ⟨_, before⟩
    · simp
    · rw [if_neg (fun same : root = r => unseen j g (same ▸ before))]
      exact matched.pending j r g before
  · intro j k r g g' first second
    rcases crawl_of j r g first with ⟨rfl, rfl, _⟩ | ⟨_, before⟩
    · rcases crawl_of k r g' second with ⟨rfl, _, _⟩ | ⟨_, other⟩
      · rfl
      · exact absurd other (unseen k g')
    · rcases crawl_of k r g' second with ⟨_, rfl, _⟩ | ⟨_, other⟩
      · exact absurd before (unseen j g)
      · exact matched.once j k r g g' before other

/-- The end of a first crawl takes its root out of the pending ones, and no other. -/
theorem Matched.crawl_ended {s t : System} (matched : s.Matched) {i : Nat} {root : Path}
    {g : Generation} {wanted ok : Bool} (working : s.dutyAt i = some (.crawl root g))
    (roots : t.host.roots = (s.host.roots.settle root g wanted).1.announce g ok)
    (duties : ∀ j, t.dutyAt j = if j = i then none else s.dutyAt j) : t.Matched := by
  have member := matched.mem_pending working
  have pending : ∀ r, t.host.roots.pending[r]? =
      if root = r then none else s.host.roots.pending[r]? := by
    intro r
    rw [roots, matched.apart.settlement member]
    cases wanted <;> simp [Roots.announce, ExtTreeMap.getElem?_erase]
  have crawl_of : ∀ j r g', t.dutyAt j = some (.crawl r g') ↔
      j ≠ i ∧ s.dutyAt j = some (.crawl r g') := by
    intro j r g'
    rw [duties j]
    by_cases same : j = i <;> simp [same]
  refine ⟨roots ▸ (matched.apart.settle member g wanted).announce g ok, ?_, ?_, ?_⟩
  · intro r g' found
    rw [pending] at found
    split at found
    · cases found
    next different =>
      obtain ⟨j, before⟩ := matched.crawled r g' found
      refine ⟨j, (crawl_of j r g').2 ⟨fun same => different ?_, before⟩⟩
      rw [same, working] at before
      cases Option.some.inj before
      rfl
  · intro j r g' after
    obtain ⟨different, before⟩ := (crawl_of j r g').1 after
    rw [pending, if_neg (fun same => different ?_)]
    · exact matched.pending j r g' before
    · exact matched.once j i r g' g before (same ▸ working)
  · intro j k r g' g'' first second
    exact matched.once j k r g' g'' ((crawl_of j r g').1 first).2 ((crawl_of k r g'').1 second).2

/-- Every move keeps order. -/
theorem Matched.step {s : System} (matched : s.Matched) (policy : Policy) (move : Move) :
    (s.step policy move).Matched := by
  cases s.step_shift policy move with
  | same roots duties =>
    exact matched.of_same_crawls (roots ▸ matched.apart) (by rw [roots])
      (fun j root g => by rw [duties j])
  | refreshStarted i path g covered free roots duties =>
    refine matched.of_same_crawls (roots ▸ matched.apart) (by rw [roots]) (fun j root g' => ?_)
    rw [duties j]
    by_cases same : j = i <;> simp [same, free]
  | refreshEnded i path g working roots duties =>
    refine matched.of_same_crawls (roots ▸ matched.apart) (by rw [roots]) (fun j root g' => ?_)
    rw [duties j]
    by_cases same : j = i <;> simp [same, working]
  | crawlStarted i root subsumed planned free roots duties =>
    exact matched.crawl_started planned free roots duties
  | crawlEnded i root g ok working roots duties => exact matched.crawl_ended working roots duties
  | withdrawn root roots duties =>
    exact matched.of_same_crawls (roots ▸ matched.apart.withdraw root) (by rw [roots]; rfl)
      (fun j root g => by rw [duties j])

theorem Reachable.matched {policy : Policy} {s : System} (reachable : Reachable policy s) :
    s.Matched :=
  reachable.invariant orderly_fresh (fun _ move matched => matched.step policy move)

/-- In every reachable state the active and the pending roots form an antichain and are disjoint.
So two first crawls that are under way never cover one path, a path is covered by at most one root,
and a first crawl that settles, now and with whatever outcome, finds no active root above its own
and releases none below. -/
theorem roots_never_nest (policy : Policy) (s : System) (reachable : Reachable policy s) :
    (∀ a b, s.host.roots.Holds a → s.host.roots.Holds b → a.Covers b → a = b) ∧
    (∀ r, r ∈ s.host.roots.pending → r ∉ s.host.roots.active) ∧
    (∀ i j a b g g' p, s.dutyAt i = some (.crawl a g) → s.dutyAt j = some (.crawl b g') →
      a.Covers p → b.Covers p → i = j) ∧
    (∀ a b p, s.host.roots.Holds a → s.host.roots.Holds b → a.Covers p → b.Covers p → a = b) ∧
    (∀ i root g wanted, s.dutyAt i = some (.crawl root g) →
      (s.host.roots.settle root g wanted).2 = if wanted then .installed [] else .dropped) := by
  have matched := reachable.matched
  refine ⟨matched.apart.antichain, matched.apart.disjoint, ?_, ?_, ?_⟩
  · intro i j a b g g' p first second left right
    have same := matched.apart.unique_cover (Or.inl (matched.mem_pending first))
      (Or.inl (matched.mem_pending second)) left right
    exact matched.once i j a g g' first (same ▸ second)
  · intro a b p first second left right
    exact matched.apart.unique_cover first second left right
  · intro i root g wanted working
    rw [matched.apart.settlement (matched.mem_pending working)]
    cases wanted <;> rfl

/-- A watch on `/a/b`, one on `/a` that waits for it, a withdrawal of `/a` that cancels the first
crawl and leaves it pending, and a watch on `/a/b/c` that joins it. -/
def overlappingRequests : List Move :=
  [.watch ⟨[.root, .name [97], .name [98]]⟩, .watch ⟨[.root, .name [97]]⟩,
    .unwatch ⟨[.root, .name [97]]⟩, .watch ⟨[.root, .name [97], .name [98], .name [99]]⟩]

/-- The overlapping requests leave one first crawl under way, and roots that do not nest. -/
theorem roots_never_nest_overlapping :
    let s := (fresh [] .recursive).run (.ofSettings {}) overlappingRequests
    s.dutyAt 0 = some (.crawl ⟨[.root, .name [97], .name [98]]⟩ 0) ∧
      s.host.store.isStale 0 = true ∧
      (s.host.roots.settle ⟨[.root, .name [97], .name [98]]⟩ 0 true).2 = .installed [] := by
  intro s
  have working : s.dutyAt 0 = some (.crawl ⟨[.root, .name [97], .name [98]]⟩ 0) := by decide +kernel
  have reachable : Reachable (.ofSettings {}) s := ⟨[], .recursive, overlappingRequests, rfl⟩
  refine ⟨working, by decide +kernel, ?_⟩
  exact (roots_never_nest (.ofSettings {}) s reachable).2.2.2.2 0 _ 0 true working

end ProjectIndex.Watch.System
