import ProjectIndex.Proofs.Watch.Withdrawal

/-!
# Watches that are in force

A watch that returns successfully should leave its root covered: by an active root, or by a pending
one that was not cancelled.  As long as nobody withdraws anything, a root that covers a path leaves
the table only when another root that covers the path takes its place, or when its first crawl ends
without success.  A first crawl ends without success when it fails, and also when it was cancelled
before: the cancelled crawl stays in the table until it ends, a watch that starts meanwhile joins
it, and is told that all went well when nothing is watched any more.
-/

namespace ProjectIndex.Watch.System

open Std

/-- A root at or above the path is active, or pending in a live generation. -/
def InForce (s : System) (p : Path) : Prop :=
  (∃ r ∈ s.host.roots.active, r.Covers p) ∨
    ∃ (r : Path) (g : Generation),
      s.host.roots.pending[r]? = some g ∧ r.Covers p ∧ s.host.store.isStale g = false

/-- With this move the first crawl of a root at or above the path fails. -/
def Fails (policy : Policy) (s : System) (move : Move) (p : Path) : Prop :=
  ∃ (r : Path) (g : Generation), s.host.roots.pending[r]? = some g ∧ r.Covers p ∧
    (s.step policy move).host.roots.outcome? g = some false

/-- The first crawl of a root at or above the path fails with one of the moves. -/
def FailsAlong (policy : Policy) (s : System) (moves : List Move) (p : Path) : Prop :=
  ∃ before move after, moves = before ++ move :: after ∧
    Fails policy (s.run policy before) move p

def Covered (s : System) (p : Path) : Prop :=
  ∃ r, s.host.roots.Holds r ∧ r.Covers p

def Clear (s : System) (p : Path) : Prop :=
  ∀ (r : Path) (g : Generation),
    s.host.roots.pending[r]? = some g → r.Covers p → s.host.store.isStale g = false

theorem InForce.covered {s : System} {p : Path} (force : s.InForce p) : s.Covered p := by
  rcases force with ⟨r, active, covers⟩ | ⟨r, g, pending, covers, _⟩
  · exact ⟨r, Or.inr active, covers⟩
  · exact ⟨r, Roots.RunsIn.holds (Or.inl pending), covers⟩

theorem Covered.inForce {s : System} {p : Path} (covered : s.Covered p) (clear : s.Clear p) :
    s.InForce p := by
  obtain ⟨r, pending | active, covers⟩ := covered
  · obtain ⟨g, found⟩ := Option.isSome_iff_exists.1 (ExtTreeMap.mem_iff_isSome_getElem?.1 pending)
    exact Or.inr ⟨r, g, found, covers, clear r g found covers⟩
  · exact Or.inl ⟨r, active, covers⟩

/-- Only generations that were given out are cancelled. -/
theorem Reachable.stale_given {policy : Policy} {s : System} (reachable : Reachable policy s)
    {g : Generation} (stale : s.host.store.isStale g = true) : g < s.host.store.nextGeneration := by
  have all : s.Matched ∧ s.Owned ∧
      ∀ g ∈ s.host.store.cancelled, g < s.host.store.nextGeneration := by
    refine reachable.invariant (P := fun s => s.Matched ∧ s.Owned ∧
        ∀ g ∈ s.host.store.cancelled, g < s.host.store.nextGeneration)
      (fun name style => ⟨orderly_fresh name style, owned_fresh name style, ?_⟩)
      (fun s move holds => ⟨holds.1.step policy move, holds.2.1.step holds.1 policy move, ?_⟩)
    · intro g member
      cases member
    · obtain ⟨_, owned, given⟩ := holds
      intro g member
      cases s.step_shift policy move with
      | same _ _ next cancelled | refreshStarted _ _ _ _ _ _ _ next cancelled
      | refreshEnded _ _ _ _ _ _ next cancelled | crawlEnded _ _ _ _ _ _ _ next cancelled =>
        rw [cancelled] at member
        exact next ▸ given g member
      | crawlStarted _ _ _ _ _ _ _ next cancelled =>
        rw [cancelled] at member
        exact next ▸ Nat.lt_succ_of_lt (given g member)
      | withdrawn root _ _ next cancelled =>
        rw [cancelled, List.mem_append, List.mem_reverse, Roots.mem_withdraw] at member
        rw [next]
        rcases member with (⟨r, pending, _⟩ | active) | before
        · exact owned.given r g (Or.inl pending)
        · exact owned.given root g (Or.inr active)
        · exact given g before
  exact all.2.2 g (List.contains_iff_mem.1 stale)

/-- Nothing but a withdrawal cancels anything. -/
theorem step_cancelled (policy : Policy) (s : System) {move : Move}
    (kept : ∀ root, move ≠ .unwatch root) :
    (s.step policy move).host.store.cancelled = s.host.store.cancelled := by
  have watched : ∀ root, (s.host.watch root).1.store.cancelled = s.host.store.cancelled := by
    intro root
    rcases s.host.watch_cases root with ⟨quiet, _, _⟩ | ⟨_, _, quiet, _, _⟩
    · exact quiet.cancelled
    · exact quiet.cancelled
  cases move with
  | watch root => exact watched root
  | refresh path => exact (s.host.refresh_cases policy path).2.1.cancelled
  | unwatch root => exact absurd rfl (kept root)
  | resume i world schedule =>
    dsimp only [step]
    split
    next call _ =>
      cases working : call.duty? with
      | some d => exact (Call.step_working working policy world schedule s.host).1.generations.1
      | none =>
        rcases Call.step_idle working policy world schedule s.host with ⟨host, _⟩ | ⟨root, again⟩
        · exact congrArg (·.store.cancelled) host
        · exact again ▸ watched root
    · rfl

/-- A withdrawal that ends no generation finds no root to take out. -/
theorem withdraw_holds {w : Roots} {root : Path} (none : (w.withdraw root).2 = []) (r : Path) :
    (w.withdraw root).1.Holds r ↔ w.Holds r := by
  have absent : root ∉ w.active := by
    intro member
    obtain ⟨g, found⟩ := Option.isSome_iff_exists.1 (ExtTreeMap.mem_iff_isSome_getElem?.1 member)
    have ended : g ∈ (w.withdraw root).2 := Roots.mem_withdraw.2 (Or.inr found)
    rw [none] at ended
    cases ended
  have erased : r ∈ w.active.erase root ↔ r ∈ w.active := by
    rw [ExtTreeMap.mem_erase]
    constructor
    · exact fun member => member.2
    · refine fun member => ⟨fun same => absent ?_, member⟩
      exact LawfulEqOrd.eq_of_compare same ▸ member
  exact or_congr Iff.rfl erased

/-- A root that is pending after a move was pending before, or it has a new generation. -/
theorem pending_of_step {policy : Policy} {s : System} (matched : s.Matched) {move : Move} {r : Path}
    {g : Generation} (pending : (s.step policy move).host.roots.pending[r]? = some g) :
    s.host.roots.pending[r]? = some g ∨ g = s.host.store.nextGeneration := by
  cases s.step_shift policy move with
  | same roots | refreshStarted _ _ _ _ _ roots | refreshEnded _ _ _ _ roots =>
    exact Or.inl (roots ▸ pending)
  | crawlStarted _ root _ _ _ roots =>
    rw [roots, Roots.reserve_pending] at pending
    split at pending
    · exact Or.inr (Option.some.inj pending).symm
    · exact Or.inl pending
  | crawlEnded i root _ ok working roots =>
    rw [roots, matched.apart.settlement (matched.mem_pending working)] at pending
    refine Or.inl (@Roots.carried_of_erase _ root r g ?_)
    split at pending <;> exact pending
  | withdrawn root roots =>
    rw [roots] at pending
    exact Or.inl pending

/-- As long as nothing is withdrawn no first crawl is cancelled. -/
theorem Clear.step {policy : Policy} {s : System} (reachable : Reachable policy s) {p : Path}
    (clear : s.Clear p) {move : Move} (kept : ∀ root, move ≠ .unwatch root) :
    (s.step policy move).Clear p := by
  intro r g pending covers
  have same : (s.step policy move).host.store.isStale g = s.host.store.isStale g := by
    simp [Store.isStale, step_cancelled policy s kept]
  rw [same]
  rcases pending_of_step reachable.matched pending with before | new
  · exact clear r g before covers
  · by_contra stale
    exact absurd (reachable.stale_given (eq_true_of_ne_false stale)) (by simp [new])

/-- As long as nothing is withdrawn and no first crawl fails, a path that is covered stays so: the root that
covers it may be taken over, by one that lies above. -/
theorem Covered.step {policy : Policy} {s : System} (reachable : Reachable policy s) {p : Path}
    (covered : s.Covered p) (clear : s.Clear p) {move : Move}
    (kept : ∀ root, move ≠ .unwatch root) (succeeds : ¬ Fails policy s move p) :
    (s.step policy move).Covered p := by
  obtain ⟨r, held, covers⟩ := covered
  have matched := reachable.matched
  cases s.step_shift policy move with
  | same roots | refreshStarted _ _ _ _ _ roots | refreshEnded _ _ _ _ roots =>
    exact ⟨r, by rwa [roots], covers⟩
  | crawlStarted _ root _ _ _ roots =>
    by_cases above : root.Covers p
    · refine ⟨root, Or.inl ?_, above⟩
      simp [roots, Roots.reserve]
    · refine ⟨r, ?_, covers⟩
      rw [roots]
      rcases held with pending | active
      · left
        simp [Roots.reserve, pending]
      · right
        rw [ExtTreeMap.mem_iff_isSome_getElem?, Roots.reserve_active, if_neg,
          ← ExtTreeMap.mem_iff_isSome_getElem?]
        · exact active
        · exact fun below => above ((Roots.mem_activeBelow.1 below).2.2.trans covers)
  | crawlEnded i root g ok working roots =>
    have pending := matched.pending i root g working
    rw [matched.apart.settlement (matched.mem_pending working)] at roots
    by_cases own : r = root
    · subst own
      cases ok with
      | false =>
        refine absurd ⟨r, g, pending, covers, ?_⟩ succeeds
        simp [roots, Roots.announce, Roots.outcome?]
      | true =>
        refine ⟨r, Or.inr ?_, covers⟩
        simp [roots, Store.isLive, clear r g pending covers, Roots.announce]
    · refine ⟨r, ?_, covers⟩
      have different : ¬ compare root r = .eq := fun same =>
        own (LawfulEqOrd.eq_of_compare same).symm
      rw [roots]
      rcases held with other | active
      · left
        split <;> exact ExtTreeMap.mem_erase.2 ⟨different, other⟩
      · right
        split
        · exact ExtTreeMap.mem_insert.2 (Or.inr active)
        · exact active
  | withdrawn root roots _ _ cancelled =>
    rw [step_cancelled policy s kept] at cancelled
    have none : (s.host.roots.withdraw root).2 = [] := by simpa using cancelled
    exact ⟨r, by rw [roots]; exact (withdraw_holds none r).2 held, covers⟩

/-- A watch that starts has its root covered, unless it waits for the crawls below it. -/
theorem watch_covers (h : Host) (root : Path) :
    (∃ below, (h.watch root).2 = .waiting (.draining root below)) ∨
      ∃ r, (h.watch root).1.roots.Holds r ∧ r.Covers root := by
  rcases h.watch_cases root with ⟨_, roots, _⟩ | ⟨subsumed, planned, _, roots, _⟩
  · rw [roots]
    cases planned : h.roots.plan root with
    | join above g =>
      unfold Roots.plan at planned
      split at planned
      next found =>
        obtain ⟨pending, covers⟩ := Roots.pendingCovering_eq_some found
        exact Or.inr ⟨_, Roots.RunsIn.holds (Or.inl pending), covers⟩
      · split at planned
        · cases planned
        · split at planned <;> cases planned
    | covered above =>
      unfold Roots.plan at planned
      split at planned
      · cases planned
      · split at planned
        next found =>
          obtain ⟨active, covers⟩ := Roots.activeCovering_eq_some found
          exact Or.inr ⟨_, Roots.RunsIn.holds (Or.inr active), covers⟩
        · split at planned <;> cases planned
    | drain below => exact Or.inl ⟨below, by simp [Host.watch, planned]⟩
    | start subsumed => simp_all [Host.watch, Progress.duty?, Call.duty?]
  · refine Or.inr ⟨root, Or.inl ?_, .refl root⟩
    simp [roots, Roots.reserve]

/-- The request with this number waits for crawls below its root, or its root is covered. -/
def Secured (s : System) (i : Nat) (root : Path) : Prop :=
  (∃ below, s.calls[i]? = some (.waiting (.draining root below))) ∨ s.Covered root

theorem Secured.step {policy : Policy} {s : System} (reachable : Reachable policy s) {i : Nat}
    {root : Path} (stands : s.Secured i root) (clear : s.Clear root) {move : Move}
    (kept : ∀ root, move ≠ .unwatch root) (succeeds : ¬ Fails policy s move root) :
    (s.step policy move).Secured i root := by
  rcases stands with ⟨below, waiting⟩ | covered
  · have within : i < s.calls.length := (List.getElem?_eq_some_iff.1 waiting).1
    cases move with
    | watch path | refresh path =>
      exact Or.inl ⟨below, (List.getElem?_append_left within).trans waiting⟩
    | unwatch path => exact absurd rfl (kept path)
    | resume j world schedule =>
      by_cases own : j = i
      · subst own
        simp only [System.step, waiting, Call.step]
        split
        · rcases watch_covers s.host root with ⟨below', starts⟩ | covered
          · exact Or.inl ⟨below', by simp [within, starts]⟩
          · exact Or.inr covered
        · exact Or.inl ⟨_, List.getElem?_set_self within⟩
      · refine Or.inl ⟨below, ?_⟩
        dsimp only [System.step]
        split
        · exact (List.getElem?_set_ne own).trans waiting
        · exact waiting
  · exact Or.inr (covered.step reachable clear kept succeeds)

theorem Reachable.step {policy : Policy} {s : System} (reachable : Reachable policy s)
    (move : Move) : Reachable policy (s.step policy move) := by
  obtain ⟨name, style, moves, rfl⟩ := reachable
  exact ⟨name, style, moves ++ [move], by simp [run]⟩

theorem Reachable.run {policy : Policy} {s : System} (reachable : Reachable policy s)
    (moves : List Move) : Reachable policy (s.run policy moves) := by
  obtain ⟨name, style, earlier, rfl⟩ := reachable
  exact ⟨name, style, earlier ++ moves, by simp [System.run]⟩

/-- Along moves that withdraw nothing, either a first crawl fails or the request stands. -/
theorem Secured.run {policy : Policy} {i : Nat} {root : Path} (moves : List Move) {s : System}
    (reachable : Reachable policy s) (stands : s.Secured i root) (clear : s.Clear root)
    (kept : ∀ path, Move.unwatch path ∉ moves) :
    FailsAlong policy s moves root ∨
      ((s.run policy moves).Secured i root ∧ (s.run policy moves).Clear root) := by
  induction moves generalizing s with
  | nil => exact Or.inr ⟨stands, clear⟩
  | cons move rest ih =>
    have keeps : ∀ path, move ≠ .unwatch path := fun path same => kept path (by simp [same])
    by_cases fails : Fails policy s move root
    · exact Or.inl ⟨[], move, rest, rfl, fails⟩
    · have later := ih (reachable.step move) (stands.step reachable clear keeps fails)
        (clear.step reachable keeps) (fun path member => kept path (by simp [member]))
      refine later.imp_left ?_
      rintro ⟨before, failing, after, rfl, fails⟩
      exact ⟨move :: before, failing, after, rfl, fails⟩

/-- The end of a cancelled first crawl leaves nothing at or above the paths below its root. -/
theorem cancelled_end_uncovers {policy : Policy} {s : System} (matched : s.Matched) {i : Nat}
    {r p : Path} {g : Generation} (working : s.dutyAt i = some (.crawl r g)) (covers : r.Covers p)
    (stale : s.host.store.isStale g = true) {move : Move}
    (ended : (s.step policy move).dutyAt i = none) : ¬ (s.step policy move).Covered p := by
  cases s.step_shift policy move with
  | same _ duties | withdrawn _ _ duties =>
    rw [duties i, working] at ended
    cases ended
  | refreshStarted j _ _ _ free _ duties | crawlStarted j _ _ _ free _ duties =>
    rw [duties i, if_neg (fun same => by simp [← same, working] at free), working] at ended
    cases ended
  | refreshEnded j _ _ other _ duties =>
    rw [duties i, if_neg (fun same => by simp [← same, working] at other), working] at ended
    cases ended
  | crawlEnded j root g' ok other roots duties =>
    by_cases same : i = j
    · subst same
      obtain ⟨rfl, rfl⟩ : r = root ∧ g = g' := by simpa [working] using other
      have pending := matched.mem_pending working
      rw [matched.apart.settlement pending] at roots
      simp only [Store.isLive, stale, Bool.not_true, Bool.and_false, Bool.false_eq_true,
        if_false] at roots
      rintro ⟨r', held, above⟩
      rw [roots] at held
      rcases held with left | active
      · have left := ExtTreeMap.mem_erase.1 left
        have unique := matched.apart.unique_cover (Or.inl left.2) (Or.inl pending) above covers
        exact left.1 (unique ▸ ReflCmp.compare_self)
      · have unique := matched.apart.unique_cover (Or.inr active) (Or.inl pending) above covers
        exact matched.apart.disjoint r pending (unique ▸ active)
    · rw [duties i, if_neg same, working] at ended
      cases ended

/-- A watch on `root` that has returned successfully, with nothing withdrawn since it was made,
leaves its root in force, unless one of two things happened.  Either a first crawl of a root at or
above was under way, already cancelled, when the watch was made; or such a crawl has failed since.
The first of them does lose the watch: when the cancelled crawl ends, nothing covers the root. -/
theorem successful_watch_in_force (policy : Policy) (s : System) (reachable : Reachable policy s)
    (root : Path) (moves : List Move) (kept : ∀ path, Move.unwatch path ∉ moves)
    (returned : ((s.step policy (.watch root)).run policy moves).calls[s.calls.length]? =
      some (.finished (.watched (.ok ())))) :
    (((s.step policy (.watch root)).run policy moves).InForce root ∨
      (∃ (r : Path) (g : Generation), s.host.roots.pending[r]? = some g ∧ r.Covers root ∧
        s.host.store.isStale g = true) ∨
      FailsAlong policy (s.step policy (.watch root)) moves root) ∧
    (∀ before move after i r g, moves = before ++ move :: after →
      ((s.step policy (.watch root)).run policy before).dutyAt i = some (.crawl r g) →
      r.Covers root →
      ((s.step policy (.watch root)).run policy before).host.store.isStale g = true →
      (((s.step policy (.watch root)).run policy before).step policy move).dutyAt i = none →
      ¬ (((s.step policy (.watch root)).run policy before).step policy move).InForce root) := by
  have made := reachable.step (.watch root)
  constructor
  · by_cases clear : s.Clear root
    · have stands : (s.step policy (.watch root)).Secured s.calls.length root := by
        rcases watch_covers s.host root with ⟨below, starts⟩ | covered
        · exact Or.inl ⟨below, by simp [step, starts]⟩
        · exact Or.inr covered
      have stillClear : (s.step policy (.watch root)).Clear root := clear.step reachable (by simp)
      rcases stands.run moves made stillClear kept with fails | ⟨⟨below, waiting⟩ | covered, clear⟩
      · exact Or.inr (Or.inr fails)
      · rw [returned] at waiting
        cases waiting
      · exact Or.inl (covered.inForce clear)
    · refine Or.inr (Or.inl ?_)
      simp only [Clear, not_forall] at clear
      obtain ⟨r, g, pending, covers, stale⟩ := clear
      exact ⟨r, g, pending, covers, eq_true_of_ne_false stale⟩
  · intro before move after i r g _ working covers stale ended force
    exact cancelled_end_uncovers (made.run before).matched working covers stale ended force.covered

/-- Where no root is active and none is pending, nothing is in force. -/
theorem not_inForce_of_empty {s : System} (active : s.host.roots.active.toList = [])
    (pending : s.host.roots.pending.toList = []) (p : Path) : ¬ s.InForce p := by
  rintro (⟨r, member, _⟩ | ⟨r, g, found, _⟩)
  · rw [← ExtTreeMap.mem_keys, ← ExtTreeMap.map_fst_toList_eq_keys, active] at member
    cases member
  · rw [← ExtTreeMap.mem_toList_iff_getElem?_eq_some, pending] at found
    cases found

/-- A watch on `/a` that was withdrawn at once, before its first crawl asked for anything. -/
def withdrawnAtOnce : List Move :=
  [.watch ⟨[.root, .name [97]]⟩, .unwatch ⟨[.root, .name [97]]⟩]

def windingDown : List Move :=
  [.resume 0 directoriesEverywhere [], .resume 0 directoriesEverywhere [],
    .resume 1 directoriesEverywhere []]

/-- A second watch on `/a` returns when the first one has wound down; when that happened, nothing
covered `/a`. -/
theorem successful_watch_in_force_winding_down :
    let s := (fresh [] .recursive).run (.ofSettings {}) withdrawnAtOnce
    let joined := s.step (.ofSettings {}) (.watch ⟨[.root, .name [97]]⟩)
    ((joined.run (.ofSettings {}) windingDown).InForce ⟨[.root, .name [97]]⟩ ∨
      (∃ (r : Path) (g : Generation), s.host.roots.pending[r]? = some g ∧
        r.Covers ⟨[.root, .name [97]]⟩ ∧ s.host.store.isStale g = true) ∨
      FailsAlong (.ofSettings {}) joined windingDown ⟨[.root, .name [97]]⟩) ∧
    ¬ ((joined.run (.ofSettings {}) [.resume 0 directoriesEverywhere []]).step (.ofSettings {})
      (.resume 0 directoriesEverywhere [])).InForce ⟨[.root, .name [97]]⟩ := by
  intro s joined
  have held := successful_watch_in_force (.ofSettings {}) s ⟨[], .recursive, withdrawnAtOnce, rfl⟩
    ⟨[.root, .name [97]]⟩ windingDown (by simp [windingDown]) (by with_unfolding_all rfl)
  refine ⟨held.1, ?_⟩
  exact held.2 [.resume 0 directoriesEverywhere []] (.resume 0 directoriesEverywhere [])
    [.resume 1 directoriesEverywhere []] 0 ⟨[.root, .name [97]]⟩ 0 rfl (by decide +kernel) (.refl _)
    (by decide +kernel) (by decide +kernel)

/-- A watch made after the withdrawal of the same root returns successfully and is lost: nothing is
watched or being crawled. -/
theorem watch_lost_to_cancelled_crawl :
    let s := (fresh [] .recursive).run (.ofSettings {}) withdrawnAtOnce
    let t := (s.step (.ofSettings {}) (.watch ⟨[.root, .name [97]]⟩)).run (.ofSettings {}) windingDown
    t.calls[s.calls.length]? = some (.finished (.watched (.ok ()))) ∧
      t.host.roots.active.toList = [] ∧ t.host.roots.pending.toList = [] ∧
      ¬ t.InForce ⟨[.root, .name [97]]⟩ := by
  intro s t
  have active : t.host.roots.active.toList = [] := by decide +kernel
  have pending : t.host.roots.pending.toList = [] := by decide +kernel
  have uncovered := not_inForce_of_empty active pending ⟨[.root, .name [97]]⟩
  have returned : t.calls[s.calls.length]? = some (.finished (.watched (.ok ()))) := by
    with_unfolding_all rfl
  exact ⟨returned, active, pending, uncovered⟩

end ProjectIndex.Watch.System
