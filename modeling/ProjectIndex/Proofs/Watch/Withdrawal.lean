import ProjectIndex.Proofs.Crawl.Outcomes
import ProjectIndex.Proofs.Watch.Nesting

/-!
# What a withdrawal silences

Every crawl and every refresh writes on behalf of a generation, and nothing is written once the
generation is cancelled.  A withdrawal cancels the generation of its root and those of the pending
roots at or below it.  So a first crawl at or below a withdrawn root is silent for good: its root
stays pending, with its generation, until it ends.

A refresh keeps the generation of the root that covered its path when it started, but roots lose
generations without cancelling them: an active root that is taken over by a watch above it leaves
with its own, and so does a pending root whose crawl fails.  And a withdrawal that finds a pending
root below leaves the active roots below as they are.  A refresh is `Adrift` when nothing that is
withdrawn carries its generation; it goes on writing, and it is the only one that does.
-/

namespace ProjectIndex.Watch

open Std

namespace Roots

def RunsIn (w : Roots) (r : Path) (g : Generation) : Prop :=
  w.pending[r]? = some g ∨ w.active[r]? = some g

theorem RunsIn.holds {w : Roots} {r : Path} {g : Generation} (carries : w.RunsIn r g) :
    w.Holds r := by
  rcases carries with pending | active
  · exact Or.inl (ExtTreeMap.mem_iff_isSome_getElem?.2 (by simp [pending]))
  · exact Or.inr (ExtTreeMap.mem_iff_isSome_getElem?.2 (by simp [active]))

/-- A refresh runs in the generation of a root that covers its path. -/
theorem generationFor_eq_some {w : Roots} {p : Path} {g : Generation}
    (found : w.generationFor p = some g) : ∃ r, w.RunsIn r g ∧ r.Covers p := by
  unfold generationFor at found
  obtain ⟨⟨r, g'⟩, covering, rfl⟩ := Option.map_eq_some_iff.1 found
  cases active : w.activeCovering p with
  | some entry =>
    simp only [active, Option.orElse_eq_orElse, Option.orElse_some] at covering
    obtain rfl := Option.some.inj covering
    obtain ⟨carried, covers⟩ := activeCovering_eq_some active
    exact ⟨r, Or.inr carried, covers⟩
  | none =>
    simp only [active, Option.orElse_eq_orElse, Option.orElse_none] at covering
    obtain ⟨carried, covers⟩ := pendingCovering_eq_some covering
    exact ⟨r, Or.inl carried, covers⟩

/-- Taking a root out gives no other one a generation. -/
theorem carried_of_erase {table : Table Generation} {root r : Path} {g : Generation}
    (found : (table.erase root)[r]? = some g) : table[r]? = some g := by
  rw [ExtTreeMap.getElem?_erase] at found
  split at found
  · cases found
  · exact found

/-- A new root carries the generation it was given; the others keep theirs or leave. -/
theorem RunsIn.of_reserve {w : Roots} {root r : Path} {g g' : Generation}
    (carries : (w.reserve root g').RunsIn r g) : (r = root ∧ g = g') ∨ w.RunsIn r g := by
  rw [Roots.RunsIn, reserve_pending, reserve_active] at carries
  rcases carries with pending | active
  · split at pending
    next same => exact Or.inl ⟨same.symm, (Option.some.inj pending).symm⟩
    · exact Or.inr (Or.inl pending)
  · split at active
    · cases active
    · exact Or.inr (Or.inr active)

/-- What is active after a first crawl was active before, or is the root that was pending. -/
theorem RunsIn.of_settle {w : Roots} {root r : Path} {g g' : Generation} {wanted ok : Bool}
    (apart : w.Apart) (own : w.pending[root]? = some g)
    (carries : ((w.settle root g wanted).1.announce g ok).RunsIn r g') : w.RunsIn r g' := by
  have member : root ∈ w.pending := ExtTreeMap.mem_iff_isSome_getElem?.2 (by simp [own])
  rw [apart.settlement member] at carries
  split at carries
  · rcases carries with found | found
    · exact Or.inl (carried_of_erase found)
    · dsimp only [announce] at found
      rw [ExtTreeMap.getElem?_insert] at found
      split at found
      next same =>
        cases Option.some.inj found
        rw [← LawfulEqOrd.eq_of_compare same]
        exact Or.inl own
      · exact Or.inr found
  · exact carries.imp_left carried_of_erase

/-- The generations that end with a root: its own, and those of pending roots at or below it. -/
theorem mem_withdraw {w : Roots} {root : Path} {g : Generation} :
    g ∈ (w.withdraw root).2 ↔
      (∃ r, w.pending[r]? = some g ∧ root.Covers r) ∨ w.active[root]? = some g := by
  simp [withdraw, List.mem_map, ExtTreeMap.mem_toList_iff_getElem?_eq_some]

/-- A withdrawal finds something exactly when the root is active or something at or below it is
pending. -/
theorem withdraw_found {w : Roots} {root : Path} (found : (w.withdraw root).2 ≠ []) :
    ∃ r, w.Holds r ∧ root.Covers r := by
  obtain ⟨g, member⟩ := List.exists_mem_of_ne_nil _ found
  rcases mem_withdraw.1 member with ⟨r, pending, covers⟩ | active
  · exact ⟨r, RunsIn.holds (Or.inl pending), covers⟩
  · exact ⟨root, RunsIn.holds (Or.inr active), .refl root⟩

end Roots

namespace System

/-- Generations belong to one root each, and a refresh keeps to the root it started under. -/
structure Owned (s : System) : Prop where
  given : ∀ r g, s.host.roots.RunsIn r g → g < s.host.store.nextGeneration
  one : ∀ r r' g, s.host.roots.RunsIn r g → s.host.roots.RunsIn r' g → r = r'
  refreshed : ∀ i path g, s.dutyAt i = some (.refresh path g) →
    g < s.host.store.nextGeneration ∧ ∀ r, s.host.roots.RunsIn r g → r.Covers path

theorem owned_fresh (name : Name) (style : Backend.Style) : Owned (fresh name style) where
  given r g carries := by simp [fresh, Roots.RunsIn] at carries
  one r r' g carries := by simp [fresh, Roots.RunsIn] at carries
  refreshed i path g working := by simp [dutyAt, fresh] at working

/-- A move that hands out no generation and starts no refresh keeps the generations in order. -/
theorem Owned.of_fewer {s t : System} (owned : s.Owned)
    (roots : ∀ r g, t.host.roots.RunsIn r g → s.host.roots.RunsIn r g)
    (duties : ∀ j path g, t.dutyAt j = some (.refresh path g) →
      s.dutyAt j = some (.refresh path g))
    (next : t.host.store.nextGeneration = s.host.store.nextGeneration) : t.Owned where
  given r g carries := next ▸ owned.given r g (roots r g carries)
  one r r' g first second := owned.one r r' g (roots r g first) (roots r' g second)
  refreshed i path g working := by
    obtain ⟨given, covers⟩ := owned.refreshed i path g (duties i path g working)
    exact ⟨next ▸ given, fun r carries => covers r (roots r g carries)⟩

/-- A root that is given a generation nobody has seen keeps the generations in order. -/
theorem Owned.of_reserve {s t : System} (owned : s.Owned) {root : Path}
    (roots : t.host.roots = s.host.roots.reserve root s.host.store.nextGeneration)
    (duties : ∀ j path g, t.dutyAt j = some (.refresh path g) →
      s.dutyAt j = some (.refresh path g))
    (next : t.host.store.nextGeneration = s.host.store.nextGeneration + 1) : t.Owned where
  given r g carries := by
    rw [next]
    rw [roots] at carries
    rcases carries.of_reserve with ⟨_, rfl⟩ | before
    · exact Nat.lt_succ_self _
    · exact Nat.lt_succ_of_lt (owned.given r g before)
  one r r' g first second := by
    rw [roots] at first second
    rcases first.of_reserve with ⟨rfl, rfl⟩ | before
    · rcases second.of_reserve with ⟨rfl, _⟩ | other
      · rfl
      · exact absurd (owned.given r' _ other) (Nat.lt_irrefl _)
    · rcases second.of_reserve with ⟨_, rfl⟩ | other
      · exact absurd (owned.given r _ before) (Nat.lt_irrefl _)
      · exact owned.one r r' g before other
  refreshed j path g after := by
    obtain ⟨given, covers⟩ := owned.refreshed j path g (duties j path g after)
    refine ⟨next ▸ Nat.lt_succ_of_lt given, fun r carries => ?_⟩
    rw [roots] at carries
    rcases carries.of_reserve with ⟨_, rfl⟩ | before
    · exact absurd given (Nat.lt_irrefl _)
    · exact covers r before

theorem Owned.step {s : System} (matched : s.Matched) (owned : s.Owned) (policy : Policy)
    (move : Move) : (s.step policy move).Owned := by
  cases s.step_shift policy move with
  | same roots duties next =>
    exact owned.of_fewer (fun r g => roots ▸ id) (fun j path g => duties j ▸ id) next
  | refreshEnded i path g working roots duties next =>
    refine owned.of_fewer (fun r g => roots ▸ id) (fun j path g after => ?_) next
    rw [duties j] at after
    split at after
    · cases after
    · exact after
  | withdrawn root roots duties next =>
    refine owned.of_fewer (fun r g carries => ?_) (fun j path g => duties j ▸ id) next
    rw [roots] at carries
    exact carries.imp_right Roots.carried_of_erase
  | crawlEnded i root g ok working roots duties next =>
    refine owned.of_fewer (fun r g' carries => ?_) (fun j path g' after => ?_) next
    · rw [roots] at carries
      exact carries.of_settle matched.apart (matched.pending i root g working)
    · rw [duties j] at after
      split at after
      · cases after
      · exact after
  | refreshStarted i path g covered free roots duties next =>
    obtain ⟨r, carries, covers⟩ := Roots.generationFor_eq_some covered
    refine ⟨fun r g => roots ▸ next ▸ owned.given r g, fun r r' g => roots ▸ owned.one r r' g, ?_⟩
    intro j path' g' after
    rw [duties j] at after
    rw [roots, next]
    split at after
    · cases Option.some.inj after
      refine ⟨owned.given r g carries, fun r' carries' => ?_⟩
      exact owned.one r r' g carries carries' ▸ covers
    · exact owned.refreshed j path' g' after
  | crawlStarted i root subsumed planned free roots duties next =>
    refine owned.of_reserve roots (fun j path g after => ?_) next
    rw [duties j] at after
    split at after
    · cases after
    · exact after

theorem Reachable.owned {policy : Policy} {s : System} (reachable : Reachable policy s) :
    s.Owned := by
  have both : s.Matched ∧ s.Owned :=
    reachable.invariant (P := fun s => s.Matched ∧ s.Owned)
      (fun name style => ⟨orderly_fresh name style, owned_fresh name style⟩)
      (fun s move holds => ⟨holds.1.step policy move, holds.2.step holds.1 policy move⟩)
  exact both.2

/-- From this state on, and whatever happens meanwhile, the request with this number neither changes
the index nor sends a notice. -/
def SilentFrom (policy : Policy) (s : System) (i : Nat) : Prop :=
  ∀ moves world schedule,
    let t := s.run policy moves
    (t.step policy (.resume i world schedule)).host.store.index = t.host.store.index ∧
      (t.step policy (.resume i world schedule)).host.store.notices = t.host.store.notices

/-- The request with this number has ended, or it works in a cancelled generation. -/
structure Muted (s : System) (i : Nat) : Prop where
  made : i < s.calls.length
  stale : ∀ call, s.calls[i]? = some (.waiting call) →
    ∃ d, call.duty? = some d ∧ s.host.store.isStale d.generation = true

/-- A cancelled generation stays cancelled. -/
theorem step_isStale {s : System} {g : Generation} (stale : s.host.store.isStale g = true)
    (policy : Policy) (move : Move) : (s.step policy move).host.store.isStale g = true := by
  have grows : ∀ g ∈ s.host.store.cancelled, g ∈ (s.step policy move).host.store.cancelled := by
    intro g member
    cases s.step_shift policy move with
    | same _ _ _ cancelled | refreshStarted _ _ _ _ _ _ _ _ cancelled
    | refreshEnded _ _ _ _ _ _ _ cancelled | crawlStarted _ _ _ _ _ _ _ _ cancelled
    | crawlEnded _ _ _ _ _ _ _ _ cancelled => rwa [cancelled]
    | withdrawn _ _ _ _ cancelled =>
      rw [cancelled]
      exact List.mem_append_right _ member
  simp only [Store.isStale, List.contains_iff_mem] at stale ⊢
  exact grows g stale

/-- A muted request that goes on does so without a sound, and with the same work or none. -/
theorem Muted.resume {s : System} {i : Nat} (muted : s.Muted i) (policy : Policy) (world : World)
    (schedule : List Nat) :
    s.host.store.Quiet (s.step policy (.resume i world schedule)).host.store ∧
      (s.step policy (.resume i world schedule)).Muted i := by
  cases found : s.calls[i]? with
  | none =>
    have same : s.step policy (.resume i world schedule) = s := by simp [step, found]
    rw [same]
    exact ⟨.refl _, muted⟩
  | some progress =>
    cases progress with
    | finished reply =>
      have same : s.step policy (.resume i world schedule) = s := by simp [step, found]
      rw [same]
      exact ⟨.refl _, muted⟩
    | waiting call =>
      obtain ⟨d, working, stale⟩ := muted.stale call found
      obtain ⟨edits, outcome⟩ := Call.step_working working policy world schedule s.host
      have quiet := edits.quiet_of_stale ((d.context_generation policy).symm ▸ stale)
      have stepped : s.step policy (.resume i world schedule) =
          ⟨(call.step policy world schedule s.host).1,
            s.calls.set i (call.step policy world schedule s.host).2⟩ := by simp [step, found]
      refine stepped ▸ ⟨quiet, by simpa using muted.made, fun next waiting => ?_⟩
      have now : (call.step policy world schedule s.host).2 = .waiting next := by
        simpa [muted.made] using waiting
      rcases outcome with ⟨goesOn, _⟩ | ⟨⟨reply, ended⟩, _⟩
      · exact ⟨d, by simpa [now, Progress.duty?] using goesOn, (quiet.isStale _).trans stale⟩
      · rw [now] at ended
        cases ended

/-- Nothing that others do makes a muted request speak again. -/
theorem Muted.step {s : System} {i : Nat} (muted : s.Muted i) (policy : Policy) (move : Move) :
    (s.step policy move).Muted i := by
  have kept : ∀ t : System, (∀ g, s.host.store.isStale g = true → t.host.store.isStale g = true) →
      s.calls.length ≤ t.calls.length → t.calls[i]? = s.calls[i]? → t.Muted i := by
    intro t grows longer same
    refine ⟨Nat.lt_of_lt_of_le muted.made longer, fun call waiting => ?_⟩
    obtain ⟨d, working, stale⟩ := muted.stale call (same ▸ waiting)
    exact ⟨d, working, grows _ stale⟩
  have grows := fun g (stale : s.host.store.isStale g = true) => step_isStale stale policy move
  cases move with
  | watch root | refresh path =>
    exact kept _ grows (by simp [System.step]) (List.getElem?_append_left muted.made)
  | unwatch root => exact kept _ grows (Nat.le_refl _) rfl
  | resume j world schedule =>
    by_cases own : j = i
    · exact own ▸ (muted.resume policy world schedule).2
    · refine kept _ grows ?_ ?_
      · dsimp only [System.step]
        split <;> simp
      · dsimp only [System.step]
        split
        · exact List.getElem?_set_ne own
        · rfl

theorem Muted.silentFrom {policy : Policy} {s : System} {i : Nat} (muted : s.Muted i) :
    s.SilentFrom policy i := by
  intro moves world schedule
  have later : ∀ (moves : List Move) (s : System), s.Muted i → (s.run policy moves).Muted i := by
    intro moves
    induction moves with
    | nil => exact fun s muted => muted
    | cons move rest ih => exact fun s muted => ih _ (muted.step policy move)
  have quiet := ((later moves s muted).resume policy world schedule).1
  exact ⟨quiet.index, quiet.notices⟩

/-- The generation is live, and every root that carries it is active and not the withdrawn one. -/
def Adrift (s : System) (root : Path) (d : Duty) : Prop :=
  s.host.store.isStale d.generation = false ∧
    ∀ r, s.host.roots.RunsIn r d.generation → r ∈ s.host.roots.active ∧ r ≠ root

theorem unwatch_eq {s : System} {root : Path} (found : (s.host.unwatch root).2 = true) :
    (s.host.roots.withdraw root).2 ≠ [] ∧
      (s.host.unwatch root).1.store =
        Host.forget root (s.host.roots.withdraw root).2 s.host.store := by
  unfold Host.unwatch at found ⊢
  split at found
  · cases found
  next roots ended some withdrawn =>
    rw [withdrawn]
    exact ⟨fun none => some (by simpa using none), rfl⟩

/-- A withdrawal that finds something cancels the generations that end with its root. -/
theorem unwatch_isStale {s : System} {root : Path} (found : (s.host.unwatch root).2 = true)
    (policy : Policy) (g : Generation) :
    (s.step policy (.unwatch root)).host.store.isStale g = true ↔
      s.host.store.isStale g = true ∨ g ∈ (s.host.roots.withdraw root).2 := by
  dsimp only [step]
  rw [(unwatch_eq found).2, Store.isStale, (Host.forget_quiet root _ _).cancelled]
  simp [Store.isStale, or_comm]

/-- A request at or below a withdrawn root is reached unless it is adrift. -/
theorem unwatch_reaches {policy : Policy} {s : System} (reachable : Reachable policy s) {root : Path}
    (found : (s.host.unwatch root).2 = true) {i : Nat} {d : Duty}
    (working : s.dutyAt i = some d) (below : root.Covers d.path) :
    (s.step policy (.unwatch root)).host.store.isStale d.generation = true ↔ ¬ s.Adrift root d := by
  have apart := reachable.matched.apart
  rw [unwatch_isStale found, Roots.mem_withdraw]
  constructor
  · rintro (stale | ⟨r, pending, covers⟩ | active) ⟨live, carried⟩
    · rw [live] at stale
      cases stale
    · have member : r ∈ s.host.roots.pending :=
        ExtTreeMap.mem_iff_isSome_getElem?.2 (by simp [pending])
      exact apart.disjoint r member (carried r (Or.inl pending)).1
    · exact (carried root (Or.inr active)).2 rfl
  · intro notAdrift
    by_contra unreached
    simp only [not_or, not_exists, not_and, Bool.not_eq_true] at unreached
    obtain ⟨live, noPending, notActive⟩ := unreached
    have above : ∀ r, s.host.roots.RunsIn r d.generation → r.Covers d.path := by
      cases d with
      | crawl start g =>
        exact absurd below (noPending start (reachable.matched.pending i start g working))
      | refresh path g => exact (reachable.owned.refreshed i path g working).2
    refine notAdrift ⟨live, fun r carries => ?_⟩
    rcases carries with pending | active
    · have held := Roots.RunsIn.holds (Or.inl pending)
      have under : root.Covers r := by
        rcases (above r (Or.inl pending)).comparable below with up | down
        · obtain ⟨r', held', covers⟩ := Roots.withdraw_found (unwatch_eq found).1
          exact apart.antichain r r' held held' (up.trans covers) ▸ covers
        · exact down
      exact absurd under (noPending r pending)
    · refine ⟨ExtTreeMap.mem_iff_isSome_getElem?.2 (by simp [active]), ?_⟩
      rintro rfl
      exact notActive active

/-- A first crawl is never adrift: its root stays pending until it ends. -/
theorem not_adrift_crawl {policy : Policy} {s : System} (reachable : Reachable policy s) {i : Nat}
    {start root : Path} {g : Generation} (working : s.dutyAt i = some (.crawl start g)) :
    ¬ s.Adrift root (.crawl start g) := by
  rintro ⟨_, carried⟩
  have matched := reachable.matched
  have active := (carried start (Or.inl (matched.pending i start g working))).1
  exact matched.apart.disjoint start (matched.mem_pending working) active

/-- The world in which every path is an empty file. -/
def filesEverywhere : World where
  entry _ := .ok ⟨.file, 0, 0⟩
  stat _ := .ok ⟨.file, 0, 0⟩
  children _ := .ok []
  contents _ := .ok []

/-- A refresh in a live generation that waits for the status of its path registers the file that it
is told about. -/
theorem refresh_registers {policy : Policy} {s : System} {i : Nat} {path : Path} {g : Generation}
    {remarks : List Diagnostic}
    (waiting : s.calls[i]? = some (.waiting (.refreshing path g (.entry path) remarks)))
    (live : s.host.store.isStale g = false) (taken : policy.ignores path .file = false)
    (unknown : s.host.store.index.knows path = false) :
    (s.step policy (.resume i filesEverywhere [])).host.store.index.isFile path = true := by
  have nothing : s.host.store.index.status? path = none := by
    simpa [Index.knows] using unknown
  have changed : s.host.store.index.hasChanged path ⟨.file, 0, 0⟩ = true := by
    simp [Index.hasChanged, nothing]
  have written : ((refreshCrawl policy g).addFile path ⟨.file, 0, 0⟩
      ⟨s.host.store, remarks⟩).1.store.index.isFile path = true := by
    rcases @Crawl.addFile_outcome (refreshCrawl policy g) ⟨s.host.store, remarks⟩ live path
      ⟨.file, 0, 0⟩ with ⟨unchanged | ignored, _⟩ | ⟨_, index, _⟩
    · exact absurd (changed.symm.trans unchanged) (by simp)
    · exact absurd (taken.symm.trans ignored) (by simp)
    · rw [index]
      simp only [Index.insertFile, Index.isFile, Index.listChild]
      cases path.parent <;> simp
  have stepped : (s.step policy (.resume i filesEverywhere [])).host.store.index =
      ((refreshCrawl policy g).addFile path ⟨.file, 0, 0⟩
        ⟨s.host.store, remarks⟩).1.store.index := by
    have examined : Crawl.Task.step (refreshCrawl policy g) filesEverywhere [] (.entry path)
        ⟨s.host.store, remarks⟩ =
          (refreshCrawl policy g).addFile path ⟨.file, 0, 0⟩ ⟨s.host.store, remarks⟩ := by
      rw [Crawl.Task.step]
      simp only [filesEverywhere, Crawl.Context.examined, nothing]
    simp only [step, waiting, Call.step, examined]
    generalize (refreshCrawl policy g).addFile path ⟨.file, 0, 0⟩ ⟨s.host.store, remarks⟩ = r
    obtain ⟨s', progress⟩ := r
    cases progress with
    | waiting task => rfl
    | finished result => exact (Host.finishRefresh_keeps path result s'.remarks _).1.index
  rw [stepped]
  exact written

/-- Once a withdrawal has found something, every request at or below its root that was made before
is silent for good, unless it is adrift.  First crawls are never adrift.  A refresh that is adrift
and has only begun still registers a file that the index does not know, if there is one. -/
theorem withdrawn_requests_fall_silent (policy : Policy) (s : System)
    (reachable : Reachable policy s) (root : Path) (found : (s.host.unwatch root).2 = true)
    (i : Nat) (d : Duty) (working : s.dutyAt i = some d) (below : root.Covers d.path) :
    (¬ s.Adrift root d → (s.step policy (.unwatch root)).SilentFrom policy i) ∧
      (∀ start g, d = .crawl start g → ¬ s.Adrift root d) ∧
      (∀ path g remarks, s.Adrift root d →
        s.calls[i]? = some (.waiting (.refreshing path g (.entry path) remarks)) →
        policy.ignores path .file = false →
        (s.step policy (.unwatch root)).host.store.index.knows path = false →
        ∃ world, ((s.step policy (.unwatch root)).step policy
          (.resume i world [])).host.store.index.isFile path = true) := by
  have reached := unwatch_reaches reachable found working below
  refine ⟨fun notAdrift => Muted.silentFrom ⟨?_, ?_⟩, ?_, ?_⟩
  · by_contra beyond
    have absent : s.calls[i]? = none := List.getElem?_eq_none (Nat.le_of_not_lt beyond)
    simp [dutyAt, absent] at working
  · intro call waiting
    refine ⟨d, ?_, reached.2 notAdrift⟩
    have same : s.calls[i]? = some (.waiting call) := waiting
    simpa [dutyAt, same, Progress.duty?] using working
  · rintro start g rfl
    exact not_adrift_crawl reachable working
  · intro path g remarks adrift waiting taken unknown
    obtain rfl : d = .refresh path g := by
      simpa [dutyAt, waiting, Progress.duty?, Call.duty?] using working.symm
    refine ⟨filesEverywhere, refresh_registers waiting ?_ taken unknown⟩
    by_contra stale
    exact reached.1 (eq_true_of_ne_false stale) adrift

/-- The world in which every path is an empty directory. -/
def directoriesEverywhere : World where
  entry _ := .ok ⟨.directory, 0, 0⟩
  stat _ := .ok ⟨.directory, 0, 0⟩
  children _ := .ok []
  contents _ := .error .isADirectory

/-- A watch on `/a/b` that has ended, a refresh of `/a/b/x.js` that waits for the status of its
path, and a watch on `/a` that has taken over `/a/b` and waits as well. -/
def takenOver : List Move :=
  [.watch ⟨[.root, .name [97], .name [98]]⟩] ++
    List.replicate 4 (.resume 0 directoriesEverywhere []) ++
    [.refresh ⟨[.root, .name [97], .name [98], .name [120, 46, 106, 115]]⟩,
      .watch ⟨[.root, .name [97]]⟩]

/-- With the watch on `/a` withdrawn its first crawl is silent, and the refresh that was taken over
is not: it registers `/a/b/x.js`. -/
theorem withdrawn_requests_fall_silent_taken_over :
    let s := (fresh [] .recursive).run (.ofSettings {}) takenOver
    let t := s.step (.ofSettings {}) (.unwatch ⟨[.root, .name [97]]⟩)
    t.SilentFrom (.ofSettings {}) 2 ∧
      ∃ world, (t.step (.ofSettings {}) (.resume 1 world [])).host.store.index.isFile
        ⟨[.root, .name [97], .name [98], .name [120, 46, 106, 115]]⟩ = true := by
  intro s t
  have reachable : Reachable (.ofSettings {}) s := ⟨[], .recursive, takenOver, rfl⟩
  have found : (s.host.unwatch ⟨[.root, .name [97]]⟩).2 = true := by decide +kernel
  constructor
  · have crawling : s.dutyAt 2 = some (.crawl ⟨[.root, .name [97]]⟩ 1) := by decide +kernel
    have silenced := withdrawn_requests_fall_silent _ s reachable _ found 2 _ crawling (by decide)
    exact silenced.1 (silenced.2.1 _ _ rfl)
  · have waiting : s.calls[1]? = some (.waiting (.refreshing
        ⟨[.root, .name [97], .name [98], .name [120, 46, 106, 115]]⟩ 0
        (.entry ⟨[.root, .name [97], .name [98], .name [120, 46, 106, 115]]⟩) [])) := by
      with_unfolding_all rfl
    have adrift : s.Adrift ⟨[.root, .name [97]]⟩
        (.refresh ⟨[.root, .name [97], .name [98], .name [120, 46, 106, 115]]⟩ 0) := by
      have pending : s.host.roots.pending.toList = [(⟨[.root, .name [97]]⟩, 1)] := by
        decide +kernel
      have active : s.host.roots.active.toList = [] := by decide +kernel
      refine ⟨by decide +kernel, fun r carries => ?_⟩
      simp only [Roots.RunsIn, ← ExtTreeMap.mem_toList_iff_getElem?_eq_some, pending, active]
        at carries
      simp [Duty.generation] at carries
    exact (withdrawn_requests_fall_silent _ s reachable _ found 1 _ (by decide +kernel)
      (by decide)).2.2 _ 0 [] adrift waiting (by decide +kernel) (by decide +kernel)

/-- A request that a withdrawal should have ended can register a file below the withdrawn root. -/
theorem withdrawal_misses_taken_over_refresh :
    let s := (fresh [] .recursive).run (.ofSettings {}) takenOver
    let t := s.step (.ofSettings {}) (.unwatch ⟨[.root, .name [97]]⟩)
    (s.host.unwatch ⟨[.root, .name [97]]⟩).2 = true ∧
      s.dutyAt 1 =
        some (.refresh ⟨[.root, .name [97], .name [98], .name [120, 46, 106, 115]]⟩ 0) ∧
      t.host.store.index.isFile
        ⟨[.root, .name [97], .name [98], .name [120, 46, 106, 115]]⟩ = false ∧
      (t.step (.ofSettings {}) (.resume 1 filesEverywhere [])).host.store.index.isFile
        ⟨[.root, .name [97], .name [98], .name [120, 46, 106, 115]]⟩ = true := by
  refine ⟨by decide +kernel, by decide +kernel, by decide +kernel, by decide +kernel⟩

end System

end ProjectIndex.Watch
