import ProjectIndex.Proofs.Crawl.Dealings
import ProjectIndex.Proofs.Watch.Announcements
import ProjectIndex.Proofs.Watch.InForce
import ProjectIndex.Proofs.Watch.Kinds

/-!
# Roots that are open at the backend

A watch asks for the subscription of its root before it crawls, and the subscription ends when the
root is released or when it, or a path above it, is closed.  One would want the open roots to be the
active ones whenever no watch is under way.  Two things stand in the way of it.

A withdrawal closes its root at once.  If the watch on the root has not come to ask for its
subscription by then, it asks for it afterwards, finds that it is not wanted any more, and leaves: the
root stays open and nobody watches it.  And a withdrawal of a path closes everything below the path,
also when all it found to withdraw was a pending root further down: an active root beside that one
loses its subscription and stays active.

There is nothing else.  With any number of requests, interleaved in any way, the open roots are the
active roots that were not closed over in this way, and those that were opened too late.
-/

namespace ProjectIndex.Watch

open Std
open Crawl (Edits)
open Store (EndRoot)

/-- The first crawl that a request has begun, with its generation. -/
def Progress.crawl? : Progress → Option (Path × Generation)
  | .waiting (.crawling root g _ _) => some (root, g)
  | _ => none

def Call.opens? (world : World) : Call → Option (Path × Generation)
  | .opening root g _ => if (world.openRoot root).isOk then some (root, g) else none
  | _ => none

/-- What a request that goes on means for the open roots.  It opened `opens`, and `old` was the crawl
that it had begun before. -/
inductive Goes (h : Host) (opens old : Option (Path × Generation)) (next : Host × Progress) : Prop where
  | kept (nothing : opens = none) (told : h.store.Told next.1.store fun _ => False)
      (roots : next.1.roots = h.roots) (same : next.2.crawl? = old)
  | started (root : Path) (planned : h.roots.plan root = .start (h.roots.activeBelow root))
      (nothing : opens = none) (told : h.store.Told next.1.store (· ∈ h.roots.activeBelow root))
      (roots : next.1.roots = h.roots.reserve root h.store.nextGeneration)
      (same : next.2.crawl? = old)
  | opened (root : Path) (g : Generation) (taken : opens = some (root, g))
      (told : h.store.Told next.1.store fun _ => False) (roots : next.1.roots = h.roots)
      (before : old = none) (begun : next.2.crawl? = some (root, g))
  | ended (root : Path) (g : Generation) (ok : Bool) (pending : root ∈ h.roots.pending)
      (own : ∀ crawl, opens = some crawl ∨ old = some crawl → crawl = (root, g))
      (begun : ok = true → opens = some (root, g) ∨ old = some (root, g))
      (told : h.store.Told next.1.store fun r => ok = false ∧ root.Covers r)
      (roots : next.1.roots =
        (h.roots.settle root g (ok && h.store.isLive g)).1.announce g ok)
      (after : next.2.crawl? = none)

namespace Host

variable {h : Host} {root : Path} {g : Generation}

/-- A watch releases the active roots that it takes over. -/
theorem watch_goes (h : Host) (root : Path) : Goes h none none (h.watch root) := by
  have released : ∀ (subsumed : List Path) (k : Host), k.store.Told (subsumed.foldl
      (fun h r => (h.log (line .debug "subsumed" (r.display ++ " by " ++ root.display))).update
        (·.releaseRoot r)) k).store (· ∈ subsumed) := by
    intro subsumed
    induction subsumed with
    | nil => exact fun k => .congr (.of_calls rfl) (by simp)
    | cons r rest ih =>
      intro k
      refine ((Store.Told.after (Store.told_releaseRoot _ r) ?_).trans (ih _)).congr fun q => ?_
      · exact (Store.aside_log k.store _).calls
      · simp [eq_comm]
  cases planned : h.roots.plan root with
  | join above g =>
    simp only [watch, planned]
    exact .kept rfl (.of_calls (Store.aside_log _ _).calls) rfl rfl
  | covered above =>
    simp only [watch, planned]
    exact .kept rfl (.of_calls (Store.aside_log _ _).calls) rfl rfl
  | drain below =>
    simp only [watch, planned]
    exact .kept rfl (.of_calls (Store.aside_log _ _).calls) rfl rfl
  | start subsumed =>
    obtain rfl := (Roots.plan_eq_start planned).2.2
    rcases h.watch_cases root with ⟨_, _, idle⟩ | ⟨_, _, _, roots, starts⟩
    · simp [watch, planned, Progress.duty?, Call.duty?] at idle
    · refine .started root planned rfl ?_ roots (by rw [starts]; rfl)
      simp only [watch, planned]
      exact (released _ _).after rfl

/-- A refresh has nothing to do with roots. -/
theorem refresh_goes (policy : Policy) (path : Path) (h : Host) :
    Goes h none none (h.refresh policy path) := by
  unfold refresh
  split
  · exact .kept rfl (.of_calls (Store.aside_log _ _).calls) rfl rfl
  next g _ =>
    unfold Crawl.Context.refresh
    split
    · unfold Crawl.Context.addEntry
      split
      · exact .kept rfl (.of_calls (finishRefresh_aside path (.ok false) [] h).calls)
          (finishRefresh_keeps path (.ok false) [] h).2 rfl
      · exact .kept rfl (.of_calls rfl) rfl rfl
    · have logged := Store.aside_log h.store (Crawl.line "outside index" path)
      let left : Host := { h with store := h.store.log (Crawl.line "outside index" path) }
      exact .kept rfl (.of_calls (logged.trans (finishRefresh_aside path (.ok false) [] left)).calls)
        (finishRefresh_keeps path (.ok false) [] left).2 rfl

/-- The settlement of a pending root releases nothing. -/
theorem settle_told (apart : h.roots.Apart) (pending : root ∈ h.roots.pending) (g : Generation)
    (ok : Bool) : (h.settle root g ok).store.calls = h.store.calls := by
  unfold settle
  rw [apart.settlement pending]
  cases ok && h.store.isLive g with
  | true => rfl
  | false => rfl

/-- A watch that ends closes its root if it failed. -/
theorem finishWatch_told (apart : h.roots.Apart) (pending : root ∈ h.roots.pending)
    (g : Generation) (result : Except IndexError Bool) (remarks : List Diagnostic) :
    h.store.Told (finishWatch root g result remarks h).1.store
      fun r => result.isOk = false ∧ root.Covers r := by
  have settled := settle_told apart pending g
  unfold finishWatch
  cases result with
  | error e =>
    have closed := (Store.told_closeRoot (h.settle root g false).store root).after (settled false)
    exact (closed.before (Store.aside_log _ _).calls).congr fun r => by simp [Except.isOk, Except.toBool]
  | ok changed =>
    have none : ∀ {t : Store}, t.calls = h.store.calls →
        h.store.Told t fun r => Except.isOk (.ok changed : Except IndexError Bool) = false ∧
          root.Covers r :=
      fun calls => (Store.Told.of_calls calls).congr fun r => by simp [Except.isOk, Except.toBool]
    dsimp only
    split
    · exact none ((Store.aside_log _ _).calls.trans (settled true))
    · refine none ((warn_aside _ remarks).calls.trans ?_)
      exact (Store.aside_log _ _).calls.trans (settled true)

/-- The crawl of a root that was opened goes on or ends. -/
theorem resumeWatch_goes {policy : Policy} (apart : h.roots.Apart) (pending : root ∈ h.roots.pending)
    {opens old : Option (Path × Generation)} {r : Scope × Crawl.Progress}
    (edits : Edits (firstCrawl policy g) h.store r.1.store)
    (told : h.store.Told r.1.store fun _ => False)
    (begun : (opens = none ∧ old = some (root, g)) ∨ (opens = some (root, g) ∧ old = none)) :
    Goes h opens old (resumeWatch root g h.roots r) := by
  obtain ⟨s, task | result⟩ := r
  · rcases begun with ⟨nothing, rfl⟩ | ⟨taken, before⟩
    · exact .kept nothing told rfl rfl
    · exact .opened root g taken told rfl before rfl
  · have live : s.store.isLive g = h.store.isLive g := by simp [Store.isLive, edits.isStale]
    have finished := (finishWatch_keeps root g result s.remarks ⟨s.store, h.roots⟩).2
    have closed := @finishWatch_told ⟨s.store, h.roots⟩ root apart pending g result s.remarks
    refine .ended root g result.isOk pending ?_ (fun _ => ?_) ?_ (live ▸ finished) rfl
    · rintro crawl (opened | crawled)
      · rcases begun with ⟨rfl, rfl⟩ | ⟨rfl, rfl⟩
        · cases opened
        · exact (Option.some.inj opened).symm
      · rcases begun with ⟨rfl, rfl⟩ | ⟨rfl, rfl⟩
        · exact (Option.some.inj crawled).symm
        · cases crawled
    · exact begun.elim (fun now => Or.inr now.2) fun now => Or.inl now.1
    · exact (told.trans closed).congr fun r => by simp

/-- A watch that fails before its root is open closes it all the same. -/
theorem failWatch_goes (apart : h.roots.Apart) (pending : root ∈ h.roots.pending) (g : Generation)
    (e : IndexError) : Goes h none none (h.failWatch root g e) := by
  refine .ended root g false pending (by simp) (by simp) ?_ ?_ rfl
  · exact (finishWatch_told apart pending g (.error e) []).congr fun r => by
      simp [Except.isOk, Except.toBool]
  · exact (finishWatch_keeps root g (.error e) [] h).2

/-- A withdrawal closes its root and everything below. -/
theorem forget_told (root : Path) (ended : List Generation) (s : Store) :
    s.Told (forget root ended s) root.Covers := by
  have cancelled : (ended.foldl Store.cancel s).calls = s.calls := by rw [Store.foldl_cancel]; rfl
  have closed := (Store.told_closeRoot _ root).after cancelled
  exact closed.before ((Store.aside_log _ _).calls.trans (Store.aside_evict _ root).calls)

end Host

theorem Call.step_goes {h : Host} {call : Call} (apart : h.roots.Apart)
    (pending : ∀ root g, call.duty? = some (.crawl root g) → root ∈ h.roots.pending)
    (policy : Policy) (world : World) (schedule : List Nat) :
    Goes h (call.opens? world) (Progress.waiting call).crawl? (call.step policy world schedule h) := by
  cases call with
  | joining root g =>
    unfold step
    dsimp only
    split <;> exact .kept rfl (.of_calls rfl) rfl rfl
  | draining root below =>
    unfold step
    dsimp only
    split
    · exact h.watch_goes root
    · exact .kept rfl (.of_calls rfl) rfl rfl
  | looking root g =>
    have failed := Host.failWatch_goes apart (pending root g rfl) g
    unfold step
    dsimp only
    split
    · exact failed _
    · split
      · exact .kept rfl (Store.told_askRoot h.store root) rfl rfl
      · exact failed _
  | opening root g status =>
    have own := pending root g rfl
    unfold step
    dsimp only
    split
    next e refused =>
      have unopened : opens? world (.opening root g status) = none := by
        simp [opens?, refused, Except.isOk, Except.toBool]
      rw [unopened]
      exact Host.failWatch_goes apart own g _
    next taken =>
      have opened := Store.rootTaken_recorded h.store root
      refine @Host.resumeWatch_goes _ _ _ policy apart own _ _ _ ?_ ?_ (Or.inr ⟨?_, rfl⟩)
      · refine .trans ?_ (Crawl.edits_addDirectory root status _)
        exact Edits.quiet (Store.quiet_rootTaken _ _)
      · exact (Crawl.told_addDirectory rfl root status _).after opened.2
      · simp [opens?, taken, Except.isOk, Except.toBool]
  | crawling root g task remarks =>
    have moved := Crawl.Task.step_moves (firstCrawl policy g) world schedule task ⟨h.store, remarks⟩
    exact Host.resumeWatch_goes apart (pending root g rfl) moved.edits (moved.told rfl)
      (Or.inl ⟨rfl, rfl⟩)
  | refreshing path g task remarks =>
    have moved := Crawl.Task.step_moves (refreshCrawl policy g) world schedule task ⟨h.store, remarks⟩
    have told := moved.told rfl
    dsimp only [step]
    generalize task.step (refreshCrawl policy g) world schedule ⟨h.store, remarks⟩ = r at told
    obtain ⟨s, task | result⟩ := r
    · exact .kept rfl told rfl rfl
    · exact .kept rfl (told.before (Host.finishRefresh_aside path result s.remarks _).calls)
        (Host.finishRefresh_keeps path result s.remarks ⟨s.store, h.roots⟩).2 rfl

namespace System

/-- The root that the backend opens in a move, with the generation of its watch. -/
def opens? (s : System) : Move → Option (Path × Generation)
  | .resume i world _ =>
    match s.calls[i]? with
    | some (.waiting call) => call.opens? world
    | _ => none
  | _ => none

def Crawls (s : System) (r : Path) (g : Generation) : Prop :=
  ∃ progress ∈ s.calls, progress.crawl? = some (r, g)

theorem Crawls.pending {s : System} {r : Path} {g : Generation} (matched : s.Matched)
    (crawls : s.Crawls r g) : s.host.roots.pending[r]? = some g := by
  obtain ⟨progress, member, begun⟩ := crawls
  obtain ⟨i, within, rfl⟩ := List.mem_iff_getElem.1 member
  refine matched.pending i r g ?_
  unfold dutyAt
  rw [List.getElem?_eq_getElem within, Option.bind_some]
  unfold Progress.crawl? at begun
  split at begun
  next found =>
    cases Option.some.inj begun
    rw [found]
    rfl
  · cases begun

/-- What a move means for the open roots. -/
inductive Handled (s : System) (move : Move) (t : System) : Prop where
  | kept (nothing : s.opens? move = none) (told : s.host.store.Told t.host.store fun _ => False)
      (active : ∀ r, r ∈ t.host.roots.active ↔ r ∈ s.host.roots.active)
      (crawls : ∀ r g, t.Crawls r g ↔ s.Crawls r g)
      (stale : ∀ g, t.host.store.isStale g = s.host.store.isStale g)
  | started (taken : List Path) (nothing : s.opens? move = none)
      (told : s.host.store.Told t.host.store (· ∈ taken))
      (among : ∀ r ∈ taken, r ∈ s.host.roots.active)
      (active : ∀ r, r ∈ t.host.roots.active ↔ r ∈ s.host.roots.active ∧ r ∉ taken)
      (crawls : ∀ r g, t.Crawls r g ↔ s.Crawls r g)
      (stale : ∀ g, t.host.store.isStale g = s.host.store.isStale g)
  | opened (root : Path) (g : Generation) (taken : s.opens? move = some (root, g))
      (told : s.host.store.Told t.host.store fun _ => False)
      (active : ∀ r, r ∈ t.host.roots.active ↔ r ∈ s.host.roots.active)
      (crawls : ∀ r g', t.Crawls r g' ↔ s.Crawls r g' ∨ (r, g') = (root, g))
      (stale : ∀ g, t.host.store.isStale g = s.host.store.isStale g)
  | ended (root : Path) (g : Generation) (ok : Bool) (pending : root ∈ s.host.roots.pending)
      (own : ∀ crawl, s.opens? move = some crawl → crawl = (root, g))
      (begun : ok = true → s.opens? move = some (root, g) ∨ s.Crawls root g)
      (told : s.host.store.Told t.host.store fun r => ok = false ∧ root.Covers r)
      (active : ∀ r, r ∈ t.host.roots.active ↔
        r ∈ s.host.roots.active ∨ (r = root ∧ ok = true ∧ s.host.store.isStale g = false))
      (fewer : ∀ r g', t.Crawls r g' → s.Crawls r g' ∧ r ≠ root)
      (left : ∀ r g', s.Crawls r g' → t.Crawls r g' ∨ (r, g') = (root, g))
      (stale : ∀ g, t.host.store.isStale g = s.host.store.isStale g)
  | withdrawn (root : Path) (request : move = .unwatch root)
      (found : (s.host.unwatch root).2 = true)
      (told : s.host.store.Told t.host.store root.Covers)
      (active : ∀ r, r ∈ t.host.roots.active ↔ r ∈ s.host.roots.active ∧ r ≠ root)
      (crawls : ∀ r g, t.Crawls r g ↔ s.Crawls r g)
      (stale : ∀ g, t.host.store.isStale g = true ↔
        s.host.store.isStale g = true ∨ g ∈ (s.host.roots.withdraw root).2)

/-- One request goes on, or is new, and the others stay as they are. -/
private theorem handled_of_goes (others : Path → Generation → Prop) {s t : System} {move : Move}
    {old : Option (Path × Generation)} {next : Host × Progress} (matched : s.Matched)
    (orderly' : t.Matched) (goes : Goes s.host (s.opens? move) old next) (host : t.host = next.1)
    (before : ∀ r g, s.Crawls r g ↔ others r g ∨ old = some (r, g))
    (after : ∀ r g, t.Crawls r g ↔ others r g ∨ next.2.crawl? = some (r, g))
    (stale : ∀ g, t.host.store.isStale g = s.host.store.isStale g) : Handled s move t := by
  have same : next.2.crawl? = old → ∀ r g, t.Crawls r g ↔ s.Crawls r g :=
    fun same r g => by rw [after, before, same]
  cases goes with
  | kept nothing told roots crawl =>
    rw [← host] at told roots
    exact .kept nothing told (fun r => by rw [roots]) (same crawl) stale
  | started root planned nothing told roots crawl =>
    rw [← host] at told roots
    refine .started _ nothing told (fun r taken => (Roots.mem_activeBelow.1 taken).1) (fun r => ?_)
      (same crawl) stale
    rw [roots, ExtTreeMap.mem_iff_isSome_getElem?, ExtTreeMap.mem_iff_isSome_getElem?,
      Roots.reserve_active]
    split
    next taken => simp [taken]
    next spared => simp [spared]
  | opened root g taken told roots earlier begun =>
    rw [← host] at told roots
    refine .opened root g taken told (fun r => by rw [roots]) (fun r g' => ?_) stale
    rw [after, before, earlier, begun]
    simp [eq_comm]
  | ended root g ok pending own begun told roots finished =>
    rw [← host] at told roots
    rw [matched.apart.settlement pending] at roots
    have gone : root ∉ t.host.roots.pending := by
      rw [roots]
      cases ok && s.host.store.isLive g <;> simp [Roots.announce]
    refine .ended root g ok pending (fun crawl taken => own crawl (Or.inl taken))
      (fun fine => (begun fine).imp_right fun crawled => (before root g).2 (Or.inr crawled)) told ?_ ?_
      ?_ stale
    · intro r
      rw [roots]
      cases ok with
      | false => simp [Roots.announce]
      | true =>
        cases live : s.host.store.isStale g with
        | true => simp [Roots.announce, Store.isLive, live]
        | false =>
          simp only [Store.isLive, live, Roots.announce, Bool.not_false, Bool.and_self, if_true,
            ExtTreeMap.mem_insert, LawfulEqCmp.compare_eq_iff_eq, and_true]
          rw [or_comm, @eq_comm _ root r]
    · intro r g' crawls
      refine ⟨(before r g').2 (((after r g').1 crawls).imp_right fun now => ?_), fun own => gone ?_⟩
      · rw [finished] at now
        cases now
      · rw [ExtTreeMap.mem_iff_isSome_getElem?, ← own, crawls.pending orderly']
        rfl
    · intro r g' crawls
      rcases (before r g').1 crawls with other | crawled
      · exact Or.inl ((after r g').2 (Or.inl other))
      · exact Or.inr (own _ (Or.inr crawled))

theorem step_handled {policy : Policy} {s : System} (matched : s.Matched) (move : Move) :
    Handled s move (s.step policy move) := by
  have orderly' := matched.step policy move
  have still : s.step policy move = s → s.opens? move = none →
      Handled s move (s.step policy move) := by
    intro same nothing
    rw [same]
    exact .kept nothing (.of_calls rfl) (fun r => Iff.rfl) (fun r g => Iff.rfl) fun g => rfl
  have added : ∀ next : Host × Progress, Goes s.host none none next →
      s.step policy move = ⟨next.1, s.calls ++ [next.2]⟩ → s.opens? move = none →
      (∀ root, move ≠ .unwatch root) → Handled s move (s.step policy move) := by
    intro next goes stepped nothing stays
    have stale : ∀ g, (s.step policy move).host.store.isStale g = s.host.store.isStale g :=
      fun g => by rw [Store.isStale, Store.isStale, step_cancelled policy s stays]
    rw [← nothing] at goes
    refine handled_of_goes s.Crawls matched orderly' goes (by rw [stepped]) (by simp [nothing]) ?_ stale
    intro r g
    simp [Crawls, stepped, or_and_right, exists_or]
  cases move with
  | watch root => exact added _ (s.host.watch_goes root) rfl rfl (by simp)
  | refresh path => exact added _ (s.host.refresh_goes policy path) rfl rfl (by simp)
  | unwatch root =>
    cases found : (s.host.unwatch root).2 with
    | false =>
      refine still ?_ rfl
      dsimp only [step]
      rw [Host.unwatch_nothing found]
    | true =>
      have store := (unwatch_eq found).2
      refine .withdrawn root rfl found (store ▸ Host.forget_told root _ _) (fun r => ?_)
        (fun r g => Iff.rfl) (unwatch_isStale found policy)
      have roots : (s.host.unwatch root).1.roots = (s.host.roots.withdraw root).1 := by
        unfold Host.unwatch at found ⊢
        split at found
        · cases found
        next withdrawn => exact (congrArg Prod.fst withdrawn).symm
      dsimp only [step]
      rw [roots]
      simp only [Roots.withdraw, ExtTreeMap.mem_erase, ne_eq, LawfulEqCmp.compare_eq_iff_eq,
        @eq_comm _ root r, and_comm]
  | resume i world schedule =>
    have stale : ∀ g, (s.step policy (.resume i world schedule)).host.store.isStale g =
        s.host.store.isStale g :=
      fun g => by rw [Store.isStale, Store.isStale, step_cancelled policy s (by simp)]
    cases made : s.calls[i]? with
    | none => exact still (by simp [step, made]) (by simp [opens?, made])
    | some progress =>
      cases progress with
      | finished reply => exact still (by simp [step, made]) (by simp [opens?, made])
      | waiting call =>
        obtain ⟨within, own⟩ := List.getElem?_eq_some_iff.1 made
        obtain ⟨before, after, calls, _, replaced⟩ :=
          @List.exists_of_set _ i (call.step policy world schedule s.host).2 s.calls within
        rw [own] at calls
        have goes := call.step_goes matched.apart (fun root g working =>
          matched.mem_pending (show s.dutyAt i = some (.crawl root g) by
            simp [dutyAt, made, Progress.duty?, working])) policy world schedule
        rw [show call.opens? world = s.opens? (.resume i world schedule) by simp [opens?, made]] at goes
        have stepped : s.step policy (.resume i world schedule) =
            ⟨(call.step policy world schedule s.host).1,
              before ++ (call.step policy world schedule s.host).2 :: after⟩ := by
          simp [step, made, replaced]
        refine handled_of_goes (fun r g => ∃ progress ∈ before ++ after,
          progress.crawl? = some (r, g)) matched orderly' goes (by rw [stepped]) ?_ ?_ stale
        · intro r g
          simp only [Crawls, calls, List.mem_append, List.mem_cons]
          grind
        · intro r g
          simp only [Crawls, stepped, List.mem_append, List.mem_cons]
          grind

/-- The backend opened the root, at a moment that was as it is said, and no call since then has ended
its subscription. -/
inductive OpenedWhile (policy : Policy) (s : System) (holds : System → Generation → Prop) (r : Path) :
    List Move → Prop where
  | now {moves : List Move} {move : Move} {g : Generation} {made : List (BackendCall × Path)}
      (opens : (s.run policy moves).opens? move = some (r, g)) (held : holds (s.run policy moves) g)
      (calls : (s.run policy (moves ++ [move])).host.store.calls =
        made ++ (s.run policy moves).host.store.calls)
      (spared : ¬ EndRoot made r) : OpenedWhile policy s holds r (moves ++ [move])
  | later {moves : List Move} {move : Move} {made : List (BackendCall × Path)}
      (earlier : OpenedWhile policy s holds r moves)
      (calls : (s.run policy (moves ++ [move])).host.store.calls =
        made ++ (s.run policy moves).host.store.calls)
      (spared : ¬ EndRoot made r) : OpenedWhile policy s holds r (moves ++ [move])

/-- The root is open: the backend opened it, and it was neither closed, by itself or from above, nor
released since then. -/
def Open (policy : Policy) (s : System) (moves : List Move) (r : Path) : Prop :=
  OpenedWhile policy s (fun _ _ => True) r moves

/-- The root is open, and it was opened by a watch that had been withdrawn. -/
def OpenedLate (policy : Policy) (s : System) (moves : List Move) (r : Path) : Prop :=
  OpenedWhile policy s (fun t g => t.host.store.isStale g = true) r moves

/-- A path above the root was withdrawn while the root was active, and the root was not opened since
then. -/
inductive ClosedOver (policy : Policy) (s : System) : List Move → Path → Prop where
  | now {moves : List Move} {top r : Path} (above : top.Covers r) (other : r ≠ top)
      (active : r ∈ (s.run policy moves).host.roots.active)
      (found : ((s.run policy moves).host.unwatch top).2 = true) :
      ClosedOver policy s (moves ++ [.unwatch top]) r
  | later {moves : List Move} {move : Move} {r : Path} (earlier : ClosedOver policy s moves r)
      (unopened : ∀ g, (s.run policy moves).opens? move ≠ some (r, g)) :
      ClosedOver policy s (moves ++ [move]) r

variable {policy : Policy} {s : System} {moves : List Move} {move : Move} {r : Path}

theorem run_concat (policy : Policy) (s : System) (moves : List Move) (move : Move) :
    s.run policy (moves ++ [move]) = (s.run policy moves).step policy move := by
  rw [run_append]
  rfl

/-- The last move of a run opens the root or leaves it open. -/
theorem openedWhile_concat {holds : System → Generation → Prop} {ended : Path → Prop}
    (told : (s.run policy moves).host.store.Told
      ((s.run policy moves).step policy move).host.store ended) :
    OpenedWhile policy s holds r (moves ++ [move]) ↔
      ((∃ g, (s.run policy moves).opens? move = some (r, g) ∧ holds (s.run policy moves) g) ∨
        OpenedWhile policy s holds r moves) ∧ ¬ ended r := by
  obtain ⟨made, calls, ends⟩ := told
  rw [← run_concat] at calls
  constructor
  · intro opened
    generalize extended : moves ++ [move] = run at opened
    have only : ∀ {before : List Move} {last : Move} {others : List (BackendCall × Path)},
        moves ++ [move] = before ++ [last] → (s.run policy (before ++ [last])).host.store.calls =
          others ++ (s.run policy before).host.store.calls →
        moves = before ∧ move = last ∧ others = made := by
      intro before last others same said
      obtain ⟨rfl, last⟩ := List.append_inj' same rfl
      obtain rfl := List.singleton_inj.1 last
      exact ⟨rfl, rfl, List.append_cancel_right (said.symm.trans calls)⟩
    cases opened with
    | now opens held said spared =>
      obtain ⟨rfl, rfl, rfl⟩ := only extended said
      exact ⟨Or.inl ⟨_, opens, held⟩, fun closed => spared ((ends r).2 closed)⟩
    | later earlier said spared =>
      obtain ⟨rfl, rfl, rfl⟩ := only extended said
      exact ⟨Or.inr earlier, fun closed => spared ((ends r).2 closed)⟩
  · rintro ⟨⟨g, opens, held⟩ | earlier, spared⟩
    · exact .now opens held calls fun closed => spared ((ends r).1 closed)
    · exact .later earlier calls fun closed => spared ((ends r).1 closed)

theorem not_openedWhile_nil {holds : System → Generation → Prop} :
    ¬ OpenedWhile policy s holds r [] := by
  intro opened
  generalize start : ([] : List Move) = run at opened
  cases opened with
  | now => simp at start
  | later => simp at start

theorem Handled.told {t : System} (handled : Handled s move t) :
    ∃ ended, s.host.store.Told t.host.store ended := by
  cases handled with
  | kept _ told | started _ _ told | opened _ _ _ told | ended _ _ _ _ _ _ told
  | withdrawn _ _ _ told => exact ⟨_, told⟩

/-- A root that was closed over is not open. -/
theorem ClosedOver.not_open (closed : ClosedOver policy s moves r)
    (matched : ∀ moves, (s.run policy moves).Matched) : ¬ Open policy s moves r := by
  induction closed with
  | @now moves top r above other active found =>
    have told : (s.run policy moves).host.store.Told
        ((s.run policy moves).step policy (.unwatch top)).host.store top.Covers :=
      (unwatch_eq found).2 ▸ Host.forget_told top _ _
    exact fun opened => ((openedWhile_concat told).1 opened).2 above
  | @later moves move r earlier unopened ih =>
    intro opened
    obtain ⟨ended, told⟩ := (@step_handled policy _ (matched moves) move).told
    rcases ((openedWhile_concat told).1 opened).1 with ⟨g, opens, _⟩ | before
    · exact unopened g opens
    · exact ih before

theorem OpenedLate.isOpen (late : OpenedLate policy s moves r) : Open policy s moves r := by
  unfold OpenedLate at late
  induction late with
  | now opens held calls spared => exact .now opens trivial calls spared
  | later _ calls spared ih => exact .later ih calls spared

/-- Where the open roots are: active roots are open or were closed over, the roots of crawls that are
still wanted are open, and every open root is one of these or was opened late. -/
structure Accounted (policy : Policy) (s : System) (moves : List Move) : Prop where
  active : ∀ r, r ∈ (s.run policy moves).host.roots.active →
    Open policy s moves r ∨ ClosedOver policy s moves r
  crawled : ∀ r g, (s.run policy moves).Crawls r g →
    (s.run policy moves).host.store.isStale g = false → Open policy s moves r
  complete : ∀ r, Open policy s moves r → r ∈ (s.run policy moves).host.roots.active ∨
    OpenedLate policy s moves r ∨
    ∃ g, (s.run policy moves).Crawls r g ∧ (s.run policy moves).host.store.isStale g = false

section

variable {t : System} {ended : Path → Prop}

/-- An open root stays open where the move does not end its subscription. -/
theorem OpenedWhile.concat {holds : System → Generation → Prop}
    (opened : OpenedWhile policy s holds r moves)
    (told : (s.run policy moves).host.store.Told
      ((s.run policy moves).step policy move).host.store ended)
    (spared : ¬ ended r) : OpenedWhile policy s holds r (moves ++ [move]) :=
  (openedWhile_concat told).2 ⟨Or.inr opened, spared⟩

/-- A root that is opened by a move is open after it, if the move does not close it again. -/
theorem openedWhile_now {holds : System → Generation → Prop} {g : Generation}
    (told : (s.run policy moves).host.store.Told
      ((s.run policy moves).step policy move).host.store ended)
    (opens : (s.run policy moves).opens? move = some (r, g)) (held : holds (s.run policy moves) g)
    (spared : ¬ ended r) : OpenedWhile policy s holds r (moves ++ [move]) :=
  (openedWhile_concat told).2 ⟨Or.inl ⟨g, opens, held⟩, spared⟩

/-- An active root that the move does not close was open or closed over, and still is. -/
theorem Accounted.keeps (accounted : Accounted policy s moves)
    (told : (s.run policy moves).host.store.Told
      ((s.run policy moves).step policy move).host.store ended)
    (active : r ∈ (s.run policy moves).host.roots.active) (spared : ¬ ended r) :
    Open policy s (moves ++ [move]) r ∨ ClosedOver policy s (moves ++ [move]) r := by
  rcases accounted.active r active with opened | closed
  · exact Or.inl (opened.concat told spared)
  · by_cases opens : ∃ g, (s.run policy moves).opens? move = some (r, g)
    · obtain ⟨g, opens⟩ := opens
      exact Or.inl (openedWhile_now told opens trivial spared)
    · exact Or.inr (.later closed fun g taken => opens ⟨g, taken⟩)

theorem Accounted.active_concat (accounted : Accounted policy s moves)
    (matched : (s.run policy moves).Matched) (move : Move)
    (active : r ∈ ((s.run policy moves).step policy move).host.roots.active) :
    Open policy s (moves ++ [move]) r ∨ ClosedOver policy s (moves ++ [move]) r := by
  cases @step_handled policy _ matched move with
  | kept nothing told same crawls stale => exact accounted.keeps told ((same r).1 active) id
  | started taken nothing told among left crawls stale =>
    obtain ⟨before, spared⟩ := (left r).1 active
    exact accounted.keeps told before spared
  | opened root g taken told same crawls stale => exact accounted.keeps told ((same r).1 active) id
  | ended root g ok pending own begun told now fewer left stale =>
    rcases (now r).1 active with before | ⟨rfl, fine, live⟩
    · refine accounted.keeps told before fun closed => ?_
      exact (matched.apart.active_incomparable pending before).2 closed.2
    · have spared : ¬ (ok = false ∧ r.Covers r) := by simp [fine]
      rcases begun fine with opens | crawls
      · exact Or.inl (openedWhile_now told opens trivial spared)
      · exact Or.inl ((accounted.crawled r g crawls live).concat told spared)
  | withdrawn root request found told left crawls stale =>
    subst request
    obtain ⟨before, other⟩ := (left r).1 active
    by_cases above : root.Covers r
    · exact Or.inr (.now above other before found)
    · exact accounted.keeps told before above

theorem Accounted.crawled_concat (accounted : Accounted policy s moves)
    (matched : (s.run policy moves).Matched) (move : Move) {g : Generation}
    (crawls : ((s.run policy moves).step policy move).Crawls r g)
    (live : ((s.run policy moves).step policy move).host.store.isStale g = false) :
    Open policy s (moves ++ [move]) r := by
  have member : ∀ {r : Path} {g : Generation}, (s.run policy moves).Crawls r g →
      r ∈ (s.run policy moves).host.roots.pending := by
    intro r g crawled
    rw [ExtTreeMap.mem_iff_isSome_getElem?, crawled.pending matched]
    rfl
  cases @step_handled policy _ matched move with
  | kept nothing told same before stale =>
    exact (accounted.crawled r g ((before r g).1 crawls) (stale g ▸ live)).concat told id
  | started taken nothing told among left before stale =>
    have crawled := (before r g).1 crawls
    refine (accounted.crawled r g crawled (stale g ▸ live)).concat told fun closed => ?_
    exact matched.apart.disjoint r (member crawled) (among r closed)
  | opened root g' taken told same before stale =>
    rcases (before r g).1 crawls with crawled | now
    · exact (accounted.crawled r g crawled (stale g ▸ live)).concat told id
    · cases now
      exact openedWhile_now told taken trivial id
  | ended root g' ok pending own begun told now fewer left stale =>
    obtain ⟨crawled, other⟩ := fewer r g crawls
    refine (accounted.crawled r g crawled (stale g ▸ live)).concat told fun closed => other ?_
    exact (matched.apart.antichain root r (Or.inl pending) (Or.inl (member crawled)) closed.2).symm
  | withdrawn root request found told left before stale =>
    have crawled := (before r g).1 crawls
    have wanted : ¬ ((s.run policy moves).host.store.isStale g = true ∨
        g ∈ ((s.run policy moves).host.roots.withdraw root).2) := by
      rw [← stale g, live]
      simp
    have still := eq_false_of_ne_true fun stale => wanted (Or.inl stale)
    refine (accounted.crawled r g crawled still).concat told fun closed => wanted (Or.inr ?_)
    exact Roots.mem_withdraw.2 (Or.inl ⟨r, crawled.pending matched, closed⟩)

/-- An open root that the move does not close is where it was, or has become active. -/
theorem Accounted.carried (accounted : Accounted policy s moves)
    (told : (s.run policy moves).host.store.Told
      ((s.run policy moves).step policy move).host.store ended)
    (opened : Open policy s moves r) (spared : ¬ ended r)
    (active : r ∈ (s.run policy moves).host.roots.active → r ∈ t.host.roots.active)
    (crawled : ∀ g, (s.run policy moves).Crawls r g →
      (s.run policy moves).host.store.isStale g = false →
      r ∈ t.host.roots.active ∨ (t.Crawls r g ∧ t.host.store.isStale g = false)) :
    r ∈ t.host.roots.active ∨ OpenedLate policy s (moves ++ [move]) r ∨
      ∃ g, t.Crawls r g ∧ t.host.store.isStale g = false := by
  rcases accounted.complete r opened with before | late | ⟨g, crawls, live⟩
  · exact Or.inl (active before)
  · exact Or.inr (Or.inl (OpenedWhile.concat late told spared))
  · exact (crawled g crawls live).imp_right fun still => Or.inr ⟨g, still⟩

theorem Accounted.complete_concat (accounted : Accounted policy s moves)
    (matched : (s.run policy moves).Matched) (owned : (s.run policy moves).Owned) (move : Move)
    (opened : Open policy s (moves ++ [move]) r) :
    r ∈ ((s.run policy moves).step policy move).host.roots.active ∨
      OpenedLate policy s (moves ++ [move]) r ∨
      ∃ g, ((s.run policy moves).step policy move).Crawls r g ∧
        ((s.run policy moves).step policy move).host.store.isStale g = false := by
  cases @step_handled policy _ matched move with
  | kept nothing told same crawls stale =>
    obtain ⟨⟨g, opens, _⟩ | before, spared⟩ := (openedWhile_concat told).1 opened
    · cases nothing.symm.trans opens
    · exact accounted.carried told before spared (same r).2 fun g crawled live =>
        Or.inr ⟨(crawls r g).2 crawled, (stale g).trans live⟩
  | started taken nothing told among left crawls stale =>
    obtain ⟨⟨g, opens, _⟩ | before, spared⟩ := (openedWhile_concat told).1 opened
    · cases nothing.symm.trans opens
    · exact accounted.carried told before spared (fun active => (left r).2 ⟨active, spared⟩)
        fun g crawled live => Or.inr ⟨(crawls r g).2 crawled, (stale g).trans live⟩
  | opened root g taken told same crawls stale =>
    obtain ⟨⟨g', opens, _⟩ | before, spared⟩ := (openedWhile_concat told).1 opened
    · cases taken.symm.trans opens
      cases wanted : (s.run policy moves).host.store.isStale g with
      | true => exact Or.inr (Or.inl (openedWhile_now told opens wanted id))
      | false => exact Or.inr (Or.inr ⟨g, (crawls r g).2 (Or.inr rfl), (stale g).trans wanted⟩)
    · exact accounted.carried told before spared (same r).2 fun g' crawled live =>
        Or.inr ⟨(crawls r g').2 (Or.inl crawled), (stale g').trans live⟩
  | ended root g ok pending own begun told now fewer left stale =>
    obtain ⟨⟨g', opens, _⟩ | before, spared⟩ := (openedWhile_concat told).1 opened
    · cases own _ opens
      have fine : ok = true := eq_true_of_ne_false fun failed => spared ⟨failed, .refl r⟩
      cases wanted : (s.run policy moves).host.store.isStale g with
      | true => exact Or.inr (Or.inl (openedWhile_now told opens wanted spared))
      | false => exact Or.inl ((now r).2 (Or.inr ⟨rfl, fine, wanted⟩))
    · refine accounted.carried told before spared (fun active => (now r).2 (Or.inl active)) ?_
      intro g' crawled live
      rcases left r g' crawled with still | ended
      · exact Or.inr ⟨still, (stale g').trans live⟩
      · cases ended
        have fine : ok = true := eq_true_of_ne_false fun failed => spared ⟨failed, .refl r⟩
        exact Or.inl ((now r).2 (Or.inr ⟨rfl, fine, live⟩))
  | withdrawn root request found told left crawls stale =>
    subst request
    obtain ⟨⟨g, opens, _⟩ | before, spared⟩ := (openedWhile_concat told).1 opened
    · cases opens
    · refine accounted.carried told before spared
        (fun active => (left r).2 ⟨active, fun own => spared (own ▸ .refl r)⟩) fun g crawled live => ?_
      refine Or.inr ⟨(crawls r g).2 crawled, eq_false_of_ne_true fun ended => ?_⟩
      have own := crawled.pending matched
      rcases (stale g).1 ended with earlier | member
      · rw [live] at earlier
        cases earlier
      · rcases Roots.mem_withdraw.1 member with ⟨r', pending, covers⟩ | active
        · exact spared (owned.one r' r g (Or.inl pending) (Or.inl own) ▸ covers)
        · exact spared (owned.one root r g (Or.inr active) (Or.inl own) ▸ .refl root)

end

/-- The account holds after every run. -/
theorem accounted_run (policy : Policy) (name : Name) (style : Backend.Style) (moves : List Move) :
    Accounted policy (fresh name style) moves := by
  induction moves using List.reverseRecOn with
  | nil =>
    refine ⟨fun r active => ?_, fun r g crawls => ?_, fun r opened => absurd opened not_openedWhile_nil⟩
    · simp [run, fresh] at active
    · simp [Crawls, run, fresh] at crawls
  | append_singleton moves move accounted =>
    have reachable : Reachable policy ((fresh name style).run policy moves) := ⟨name, style, moves, rfl⟩
    refine ⟨fun r => ?_, fun r g => ?_, fun r => ?_⟩ <;> rw [run_concat]
    · exact accounted.active_concat reachable.matched move
    · exact accounted.crawled_concat reachable.matched move
    · exact accounted.complete_concat reachable.matched reachable.owned move

/-- Any watches, refreshes and withdrawals, interleaved in any way, in worlds that may answer
differently at every wait.  Whenever no first crawl of a root is under way, the open roots are the
active ones, but for two: a root that is active and was closed over is not open, and a root that was
opened late is open. -/
theorem open_roots_active_unless_closed_over_or_late (policy : Policy) (name : Name)
    (style : Backend.Style) (moves : List Move)
    (idle : ∀ i root g, ((fresh name style).run policy moves).dutyAt i ≠ some (.crawl root g))
    (r : Path) :
    Open policy (fresh name style) moves r ↔
      (r ∈ ((fresh name style).run policy moves).host.roots.active ∧
        ¬ ClosedOver policy (fresh name style) moves r) ∨
      OpenedLate policy (fresh name style) moves r := by
  have accounted := accounted_run policy name style moves
  have matched : ∀ moves, ((fresh name style).run policy moves).Matched :=
    fun moves => Reachable.matched ⟨name, style, moves, rfl⟩
  constructor
  · intro opened
    rcases accounted.complete r opened with active | late | ⟨g, crawls, _⟩
    · exact Or.inl ⟨active, fun closed => closed.not_open matched opened⟩
    · exact Or.inr late
    · obtain ⟨i, working⟩ := (matched moves).crawled r g (crawls.pending (matched moves))
      exact absurd working (idle i r g)
  · rintro (⟨active, spared⟩ | late)
    · exact (accounted.active r active).resolve_right spared
    · exact late.isOpen

/-- A watch on `/a` is withdrawn while it waits for the status of `/a`, and then goes on. -/
def withdrawnBeforeOpening : List Move :=
  [.watch ⟨[.root, .name [97]]⟩, .unwatch ⟨[.root, .name [97]]⟩, .resume 0 directoriesEverywhere []] ++
    [.resume 0 directoriesEverywhere []]

theorem withdrawnBeforeOpening_open : Open (.ofSettings {}) (fresh [] .recursive)
    withdrawnBeforeOpening ⟨[.root, .name [97]]⟩ := by
  refine .now (g := 0) (by decide +kernel) trivial (show _ = [] ++ _ from ?_) (by simp [EndRoot])
  decide +kernel

theorem withdrawnBeforeOpening_idle (i : Nat) (root : Path) (g : Generation) :
    ((fresh [] .recursive).run (.ofSettings {}) withdrawnBeforeOpening).dutyAt i ≠
      some (.crawl root g) := by
  have calls : ((fresh [] .recursive).run (.ofSettings {}) withdrawnBeforeOpening).calls =
      [.finished (.watched (.ok ()))] := by
    with_unfolding_all rfl
  rw [dutyAt, calls]
  rcases i with _ | i <;> simp [Progress.duty?]

/-- The root that was withdrawn before it was opened is open, and it was opened late. -/
theorem open_roots_active_unless_closed_over_or_late_withdrawn :
    OpenedLate (.ofSettings {}) (fresh [] .recursive) withdrawnBeforeOpening
      ⟨[.root, .name [97]]⟩ := by
  refine ((open_roots_active_unless_closed_over_or_late (.ofSettings {}) [] .recursive
    withdrawnBeforeOpening withdrawnBeforeOpening_idle _).1 withdrawnBeforeOpening_open).resolve_left ?_
  exact fun active => absurd active.1 (by decide +kernel)

def watchedBeside : List Move :=
  [.watch ⟨[.root, .name [97], .name [98]]⟩] ++
    List.replicate 4 (.resume 0 directoriesEverywhere []) ++
    [.watch ⟨[.root, .name [97], .name [99]]⟩]

def withdrawnAbove : List Move :=
  watchedBeside ++ [.unwatch ⟨[.root, .name [97]]⟩] ++ [.resume 1 nothingAnywhere []]

theorem withdrawnAbove_closedOver : ClosedOver (.ofSettings {}) (fresh [] .recursive) withdrawnAbove
    ⟨[.root, .name [97], .name [98]]⟩ := by
  refine .later (.now (by decide) (by decide) (by decide +kernel) (by decide +kernel)) fun g => ?_
  rw [show opens? _ _ = none by decide +kernel]
  simp

theorem withdrawnAbove_idle (i : Nat) (root : Path) (g : Generation) :
    ((fresh [] .recursive).run (.ofSettings {}) withdrawnAbove).dutyAt i ≠ some (.crawl root g) := by
  have calls : ((fresh [] .recursive).run (.ofSettings {}) withdrawnAbove).calls =
      [.finished (.watched (.ok ())), .finished (.watched (.error (.notFound
        (Path.spelling ⟨[.root, .name [97], .name [99]]⟩))))] := by
    with_unfolding_all rfl
  rw [dutyAt, calls]
  rcases i with _ | _ | i <;> simp [Progress.duty?]

/-- When no watch is under way, there can be an open root that is not active, and an active root that
is not open. -/
theorem open_roots_differ_from_active :
    (∃ moves r, (∀ i root g, ((fresh [] .recursive).run (.ofSettings {}) moves).dutyAt i ≠
        some (.crawl root g)) ∧ Open (.ofSettings {}) (fresh [] .recursive) moves r ∧
      r ∉ ((fresh [] .recursive).run (.ofSettings {}) moves).host.roots.active) ∧
    ∃ moves r, (∀ i root g, ((fresh [] .recursive).run (.ofSettings {}) moves).dutyAt i ≠
        some (.crawl root g)) ∧ ¬ Open (.ofSettings {}) (fresh [] .recursive) moves r ∧
      r ∈ ((fresh [] .recursive).run (.ofSettings {}) moves).host.roots.active := by
  refine ⟨⟨withdrawnBeforeOpening, ⟨[.root, .name [97]]⟩, withdrawnBeforeOpening_idle,
    withdrawnBeforeOpening_open, by decide +kernel⟩, withdrawnAbove,
    ⟨[.root, .name [97], .name [98]]⟩, withdrawnAbove_idle, ?_, by decide +kernel⟩
  exact withdrawnAbove_closedOver.not_open fun moves => Reachable.matched ⟨[], .recursive, moves, rfl⟩

end System

end ProjectIndex.Watch
