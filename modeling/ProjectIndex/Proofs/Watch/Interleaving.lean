import ProjectIndex.Proofs.Crawl.Edits
import ProjectIndex.Proofs.Store.Calls
import ProjectIndex.Proofs.Watch.Apart
import ProjectIndex.Watch.Call

/-!
# Interleaved requests

Any number of watches, refreshes and withdrawals on one host.  A `System` is the host together with
the requests that were made so far, each of them waiting or answered, and a `Move` is what happens
next: somebody makes a request, or a request that waits goes on.  A request that goes on is told
what the world answers at that moment, so the disk may change in any way between two moves.

Between two moves of one request the others move in any order, which is why the state of a system
says everything that a later move can depend on.
-/

namespace ProjectIndex.Watch

open Crawl (Edits)

/-- What a request works on: the first crawl of a root, or the refresh of a path. -/
inductive Duty where
  | crawl (root : Path) (generation : Generation)
  | refresh (path : Path) (generation : Generation)
  deriving DecidableEq, Repr

namespace Duty

def generation : Duty → Generation
  | .crawl _ g => g
  | .refresh _ g => g

def path : Duty → Path
  | .crawl root _ => root
  | .refresh path _ => path

def context (policy : Policy) : Duty → Crawl.Context
  | .crawl _ g => firstCrawl policy g
  | .refresh _ g => refreshCrawl policy g

@[simp] theorem context_generation (policy : Policy) (d : Duty) :
    (d.context policy).generation = d.generation := by
  cases d <;> rfl

end Duty

/-- What a request that waits works on.  One that waits for others works on nothing. -/
def Call.duty? : Call → Option Duty
  | .joining _ _ => none
  | .draining _ _ => none
  | .looking root g => some (.crawl root g)
  | .opening root g _ => some (.crawl root g)
  | .crawling root g _ _ => some (.crawl root g)
  | .refreshing path g _ _ => some (.refresh path g)

def Progress.duty? : Progress → Option Duty
  | .waiting call => call.duty?
  | .finished _ => none

/-- A host and all requests that were made, in the order in which they were made. -/
structure System where
  host : Host
  calls : List Progress := []

/-- What happens next. -/
inductive Move where
  | watch (root : Path)
  | refresh (path : Path)
  | unwatch (root : Path)
  /-- The request with this number goes on, if it waits. -/
  | resume (call : Nat) (world : World) (schedule : List Nat)

namespace System

/-- Nobody has asked for anything. -/
def fresh (manifestName : Name) (style : Backend.Style) : System where
  host := { store := .empty manifestName style }

def step (policy : Policy) (s : System) : Move → System
  | .watch root => ⟨(s.host.watch root).1, s.calls ++ [(s.host.watch root).2]⟩
  | .refresh path =>
    ⟨(s.host.refresh policy path).1, s.calls ++ [(s.host.refresh policy path).2]⟩
  | .unwatch root => { s with host := (s.host.unwatch root).1 }
  | .resume i world schedule =>
    match s.calls[i]? with
    | some (.waiting call) =>
      ⟨(call.step policy world schedule s.host).1,
        s.calls.set i (call.step policy world schedule s.host).2⟩
    | _ => s

def run (policy : Policy) (s : System) (moves : List Move) : System :=
  moves.foldl (step policy) s

/-- The state comes about by moves from a fresh host. -/
def Reachable (policy : Policy) (s : System) : Prop :=
  ∃ name style moves, s = (fresh name style).run policy moves

/-- What holds at the start and is kept by every move holds in every reachable state. -/
theorem Reachable.invariant {policy : Policy} {P : System → Prop} {s : System}
    (reachable : Reachable policy s) (start : ∀ name style, P (fresh name style))
    (kept : ∀ s move, P s → P (s.step policy move)) : P s := by
  obtain ⟨name, style, moves, rfl⟩ := reachable
  have along : ∀ (moves : List Move) (s : System), P s → P (s.run policy moves) := by
    intro moves
    induction moves with
    | nil => exact fun s holds => holds
    | cons move rest ih => exact fun s holds => ih (s.step policy move) (kept s move holds)
  exact along moves _ (start name style)

end System

namespace Host

/-- The lines and calls that come with releasing roots are bookkeeping. -/
private theorem foldl_keeps {α : Type} {f : Host → α → Host}
    (each : ∀ h a, h.store.Quiet (f h a).store ∧ (f h a).roots = h.roots) (h : Host) (as : List α) :
    h.store.Quiet (as.foldl f h).store ∧ (as.foldl f h).roots = h.roots := by
  induction as generalizing h with
  | nil => exact ⟨.refl _, rfl⟩
  | cons a rest ih =>
    have now := each h a
    have later := ih (f h a)
    exact ⟨now.1.trans later.1, later.2.trans now.2⟩

/-- Settling changes the roots by their own rule and nothing that the index shows. -/
theorem settle_keeps (h : Host) (root : Path) (g : Generation) (ok : Bool) :
    h.store.Quiet (h.settle root g ok).store ∧
      (h.settle root g ok).roots =
        (h.roots.settle root g (ok && h.store.isLive g)).1.announce g ok := by
  unfold settle
  dsimp only
  split
  · exact ⟨.refl _, rfl⟩
  · exact ⟨(Store.quiet_log _ _).trans (Store.quiet_releaseRoot _ _), rfl⟩
  next released _ =>
    have kept := foldl_keeps (f := fun h r => h.update (·.releaseRoot r))
      (fun h r => ⟨Store.quiet_releaseRoot h.store r, rfl⟩)
      { h with roots := (h.roots.settle root g (ok && h.store.isLive g)).1 } released
    exact ⟨kept.1, congrArg (·.announce g ok) kept.2⟩

/-- The end of a first crawl settles its root, well or not, and is quiet otherwise. -/
theorem finishWatch_keeps (root : Path) (g : Generation) (result : Except IndexError Bool)
    (remarks : List Diagnostic) (h : Host) :
    h.store.Quiet (finishWatch root g result remarks h).1.store ∧
      (finishWatch root g result remarks h).1.roots =
        (h.roots.settle root g (result.isOk && h.store.isLive g)).1.announce g result.isOk := by
  unfold finishWatch
  split
  · have settled := h.settle_keeps root g false
    refine ⟨?_, settled.2⟩
    exact (settled.1.trans (Store.quiet_closeRoot _ root)).trans (Store.quiet_log _ _)
  · have settled := h.settle_keeps root g true
    dsimp only
    split
    · exact ⟨settled.1.trans (Store.quiet_log _ _), settled.2⟩
    · have told := foldl_keeps (f := warn)
        (fun h d => ⟨Store.quiet_log h.store _, rfl⟩)
        ((h.settle root g true).log (line .info "watching"
          (root.display ++ " (" ++ toString ((h.settle root g true).store.index.countBelow root) ++
            " files, " ++ toString (h.settle root g true).store.index.directoryCount ++
            " directories, " ++ (h.settle root g true).store.backend.name ++ ")"))) remarks
      exact ⟨(settled.1.trans (Store.quiet_log _ _)).trans told.1, told.2.trans settled.2⟩

theorem finishRefresh_keeps (path : Path) (result : Except IndexError Bool)
    (remarks : List Diagnostic) (h : Host) :
    h.store.Quiet (finishRefresh path result remarks h).1.store ∧
      (finishRefresh path result remarks h).1.roots = h.roots := by
  unfold finishRefresh
  split
  · exact ⟨.refl _, rfl⟩
  · split
    · exact ⟨.refl _, rfl⟩
    · exact foldl_keeps (f := warn) (fun h d => ⟨Store.quiet_log h.store _, rfl⟩) h remarks

/-- The remarks that a request ended with are nothing that the backend sees. -/
theorem warn_aside (h : Host) (remarks : List Diagnostic) :
    h.store.Aside (remarks.foldl warn h).store := by
  induction remarks generalizing h with
  | nil => exact .refl _
  | cons d rest ih => exact (Store.aside_log _ _).trans (ih (h.warn d))

theorem finishRefresh_aside (path : Path) (result : Except IndexError Bool)
    (remarks : List Diagnostic) (h : Host) :
    h.store.Aside (finishRefresh path result remarks h).1.store := by
  unfold finishRefresh
  split
  · exact .refl _
  · split
    · exact .refl _
    · exact h.warn_aside remarks

/-- A watch joins, is covered, or waits, and changes nothing that counts; or it starts, and its root
is pending from then on. -/
theorem watch_cases (root : Path) (h : Host) :
    (h.store.Quiet (h.watch root).1.store ∧ (h.watch root).1.roots = h.roots ∧
        (h.watch root).2.duty? = none) ∨
      ∃ subsumed, h.roots.plan root = .start subsumed ∧
        Store.Quiet { h.store with nextGeneration := h.store.nextGeneration + 1 }
          (h.watch root).1.store ∧
        (h.watch root).1.roots = h.roots.reserve root h.store.nextGeneration ∧
        (h.watch root).2 = .waiting (.looking root h.store.nextGeneration) := by
  unfold watch
  split
  · exact Or.inl ⟨Store.quiet_log _ _, rfl, rfl⟩
  · exact Or.inl ⟨Store.quiet_log _ _, rfl, rfl⟩
  · exact Or.inl ⟨Store.quiet_log _ _, rfl, rfl⟩
  next subsumed planned =>
    refine Or.inr ⟨subsumed, planned, ?_⟩
    have released := foldl_keeps
      (f := fun h r => (h.log (line .debug "subsumed" (r.display ++ " by " ++ root.display))).update
          (·.releaseRoot r))
      (fun h r => ⟨(Store.quiet_log _ _).trans (Store.quiet_releaseRoot _ _), rfl⟩)
      { store := { h.store with nextGeneration := h.store.nextGeneration + 1 }
        roots := h.roots.reserve root h.store.nextGeneration } subsumed
    exact ⟨released.1, released.2, rfl⟩

/-- A refresh that has something to do works in the generation of the root that covers it. -/
theorem refresh_cases (policy : Policy) (path : Path) (h : Host) :
    (h.refresh policy path).1.roots = h.roots ∧
      h.store.Quiet (h.refresh policy path).1.store ∧
      ∀ d, (h.refresh policy path).2.duty? = some d →
        ∃ g, h.roots.generationFor path = some g ∧ d = .refresh path g := by
  unfold refresh
  split
  · exact ⟨rfl, Store.quiet_log _ _, fun d absurd => by cases absurd⟩
  next g found =>
    unfold Crawl.Context.refresh
    split
    · unfold Crawl.Context.addEntry
      split
      · have finished := finishRefresh_keeps path (.ok false) [] h
        exact ⟨finished.2, finished.1, fun d absurd => by cases absurd⟩
      · refine ⟨rfl, .refl _, fun d duty => ⟨g, found, ?_⟩⟩
        exact (Option.some.inj duty).symm
    · have finished := finishRefresh_keeps path (.ok false) []
        { h with store := h.store.log (Crawl.line "outside index" path) }
      exact ⟨finished.2, (Store.quiet_log _ _).trans finished.1, fun d absurd => by cases absurd⟩

/-- What a watch does when its crawl has moved. -/
theorem resumeWatch_cases (policy : Policy) (root : Path) (g : Generation) (h : Host)
    (r : Scope × Crawl.Progress) (edits : Edits (firstCrawl policy g) h.store r.1.store) :
    Edits (firstCrawl policy g) h.store (resumeWatch root g h.roots r).1.store ∧
      (((resumeWatch root g h.roots r).2.duty? = some (.crawl root g) ∧
          (resumeWatch root g h.roots r).1.roots = h.roots) ∨
        ((∃ reply, (resumeWatch root g h.roots r).2 = .finished reply) ∧
          ∃ ok, (resumeWatch root g h.roots r).1.roots =
            (h.roots.settle root g (ok && h.store.isLive g)).1.announce g ok)) := by
  obtain ⟨s, progress⟩ := r
  cases progress with
  | waiting task => exact ⟨edits, Or.inl ⟨rfl, rfl⟩⟩
  | finished result =>
    obtain ⟨quiet, roots⟩ := finishWatch_keeps root g result s.remarks ⟨s.store, h.roots⟩
    refine ⟨edits.tail (.quiet quiet), Or.inr ⟨⟨_, rfl⟩, result.isOk, ?_⟩⟩
    have live : s.store.isLive g = h.store.isLive g := by
      simp [Store.isLive, edits.isStale]
    exact live ▸ roots

theorem resumeRefresh_cases (policy : Policy) (path : Path) (g : Generation) (h : Host)
    (r : Scope × Crawl.Progress) (edits : Edits (refreshCrawl policy g) h.store r.1.store) :
    Edits (refreshCrawl policy g) h.store (resumeRefresh path g h.roots r).1.store ∧
      (resumeRefresh path g h.roots r).1.roots = h.roots ∧
      ((resumeRefresh path g h.roots r).2.duty? = some (.refresh path g) ∨
        ∃ reply, (resumeRefresh path g h.roots r).2 = .finished reply) := by
  obtain ⟨s, progress⟩ := r
  cases progress with
  | waiting task => exact ⟨edits, rfl, Or.inl rfl⟩
  | finished result =>
    have finished := finishRefresh_keeps path result s.remarks ⟨s.store, h.roots⟩
    exact ⟨edits.tail (.quiet finished.1), finished.2, Or.inr ⟨_, rfl⟩⟩

/-- A watch that fails before its crawl settles its root as failed. -/
theorem failWatch_cases (policy : Policy) (root : Path) (g : Generation) (e : IndexError)
    (h : Host) :
    Edits (firstCrawl policy g) h.store (h.failWatch root g e).1.store ∧
      (∃ reply, (h.failWatch root g e).2 = .finished reply) ∧
      ∃ ok, (h.failWatch root g e).1.roots =
        (h.roots.settle root g (ok && h.store.isLive g)).1.announce g ok := by
  obtain ⟨quiet, settled⟩ := finishWatch_keeps root g (.error e) [] h
  exact ⟨.quiet quiet, ⟨_, rfl⟩, _, settled⟩

end Host

namespace Call

/-- A request that waits for others stays as it is, ends, or is made anew. -/
theorem step_idle {call : Call} (idle : call.duty? = none) (policy : Policy) (world : World)
    (schedule : List Nat) (h : Host) :
    ((call.step policy world schedule h).1 = h ∧
        (call.step policy world schedule h).2.duty? = none) ∨
      ∃ root, call.step policy world schedule h = h.watch root := by
  cases call with
  | joining root g =>
    unfold step
    dsimp only
    split <;> exact Or.inl ⟨rfl, rfl⟩
  | draining root below =>
    unfold step
    dsimp only
    split
    · exact Or.inr ⟨root, rfl⟩
    · exact Or.inl ⟨rfl, rfl⟩
  | looking | opening | crawling | refreshing => simp [duty?] at idle

/-- A request that works edits the store in its own generation and goes on with the same work, or
ends; the end of a first crawl settles its root. -/
theorem step_working {call : Call} {d : Duty} (working : call.duty? = some d) (policy : Policy)
    (world : World) (schedule : List Nat) (h : Host) :
    Edits (d.context policy) h.store (call.step policy world schedule h).1.store ∧
      (((call.step policy world schedule h).2.duty? = some d ∧
          (call.step policy world schedule h).1.roots = h.roots) ∨
        ((∃ reply, (call.step policy world schedule h).2 = .finished reply) ∧
          match d with
          | .crawl root g => ∃ ok, (call.step policy world schedule h).1.roots =
              (h.roots.settle root g (ok && h.store.isLive g)).1.announce g ok
          | .refresh _ _ => (call.step policy world schedule h).1.roots = h.roots)) := by
  cases call with
  | joining | draining => cases working
  | looking root g =>
    obtain rfl := Option.some.inj working
    have failed := fun e => h.failWatch_cases policy root g e
    unfold step
    dsimp only
    split
    · exact ⟨(failed _).1, Or.inr (failed _).2⟩
    · split
      · exact ⟨.quiet (Store.quiet_askRoot _ _), Or.inl ⟨rfl, rfl⟩⟩
      · exact ⟨(failed _).1, Or.inr (failed _).2⟩
  | opening root g status =>
    obtain rfl := Option.some.inj working
    have failed := fun e => h.failWatch_cases policy root g e
    unfold step
    dsimp only
    split
    · exact ⟨(failed _).1, Or.inr (failed _).2⟩
    · apply Host.resumeWatch_cases policy root g h
      refine .trans ?_ (Crawl.edits_addDirectory root status _)
      exact Edits.quiet (Store.quiet_rootTaken _ _)
  | crawling root g task remarks =>
    obtain rfl := Option.some.inj working
    exact Host.resumeWatch_cases policy root g h _
      (Crawl.Task.step_moves (firstCrawl policy g) world schedule task ⟨h.store, remarks⟩).edits
  | refreshing path g task remarks =>
    obtain rfl := Option.some.inj working
    obtain ⟨edits, roots, goesOn⟩ := Host.resumeRefresh_cases policy path g h _
      (Crawl.Task.step_moves (refreshCrawl policy g) world schedule task ⟨h.store, remarks⟩).edits
    exact ⟨edits, goesOn.imp (⟨·, roots⟩) (⟨·, roots⟩)⟩

end Call

namespace Host

/-- Withdrawing a root evicts it and cancels the generations that end with it, and is quiet otherwise. -/
theorem forget_quiet (root : Path) (ended : List Generation) (s : Store) :
    Store.Quiet
      { s with index := (s.index.evict root).1, cancelled := ended.reverse ++ s.cancelled }
      (forget root ended s) := by
  let cancelled : Store := { s with cancelled := ended.reverse ++ s.cancelled }
  have closed := cancelled.quiet_closeRoot root
  have left : Store.Quiet ((cancelled.closeRoot root).evict root).1 (forget root ended s) := by
    unfold forget
    rw [Store.foldl_cancel]
    exact Store.quiet_log _ _
  refine .trans ?_ (((cancelled.closeRoot root).quiet_evict root).trans left)
  exact ⟨by rw [closed.index], closed.notices, closed.cancelled, closed.nextGeneration⟩

end Host

namespace System

/-- What the request with this number works on. -/
def dutyAt (s : System) (i : Nat) : Option Duty :=
  s.calls[i]?.bind Progress.duty?

theorem dutyAt_append (host : Host) (calls : List Progress) (p : Progress) (j : Nat) :
    dutyAt ⟨host, calls ++ [p]⟩ j =
      if j = calls.length then p.duty? else calls[j]?.bind Progress.duty? := by
  unfold dutyAt
  by_cases last : j = calls.length
  · simp [last]
  · rw [if_neg last, List.getElem?_append]
    split
    · rfl
    next later =>
      have beyond : ¬ j - calls.length = 0 := by omega
      simp [List.getElem?_eq_none (Nat.le_of_not_lt later), beyond]

theorem dutyAt_set (host : Host) {calls : List Progress} {i : Nat} (within : i < calls.length)
    (p : Progress) (j : Nat) :
    dutyAt ⟨host, calls.set i p⟩ j = if j = i then p.duty? else calls[j]?.bind Progress.duty? := by
  unfold dutyAt
  by_cases same : j = i
  · simp [same, within]
  · simp [same, List.getElem?_set_ne (Ne.symm same)]

/-- The ways in which a move changes the roots, the work under way and the generations. -/
inductive Shift (s t : System) : Prop where
  | same (roots : t.host.roots = s.host.roots) (duties : ∀ j, t.dutyAt j = s.dutyAt j)
      (next : t.host.store.nextGeneration = s.host.store.nextGeneration)
      (cancelled : t.host.store.cancelled = s.host.store.cancelled)
  | refreshStarted (i : Nat) (path : Path) (g : Generation)
      (covered : s.host.roots.generationFor path = some g) (free : s.dutyAt i = none)
      (roots : t.host.roots = s.host.roots)
      (duties : ∀ j, t.dutyAt j = if j = i then some (.refresh path g) else s.dutyAt j)
      (next : t.host.store.nextGeneration = s.host.store.nextGeneration)
      (cancelled : t.host.store.cancelled = s.host.store.cancelled)
  | refreshEnded (i : Nat) (path : Path) (g : Generation)
      (working : s.dutyAt i = some (.refresh path g)) (roots : t.host.roots = s.host.roots)
      (duties : ∀ j, t.dutyAt j = if j = i then none else s.dutyAt j)
      (next : t.host.store.nextGeneration = s.host.store.nextGeneration)
      (cancelled : t.host.store.cancelled = s.host.store.cancelled)
  | crawlStarted (i : Nat) (root : Path) (subsumed : List Path)
      (planned : s.host.roots.plan root = .start subsumed) (free : s.dutyAt i = none)
      (roots : t.host.roots = s.host.roots.reserve root s.host.store.nextGeneration)
      (duties : ∀ j, t.dutyAt j =
        if j = i then some (.crawl root s.host.store.nextGeneration) else s.dutyAt j)
      (next : t.host.store.nextGeneration = s.host.store.nextGeneration + 1)
      (cancelled : t.host.store.cancelled = s.host.store.cancelled)
  | crawlEnded (i : Nat) (root : Path) (g : Generation) (ok : Bool)
      (working : s.dutyAt i = some (.crawl root g))
      (roots : t.host.roots =
        (s.host.roots.settle root g (ok && s.host.store.isLive g)).1.announce g ok)
      (duties : ∀ j, t.dutyAt j = if j = i then none else s.dutyAt j)
      (next : t.host.store.nextGeneration = s.host.store.nextGeneration)
      (cancelled : t.host.store.cancelled = s.host.store.cancelled)
  | withdrawn (root : Path) (roots : t.host.roots = (s.host.roots.withdraw root).1)
      (duties : ∀ j, t.dutyAt j = s.dutyAt j)
      (next : t.host.store.nextGeneration = s.host.store.nextGeneration)
      (cancelled : t.host.store.cancelled =
        (s.host.roots.withdraw root).2.reverse ++ s.host.store.cancelled)

/-- A watch that somebody makes takes the free place `i`. -/
private theorem shift_watch (s : System) (root : Path) (t : System) (i : Nat)
    (free : s.dutyAt i = none) (host : t.host = (s.host.watch root).1)
    (duties : ∀ j, t.dutyAt j =
      if j = i then (s.host.watch root).2.duty? else s.dutyAt j) : Shift s t := by
  rcases s.host.watch_cases root with ⟨quiet, roots, idle⟩ | ⟨subsumed, planned, quiet, roots, starts⟩
  · refine .same (by rw [host, roots]) (fun j => ?_) (by rw [host, quiet.nextGeneration])
      (by rw [host, quiet.cancelled])
    rw [duties j]
    split
    next same => rw [idle, same, free]
    · rfl
  · refine .crawlStarted i root subsumed planned free (by rw [host, roots]) (fun j => ?_)
      (by rw [host, quiet.nextGeneration]) (by rw [host, quiet.cancelled])
    rw [duties j, starts]
    rfl

/-- Every move is one of these shifts. -/
theorem step_shift (policy : Policy) (s : System) (move : Move) : Shift s (s.step policy move) := by
  have fresh : s.dutyAt s.calls.length = none := by simp [dutyAt]
  cases move with
  | watch root => exact shift_watch s root _ _ fresh rfl (dutyAt_append _ _ _)
  | refresh path =>
    obtain ⟨roots, quiet, duty⟩ := s.host.refresh_cases policy path
    have duties := dutyAt_append (s.host.refresh policy path).1 s.calls
      (s.host.refresh policy path).2
    cases found : (s.host.refresh policy path).2.duty? with
    | none =>
      refine .same roots (fun j => ?_) quiet.nextGeneration quiet.cancelled
      rw [step, duties j, found]
      split
      next same => rw [same, fresh]
      · rfl
    | some d =>
      obtain ⟨g, covered, rfl⟩ := duty d found
      exact .refreshStarted _ path g covered fresh roots (found ▸ duties) quiet.nextGeneration
        quiet.cancelled
  | unwatch root =>
    dsimp only [step, Host.unwatch]
    split
    · exact .same rfl (fun j => rfl) rfl rfl
    next roots ended _ withdrawn =>
      have quiet := Host.forget_quiet root ended s.host.store
      refine .withdrawn root ?_ (fun j => rfl) quiet.nextGeneration ?_
      · exact (congrArg Prod.fst withdrawn).symm
      · rw [withdrawn]
        exact quiet.cancelled
  | resume i world schedule =>
    dsimp only [step]
    split
    next call found =>
      have within : i < s.calls.length := (List.getElem?_eq_some_iff.1 found).1
      have duties := dutyAt_set (call.step policy world schedule s.host).1 within
        (call.step policy world schedule s.host).2
      have before : s.dutyAt i = call.duty? := by simp [dutyAt, found, Progress.duty?]
      cases working : call.duty? with
      | none =>
        rcases Call.step_idle working policy world schedule s.host with ⟨host, idle⟩ | ⟨root, again⟩
        · refine .same (by rw [host]) (fun j => ?_) (by rw [host]) (by rw [host])
          rw [duties j, idle]
          split
          next same => rw [same, before, working]
          · rfl
        · rw [again] at duties ⊢
          exact shift_watch s root _ i (before.trans working) rfl duties
      | some d =>
        obtain ⟨edits, outcome⟩ := Call.step_working working policy world schedule s.host
        obtain ⟨cancelled, next⟩ := edits.generations
        rcases outcome with ⟨goesOn, roots⟩ | ⟨⟨reply, finished⟩, roots⟩
        · refine .same roots (fun j => ?_) next cancelled
          rw [duties j, goesOn]
          split
          next same => rw [same, before, working]
          · rfl
        · rw [show (call.step policy world schedule s.host).2.duty? = none by rw [finished]; rfl]
            at duties
          cases d with
          | refresh path g =>
            exact .refreshEnded i path g (before.trans working) roots duties next cancelled
          | crawl root g =>
            obtain ⟨ok, settled⟩ := roots
            exact .crawlEnded i root g ok (before.trans working) settled duties next cancelled
    · exact .same rfl (fun j => rfl) rfl rfl

end System

end ProjectIndex.Watch
