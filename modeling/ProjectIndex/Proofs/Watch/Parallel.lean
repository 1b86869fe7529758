import ProjectIndex.Proofs.Runs
import ProjectIndex.Proofs.Watch.Withdrawal

/-!
# Requests on several threads

In a `System` a withdrawal is one move, and so is the end of a first crawl together with the
settlement of its root.  On several threads their sections are moves of their own.  A withdrawal
reads the table of roots under its lock and gives the lock back; then it cancels the generations it
has found, one after the other; then it closes its root and evicts what is below.  A first crawl
ends, and later its root is settled.

A settlement asks whether its generation is cancelled, and a withdrawal that has found the root
pending may not have come to that yet.  The root is then active in a generation that is cancelled
soon after, and it stays so: no later section takes it out, every watch below it is covered, and
every refresh below it is refused.  This is the only way to such a root.
-/

namespace ProjectIndex.Watch

open Std
open Crawl (Edits Task)

/-- A request on a thread of its own, between two of its sections. -/
inductive Thread where
  /-- A watch or a refresh that waits, or its answer. -/
  | request (progress : Progress)
  /-- A watch whose crawl has ended and whose root is not settled yet. -/
  | settling (root : Path) (generation : Generation) (result : Except IndexError Bool)
      (remarks : List Diagnostic)
  /-- A withdrawal that has given the lock back, with the generations it has yet to cancel. -/
  | withdrawing (root : Path) (uncancelled : List Generation)
  /-- A withdrawal that has returned. -/
  | withdrawn (found : Bool)

namespace Host

/-- The section of a withdrawal that holds the lock. -/
def beginUnwatch (root : Path) (h : Host) : Host × Thread :=
  match h.roots.withdraw root with
  | (_, []) => (h, .withdrawn false)
  | (roots, ended) => ({ h with roots }, .withdrawing root ended)

/-- Where the first crawl of a root stands, which is not settled here. -/
def pauseWatch (root : Path) (g : Generation) (roots : Roots) :
    Scope × Crawl.Progress → Host × Thread
  | (s, .waiting task) => (⟨s.store, roots⟩, .request (.waiting (.crawling root g task s.remarks)))
  | (s, .finished result) => (⟨s.store, roots⟩, .settling root g result s.remarks)

end Host

/-- The end of one wait.  Where it is the end of a first crawl, the settlement is left for later. -/
def Call.advance (policy : Policy) (world : World) (schedule : List Nat) (call : Call) (h : Host) :
    Host × Thread :=
  match call with
  | .looking root g =>
    match world.stat root with
    | .error cause =>
      (h, .settling root g
        (.error (if cause.isNotFound then .notFound root.spelling else .io root.spelling cause)) [])
    | .ok status =>
      if status.kind = Kind.directory then
        (h.update (·.askRoot root), .request (.waiting (.opening root g status)))
      else (h, .settling root g (.error (.notADirectory root.spelling)) [])
  | .opening root g status =>
    match world.openRoot root with
    | .error e => (h, .settling root g (.error (.watch e)) [])
    | .ok () =>
      Host.pauseWatch root g h.roots
        ((firstCrawl policy g).addDirectory root status { store := h.store.rootTaken root })
  | .crawling root g task remarks =>
    Host.pauseWatch root g h.roots
      (task.step (firstCrawl policy g) world schedule ⟨h.store, remarks⟩)
  | .joining _ _ | .draining _ _ | .refreshing _ _ _ _ =>
    let (h, progress) := call.step policy world schedule h
    (h, .request progress)

namespace Thread

def settle (h : Host) : Thread → Host × Thread
  | .settling root g result remarks =>
    let (h, reply) := Host.finishWatch root g result remarks h
    (h, .request (.finished (.watched reply)))
  | thread => (h, thread)

/-- The next section of a thread.  One that has returned stays as it is. -/
def resume (policy : Policy) (world : World) (schedule : List Nat) (h : Host) (thread : Thread) :
    Host × Thread :=
  match thread with
  | .request (.waiting call) => call.advance policy world schedule h
  | .settling _ _ _ _ => thread.settle h
  | .withdrawing root (g :: uncancelled) =>
    (h.update (·.cancel g), .withdrawing root uncancelled)
  | .withdrawing root [] => (h.update (Host.forget root []), .withdrawn true)
  | .request (.finished _) | .withdrawn _ => (h, thread)

def uncancelled : Thread → List Generation
  | .withdrawing _ uncancelled => uncancelled
  | _ => []

/-- A withdrawal that has not returned. -/
def isWithdrawing : Thread → Bool
  | .withdrawing _ _ => true
  | _ => false

/-- The first crawl that a thread has begun and not settled, as a request that waits; any other
thread as a request that has ended. -/
def shadow : Thread → Progress
  | .request progress =>
    match progress.duty? with
    | some (.crawl root g) => .waiting (.looking root g)
    | _ => .finished (.watched (.ok ()))
  | .settling root g _ _ => .waiting (.looking root g)
  | _ => .finished (.watched (.ok ()))

theorem uncancelled_of_returned {thread : Thread} (returned : thread.isWithdrawing = false) :
    thread.uncancelled = [] := by
  cases thread with
  | withdrawing => cases returned
  | request | settling | withdrawn => rfl

theorem shadow_request_of_none {p : Progress} (idle : p.duty? = none) :
    (Thread.request p).shadow.duty? = none := by
  rw [shadow, idle]
  rfl

theorem shadow_request_of_refresh {p : Progress} {path : Path} {g : Generation}
    (working : p.duty? = some (.refresh path g)) : (Thread.request p).shadow.duty? = none := by
  rw [shadow, working]
  rfl

theorem shadow_request_of_crawl {p : Progress} {root : Path} {g : Generation}
    (working : p.duty? = some (.crawl root g)) :
    (Thread.request p).shadow.duty? = some (.crawl root g) := by
  rw [shadow, working]
  rfl

end Thread

/-- A first crawl that ends and is settled at once ends as it does in one move, and so does every
other wait. -/
theorem Call.settle_advance (policy : Policy) (world : World) (schedule : List Nat) (call : Call)
    (h : Host) :
    (call.advance policy world schedule h).2.settle (call.advance policy world schedule h).1 =
      ((call.step policy world schedule h).1, .request (call.step policy world schedule h).2) := by
  have paused : ∀ root g (r : Scope × Crawl.Progress),
      (Host.pauseWatch root g h.roots r).2.settle (Host.pauseWatch root g h.roots r).1 =
        ((Host.resumeWatch root g h.roots r).1, .request (Host.resumeWatch root g h.roots r).2) := by
    rintro root g ⟨s, task | result⟩ <;> rfl
  cases call with
  | joining | draining | refreshing => rfl
  | looking root g =>
    dsimp only [advance, step]
    cases world.stat root with
    | error cause => rfl
    | ok status =>
      dsimp only
      by_cases directory : status.kind = Kind.directory
      · simp only [if_pos directory, Thread.settle]
      · simp only [if_neg directory, Thread.settle, Host.failWatch]
  | opening root g status =>
    dsimp only [advance, step]
    cases world.openRoot root with
    | error e => rfl
    | ok => exact paused root g _
  | crawling root g task remarks => exact paused root g _

/-- A withdrawal goes on to cancel what it has found, and then to its end. -/
theorem Thread.resume_withdrawing (policy : Policy) (world : World) (schedule : List Nat)
    (root : Path) (ended : List Generation) (h : Host) :
    (fun at_ : Host × Thread => at_.2.resume policy world schedule at_.1)^[ended.length + 1]
        (h, .withdrawing root ended) =
      (h.update (Host.forget root ended), .withdrawn true) := by
  induction ended generalizing h with
  | nil => rfl
  | cons g rest ih => exact ih (h.update (·.cancel g))

/-- A withdrawal whose sections follow one another without a break is the withdrawal in one move. -/
theorem Host.unwatch_eq_sections (policy : Policy) (world : World) (schedule : List Nat)
    (root : Path) (h : Host) :
    ∃ n, (fun at_ : Host × Thread => at_.2.resume policy world schedule at_.1)^[n]
        (h.beginUnwatch root) =
      ((h.unwatch root).1, .withdrawn (h.unwatch root).2) := by
  obtain ⟨roots, ended, withdrawn⟩ : ∃ roots ended, h.roots.withdraw root = (roots, ended) :=
    ⟨_, _, rfl⟩
  unfold beginUnwatch unwatch
  rw [withdrawn]
  cases ended with
  | nil => exact ⟨0, rfl⟩
  | cons g rest =>
    exact ⟨_, Thread.resume_withdrawing policy world schedule root (g :: rest) ⟨h.store, roots⟩⟩

/-- The crawl of a root moves its thread on, and nothing else that counts here. -/
theorem Host.pauseWatch_keeps (policy : Policy) (root : Path) (g : Generation) (h : Host)
    (r : Scope × Crawl.Progress) (edits : Edits (firstCrawl policy g) h.store r.1.store) :
    Edits (firstCrawl policy g) h.store (Host.pauseWatch root g h.roots r).1.store ∧
      (Host.pauseWatch root g h.roots r).1.roots = h.roots ∧
      (Host.pauseWatch root g h.roots r).2.shadow.duty? = some (.crawl root g) ∧
      (Host.pauseWatch root g h.roots r).2.uncancelled = [] := by
  obtain ⟨s, task | result⟩ := r
  · exact ⟨edits, rfl, rfl, rfl⟩
  · exact ⟨edits, rfl, rfl, rfl⟩

/-- A first crawl that goes on edits the store in its own generation, and its root stays pending
even when it ends. -/
theorem Call.advance_crawl {call : Call} {root : Path} {g : Generation}
    (working : call.duty? = some (.crawl root g)) (policy : Policy) (world : World)
    (schedule : List Nat) (h : Host) :
    Edits (firstCrawl policy g) h.store (call.advance policy world schedule h).1.store ∧
      (call.advance policy world schedule h).1.roots = h.roots ∧
      (call.advance policy world schedule h).2.shadow.duty? = some (.crawl root g) ∧
      (call.advance policy world schedule h).2.uncancelled = [] := by
  cases call with
  | joining | draining | refreshing => cases working
  | looking =>
    cases working
    unfold Call.advance
    dsimp only
    split
    · exact ⟨.quiet (.refl _), rfl, rfl, rfl⟩
    · split
      · exact ⟨.quiet (Store.quiet_askRoot _ _), rfl, rfl, rfl⟩
      · exact ⟨.quiet (.refl _), rfl, rfl, rfl⟩
  | opening root g status =>
    cases working
    unfold Call.advance
    dsimp only
    split
    · exact ⟨.quiet (.refl _), rfl, rfl, rfl⟩
    · apply Host.pauseWatch_keeps policy root g h
      refine .trans ?_ (Crawl.edits_addDirectory root status _)
      exact Edits.quiet (Store.quiet_rootTaken _ _)
  | crawling root g task remarks =>
    cases working
    apply Host.pauseWatch_keeps policy root g h
    exact (Crawl.Task.step_moves (firstCrawl policy g) world schedule task ⟨h.store, remarks⟩).edits

/-- A wait of any other kind ends as it does in one move. -/
theorem Call.advance_of_no_crawl {call : Call}
    (other : ∀ root g, call.duty? ≠ some (.crawl root g)) (policy : Policy) (world : World)
    (schedule : List Nat) (h : Host) :
    call.advance policy world schedule h =
      ((call.step policy world schedule h).1, .request (call.step policy world schedule h).2) := by
  cases call with
  | joining | draining | refreshing => rfl
  | looking root g | opening root g | crawling root g => exact absurd rfl (other root g)

/-- A path below an active root is refreshed in the generation of that root. -/
theorem Roots.Apart.generationFor_of_active {w : Roots} (apart : w.Apart) {r p : Path}
    {g : Generation} (active : w.active[r]? = some g) (covers : r.Covers p) :
    w.generationFor p = some g := by
  have held : r ∈ w.active := ExtTreeMap.mem_iff_isSome_getElem?.2 (Option.isSome_of_eq_some active)
  cases found : w.activeCovering p with
  | none => exact absurd covers (Roots.activeCovering_eq_none.1 found r held)
  | some entry =>
    obtain ⟨above, g'⟩ := entry
    obtain ⟨carried, reaches⟩ := Roots.activeCovering_eq_some found
    have other : above ∈ w.active :=
      ExtTreeMap.mem_iff_isSome_getElem?.2 (Option.isSome_of_eq_some carried)
    obtain rfl := apart.unique_cover (Or.inr other) (Or.inr held) reaches covers
    obtain rfl := Option.some.inj (carried.symm.trans active)
    simp [Roots.generationFor, found]

/-- A refresh is taken up exactly if its generation is live and the index knows the path, or the
directory it lies in. -/
theorem Host.refresh_waits_iff (policy : Policy) {h : Host} {p : Path} {g : Generation}
    (covered : h.roots.generationFor p = some g) :
    (∃ call, (h.refresh policy p).2 = .waiting call) ↔
      h.store.isStale g = false ∧ (h.store.index.knows p || h.store.index.knowsParent p) = true := by
  rw [Host.refresh, covered]
  dsimp only [Crawl.Context.refresh]
  split
  next known =>
    cases stale : h.store.isStale g with
    | true =>
      simp [Crawl.Context.addEntry, Crawl.Context.isStale, refreshCrawl, stale, resumeRefresh]
    | false =>
      simp [Crawl.Context.addEntry, Crawl.Context.isStale, refreshCrawl, stale, resumeRefresh, known]
  next unknown => simp [resumeRefresh, unknown]

/-- A host and the threads of all requests that were made. -/
structure Parallel where
  host : Host
  threads : List Thread := []

namespace Parallel

/-- Nobody has asked for anything. -/
def fresh (manifestName : Name) (style : Backend.Style) : Parallel where
  host := { store := .empty manifestName style }

def step (policy : Policy) (s : Parallel) : Move → Parallel
  | .watch root => ⟨(s.host.watch root).1, s.threads ++ [.request (s.host.watch root).2]⟩
  | .refresh path =>
    ⟨(s.host.refresh policy path).1, s.threads ++ [.request (s.host.refresh policy path).2]⟩
  | .unwatch root => ⟨(s.host.beginUnwatch root).1, s.threads ++ [(s.host.beginUnwatch root).2]⟩
  | .resume i world schedule =>
    match s.threads[i]? with
    | some thread =>
      ⟨(thread.resume policy world schedule s.host).1,
        s.threads.set i (thread.resume policy world schedule s.host).2⟩
    | none => s

def run (policy : Policy) (s : Parallel) (moves : List Move) : Parallel :=
  moves.foldl (step policy) s

theorem run_concat (policy : Policy) (s : Parallel) (moves : List Move) (move : Move) :
    s.run policy (moves ++ [move]) = (s.run policy moves).step policy move := by
  simp only [run, List.foldl_append, List.foldl_cons, List.foldl_nil]

/-- The first crawls that are begun and not settled, as requests of a system. -/
def crawls (s : Parallel) : System where
  host := s.host
  calls := s.threads.map Thread.shadow

def Collected (s : Parallel) (g : Generation) : Prop :=
  ∃ thread ∈ s.threads, g ∈ thread.uncancelled

/-- The generation is cancelled, or will be when the withdrawals return. -/
def Doomed (s : Parallel) (g : Generation) : Prop :=
  s.host.store.isStale g = true ∨ s.Collected g

theorem dutyAt_crawls_append (s : Parallel) (host : Host) (thread : Thread) (j : Nat) :
    (crawls ⟨host, s.threads ++ [thread]⟩).dutyAt j =
      if j = s.threads.length then thread.shadow.duty? else s.crawls.dutyAt j := by
  have appended := System.dutyAt_append host (s.threads.map Thread.shadow) thread.shadow j
  rw [List.length_map] at appended
  rw [crawls, List.map_append]
  exact appended

theorem dutyAt_crawls_set (s : Parallel) (host : Host) {i : Nat} {old : Thread}
    (found : s.threads[i]? = some old) (thread : Thread) (j : Nat) :
    (crawls ⟨host, s.threads.set i thread⟩).dutyAt j =
      if j = i then thread.shadow.duty? else s.crawls.dutyAt j := by
  have within : i < (s.threads.map Thread.shadow).length := by
    rw [List.length_map]
    exact (List.getElem?_eq_some_iff.1 found).1
  rw [crawls, List.map_set]
  exact System.dutyAt_set host within thread.shadow j

theorem collected_append (s : Parallel) (host : Host) (thread : Thread) (g : Generation) :
    Collected ⟨host, s.threads ++ [thread]⟩ g ↔ s.Collected g ∨ g ∈ thread.uncancelled := by
  simp only [Collected, List.mem_append, List.mem_singleton, or_and_right, exists_or,
    exists_eq_left]

/-- A thread that goes on takes its own generations along, and nobody else's. -/
theorem collected_set (s : Parallel) (host : Host) {i : Nat} {old : Thread}
    (found : s.threads[i]? = some old) (thread : Thread) (ended : List Generation)
    (goesOn : old.uncancelled = ended ++ thread.uncancelled) (g : Generation) :
    s.Collected g ↔ g ∈ ended ∨ Collected ⟨host, s.threads.set i thread⟩ g := by
  obtain ⟨within, here⟩ := List.getElem?_eq_some_iff.1 found
  have before : s.threads = s.threads.take i ++ old :: s.threads.drop (i + 1) := by
    simp [← here]
  have after : s.threads.set i thread = s.threads.take i ++ thread :: s.threads.drop (i + 1) := by
    rw [List.set_eq_take_append_cons_drop, if_pos within]
  simp only [Collected]
  rw [after]
  conv_lhs => rw [before]
  simp only [List.mem_append, List.mem_cons, or_and_right, exists_or, exists_eq_left, goesOn]
  rw [or_assoc, or_left_comm]

theorem dutyAt_crawls (s : Parallel) {i : Nat} {thread : Thread}
    (found : s.threads[i]? = some thread) : s.crawls.dutyAt i = thread.shadow.duty? := by
  simp only [crawls, System.dutyAt, List.getElem?_map, found, Option.map_some, Option.bind_some]

/-- A thread that goes on with the same first crawl, or with none. -/
theorem dutyAt_crawls_kept (s : Parallel) (host : Host) {i : Nat} {old thread : Thread}
    (found : s.threads[i]? = some old) (kept : thread.shadow.duty? = old.shadow.duty?) (j : Nat) :
    (crawls ⟨host, s.threads.set i thread⟩).dutyAt j = s.crawls.dutyAt j := by
  rw [s.dutyAt_crawls_set host found, kept, ← s.dutyAt_crawls found]
  split
  next same => rw [same]
  · rfl

/-- A thread that goes on without cancelling anything. -/
theorem collected_kept (s : Parallel) (host : Host) {i : Nat} {old thread : Thread}
    (found : s.threads[i]? = some old) (kept : thread.uncancelled = old.uncancelled)
    (g : Generation) : Collected ⟨host, s.threads.set i thread⟩ g ↔ s.Collected g := by
  rw [s.collected_set host found thread [] kept.symm]
  simp

/-- What is cancelled already and what is collected decide what is doomed. -/
theorem doomed_congr {s t : Parallel} (cancelled : t.host.store.cancelled = s.host.store.cancelled)
    (collected : ∀ g, t.Collected g ↔ s.Collected g) (g : Generation) :
    t.Doomed g ↔ s.Doomed g := by
  simp only [Doomed, Store.isStale, cancelled, collected]

/-- The ways in which a section changes the roots, the first crawls and the doomed generations. -/
inductive Shift (s t : Parallel) : Prop where
  | same (roots : t.host.roots = s.host.roots)
      (crawls : ∀ j, t.crawls.dutyAt j = s.crawls.dutyAt j)
      (next : t.host.store.nextGeneration = s.host.store.nextGeneration)
      (doomed : ∀ g, t.Doomed g ↔ s.Doomed g)
  | crawlStarted (i : Nat) (root : Path) (subsumed : List Path)
      (planned : s.host.roots.plan root = .start subsumed) (free : s.crawls.dutyAt i = none)
      (roots : t.host.roots = s.host.roots.reserve root s.host.store.nextGeneration)
      (crawls : ∀ j, t.crawls.dutyAt j =
        if j = i then some (.crawl root s.host.store.nextGeneration) else s.crawls.dutyAt j)
      (next : t.host.store.nextGeneration = s.host.store.nextGeneration + 1)
      (doomed : ∀ g, t.Doomed g ↔ s.Doomed g)
  | settled (i : Nat) (root : Path) (g : Generation) (ok : Bool)
      (working : s.crawls.dutyAt i = some (.crawl root g))
      (roots : t.host.roots =
        (s.host.roots.settle root g (ok && s.host.store.isLive g)).1.announce g ok)
      (crawls : ∀ j, t.crawls.dutyAt j = if j = i then none else s.crawls.dutyAt j)
      (next : t.host.store.nextGeneration = s.host.store.nextGeneration)
      (doomed : ∀ g, t.Doomed g ↔ s.Doomed g)
  | collected (root : Path) (roots : t.host.roots = (s.host.roots.withdraw root).1)
      (crawls : ∀ j, t.crawls.dutyAt j = s.crawls.dutyAt j)
      (next : t.host.store.nextGeneration = s.host.store.nextGeneration)
      (doomed : ∀ g, t.Doomed g ↔ s.Doomed g ∨ g ∈ (s.host.roots.withdraw root).2)

/-- A watch that somebody makes takes the free place `i`. -/
private theorem shift_planned (s : Parallel) (root : Path) (t : Parallel) (i : Nat)
    (free : s.crawls.dutyAt i = none) (host : t.host = (s.host.watch root).1)
    (crawls : ∀ j, t.crawls.dutyAt j =
      if j = i then (Thread.request (s.host.watch root).2).shadow.duty? else s.crawls.dutyAt j)
    (collected : ∀ g, t.Collected g ↔ s.Collected g) : Shift s t := by
  rcases s.host.watch_cases root with ⟨quiet, roots, idle⟩ | ⟨subsumed, planned, quiet, roots, starts⟩
  · refine .same (by rw [host, roots]) (fun j => ?_) (by rw [host, quiet.nextGeneration])
      (doomed_congr (by rw [host, quiet.cancelled]) collected)
    rw [crawls j, Thread.shadow_request_of_none idle]
    split
    next same => rw [same, free]
    · rfl
  · refine .crawlStarted i root subsumed planned free (by rw [host, roots]) (fun j => ?_)
      (by rw [host, quiet.nextGeneration]) (doomed_congr (by rw [host, quiet.cancelled]) collected)
    rw [crawls j, Thread.shadow_request_of_crawl (by rw [starts]; rfl)]

/-- A thread goes on with what it works on. -/
private theorem shift_kept (s : Parallel) {i : Nat} {old thread : Thread} {host : Host}
    (found : s.threads[i]? = some old) (roots : host.roots = s.host.roots)
    (next : host.store.nextGeneration = s.host.store.nextGeneration)
    (cancelled : host.store.cancelled = s.host.store.cancelled)
    (shadow : thread.shadow.duty? = old.shadow.duty?)
    (uncancelled : thread.uncancelled = old.uncancelled) :
    Shift s ⟨host, s.threads.set i thread⟩ := by
  apply Shift.same roots
  · exact s.dutyAt_crawls_kept host found shadow
  · exact next
  · exact doomed_congr cancelled (s.collected_kept host found uncancelled)

/-- A request that waits goes on as far as its next section. -/
private theorem shift_advance (policy : Policy) (world : World) (schedule : List Nat) (s : Parallel)
    {i : Nat} {call : Call} (found : s.threads[i]? = some (.request (.waiting call))) :
    Shift s ⟨(call.advance policy world schedule s.host).1,
      s.threads.set i (call.advance policy world schedule s.host).2⟩ := by
  cases working : call.duty? with
  | none =>
    have idle : (Thread.request (.waiting call)).shadow.duty? = none :=
      Thread.shadow_request_of_none working
    rw [Call.advance_of_no_crawl (by simp [working])]
    rcases Call.step_idle working policy world schedule s.host with ⟨host, none⟩ | ⟨root, again⟩
    · rw [host]
      exact s.shift_kept found rfl rfl rfl ((Thread.shadow_request_of_none none).trans idle.symm) rfl
    · rw [again]
      apply s.shift_planned root _ i ((s.dutyAt_crawls found).trans idle) rfl
      · exact s.dutyAt_crawls_set _ found _
      · exact s.collected_kept _ found rfl
  | some d =>
    cases d with
    | crawl root g =>
      obtain ⟨edits, roots, goesOn, none⟩ := Call.advance_crawl working policy world schedule s.host
      obtain ⟨cancelled, next⟩ := edits.generations
      have crawls : (Thread.request (.waiting call)).shadow.duty? = some (.crawl root g) :=
        Thread.shadow_request_of_crawl working
      exact s.shift_kept found roots next cancelled (goesOn.trans crawls.symm) none
    | refresh path g =>
      have refreshes : (Thread.request (.waiting call)).shadow.duty? = none :=
        Thread.shadow_request_of_refresh working
      rw [Call.advance_of_no_crawl (by simp [working])]
      obtain ⟨edits, outcome⟩ := Call.step_working working policy world schedule s.host
      obtain ⟨cancelled, next⟩ := edits.generations
      rcases outcome with ⟨goesOn, roots⟩ | ⟨⟨reply, finished⟩, roots⟩
      · have still := Thread.shadow_request_of_refresh goesOn
        exact s.shift_kept found roots next cancelled (still.trans refreshes.symm) rfl
      · rw [finished]
        exact s.shift_kept found roots next cancelled refreshes.symm rfl

/-- A withdrawal reads the table of roots. -/
private theorem shift_read (s : Parallel) (root : Path) :
    Shift s ⟨(s.host.beginUnwatch root).1, s.threads ++ [(s.host.beginUnwatch root).2]⟩ := by
  obtain ⟨roots, ended, withdrawn⟩ : ∃ roots ended, s.host.roots.withdraw root = (roots, ended) :=
    ⟨_, _, rfl⟩
  have crawls : ∀ host (thread : Thread), thread.shadow.duty? = none →
      ∀ j, (crawls ⟨host, s.threads ++ [thread]⟩).dutyAt j = s.crawls.dutyAt j := by
    intro host thread idle j
    rw [s.dutyAt_crawls_append, idle]
    split
    next last => simp [last, Parallel.crawls, System.dutyAt]
    · rfl
  unfold Host.beginUnwatch
  rw [withdrawn]
  cases ended with
  | nil =>
    refine .same rfl (crawls _ _ rfl) rfl (doomed_congr rfl fun g => ?_)
    simp [s.collected_append, Thread.uncancelled]
  | cons first rest =>
    refine .collected root (by rw [withdrawn]) (crawls _ _ rfl) rfl fun g => ?_
    simp only [Doomed, s.collected_append, Thread.uncancelled, withdrawn, or_assoc]

/-- A thread goes on with its next section. -/
private theorem shift_resume (policy : Policy) (world : World) (schedule : List Nat) (s : Parallel)
    {i : Nat} {thread : Thread} (found : s.threads[i]? = some thread) :
    Shift s ⟨(thread.resume policy world schedule s.host).1,
      s.threads.set i (thread.resume policy world schedule s.host).2⟩ := by
  cases thread with
  | request progress =>
    cases progress with
    | waiting call => exact s.shift_advance policy world schedule found
    | finished reply => exact s.shift_kept found rfl rfl rfl rfl rfl
  | withdrawn known => exact s.shift_kept found rfl rfl rfl rfl rfl
  | settling root g result remarks =>
    obtain ⟨quiet, roots⟩ := Host.finishWatch_keeps root g result remarks s.host
    apply Shift.settled i root g result.isOk (s.dutyAt_crawls found) roots
    · exact s.dutyAt_crawls_set _ found _
    · exact quiet.nextGeneration
    · exact doomed_congr quiet.cancelled (s.collected_kept _ found rfl)
  | withdrawing root uncancelled =>
    cases uncancelled with
    | nil =>
      have quiet := Host.forget_quiet root [] s.host.store
      exact s.shift_kept found rfl quiet.nextGeneration quiet.cancelled rfl rfl
    | cons g rest =>
      refine .same rfl (s.dutyAt_crawls_kept _ found rfl) rfl fun g' => ?_
      have moved := s.collected_set (s.host.update (·.cancel g)) found (.withdrawing root rest) [g]
        rfl g'
      have cancelled : (s.host.store.cancel g).isStale g' = true ↔
          g' = g ∨ s.host.store.isStale g' = true := by
        simp [Store.isStale, Store.cancel]
      simp only [Doomed, moved, List.mem_singleton, Thread.resume, Host.update, cancelled]
      exact or_assoc.trans or_left_comm

/-- Every section is one of these shifts. -/
theorem step_shift (policy : Policy) (s : Parallel) (move : Move) : Shift s (s.step policy move) := by
  have free : s.crawls.dutyAt s.threads.length = none := by simp [crawls, System.dutyAt]
  cases move with
  | watch root =>
    apply s.shift_planned root _ _ free rfl (s.dutyAt_crawls_append _ _)
    intro g
    simp [s.collected_append, Thread.uncancelled]
  | refresh path =>
    obtain ⟨roots, quiet, duty⟩ := s.host.refresh_cases policy path
    have idle : (Thread.request (s.host.refresh policy path).2).shadow.duty? = none := by
      cases working : (s.host.refresh policy path).2.duty? with
      | none => exact Thread.shadow_request_of_none working
      | some d =>
        obtain ⟨g, _, rfl⟩ := duty d working
        exact Thread.shadow_request_of_refresh working
    refine .same roots (fun j => ?_) quiet.nextGeneration (doomed_congr quiet.cancelled fun g => ?_)
    · rw [step, s.dutyAt_crawls_append, idle]
      split
      next last => rw [last, free]
      · rfl
    · simp [step, s.collected_append, Thread.uncancelled]
  | unwatch root => exact s.shift_read root
  | resume i world schedule =>
    cases found : s.threads[i]? with
    | none =>
      have same : s.step policy (.resume i world schedule) = s := by simp only [step, found]
      rw [same]
      exact .same rfl (fun j => rfl) rfl (fun g => Iff.rfl)
    | some thread =>
      have stepped : s.step policy (.resume i world schedule) =
          ⟨(thread.resume policy world schedule s.host).1,
            s.threads.set i (thread.resume policy world schedule s.host).2⟩ := by
        simp only [step, found]
      rw [stepped]
      exact s.shift_resume policy world schedule found

/-- The roots do not nest, each is pending as long as its first crawl is not settled, and no two of
them carry one generation. -/
structure Kept (s : Parallel) : Prop where
  matched : s.crawls.Matched
  owned : s.crawls.Owned

theorem Kept.apart {s : Parallel} (kept : s.Kept) : s.host.roots.Apart :=
  kept.matched.apart

theorem kept_fresh (name : Name) (style : Backend.Style) : Kept (fresh name style) where
  matched := System.orderly_fresh name style
  owned := System.owned_fresh name style

/-- First crawls are no refreshes. -/
theorem dutyAt_crawls_ne_refresh (s : Parallel) (i : Nat) (path : Path) (g : Generation) :
    s.crawls.dutyAt i ≠ some (.refresh path g) := by
  intro working
  cases found : s.threads[i]? with
  | none => simp [crawls, System.dutyAt, found] at working
  | some thread =>
    rw [s.dutyAt_crawls found] at working
    unfold Thread.shadow at working
    split at working
    · split at working <;> cases working
    · cases working
    · cases working

theorem Kept.step {s : Parallel} (kept : s.Kept) (policy : Policy) (move : Move) :
    (s.step policy move).Kept := by
  obtain ⟨matched, owned⟩ := kept
  have noRefresh : ∀ j path g, (s.step policy move).crawls.dutyAt j = some (.refresh path g) →
      s.crawls.dutyAt j = some (.refresh path g) :=
    fun j path g working => absurd working (dutyAt_crawls_ne_refresh _ j path g)
  cases s.step_shift policy move with
  | same roots crawls next =>
    constructor
    · apply matched.of_same_crawls
      · exact roots ▸ matched.apart
      · exact congrArg Roots.pending roots
      · intro j root g
        rw [crawls j]
    · exact owned.of_fewer (fun r g => roots ▸ id) noRefresh next
  | crawlStarted i root subsumed planned free roots crawls next =>
    constructor
    · exact matched.crawl_started planned free roots crawls
    · exact owned.of_reserve roots noRefresh next
  | settled i root g ok working roots crawls next =>
    constructor
    · exact matched.crawl_ended working roots crawls
    · refine owned.of_fewer (fun r g' carries => ?_) noRefresh next
      rw [show (s.step policy move).crawls.host.roots = _ from roots] at carries
      exact carries.of_settle matched.apart (matched.pending i root g working)
  | collected root roots crawls next =>
    constructor
    · apply matched.of_same_crawls
      · exact roots ▸ matched.apart.withdraw root
      · exact (congrArg Roots.pending roots).trans rfl
      · intro j root g
        rw [crawls j]
    · refine owned.of_fewer (fun r g carries => ?_) noRefresh next
      rw [show (s.step policy move).crawls.host.roots = _ from roots] at carries
      exact carries.imp_right Roots.carried_of_erase

theorem kept_run (policy : Policy) (name : Name) (style : Backend.Style) (moves : List Move) :
    ((fresh name style).run policy moves).Kept := by
  induction moves using List.reverseRecOn with
  | nil => exact kept_fresh name style
  | append_singleton moves move ih =>
    rw [run_concat]
    exact ih.step policy move

/-- What is doomed stays so. -/
theorem Doomed.step {s : Parallel} {g : Generation} (doomed : s.Doomed g) (policy : Policy)
    (move : Move) : (s.step policy move).Doomed g := by
  cases s.step_shift policy move with
  | same _ _ _ kept | crawlStarted _ _ _ _ _ _ _ _ kept | settled _ _ _ _ _ _ _ _ kept =>
    exact (kept g).2 doomed
  | collected _ _ _ _ grows => exact (grows g).2 (Or.inl doomed)

/-- The section makes a root active whose generation a withdrawal has found and not cancelled. -/
structure SettlesLate (policy : Policy) (s : Parallel) (move : Move) (r : Path) (g : Generation) :
    Prop where
  pending : s.host.roots.pending[r]? = some g
  collected : s.Collected g
  active : (s.step policy move).host.roots.active[r]? = some g

/-- One of the sections so far was such a settlement. -/
def SettledLate (policy : Policy) (s : Parallel) (moves : List Move) (r : Path) (g : Generation) :
    Prop :=
  ∃ before move, before ++ [move] <+: moves ∧ (s.run policy before).SettlesLate policy move r g

theorem settledLate_concat {policy : Policy} {s : Parallel} {moves : List Move} {move : Move}
    {r : Path} {g : Generation} :
    SettledLate policy s (moves ++ [move]) r g ↔
      SettledLate policy s moves r g ∨ (s.run policy moves).SettlesLate policy move r g :=
  exists_prefix_concat

/-- A root that was settled late carries a doomed generation. -/
theorem SettledLate.doomed {policy : Policy} {s : Parallel} {moves : List Move} {r : Path}
    {g : Generation} (late : SettledLate policy s moves r g) : (s.run policy moves).Doomed g := by
  induction moves using List.reverseRecOn with
  | nil =>
    obtain ⟨before, move, within, _⟩ := late
    simp at within
  | append_singleton moves move ih =>
    rw [run_concat]
    rcases settledLate_concat.1 late with earlier | now
    · exact (ih earlier).step policy move
    · exact Doomed.step (Or.inr now.collected) policy move

/-- A settlement makes its own root active, if it is wanted, and no other one. -/
theorem Kept.settle_active {s : Parallel} (kept : s.Kept) {root : Path} {g : Generation}
    (pending : root ∈ s.host.roots.pending) (wanted ok : Bool) (r : Path) :
    ((s.host.roots.settle root g wanted).1.announce g ok).active[r]? =
      if wanted = true ∧ root = r then some g else s.host.roots.active[r]? := by
  rw [kept.apart.settlement pending]
  cases wanted <;> simp [Roots.announce, ExtTreeMap.getElem?_insert]

/-- The generation of an active root does not end with another root. -/
theorem Kept.not_mem_withdraw {s : Parallel} (kept : s.Kept) {root r : Path} {g : Generation}
    (active : s.host.roots.active[r]? = some g) (other : root ≠ r) :
    g ∉ (s.host.roots.withdraw root).2 := by
  intro found
  rcases Roots.mem_withdraw.1 found with ⟨below, pending, _⟩ | own
  · obtain rfl := kept.owned.one below r g (Or.inl pending) (Or.inr active)
    apply kept.apart.disjoint below
    · exact ExtTreeMap.mem_iff_isSome_getElem?.2 (Option.isSome_of_eq_some pending)
    · exact ExtTreeMap.mem_iff_isSome_getElem?.2 (Option.isSome_of_eq_some active)
  · exact other (kept.owned.one root r g (Or.inr own) (Or.inr active))

/-- A section that leaves a root active in a doomed generation has found it so, or settles late: the
settlement asked whether the generation was cancelled, and it was not yet. -/
theorem Kept.doomed_before {s : Parallel} (kept : s.Kept) {policy : Policy} {move : Move} {r : Path}
    {g : Generation} (active : (s.step policy move).host.roots.active[r]? = some g)
    (doomed : (s.step policy move).Doomed g) :
    (s.host.roots.active[r]? = some g ∧ s.Doomed g) ∨ s.SettlesLate policy move r g := by
  have after := active
  cases s.step_shift policy move with
  | same roots _ _ same => exact Or.inl ⟨roots ▸ active, (same g).1 doomed⟩
  | crawlStarted _ root _ _ _ roots _ _ same =>
    rw [roots, Roots.reserve_active] at active
    split at active
    · cases active
    · exact Or.inl ⟨active, (same g).1 doomed⟩
  | collected root roots _ _ grows =>
    rw [roots] at active
    have before : s.host.roots.active[r]? = some g := Roots.carried_of_erase active
    have other : root ≠ r := by
      rintro rfl
      simp [Roots.withdraw] at active
    exact Or.inl ⟨before, ((grows g).1 doomed).resolve_right (kept.not_mem_withdraw before other)⟩
  | settled i root g' ok working roots _ _ same =>
    rw [roots, kept.settle_active (kept.matched.mem_pending working)] at active
    split at active
    next own =>
      obtain ⟨wanted, rfl⟩ := own
      obtain rfl := Option.some.inj active
      refine Or.inr ⟨kept.matched.pending i root g' working, ?_, after⟩
      have live := (Bool.and_eq_true_iff.1 wanted).2
      apply ((same g').1 doomed).resolve_left
      simpa [Store.isLive] using live
    · exact Or.inl ⟨active, (same g).1 doomed⟩

/-- An active root carries a doomed generation exactly if it was settled late. -/
theorem active_doomed_iff (policy : Policy) (name : Name) (style : Backend.Style)
    (moves : List Move) {r : Path} {g : Generation}
    (active : ((fresh name style).run policy moves).host.roots.active[r]? = some g) :
    ((fresh name style).run policy moves).Doomed g ↔
      SettledLate policy (fresh name style) moves r g := by
  refine ⟨?_, SettledLate.doomed⟩
  induction moves using List.reverseRecOn with
  | nil => simp [run, fresh] at active
  | append_singleton moves move ih =>
    intro doomed
    rw [run_concat] at active doomed
    rw [settledLate_concat]
    rcases (kept_run policy name style moves).doomed_before active doomed with ⟨before, early⟩ | late
    · exact Or.inl (ih before early)
    · exact Or.inr late

/-- Whatever requests are made on however many threads, and in whatever order their sections follow
one another: when every withdrawal has returned, an active root carries a cancelled generation
exactly if it was settled after a withdrawal had found it pending and before that withdrawal had
cancelled its generation.  A refresh below an active root runs in its generation, and it is taken up
exactly if the root was not settled late and the index knows the path or the directory it lies
in. -/
theorem active_roots_live_unless_settled_late (policy : Policy) (name : Name)
    (style : Backend.Style) (moves : List Move)
    (returned : ∀ thread ∈ ((fresh name style).run policy moves).threads,
      thread.isWithdrawing = false) :
    let s := (fresh name style).run policy moves
    ∀ r g, s.host.roots.active[r]? = some g →
      (s.host.store.isStale g = true ↔ SettledLate policy (fresh name style) moves r g) ∧
      ∀ p, r.Covers p →
        s.host.roots.generationFor p = some g ∧
        ((∃ call, (s.host.refresh policy p).2 = .waiting call) ↔
          ¬ SettledLate policy (fresh name style) moves r g ∧
            (s.host.store.index.knows p || s.host.store.index.knowsParent p) = true) := by
  intro s r g active
  have none : ¬ s.Collected g := by
    rintro ⟨thread, member, found⟩
    rw [Thread.uncancelled_of_returned (returned thread member)] at found
    cases found
  have late : s.host.store.isStale g = true ↔ SettledLate policy (fresh name style) moves r g := by
    rw [← active_doomed_iff policy name style moves active]
    exact (or_iff_left none).symm
  refine ⟨late, fun p covers => ?_⟩
  have covered := (kept_run policy name style moves).apart.generationFor_of_active active covers
  refine ⟨covered, ?_⟩
  rw [Host.refresh_waits_iff policy covered, ← late, Bool.not_eq_true]

/-- The first crawl of `/a` has ended, a withdrawal of `/a` gives the lock back, `/a` is settled, and
the withdrawal goes on to its end. -/
def settledBetween : List Move :=
  [.watch ⟨[.root, .name [97]]⟩] ++ List.replicate 4 (.resume 0 System.directoriesEverywhere []) ++
    [.unwatch ⟨[.root, .name [97]]⟩, .resume 0 System.directoriesEverywhere []] ++
    List.replicate 2 (.resume 1 System.directoriesEverywhere [])

/-- `/a` was settled late. -/
theorem active_roots_live_unless_settled_late_between :
    SettledLate (.ofSettings {}) (fresh [] .recursive) settledBetween ⟨[.root, .name [97]]⟩ 0 := by
  have active : ((fresh [] .recursive).run (.ofSettings {})
      settledBetween).host.roots.active[(⟨[.root, .name [97]]⟩ : Path)]? = some 0 := by
    decide +kernel
  refine (active_roots_live_unless_settled_late (.ofSettings {}) [] .recursive settledBetween
    (by decide +kernel) _ 0 active).1.1 ?_
  decide +kernel

/-- When every withdrawal has returned, there can be an active root with a cancelled generation.  It
covers every watch at and below it, and a refresh of it is refused. -/
theorem active_root_cancelled :
    let s := (fresh [] .recursive).run (.ofSettings {}) settledBetween
    (∀ thread ∈ s.threads, thread.isWithdrawing = false) ∧
      s.host.roots.active[(⟨[.root, .name [97]]⟩ : Path)]? = some 0 ∧
      s.host.store.isStale 0 = true ∧
      s.host.roots.plan ⟨[.root, .name [97]]⟩ = .covered ⟨[.root, .name [97]]⟩ ∧
      (s.host.refresh (.ofSettings {}) ⟨[.root, .name [97]]⟩).2 =
        .finished (.refreshed (.ok false)) := by
  refine ⟨by decide +kernel, by decide +kernel, by decide +kernel, by decide +kernel, ?_⟩
  with_unfolding_all rfl

end Parallel

end ProjectIndex.Watch
