import ProjectIndex.Proofs.Crawl.WholeCrawls
import ProjectIndex.Proofs.Watch.Interleaving

/-!
# Requests on their own

A request that is left alone on a disk that does not change, from its start to its answer.  A watch
on a fresh host looks at its root, asks for a subscription and crawls; a refresh crawls one path.
What they do to the index is what their crawls do to it.
-/

namespace ProjectIndex

/-- The root is a directory itself, and its subscription is taken. -/
structure Site.Accepts (site : Site) (st : Status) : Prop where
  reached : site.region site.root
  told : site.world.entry site.root = .ok st
  directory : st.kind = .directory
  stat : site.world.stat site.root = .ok st
  opened : site.world.openRoot site.root = .ok ()

namespace Watch

open Crawl (Edits Sourced Succeeds Outdated Agrees Undeclared mistakes Reworked)

/-- Where a request stands after some of its waits. -/
def after (policy : Policy) (world : World) (schedule : Nat → List Nat) (start : Host × Progress) :
    Nat → Host × Progress
  | 0 => start
  | n + 1 =>
    match after policy world schedule start n with
    | (h, .waiting call) => call.step policy world (schedule n) h
    | (h, .finished reply) => (h, .finished reply)

/-- The request ends under some schedule, with this answer. -/
def Completes (policy : Policy) (world : World) (start : Host × Progress) (h : Host) (reply : Reply) :
    Prop :=
  ∃ schedule n, after policy world schedule start n = (h, .finished reply)

/-- The request ends, whatever the schedule is. -/
def Halts (policy : Policy) (world : World) (start : Host × Progress) : Prop :=
  ∀ schedule, ∃ n h reply, after policy world schedule start n = (h, .finished reply)

section

variable {policy : Policy} {world : World}

/-- The waits of a request are those of what it is after the first of them. -/
theorem after_succ (schedule : Nat → List Nat) (start : Host × Progress) (n : Nat) :
    after policy world schedule start (n + 1) =
      after policy world (fun k => schedule (k + 1)) (after policy world schedule start 1) n := by
  induction n with
  | zero => rfl
  | succ n ih =>
    rw [after, ih]
    rfl

theorem halts_of_finished (h : Host) (reply : Reply) : Halts policy world (h, .finished reply) :=
  fun _ => ⟨0, h, reply, rfl⟩

theorem completes_of_finished {h h' : Host} {reply reply' : Reply}
    (completes : Completes policy world (h, .finished reply) h' reply') : h' = h := by
  obtain ⟨schedule, n, ends⟩ := completes
  have stays : ∀ n, after policy world schedule (h, .finished reply) n = (h, .finished reply) := by
    intro n
    induction n with
    | zero => rfl
    | succ n ih => rw [after, ih]
  cases (stays n).symm.trans ends
  rfl

theorem halts_of_step {h : Host} {call : Call}
    (halts : ∀ schedule, Halts policy world (call.step policy world schedule h)) :
    Halts policy world (h, .waiting call) := by
  intro schedule
  obtain ⟨n, h', reply, ends⟩ := halts (schedule 0) fun k => schedule (k + 1)
  exact ⟨n + 1, h', reply, (after_succ schedule _ n).trans ends⟩

theorem Completes.step {h h' : Host} {call : Call} {reply : Reply}
    (completes : Completes policy world (h, .waiting call) h' reply) :
    ∃ schedule, Completes policy world (call.step policy world schedule h) h' reply := by
  obtain ⟨schedule, n, ends⟩ := completes
  cases n with
  | zero => cases ends
  | succ n => exact ⟨schedule 0, _, n, (after_succ schedule _ n).symm.trans ends⟩

/-- A watch stands where its crawl stands. -/
theorem after_resumeWatch (root : Path) (g : Generation) (roots : Roots)
    (schedule : Nat → List Nat) (r : Scope × Crawl.Progress) (n : Nat) :
    after policy world schedule (Host.resumeWatch root g roots r) n =
      Host.resumeWatch root g roots (Crawl.after (firstCrawl policy g) world schedule r n) := by
  induction n with
  | zero => rfl
  | succ n ih =>
    rw [after, Crawl.after, ih]
    generalize Crawl.after (firstCrawl policy g) world schedule r n = r'
    obtain ⟨s, task | result⟩ := r' <;> rfl

/-- A refresh stands where its crawl stands. -/
theorem after_resumeRefresh (path : Path) (g : Generation) (roots : Roots)
    (schedule : Nat → List Nat) (r : Scope × Crawl.Progress) (n : Nat) :
    after policy world schedule (Host.resumeRefresh path g roots r) n =
      Host.resumeRefresh path g roots (Crawl.after (refreshCrawl policy g) world schedule r n) := by
  induction n with
  | zero => rfl
  | succ n ih =>
    rw [after, Crawl.after, ih]
    generalize Crawl.after (refreshCrawl policy g) world schedule r n = r'
    obtain ⟨s, task | result⟩ := r' <;> rfl

end

/-- A host on which nothing was watched yet. -/
structure Host.Fresh (h : Host) (manifestName : Name) : Prop where
  index : h.store.index = .empty manifestName
  roots : h.roots = {}
  cancelled : h.store.cancelled = []

section

variable {site : Site} {h : Host} {name : Name} {st : Status}

/-- A watch that starts, of a directory whose subscription is taken, comes to its first crawl. -/
theorem watch_opened {policy : Policy} {world : World} {root : Path} {subsumed : List Path}
    (planned : h.roots.plan root = .start subsumed) (stat : world.stat root = .ok st)
    (directory : st.kind = .directory) (opened : world.openRoot root = .ok ()) :
    let g := h.store.nextGeneration
    let crawl := Host.resumeWatch root g (h.roots.reserve root g) ((firstCrawl policy g).addDirectory
      root st { store := ((h.watch root).1.store.askRoot root).rootTaken root })
    (∀ h' reply, Completes policy world (h.watch root) h' reply →
      Completes policy world crawl h' reply) ∧
      (Halts policy world crawl → Halts policy world (h.watch root)) := by
  intro g crawl
  obtain ⟨started, reserved⟩ : h.watch root = ((h.watch root).1, .waiting (.looking root g)) ∧
      (h.watch root).1.roots = h.roots.reserve root g := by
    rcases h.watch_cases root with ⟨_, _, idle⟩ | ⟨_, _, _, roots, starts⟩
    · simp [Host.watch, planned, Progress.duty?, Call.duty?] at idle
    · exact ⟨Prod.ext rfl starts, roots⟩
  have looked : ∀ schedule, (Call.looking root g).step policy world schedule (h.watch root).1 =
      ((h.watch root).1.update (·.askRoot root), .waiting (.opening root g st)) := by
    intro schedule
    simp [Call.step, stat, directory]
  have taken : ∀ schedule, (Call.opening root g st).step policy world schedule
      ((h.watch root).1.update (·.askRoot root)) = crawl := by
    intro schedule
    simp only [Call.step, opened]
    exact congrArg (Host.resumeWatch root g · _) reserved
  constructor
  · intro h' reply completes
    rw [started] at completes
    obtain ⟨_, completes⟩ := completes.step
    rw [looked] at completes
    obtain ⟨schedule, completes⟩ := completes.step
    rwa [taken schedule] at completes
  · intro halts
    rw [started]
    refine halts_of_step fun schedule => ?_
    rw [looked]
    refine halts_of_step fun schedule => ?_
    rwa [taken schedule]

/-- What is done before the first crawl is bookkeeping. -/
theorem quiet_opened {root : Path} {subsumed : List Path}
    (planned : h.roots.plan root = .start subsumed) :
    { h.store with nextGeneration := h.store.nextGeneration + 1 }.Quiet
      (((h.watch root).1.store.askRoot root).rootTaken root) := by
  rcases h.watch_cases root with ⟨_, _, idle⟩ | ⟨_, _, quiet, _, _⟩
  · simp [Host.watch, planned, Progress.duty?, Call.duty?] at idle
  · exact (quiet.trans (Store.quiet_askRoot _ root)).trans (Store.quiet_rootTaken _ root)

/-- A watch on a fresh host comes to its first crawl, which starts with the root. -/
theorem watch_start (fresh : h.Fresh name) (accepts : site.Accepts st) :
    ∃ store g, store.index = .empty name ∧ store.isStale g = false ∧
      (∀ h' reply, Completes site.policy site.world (h.watch site.root) h' reply →
        Completes site.policy site.world (Host.resumeWatch site.root g (({} : Roots).reserve site.root g)
          ((firstCrawl site.policy g).addDirectory site.root st { store })) h' reply) ∧
      (Halts site.policy site.world (Host.resumeWatch site.root g (({} : Roots).reserve site.root g)
          ((firstCrawl site.policy g).addDirectory site.root st { store })) →
        Halts site.policy site.world (h.watch site.root)) := by
  have planned : h.roots.plan site.root = .start [] := by
    rw [fresh.roots]
    rfl
  have quiet := quiet_opened planned
  have opened := @watch_opened h st site.policy site.world site.root [] planned accepts.stat
    accepts.directory accepts.opened
  rw [fresh.roots] at opened
  refine ⟨_, h.store.nextGeneration, quiet.index.trans fresh.index, (quiet.isStale _).trans ?_,
    opened.1, opened.2⟩
  simp [Store.isStale, fresh.cancelled]

/-- Where one root is active and none is pending, refreshes below it run in its generation. -/
theorem generationFor_single {w : Roots} {root : Path} {g : Generation}
    (active : ∀ r : Path, w.active[r]? = if root = r then some g else none)
    (settled : ∀ r, r ∉ w.pending) (p : Path) :
    w.generationFor p = if root.Covers p then some g else none := by
  have idle : w.pendingCovering p = none :=
    Roots.pendingCovering_eq_none.2 fun r pending => absurd pending (settled r)
  unfold Roots.generationFor
  rw [idle]
  cases found : w.activeCovering p with
  | none =>
    have member : root ∈ w.active := by
      simp [Std.ExtTreeMap.mem_iff_isSome_getElem?, active]
    rw [if_neg (Roots.activeCovering_eq_none.1 found root member)]
    rfl
  | some entry =>
    obtain ⟨r, g'⟩ := entry
    obtain ⟨carried, covers⟩ := Roots.activeCovering_eq_some found
    rw [active r] at carried
    split at carried
    next same =>
      cases carried
      rw [if_pos (same ▸ covers)]
      rfl
    · cases carried

/-- Once the first crawl of the only root has ended well, it is active. -/
theorem generationFor_settled (root : Path) (g : Generation) (p : Path) :
    (((({} : Roots).reserve root g).settle root g true).1.announce g true).generationFor p =
      if root.Covers p then some g else none := by
  have planned : ({} : Roots).plan root = .start [] := rfl
  have pending : root ∈ (({} : Roots).reserve root g).pending := by simp [Roots.reserve]
  rw [(Roots.apart_empty.reserve planned g).settlement pending, if_pos rfl]
  refine generationFor_single (fun r => ?_) (fun r => ?_) p
  · simp [Roots.announce, Std.ExtTreeMap.getElem?_insert, Roots.reserve_active]
  · simp [Roots.announce, Roots.reserve]

/-- A watch on a fresh host ends under every schedule. -/
theorem watch_halts {bound : Nat} (fresh : h.Fresh name) (accepts : site.Accepts st)
    (lists : site.Lists) (shallow : site.Shallow bound) :
    Halts site.policy site.world (h.watch site.root) := by
  obtain ⟨store, g, blank, live, _, halts⟩ := watch_start fresh accepts
  refine halts fun schedule => ?_
  have start := @Crawl.firstCrawl_start site (firstCrawl site.policy g) { store } st lists rfl live
    name blank accepts.reached accepts.told accepts.directory
  obtain ⟨n, s, result, ends⟩ := start.1.ends lists shallow rfl schedule
  exact ⟨n, _, _, (after_resumeWatch site.root g _ schedule _ n).trans (congrArg _ ends)⟩

/-- The end of a first crawl that ended well. -/
theorem finishWatch_ok {root : Path} {g : Generation} (changed : Bool) (remarks : List Diagnostic)
    {h : Host} (live : h.store.isStale g = false) :
    h.store.Quiet (Host.finishWatch root g (.ok changed) remarks h).1.store ∧
      (Host.finishWatch root g (.ok changed) remarks h).1.roots =
        (h.roots.settle root g true).1.announce g true ∧
      ((Host.finishWatch root g (.ok changed) remarks h).2 = .ok () ∨
        (Host.finishWatch root g (.ok changed) remarks h).2 =
          .error (.diagnostics root.spelling remarks)) := by
  obtain ⟨quiet, roots⟩ := Host.finishWatch_keeps root g (.ok changed) remarks h
  refine ⟨quiet, ?_, ?_⟩
  · simpa [Except.isOk, Except.toBool, Store.isLive, live] using roots
  · unfold Host.finishWatch
    dsimp only
    split
    · exact Or.inl rfl
    · dsimp only
      split
      · exact Or.inr rfl
      · exact Or.inl rfl

/-- Whatever the schedule is, a watch on a fresh host succeeds or ends with remarks.  Afterwards the
root is active, the index says of every path what it should, and its manifests are those that the
known files hold. -/
theorem watch_result (fresh : h.Fresh name) (accepts : site.Accepts st) (lists : site.Lists)
    (faithful : site.Faithful) {h' : Host} {reply : Reply}
    (completes : Completes site.policy site.world (h.watch site.root) h' reply) :
    (reply = .watched (.ok ()) ∨
        ∃ remarks, reply = .watched (.error (.diagnostics site.root.spelling remarks))) ∧
      (∃ g, h'.store.isStale g = false ∧
        ∀ p, h'.roots.generationFor p = if site.root.Covers p then some g else none) ∧
      h'.store.index.Sound site.root ∧ (∀ p, Agrees site h'.store.index p) ∧
      (∀ d, ¬ (mistakes site).due h'.store.index d) ∧ ∀ f, ¬ Undeclared site h'.store.index f := by
  obtain ⟨store, g, blank, live, start, _⟩ := watch_start fresh accepts
  obtain ⟨schedule, n, ends⟩ := start h' reply completes
  rw [after_resumeWatch] at ends
  generalize reached : Crawl.after (firstCrawl site.policy g) site.world schedule
    ((firstCrawl site.policy g).addDirectory site.root st { store }) n = r at ends
  obtain ⟨s, task | result⟩ := r
  · cases ends
  · obtain ⟨⟨changed, rfl⟩, live', sound, agrees, honest, complete⟩ :=
      Crawl.firstCrawl_result lists faithful rfl live blank accepts.reached accepts.told
        accepts.directory reached
    obtain ⟨quiet, roots, answer⟩ := @finishWatch_ok site.root g changed s.remarks
      ⟨s.store, ({} : Roots).reserve site.root g⟩ live'
    have host := congrArg Prod.fst ends
    have answered := Progress.finished.inj (congrArg Prod.snd ends)
    dsimp only [Host.resumeWatch] at host answered
    rw [host] at quiet roots
    rw [← answered, quiet.index]
    refine ⟨?_, ⟨g, (quiet.isStale g).trans live', fun p => ?_⟩, sound, agrees, honest, complete⟩
    · exact answer.imp (congrArg _) fun failed => ⟨s.remarks, congrArg _ failed⟩
    · rw [roots]
      exact generationFor_settled site.root g p

end

end Watch

end ProjectIndex
