import ProjectIndex.Proofs.Crawl.Failing
import ProjectIndex.Proofs.Watch.Interleaving

/-!
# Requests one after the other

A request that is served from its start to its answer while nothing else happens on the host.  At
each of its waits it is told what the world answers at that moment, so the disk and the backend may
behave differently from one wait to the next; a predicate on worlds says which behaviours are
admitted.  A `History` is what a host has been through when every request was served before the next
one was made.

A request is as good as its crawl: a watch on a host without pending roots is covered, or it ends
the way `Host.finishWatch` says, with the result of its crawl or of what failed before it.
-/

namespace ProjectIndex.Watch

open Crawl (Edits)

/-- A request that goes on until it is answered, in admitted worlds. -/
inductive Served (policy : Policy) (admits : World → Prop) :
    Host × Progress → Host → Reply → Prop where
  | finished (h : Host) (reply : Reply) : Served policy admits (h, .finished reply) h reply
  | step {h h' : Host} {call : Call} {reply : Reply} (world : World) (schedule : List Nat)
      (admitted : admits world)
      (rest : Served policy admits (call.step policy world schedule h) h' reply) :
      Served policy admits (h, .waiting call) h' reply

/-- A request and its answer. -/
inductive Errand where
  | watch (root : Path) (result : Except IndexError Unit)
  | refresh (path : Path) (result : Except IndexError Bool)
  /-- Whether there was anything to withdraw. -/
  | unwatch (root : Path) (found : Bool)

/-- The errand takes one host to the other. -/
inductive Errand.Done (policy : Policy) (admits : World → Prop) : Errand → Host → Host → Prop where
  | watch {h h' : Host} {root : Path} {result : Except IndexError Unit}
      (served : Served policy admits (h.watch root) h' (.watched result)) :
      Done policy admits (.watch root result) h h'
  | refresh {h h' : Host} {path : Path} {result : Except IndexError Bool}
      (served : Served policy admits (h.refresh policy path) h' (.refreshed result)) :
      Done policy admits (.refresh path result) h h'
  | unwatch (h : Host) (root : Path) :
      Done policy admits (.unwatch root (h.unwatch root).2) h (h.unwatch root).1

/-- The errands that brought a host to where it is, the latest first. -/
inductive History (policy : Policy) (admits : World → Prop) : List Errand → Host → Prop where
  | fresh (name : Name) (style : Backend.Style) :
      History policy admits [] { store := .empty name style }
  | next {errands : List Errand} {h h' : Host} {errand : Errand}
      (before : History policy admits errands h) (done : errand.Done policy admits h h') :
      History policy admits (errand :: errands) h'

/-- The errands take one host to the other, the first one first. -/
inductive Errand.DoneAll (policy : Policy) (admits : World → Prop) :
    List Errand → Host → Host → Prop where
  | nil (h : Host) : DoneAll policy admits [] h h
  | cons {h h' h'' : Host} {errand : Errand} {errands : List Errand}
      (done : errand.Done policy admits h h') (rest : DoneAll policy admits errands h' h'') :
      DoneAll policy admits (errand :: errands) h h''

variable {policy : Policy} {admits : World → Prop}

/-- Where a request stands when it was told what these worlds answer, one at each wait. -/
def serve (policy : Policy) : Host × Progress → List World → Host × Progress
  | (h, .waiting call), world :: worlds => serve policy (call.step policy world [] h) worlds
  | start, _ => start

theorem Served.of_serve {start : Host × Progress} {worlds : List World} {reply : Reply}
    (admitted : ∀ world ∈ worlds, admits world)
    (answered : (serve policy start worlds).2 = .finished reply) :
    Served policy admits start (serve policy start worlds).1 reply := by
  induction worlds generalizing start with
  | nil =>
    rw [serve] at answered ⊢
    · obtain ⟨h, progress⟩ := start
      obtain rfl : progress = .finished reply := answered
      exact .finished h reply
    all_goals simp
  | cons world worlds ih =>
    obtain ⟨h, call | reply'⟩ := start
    · have rest := ih (fun other member => admitted other (by simp [member])) answered
      exact .step world [] (admitted world (by simp)) rest
    · obtain rfl : reply' = reply := Progress.finished.inj answered
      exact .finished h reply'

/-- A watch whose crawl is under way is served as its crawl is. -/
theorem Served.of_resumeWatch {root : Path} {g : Generation} {roots : Roots} {h' : Host}
    {reply : Reply} {r : Scope × Crawl.Progress}
    (served : Served policy admits (Host.resumeWatch root g roots r) h' reply) :
    ∃ s result, Crawl.Served (firstCrawl policy g) admits r s result ∧
      h' = (Host.finishWatch root g result s.remarks ⟨s.store, roots⟩).1 ∧
      reply = .watched (Host.finishWatch root g result s.remarks ⟨s.store, roots⟩).2 := by
  generalize starts : Host.resumeWatch root g roots r = start at served
  induction served generalizing r with
  | finished h reply =>
    obtain ⟨s, task | result⟩ := r
    · cases starts
    · cases starts
      exact ⟨s, result, .finished s result, rfl, rfl⟩
  | step world schedule admitted rest ih =>
    obtain ⟨s, task | result⟩ := r
    · cases starts
      obtain ⟨s', result, crawled, host, answer⟩ := ih rfl
      exact ⟨s', result, .step admitted (Crawl.Task.step_moves _ _ _ _ _) crawled, host, answer⟩
    · cases starts

/-- A refresh whose crawl is under way is served as its crawl is. -/
theorem Served.of_resumeRefresh {path : Path} {g : Generation} {roots : Roots} {h' : Host}
    {reply : Reply} {r : Scope × Crawl.Progress}
    (served : Served policy admits (Host.resumeRefresh path g roots r) h' reply) :
    ∃ s result, Crawl.Served (refreshCrawl policy g) admits r s result ∧
      h' = (Host.finishRefresh path result s.remarks ⟨s.store, roots⟩).1 ∧
      reply = .refreshed (Host.finishRefresh path result s.remarks ⟨s.store, roots⟩).2 := by
  generalize starts : Host.resumeRefresh path g roots r = start at served
  induction served generalizing r with
  | finished h reply =>
    obtain ⟨s, task | result⟩ := r
    · cases starts
    · cases starts
      exact ⟨s, result, .finished s result, rfl, rfl⟩
  | step world schedule admitted rest ih =>
    obtain ⟨s, task | result⟩ := r
    · cases starts
      obtain ⟨s', result, crawled, host, answer⟩ := ih rfl
      exact ⟨s', result, .step admitted (Crawl.Task.step_moves _ _ _ _ _) crawled, host, answer⟩
    · cases starts

/-- What came before the end of a watch: something failed before the crawl, or the root was a
directory and was crawled. -/
inductive Crawled (policy : Policy) (admits : World → Prop) (root : Path) (g : Generation)
    (store : Store) (s : Scope) (result : Except IndexError Bool) : Prop where
  | failed (e : IndexError) (hard : ∀ spelling found, e ≠ .diagnostics spelling found)
      (quiet : store.Quiet s.store) (failure : result = .error e)
  | crawled (world : World) (status : Status) (opened : Store) (admitted : admits world)
      (told : world.stat root = .ok status) (directory : status.kind = .directory)
      (quiet : store.Quiet opened)
      (served : Crawl.Served (firstCrawl policy g) admits
        ((firstCrawl policy g).addDirectory root status { store := opened }) s result)

theorem Crawled.edits {root : Path} {g : Generation} {store : Store} {s : Scope}
    {result : Except IndexError Bool} (crawled : Crawled policy admits root g store s result) :
    Edits (firstCrawl policy g) store s.store := by
  cases crawled with
  | failed e hard quiet failure => exact .quiet quiet
  | crawled world status opened admitted told directory quiet served =>
    have added := @Crawl.edits_addDirectory (firstCrawl policy g) root status { store := opened }
    exact (Edits.quiet quiet).trans (added.trans served.edits)

/-- A watch that waits for the status of its root fails at the status or at the subscription; or both
are fine, and it ends as the crawl of its root ends. -/
theorem Served.opened {h h' : Host} {root : Path} {g : Generation} {reply : Reply}
    (served : Served policy admits (h, .waiting (.looking root g)) h' reply) :
    (∃ e k, (∀ spelling found, e ≠ .diagnostics spelling found) ∧
        (k = h ∨ k = h.update (·.askRoot root)) ∧
        k.failWatch root g e = (h', .finished reply)) ∨
      ∃ world status s result, admits world ∧ world.stat root = .ok status ∧
        status.kind = .directory ∧
        Crawl.Served (firstCrawl policy g) admits ((firstCrawl policy g).addDirectory root status
          { store := (h.store.askRoot root).rootTaken root }) s result ∧
        h' = (Host.finishWatch root g result s.remarks ⟨s.store, h.roots⟩).1 ∧
        reply = .watched (Host.finishWatch root g result s.remarks ⟨s.store, h.roots⟩).2 := by
  have ended : ∀ {e : IndexError} {k : Host}, Served policy admits (k.failWatch root g e) h' reply →
      k.failWatch root g e = (h', .finished reply) := fun rest => by cases rest; rfl
  cases served with
  | step world schedule admitted rest =>
    simp only [Call.step] at rest
    split at rest
    · refine Or.inl ⟨_, h, fun spelling found => ?_, Or.inl rfl, ended rest⟩
      split <;> simp
    next status told =>
      split at rest
      next directory =>
        cases rest with
        | step world' schedule' admitted' rest =>
          simp only [Call.step] at rest
          split at rest
          · exact Or.inl ⟨_, _, by simp, Or.inr rfl, ended rest⟩
          · obtain ⟨s, result, crawled, host, answer⟩ := rest.of_resumeWatch
            exact Or.inr ⟨world, status, s, result, admitted, told, directory, crawled, host, answer⟩
      · exact Or.inl ⟨_, h, by simp, Or.inl rfl, ended rest⟩

/-- A watch that waits for the status of its root ends as its crawl ends, if it comes to that. -/
theorem Served.of_looking {h h' : Host} {root : Path} {g : Generation} {reply : Reply}
    (served : Served policy admits (h, .waiting (.looking root g)) h' reply) :
    ∃ s result, Crawled policy admits root g h.store s result ∧
      h' = (Host.finishWatch root g result s.remarks ⟨s.store, h.roots⟩).1 ∧
      reply = .watched (Host.finishWatch root g result s.remarks ⟨s.store, h.roots⟩).2 := by
  have asked := Store.quiet_askRoot h.store root
  rcases served.opened with ⟨e, k, hard, same, failed⟩ |
    ⟨world, status, s, result, admitted, told, directory, crawled, host, answer⟩
  · cases failed
    rcases same with rfl | rfl
    · exact ⟨{ store := k.store }, .error e, .failed e hard (.refl _) rfl, rfl, rfl⟩
    · exact ⟨{ store := h.store.askRoot root }, .error e, .failed e hard asked rfl, rfl, rfl⟩
  · exact ⟨s, result, .crawled world status _ admitted told directory
      (asked.trans (Store.quiet_rootTaken _ root)) crawled, host, answer⟩

/-- A watch that starts on a host ends as its crawl ends, if it comes to that. -/
theorem Served.of_start {h h' : Host} {root : Path} {subsumed : List Path} {reply : Reply}
    (planned : h.roots.plan root = .start subsumed)
    (served : Served policy admits (h.watch root) h' reply) :
    ∃ s result, Crawled policy admits root h.store.nextGeneration
        { h.store with nextGeneration := h.store.nextGeneration + 1 } s result ∧
      let reserved : Host := ⟨s.store, h.roots.reserve root h.store.nextGeneration⟩
      h' = (Host.finishWatch root h.store.nextGeneration result s.remarks reserved).1 ∧
      reply = .watched (Host.finishWatch root h.store.nextGeneration result s.remarks reserved).2 := by
  rcases h.watch_cases root with ⟨_, _, idle⟩ | ⟨_, _, quiet, roots, starts⟩
  · simp [Host.watch, planned, Progress.duty?, Call.duty?] at idle
  · rw [show h.watch root = ((h.watch root).1, .waiting (.looking root h.store.nextGeneration)) from
      Prod.ext rfl starts] at served
    obtain ⟨s, result, crawled, host, answer⟩ := served.of_looking
    rw [roots] at host answer
    refine ⟨s, result, ?_, host, answer⟩
    cases crawled with
    | failed e hard before failure => exact .failed e hard (quiet.trans before) failure
    | crawled world status opened admitted told directory before served =>
      exact .crawled world status opened admitted told directory (quiet.trans before) served

/-- A refresh is covered by no root or finds nothing to do, and says so in the log; or it crawls its
path. -/
theorem Served.refreshed {h h' : Host} {path : Path} {reply : Reply}
    (served : Served policy admits (h.refresh policy path) h' reply) :
    (∃ line, h' = h.log line) ∨
      ∃ g s result, h.roots.generationFor path = some g ∧
        (h.store.index.knows path || h.store.index.knowsParent path) = true ∧
        Crawl.Served (refreshCrawl policy g) admits
          ((refreshCrawl policy g).addEntry path { store := h.store }) s result ∧
        h' = (Host.finishRefresh path result s.remarks ⟨s.store, h.roots⟩).1 ∧
        reply = .refreshed (Host.finishRefresh path result s.remarks ⟨s.store, h.roots⟩).2 := by
  unfold Host.refresh at served
  split at served
  · cases served
    exact Or.inl ⟨_, rfl⟩
  next g found =>
    obtain ⟨s, result, crawled, host, answer⟩ := served.of_resumeRefresh
    unfold Crawl.Context.refresh at crawled
    split at crawled
    next known => exact Or.inr ⟨g, s, result, found, known, crawled, host, answer⟩
    · cases crawled
      exact Or.inl ⟨_, host⟩

/-- A refresh is covered by no root, finds nothing to do, or crawls its path. -/
theorem Served.of_refresh {h h' : Host} {path : Path} {reply : Reply}
    (served : Served policy admits (h.refresh policy path) h' reply) :
    (h.store.Quiet h'.store ∧ h'.roots = h.roots) ∨
      ∃ g s result, h.roots.generationFor path = some g ∧
        (h.store.index.knows path || h.store.index.knowsParent path) = true ∧
        Crawl.Served (refreshCrawl policy g) admits
          ((refreshCrawl policy g).addEntry path { store := h.store }) s result ∧
        h' = (Host.finishRefresh path result s.remarks ⟨s.store, h.roots⟩).1 ∧
        reply = .refreshed (Host.finishRefresh path result s.remarks ⟨s.store, h.roots⟩).2 :=
  served.refreshed.imp_left fun ⟨_, logged⟩ => logged ▸ ⟨Store.quiet_log _ _, rfl⟩

/-- A refresh changes no root. -/
theorem Served.roots_of_refresh {h h' : Host} {path : Path} {reply : Reply}
    (served : Served policy admits (h.refresh policy path) h' reply) : h'.roots = h.roots := by
  rcases served.of_refresh with ⟨_, roots⟩ | ⟨g, s, result, _, _, _, host, _⟩
  · exact roots
  · rw [host]
    exact (Host.finishRefresh_keeps path result s.remarks ⟨s.store, h.roots⟩).2

/-- The request was answered without a failure, remarks apart, and withdrew nothing. -/
def Errand.Mild : Errand → Prop
  | .watch root result =>
    root.isAbsolute = true ∧
      (result = .ok () ∨ ∃ spelling found, result = .error (.diagnostics spelling found))
  | .refresh _ result =>
    (∃ changed, result = .ok changed) ∨
      ∃ spelling found, result = .error (.diagnostics spelling found)
  | .unwatch _ _ => False

theorem withDiagnostics_hard {e : IndexError} (hard : ∀ spelling found, e ≠ .diagnostics spelling found)
    (remarks : List Diagnostic) (spelling : Spelling) (found : List Diagnostic) :
    e.withDiagnostics remarks ≠ .diagnostics spelling found := by
  unfold IndexError.withDiagnostics
  split
  · exact hard spelling found
  · simp

/-- A watch whose crawl fails for another reason than remarks says so. -/
theorem crawl_ok_of_watch {root : Path} {g : Generation} {result : Except IndexError Bool}
    {remarks : List Diagnostic} {h : Host}
    (hard : ∀ e spelling found, result = .error e → e ≠ .diagnostics spelling found)
    (mild : (Host.finishWatch root g result remarks h).2 = .ok () ∨
      ∃ spelling found, (Host.finishWatch root g result remarks h).2 =
        .error (.diagnostics spelling found)) : ∃ changed, result = .ok changed := by
  cases result with
  | ok changed => exact ⟨changed, rfl⟩
  | error e =>
    rcases mild with fine | ⟨spelling, found, failed⟩
    · cases fine
    · exact absurd (Except.error.inj failed)
        (withDiagnostics_hard (fun spelling found => hard e spelling found rfl) remarks _ _)

theorem crawl_ok_of_refresh {path : Path} {result : Except IndexError Bool}
    {remarks : List Diagnostic} {h : Host}
    (hard : ∀ e spelling found, result = .error e → e ≠ .diagnostics spelling found)
    (mild : (∃ changed, (Host.finishRefresh path result remarks h).2 = .ok changed) ∨
      ∃ spelling found, (Host.finishRefresh path result remarks h).2 =
        .error (.diagnostics spelling found)) : ∃ changed, result = .ok changed := by
  cases result with
  | ok changed => exact ⟨changed, rfl⟩
  | error e =>
    rcases mild with ⟨changed, fine⟩ | ⟨spelling, found, failed⟩
    · cases fine
    · exact absurd (Except.error.inj failed)
        (withDiagnostics_hard (fun spelling found => hard e spelling found rfl) remarks _ _)

/-- A watch never fails because of its remarks. -/
theorem Crawled.hard {root : Path} {g : Generation} {store : Store} {s : Scope} {e : IndexError}
    (crawled : Crawled policy admits root g store s (.error e))
    (live : store.isStale g = false) (spelling : Spelling) (found : List Diagnostic) :
    e ≠ .diagnostics spelling found := by
  cases crawled with
  | failed cause hard quiet failure => exact Except.error.inj failure ▸ hard spelling found
  | crawled world status opened admitted told directory quiet served =>
    have still := (quiet.isStale g).trans live
    have added := @Crawl.edits_addDirectory (firstCrawl policy g) root status { store := opened }
    obtain ⟨path, cause, rfl⟩ := served.failure ((added.isStale _).trans still)
      fun e => Crawl.not_failed_addDirectory still
    simp

/-- A watch that is answered without a failure, remarks apart, has crawled its root. -/
theorem Served.opened_of_mild {h h' : Host} {root : Path} {g : Generation}
    {reply : Except IndexError Unit}
    (served : Served policy admits (h, .waiting (.looking root g)) h' (.watched reply))
    (live : h.store.isStale g = false)
    (mild : reply = .ok () ∨ ∃ spelling found, reply = .error (.diagnostics spelling found)) :
    ∃ world status s changed, admits world ∧ world.stat root = .ok status ∧
      status.kind = .directory ∧
      Crawl.Served (firstCrawl policy g) admits ((firstCrawl policy g).addDirectory root status
        { store := (h.store.askRoot root).rootTaken root }) s (.ok changed) ∧
      h' = (Host.finishWatch root g (.ok changed) s.remarks ⟨s.store, h.roots⟩).1 := by
  rcases served.opened with ⟨e, k, hard, _, failed⟩ |
    ⟨world, status, s, result, admitted, told, directory, crawled, host, answer⟩
  · cases failed
    rcases mild with fine | ⟨spelling, found, remarks⟩
    · cases fine
    · exact absurd (Except.error.inj remarks) (withDiagnostics_hard hard [] spelling found)
  · have opened := (Store.quiet_askRoot h.store root).trans (Store.quiet_rootTaken _ root)
    have still := (opened.isStale g).trans live
    have added := @Crawl.edits_addDirectory (firstCrawl policy g) root status
      { store := (h.store.askRoot root).rootTaken root }
    obtain rfl := Reply.watched.inj answer
    obtain ⟨changed, rfl⟩ := crawl_ok_of_watch (fun e spelling found failed => by
      subst failed
      obtain ⟨path, cause, rfl⟩ := crawled.failure ((added.isStale _).trans still)
        fun e => Crawl.not_failed_addDirectory still
      simp) mild
    exact ⟨world, status, s, changed, admitted, told, directory, crawled, host⟩

structure Host.Settled (h : Host) : Prop where
  idle : ∀ r, r ∉ h.roots.pending
  apart : h.roots.Apart

namespace Host.Settled

variable {h h' : Host}

/-- A watch on a settled host is covered, or it starts. -/
theorem plan_cases (settled : h.Settled) (root : Path) :
    (∃ above, h.roots.plan root = .covered above ∧ above ∈ h.roots.active ∧ above.Covers root) ∨
      h.roots.plan root = .start (h.roots.activeBelow root) := by
  have above : h.roots.pendingCovering root = none :=
    Roots.pendingCovering_eq_none.2 fun r pending => absurd pending (settled.idle r)
  have below : h.roots.pendingBelow root = [] :=
    Roots.pendingBelow_eq_nil.2 fun r pending => absurd pending (settled.idle r)
  unfold Roots.plan
  rw [above]
  cases found : h.roots.activeCovering root with
  | none =>
    simp only [below]
    exact Or.inr trivial
  | some entry =>
    obtain ⟨active, covers⟩ := Roots.activeCovering_eq_some found
    refine Or.inl ⟨entry.1, rfl, ?_, covers⟩
    simp [Std.ExtTreeMap.mem_iff_isSome_getElem?, active]

/-- A covered watch is answered at once, and nothing happens. -/
theorem served_of_covered {root above : Path} {reply : Reply}
    (planned : h.roots.plan root = .covered above)
    (served : Served policy admits (h.watch root) h' reply) :
    h.store.Quiet h'.store ∧ h'.roots = h.roots ∧ reply = .watched (.ok ()) := by
  simp only [Host.watch, planned] at served
  cases served
  exact ⟨Store.quiet_log _ _, rfl, rfl⟩

/-- The roots after the first crawl of a root that was reserved: the new root is active if the crawl
ended well, and the active roots below it are gone in any case. -/
theorem finish_reserved (settled : h.Settled) {root : Path} {subsumed : List Path}
    (planned : h.roots.plan root = .start subsumed) (g : Generation) (wanted ok : Bool) :
    let left := ((h.roots.reserve root g).settle root g wanted).1.announce g ok
    (∀ r, r ∉ left.pending) ∧ left.Apart ∧
      ∀ r : Path, left.active[r]? =
        if wanted ∧ root = r then some g
        else if r.isDescendantOf root then none else h.roots.active[r]? := by
  have pending : root ∈ (h.roots.reserve root g).pending := by simp [Roots.reserve]
  have apart := settled.apart.reserve planned g
  have idle : ∀ r : Path, r ∉ (h.roots.reserve root g).pending.erase root := by
    intro r member
    rw [Std.ExtTreeMap.mem_erase] at member
    have inserted : r ∈ h.roots.pending.insert root g := member.2
    rw [Std.ExtTreeMap.mem_insert] at inserted
    exact inserted.elim member.1 (settled.idle r)
  have released : ∀ r : Path, (h.roots.reserve root g).active[r]? =
      if r.isDescendantOf root then none else h.roots.active[r]? := by
    intro r
    rw [Roots.reserve_active]
    by_cases below : r.isDescendantOf root = true
    · by_cases active : r ∈ h.roots.active
      · have listed : r ∈ h.roots.activeBelow root :=
          Roots.mem_activeBelow.2 ⟨active, Path.isDescendantOf_iff.1 below⟩
        simp [below, listed]
      · simp [Std.ExtTreeMap.getElem?_eq_none active]
    · have unlisted : r ∉ h.roots.activeBelow root := fun listed =>
        below (Path.isDescendantOf_iff.2 (Roots.mem_activeBelow.1 listed).2)
      simp [below, unlisted]
  refine ⟨?_, (apart.settle pending g wanted).announce g ok, ?_⟩
  · intro r
    rw [apart.settlement pending]
    cases wanted <;> exact idle r
  · intro r
    rw [apart.settlement pending]
    cases wanted with
    | false => simpa [Roots.announce] using released r
    | true =>
      by_cases same : root = r
      · simp [Roots.announce, same]
      · simpa [Roots.announce, Std.ExtTreeMap.getElem?_insert, same] using released r

/-- Every errand leaves a host settled. -/
theorem done (settled : h.Settled) {errand : Errand} (done : errand.Done policy admits h h') :
    h'.Settled := by
  cases done with
  | watch served =>
    rename_i root result
    rcases settled.plan_cases root with ⟨above, planned, _, _⟩ | planned
    · obtain ⟨_, roots, _⟩ := served_of_covered planned served
      exact ⟨roots ▸ settled.idle, roots ▸ settled.apart⟩
    · obtain ⟨s, result, _, host, _⟩ := served.of_start planned
      have roots := (Host.finishWatch_keeps root h.store.nextGeneration result s.remarks
        ⟨s.store, h.roots.reserve root h.store.nextGeneration⟩).2
      rw [← host] at roots
      obtain ⟨idle, apart, _⟩ := settled.finish_reserved planned h.store.nextGeneration
        (result.isOk && s.store.isLive h.store.nextGeneration) result.isOk
      exact ⟨roots ▸ idle, roots ▸ apart⟩
  | refresh served =>
    have roots := served.roots_of_refresh
    exact ⟨roots ▸ settled.idle, roots ▸ settled.apart⟩
  | unwatch h root =>
    have roots : (h.unwatch root).1.roots = h.roots ∨
        (h.unwatch root).1.roots = (h.roots.withdraw root).1 := by
      unfold Host.unwatch
      split
      · exact Or.inl rfl
      next withdrawn => exact Or.inr (congrArg Prod.fst withdrawn).symm
    rcases roots with same | withdrawn
    · exact ⟨same ▸ settled.idle, same ▸ settled.apart⟩
    · exact ⟨withdrawn ▸ settled.idle, withdrawn ▸ settled.apart.withdraw root⟩

end Host.Settled

/-- Between two requests a host is settled. -/
theorem History.settled {errands : List Errand} {h : Host}
    (history : History policy admits errands h) : h.Settled := by
  induction history with
  | fresh name style => exact ⟨fun r => by simp, Roots.apart_empty⟩
  | next _ done ih => exact ih.done done

end ProjectIndex.Watch
