import ProjectIndex.Proofs.Watch.Histories
import ProjectIndex.Proofs.Watch.Withdrawal

/-!
# What a watch that fails leaves behind

A watch takes the active roots below its own out of the table when it starts, before it has asked
anything of the disk or of the backend.  When it fails later, its own root is dropped and the roots
below do not come back.  So a failed watch leaves the watched roots alone exactly when none of them
lies strictly below its own root, and otherwise ends the watch of each of those that do.
-/

namespace ProjectIndex.Watch

open Std

/-- A watch that fails for another reason than its remarks fails because its crawl does. -/
theorem finishWatch_error {root : Path} {g : Generation} {result : Except IndexError Bool}
    {remarks : List Diagnostic} {h : Host} {e : IndexError}
    (failed : (Host.finishWatch root g result remarks h).2 = .error e)
    (hard : ∀ spelling found, e ≠ .diagnostics spelling found) : ∃ cause, result = .error cause := by
  cases result with
  | error cause => exact ⟨cause, rfl⟩
  | ok changed =>
    exfalso
    dsimp only [Host.finishWatch] at failed
    split at failed
    · cases failed
    · dsimp only at failed
      split at failed
      · exact hard _ _ (Except.error.inj failed).symm
      · cases failed

/-- Two hosts watch the same roots when their tables have the same entries. -/
theorem watched_eq_of_active {h h' : Host}
    (same : ∀ r : Path, h'.roots.active[r]? = h.roots.active[r]?) : h'.watched = h.watched := by
  have tables : h'.roots.active = h.roots.active := ExtTreeMap.ext_getElem? same
  rw [Host.watched, Host.watched, tables]

/-- A watch that fails for another reason than its remarks drops the active roots strictly below its
own root and keeps the others. -/
theorem Host.Settled.active_of_failure {policy : Policy} {admits : World → Prop} {h h' : Host}
    (settled : h.Settled) {root : Path} {e : IndexError}
    (failed : (Errand.watch root (.error e)).Done policy admits h h')
    (hard : ∀ spelling found, e ≠ .diagnostics spelling found) (r : Path) :
    h'.roots.active[r]? = if r.isDescendantOf root then none else h.roots.active[r]? := by
  cases failed with
  | watch served =>
    rcases settled.plan_cases root with ⟨above, planned, _, _⟩ | planned
    · obtain ⟨_, _, answer⟩ := Host.Settled.served_of_covered planned served
      cases answer
    · obtain ⟨s, result, _, host, answer⟩ := served.of_start planned
      obtain ⟨cause, rfl⟩ := finishWatch_error (Reply.watched.inj answer).symm hard
      have roots := (Host.finishWatch_keeps root h.store.nextGeneration (.error cause) s.remarks
        ⟨s.store, h.roots.reserve root h.store.nextGeneration⟩).2
      have left := (settled.finish_reserved planned h.store.nextGeneration false false).2.2 r
      rw [host, roots]
      simpa [Except.isOk, Except.toBool] using left

/-- After any requests, each served to its end, a watch that fails for another reason than its
remarks leaves every active root as it was, with its generation, except those strictly below its own
root: these are not watched any more.  So the watched roots are the same as before exactly when none
of them lay strictly below. -/
theorem failed_watch_drops_roots_below (policy : Policy) (admits : World → Prop)
    (errands : List Errand) (h h' : Host) (history : History policy admits errands h) (root : Path)
    (e : IndexError) (failed : (Errand.watch root (.error e)).Done policy admits h h')
    (hard : ∀ spelling found, e ≠ .diagnostics spelling found) :
    (∀ r : Path, h'.roots.active[r]? =
        if r.isDescendantOf root then none else h.roots.active[r]?) ∧
      (h'.watched = h.watched ↔ ∀ r ∈ h.watched, r.isDescendantOf root = false) := by
  have active := history.settled.active_of_failure failed hard
  refine ⟨active, fun same r watched => ?_, fun none => watched_eq_of_active fun r => ?_⟩
  · by_contra below
    have still : r ∈ h'.roots.active := ExtTreeMap.mem_keys.1 (same.symm ▸ watched : r ∈ h'.watched)
    rw [ExtTreeMap.mem_iff_isSome_getElem?, active r, if_pos (eq_true_of_ne_false below)] at still
    cases still
  · rw [active r]
    by_cases member : r ∈ h.roots.active
    · simp [none r (ExtTreeMap.mem_keys.2 member)]
    · simp [ExtTreeMap.getElem?_eq_none member]

/-- The world in which every path is an empty directory and the system refuses the subscription of
every root. -/
def subscriptionsRefused : World :=
  { System.directoriesEverywhere with
    openRoot := fun root => .error (.pathFailed root.spelling "refused") }

/-- A fresh host on which `/c` and `/a/b` were watched, one after the other. -/
def twoWatched : Host :=
  let fresh : Host := { store := .empty [] .recursive }
  let first := serve (.ofSettings {}) (fresh.watch ⟨[.root, .name [99]]⟩)
    (List.replicate 4 System.directoriesEverywhere)
  (serve (.ofSettings {}) (first.1.watch ⟨[.root, .name [97], .name [98]]⟩)
    (List.replicate 4 System.directoriesEverywhere)).1

/-- The same host after a watch on `/a` whose subscription is refused. -/
def refusedAbove : Host :=
  (serve (.ofSettings {}) (twoWatched.watch ⟨[.root, .name [97]]⟩)
    [System.directoriesEverywhere, subscriptionsRefused]).1

theorem twoWatched_history : History (.ofSettings {}) (fun _ => True)
    [.watch ⟨[.root, .name [97], .name [98]]⟩ (.ok ()), .watch ⟨[.root, .name [99]]⟩ (.ok ())]
    twoWatched := by
  refine .next (.next (.fresh [] .recursive) (.watch (.of_serve (fun _ _ => trivial) ?_)))
    (.watch (.of_serve (fun _ _ => trivial) ?_))
  · with_unfolding_all rfl
  · with_unfolding_all rfl

theorem refusedAbove_done : (Errand.watch ⟨[.root, .name [97]]⟩
    (.error (.watch (.pathFailed (Path.spelling ⟨[.root, .name [97]]⟩) "refused")))).Done
      (.ofSettings {}) (fun _ => True) twoWatched refusedAbove := by
  refine .watch (.of_serve (fun _ _ => trivial) ?_)
  with_unfolding_all rfl

/-- The watch on `/a` that was refused has ended the watch on `/a/b`, and left that on `/c`. -/
theorem failed_watch_drops_roots_below_refused :
    refusedAbove.roots.active[(⟨[.root, .name [97], .name [98]]⟩ : Path)]? = none ∧
      refusedAbove.roots.active[(⟨[.root, .name [99]]⟩ : Path)]? =
        twoWatched.roots.active[(⟨[.root, .name [99]]⟩ : Path)]? := by
  have left := (failed_watch_drops_roots_below _ _ _ _ _ twoWatched_history _ _ refusedAbove_done
    (by simp)).1
  exact ⟨left _, left _⟩

/-- A watch that fails ends the watch of a root below it. -/
theorem failed_watch_ends_watch_below :
    ∃ h h' : Host, History (.ofSettings {}) (fun _ => True)
        [.watch ⟨[.root, .name [97], .name [98]]⟩ (.ok ()), .watch ⟨[.root, .name [99]]⟩ (.ok ())] h ∧
      (Errand.watch ⟨[.root, .name [97]]⟩
        (.error (.watch (.pathFailed (Path.spelling ⟨[.root, .name [97]]⟩) "refused")))).Done
          (.ofSettings {}) (fun _ => True) h h' ∧
      h.watched = [⟨[.root, .name [97], .name [98]]⟩, ⟨[.root, .name [99]]⟩] ∧
      h'.watched = [⟨[.root, .name [99]]⟩] := by
  refine ⟨twoWatched, refusedAbove, twoWatched_history, refusedAbove_done, ?_, ?_⟩
  · decide +kernel
  · decide +kernel

end ProjectIndex.Watch
