import ProjectIndex.Proofs.Runs
import ProjectIndex.Proofs.Watch.Accounts
import ProjectIndex.Proofs.Watch.OpenRoots

/-!
# What becomes of the remarks of a request

Requests are interleaved in any way, on disks that change in any way, and roots may be withdrawn.  When
a request is answered, every wait that it ever had has come to its own end, whatever failed beside it,
and nothing that happens later is its doing.  If it fails, the error carries all remarks that were made
on its behalf, each once; what is behind the error is an answer that one of its waits got, or the fact
that there are errors among the remarks.  If it ends well and its generation is still in force, there
are none.
-/

namespace ProjectIndex.Watch

open Crawl (Task)

namespace System

/-- What the request with this number remarks in a move. -/
def pushes (policy : Policy) (i : Nat) (s : System) : Move → List Diagnostic
  | .resume j world schedule =>
    match s.calls[j]? with
    | some (.waiting call) => if j = i then call.pushes policy world schedule s.host.store else []
    | _ => []
  | _ => []

/-- All that the request with this number remarks in a run. -/
def remarked (policy : Policy) (s : System) (moves : List Move) (i : Nat) : List Diagnostic :=
  history (step policy) (fun s move _ => s.pushes policy i move) s moves

/-- In this move the request fails. -/
inductive FailsAt (policy : Policy) (s : System) (i : Nat) : Move → IndexError → Prop where
  | resume {call : Call} {world : World} {schedule : List Nat} {e : IndexError}
      (waits : s.calls[i]? = some (.waiting call))
      (fails : call.Fails policy world schedule s.host e) :
      FailsAt policy s i (.resume i world schedule) e

/-- The account of a request after a run. -/
def account (policy : Policy) (s : System) (moves : List Move) (i : Nat) : Account where
  remarks := s.remarked policy moves i
  failed e := ∃ before move, before ++ [move] <+: moves ∧ (s.run policy before).FailsAt policy i move e
  marred := ∃ before, before <+: moves ∧
    ∃ task ∈ ((s.run policy before).calls[i]?).bind Progress.task?, ∃ e, task.Failed e
  cancelled := ∃ before root g, before <+: moves ∧
    (s.run policy before).dutyAt i = some (.crawl root g) ∧
    (s.run policy moves).host.store.isStale g = true
  worked := ∃ before d, before <+: moves ∧ (s.run policy before).dutyAt i = some d

variable {policy : Policy} {s : System} {moves : List Move} {move : Move} {i : Nat}

theorem remarked_concat (policy : Policy) (s : System) (moves : List Move) (move : Move) (i : Nat) :
    s.remarked policy (moves ++ [move]) i =
      s.remarked policy moves i ++ (s.run policy moves).pushes policy i move :=
  history_concat _ _ s moves move

/-- What a move does for the request with this number: nothing, or the request is made, or one of its
waits is over. -/
inductive MoveAt (policy : Policy) (s : System) (i : Nat) (move : Move) : Prop where
  | same (calls : (s.step policy move).calls[i]? = s.calls[i]?)
      (pushes : s.pushes policy i move = [])
  | watched (root : Path) (new : s.calls[i]? = none)
      (calls : (s.step policy move).calls[i]? = some (s.host.watch root).2)
      (pushes : s.pushes policy i move = [])
  | refreshed (path : Path) (new : s.calls[i]? = none)
      (calls : (s.step policy move).calls[i]? = some (s.host.refresh policy path).2)
      (pushes : s.pushes policy i move = [])
  | resumed (call : Call) (world : World) (schedule : List Nat)
      (made : move = .resume i world schedule) (waits : s.calls[i]? = some (.waiting call))
      (host : (s.step policy move).host = (call.step policy world schedule s.host).1)
      (calls : (s.step policy move).calls[i]? = some (call.step policy world schedule s.host).2)
      (pushes : s.pushes policy i move = call.pushes policy world schedule s.host.store)

theorem moveAt (policy : Policy) (s : System) (i : Nat) (move : Move) : s.MoveAt policy i move := by
  have appended : ∀ p : Progress, (s.calls ++ [p])[i]? = s.calls[i]? ∨
      (s.calls[i]? = none ∧ (s.calls ++ [p])[i]? = some p) := by
    intro p
    rcases Nat.lt_trichotomy i s.calls.length with inside | rfl | beyond
    · exact Or.inl (List.getElem?_append_left inside)
    · exact Or.inr ⟨List.getElem?_eq_none (Nat.le_refl _), List.getElem?_concat_length⟩
    · refine Or.inl ?_
      rw [List.getElem?_eq_none (by simp; omega), List.getElem?_eq_none (by omega)]
  cases move with
  | watch root =>
    rcases appended (s.host.watch root).2 with same | ⟨new, calls⟩
    · exact .same same rfl
    · exact .watched root new calls rfl
  | refresh path =>
    rcases appended (s.host.refresh policy path).2 with same | ⟨new, calls⟩
    · exact .same same rfl
    · exact .refreshed path new calls rfl
  | unwatch root => exact .same rfl rfl
  | resume j world schedule =>
    cases waits : s.calls[j]? with
    | none =>
      refine .same ?_ ?_
      · rw [step, waits]
      · rw [pushes, waits]
    | some progress =>
      cases progress with
      | finished reply =>
        refine .same ?_ ?_
        · rw [step, waits]
        · rw [pushes, waits]
      | waiting call =>
        by_cases own : j = i
        · subst own
          refine .resumed call world schedule rfl waits ?_ ?_ ?_
          · rw [step, waits]
          · rw [step, waits]
            exact List.getElem?_set_self (List.getElem?_eq_some_iff.1 waits).1
          · rw [pushes, waits]
            exact if_pos rfl
        · refine .same ?_ ?_
          · rw [step, waits]
            exact List.getElem?_set_ne own
          · rw [pushes, waits]
            exact if_neg own

/-- The last move of a run enters the account of a request. -/
structure EntersAccount (policy : Policy) (s : System) (moves : List Move) (move : Move) (i : Nat) :
    Prop where
  failed : ∀ e, (s.account policy moves i).failed e → (s.account policy (moves ++ [move]) i).failed e
  fails : ∀ e, (s.run policy moves).FailsAt policy i move e →
    (s.account policy (moves ++ [move]) i).failed e
  marred : (s.account policy (moves ++ [move]) i).marred → (s.account policy moves i).marred ∨
    ∃ task ∈ (((s.run policy moves).step policy move).calls[i]?).bind Progress.task?,
      ∃ e, task.Failed e
  cancelled : (s.account policy moves i).cancelled → (s.account policy (moves ++ [move]) i).cancelled
  stale : ∀ root g, (s.run policy moves).dutyAt i = some (.crawl root g) →
    ((s.run policy moves).step policy move).host.store.isStale g = true →
    (s.account policy (moves ++ [move]) i).cancelled
  worked : (s.account policy (moves ++ [move]) i).worked → (s.account policy moves i).worked ∨
    ∃ d, ((s.run policy moves).step policy move).dutyAt i = some d

theorem enters (policy : Policy) (s : System) (moves : List Move) (move : Move) (i : Nat) :
    s.EntersAccount policy moves move i where
  failed e happened := exists_prefix_concat.2 (Or.inl happened)
  fails e now := exists_prefix_concat.2 (Or.inr now)
  marred := by
    rintro ⟨before, within, failed⟩
    rcases List.prefix_concat_iff.1 within with rfl | earlier
    · rw [run_concat] at failed
      exact Or.inr failed
    · exact Or.inl ⟨before, earlier, failed⟩
  cancelled := by
    rintro ⟨before, root, g, within, works, stale⟩
    refine ⟨before, root, g, within.trans (List.prefix_append _ _), works, ?_⟩
    rw [run_concat]
    exact step_isStale stale policy move
  stale root g works stale := by
    refine ⟨moves, root, g, List.prefix_append _ _, works, ?_⟩
    rw [run_concat]
    exact stale
  worked := by
    rintro ⟨before, d, within, works⟩
    rcases List.prefix_concat_iff.1 within with rfl | earlier
    · rw [run_concat] at works
      exact Or.inr ⟨d, works⟩
    · exact Or.inl ⟨before, d, earlier, works⟩

/-- The request stands where its account says, and as long as it is not made its account is empty. -/
structure AccountKept (policy : Policy) (s : System) (moves : List Move) (i : Nat) : Prop where
  kept : ∀ progress ∈ (s.run policy moves).calls[i]?, progress.Honours (s.account policy moves i)
  unmade : (s.run policy moves).calls[i]? = none → (s.account policy moves i).remarks = [] ∧
    ¬ (s.account policy moves i).marred ∧ ¬ (s.account policy moves i).worked

theorem AccountKept.of_honours {progress : Progress}
    (made : (s.run policy moves).calls[i]? = some progress)
    (honours : progress.Honours (s.account policy moves i)) : s.AccountKept policy moves i where
  kept progress' member := by
    obtain rfl := Option.some.inj (made.symm.trans member)
    exact honours
  unmade new := by
    rw [made] at new
    cases new

/-- Every move enters the accounts. -/
theorem AccountKept.concat (accountKept : s.AccountKept policy moves i) (move : Move) :
    s.AccountKept policy (moves ++ [move]) i := by
  obtain ⟨kept, unmade⟩ := accountKept
  have enters := s.enters policy moves move i
  have remarks : (s.account policy (moves ++ [move]) i).remarks = _ :=
    s.remarked_concat policy moves move i
  have after : (s.run policy (moves ++ [move])).calls[i]? =
      ((s.run policy moves).step policy move).calls[i]? := by
    rw [run_concat]
  cases (s.run policy moves).moveAt policy i move with
  | same calls pushes =>
    rw [pushes, List.append_nil] at remarks
    have marred : (s.account policy (moves ++ [move]) i).marred →
        (s.account policy moves i).marred := by
      intro now
      rcases enters.marred now with earlier | here
      · exact earlier
      · rw [calls] at here
        exact ⟨moves, List.prefix_rfl, here⟩
    have worked : (s.account policy (moves ++ [move]) i).worked →
        (s.account policy moves i).worked := by
      intro now
      rcases enters.worked now with earlier | ⟨d, here⟩
      · exact earlier
      · rw [dutyAt, calls] at here
        exact ⟨moves, d, List.prefix_rfl, here⟩
    refine ⟨fun progress member => ?_, fun new => ?_⟩
    · rw [after, calls] at member
      exact (kept progress member).mono remarks enters.failed marred enters.cancelled worked
    · rw [after, calls] at new
      obtain ⟨silent, clean, idle⟩ := unmade new
      exact ⟨remarks.trans silent, fun now => clean (marred now), fun now => idle (worked now)⟩
  | watched root new calls pushes =>
    obtain ⟨silent, clean, idle⟩ := unmade new
    rw [pushes, List.append_nil] at remarks
    apply AccountKept.of_honours (after.trans calls)
    apply Host.watch_honours root _ (remarks.trans silent)
    · intro now
      rcases enters.marred now with earlier | ⟨task, here, _⟩
      · exact clean earlier
      · rw [calls, Option.bind_some, Host.watch_task] at here
        cases here
    · intro none now
      rcases enters.worked now with earlier | ⟨d, here⟩
      · exact idle earlier
      · rw [dutyAt, calls, Option.bind_some, none] at here
        cases here
  | refreshed path new calls pushes =>
    obtain ⟨silent, clean, idle⟩ := unmade new
    rw [pushes, List.append_nil] at remarks
    apply AccountKept.of_honours (after.trans calls)
    apply Host.refresh_honours policy path _ (remarks.trans silent)
    intro now
    rcases enters.marred now with earlier | here
    · exact absurd earlier clean
    · rw [calls] at here
      exact here
  | resumed call world schedule made waits host calls pushes =>
    subst made
    rw [pushes] at remarks
    apply AccountKept.of_honours (after.trans calls)
    apply Call.step_honours (kept (.waiting call) waits)
    refine { remarks, failed := enters.failed, fails := ?_, marred := ?_, cancelled := ?_, worked := ?_ }
    · intro e fails
      exact enters.fails e (.resume waits fails)
    · intro now
      rcases enters.marred now with earlier | here
      · exact Or.inl earlier
      · rw [calls] at here
        exact Or.inr here
    · intro root g works stale
      refine enters.stale root g ?_ (host ▸ stale)
      rw [dutyAt, waits]
      exact works
    · intro _ none now
      rcases enters.worked now with earlier | ⟨d, here⟩
      · exact earlier
      · rw [dutyAt, calls, Option.bind_some, none] at here
        cases here

end System

end ProjectIndex.Watch
