import ProjectIndex.Proofs.Crawl.Frontier
import ProjectIndex.Proofs.Crawl.Sinks
import ProjectIndex.Proofs.Watch.Announcements

/-!
# The account of a request

What is known of a request from what was done for it: its remarks, the failures that its waits ended
with, whether some entry of its crawl had failed while others were under way, whether its generation is
cancelled, and whether it has worked at all.  A request that waits has made the remarks of its account;
and one that is answered was answered with an error that its account explains, or has a clean account.
Whatever is done when a wait of the request is over enters the account.

What is remarked in a step is found out by making the same step with no remark made before.
-/

namespace ProjectIndex

namespace Watch

open Crawl (Task)

/-- The error that a request was answered with. -/
def Reply.error? : Reply → Option IndexError
  | .watched (.error e) => some e
  | .refreshed (.error e) => some e
  | _ => none

/-- The remarks that a request has made so far. -/
def Call.remarks : Call → List Diagnostic
  | .crawling _ _ _ remarks => remarks
  | .refreshing _ _ _ remarks => remarks
  | _ => []

/-- What a request remarks when its wait is over. -/
def Call.pushes (policy : Policy) (world : World) (schedule : List Nat) (store : Store) :
    Call → List Diagnostic
  | .opening root g status =>
    match world.openRoot root with
    | .ok () => ((firstCrawl policy g).addDirectory root status
        { store := store.rootTaken root }).1.remarks
    | .error _ => []
  | .crawling _ g task _ => (task.step (firstCrawl policy g) world schedule { store }).1.remarks
  | .refreshing _ g task _ => (task.step (refreshCrawl policy g) world schedule { store }).1.remarks
  | .joining _ _ | .draining _ _ | .looking _ _ => []

def Progress.frontier (progress : Progress) : List Task :=
  (progress.task?.map Task.frontier).getD []

/-- Where a crawl stands is where the request stands that it serves. -/
def Duty.resume : Duty → Roots → Scope × Crawl.Progress → Host × Progress
  | .crawl root g => Host.resumeWatch root g
  | .refresh path g => Host.resumeRefresh path g

theorem Duty.task_resume {d : Duty} {roots : Roots} {r : Scope × Crawl.Progress} {task : Task}
    (under : (d.resume roots r).2.task? = some task) : r.2 = .waiting task := by
  obtain ⟨s, task' | result⟩ := r
  · cases d <;> exact congrArg _ (Option.some.inj under)
  · cases d <;> cases under

theorem Duty.frontier_resume (d : Duty) (roots : Roots) (r : Scope × Crawl.Progress) :
    (d.resume roots r).2.frontier = r.2.frontier := by
  obtain ⟨s, task | result⟩ := r <;> cases d <;> rfl

/-- A request that crawls makes a step of its crawl. -/
theorem Call.step_of_task {call : Call} {task : Task}
    (under : (Progress.waiting call).task? = some task) :
    ∃ d, call.duty? = some d ∧ ∀ (policy : Policy) (world : World) (schedule : List Nat) (h : Host),
      call.step policy world schedule h = d.resume h.roots
          (task.step (d.context policy) world schedule ⟨h.store, call.remarks⟩) ∧
        call.pushes policy world schedule h.store =
          (task.step (d.context policy) world schedule { store := h.store }).1.remarks := by
  cases call with
  | joining | draining | looking | opening => cases under
  | crawling root g task remarks =>
    cases under
    exact ⟨.crawl root g, rfl, fun policy world schedule h => ⟨rfl, rfl⟩⟩
  | refreshing path g task remarks =>
    cases under
    exact ⟨.refresh path g, rfl, fun policy world schedule h => ⟨rfl, rfl⟩⟩

/-- What is known of a request from the moves that were made. -/
structure Account where
  /-- All its remarks. -/
  remarks : List Diagnostic
  /-- One of its waits ended with this failure. -/
  failed : IndexError → Prop
  /-- Some entry of its crawl had failed, and others were still under way. -/
  marred : Prop
  /-- The generation in which it crawled is cancelled. -/
  cancelled : Prop
  /-- It has worked on a crawl or a refresh. -/
  worked : Prop

/-- What is behind the error that the request was answered with: the failure of one of its waits, or
errors among its remarks, or the failure of another request for which it had only waited. -/
inductive Account.Explains (account : Account) (reply : Reply) : IndexError → Prop where
  | failure {failure : IndexError} (happened : account.failed failure) :
      Explains account reply (failure.withDiagnostics account.remarks)
  | found (root : Spelling) (found : account.remarks.any Diagnostic.isError = true)
      (clean : ¬ account.marred) : Explains account reply (.diagnostics root account.remarks)
  | joined {root : Spelling} (watched : reply = .watched (.error (.watchFailed root)))
      (silent : account.remarks = []) (idle : ¬ account.worked) :
      Explains account reply (.watchFailed root)

/-- The request stands where its account says. -/
def Progress.Honours (account : Account) : Progress → Prop
  | .waiting call => call.remarks = account.remarks ∧ (call.duty? = none → ¬ account.worked) ∧
      (∀ task ∈ (Progress.waiting call).task?, ∀ e, task.Failed e → account.failed e) ∧
      (account.marred → ∃ task ∈ (Progress.waiting call).task?, ∃ e, task.Failed e)
  | .finished reply => (∀ e ∈ reply.error?, account.Explains reply e) ∧
      (reply.error? = none → ¬ account.marred ∧
        (account.remarks.any Diagnostic.isError = true → account.cancelled))

/-- An account to which nothing is added but failures and the cancelling of the generation. -/
theorem Progress.Honours.mono {account account' : Account} {progress : Progress}
    (honours : progress.Honours account) (remarks : account'.remarks = account.remarks)
    (failed : ∀ e, account.failed e → account'.failed e)
    (marred : account'.marred → account.marred)
    (cancelled : account.cancelled → account'.cancelled)
    (worked : account'.worked → account.worked) : progress.Honours account' := by
  cases progress with
  | waiting call =>
    obtain ⟨same, idle, answers, kept⟩ := honours
    refine ⟨?_, fun none now => idle none (worked now), ?_, fun now => kept (marred now)⟩
    · rw [same, remarks]
    · exact fun task member e fails => failed e (answers task member e fails)
  | finished reply =>
    obtain ⟨explained, spotless⟩ := honours
    refine ⟨fun e member => ?_, fun well => ?_⟩
    · cases explained e member with
      | failure happened => exact remarks ▸ .failure (failed _ happened)
      | found root found clean =>
        exact remarks ▸ .found root (remarks.symm ▸ found) fun now => clean (marred now)
      | joined watched silent idle =>
        exact .joined watched (remarks.trans silent) fun now => idle (worked now)
    · obtain ⟨clean, stopped⟩ := spotless well
      exact ⟨fun now => clean (marred now), fun found => cancelled (stopped (remarks ▸ found))⟩

/-- A watch whose crawl has ended. -/
theorem Host.finishWatch_honours {account : Account} (root : Path) (g : Generation)
    (result : Except IndexError Bool) (h : Host) (failed : ∀ e, result = .error e → account.failed e)
    (marred : account.marred → ∃ e, result = .error e)
    (cancelled : ∀ changed, result = .ok changed →
      (finishWatch root g result account.remarks h).1.store.isStale g = true → account.cancelled) :
    (Progress.finished (.watched (finishWatch root g result account.remarks h).2)).Honours
      account := by
  cases result with
  | error e =>
    refine ⟨fun _ member => ?_, (fun well => by cases well)⟩
    cases member
    exact .failure (failed e rfl)
  | ok changed =>
    have clean : ¬ account.marred := by
      intro now
      obtain ⟨e, failed⟩ := marred now
      cases failed
    have stopped := cancelled changed rfl
    unfold finishWatch at stopped ⊢
    dsimp only at stopped ⊢
    split
    next stale =>
      rw [if_pos stale] at stopped
      exact ⟨(fun _ member => by cases member), fun _ => ⟨clean, fun _ => stopped stale⟩⟩
    · split
      next found =>
        refine ⟨fun _ member => ?_, (fun well => by cases well)⟩
        cases member
        exact .found root.spelling found clean
      next none =>
        exact ⟨(fun _ member => by cases member), fun _ => ⟨clean, fun found => absurd found none⟩⟩

theorem Host.finishRefresh_honours {account : Account} (path : Path)
    (result : Except IndexError Bool) (h : Host)
    (failed : ∀ e, result = .error e → account.failed e)
    (marred : account.marred → ∃ e, result = .error e) :
    (Progress.finished (.refreshed (finishRefresh path result account.remarks h).2)).Honours
      account := by
  cases result with
  | error e =>
    refine ⟨fun _ member => ?_, (fun well => by cases well)⟩
    cases member
    exact .failure (failed e rfl)
  | ok changed =>
    have clean : ¬ account.marred := by
      intro now
      obtain ⟨e, failed⟩ := marred now
      cases failed
    unfold finishRefresh
    dsimp only
    split
    next found =>
      refine ⟨fun _ member => ?_, (fun well => by cases well)⟩
      cases member
      exact .found path.spelling found clean
    next none =>
      exact ⟨(fun _ member => by cases member), fun _ => ⟨clean, fun found => absurd found none⟩⟩

/-- A crawl that stands where the account says, and the request that it serves. -/
theorem Duty.resume_honours {account : Account} (d : Duty) (roots : Roots)
    {r : Scope × Crawl.Progress} (remarks : r.1.remarks = account.remarks)
    (failed : ∀ e, r.2.Failed e → account.failed e)
    (marred : account.marred → ∃ e, r.2.Failed e)
    (cancelled : ∀ root g, d = .crawl root g →
      (d.resume roots r).1.store.isStale g = true → account.cancelled) :
    (d.resume roots r).2.Honours account := by
  obtain ⟨s, task | result⟩ := r
  · cases d with
    | crawl root g =>
      refine ⟨remarks, (fun idle => by cases idle), ?_, fun now => ⟨task, rfl, marred now⟩⟩
      rintro _ ⟨⟩
      exact failed
    | refresh path g =>
      refine ⟨remarks, (fun idle => by cases idle), ?_, fun now => ⟨task, rfl, marred now⟩⟩
      rintro _ ⟨⟩
      exact failed
  · dsimp only at remarks
    cases d with
    | crawl root g =>
      have stale := cancelled root g rfl
      dsimp only [Duty.resume, Host.resumeWatch] at stale ⊢
      rw [remarks] at stale ⊢
      exact Host.finishWatch_honours root g result _ failed marred fun _ _ => stale
    | refresh path g =>
      dsimp only [Duty.resume, Host.resumeRefresh]
      rw [remarks]
      exact Host.finishRefresh_honours path result _ failed marred

/-- A watch does not begin with a crawl. -/
theorem Host.watch_task (root : Path) (h : Host) : (h.watch root).2.task? = none := by
  rcases h.watch_cases root with ⟨_, _, idle⟩ | ⟨_, _, _, _, starts⟩
  · exact Progress.task?_of_idle idle
  · rw [starts]
    rfl

/-- A watch has nothing on its account when it is made. -/
theorem Host.watch_honours {account : Account} (root : Path) (h : Host)
    (silent : account.remarks = []) (clean : ¬ account.marred)
    (idle : (h.watch root).2.duty? = none → ¬ account.worked) :
    (h.watch root).2.Honours account := by
  unfold Host.watch at idle ⊢
  cases planned : h.roots.plan root with
  | join above g =>
    rw [planned] at idle
    exact ⟨silent.symm, fun _ => idle rfl, by simp [Progress.task?], fun now => absurd now clean⟩
  | covered above => exact ⟨by simp [Reply.error?], by simp [silent, clean]⟩
  | drain below =>
    rw [planned] at idle
    exact ⟨silent.symm, fun _ => idle rfl, by simp [Progress.task?], fun now => absurd now clean⟩
  | start subsumed =>
    exact ⟨silent.symm, (fun none => by cases none), by simp [Progress.task?],
      fun now => absurd now clean⟩

/-- A refresh is answered at once, with nothing done, or begins with its path. -/
theorem Host.refresh_begins (policy : Policy) (path : Path) (h : Host) :
    (h.refresh policy path).2 = .finished (.refreshed (.ok false)) ∨
      ∃ g, (h.refresh policy path).2 = .waiting (.refreshing path g (.entry path) []) := by
  unfold Host.refresh
  split
  · exact Or.inl rfl
  next g _ =>
    unfold Crawl.Context.refresh
    split
    · unfold Crawl.Context.addEntry
      split
      · exact Or.inl rfl
      · exact Or.inr ⟨g, rfl⟩
    · exact Or.inl rfl

/-- A refresh has nothing on its account when it is made. -/
theorem Host.refresh_honours {account : Account} (policy : Policy) (path : Path) (h : Host)
    (silent : account.remarks = [])
    (clean : account.marred → ∃ task ∈ (h.refresh policy path).2.task?, ∃ e, task.Failed e) :
    (h.refresh policy path).2.Honours account := by
  rcases h.refresh_begins policy path with ended | ⟨g, begins⟩
  · rw [ended] at clean ⊢
    refine ⟨by simp [Reply.error?], fun _ => ⟨fun now => ?_, by simp [silent]⟩⟩
    obtain ⟨task, member, _⟩ := clean now
    cases member
  · rw [begins] at clean ⊢
    refine ⟨silent.symm, (fun none => by cases none), ?_, clean⟩
    rintro _ ⟨⟩ e ⟨⟩

/-- This wait of the request is over: what is to be done then is done, with `next` to follow, and all
its other waits stay. -/
inductive Call.Ends (policy : Policy) (world : World) (schedule : List Nat) (h : Host) (call : Call)
    (wait : Task) : Crawl.Progress → Prop where
  | wait {d : Duty} {task : Task} {s : Scope} {r : Scope × Crawl.Progress}
      {others started : List Task} (works : call.duty? = some d)
      (under : (Progress.waiting call).task? = some task) (store : s.store = h.store)
      (single : wait.Single) (moved : Task.Moves (d.context policy) world s wait r)
      (before : task.frontier.Perm (wait :: others))
      (after : (call.step policy world schedule h).2.frontier.Perm
        (r.2.frontier ++ (started ++ others)))
      (starts : ∀ t ∈ started, t.Starts) : Ends policy world schedule h call wait r.2

/-- A request fails by what it is answered: that its root is not there, or not a directory, or not to
be watched, or by what one of its waits ends with. -/
inductive Call.Fails (policy : Policy) (world : World) (schedule : List Nat) (h : Host) :
    Call → IndexError → Prop where
  | missing {root : Path} {g : Generation} {cause : DiskError}
      (answer : world.stat root = .error cause) : Fails policy world schedule h (.looking root g)
        (if cause.isNotFound then .notFound root.spelling else .io root.spelling cause)
  | special {root : Path} {g : Generation} {status : Status} (answer : world.stat root = .ok status)
      (other : status.kind ≠ .directory) :
      Fails policy world schedule h (.looking root g) (.notADirectory root.spelling)
  | refused {root : Path} {g : Generation} {status : Status} {e : SubscriptionError}
      (answer : world.openRoot root = .error e) :
      Fails policy world schedule h (.opening root g status) (.watch e)
  | wait {call : Call} {wait : Task} {e : IndexError}
      (ends : call.Ends policy world schedule h wait (.finished (.error e)))
      (refused : wait.Refused world e) : Fails policy world schedule h call e

section

variable {policy : Policy} {world : World} {schedule : List Nat} {h : Host} {call : Call}

/-- A failure has no remarks of its own. -/
theorem Call.Fails.found {e : IndexError} (fails : call.Fails policy world schedule h e) :
    e.found = [] := by
  cases fails with
  | @missing root g cause answer =>
    cases cause.isNotFound <;> rfl
  | special | refused => rfl
  | wait ends refused => cases refused <;> rfl

/-- The step of a request that crawls, seen from its waits: each is over now or stays, and what failed
failed before or fails now. -/
theorem Call.step_ends (policy : Policy) (world : World) (schedule : List Nat) (h : Host)
    {call : Call} {task : Task} {d : Duty} (under : (Progress.waiting call).task? = some task)
    (works : call.duty? = some d) :
    (∀ wait ∈ task.frontier, wait ∈ (call.step policy world schedule h).2.frontier ∨
        ∃ next, call.Ends policy world schedule h wait next) ∧
      ∀ e, (task.step (d.context policy) world schedule ⟨h.store, call.remarks⟩).2.Failed e →
        task.Failed e ∨ call.Fails policy world schedule h e := by
  obtain ⟨d', works', steps⟩ := call.step_of_task under
  obtain rfl := Option.some.inj (works.symm.trans works')
  have stepped := (steps policy world schedule h).1
  have ends := (Task.step_moves (d.context policy) world schedule task ⟨h.store, call.remarks⟩).ends
  have left : (call.step policy world schedule h).2.frontier =
      (task.step (d.context policy) world schedule ⟨h.store, call.remarks⟩).2.frontier := by
    rw [stepped, d.frontier_resume]
  cases ends with
  | @wait leaf r others started single moved before after starts failed _ _ =>
    have ended : call.Ends policy world schedule h leaf r.2 :=
      .wait works under rfl single moved before (left ▸ after) starts
    refine ⟨fun wait member => ?_, fun e now => ?_⟩
    · rcases List.mem_cons.1 (before.mem_iff.1 member) with rfl | other
      · exact Or.inr ⟨_, ended⟩
      · refine Or.inl ?_
        rw [left, after.mem_iff]
        simp [other]
    · rcases failed e now with earlier | here
      · exact Or.inl earlier
      · rw [here] at ended
        refine Or.inr (.wait ended (moved.refused single ?_).2)
        rw [here]
        rfl
  | idle started after starts failed _ =>
    refine ⟨fun wait member => Or.inl ?_, fun e now => Or.inl (failed e now)⟩
    rw [left, after.mem_iff]
    simp [member]

/-- A watch that ends before its crawl begins has nothing but the failure to tell. -/
theorem Host.failWatch_honours {account : Account} (root : Path) (g : Generation) (e : IndexError)
    (h : Host) (silent : account.remarks = []) (clean : ¬ account.marred)
    (failed : account.failed e) : (h.failWatch root g e).2.Honours account := by
  have ended := @Host.finishWatch_honours account root g (.error e) h
    (fun _ same => by cases same; exact failed) (fun now => absurd now clean)
    (fun _ same => by cases same)
  rw [silent] at ended
  exact ended

/-- The second account says what the first does, and what is done when this wait of the request is
over. -/
structure Account.Extends (policy : Policy) (world : World) (schedule : List Nat) (h : Host)
    (call : Call) (account account' : Account) : Prop where
  remarks : account'.remarks = account.remarks ++ call.pushes policy world schedule h.store
  failed : ∀ e, account.failed e → account'.failed e
  fails : ∀ e, call.Fails policy world schedule h e → account'.failed e
  marred : account'.marred → account.marred ∨
    ∃ task ∈ (call.step policy world schedule h).2.task?, ∃ e, task.Failed e
  cancelled : ∀ root g, call.duty? = some (.crawl root g) →
    (call.step policy world schedule h).1.store.isStale g = true → account'.cancelled
  worked : call.duty? = none → (call.step policy world schedule h).2.duty? = none →
    account'.worked → account.worked

variable {account account' : Account}

/-- A request goes on without a crawl, and has remarked nothing. -/
theorem Progress.honours_of_silent {call : Call} (silent : account.remarks = call.remarks)
    (idle : call.duty? = none → ¬ account.worked) (clean : ¬ account.marred)
    (under : (Progress.waiting call).task? = none) : (Progress.waiting call).Honours account := by
  refine ⟨silent.symm, idle, ?_, fun now => absurd now clean⟩
  intro task member
  rw [under] at member
  cases member

/-- The end of a wait of a crawl enters the account of the request. -/
theorem Call.step_honours_of_task {task : Task} (under : (Progress.waiting call).task? = some task)
    (honours : (Progress.waiting call).Honours account)
    (advances : account.Extends policy world schedule h call account') :
    (call.step policy world schedule h).2.Honours account' := by
  obtain ⟨carried, _, answers, kept⟩ := honours
  obtain ⟨d, works, steps⟩ := call.step_of_task under
  obtain ⟨stepped, pushes⟩ := steps policy world schedule h
  have later := (call.step_ends policy world schedule h under works).2
  have marred := advances.marred
  have cancelled := advances.cancelled
  rw [stepped] at marred cancelled ⊢
  have appended := Task.appends_step (d.context policy) world schedule task
    { store := h.store } call.remarks
  simp only [Scope.behind, List.append_nil] at appended
  apply d.resume_honours h.roots
  case remarks => rw [appended, advances.remarks, ← carried, pushes]
  case failed =>
    intro e now
    rcases later e now with earlier | here
    · exact advances.failed e (answers task under e earlier)
    · exact advances.fails e here
  case marred =>
    intro now
    rcases marred now with earlier | ⟨task', goesOn, e, fails⟩
    · obtain ⟨_, member, e, fails⟩ := kept earlier
      obtain rfl := Option.some.inj (under.symm.trans member)
      exact (Task.step_moves (d.context policy) world schedule task ⟨h.store, call.remarks⟩).fails
        fails
    · rw [Duty.task_resume goesOn]
      exact ⟨e, fails⟩
  case cancelled =>
    intro root g same stale
    exact cancelled root g (works.trans (congrArg some same)) stale

/-- Where there is no crawl yet, no entry has failed. -/
theorem Progress.Honours.clean (honours : (Progress.waiting call).Honours account)
    (under : (Progress.waiting call).task? = none) : ¬ account.marred := by
  intro now
  obtain ⟨task, member, _⟩ := honours.2.2.2 now
  rw [under] at member
  cases member

/-- Where there is no crawl yet and none begins, no entry has failed. -/
theorem Account.Extends.clean (advances : account.Extends policy world schedule h call account')
    (honours : (Progress.waiting call).Honours account)
    (under : (Progress.waiting call).task? = none)
    (after : (call.step policy world schedule h).2.task? = none) : ¬ account'.marred := by
  intro now
  rcases advances.marred now with earlier | ⟨task, member, _⟩
  · exact honours.clean under earlier
  · rw [after] at member
    cases member

theorem Call.step_joining_honours {root : Path} {g : Generation}
    (honours : (Progress.waiting (.joining root g)).Honours account)
    (advances : account.Extends policy world schedule h (.joining root g) account') :
    ((Call.joining root g).step policy world schedule h).2.Honours account' := by
  have silent : account'.remarks = [] := by
    rw [advances.remarks, ← honours.1]
    rfl
  have none := advances.worked rfl
  have clean := advances.clean honours rfl
  unfold step at none clean ⊢
  dsimp only at none clean ⊢
  cases outcome : h.roots.outcome? g with
  | none =>
    rw [outcome] at none clean
    exact Progress.honours_of_silent silent (fun _ now => honours.2.1 rfl (none rfl now))
      (clean rfl) rfl
  | some ok =>
    rw [outcome] at none clean
    cases ok with
    | true => exact ⟨by simp [Reply.error?], by simp [silent, clean rfl]⟩
    | false =>
      refine ⟨fun e member => ?_, (fun well => by cases well)⟩
      cases member
      exact .joined rfl silent fun now => honours.2.1 rfl (none rfl now)

theorem Call.step_draining_honours {root : Path} {below : List Generation}
    (honours : (Progress.waiting (.draining root below)).Honours account)
    (advances : account.Extends policy world schedule h (.draining root below) account') :
    ((Call.draining root below).step policy world schedule h).2.Honours account' := by
  have silent : account'.remarks = [] := by
    rw [advances.remarks, ← honours.1]
    rfl
  have none := advances.worked rfl
  have clean := advances.clean honours rfl
  unfold step at none clean ⊢
  dsimp only at none clean ⊢
  cases left : below.filter fun g => (h.roots.outcome? g).isNone with
  | nil =>
    rw [left] at none clean
    exact Host.watch_honours root h silent (clean (h.watch_task root)) fun still now =>
      honours.2.1 rfl (none still now)
  | cons g rest =>
    rw [left] at none clean
    exact Progress.honours_of_silent silent (fun _ now => honours.2.1 rfl (none rfl now))
      (clean rfl) rfl

theorem Call.step_looking_honours {root : Path} {g : Generation}
    (honours : (Progress.waiting (.looking root g)).Honours account)
    (advances : account.Extends policy world schedule h (.looking root g) account') :
    ((Call.looking root g).step policy world schedule h).2.Honours account' := by
  have silent : account'.remarks = [] := by
    rw [advances.remarks, ← honours.1]
    rfl
  have clean := advances.clean honours rfl
  unfold step at clean ⊢
  dsimp only at clean ⊢
  cases answer : world.stat root with
  | error cause =>
    rw [answer] at clean
    exact Host.failWatch_honours root g _ h silent (clean rfl)
      (advances.fails _ (.missing answer))
  | ok status =>
    rw [answer] at clean
    dsimp only at clean ⊢
    split
    next directory =>
      rw [if_pos directory] at clean
      exact Progress.honours_of_silent silent (fun none => by cases none)
        (clean rfl) rfl
    next other =>
      rw [if_neg other] at clean
      exact Host.failWatch_honours root g _ h silent
        (clean rfl) (advances.fails _ (.special answer other))

theorem Call.step_opening_honours {root : Path} {g : Generation} {status : Status}
    (honours : (Progress.waiting (.opening root g status)).Honours account)
    (advances : account.Extends policy world schedule h (.opening root g status) account') :
    ((Call.opening root g status).step policy world schedule h).2.Honours account' := by
  have remarks := advances.remarks
  rw [← honours.1, Call.pushes] at remarks
  have clean := advances.clean honours rfl
  have marred := advances.marred
  have stale := advances.cancelled root g rfl
  unfold step at clean marred stale ⊢
  dsimp only at clean marred stale ⊢
  cases answer : world.openRoot root with
  | error e =>
    rw [answer] at clean remarks
    exact Host.failWatch_honours root g _ h remarks (clean rfl)
      (advances.fails _ (.refused answer))
  | ok =>
    rw [answer] at marred stale remarks
    have fine := fun e => @Crawl.addDirectory_unfailing (firstCrawl policy g) root status
      { store := h.store.rootTaken root } e
    apply Duty.resume_honours (.crawl root g) h.roots
    case remarks => exact remarks.symm
    case failed => exact fun e now => absurd now (fine e)
    case marred =>
      intro now
      rcases marred now with earlier | ⟨task, member, e, failed⟩
      · exact absurd earlier (honours.clean rfl)
      · have waits := @Duty.task_resume (.crawl root g) h.roots _ task member
        refine absurd ?_ (fine e)
        rw [waits]
        exact failed
    case cancelled =>
      rintro root' g' ⟨⟩
      exact stale

/-- The end of a wait enters the account of the request. -/
theorem Call.step_honours (honours : (Progress.waiting call).Honours account)
    (advances : account.Extends policy world schedule h call account') :
    (call.step policy world schedule h).2.Honours account' := by
  cases call with
  | joining root g => exact step_joining_honours honours advances
  | draining root below => exact step_draining_honours honours advances
  | looking root g => exact step_looking_honours honours advances
  | opening root g status => exact step_opening_honours honours advances
  | crawling root g task remarks => exact step_honours_of_task rfl honours advances
  | refreshing path g task remarks => exact step_honours_of_task rfl honours advances

end

end Watch

end ProjectIndex
