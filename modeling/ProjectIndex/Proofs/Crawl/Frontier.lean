import ProjectIndex.Proofs.Crawl.Failing
import ProjectIndex.Proofs.Crawl.Leaves

/-!
# The frontier of a crawl

The frontier of a task are the single waits that are under way.  A move takes one of them, does what
is to be done when it is over, and leaves all the others where they are; what it adds are the waits
that follow and the entries that it starts.  So nothing that was started is ever dropped, least of
all when a sibling fails, and a crawl that has ended has no wait left.

A failure of the crawl is the failure of one of its waits, and what a wait fails with is an answer of
the world.  None of this asks whether the generation is still in force.
-/

namespace ProjectIndex.Crawl

mutual

def Task.frontier : Task → List Task
  | .inOrder _ current _ _ => current.frontier
  | .together _ running _ => Task.frontiers running
  | task => [task]

def Task.frontiers : List Task → List Task
  | [] => []
  | task :: rest => task.frontier ++ Task.frontiers rest

end

def Progress.frontier : Progress → List Task
  | .waiting task => task.frontier
  | .finished _ => []

/-- The world answers what the wait is for with a failure, other than that nothing is there. -/
inductive Task.Refused (world : World) : Task → IndexError → Prop where
  | entry {p : Path} {cause : DiskError} (answer : world.entry p = .error cause)
      (other : cause.isNotFound = false) : Refused world (.entry p) (.io p.spelling cause)
  | list {dir : Path} {known : Bool} {cause : DiskError} (answer : world.children dir = .error cause)
      (other : cause.isNotFound = false) :
      Refused world (.list dir known) (.io dir.spelling cause)
  | reading {a : Arrival} {path directory : Path} {cause : DiskError}
      (answer : world.contents path = .error cause) (other : cause.isNotFound = false) :
      Refused world (.manifest a (.reading path directory)) (.io path.spelling cause)

namespace Task

theorem Single.frontier {task : Task} (single : task.Single) : task.frontier = [task] := by
  cases task with
  | inOrder | together => exact absurd single id
  | begin | entry | subscribe | list | project | manifest => rfl

theorem frontiers_append (left right : List Task) :
    frontiers (left ++ right) = frontiers left ++ frontiers right := by
  induction left with
  | nil => rfl
  | cons task rest ih => rw [List.cons_append, frontiers, frontiers, ih, List.append_assoc]

/-- The waits of one of the entries that are crawled at once, and those of the others. -/
theorem frontiers_split (before after : List Task) (task : Task) :
    (frontiers (before ++ task :: after)).Perm (task.frontier ++ frontiers (before ++ after)) := by
  rw [frontiers_append, frontiers_append, frontiers, ← List.append_assoc, ← List.append_assoc]
  exact List.perm_append_comm.append_right _

/-- Entries that are started are waits of their own. -/
theorem frontiers_begin (rest : List Path) :
    frontiers (rest.map .begin) = rest.map .begin := by
  induction rest with
  | nil => rfl
  | cons p rest ih => rw [List.map_cons, frontiers, ih]; rfl

end Task

theorem publish_unfailing (d : Definition) (s : Scope) (e : IndexError) :
    (Declaration.publish d s).2 ≠ .finished (.error e) := by
  rintro ⟨⟩

theorem install_unfailing (policy : Policy) (g : Generation) (r : Declaration.Request)
    (bytes : List UInt8) (s : Scope) (e : IndexError) :
    (Declaration.install policy g r bytes s).2 ≠ .finished (.error e) := by
  unfold Declaration.install
  split
  · simp
  · dsimp only
    split
    · simp
    · split
      · simp
      · split
        · simp
        · exact publish_unfailing _ _ e

section

variable {ctx : Context} {world : World}

theorem announce_unfailing (a : Arrival) (s : Scope) (e : IndexError) :
    ¬ (ctx.announce a s).2.Failed e := by
  obtain ⟨changed, ends⟩ := @announce_ends ctx a s
  simp [Progress.Failed, ends]

/-- A file fails with what its declaration fails with. -/
theorem resume_fails {a : Arrival} {r : Scope × Declaration.Progress} {e : IndexError}
    (failed : (ctx.resume a r).2.Failed e) : r.2 = .finished (.error e) := by
  obtain ⟨s, d | result⟩ := r
  · cases failed
  · cases result with
    | ok installed => exact absurd failed (announce_unfailing a s e)
    | error e' =>
      cases failed
      rfl

theorem declareManifest_unfailing (a : Arrival) (s : Scope) (e : IndexError) :
    ¬ (ctx.declareManifest a s).2.Failed e := by
  have declared := manifestDeclared ctx a s
  generalize ctx.declareManifest a s = r at declared ⊢
  cases declared with
  | unnamed => exact announce_unfailing a s e
  | skipped => exact announce_unfailing a _ e
  | reading => rintro ⟨⟩

theorem addFile_unfailing (file : Path) (status : Status) (s : Scope) (e : IndexError) :
    ¬ (ctx.addFile file status s).2.Failed e := by
  have declared : ∀ a s, ¬ (ctx.declareFile a s).2.Failed e := by
    intro a s
    unfold Context.declareFile
    split
    · rintro ⟨⟩
    · exact declareManifest_unfailing a s e
  have added := fileAdded ctx file status s
  generalize ctx.addFile file status s = r at added ⊢
  cases added with
  | unchanged | ignored | withdrawn => simp [Progress.Failed]
  | registered => exact declared _ _

theorem addDirectory_unfailing (dir : Path) (status : Status) (s : Scope) (e : IndexError) :
    ¬ (ctx.addDirectory dir status s).2.Failed e := by
  have added := directoryAdded ctx dir status s
  generalize ctx.addDirectory dir status s = r at added ⊢
  cases added with
  | unchanged | ignored | withdrawn => simp [Progress.Failed]
  | subscribing | listing => rintro ⟨⟩

/-- The entries of a directory are started without a failure. -/
theorem nextInOrder_unfailing (dir : Path) (queue rest : List Path) (s : Scope) (e : IndexError) :
    ¬ (ctx.nextInOrder dir queue rest s).2.Failed e := by
  have goesOn := entriesNext ctx s dir queue rest
  generalize ctx.nextInOrder dir queue rest s = r at goesOn ⊢
  cases goesOn with
  | next =>
    intro failed
    cases failed with
    | inOrder failed => cases failed
  | others =>
    intro failed
    cases failed with
    | among member failed =>
      obtain ⟨p, _, rfl⟩ := List.mem_map.1 member
      cases failed
  | done => rintro ⟨⟩

/-- The waits that a directory goes on with are for entries of which nothing is known. -/
theorem frontier_nextInOrder (dir : Path) (queue rest : List Path) (s : Scope) :
    ∀ wait ∈ (ctx.nextInOrder dir queue rest s).2.frontier, wait.Starts := by
  have goesOn := entriesNext ctx s dir queue rest
  generalize ctx.nextInOrder dir queue rest s = r at goesOn ⊢
  cases goesOn with
  | next =>
    intro wait member
    obtain rfl := List.mem_singleton.1 member
    trivial
  | others =>
    intro wait member
    rw [Progress.frontier, Task.frontier, Task.frontiers_begin] at member
    obtain ⟨p, _, rfl⟩ := List.mem_map.1 member
    trivial
  | done => simp [Context.finishDirectory, Progress.frontier]

/-- What a single wait fails with is what the world answered, and nothing else comes of it. -/
theorem Task.Moves.refused {s : Scope} {wait : Task} {r : Scope × Progress} {e : IndexError}
    (moved : Task.Moves ctx world s wait r) (single : wait.Single) (failed : r.2.Failed e) :
    r = (s, .finished (.error e)) ∧ wait.Refused world e := by
  cases moved with
  | begin p =>
    unfold Context.addEntry at failed
    split at failed <;> cases failed
  | entry p =>
    cases answer : world.entry p with
    | error cause =>
      rw [answer] at failed
      unfold Context.examined at failed ⊢
      dsimp only at failed ⊢
      split at failed
      · split at failed <;> cases failed
      next other =>
        cases failed
        rw [if_neg other]
        exact ⟨rfl, .entry answer (by simpa using other)⟩
    | ok status =>
      rw [answer] at failed
      unfold Context.examined at failed
      dsimp only at failed
      split at failed
      · exact absurd failed (addDirectory_unfailing p status _ e)
      · exact absurd failed (addFile_unfailing p status _ e)
      · cases failed
  | subscribe dir known => cases failed
  | list dir known =>
    cases answer : world.children dir with
    | error cause =>
      rw [answer] at failed
      unfold Context.listed at failed ⊢
      dsimp only at failed ⊢
      split at failed
      · cases failed
      next other =>
        cases failed
        rw [if_neg other]
        exact ⟨rfl, .list answer (by simpa using other)⟩
    | ok children =>
      rw [answer] at failed
      unfold Context.listed at failed
      dsimp only at failed
      split at failed
      · cases failed
      · exact absurd failed (nextInOrder_unfailing dir _ _ _ e)
  | project a root => exact absurd failed (declareManifest_unfailing a _ e)
  | manifest a d =>
    have declared := resume_fails failed
    cases d with
    | reading path directory =>
      unfold Declaration.step at declared ⊢
      dsimp only at declared ⊢
      cases answer : world.contents path with
      | ok bytes =>
        rw [answer] at declared
        exact absurd declared (install_unfailing _ _ _ bytes s e)
      | error cause =>
        rw [answer] at declared
        dsimp only at declared ⊢
        split at declared
        · cases declared
        next other =>
          cases declared
          rw [if_neg other]
          exact ⟨rfl, .reading answer (by simpa using other)⟩
    | declaring d => exact absurd declared (publish_unfailing d _ e)
    | publishing d => cases declared
  | inOrder | inOrderFailed | inOrderDone | together | togetherDone | togetherLast | togetherNone =>
    exact absurd single id

/-- A move as the end of one of the waits under way.  A task that waits for nothing only comes to its
end. -/
inductive Task.Ends (ctx : Context) (world : World) (s : Scope) (task : Task)
    (r : Scope × Progress) : Prop where
  | wait {wait : Task} {r' : Scope × Progress} (others started : List Task) (single : wait.Single)
      (moved : Moves ctx world s wait r') (before : task.frontier.Perm (wait :: others))
      (after : r.2.frontier.Perm (r'.2.frontier ++ (started ++ others)))
      (starts : ∀ t ∈ started, t.Starts)
      (failed : ∀ e, r.2.Failed e → task.Failed e ∨ r'.2 = .finished (.error e))
      (fails : ∀ e, r'.2.Failed e → ∃ e', r.2.Failed e') (quiet : r'.1.store.Quiet r.1.store)
  | idle (started : List Task) (after : r.2.frontier.Perm (started ++ task.frontier))
      (starts : ∀ t ∈ started, t.Starts) (failed : ∀ e, r.2.Failed e → task.Failed e)
      (quiet : s.store.Quiet r.1.store)

/-- What is around a task, with other waits beside it, may start entries when the task has moved. -/
theorem Task.Ends.around {s : Scope} {task outer : Task} {r R : Scope × Progress}
    (ends : task.Ends ctx world s r) (rest new : List Task)
    (before : outer.frontier.Perm (task.frontier ++ rest))
    (after : R.2.frontier.Perm (r.2.frontier ++ (new ++ rest))) (starts : ∀ t ∈ new, t.Starts)
    (inner : ∀ e, task.Failed e → outer.Failed e)
    (failed : ∀ e, R.2.Failed e → outer.Failed e ∨ r.2.Failed e)
    (fails : ∀ e, r.2.Failed e → ∃ e', R.2.Failed e') (quiet : r.1.store.Quiet R.1.store) :
    outer.Ends ctx world s R := by
  cases ends with
  | @wait wait r' others started single moved before' after' starts' failed' fails' quiet' =>
    refine .wait (others ++ rest) (started ++ new) single moved ?_ ?_ ?_ ?_ ?_ (quiet'.trans quiet)
    · exact before.trans (before'.append_right rest)
    · refine after.trans ((after'.append_right _).trans ?_)
      rw [List.append_assoc, List.append_assoc, List.append_assoc]
      exact ((List.perm_append_comm_assoc others new rest).append_left started).append_left _
    · intro t member
      exact (List.mem_append.1 member).elim (starts' t) (starts t)
    · intro e now
      rcases failed e now with earlier | now
      · exact Or.inl earlier
      · exact (failed' e now).imp_left (inner e)
    · intro e now
      obtain ⟨e', now⟩ := fails' e now
      exact fails e' now
  | idle started after' starts' failed' quiet' =>
    refine .idle (started ++ new) ?_ ?_ ?_ (quiet'.trans quiet)
    · refine after.trans ((after'.append_right _).trans ?_)
      rw [List.append_assoc, List.append_assoc]
      refine List.Perm.append_left started ?_
      exact (List.perm_append_comm_assoc _ new rest).trans (before.symm.append_left new)
    · intro t member
      exact (List.mem_append.1 member).elim (starts' t) (starts t)
    · intro e now
      rcases failed e now with earlier | now
      · exact earlier
      · exact inner e (failed' e now)

/-- The end of a single wait is the end of the only one. -/
theorem Task.Moves.ends_single {s : Scope} {task : Task} {r : Scope × Progress}
    (moved : Task.Moves ctx world s task r) (single : task.Single) : task.Ends ctx world s r := by
  refine .wait [] [] single moved ?_ ?_ (by simp) ?_ (fun e now => ⟨e, now⟩) (.refl _)
  · rw [single.frontier]
  · simp
  · exact fun e failed => Or.inr (congrArg Prod.snd (moved.refused single failed).1)

/-- A failure is on record when an entry has failed, whether it is the first one or not. -/
theorem failure_recorded {result : Except IndexError Bool} {e : IndexError}
    (failed : (Progress.finished result).Failed e) (failure : Option IndexError) :
    ∃ first, (failure <|> failureOf result) = some first := by
  obtain rfl : result = .error e := failed
  cases failure with
  | none => exact ⟨e, rfl⟩
  | some first => exact ⟨first, rfl⟩

/-- The first failure counts. -/
theorem failure_or_result {result : Except IndexError Bool} {failure : Option IndexError}
    {e : IndexError} (recorded : (failure <|> failureOf result) = some e) :
    failure = some e ∨ result = .error e := by
  cases failure with
  | some first => exact Or.inl recorded
  | none =>
    cases result with
    | ok changed => cases recorded
    | error e' => exact Or.inr (congrArg Except.error (Option.some.inj recorded))

/-- Every move is the end of one of the waits under way. -/
theorem Task.Moves.ends {s : Scope} {task : Task} {r : Scope × Progress}
    (moved : Task.Moves ctx world s task r) : task.Ends ctx world s r := by
  induction moved with
  | begin p => exact (Task.Moves.begin p).ends_single trivial
  | entry p => exact (Task.Moves.entry p).ends_single trivial
  | subscribe dir known => exact (Task.Moves.subscribe dir known).ends_single trivial
  | list dir known => exact (Task.Moves.list dir known).ends_single trivial
  | project a root => exact (Task.Moves.project a root).ends_single trivial
  | manifest a d => exact (Task.Moves.manifest a d).ends_single trivial
  | inOrder dir queue rest moved ih =>
    refine ih.around [] [] (by simp [Task.frontier]) (by simp [Progress.frontier, Task.frontier])
      (by simp) (fun e => .inOrder) (fun e failed => ?_) (fun e now => ⟨e, .inOrder now⟩) (.refl _)
    cases failed with
    | inOrder failed => exact Or.inr failed
  | inOrderFailed dir queue rest moved ih =>
    exact ih.around [] [] (by simp [Task.frontier]) (by simp [Progress.frontier]) (by simp)
      (fun e => .inOrder) (fun e failed => Or.inr failed) (fun e now => ⟨e, now⟩) (.refl _)
  | @inOrderDone s' current changed dir queue rest moved ih =>
    refine ih.around [] (ctx.nextInOrder dir queue rest s').2.frontier (by simp [Task.frontier])
      (by simp [Progress.frontier]) (frontier_nextInOrder dir queue rest s') (fun e => .inOrder)
      (fun e failed => ?_) (fun e now => by cases now) (quiet_nextInOrder dir queue rest s')
    exact absurd failed (nextInOrder_unfailing dir queue rest s' e)
  | together dir before after failure moved ih =>
    refine ih.around (Task.frontiers (before ++ after)) [] (Task.frontiers_split before after _)
      (Task.frontiers_split before after _) (by simp) (fun e => .among (by simp))
      (fun e failed => ?_) (fun e now => ⟨e, .among (by simp) now⟩) (.refl _)
    cases failed with
    | together => exact Or.inl (.together dir _)
    | among member failed =>
      rcases List.mem_append.1 member with left | right
      · exact Or.inl (.among (by simp [left]) failed)
      · rcases List.mem_cons.1 right with rfl | right
        · exact Or.inr failed
        · exact Or.inl (.among (by simp [right]) failed)
  | @togetherDone s' task result dir before after failure moved left ih =>
    refine ih.around (Task.frontiers (before ++ after)) [] (Task.frontiers_split before after _)
      (by simp [Progress.frontier, Task.frontier]) (by simp) (fun e => .among (by simp))
      (fun e failed => ?_) (fun e now => ?fails) (.refl _)
    case fails =>
      obtain ⟨first, recorded⟩ := failure_recorded now failure
      rw [recorded]
      exact ⟨first, .together dir _⟩
    generalize recorded : (failure <|> failureOf result) = outcome at failed
    cases failed with
    | together =>
      rcases failure_or_result recorded with rfl | rfl
      · exact Or.inl (.together dir _)
      · exact Or.inr rfl
    | among member failed =>
      rcases List.mem_append.1 member with before | after
      · exact Or.inl (.among (by simp [before]) failed)
      · exact Or.inl (.among (by simp [after]) failed)
  | @togetherLast s' task result dir failure moved ih =>
    have ends : (conclude dir (failure <|> failureOf result) s').2.frontier = [] := by
      unfold conclude
      split <;> rfl
    refine ih.around [] [] (by simp [Task.frontier, Task.frontiers]) (by rw [ends]; rfl) (by simp)
      (fun e => .among (by simp)) (fun e failed => ?_) (fun e now => ?fails)
      (quiet_conclude dir _ s')
    case fails =>
      obtain ⟨first, recorded⟩ := failure_recorded now failure
      exact ⟨first, failed_conclude.2 recorded⟩
    rcases failure_or_result (failed_conclude.1 failed) with rfl | rfl
    · exact Or.inl (.together dir _)
    · exact Or.inr rfl
  | togetherNone dir failure =>
    have ends : (conclude dir failure s).2.frontier = [] := by
      unfold conclude
      split <;> rfl
    refine .idle [] (by simp [ends, Task.frontier, Task.frontiers]) (by simp)
      (fun e failed => ?_) (quiet_conclude dir failure s)
    rw [failed_conclude] at failed
    exact failed ▸ .together dir _

end

end ProjectIndex.Crawl
