import ProjectIndex.Proofs.Crawl.Outcomes

/-!
# Crawls that fail

When one of the entries of a directory fails, the entries that are crawled at once with it go on,
and the crawl of the directory ends with the failure when they have ended.  So a failure stays with
the task that it happened in until the crawl ends with one, and a crawl that ends well never had
one.  What a crawl fails with is an answer of the disk.
-/

namespace ProjectIndex.Crawl

/-- Some entry that the task dealt with has failed in this way. -/
inductive Task.Failed (e : IndexError) : Task → Prop where
  | inOrder {dir : Path} {current : Task} {queue rest : List Path} (failed : Failed e current) :
      Failed e (.inOrder dir current queue rest)
  | together (dir : Path) (running : List Task) : Failed e (.together dir running (some e))
  | among {dir : Path} {task : Task} {running : List Task} {failure : Option IndexError}
      (member : task ∈ running) (failed : Failed e task) : Failed e (.together dir running failure)

def Progress.Failed (e : IndexError) : Progress → Prop
  | .waiting task => task.Failed e
  | .finished result => result = .error e

/-- The failures of a directory whose entries have all ended are its own. -/
theorem failed_conclude {e : IndexError} {dir : Path} {failure : Option IndexError} {s : Scope} :
    (conclude dir failure s).2.Failed e ↔ failure = some e := by
  cases failure with
  | none => simp [conclude, Context.finishDirectory, Progress.Failed]
  | some e' => simp [conclude, Progress.Failed]

/-- A failure is not forgotten: it stays with the task, or the task ends with a failure. -/
theorem Task.Moves.fails {ctx : Context} {world : World} {s : Scope} {task : Task}
    {r : Scope × Progress} (moved : Task.Moves ctx world s task r) {e : IndexError}
    (failed : task.Failed e) : ∃ e', r.2.Failed e' := by
  induction moved generalizing e with
  | begin | entry | subscribe | list | project | manifest => cases failed
  | inOrder dir queue rest moved ih =>
    cases failed with
    | inOrder failed =>
      obtain ⟨e', later⟩ := ih failed
      exact ⟨e', .inOrder later⟩
  | inOrderFailed dir queue rest moved ih => exact ⟨_, rfl⟩
  | inOrderDone dir queue rest moved ih =>
    cases failed with
    | inOrder failed =>
      obtain ⟨e', later⟩ := ih failed
      cases later
  | together dir before after failure moved ih =>
    cases failed with
    | together => exact ⟨e, .together dir _⟩
    | among member failed =>
      rcases List.mem_append.1 member with left | right
      · exact ⟨e, .among (List.mem_append_left _ left) failed⟩
      · rcases List.mem_cons.1 right with rfl | right
        · obtain ⟨e', later⟩ := ih failed
          exact ⟨e', .among (by simp) later⟩
        · exact ⟨e, .among (by simp [right]) failed⟩
  | togetherDone dir before after failure moved left ih =>
    cases failed with
    | together => exact ⟨e, .together dir _⟩
    | among member failed =>
      rcases List.mem_append.1 member with before | after
      · exact ⟨e, .among (List.mem_append_left _ before) failed⟩
      · rcases List.mem_cons.1 after with rfl | after
        · obtain ⟨e', rfl⟩ := ih failed
          cases failure with
          | none => exact ⟨e', .together dir _⟩
          | some first => exact ⟨first, .together dir _⟩
        · exact ⟨e, .among (List.mem_append_right _ after) failed⟩
  | togetherLast dir failure moved ih =>
    cases failed with
    | together => exact ⟨e, failed_conclude.2 rfl⟩
    | among member failed =>
      obtain rfl := List.mem_singleton.1 member
      obtain ⟨e', rfl⟩ := ih failed
      cases failure with
      | none => exact ⟨e', failed_conclude.2 rfl⟩
      | some first => exact ⟨first, failed_conclude.2 rfl⟩
  | togetherNone dir failure =>
    cases failed with
    | together => exact ⟨e, failed_conclude.2 rfl⟩
    | among member failed => cases member

/-- A crawl that ended well has never failed. -/
theorem Served.fine {ctx : Context} {admits : World → Prop} {r : Scope × Progress} {s : Scope}
    {changed : Bool} (served : Served ctx admits r s (.ok changed)) (e : IndexError) :
    ¬ r.2.Failed e := by
  generalize ends : Except.ok changed = result at served
  induction served generalizing e with
  | finished s result =>
    intro failed
    cases ends.trans failed
  | step admitted moved rest ih =>
    intro failed
    obtain ⟨e', later⟩ := moved.fails failed
    exact ih e' ends later

theorem not_failed_following {dir : Path} {queue rest : List Path} {e : IndexError} :
    ¬ (following dir queue rest).Failed e := by
  unfold following
  split
  · split
    · simp [Progress.Failed]
    · intro failed
      cases failed with
      | among member failed =>
        obtain ⟨p, _, rfl⟩ := List.mem_map.1 member
        cases failed
  · intro failed
    cases failed with
    | inOrder failed => cases failed

/-- A file is registered without a failure. -/
theorem not_failed_addFile {ctx : Context} {s : Scope}
    (live : s.store.isStale ctx.generation = false) {file : Path} {status : Status} {e : IndexError} :
    ¬ (ctx.addFile file status s).2.Failed e := by
  rcases addFile_outcome live file status with ⟨_, _, next⟩ | ⟨_, _, a, _, ⟨root, next⟩ | next⟩
  · simp [next, Progress.Failed]
  · rw [next]
    rintro ⟨⟩
  · rw [next]
    split
    · rintro ⟨⟩
    · simp [Progress.Failed]

theorem not_failed_addDirectory {ctx : Context} {s : Scope}
    (live : s.store.isStale ctx.generation = false) {dir : Path} {status : Status} {e : IndexError} :
    ¬ (ctx.addDirectory dir status s).2.Failed e := by
  rcases addDirectory_outcome live dir status with ⟨_, _, next⟩ | ⟨_, _, next | next⟩
  · simp [next, Progress.Failed]
  · rw [next]
    rintro ⟨⟩
  · rw [next]
    rintro ⟨⟩

/-- What a crawl fails with is an answer of the disk. -/
theorem Task.Moves.failed_before {ctx : Context} {world : World} {s : Scope} {task : Task}
    {r : Scope × Progress} (moved : Task.Moves ctx world s task r)
    (live : s.store.isStale ctx.generation = false) {e : IndexError} (failed : r.2.Failed e) :
    task.Failed e ∨ ∃ path cause, e = .io path cause := by
  induction moved with
  | begin p =>
    rw [addEntry_outcome live] at failed
    cases failed
  | entry p =>
    cases answer : world.entry p with
    | error cause =>
      rw [answer] at failed
      rcases examined_error live p cause with ⟨_, _, changed, next⟩ | ⟨_, _, next⟩
      · rw [next] at failed
        cases failed
      · rw [next] at failed
        cases failed
        exact Or.inr ⟨_, _, rfl⟩
    | ok status =>
      obtain ⟨s', live', _, next⟩ := examined_ok live p status
      rw [answer, next] at failed
      exfalso
      split at failed
      · exact not_failed_addDirectory live' failed
      · exact not_failed_addFile live' failed
      · cases failed
  | subscribe dir known => cases failed
  | list dir known =>
    rcases listed_outcome live dir known (world.children dir) with
      ⟨cause, _, ⟨_, _, next⟩ | ⟨_, next⟩⟩ | ⟨children, _, _, next⟩
    · rw [next] at failed
      cases failed
    · rw [next] at failed
      cases failed
      exact Or.inr ⟨_, _, rfl⟩
    · rw [next] at failed
      exact absurd failed not_failed_following
  | project a root =>
    rw [(projectDeclared_outcome live a root (world.projectRemarks root)).2] at failed
    split at failed <;> cases failed
  | manifest a d =>
    cases d with
    | reading path directory =>
      have outcome := reading_outcome live world a path directory
      dsimp only at outcome
      split at outcome
      next cause _ =>
        rw [outcome.2] at failed
        split at failed
        · cases failed
        · cases failed
          exact Or.inr ⟨_, _, rfl⟩
      · split at outcome
        · rw [outcome.2] at failed
          cases failed
        · rcases outcome.2 with next | next
          · rw [next] at failed
            cases failed
          · rw [next] at failed
            cases failed
    | declaring d =>
      rw [(installed_outcome live world a d).1.2] at failed
      cases failed
    | publishing d =>
      rw [(installed_outcome live world a d).2.2] at failed
      cases failed
  | inOrder dir queue rest moved ih =>
    cases failed with
    | inOrder failed => exact (ih failed).imp_left .inOrder
  | inOrderFailed dir queue rest moved ih =>
    cases failed
    exact (ih rfl).imp_left .inOrder
  | inOrderDone dir queue rest moved ih =>
    have still := (moved.edits.isStale ctx.generation).trans live
    rw [(nextInOrder_outcome still dir queue rest).2] at failed
    exact absurd failed not_failed_following
  | together dir before after failure moved ih =>
    cases failed with
    | together => exact Or.inl (.together dir _)
    | among member failed =>
      rcases List.mem_append.1 member with left | right
      · exact Or.inl (.among (List.mem_append_left _ left) failed)
      · rcases List.mem_cons.1 right with rfl | right
        · exact (ih failed).imp_left (.among (by simp))
        · exact Or.inl (.among (by simp [right]) failed)
  | @togetherDone s' task result dir before after failure moved left ih =>
    have ended : failure = some e ∨ result = .error e → (Task.together dir (before ++ task :: after)
        failure).Failed e ∨ ∃ path cause, e = .io path cause := by
      rintro (rfl | rfl)
      · exact Or.inl (.together dir _)
      · exact (ih rfl).imp_left (.among (by simp))
    generalize recorded : (failure <|> failureOf result) = outcome at failed
    cases failed with
    | together =>
      apply ended
      cases failure with
      | some first => exact Or.inl recorded
      | none =>
        cases result with
        | ok changed => cases recorded
        | error e' => exact Or.inr (congrArg Except.error (Option.some.inj recorded))
    | among member failed =>
      rcases List.mem_append.1 member with before | after
      · exact Or.inl (.among (List.mem_append_left _ before) failed)
      · exact Or.inl (.among (by simp [after]) failed)
  | @togetherLast s' task result dir failure moved ih =>
    rw [failed_conclude] at failed
    cases failure with
    | some first =>
      cases Option.some.inj failed
      exact Or.inl (.together dir _)
    | none =>
      cases result with
      | ok changed => cases failed
      | error e' =>
        cases Option.some.inj failed
        exact (ih rfl).imp_left (.among (by simp))
  | togetherNone dir failure =>
    rw [failed_conclude] at failed
    exact Or.inl (failed ▸ .together dir _)

theorem Served.failure {ctx : Context} {admits : World → Prop} {r : Scope × Progress} {s : Scope}
    {e : IndexError} (served : Served ctx admits r s (.error e))
    (live : r.1.store.isStale ctx.generation = false) (clean : ∀ e, ¬ r.2.Failed e) :
    ∃ path cause, e = .io path cause := by
  have origin : ∀ {r : Scope × Progress} {s : Scope} {result : Except IndexError Bool},
      Served ctx admits r s result → r.1.store.isStale ctx.generation = false →
      result = .error e → r.2.Failed e ∨ ∃ path cause, e = .io path cause := by
    intro r s result served
    induction served with
    | finished s result => exact fun _ ends => Or.inl ends
    | step admitted moved rest ih =>
      intro live ends
      rcases ih ((moved.edits.isStale _).trans live) ends with failed | answer
      · exact moved.failed_before live failed
      · exact Or.inr answer
  exact (origin served live rfl).resolve_left (clean e)

end ProjectIndex.Crawl
