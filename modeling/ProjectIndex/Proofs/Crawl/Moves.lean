import ProjectIndex.Crawl.Task

/-!
# The moves of a crawl

`Task.step` is a function that looks for the wait that is over in a tree of tasks.  `Task.Moves`
says the same as a relation: which of the waits at the leaves ends, and what becomes of the tasks
around it.  Everything that is proved about crawls goes by induction over a move, so the function
is opened here and nowhere else.
-/

namespace ProjectIndex.Crawl

def failureOf : Except IndexError Bool → Option IndexError
  | .ok _ => none
  | .error e => some e

/-- The entries crawled at once have all ended: the first failure counts. -/
def conclude (dir : Path) (failure : Option IndexError) (s : Scope) : Scope × Progress :=
  match failure with
  | some e => (s, .finished (.error e))
  | none => Context.finishDirectory dir s

namespace Task

/-- The end of one wait of a task, with the scope before and after. -/
inductive Moves (ctx : Context) (world : World) (s : Scope) : Task → Scope × Progress → Prop where
  | begin (p : Path) : Moves ctx world s (.begin p) (ctx.addEntry p s)
  | entry (p : Path) : Moves ctx world s (.entry p) (ctx.examined p (world.entry p) s)
  | subscribe (dir : Path) (known : Bool) :
      Moves ctx world s (.subscribe dir known)
        (Context.subscribed dir (world.watchDirectory dir) s, .waiting (.list dir known))
  | list (dir : Path) (known : Bool) :
      Moves ctx world s (.list dir known) (ctx.listed dir known (world.children dir) s)
  | project (a : Arrival) (root : Path) :
      Moves ctx world s (.project a root) (ctx.declareManifest a
        ((s.remarkAll (world.projectRemarks root)).update (·.projectDeclared root)))
  | manifest (a : Arrival) (d : Declaration) :
      Moves ctx world s (.manifest a d) (ctx.resume a (d.step ctx.policy world ctx.generation s))
  /-- One of the entries that come first goes on. -/
  | inOrder {s' : Scope} {current current' : Task} (dir : Path) (queue rest : List Path)
      (moved : Moves ctx world s current (s', .waiting current')) :
      Moves ctx world s (.inOrder dir current queue rest)
        (s', .waiting (.inOrder dir current' queue rest))
  /-- It fails, and no later entry of the directory is started. -/
  | inOrderFailed {s' : Scope} {current : Task} {e : IndexError} (dir : Path)
      (queue rest : List Path) (moved : Moves ctx world s current (s', .finished (.error e))) :
      Moves ctx world s (.inOrder dir current queue rest) (s', .finished (.error e))
  /-- It ends, and the next one is started. -/
  | inOrderDone {s' : Scope} {current : Task} {changed : Bool} (dir : Path)
      (queue rest : List Path) (moved : Moves ctx world s current (s', .finished (.ok changed))) :
      Moves ctx world s (.inOrder dir current queue rest) (ctx.nextInOrder dir queue rest s')
  /-- One of the entries that are crawled at once goes on. -/
  | together {s' : Scope} {task task' : Task} (dir : Path) (before after : List Task)
      (failure : Option IndexError) (moved : Moves ctx world s task (s', .waiting task')) :
      Moves ctx world s (.together dir (before ++ task :: after) failure)
        (s', .waiting (.together dir (before ++ task' :: after) failure))
  /-- It ends, and others are left. -/
  | togetherDone {s' : Scope} {task : Task} {result : Except IndexError Bool} (dir : Path)
      (before after : List Task) (failure : Option IndexError)
      (moved : Moves ctx world s task (s', .finished result)) (left : before ++ after ≠ []) :
      Moves ctx world s (.together dir (before ++ task :: after) failure)
        (s', .waiting (.together dir (before ++ after) (failure <|> failureOf result)))
  /-- The last of them ends. -/
  | togetherLast {s' : Scope} {task : Task} {result : Except IndexError Bool} (dir : Path)
      (failure : Option IndexError) (moved : Moves ctx world s task (s', .finished result)) :
      Moves ctx world s (.together dir [task] failure)
        (conclude dir (failure <|> failureOf result) s')
  /-- There were none. -/
  | togetherNone (dir : Path) (failure : Option IndexError) :
      Moves ctx world s (.together dir [] failure) (conclude dir failure s)

/-- The move of one of the tasks that are crawled at once, and what is left of them. -/
inductive MovesOne (ctx : Context) (world : World) (s : Scope) :
    List Task → Scope × List Task × Option IndexError → Prop where
  | none : MovesOne ctx world s [] (s, [], .none)
  | waiting {s' : Scope} {task task' : Task} (before after : List Task)
      (moved : Moves ctx world s task (s', .waiting task')) :
      MovesOne ctx world s (before ++ task :: after) (s', before ++ task' :: after, .none)
  | finished {s' : Scope} {task : Task} {result : Except IndexError Bool}
      (before after : List Task) (moved : Moves ctx world s task (s', .finished result)) :
      MovesOne ctx world s (before ++ task :: after) (s', before ++ after, failureOf result)

/-- A move of one task is a move of one task of a longer list. -/
theorem MovesOne.cons {ctx : Context} {world : World} {s s' : Scope} {others left : List Task}
    {failed : Option IndexError} (moved : MovesOne ctx world s others (s', left, failed))
    (some : others ≠ []) (task : Task) :
    MovesOne ctx world s (task :: others) (s', task :: left, failed) := by
  cases moved with
  | none => exact absurd rfl some
  | waiting before after moved => exact .waiting (task :: before) after moved
  | finished before after moved => exact .finished (task :: before) after moved

/-- What becomes of a directory when one of the entries that are crawled at once has moved. -/
private theorem moves_of_movesOne {ctx : Context} {world : World} {s s' : Scope}
    {running left : List Task} {failed : Option IndexError}
    (moved : MovesOne ctx world s running (s', left, failed)) (dir : Path)
    (failure : Option IndexError) :
    Moves ctx world s (.together dir running failure)
      (if left = [] then conclude dir (failure <|> failed) s'
        else (s', .waiting (.together dir left (failure <|> failed)))) := by
  cases moved with
  | none => simpa using Moves.togetherNone dir failure
  | waiting before after moved => simpa using Moves.together dir before after failure moved
  | finished before after moved =>
    by_cases last : before ++ after = []
    · rw [if_pos last]
      obtain ⟨rfl, rfl⟩ := List.append_eq_nil_iff.1 last
      exact .togetherLast dir failure moved
    · rw [if_neg last]
      exact .togetherDone dir before after failure moved last

mutual

/-- What `step` does is a move. -/
theorem step_moves (ctx : Context) (world : World) (schedule : List Nat) (task : Task) (s : Scope) :
    Moves ctx world s task (step ctx world schedule task s) := by
  match task with
  | .begin p => rw [step]; exact .begin p
  | .entry p => rw [step]; exact .entry p
  | .subscribe dir known => rw [step]; exact .subscribe dir known
  | .list dir known => rw [step]; exact .list dir known
  | .project a root => rw [step]; exact .project a root
  | .manifest a d => rw [step]; exact .manifest a d
  | .inOrder dir current queue rest =>
    have moved := step_moves ctx world schedule current s
    rw [step]
    split
    next s' current' stepped => exact .inOrder dir queue rest (stepped ▸ moved)
    next s' e stepped => exact .inOrderFailed dir queue rest (stepped ▸ moved)
    next s' changed stepped => exact .inOrderDone dir queue rest (stepped ▸ moved)
  | .together dir running failure =>
    have moved := stepOne_moves ctx world schedule.tail (schedule.headD 0) running s
    rw [step]
    split
    next s' stepped =>
      have concluded := moves_of_movesOne (stepped ▸ moved) dir failure
      cases failure <;> exact concluded
    next s' e stepped =>
      have concluded := moves_of_movesOne (stepped ▸ moved) dir failure
      cases failure <;> exact concluded
    next s' left failed noneLeft someLeft stepped =>
      have concluded := moves_of_movesOne (stepped ▸ moved) dir failure
      have nonempty : left ≠ [] := by
        rintro rfl
        cases failed with
        | none => exact noneLeft rfl rfl
        | some e => exact someLeft e rfl rfl
      rwa [if_neg nonempty] at concluded

/-- What `stepOne` does is a move of one task. -/
theorem stepOne_moves (ctx : Context) (world : World) (schedule : List Nat) (i : Nat)
    (running : List Task) (s : Scope) :
    MovesOne ctx world s running (stepOne ctx world schedule i running s) := by
  match running with
  | [] => rw [stepOne]; exact .none
  | task :: others =>
    rw [stepOne]
    split
    · have moved := step_moves ctx world schedule task s
      split
      next s' task' stepped => exact .waiting [] others (stepped ▸ moved)
      next s' changed stepped => exact .finished [] others (stepped ▸ moved)
      next s' e stepped => exact .finished [] others (stepped ▸ moved)
    next later =>
      have moved := stepOne_moves ctx world schedule (i - 1) others s
      refine MovesOne.cons moved ?_ task
      rintro rfl
      simp at later

end

def Single : Task → Prop
  | .inOrder _ _ _ _ => False
  | .together _ _ _ => False
  | _ => True

/-- What holds of a task holds of the tasks that it waits for. -/
structure Hereditary (good : Task → Prop) : Prop where
  first : ∀ {d : Path} {current : Task} {queue rest : List Path},
    good (.inOrder d current queue rest) → good current
  member : ∀ {d : Path} {running : List Task} {failure : Option IndexError} {task : Task},
    good (.together d running failure) → task ∈ running → good task

end Task

end ProjectIndex.Crawl
