import ProjectIndex.Proofs.Crawl.Completions
import ProjectIndex.Proofs.Crawl.Deeds
import ProjectIndex.Proofs.Crawl.Leaves

/-!
# The stints of a crawl

The crawl of a tree is made of the crawls of its entries, one inside the other.  What the crawl of one
entry does without waiting is a stint.  A move is a stint of the entry whose wait is over, followed by
stints of the directories around it that go on or come to their end with it, from the inside out.  Each
stint begins in the scope in which the one before it ended, so the stints account for all that a move
does.

What lies ahead of a task are the paths at which it may still have stints.  Nothing comes to lie ahead
of a crawl that did not before.
-/

namespace ProjectIndex.Crawl

/-- What the crawl of one path does without waiting, and how that crawl ended if it did. -/
structure Stint where
  path : Path
  before : Scope
  after : Scope
  ended : Option (Except IndexError Bool)

def Progress.result? : Progress → Option (Except IndexError Bool)
  | .waiting _ => none
  | .finished result => some result

def stint (p : Path) (s : Scope) (r : Scope × Progress) : Stint :=
  ⟨p, s, r.1, r.2.result?⟩

/-- Each of the stints begins where the one before it ended. -/
def Links : Scope → List Stint → Scope → Prop
  | s, [], t => s = t
  | s, x :: rest, t => x.before = s ∧ Links x.after rest t

theorem Links.concat {s t : Scope} {stints : List Stint} (links : Links s stints t) (p : Path)
    (r : Scope × Progress) : Links s (stints ++ [stint p t r]) r.1 := by
  induction stints generalizing s with
  | nil => exact ⟨links.symm, rfl⟩
  | cons x rest ih => exact ⟨links.1, ih links.2⟩

def Stint.Reports (x : Stint) : Prop :=
  x.after.store.completed = x.before.store.completed ∨
    (x.after.store.completed = x.path :: x.before.store.completed ∧ x.ended = some (.ok true))

def Stint.Within (x : Stint) : Prop :=
  x.before.store.index.Filed → x.before.store.index.SameOutside x.after.store.index x.path

theorem Reported.reports {p : Path} {s : Scope} {r : Scope × Progress} (reported : Reported p s r) :
    (stint p s r).Reports := by
  apply reported.imp_right
  rintro ⟨completed, ended⟩
  refine ⟨completed, ?_⟩
  rw [stint, ended]
  rfl

theorem within_of_quiet {p : Path} {s : Scope} {r : Scope × Progress}
    (quiet : s.store.Quiet r.1.store) : (stint p s r).Within := by
  intro _
  have same : (stint p s r).after.store.index = s.store.index := quiet.index
  rw [same]
  exact .refl _ p

/-- Away from the path of its task, a deed leaves the files and the directories alone. -/
theorem Deed.sameOutside {ctx : Context} {world : World} {ix ix' : Index} {task : Task}
    {next : Progress} (deed : Deed ctx world ix task ix' next) (filed : ix.Filed) :
    ix.SameOutside ix' task.path := by
  cases deed with
  | ended | begun | subscribed | project | declared => exact .refl ix _
  | removed result => exact filed.sameOutside_evict _
  | cleared p st result => exact filed.sameOutside_clearedFor p st
  | @directory p st task kind goesOn =>
    apply (filed.sameOutside_clearedFor p st).trans
    constructor
    · intro q _
      rw [Index.insertDirectory_files]
    · intro q out
      have other : p ≠ q := fun same => out (same ▸ .refl p)
      simp [other]
  | @file p st next kind goesOn =>
    apply (filed.sameOutside_clearedFor p st).trans
    constructor
    · intro q out
      have other : p ≠ q := fun same => out (same ▸ .refl p)
      simp [other]
    · intro q _
      rw [Index.insertFile_directories]
  | listed told entries => exact (filed.sameOutside_evictAll fun c member => filed _ c (entries c member)).1
  | installed => exact ⟨fun _ _ => Iff.rfl, fun _ _ => Iff.rfl⟩

/-- The end of one wait of a task, as a list of stints. -/
inductive Task.Takes (ctx : Context) (world : World) (s : Scope) :
    Task → List Stint → Scope × Progress → Prop where
  /-- The entry whose wait is over. -/
  | single {task : Task} {r : Scope × Progress} (single : task.Single)
      (moved : Task.Moves ctx world s task r) : Takes ctx world s task [stint task.path s r] r
  /-- One of the entries that come first goes on. -/
  | inOrder {s' : Scope} {current current' : Task} {stints : List Stint} (dir : Path)
      (queue rest : List Path) (taken : Takes ctx world s current stints (s', .waiting current')) :
      Takes ctx world s (.inOrder dir current queue rest) stints
        (s', .waiting (.inOrder dir current' queue rest))
  /-- It fails, and so does the directory. -/
  | inOrderFailed {s' : Scope} {current : Task} {e : IndexError} {stints : List Stint} (dir : Path)
      (queue rest : List Path) (taken : Takes ctx world s current stints (s', .finished (.error e))) :
      Takes ctx world s (.inOrder dir current queue rest)
        (stints ++ [stint dir s' (s', .finished (.error e))]) (s', .finished (.error e))
  /-- It ends, and the directory goes on. -/
  | inOrderDone {s' : Scope} {current : Task} {changed : Bool} {stints : List Stint} (dir : Path)
      (queue rest : List Path)
      (taken : Takes ctx world s current stints (s', .finished (.ok changed))) :
      Takes ctx world s (.inOrder dir current queue rest)
        (stints ++ [stint dir s' (ctx.nextInOrder dir queue rest s')])
        (ctx.nextInOrder dir queue rest s')
  /-- One of the entries that are crawled at once goes on. -/
  | together {s' : Scope} {task task' : Task} {stints : List Stint} (dir : Path)
      (before after : List Task) (failure : Option IndexError)
      (taken : Takes ctx world s task stints (s', .waiting task')) :
      Takes ctx world s (.together dir (before ++ task :: after) failure) stints
        (s', .waiting (.together dir (before ++ task' :: after) failure))
  /-- It ends, and others are left. -/
  | togetherDone {s' : Scope} {task : Task} {result : Except IndexError Bool} {stints : List Stint}
      (dir : Path) (before after : List Task) (failure : Option IndexError)
      (taken : Takes ctx world s task stints (s', .finished result)) (left : before ++ after ≠ []) :
      Takes ctx world s (.together dir (before ++ task :: after) failure) stints
        (s', .waiting (.together dir (before ++ after) (failure <|> failureOf result)))
  /-- The last of them ends, and with it the directory. -/
  | togetherLast {s' : Scope} {task : Task} {result : Except IndexError Bool} {stints : List Stint}
      (dir : Path) (failure : Option IndexError)
      (taken : Takes ctx world s task stints (s', .finished result)) :
      Takes ctx world s (.together dir [task] failure)
        (stints ++ [stint dir s' (conclude dir (failure <|> failureOf result) s')])
        (conclude dir (failure <|> failureOf result) s')
  /-- There were none. -/
  | togetherNone (dir : Path) (failure : Option IndexError) :
      Takes ctx world s (.together dir [] failure) [stint dir s (conclude dir failure s)]
        (conclude dir failure s)

namespace Task

section

variable {ctx : Context} {world : World} {s : Scope} {task : Task} {stints : List Stint}
  {r : Scope × Progress}

/-- Every move is made of stints. -/
theorem Moves.takes (moved : Moves ctx world s task r) : ∃ stints, Takes ctx world s task stints r := by
  induction moved with
  | begin p => exact ⟨_, .single trivial (.begin p)⟩
  | entry p => exact ⟨_, .single trivial (.entry p)⟩
  | subscribe dir known => exact ⟨_, .single trivial (.subscribe dir known)⟩
  | list dir known => exact ⟨_, .single trivial (.list dir known)⟩
  | project a root => exact ⟨_, .single trivial (.project a root)⟩
  | manifest a d => exact ⟨_, .single trivial (.manifest a d)⟩
  | inOrder dir queue rest _ ih =>
    obtain ⟨stints, taken⟩ := ih
    exact ⟨_, .inOrder dir queue rest taken⟩
  | inOrderFailed dir queue rest _ ih =>
    obtain ⟨stints, taken⟩ := ih
    exact ⟨_, .inOrderFailed dir queue rest taken⟩
  | inOrderDone dir queue rest _ ih =>
    obtain ⟨stints, taken⟩ := ih
    exact ⟨_, .inOrderDone dir queue rest taken⟩
  | together dir before after failure _ ih =>
    obtain ⟨stints, taken⟩ := ih
    exact ⟨_, .together dir before after failure taken⟩
  | togetherDone dir before after failure _ left ih =>
    obtain ⟨stints, taken⟩ := ih
    exact ⟨_, .togetherDone dir before after failure taken left⟩
  | togetherLast dir failure _ ih =>
    obtain ⟨stints, taken⟩ := ih
    exact ⟨_, .togetherLast dir failure taken⟩
  | togetherNone dir failure => exact ⟨_, .togetherNone dir failure⟩

/-- The stints account for all that happens to the scope. -/
theorem Takes.links (taken : Takes ctx world s task stints r) : Links s stints r.1 := by
  induction taken with
  | single single moved => exact ⟨rfl, rfl⟩
  | inOrder dir queue rest taken ih => exact ih
  | inOrderFailed dir queue rest taken ih => exact ih.concat dir _
  | inOrderDone dir queue rest taken ih => exact ih.concat dir _
  | together dir before after failure taken ih => exact ih
  | togetherDone dir before after failure taken left ih => exact ih
  | togetherLast dir failure taken ih => exact ih.concat dir _
  | togetherNone dir failure => exact ⟨rfl, rfl⟩

/-- A stint reports at most the project of its own directory. -/
theorem Takes.reports (taken : Takes ctx world s task stints r) : ∀ x ∈ stints, x.Reports := by
  have concat : ∀ {stints : List Stint} {p : Path} {s : Scope} {r : Scope × Progress},
      (∀ x ∈ stints, x.Reports) → Reported p s r → ∀ x ∈ stints ++ [stint p s r], x.Reports := by
    intro stints p s r each reported x member
    rcases List.mem_append.1 member with inner | own
    · exact each x inner
    · obtain rfl := List.mem_singleton.1 own
      exact reported.reports
  induction taken with
  | single single moved =>
    intro x member
    obtain rfl := List.mem_singleton.1 member
    exact (moved.reported single).reports
  | inOrder dir queue rest taken ih => exact ih
  | inOrderFailed dir queue rest taken ih => exact concat ih (Or.inl rfl)
  | inOrderDone dir queue rest taken ih => exact concat ih (reported_nextInOrder dir queue rest _)
  | together dir before after failure taken ih => exact ih
  | togetherDone dir before after failure taken left ih => exact ih
  | togetherLast dir failure taken ih => exact concat ih (reported_conclude dir _ _)
  | togetherNone dir failure =>
    intro x member
    obtain rfl := List.mem_singleton.1 member
    exact (reported_conclude dir failure s).reports

/-- What a stint writes in the index is at its path and below it. -/
theorem Takes.within (taken : Takes ctx world s task stints r) : ∀ x ∈ stints, x.Within := by
  have concat : ∀ {stints : List Stint} {p : Path} {s : Scope} {r : Scope × Progress},
      (∀ x ∈ stints, x.Within) → s.store.Quiet r.1.store → ∀ x ∈ stints ++ [stint p s r], x.Within := by
    intro stints p s r each quiet x member
    rcases List.mem_append.1 member with inner | own
    · exact each x inner
    · obtain rfl := List.mem_singleton.1 own
      exact within_of_quiet quiet
  induction taken with
  | single single moved =>
    intro x member
    obtain rfl := List.mem_singleton.1 member
    cases stale : s.store.isStale ctx.generation with
    | true => exact within_of_quiet (moved.edits.quiet_of_stale stale)
    | false => exact (moved.deed stale single).sameOutside
  | inOrder dir queue rest taken ih => exact ih
  | inOrderFailed dir queue rest taken ih => exact concat ih (.refl _)
  | inOrderDone dir queue rest taken ih => exact concat ih (quiet_nextInOrder dir queue rest _)
  | together dir before after failure taken ih => exact ih
  | togetherDone dir before after failure taken left ih => exact ih
  | togetherLast dir failure taken ih => exact concat ih (quiet_conclude dir _ _)
  | togetherNone dir failure =>
    intro x member
    obtain rfl := List.mem_singleton.1 member
    exact within_of_quiet (quiet_conclude dir failure s)

end

/-- The task may still have stints at the path. -/
inductive Ahead : Task → Path → Prop where
  | single {task : Task} {q : Path} (single : task.Single) (covers : task.path.Covers q) :
      Ahead task q
  | inOrderSelf (dir : Path) (current : Task) (queue rest : List Path) :
      Ahead (.inOrder dir current queue rest) dir
  | current {dir q : Path} {current : Task} {queue rest : List Path} (ahead : Ahead current q) :
      Ahead (.inOrder dir current queue rest) q
  | later {dir c q : Path} {current : Task} {queue rest : List Path} (member : c ∈ queue ++ rest)
      (covers : c.Covers q) : Ahead (.inOrder dir current queue rest) q
  | togetherSelf (dir : Path) (running : List Task) (failure : Option IndexError) :
      Ahead (.together dir running failure) dir
  | member {dir q : Path} {task : Task} {running : List Task} {failure : Option IndexError}
      (member : task ∈ running) (ahead : Ahead task q) : Ahead (.together dir running failure) q

theorem Single.ahead_iff {task : Task} (single : task.Single) {q : Path} :
    task.Ahead q ↔ task.path.Covers q := by
  constructor
  · intro ahead
    cases ahead with
    | single _ covers => exact covers
    | inOrderSelf | current | later | togetherSelf | member => exact absurd single id
  · exact .single single

theorem ahead_inOrder {dir q : Path} {current : Task} {queue rest : List Path} :
    (Task.inOrder dir current queue rest).Ahead q ↔
      q = dir ∨ current.Ahead q ∨ ∃ c ∈ queue ++ rest, c.Covers q := by
  constructor
  · intro ahead
    cases ahead with
    | single single _ => exact absurd single id
    | inOrderSelf => exact Or.inl rfl
    | current ahead => exact Or.inr (Or.inl ahead)
    | later member covers => exact Or.inr (Or.inr ⟨_, member, covers⟩)
  · rintro (same | ahead | ⟨c, member, covers⟩)
    · exact same ▸ .inOrderSelf q current queue rest
    · exact .current ahead
    · exact .later member covers

theorem ahead_together {dir q : Path} {running : List Task} {failure : Option IndexError} :
    (Task.together dir running failure).Ahead q ↔ q = dir ∨ ∃ task ∈ running, task.Ahead q := by
  constructor
  · intro ahead
    cases ahead with
    | single single _ => exact absurd single id
    | togetherSelf => exact Or.inl rfl
    | member member ahead => exact Or.inr ⟨_, member, ahead⟩
  · rintro (same | ⟨task, member, ahead⟩)
    · exact same ▸ .togetherSelf q running failure
    · exact .member member ahead

/-- What lies ahead of a task lies at or below its path. -/
theorem Placed.covers_ahead {task : Task} (placed : task.Placed) {q : Path} (ahead : task.Ahead q) :
    task.path.Covers q := by
  induction ahead with
  | single _ covers => exact covers
  | inOrderSelf | togetherSelf => exact .refl _
  | current _ ih =>
    cases placed with
    | inOrder first siblings _ =>
      exact (Path.covers_of_parent (siblings _ (by simp))).trans (ih first)
  | later member covers =>
    cases placed with
    | inOrder _ siblings _ =>
      exact (Path.covers_of_parent (siblings _ (List.mem_cons_of_mem _ member))).trans covers
  | member member _ ih =>
    cases placed with
    | together each siblings _ =>
      exact (Path.covers_of_parent (siblings _ member)).trans (ih (each _ member))

theorem Placed.among {dir : Path} {before after : List Task} {task : Task} {failure : Option IndexError}
    (placed : (Task.together dir (before ++ task :: after) failure).Placed) :
    task.Placed ∧ dir.Covers task.path := by
  cases placed with
  | together each siblings _ =>
    have listed : task ∈ before ++ task :: after := by simp
    exact ⟨each task listed, Path.covers_of_parent (siblings task listed)⟩

theorem Single.placed {task : Task} (single : task.Single) : task.Placed := by
  cases task with
  | begin p => exact .begin p
  | entry p => exact .entry p
  | subscribe dir known => exact .subscribe dir known
  | list dir known => exact .list dir known
  | project a root => exact .project a root
  | manifest a d => exact .manifest a d
  | inOrder | together => exact absurd single id

end Task

def Progress.Ahead (next : Progress) (q : Path) : Prop :=
  ∃ task, next = .waiting task ∧ task.Ahead q

@[simp] theorem Progress.ahead_waiting {task : Task} {q : Path} :
    (Progress.waiting task).Ahead q ↔ task.Ahead q := by
  simp [Progress.Ahead]

@[simp] theorem Progress.not_ahead_finished (result : Except IndexError Bool) (q : Path) :
    ¬ (Progress.finished result).Ahead q := by
  simp [Progress.Ahead]

def Progress.Stays (p : Path) : Progress → Prop
  | .waiting task => task.Single ∧ task.path = p
  | .finished _ => True

section

variable {ctx : Context} {s : Scope}

theorem stays_addDirectory (dir : Path) (status : Status) (s : Scope) :
    (ctx.addDirectory dir status s).2.Stays dir := by
  have added := directoryAdded ctx dir status s
  generalize ctx.addDirectory dir status s = r at added ⊢
  cases added with
  | unchanged | ignored | withdrawn => trivial
  | subscribing | listing => exact ⟨trivial, rfl⟩

theorem stays_announce (p : Path) (a : Arrival) (s : Scope) : (ctx.announce a s).2.Stays p := by
  obtain ⟨changed, ends⟩ := @announce_ends ctx a s
  rw [ends]
  trivial

theorem stays_resume (a : Arrival) (r : Scope × Declaration.Progress) :
    (ctx.resume a r).2.Stays a.path := by
  unfold Context.resume
  split
  · exact ⟨trivial, rfl⟩
  · exact stays_announce _ a _
  · trivial

theorem stays_declareManifest (a : Arrival) (s : Scope) :
    (ctx.declareManifest a s).2.Stays a.path := by
  have declared := manifestDeclared ctx a s
  generalize ctx.declareManifest a s = r at declared ⊢
  cases declared with
  | unnamed => exact stays_announce _ a s
  | skipped => exact stays_announce _ a _
  | reading => exact ⟨trivial, rfl⟩

theorem stays_addFile (file : Path) (status : Status) (s : Scope) :
    (ctx.addFile file status s).2.Stays file := by
  have declared : ∀ (a : Arrival) (s : Scope), (ctx.declareFile a s).2.Stays a.path := by
    intro a s
    unfold Context.declareFile
    split
    · exact ⟨trivial, rfl⟩
    · exact stays_declareManifest a s
  have added := fileAdded ctx file status s
  generalize ctx.addFile file status s = r at added ⊢
  cases added with
  | unchanged | ignored | withdrawn => trivial
  | registered => exact declared _ _

theorem stays_examined (p : Path) (answer : Except DiskError Status) (s : Scope) :
    (ctx.examined p answer s).2.Stays p := by
  cases answer with
  | error cause =>
    unfold Context.examined
    dsimp only
    split
    · split <;> trivial
    · trivial
  | ok st =>
    obtain ⟨s', _, examined⟩ := @examined_told ctx p st s
    rw [examined]
    split
    · exact stays_addDirectory p st s'
    · exact stays_addFile p st s'
    · trivial

/-- After the end of a single wait the crawl stays with the path, or it turns to the entries of the
directory. -/
theorem Task.Moves.stays {world : World} {task : Task} {r : Scope × Progress}
    (moved : Task.Moves ctx world s task r) (single : task.Single) :
    r.2.Stays task.path ∨ ∃ children s', world.children task.path = .ok children ∧
      r = ctx.nextInOrder task.path (ctx.policy.arrange children).1
        (ctx.policy.arrange children).2 s' := by
  cases moved with
  | begin p =>
    unfold Context.addEntry
    split
    · exact Or.inl trivial
    · exact Or.inl ⟨trivial, rfl⟩
  | entry p => exact Or.inl (stays_examined p _ s)
  | subscribe dir known => exact Or.inl ⟨trivial, rfl⟩
  | list dir known =>
    unfold Context.listed
    split
    · split <;> exact Or.inl trivial
    next children told =>
      split
      · exact Or.inl trivial
      · exact Or.inr ⟨children, _, told, rfl⟩
  | project a root => exact Or.inl (stays_declareManifest a _)
  | manifest a d => exact Or.inl (stays_resume a _)
  | inOrder | inOrderFailed | inOrderDone | together | togetherDone | togetherLast | togetherNone =>
    exact absurd single id

theorem ahead_nextInOrder {dir q : Path} {queue rest : List Path}
    (ahead : (ctx.nextInOrder dir queue rest s).2.Ahead q) :
    q = dir ∨ ∃ c ∈ queue ++ rest, c.Covers q := by
  have goesOn := entriesNext ctx s dir queue rest
  generalize ctx.nextInOrder dir queue rest s = r at goesOn ahead
  cases goesOn with
  | done => exact absurd ahead (Progress.not_ahead_finished _ q)
  | others =>
    rw [Progress.ahead_waiting, Task.ahead_together] at ahead
    rcases ahead with same | ⟨task, member, ahead⟩
    · exact Or.inl same
    · obtain ⟨c, listed, rfl⟩ := List.mem_map.1 member
      have begun : (Task.begin c).Single := trivial
      have covers : c.Covers q := begun.ahead_iff.1 ahead
      exact Or.inr ⟨c, by simp [listed], covers⟩
  | @next p left _ first =>
    subst first
    rw [Progress.ahead_waiting, Task.ahead_inOrder] at ahead
    rcases ahead with same | ahead | ⟨c, member, covers⟩
    · exact Or.inl same
    · have asked : (Task.entry p).Single := trivial
      have covers : p.Covers q := asked.ahead_iff.1 ahead
      exact Or.inr ⟨p, by simp, covers⟩
    · refine Or.inr ⟨c, ?_, covers⟩
      rcases List.mem_append.1 member with queued | last <;> simp [*]

theorem placed_nextInOrder {dir : Path} {queue rest : List Path}
    (siblings : ∀ c ∈ queue ++ rest, c.parent = some dir) (distinct : (queue ++ rest).Nodup)
    {task : Task} (waits : (ctx.nextInOrder dir queue rest s).2 = .waiting task) :
    task.Placed ∧ task.path = dir := by
  have goesOn := entriesNext ctx s dir queue rest
  generalize ctx.nextInOrder dir queue rest s = r at goesOn waits
  cases goesOn with
  | done => cases waits
  | others =>
    cases waits
    refine ⟨.together ?_ ?_ ?_, rfl⟩
    · intro task member
      obtain ⟨c, _, rfl⟩ := List.mem_map.1 member
      exact .begin c
    · intro task member
      obtain ⟨c, listed, rfl⟩ := List.mem_map.1 member
      exact siblings c (by simp [listed])
    · have paths : (rest.map Task.begin).map Task.path = rest := by
        rw [List.map_map]
        exact List.map_id rest
      rw [paths]
      exact (List.nodup_append.1 distinct).2.1
  | @next p left _ first =>
    subst first
    cases waits
    exact ⟨.inOrder (.entry p) siblings distinct, rfl⟩

end

namespace Task

section

variable {ctx : Context} {world : World} {s : Scope} {task : Task} {stints : List Stint}
  {r : Scope × Progress}

/-- The crawl stays where it was started, and the entries of each directory are different. -/
theorem Takes.placed (taken : Takes ctx world s task stints r) (lists : world.ListsOnce)
    (absolute : task.path.isAbsolute = true) (placed : task.Placed) {next : Task}
    (waits : r.2 = .waiting next) : next.Placed ∧ next.path = task.path := by
  induction taken generalizing next with
  | @single task r single moved =>
    rcases moved.stays single with stays | ⟨children, s', told, same⟩
    · rw [waits] at stays
      exact ⟨stays.1.placed, stays.2⟩
    · rw [same] at waits
      have arranged := ctx.policy.arrange_perm children
      apply placed_nextInOrder ?_ ?_ waits
      · intro c member
        exact lists.entries _ children absolute told c (arranged.mem_iff.1 member)
      · exact arranged.nodup_iff.2 (lists.distinct _ children absolute told)
  | inOrder dir queue rest taken ih =>
    cases waits
    cases placed with
    | inOrder first siblings distinct =>
      have below := Path.covers_of_parent (siblings _ List.mem_cons_self)
      obtain ⟨placed', same⟩ := ih (below.isAbsolute absolute) first rfl
      refine ⟨.inOrder placed' ?_ ?_, rfl⟩
      · rw [same]
        exact siblings
      · rw [same]
        exact distinct
  | inOrderFailed dir queue rest taken ih => cases waits
  | inOrderDone dir queue rest taken ih =>
    cases placed with
    | inOrder first siblings distinct =>
      apply placed_nextInOrder ?_ (List.nodup_cons.1 distinct).2 waits
      intro c member
      exact siblings c (List.mem_cons_of_mem _ member)
  | together dir before after failure taken ih =>
    cases waits
    obtain ⟨first, below⟩ := placed.among
    obtain ⟨placed', same⟩ := ih (below.isAbsolute absolute) first rfl
    exact ⟨placed.replace placed' same, rfl⟩
  | togetherDone dir before after failure taken left ih =>
    cases waits
    exact ⟨placed.without, rfl⟩
  | togetherLast dir failure taken ih => exact absurd waits conclude_not_waiting
  | togetherNone dir failure => exact absurd waits conclude_not_waiting

/-- Stints are at paths that lay ahead. -/
theorem Takes.ahead_stint (taken : Takes ctx world s task stints r) :
    ∀ x ∈ stints, task.Ahead x.path := by
  induction taken with
  | single single moved =>
    intro x member
    obtain rfl := List.mem_singleton.1 member
    exact .single single (.refl _)
  | inOrder dir queue rest taken ih => exact fun x member => .current (ih x member)
  | inOrderFailed dir queue rest taken ih =>
    intro x member
    rcases List.mem_append.1 member with inner | own
    · exact .current (ih x inner)
    · obtain rfl := List.mem_singleton.1 own
      exact .inOrderSelf dir _ queue rest
  | inOrderDone dir queue rest taken ih =>
    intro x member
    rcases List.mem_append.1 member with inner | own
    · exact .current (ih x inner)
    · obtain rfl := List.mem_singleton.1 own
      exact .inOrderSelf dir _ queue rest
  | together dir before after failure taken ih =>
    exact fun x member => .member (by simp) (ih x member)
  | togetherDone dir before after failure taken left ih =>
    exact fun x member => .member (by simp) (ih x member)
  | togetherLast dir failure taken ih =>
    intro x member
    rcases List.mem_append.1 member with inner | own
    · exact .member (by simp) (ih x inner)
    · obtain rfl := List.mem_singleton.1 own
      exact .togetherSelf dir _ failure
  | togetherNone dir failure =>
    intro x member
    obtain rfl := List.mem_singleton.1 member
    exact .togetherSelf dir [] failure

/-- Nothing comes to lie ahead that did not before. -/
theorem Takes.ahead_of_ahead (taken : Takes ctx world s task stints r) (lists : world.ListsOnce)
    (absolute : task.path.isAbsolute = true) (placed : task.Placed) {q : Path}
    (ahead : r.2.Ahead q) : task.Ahead q := by
  induction taken with
  | @single task r single moved =>
    apply Ahead.single single
    rcases moved.stays single with stays | ⟨children, s', told, same⟩
    · obtain ⟨next, waits, ahead⟩ := ahead
      rw [waits] at stays
      exact stays.2 ▸ stays.1.ahead_iff.1 ahead
    · rw [same] at ahead
      rcases ahead_nextInOrder ahead with own | ⟨c, member, covers⟩
      · exact own ▸ .refl q
      · have listed := (ctx.policy.arrange_perm children).mem_iff.1 member
        have parent := lists.entries _ children absolute told c listed
        exact (Path.covers_of_parent parent).trans covers
  | inOrder dir queue rest taken ih =>
    rw [Progress.ahead_waiting, ahead_inOrder] at ahead
    rcases ahead with same | inner | ⟨c, member, covers⟩
    · exact same ▸ .inOrderSelf q _ queue rest
    · cases placed with
      | inOrder first siblings _ =>
        have below := Path.covers_of_parent (siblings _ List.mem_cons_self)
        exact .current (ih (below.isAbsolute absolute) first (Progress.ahead_waiting.2 inner))
    · exact .later member covers
  | inOrderFailed dir queue rest taken ih => exact absurd ahead (Progress.not_ahead_finished _ q)
  | inOrderDone dir queue rest taken ih =>
    rcases ahead_nextInOrder ahead with same | ⟨c, member, covers⟩
    · exact same ▸ .inOrderSelf q _ queue rest
    · exact .later member covers
  | @together s' task task' stints dir before after failure taken ih =>
    obtain ⟨first, below⟩ := placed.among
    rw [Progress.ahead_waiting, ahead_together] at ahead
    rcases ahead with same | ⟨other, member, ahead⟩
    · exact same ▸ .togetherSelf q _ failure
    · rcases List.mem_cons.1 (List.perm_middle.mem_iff.1 member) with here | beside
      · subst here
        have inner := ih (below.isAbsolute absolute) first (Progress.ahead_waiting.2 ahead)
        exact .member (by simp) inner
      · have listed : other ∈ before ++ task :: after :=
          List.perm_middle.mem_iff.2 (List.mem_cons_of_mem _ beside)
        exact .member listed ahead
  | @togetherDone s' task result stints dir before after failure taken left ih =>
    rw [Progress.ahead_waiting, ahead_together] at ahead
    rcases ahead with same | ⟨other, beside, ahead⟩
    · exact same ▸ .togetherSelf q _ failure
    · have listed : other ∈ before ++ task :: after :=
        List.perm_middle.mem_iff.2 (List.mem_cons_of_mem _ beside)
      exact .member listed ahead
  | togetherLast dir failure taken ih =>
    obtain ⟨next, waits, _⟩ := ahead
    exact absurd waits conclude_not_waiting
  | togetherNone dir failure =>
    obtain ⟨next, waits, _⟩ := ahead
    exact absurd waits conclude_not_waiting

/-- The stints of a move go from the inside out. -/
theorem Takes.inside_out (taken : Takes ctx world s task stints r) (placed : task.Placed) :
    stints.Pairwise fun x y => y.path.Covers x.path ∧ y.path ≠ x.path := by
  have concat : ∀ {task : Task} {stints : List Stint} {s' : Scope} {r' R : Scope × Progress}
      {dir : Path}, Takes ctx world s task stints r' → task.Placed → task.path.parent = some dir →
      (stints.Pairwise fun x y => y.path.Covers x.path ∧ y.path ≠ x.path) →
      (stints ++ [stint dir s' R]).Pairwise fun x y => y.path.Covers x.path ∧ y.path ≠ x.path := by
    intro task stints s' r' R dir taken placed parent inner
    apply List.pairwise_append.2
    refine ⟨inner, List.pairwise_singleton _ _, ?_⟩
    intro x member y own
    obtain rfl := List.mem_singleton.1 own
    have below : task.path.Covers x.path := placed.covers_ahead (taken.ahead_stint x member)
    refine ⟨(Path.covers_of_parent parent).trans below, ?_⟩
    intro same
    rw [← same] at below
    exact Path.not_covers_of_parent parent below
  induction taken with
  | single single moved => exact List.pairwise_singleton _ _
  | inOrder dir queue rest taken ih => exact ih (Placed.hereditary.first placed)
  | inOrderFailed dir queue rest taken ih =>
    cases placed with
    | inOrder first siblings _ => exact concat taken first (siblings _ List.mem_cons_self) (ih first)
  | inOrderDone dir queue rest taken ih =>
    cases placed with
    | inOrder first siblings _ => exact concat taken first (siblings _ List.mem_cons_self) (ih first)
  | together dir before after failure taken ih =>
    exact ih (Placed.hereditary.member placed (by simp))
  | togetherDone dir before after failure taken left ih =>
    exact ih (Placed.hereditary.member placed (by simp))
  | togetherLast dir failure taken ih =>
    cases placed with
    | together each siblings _ =>
      exact concat taken (each _ List.mem_cons_self) (siblings _ List.mem_cons_self)
        (ih (each _ List.mem_cons_self))
  | togetherNone dir failure => exact List.pairwise_singleton _ _

end

end Task

end ProjectIndex.Crawl
