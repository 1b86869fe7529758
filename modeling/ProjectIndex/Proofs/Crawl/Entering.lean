import ProjectIndex.Proofs.Crawl.Founding
import ProjectIndex.Proofs.Crawl.Precedence
import ProjectIndex.Proofs.Crawl.Uneventful

/-!
# Directories that a crawl enters

From its registration to the end of its crawl a directory is treated.  A crawl makes no directory known
and completes no project without treating the directory.  Once it has treated one, it has failed, or the
directory is gone, or its project is complete if it was declared by then.  And it never comes back to
anything at or below that directory, so no file declares the project afterwards.
-/

namespace ProjectIndex

/-- The directory is not that of a project which is still to be initialized. -/
def Store.Ready (d : Path) (s : Store) : Prop :=
  d ∈ s.index.directories → s.projects.stage? d ≠ some false

namespace Crawl

/-- The crawl of the directory is under way: it has been registered and has not come to its end. -/
inductive Task.Treats (d : Path) : Task → Prop where
  | subscribe (known : Bool) : Treats d (.subscribe d known)
  | list (known : Bool) : Treats d (.list d known)
  | inOrder (current : Task) (queue rest : List Path) : Treats d (.inOrder d current queue rest)
  | together (running : List Task) (failure : Option IndexError) : Treats d (.together d running failure)
  | current {dir : Path} {current : Task} {queue rest : List Path} (inside : Treats d current) :
      Treats d (.inOrder dir current queue rest)
  | member {dir : Path} {task : Task} {running : List Task} {failure : Option IndexError}
      (member : task ∈ running) (inside : Treats d task) : Treats d (.together dir running failure)

def Progress.Treats (d : Path) (next : Progress) : Prop :=
  ∃ task, next = .waiting task ∧ task.Treats d

@[simp] theorem Progress.treats_waiting {d : Path} {task : Task} :
    (Progress.waiting task).Treats d ↔ task.Treats d := by
  simp [Progress.Treats]

@[simp] theorem Progress.not_treats_finished (d : Path) (result : Except IndexError Bool) :
    ¬ (Progress.finished result).Treats d := by
  simp [Progress.Treats]

namespace Task

theorem treats_inOrder {d dir : Path} {current : Task} {queue rest : List Path} :
    (Task.inOrder dir current queue rest).Treats d ↔ d = dir ∨ current.Treats d := by
  constructor
  · intro treats
    cases treats with
    | inOrder => exact Or.inl rfl
    | current inside => exact Or.inr inside
  · rintro (rfl | inside)
    · exact .inOrder current queue rest
    · exact .current inside

theorem treats_together {d dir : Path} {running : List Task} {failure : Option IndexError} :
    (Task.together dir running failure).Treats d ↔ d = dir ∨ ∃ task ∈ running, task.Treats d := by
  constructor
  · intro treats
    cases treats with
    | together => exact Or.inl rfl
    | member member inside => exact Or.inr ⟨_, member, inside⟩
  · rintro (rfl | ⟨task, member, inside⟩)
    · exact .together running failure
    · exact .member member inside

/-- What is treated lies ahead: the crawl still has to come to its end. -/
theorem Treats.ahead {d : Path} {task : Task} (treats : task.Treats d) : task.Ahead d := by
  induction treats with
  | subscribe | list => exact .single trivial (.refl d)
  | inOrder current queue rest => exact .inOrderSelf d current queue rest
  | together running failure => exact .togetherSelf d running failure
  | current _ ih => exact .current ih
  | member member _ ih => exact .member member ih

/-- The paths of the waits lie ahead. -/
theorem Leaf.ahead {task leaf : Task} (inside : task.Leaf leaf) : task.Ahead leaf.path := by
  induction inside with
  | single single => exact .single single (.refl _)
  | inOrder _ ih => exact .current ih
  | together member _ ih => exact .member member ih

/-- A crawl that is at work on a file treats all directories on the way to it. -/
theorem Placed.treats {task leaf : Task} {d : Path} (placed : task.Placed) (inside : task.Leaf leaf)
    (above : task.path.Covers d) (encloses : d.Encloses leaf.path) : task.Treats d := by
  have entry : ∀ {dir c : Path}, c.parent = some dir → dir.Covers d → d ≠ dir →
      c.Covers leaf.path → c.Covers d := by
    intro dir c parent above other below
    rcases below.comparable encloses.1 with down | up
    · exact down
    · rcases up.eq_or_parent parent with same | higher
      · exact same ▸ .refl d
      · exact absurd (higher.antisymm above) other
  induction inside with
  | single single => exact absurd (encloses.1.antisymm above) encloses.2
  | @inOrder dir current leaf queue rest inside ih =>
    rw [treats_inOrder]
    by_cases own : d = dir
    · exact Or.inl own
    · cases placed with
      | inOrder first siblings distinct =>
        have below := entry (siblings _ List.mem_cons_self) above own (first.covers_leaf inside)
        exact Or.inr (ih first below encloses entry)
  | @together dir task leaf running failure member inside ih =>
    rw [treats_together]
    by_cases own : d = dir
    · exact Or.inl own
    · cases placed with
      | together each siblings distinct =>
        have first := each task member
        have below := entry (siblings task member) above own (first.covers_leaf inside)
        exact Or.inr ⟨task, member, ih first below encloses entry⟩

end Task

section

variable {ctx : Context} {world : World} {s : Scope} {task : Task} {r : Scope × Progress}

/-- The crawl of a directory goes on with other entries, or fails, or comes to its end and completes the
project of the directory; and nothing else happens. -/
structure Closing (dir : Path) (s : Scope) (r : Scope × Progress) : Prop where
  entered : r.1.store.entered = s.store.entered
  index : r.1.store.index = s.store.index
  develops : s.store.projects.Develops (fun _ => False) (· = dir) r.1.store.projects
  completes : ∀ changed, r.2 = .finished (.ok changed) → r.1.store.projects.stage? dir ≠ some false
  treats : ∀ d, r.2.Treats d → d = dir
  goesOn : ∀ task, r.2 = .waiting task → task.Treats dir

theorem closing_finishDirectory (dir : Path) (s : Scope) :
    Closing dir s (Context.finishDirectory dir s) := by
  have done := s.store.directoryDone_else dir
  have ticked := Store.uneventful_emit rfl (s.store.directoryDone dir) (e := .tick dir)
  have stages : ∀ r, (Context.finishDirectory dir s).1.store.projects.stage? r =
      if dir = r then (s.store.projects.stage? r).map fun _ => true else s.store.projects.stage? r :=
    s.store.stage?_directoryDone dir
  refine ⟨ticked.entered.trans done.1, done.2, .of_completed stages, ?_, ?_, ?_⟩
  · intro changed _
    rw [stages, if_pos rfl]
    simp
  · intro d treats
    exact absurd treats (Progress.not_treats_finished d _)
  · rintro task ⟨⟩

/-- Nothing happens, and the crawl goes on in the directory. -/
theorem closing_waiting {dir : Path} (treats : ∀ d, task.Treats d ↔ d = dir) :
    Closing dir s (s, .waiting task) where
  entered := rfl
  index := rfl
  develops := .of_stages fun _ => rfl
  completes := by rintro changed ⟨⟩
  treats d inside := (treats d).1 (Progress.treats_waiting.1 inside)
  goesOn := by
    rintro task' ⟨⟩
    exact (treats dir).2 rfl

theorem closing_nextInOrder (dir : Path) (queue rest : List Path) (s : Scope) :
    Closing dir s (ctx.nextInOrder dir queue rest s) := by
  have goesOn := entriesNext ctx s dir queue rest
  generalize ctx.nextInOrder dir queue rest s = r at goesOn ⊢
  cases goesOn with
  | next =>
    apply closing_waiting
    intro d
    rw [Task.treats_inOrder, or_iff_left]
    rintro ⟨⟩
  | others =>
    apply closing_waiting
    intro d
    rw [Task.treats_together, or_iff_left]
    rintro ⟨task, member, inside⟩
    obtain ⟨p, _, rfl⟩ := List.mem_map.1 member
    cases inside
  | done => exact closing_finishDirectory dir s

theorem closing_conclude (dir : Path) (failure : Option IndexError) (s : Scope) :
    Closing dir s (conclude dir failure s) := by
  cases failure with
  | none => exact closing_finishDirectory dir s
  | some e =>
    refine ⟨rfl, rfl, .of_stages fun _ => rfl, ?_, ?_, ?_⟩
    · rintro changed ⟨⟩
    · intro d treats
      exact absurd treats (Progress.not_treats_finished d _)
    · rintro task ⟨⟩

/-- A move enters at most one directory, and treats no other that was not treated before. -/
inductive Visits (s : Scope) (task : Task) (r : Scope × Progress) : Prop where
  | none (entered : r.1.store.entered = s.store.entered)
      (known : s.store.index.Filed → r.1.store.index.Filed ∧
        ∀ q ∈ r.1.store.index.directories, q ∈ s.store.index.directories)
      (treats : ∀ d, r.2.Treats d → task.Treats d)
  | one (p : Path) (entered : r.1.store.entered = p :: s.store.entered)
      (known : s.store.index.Filed → r.1.store.index.Filed ∧
        ∀ q ∈ r.1.store.index.directories, q = p ∨ q ∈ s.store.index.directories)
      (inside : r.2.Treats p) (treats : ∀ d, r.2.Treats d → d = p ∨ task.Treats d)

theorem Visits.of_uneventful (uneventful : s.store.Uneventful r.1.store)
    (treats : ∀ d, r.2.Treats d → task.Treats d) : Visits s task r :=
  .none uneventful.entered uneventful.index treats

/-- What is around a task visits what the task visits. -/
theorem Visits.around {outer : Task} {R : Scope × Progress} (visits : Visits s task r)
    (entered : R.1.store.entered = r.1.store.entered) (index : R.1.store.index = r.1.store.index)
    (inner : ∀ d, task.Treats d → outer.Treats d) (inside : ∀ d, r.2.Treats d → R.2.Treats d)
    (origin : ∀ d, R.2.Treats d → r.2.Treats d ∨ outer.Treats d) : Visits s outer R := by
  cases visits with
  | none before known treats =>
    refine .none (entered.trans before) (index ▸ known) ?_
    intro d later
    rcases origin d later with here | around
    · exact inner d (treats d here)
    · exact around
  | one p before known within treats =>
    refine .one p (entered.trans before) (index ▸ known) (inside p within) ?_
    intro d later
    rcases origin d later with here | around
    · exact (treats d here).imp_right (inner d)
    · exact Or.inr around

theorem not_treats_announce (a : Arrival) (s : Scope) (d : Path) : ¬ (ctx.announce a s).2.Treats d := by
  obtain ⟨changed, ends⟩ := @announce_ends ctx a s
  rw [ends]
  exact Progress.not_treats_finished d _

theorem not_treats_resume (a : Arrival) (r : Scope × Declaration.Progress) (d : Path) :
    ¬ (ctx.resume a r).2.Treats d := by
  unfold Context.resume
  split
  · rw [Progress.treats_waiting]
    rintro ⟨⟩
  · exact not_treats_announce a _ d
  · exact Progress.not_treats_finished d _

theorem not_treats_declareManifest (a : Arrival) (s : Scope) (d : Path) :
    ¬ (ctx.declareManifest a s).2.Treats d := by
  have declared := manifestDeclared ctx a s
  generalize ctx.declareManifest a s = r at declared ⊢
  cases declared with
  | unnamed => exact not_treats_announce a s d
  | skipped => exact not_treats_announce a _ d
  | reading =>
    rw [Progress.treats_waiting]
    rintro ⟨⟩

theorem not_treats_addFile (file : Path) (status : Status) (s : Scope) (d : Path) :
    ¬ (ctx.addFile file status s).2.Treats d := by
  have declared : ∀ (a : Arrival) (s : Scope), ¬ (ctx.declareFile a s).2.Treats d := by
    intro a s
    unfold Context.declareFile
    split
    · rw [Progress.treats_waiting]
      rintro ⟨⟩
    · exact not_treats_declareManifest a s d
  have added := fileAdded ctx file status s
  generalize ctx.addFile file status s = r at added ⊢
  cases added with
  | unchanged | ignored | withdrawn => exact Progress.not_treats_finished d _
  | registered => exact declared _ _

theorem visits_addDirectory (follows : ctx.follows = true) (dir : Path) (status : Status) {s' : Scope}
    (before : s.store.Uneventful s'.store) : Visits s task (ctx.addDirectory dir status s') := by
  rcases addDirectory_enters follows dir status s' with ⟨uneventful, ends⟩ | ⟨enters, known, waits⟩
  · apply Visits.of_uneventful (before.trans uneventful)
    rw [ends]
    exact fun d treats => absurd treats (Progress.not_treats_finished d _)
  · have enters := enters.after before
    refine .one dir enters.entered enters.index ?_ ?_
    · rw [waits, Progress.treats_waiting]
      exact .subscribe known
    · rw [waits]
      intro d treats
      cases Progress.treats_waiting.1 treats
      exact Or.inl rfl

theorem visits_examined (follows : ctx.follows = true) (p : Path) (answer : Except DiskError Status)
    (s : Scope) : Visits s (.entry p) (ctx.examined p answer s) := by
  cases answer with
  | error cause =>
    unfold Context.examined
    dsimp only
    split
    · split
      · exact .of_uneventful (uneventful_remove p s) (by simp)
      · exact .of_uneventful (.refl _) (by simp)
    · exact .of_uneventful (.refl _) (by simp)
  | ok st =>
    obtain ⟨s', origin, examined⟩ := @examined_told ctx p st s
    have cleared : s.store.Uneventful s'.store := by
      rcases origin with ⟨rfl, _⟩ | ⟨rfl, _⟩
      · exact .refl _
      · exact uneventful_remove p s
    rw [examined]
    split
    · exact visits_addDirectory follows p st cleared
    · apply Visits.of_uneventful (cleared.trans (uneventful_addFile p st s'))
      exact fun d treats => absurd treats (not_treats_addFile p st s' d)
    · exact .of_uneventful cleared (by simp)

/-- The entries of a directory are taken up, or there are none to be had. -/
theorem visits_listed (dir : Path) (known : Bool) (answer : Except DiskError (List Path)) (s : Scope) :
    Visits s (.list dir known) (ctx.listed dir known answer s) := by
  unfold Context.listed
  split
  · split
    · exact .of_uneventful (uneventful_remove dir s) (by simp)
    · exact .of_uneventful (.refl _) (by simp)
  next children =>
    split
    · exact .of_uneventful (.refl _) (by simp)
    · have reconciled := @uneventful_reconcile ctx dir children s
      have next : ∀ s' : Scope, s.store.Uneventful s'.store → ∀ first rest : List Path,
          Visits s (.list dir known) (ctx.nextInOrder dir first rest s') := by
        intro s' before first rest
        have closing := @closing_nextInOrder ctx dir first rest s'
        refine .none (closing.entered.trans before.entered) (closing.index ▸ before.index) ?_
        intro d treats
        rw [closing.treats d treats]
        exact .list known
      dsimp only
      split
      · exact next _ reconciled _ _
      · exact next _ (.refl _) _ _

theorem entered_declaration (world : World) (d : Declaration) (s : Scope) :
    (d.step ctx.policy world ctx.generation s).1.store.entered = s.store.entered ∧
      (s.store.index.Filed → (d.step ctx.policy world ctx.generation s).1.store.index.Filed ∧
        ∀ q ∈ (d.step ctx.policy world ctx.generation s).1.store.index.directories,
          q ∈ s.store.index.directories) := by
  have still : ∀ t : Store, s.store.Uneventful t → t.entered = s.store.entered ∧
      (s.store.index.Filed → t.index.Filed ∧ ∀ q ∈ t.index.directories, q ∈ s.store.index.directories) :=
    fun t uneventful => ⟨uneventful.entered, uneventful.index⟩
  cases d with
  | reading path directory =>
    dsimp only [Declaration.step]
    split
    · exact still _ (uneventful_install _ _ _ _ s)
    · split
      · exact still _ (Store.uneventful_log _ _)
      · exact still _ (.refl _)
  | declaring D =>
    obtain ⟨entered, index⟩ := s.store.projectDeclared_else D.directory
    have sent := uneventful_publish D
      ((s.remarkAll (world.projectRemarks D.directory)).update (·.projectDeclared D.directory))
    exact ⟨sent.entered.trans entered, index ▸ sent.index⟩
  | publishing D => exact still _ (.refl _)

/-- A move enters at most one directory. -/
theorem Task.Moves.visits (moved : Task.Moves ctx world s task r) (follows : ctx.follows = true) :
    Visits s task r := by
  induction moved with
  | begin p =>
    unfold Context.addEntry
    split
    · exact .of_uneventful (.refl _) (by simp)
    · refine .of_uneventful (.refl _) ?_
      rintro d ⟨task, waits, inside⟩
      cases waits
      cases inside
  | entry p => exact visits_examined follows p _ s
  | subscribe dir known =>
    apply Visits.of_uneventful (uneventful_subscribed dir _ s)
    rintro d ⟨task, waits, inside⟩
    cases waits
    cases inside
    exact .subscribe known
  | list dir known => exact visits_listed dir known _ s
  | project a root =>
    obtain ⟨entered, index⟩ := s.store.projectDeclared_else root
    have declared := @uneventful_declareManifest ctx a
      ((s.remarkAll (world.projectRemarks root)).update (·.projectDeclared root))
    refine .none (declared.entered.trans entered) (index ▸ declared.index) ?_
    exact fun d treats => absurd treats (not_treats_declareManifest a _ d)
  | manifest a d =>
    obtain ⟨entered, index⟩ := @entered_declaration ctx world d s
    have resumed := @uneventful_resume ctx a (d.step ctx.policy world ctx.generation s)
    refine .none (resumed.entered.trans entered) ?_ ?_
    · intro filed
      obtain ⟨filed', before⟩ := index filed
      obtain ⟨filed'', between⟩ := resumed.index filed'
      exact ⟨filed'', fun q known => before q (between q known)⟩
    · exact fun q treats => absurd treats (not_treats_resume a _ q)
  | inOrder dir queue rest moved ih =>
    refine ih.around rfl rfl ?_ ?_ ?_
    · exact fun d treats => .current treats
    · exact fun d treats => Progress.treats_waiting.2 (.current (Progress.treats_waiting.1 treats))
    · intro d treats
      rw [Progress.treats_waiting, Task.treats_inOrder] at treats
      rcases treats with rfl | inside
      · exact Or.inr (.inOrder _ queue rest)
      · exact Or.inl (Progress.treats_waiting.2 inside)
  | inOrderFailed dir queue rest moved ih =>
    exact ih.around rfl rfl (fun d treats => .current treats) (by simp) (by simp)
  | @inOrderDone s' current changed dir queue rest moved ih =>
    have closing := @closing_nextInOrder ctx dir queue rest s'
    apply ih.around closing.entered closing.index
    · exact fun d treats => .current treats
    · exact fun d treats => absurd treats (Progress.not_treats_finished d _)
    · intro d treats
      rw [closing.treats d treats]
      exact Or.inr (.inOrder _ queue rest)
  | @together s' task task' dir before after failure moved ih =>
    refine ih.around rfl rfl ?_ ?_ ?_
    · exact fun d treats => .member (by simp) treats
    · exact fun d treats => Progress.treats_waiting.2 (.member (by simp) (Progress.treats_waiting.1 treats))
    · intro d treats
      rw [Progress.treats_waiting, Task.treats_together] at treats
      rcases treats with rfl | ⟨other, member, inside⟩
      · exact Or.inr (.together _ failure)
      · rcases List.mem_cons.1 (List.perm_middle.mem_iff.1 member) with rfl | beside
        · exact Or.inl (Progress.treats_waiting.2 inside)
        · exact Or.inr (.member (List.perm_middle.mem_iff.2 (List.mem_cons_of_mem _ beside)) inside)
  | @togetherDone s' task result dir before after failure moved left ih =>
    refine ih.around rfl rfl ?_ ?_ ?_
    · exact fun d treats => .member (by simp) treats
    · exact fun d treats => absurd treats (Progress.not_treats_finished d _)
    · intro d treats
      rw [Progress.treats_waiting, Task.treats_together] at treats
      rcases treats with rfl | ⟨other, beside, inside⟩
      · exact Or.inr (.together _ failure)
      · exact Or.inr (.member (List.perm_middle.mem_iff.2 (List.mem_cons_of_mem _ beside)) inside)
  | @togetherLast s' task result dir failure moved ih =>
    have closing := closing_conclude dir (failure <|> failureOf result) s'
    apply ih.around closing.entered closing.index
    · exact fun d treats => .member List.mem_cons_self treats
    · exact fun d treats => absurd treats (Progress.not_treats_finished d _)
    · intro d treats
      rw [closing.treats d treats]
      exact Or.inr (.together _ failure)
  | togetherNone dir failure =>
    have closing := closing_conclude dir failure s
    refine .none closing.entered (closing.index ▸ (Store.Uneventful.refl s.store).index) ?_
    intro d treats
    rw [closing.treats d treats]
    exact .together [] failure

end

end Crawl

end ProjectIndex
