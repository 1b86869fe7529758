import ProjectIndex.Proofs.Crawl.Entering

/-!
# Projects that a crawl initializes

For each directory a crawl is outside, or inside, or through with it, or it has failed.  Outside it leaves
the project of the directory alone, but that a file may declare it; and if the directory is at or below
the path of the crawl, no file does, because the way to the file leads through the directory.  A crawl
that was inside and ends well is through with the directory, and has left it ready.
-/

namespace ProjectIndex.Crawl

section

variable {ctx : Context} {world : World} {s : Scope} {task : Task} {r : Scope × Progress}

theorem stage_examined (follows : ctx.follows = true) (p : Path) (answer : Except DiskError Status)
    (s : Scope) (r : Path) :
    (ctx.examined p answer s).1.store.projects.stage? r = s.store.projects.stage? r := by
  cases answer with
  | error cause =>
    unfold Context.examined
    dsimp only
    split
    · split
      · exact (uneventful_remove p s).stage r
      · rfl
    · rfl
  | ok st =>
    obtain ⟨s', origin, examined⟩ := @examined_told ctx p st s
    have cleared : s'.store.projects.stage? r = s.store.projects.stage? r := by
      rcases origin with ⟨rfl, _⟩ | ⟨rfl, _⟩
      · rfl
      · exact (uneventful_remove p s).stage r
    rw [examined, ← cleared]
    split
    · rcases addDirectory_enters follows p st s' with ⟨uneventful, _⟩ | ⟨enters, _⟩
      · exact uneventful.stage r
      · exact enters.stage r
    · exact (uneventful_addFile p st s').stage r
    · rfl

/-- A declaration of a manifest declares the project of its directory, at the end of one of its waits. -/
theorem develops_declaration (world : World) (a : Arrival) (d : Declaration) (s : Scope) :
    s.store.projects.Develops (fun r => (Task.manifest a d).founds? = some r) (fun _ => False)
      (d.step ctx.policy world ctx.generation s).1.store.projects := by
  cases d with
  | reading path directory =>
    dsimp only [Declaration.step]
    split
    · exact .of_stages (uneventful_install _ _ _ _ s).stage
    · split
      · exact .of_stages (Store.uneventful_log _ _).stage
      · exact .of_stages fun _ => rfl
  | declaring D =>
    have declared := s.store.projectDeclared_projects D.directory
    have sent := uneventful_publish D
      ((s.remarkAll (world.projectRemarks D.directory)).update (·.projectDeclared D.directory))
    have founded : s.store.projects.Develops (fun r => some D.directory = some r) (fun _ => False)
        (s.store.projectDeclared D.directory).projects := by
      rw [declared]
      apply (Projects.Develops.declare s.store.projects D.directory).mono
      · exact fun r same => congrArg some same.symm
      · exact fun r within => within
    exact founded.trans (.of_stages sent.stage)
  | publishing D => exact .of_stages fun _ => rfl

/-- The end of a single wait declares at most the project that it is about, and completes at most that of
a directory whose entries were asked for. -/
theorem Task.Moves.develops_single (moved : Task.Moves ctx world s task r) (follows : ctx.follows = true)
    (single : task.Single) :
    s.store.projects.Develops (fun r => task.founds? = some r) task.Treats r.1.store.projects := by
  cases moved with
  | begin p =>
    unfold Context.addEntry
    split <;> exact .of_stages fun _ => rfl
  | entry p => exact .of_stages (stage_examined follows p _ s)
  | subscribe dir known => exact .of_stages (uneventful_subscribed dir _ s).stage
  | list dir known =>
    have next : ∀ s' : Scope, s.store.Uneventful s'.store → ∀ first rest : List Path,
        s.store.projects.Develops (fun r => (Task.list dir known).founds? = some r)
          (fun r => (Task.list dir known).Treats r)
          (ctx.nextInOrder dir first rest s').1.store.projects := by
      intro s' before first rest
      have closing := (@closing_nextInOrder ctx dir first rest s').develops
      apply (Projects.Develops.of_stages before.stage).trans
      apply closing.mono
      · exact fun r founds => founds.elim
      · rintro r rfl
        exact .list known
    unfold Context.listed
    split
    · split
      · exact .of_stages (uneventful_remove dir s).stage
      · exact .of_stages fun _ => rfl
    next children _ =>
      split
      · exact .of_stages fun _ => rfl
      · dsimp only
        split
        · exact next _ (uneventful_reconcile dir children s) _ _
        · exact next _ (.refl _) _ _
  | project a root =>
    have declared := s.store.projectDeclared_projects root
    have next := @uneventful_declareManifest ctx a
      ((s.remarkAll (world.projectRemarks root)).update (·.projectDeclared root))
    have founded : s.store.projects.Develops (fun r => some root = some r)
        (fun r => (Task.project a root).Treats r) (s.store.projectDeclared root).projects := by
      rw [declared]
      apply (Projects.Develops.declare s.store.projects root).mono
      · exact fun r same => congrArg some same.symm
      · exact fun r within => within
    exact founded.trans (.of_stages next.stage)
  | manifest a d =>
    have resumed := @uneventful_resume ctx a (d.step ctx.policy world ctx.generation s)
    have declared := (@develops_declaration ctx world a d s)
    exact (declared.mono (fun _ founds => founds) (fun _ within => within.elim)).trans
      (.of_stages resumed.stage)
  | inOrder | inOrderFailed | inOrderDone | together | togetherDone | togetherLast | togetherNone =>
    exact absurd single id

/-- A move declares at most the project that one of the waits is about, and completes at most those of
directories that are treated. -/
theorem Task.Moves.develops (moved : Task.Moves ctx world s task r) (follows : ctx.follows = true) :
    s.store.projects.Develops (fun r => ∃ leaf, task.Leaf leaf ∧ leaf.founds? = some r) task.Treats
      r.1.store.projects := by
  have alone : ∀ {task : Task} {r : Scope × Progress}, Task.Moves ctx world s task r → task.Single →
      s.store.projects.Develops (fun r => ∃ leaf, task.Leaf leaf ∧ leaf.founds? = some r) task.Treats
        r.1.store.projects := by
    intro task r moved single
    apply (moved.develops_single follows single).mono
    · exact fun r founds => ⟨task, .single single, founds⟩
    · exact fun r treats => treats
  induction moved with
  | begin p => exact alone (.begin p) trivial
  | entry p => exact alone (.entry p) trivial
  | subscribe dir known => exact alone (.subscribe dir known) trivial
  | list dir known => exact alone (.list dir known) trivial
  | project a root => exact alone (.project a root) trivial
  | manifest a d => exact alone (.manifest a d) trivial
  | inOrder dir queue rest moved ih | inOrderFailed dir queue rest moved ih =>
    apply ih.mono
    · exact fun r ⟨leaf, inside, founds⟩ => ⟨leaf, .inOrder inside, founds⟩
    · exact fun r treats => .current treats
  | @inOrderDone s' current changed dir queue rest moved ih =>
    have closing := (@closing_nextInOrder ctx dir queue rest s').develops
    apply (ih.mono ?_ ?_).trans (closing.mono ?_ ?_)
    · exact fun r ⟨leaf, inside, founds⟩ => ⟨leaf, .inOrder inside, founds⟩
    · exact fun r treats => .current treats
    · exact fun r founds => founds.elim
    · rintro r rfl
      exact .inOrder current queue rest
  | together dir before after failure moved ih | togetherDone dir before after failure moved left ih =>
    apply ih.mono
    · exact fun r ⟨leaf, inside, founds⟩ => ⟨leaf, .together (by simp) inside, founds⟩
    · exact fun r treats => .member (by simp) treats
  | @togetherLast s' task result dir failure moved ih =>
    have closing := (closing_conclude dir (failure <|> failureOf result) s').develops
    apply (ih.mono ?_ ?_).trans (closing.mono ?_ ?_)
    · exact fun r ⟨leaf, inside, founds⟩ => ⟨leaf, .together (by simp) inside, founds⟩
    · exact fun r treats => .member (by simp) treats
    · exact fun r founds => founds.elim
    · rintro r rfl
      exact .together [task] failure
  | togetherNone dir failure =>
    apply (closing_conclude dir failure s).develops.mono
    · exact fun r founds => founds.elim
    · rintro r rfl
      exact .together [] failure

/-- A directory that is treated goes on being treated; or something has failed; or its crawl has ended,
and has left it ready. -/
inductive Leaves (d : Path) (stints : List Stint) (r : Scope × Progress) : Prop where
  | treated (treats : r.2.Treats d)
  | failed (e : IndexError) (failed : r.2.Failed e)
  | ready (ended : ∃ x ∈ stints, x.path = d ∧ x.ended.isSome = true) (ready : r.1.store.Ready d)

/-- The end of another directory changes nothing about this one. -/
theorem Closing.ready {dir d : Path} (closing : Closing dir s r) (other : d ≠ dir)
    (ready : s.store.Ready d) : r.1.store.Ready d := by
  intro known
  rw [closing.index] at known
  rcases closing.develops.stage d other with same | ⟨declared, _⟩
  · rw [same]
    exact ready known
  · exact declared.elim

/-- The directory itself goes on, or fails, or comes to its end. -/
theorem Closing.leaves {dir : Path} (closing : Closing dir s r) (stints : List Stint) (start : Scope) :
    Leaves dir (stints ++ [stint dir start r]) r := by
  obtain ⟨s', task | e | changed⟩ := r
  · exact .treated (Progress.treats_waiting.2 (closing.goesOn task rfl))
  · exact .failed e rfl
  · apply Leaves.ready
    · exact ⟨_, List.mem_append_right stints (List.mem_singleton_self _), rfl, rfl⟩
    · exact fun _ => closing.completes changed rfl

/-- What was done in an entry of a directory, seen from the directory, as long as it goes on. -/
theorem Leaves.within {d : Path} {stints more : List Stint} {R : Scope × Progress}
    (leaves : Leaves d stints r) (kept : ∀ x ∈ stints, x ∈ more)
    (treats : r.2.Treats d → R.2.Treats d) (fails : ∀ e, r.2.Failed e → ∃ e', R.2.Failed e')
    (ready : r.1.store.Ready d → R.1.store.Ready d) : Leaves d more R := by
  cases leaves with
  | treated inside => exact .treated (treats inside)
  | failed e failed =>
    obtain ⟨e', failed'⟩ := fails e failed
    exact .failed e' failed'
  | ready ended left =>
    obtain ⟨x, member, own, closed⟩ := ended
    exact .ready ⟨x, kept x member, own, closed⟩ (ready left)

/-- A directory that is not there any more is ready. -/
theorem ready_remove (live : s.store.isStale ctx.generation = false) (filed : s.store.index.Filed)
    (d : Path) : (ctx.remove d s).1.store.Ready d := by
  intro known
  rw [remove_index live, filed.mem_directories_evict] at known
  exact absurd (.here d) known.2

theorem leaves_listed (live : s.store.isStale ctx.generation = false) (filed : s.store.index.Filed)
    (d : Path) (known : Bool) (answer : Except DiskError (List Path)) :
    Leaves d [stint d s (ctx.listed d known answer s)] (ctx.listed d known answer s) := by
  unfold Context.listed
  split
  · split
    · exact .ready ⟨_, List.mem_singleton_self _, rfl, rfl⟩ (ready_remove live filed d)
    · exact .failed _ rfl
  next children =>
    rw [if_neg (by simp [Context.isStale, live])]
    dsimp only
    split
    · exact (closing_nextInOrder d _ _ _).leaves [] s
    · exact (closing_nextInOrder d _ _ _).leaves [] s

/-- The end of one wait of a task that treats the directory. -/
theorem Task.Takes.leaves {d : Path} {stints : List Stint} (taken : Task.Takes ctx world s task stints r)
    (live : s.store.isStale ctx.generation = false) (filed : s.store.index.Filed)
    (treats : task.Treats d) : Leaves d stints r := by
  induction taken with
  | @single task r single moved =>
    cases treats with
    | subscribe known =>
      cases moved
      exact .treated (Progress.treats_waiting.2 (.list known))
    | list known =>
      cases moved
      exact leaves_listed live filed d known _
    | inOrder | together | current | member => exact absurd single id
  | @inOrder s' current current' stints dir queue rest taken ih =>
    rcases treats_inOrder.1 treats with rfl | inside
    · exact .treated (Progress.treats_waiting.2 (.inOrder current' queue rest))
    · apply (ih inside).within
      · exact fun x member => member
      · exact fun later => Progress.treats_waiting.2 (.current (Progress.treats_waiting.1 later))
      · exact fun e failed => ⟨e, .inOrder failed⟩
      · exact fun ready => ready
  | @inOrderFailed s' current e stints dir queue rest taken ih => exact .failed e rfl
  | @inOrderDone s' current changed stints dir queue rest taken ih =>
    have closing := @closing_nextInOrder ctx dir queue rest s'
    by_cases own : d = dir
    · exact own ▸ closing.leaves stints _
    · have inside := (treats_inOrder.1 treats).resolve_left own
      apply (ih inside).within
      · exact fun x member => List.mem_append_left _ member
      · exact fun later => absurd later (Progress.not_treats_finished d _)
      · rintro e ⟨⟩
      · exact closing.ready own
  | @together s' task task' stints dir before after failure taken ih =>
    rcases treats_together.1 treats with rfl | ⟨other, member, inside⟩
    · exact .treated (Progress.treats_waiting.2 (.together _ failure))
    · rcases List.mem_cons.1 (List.perm_middle.mem_iff.1 member) with rfl | beside
      · apply (ih inside).within
        · exact fun x member => member
        · intro later
          exact Progress.treats_waiting.2 (.member (by simp) (Progress.treats_waiting.1 later))
        · exact fun e failed => ⟨e, .among (by simp) failed⟩
        · exact fun ready => ready
      · have listed : other ∈ before ++ task' :: after :=
          List.perm_middle.mem_iff.2 (List.mem_cons_of_mem _ beside)
        exact .treated (Progress.treats_waiting.2 (.member listed inside))
  | @togetherDone s' task result stints dir before after failure taken left ih =>
    rcases treats_together.1 treats with rfl | ⟨other, member, inside⟩
    · exact .treated (Progress.treats_waiting.2 (.together _ _))
    · rcases List.mem_cons.1 (List.perm_middle.mem_iff.1 member) with rfl | beside
      · apply (ih inside).within
        · exact fun x member => member
        · exact fun later => absurd later (Progress.not_treats_finished d _)
        · rintro e rfl
          cases failure with
          | none => exact ⟨e, .together dir _⟩
          | some first => exact ⟨first, .together dir _⟩
        · exact fun ready => ready
      · exact .treated (Progress.treats_waiting.2 (.member beside inside))
  | @togetherLast s' task result stints dir failure taken ih =>
    have closing := closing_conclude dir (failure <|> failureOf result) s'
    by_cases own : d = dir
    · exact own ▸ closing.leaves stints _
    · obtain ⟨other, member, inside⟩ := (treats_together.1 treats).resolve_left own
      obtain rfl := List.mem_singleton.1 member
      apply (ih inside).within
      · exact fun x member => List.mem_append_left _ member
      · exact fun later => absurd later (Progress.not_treats_finished d _)
      · rintro e rfl
        cases failure with
        | none => exact ⟨e, failed_conclude.2 rfl⟩
        | some first => exact ⟨first, failed_conclude.2 rfl⟩
      · exact closing.ready own
  | togetherNone dir failure =>
    have closing := closing_conclude dir failure s
    rcases treats_together.1 treats with rfl | ⟨other, member, _⟩
    · exact closing.leaves [] _
    · cases member

/-- A crawl of `p` in a live generation, before one of its moves or at its end. -/
structure Going (ctx : Context) (p : Path) (r : Scope × Progress) : Prop where
  live : r.1.store.isStale ctx.generation = false
  filed : r.1.store.index.Filed
  goesOn : ∀ task, r.2 = .waiting task → task.Placed ∧ task.path = p ∧ task.Ranked ctx.policy
  sited : r.2.Sited

theorem Going.move {p : Path} (going : Going ctx p (s, .waiting task))
    (moved : Task.Moves ctx world s task r) (follows : ctx.follows = true) (lists : world.ListsOnce)
    (absolute : p.isAbsolute = true) : Going ctx p r := by
  obtain ⟨placed, rfl, ranked⟩ := going.goesOn task rfl
  obtain ⟨stints, taken⟩ := moved.takes
  refine ⟨(moved.edits.isStale _).trans going.live, ?_, ?_, moved.sited going.live placed going.sited⟩
  · cases moved.visits follows with
    | none _ known _ => exact (known going.filed).1
    | one _ _ known _ _ => exact (known going.filed).1
  · intro next waits
    obtain ⟨placed', same⟩ := taken.placed lists absolute placed waits
    exact ⟨placed', same, taken.ranked lists absolute placed ranked waits⟩

/-- Where a crawl of `p` stands towards the directory `d`, when it has entered these directories since the
store was `old`. -/
inductive Standing (p d : Path) (old : Store) (dirs : List Path) (r : Scope × Progress) : Prop where
  /-- It has not come to the directory. -/
  | outside (out : d ∉ dirs) (idle : ¬ r.2.Treats d)
      (known : d ∈ r.1.store.index.directories → d ∈ old.index.directories)
      (stage : r.1.store.projects.stage? d = old.projects.stage? d ∨
        (old.projects.stage? d = none ∧ r.1.store.projects.stage? d = some false ∧ ¬ p.Covers d))
  /-- It treats the directory. -/
  | inside (within : d ∈ dirs) (treats : r.2.Treats d)
  /-- It is through with the directory, and does not come back. -/
  | through (within : d ∈ dirs) (past : ∀ q, d.Covers q → ¬ r.2.Ahead q) (ready : r.1.store.Ready d)
  | failed (e : IndexError) (failed : r.2.Failed e)

section

variable {p d : Path} {old : Store} {dirs : List Path}

/-- Outside the directory, a file that declares its project is not reached through the directory. -/
theorem Standing.move_outside (going : Going ctx p (s, .waiting task))
    (moved : Task.Moves ctx world s task r) (follows : ctx.follows = true) (idle : ¬ task.Treats d)
    (stage : s.store.projects.stage? d = old.projects.stage? d ∨
      (old.projects.stage? d = none ∧ s.store.projects.stage? d = some false ∧ ¬ p.Covers d)) :
    r.1.store.projects.stage? d = old.projects.stage? d ∨
      (old.projects.stage? d = none ∧ r.1.store.projects.stage? d = some false ∧ ¬ p.Covers d) := by
  obtain ⟨placed, rfl, _⟩ := going.goesOn task rfl
  rcases (moved.develops follows).stage d idle with same | ⟨⟨leaf, inside, founds⟩, fresh, declared⟩
  · rwa [same]
  · have sited := going.sited leaf (Progress.leaf_waiting.2 inside)
    have apart : ¬ task.path.Covers d :=
      fun above => idle (placed.treats inside above (sited.encloses founds))
    rcases stage with same | ⟨_, waits, _⟩
    · exact Or.inr ⟨same.symm.trans fresh, declared, apart⟩
    · rw [waits] at fresh
      cases fresh

/-- A crawl that is through with a directory declares nothing there any more. -/
theorem Standing.move_through (going : Going ctx p (s, .waiting task))
    (moved : Task.Moves ctx world s task r) (follows : ctx.follows = true)
    (past : ∀ q, d.Covers q → ¬ task.Ahead q)
    (known : d ∈ r.1.store.index.directories → d ∈ s.store.index.directories)
    (ready : s.store.Ready d) : r.1.store.Ready d := by
  intro there
  have idle : ¬ task.Treats d := fun treats => past d (.refl d) treats.ahead
  rcases (moved.develops follows).stage d idle with same | ⟨⟨leaf, inside, founds⟩, _, _⟩
  · rw [same]
    exact ready (known there)
  · have sited := going.sited leaf (Progress.leaf_waiting.2 inside)
    exact absurd inside.ahead (past leaf.path (sited.encloses founds).1)

/-- One move of a crawl, as seen from a directory. -/
theorem Standing.move (standing : Standing p d old dirs (s, .waiting task))
    (going : Going ctx p (s, .waiting task)) (moved : Task.Moves ctx world s task r)
    (follows : ctx.follows = true) (lists : world.ListsOnce) (absolute : p.isAbsolute = true) :
    ∃ more, r.1.store.entered = more ++ s.store.entered ∧ Standing p d old (more ++ dirs) r := by
  obtain ⟨stints, taken⟩ := moved.takes
  have visits := moved.visits follows
  cases standing with
  | outside out idle known stage =>
    have idle : ¬ task.Treats d := fun treats => idle (Progress.treats_waiting.2 treats)
    have later := Standing.move_outside going moved follows idle stage
    cases visits with
    | none entered index treats =>
      refine ⟨[], entered, .outside out ?_ ?_ later⟩
      · exact fun inside => idle (treats d inside)
      · exact fun there => known ((index going.filed).2 d there)
    | one q entered index inside treats =>
      refine ⟨[q], entered, ?_⟩
      by_cases own : d = q
      · subst own
        exact .inside List.mem_cons_self inside
      · refine .outside ?_ ?_ ?_ later
        · exact fun member => (List.mem_cons.1 member).elim own out
        · exact fun inside => (treats d inside).elim own idle
        · exact fun there => known (((index going.filed).2 d there).resolve_left own)
  | inside within treats =>
    have left := taken.leaves going.live going.filed (Progress.treats_waiting.1 treats)
    have goesOn : ∀ more : List Path, Standing p d old (more ++ dirs) r := by
      intro more
      have within : d ∈ more ++ dirs := List.mem_append_right more within
      cases left with
      | treated treats => exact .inside within treats
      | failed e failed => exact .failed e failed
      | ready ended ready =>
        obtain ⟨x, member, own, closed⟩ := ended
        obtain ⟨placed, rfl, ranked⟩ := going.goesOn task rfl
        refine .through within ?_ ready
        intro q covers ahead
        have allows := taken.allows lists absolute placed ranked ahead x member
        exact allows.ended closed (own.symm ▸ covers)
    cases visits with
    | none entered _ _ => exact ⟨[], entered, goesOn []⟩
    | one q entered _ _ _ => exact ⟨[q], entered, goesOn [q]⟩
  | through within past ready =>
    obtain ⟨placed, rfl, ranked⟩ := going.goesOn task rfl
    have past : ∀ q, d.Covers q → ¬ task.Ahead q :=
      fun q covers ahead => past q covers (Progress.ahead_waiting.2 ahead)
    have past' : ∀ q, d.Covers q → ¬ r.2.Ahead q :=
      fun q covers ahead => past q covers (taken.ahead_of_ahead lists absolute placed ahead)
    cases visits with
    | none entered index _ =>
      have known := (index going.filed).2 d
      exact ⟨[], entered, .through within past' (move_through going moved follows past known ready)⟩
    | one q entered index inside _ =>
      have other : d ≠ q := by
        rintro rfl
        obtain ⟨next, waits, treats⟩ := inside
        exact past' d (.refl d) ⟨next, waits, treats.ahead⟩
      have known := fun there => ((index going.filed).2 d there).resolve_left other
      refine ⟨[q], entered, .through ?_ past' (move_through going moved follows past known ready)⟩
      exact List.mem_cons_of_mem q within
  | failed e failed =>
    obtain ⟨e', failed'⟩ := moved.fails failed
    cases visits with
    | none entered _ _ => exact ⟨[], entered, .failed e' failed'⟩
    | one q entered _ _ _ => exact ⟨[q], entered, .failed e' failed'⟩

/-- What a crawl of `p` that has entered these directories and has not failed means for the directory
`d`. -/
structure Passage (p d : Path) (s t : Store) (dirs : List Path) : Prop where
  filed : t.index.Filed
  entered : t.entered = dirs ++ s.entered
  /-- A project is never taken back. -/
  kept : s.projects.stage? d ≠ none → t.projects.stage? d ≠ none
  /-- If the directory was entered, its project is initialized, or the directory is gone. -/
  ready : d ∈ dirs → t.Ready d
  known : d ∉ dirs → d ∈ t.index.directories → d ∈ s.index.directories
  /-- If it was not entered, its project is left alone, but it may be declared in a crawl from below. -/
  stage : d ∉ dirs → t.projects.stage? d = s.projects.stage? d ∨
    (s.projects.stage? d = none ∧ t.projects.stage? d = some false ∧ ¬ p.Covers d)

theorem Passage.of_uneventful {s t : Store} (filed : s.index.Filed) (uneventful : s.Uneventful t) :
    Passage p d s t [] where
  filed := (uneventful.index filed).1
  entered := uneventful.entered
  kept declared := by rwa [uneventful.stage]
  ready within := absurd within List.not_mem_nil
  known _ := (uneventful.index filed).2 d
  stage _ := Or.inl (uneventful.stage d)

/-- Nothing else happens before the crawl and after it. -/
theorem Passage.between {s s' t t' : Store} (passage : Passage p d s' t dirs) (filed : s.index.Filed)
    (before : s.Uneventful s') (after : t.Uneventful t') : Passage p d s t' dirs where
  filed := (after.index passage.filed).1
  entered := by rw [after.entered, passage.entered, before.entered]
  kept declared := by
    rw [after.stage]
    apply passage.kept
    rwa [before.stage]
  ready within known := by
    rw [after.stage]
    exact passage.ready within ((after.index passage.filed).2 d known)
  known out there :=
    (before.index filed).2 d (passage.known out ((after.index passage.filed).2 d there))
  stage out := by
    rw [after.stage, ← before.stage]
    exact passage.stage out

/-- What a crawl that ends well means for a directory. -/
theorem Served.passage {admits : World → Prop} {changed : Bool}
    (served : Served ctx admits r s (.ok changed)) (follows : ctx.follows = true)
    (lists : ∀ world, admits world → world.ListsOnce) (absolute : p.isAbsolute = true)
    (going : Going ctx p r) (entered : r.1.store.entered = dirs ++ old.entered)
    (kept : old.projects.stage? d ≠ none → r.1.store.projects.stage? d ≠ none)
    (standing : Standing p d old dirs r) : ∃ dirs, Passage p d old s.store dirs := by
  have ends := served.keeps (P := fun r => Going ctx p r ∧
      (old.projects.stage? d ≠ none → r.1.store.projects.stage? d ≠ none) ∧
      ∃ dirs, r.1.store.entered = dirs ++ old.entered ∧ Standing p d old dirs r)
    ⟨going, kept, dirs, entered, standing⟩ ?_
  · obtain ⟨going, kept, dirs, entered, standing⟩ := ends
    have filed := going.filed
    refine ⟨dirs, ?_⟩
    cases standing with
    | outside out _ known stage =>
      exact ⟨filed, entered, kept, fun within => absurd within out, fun _ => known, fun _ => stage⟩
    | inside _ treats => exact absurd treats (Progress.not_treats_finished d _)
    | through within _ ready =>
      exact ⟨filed, entered, kept, fun _ => ready, fun out => absurd within out,
        fun out => absurd within out⟩
    | failed e failed => cases failed
  · rintro s task world r admitted moved ⟨going, kept, dirs, entered, standing⟩
    have lists := lists world admitted
    obtain ⟨more, new, standing⟩ := standing.move going moved follows lists absolute
    refine ⟨going.move moved follows lists absolute, ?_, more ++ dirs, ?_, standing⟩
    · exact fun declared => (moved.develops follows).kept d (kept declared)
    · rw [new, entered, List.append_assoc]

/-- A crawl begins with its path. -/
theorem Going.start (stays : r.2.Stays p) (sited : r.2.Sited)
    (live : r.1.store.isStale ctx.generation = false) (filed : r.1.store.index.Filed) :
    Going ctx p r := by
  refine ⟨live, filed, ?_, sited⟩
  intro task waits
  rw [waits] at stays
  exact ⟨stays.1.placed, stays.2, .single stays.1⟩

/-- A crawl of a directory of which the status is known. -/
theorem Served.passage_directory {admits : World → Prop} {status : Status} {store : Store} {changed : Bool}
    (served : Served ctx admits (ctx.addDirectory p status { store }) s (.ok changed))
    (follows : ctx.follows = true) (lists : ∀ world, admits world → world.ListsOnce)
    (absolute : p.isAbsolute = true) (live : store.isStale ctx.generation = false)
    (filed : store.index.Filed) (d : Path) : ∃ dirs, Passage p d store s.store dirs := by
  have still := (@edits_addDirectory ctx p status { store }).isStale ctx.generation
  have stays := @stays_addDirectory ctx p status { store }
  have sited := @sited_addDirectory ctx p status { store }
  rcases @addDirectory_enters ctx follows p status { store } with
    ⟨uneventful, ends⟩ | ⟨enters, known, waits⟩
  · have going := Going.start stays sited (still.trans live) (uneventful.index filed).1
    have entered : (ctx.addDirectory p status { store }).1.store.entered = [] ++ store.entered :=
      uneventful.entered
    refine served.passage follows lists absolute going entered ?_ ?_
    · rw [uneventful.stage]
      exact id
    · refine .outside List.not_mem_nil ?_ ((uneventful.index filed).2 d) (Or.inl (uneventful.stage d))
      rw [ends]
      exact Progress.not_treats_finished d _
  · have going := Going.start stays sited (still.trans live) (enters.index filed).1
    have entered : (ctx.addDirectory p status { store }).1.store.entered = [p] ++ store.entered :=
      enters.entered
    refine served.passage follows lists absolute going entered ?_ ?_
    · rw [enters.stage]
      exact id
    · by_cases own : d = p
      · subst own
        refine .inside (List.mem_singleton_self d) ?_
        rw [waits, Progress.treats_waiting]
        exact .subscribe known
      · refine .outside (mt List.mem_singleton.1 own) ?_ ?_ (Or.inl (enters.stage d))
        · rw [waits, Progress.treats_waiting]
          intro treats
          cases treats
          exact own rfl
        · exact fun there => ((enters.index filed).2 d there).resolve_left own

/-- A crawl of a path of which nothing is known. -/
theorem Served.passage_entry {admits : World → Prop} {store : Store} {changed : Bool}
    (served : Served ctx admits (ctx.addEntry p { store }) s (.ok changed))
    (follows : ctx.follows = true) (lists : ∀ world, admits world → world.ListsOnce)
    (absolute : p.isAbsolute = true) (live : store.isStale ctx.generation = false)
    (filed : store.index.Filed) (d : Path) : ∃ dirs, Passage p d store s.store dirs := by
  rw [@addEntry_outcome ctx { store } live] at served
  have entry : (Task.entry p).Single := trivial
  have going : Going ctx p (({ store }, .waiting (.entry p)) : Scope × Progress) :=
    .start ⟨entry, rfl⟩ (sited_of_single entry trivial) live filed
  have entered : store.entered = [] ++ store.entered := rfl
  refine served.passage follows lists absolute going entered id ?_
  refine .outside List.not_mem_nil ?_ id (Or.inl rfl)
  rw [Progress.treats_waiting]
  rintro ⟨⟩

end

end

end ProjectIndex.Crawl
