import ProjectIndex.Proofs.Crawl.Ending
import ProjectIndex.Proofs.Crawl.Stints
import ProjectIndex.Proofs.Crawl.Survey
import ProjectIndex.Proofs.Crawl.Turns

/-!
# One entry beside a disk that does not change

What the index may hold is whatever earlier crawls have left there.  The status of one entry decides
what becomes of the entry: it is taken in, or it is not, and then it goes with everything that the walk
from it comes to.  All that the crawl does afterwards is done below the entry, or leaves the entry as it
is, because a directory that does not change can be listed.  And it comes to an end, since each wait
lowers the cost of what is left.
-/

namespace ProjectIndex

open Std

namespace Index

variable {ix ix' : Index} {p q : Path} {st : Status}

/-- The index without the path, if it knows the path, and without what the walk from there comes to. -/
def without (ix : Index) (p : Path) : Index :=
  if ix.knows p then (ix.evict p).1 else ix

/-- From what is no directory the walk comes to nothing else. -/
theorem Reaches.eq_of_not_directory (reaches : ix.Reaches p q) (other : p ∉ ix.directories) : q = p := by
  cases reaches with
  | here => rfl
  | entry directory => exact absurd directory other

theorem Filed.known_without (filed : ix.Filed) :
    (ix.without p).Known q ↔
      ix.Known q ∧ (¬ ix.Reaches p q ∨ (q ∈ ix.files ∧ q ∈ ix.directories)) := by
  unfold without
  split
  · rw [Known, filed.mem_files_evict, filed.mem_directories_evict, Known]
    tauto
  next unknown =>
    have unknown : ¬ ix.Known p := fun known => unknown (knows_iff.2 known)
    constructor
    · intro known
      refine ⟨known, Or.inl ?_⟩
      intro reaches
      obtain rfl := reaches.eq_of_not_directory fun directory => unknown (Or.inr directory)
      exact unknown known
    · exact And.left

theorem Filed.not_directory_without (filed : ix.Filed) : p ∉ (ix.without p).directories := by
  unfold without
  split
  · rw [filed.mem_directories_evict]
    exact fun kept => kept.2 (.here p)
  next unknown => exact fun directory => unknown (knows_iff.2 (Or.inr directory))

theorem Filed.not_file_without (filed : ix.Filed) (apart : p ∈ ix.files → p ∉ ix.directories) :
    p ∉ (ix.without p).files := by
  unfold without
  split
  · rw [filed.mem_files_evict]
    exact fun kept => apart kept.1 (kept.2 (.here p))
  next unknown => exact fun file => unknown (knows_iff.2 (Or.inl file))

/-- A path that is known as something else is cleared. -/
theorem clearedFor_eq_without (other : ∀ old, ix.status? p = some old → old.kind ≠ st.kind) :
    ix.clearedFor p st = ix.without p := by
  unfold clearedFor without knows
  cases found : ix.status? p with
  | none => rfl
  | some old => simp [other old found]

/-- A known status is in one of the tables, and has its kind. -/
theorem Kinded.of_status? {excepted : Path → Prop} (kinded : ix.Kinded excepted) {old : Status}
    (found : ix.status? p = some old) :
    (p ∈ ix.files ∧ old.kind = .file) ∨ (p ∈ ix.directories ∧ old.kind = .directory) := by
  simp only [status?, Option.orElse_eq_orElse, Option.orElse_eq_or, Option.or_eq_some_iff] at found
  rcases found with file | ⟨_, directory⟩
  · exact Or.inl ⟨ExtTreeMap.mem_iff_isSome_getElem?.2 (by simp [file]), kinded.fileKind p old file⟩
  · exact Or.inr ⟨ExtTreeMap.mem_iff_isSome_getElem?.2 (by simp [directory]),
      kinded.directoryKind p old directory⟩

structure Abides (ix : Index) (policy : Policy) : Prop where
  files : ∀ q ∈ ix.files, policy.ignores q .file = false
  directories : ∀ q ∈ ix.directories, policy.ignores q .directory = false

theorem abides_empty (name : Name) (policy : Policy) : (empty name).Abides policy := by
  constructor <;> simp [empty]

theorem Abides.evict {policy : Policy} (abides : ix.Abides policy) (filed : ix.Filed) (p : Path) :
    (ix.evict p).1.Abides policy where
  files q file := abides.files q (filed.mem_files_evict.1 file).1
  directories q directory := abides.directories q (filed.mem_directories_evict.1 directory).1

structure SameEntry (ix ix' : Index) (p : Path) : Prop where
  file : p ∈ ix'.files ↔ p ∈ ix.files
  directory : p ∈ ix'.directories ↔ p ∈ ix.directories

namespace SameEntry

variable {ix'' : Index}

theorem refl (ix : Index) (p : Path) : ix.SameEntry ix p :=
  ⟨Iff.rfl, Iff.rfl⟩

theorem trans (first : ix.SameEntry ix' p) (second : ix'.SameEntry ix'' p) : ix.SameEntry ix'' p :=
  ⟨second.file.trans first.file, second.directory.trans first.directory⟩

theorem of_outside (outside : ix.SameOutside ix' q) (out : ¬ q.Covers p) : ix.SameEntry ix' p :=
  ⟨outside.files p out, outside.directories p out⟩

/-- What is dropped of the entries of a directory leaves the directory as it is. -/
theorem evictAll (filed : ix.Filed) {paths : List Path} {dir : Path}
    (members : ∀ c ∈ paths, c.parent = some dir) : ix.SameEntry (ix.evictAll paths) dir := by
  apply (Index.evictAll_keeps (P := fun ix' => ix'.Filed ∧ ix.SameEntry ix' dir) ?_
    ⟨filed, .refl ix dir⟩).2
  intro ix' c member kept
  have evicted := kept.1.sameOutside_evict c
  exact ⟨(kept.1.evict c).filed,
    kept.2.trans (.of_outside evicted (Path.not_covers_of_parent (members c member)))⟩

end SameEntry

end Index

structure Site.Answers (site : Site) (world : World) : Prop where
  entry : world.entry = site.world.entry
  children : world.children = site.world.children

namespace Crawl

open Index (SameEntry)

variable {ctx : Context} {world : World} {s : Scope} {p : Path}

/-- A crawl writes what the policy takes in. -/
theorem Edits.abides {s t : Store} (edits : Edits ctx s t) (filed : s.index.Filed)
    (abides : s.index.Abides ctx.policy) : t.index.Abides ctx.policy := by
  induction edits with
  | refl => exact abides
  | tail before edit ih =>
    have filed := Edits.filed before filed
    cases edit with
    | quiet same => rwa [same.index]
    | delete p live =>
      rw [delete_index]
      exact ih.evict filed p
    | directory p status live changed taken =>
      refine ⟨?_, ?_⟩
      · intro q file
        rw [Index.insertDirectory_files] at file
        exact ih.files q file
      · intro q directory
        rw [Index.insertDirectory_directories, ExtTreeMap.mem_insert] at directory
        rcases directory with own | old
        · exact LawfulEqOrd.eq_of_compare own ▸ taken
        · exact ih.directories q old
    | file p status live changed taken =>
      refine ⟨?_, ?_⟩
      · intro q file
        rw [Index.insertFile_files, ExtTreeMap.mem_insert] at file
        rcases file with own | old
        · exact LawfulEqOrd.eq_of_compare own ▸ taken
        · exact ih.files q old
      · intro q directory
        rw [Index.insertFile_directories] at directory
        exact ih.directories q directory
    | notice => exact ih
    | manifest => exact ⟨ih.files, ih.directories⟩

/-- A directory that is no known file is known as a directory afterwards if the policy takes it in, and
otherwise it is passed over. -/
theorem addDirectory_settles (live : s.store.isStale ctx.generation = false)
    (noFile : p ∉ s.store.index.files)
    (unknown : ctx.policy.ignores p .directory = true → p ∉ s.store.index.directories) (st : Status) :
    let r := ctx.addDirectory p st s
    (p ∈ r.1.store.index.directories ↔ ctx.policy.ignores p .directory = false) ∧
      p ∉ r.1.store.index.files ∧
      (ctx.policy.ignores p .directory = true →
        r.1.store.index = s.store.index ∧ r.2 = .finished (.ok false)) := by
  intro r
  cases ignored : ctx.policy.ignores p .directory with
  | true =>
    rcases addDirectory_outcome live p st with ⟨_, index, ends⟩ | ⟨⟨_, taken⟩, _⟩
    · exact ⟨by simp [r, index, unknown ignored], index ▸ noFile, fun _ => ⟨index, ends⟩⟩
    · rw [ignored] at taken
      cases taken
  | false =>
    rcases addDirectory_outcome live p st with ⟨unchanged | other, index, _⟩ | ⟨_, index, _⟩
    · have directory : p ∈ s.store.index.directories := by
        by_contra unknown
        have none := Index.status?_eq_none.2 fun known => known.elim noFile unknown
        simp [Index.hasChanged, none] at unchanged
      exact ⟨by simp [r, index, directory], index ▸ noFile, by simp⟩
    · rw [ignored] at other
      cases other
    · exact ⟨by simp [r, index], by simpa [r, index] using noFile, by simp⟩

theorem addFile_settles (live : s.store.isStale ctx.generation = false)
    (noDirectory : p ∉ s.store.index.directories)
    (unknown : ctx.policy.ignores p .file = true → p ∉ s.store.index.files) (st : Status) :
    let r := ctx.addFile p st s
    (p ∈ r.1.store.index.files ↔ ctx.policy.ignores p .file = false) ∧
      p ∉ r.1.store.index.directories ∧
      (ctx.policy.ignores p .file = true →
        r.1.store.index = s.store.index ∧ r.2 = .finished (.ok false)) := by
  intro r
  cases ignored : ctx.policy.ignores p .file with
  | true =>
    rcases addFile_outcome live p st with ⟨_, index, ends⟩ | ⟨⟨_, taken⟩, _⟩
    · exact ⟨by simp [r, index, unknown ignored], index ▸ noDirectory, fun _ => ⟨index, ends⟩⟩
    · rw [ignored] at taken
      cases taken
  | false =>
    rcases addFile_outcome live p st with ⟨unchanged | other, index, _⟩ | ⟨_, index, _⟩
    · have file : p ∈ s.store.index.files := by
        by_contra unknown
        have none := Index.status?_eq_none.2 fun known => known.elim unknown noDirectory
        simp [Index.hasChanged, none] at unchanged
      exact ⟨by simp [r, index, file], index ▸ noDirectory, by simp⟩
    · rw [ignored] at other
      cases other
    · exact ⟨by simp [r, index], by simpa [r, index] using noDirectory, by simp⟩

/-- An entry that is on disk and taken in becomes known as what it is, and as nothing else.  Any other
entry is dropped, with what the walk from it comes to, and the crawl is over. -/
theorem examined_settles (live : s.store.isStale ctx.generation = false) (filed : s.store.index.Filed)
    (kinded : s.store.index.Kinded (· ≠ p)) (abides : s.store.index.Abides ctx.policy) (st : Status) :
    let r := ctx.examined p (.ok st) s
    (p ∈ r.1.store.index.directories ↔
        st.kind = .directory ∧ ctx.policy.ignores p .directory = false) ∧
      (p ∈ r.1.store.index.files ↔ st.kind = .file ∧ ctx.policy.ignores p .file = false) ∧
      (st.kind = .unknown ∨ ctx.policy.ignores p st.kind = true →
        r.1.store.index = s.store.index.without p ∧ r.2 = .finished (.ok false)) := by
  intro r
  obtain ⟨s', live', cleared, examined⟩ := examined_ok live p st
  have apart : p ∈ s.store.index.files → p ∉ s.store.index.directories :=
    fun file directory => kinded.apart p file directory rfl
  have noDirectory := @Index.Filed.not_directory_without _ p filed
  have noFile := filed.not_file_without apart
  have dropped : st.kind = .unknown ∨ ctx.policy.ignores p st.kind = true →
      s'.store.index = s.store.index.without p := by
    intro left
    rw [cleared]
    apply Index.clearedFor_eq_without
    intro old found same
    rcases kinded.of_status? found with ⟨file, kind⟩ | ⟨directory, kind⟩
    · simp [← same, kind, abides.files p file] at left
    · simp [← same, kind, abides.directories p directory] at left
  cases kind : st.kind with
  | directory =>
    have same : r = ctx.addDirectory p st s' := by simpa [kind] using examined
    rw [kind] at dropped
    obtain ⟨directory, file, passed⟩ := @addDirectory_settles ctx s' p live'
      (fun file => kinded.apart_of_directory filed kind (cleared ▸ file) rfl)
      (fun ignored => dropped (Or.inr ignored) ▸ noDirectory) st
    rw [same]
    refine ⟨by simp [directory], by simp [file], ?_⟩
    intro left
    have ignored := left.resolve_left (by simp)
    exact ⟨(passed ignored).1.trans (dropped left), (passed ignored).2⟩
  | file =>
    have same : r = ctx.addFile p st s' := by simpa [kind] using examined
    rw [kind] at dropped
    obtain ⟨file, directory, passed⟩ := @addFile_settles ctx s' p live'
      (fun directory => kinded.apart_of_file filed kind (cleared ▸ directory) rfl)
      (fun ignored => dropped (Or.inr ignored) ▸ noFile) st
    rw [same]
    refine ⟨by simp [directory], by simp [file], ?_⟩
    intro left
    have ignored := left.resolve_left (by simp)
    exact ⟨(passed ignored).1.trans (dropped left), (passed ignored).2⟩
  | unknown =>
    have same : r = (s', .finished (.ok false)) := by simpa [kind] using examined
    have gone := dropped (Or.inl kind)
    rw [same, gone]
    exact ⟨by simp [noDirectory], by simp [noFile], fun _ => ⟨rfl, rfl⟩⟩

/-- If the status of an entry cannot be had, and not because nothing is found, that is a failure. -/
theorem examined_failed (p : Path) {cause : DiskError} (failed : cause.isNotFound = false) (s : Scope) :
    ctx.examined p (.error cause) s = (s, .finished (.error (.io p.spelling cause))) := by
  simp [Context.examined, failed]

/-- If nothing is found at an entry, it is dropped with what the walk from it comes to. -/
theorem examined_missing (live : s.store.isStale ctx.generation = false) (p : Path) {cause : DiskError}
    (gone : cause.isNotFound = true) :
    ∃ s', ctx.examined p (.error cause) s = (s', .finished (.ok (s.store.index.knows p))) ∧
      s'.remarks = s.remarks ∧ s'.store.index = s.store.index.without p := by
  cases known : s.store.index.knows p with
  | true =>
    refine ⟨(ctx.remove p s).1, ?_, ?_, ?_⟩
    · simp [Context.examined, Context.remove, Context.isStale, gone, known, live]
    · unfold Context.remove
      split
      · rfl
      · dsimp only
        split <;> rfl
    · rw [remove_index live, Index.without, if_pos known]
  | false =>
    refine ⟨s, ?_, rfl, ?_⟩
    · simp [Context.examined, gone, known]
    · rw [Index.without, if_neg (by simp [known])]

/-- A path that is a file and a directory at once stays a file. -/
theorem examined_both (live : s.store.isStale ctx.generation = false) (filed : s.store.index.Filed)
    (file : p ∈ s.store.index.files) (directory : p ∈ s.store.index.directories)
    (answer : Except DiskError Status) : p ∈ (ctx.examined p answer s).1.store.index.files := by
  have evicted : p ∈ (s.store.index.evict p).1.files :=
    filed.mem_files_evict.2 ⟨file, fun _ => directory⟩
  cases answer with
  | error cause =>
    rcases examined_error live p cause with ⟨_, index, _⟩ | ⟨_, index, _⟩
    · rw [index]
      split
      · exact evicted
      · exact file
    · rwa [index]
  | ok st =>
    obtain ⟨s', live', cleared, examined⟩ := examined_ok live p st
    have kept : p ∈ s'.store.index.files := by
      rw [cleared, Index.clearedFor]
      split
      · split
        · exact file
        · exact evicted
      · exact file
    rw [examined]
    cases st.kind with
    | directory =>
      rcases addDirectory_outcome live' p st with ⟨_, index, _⟩ | ⟨_, index, _⟩
      · rwa [index]
      · rw [index]
        simpa using kept
    | file =>
      rcases addFile_outcome live' p st with ⟨_, index, _⟩ | ⟨_, index, _⟩
      · rwa [index]
      · rw [index]
        simp
    | unknown => exact kept

/-- The crawl of an entry that is on disk goes on with the directory, or with the file. -/
theorem examined_waits (live : s.store.isStale ctx.generation = false)
    {answer : Except DiskError Status} {task : Task}
    (waits : (ctx.examined p answer s).2 = .waiting task) :
    (∃ st, answer = .ok st ∧ st.kind = .directory ∧ ctx.policy.ignores p .directory = false ∧
        ∃ known, task = .subscribe p known ∨ task = .list p known) ∨
      ∃ a, (∃ root, task = .project a root) ∨ ∃ D, task = .manifest a D := by
  cases answer with
  | error cause =>
    rcases examined_error live p cause with ⟨_, _, changed, ends⟩ | ⟨_, _, ends⟩
    · rw [ends] at waits
      cases waits
    · rw [ends] at waits
      cases waits
  | ok st =>
    obtain ⟨s', live', _, examined⟩ := examined_ok live p st
    rw [examined] at waits
    cases kind : st.kind with
    | directory =>
      rw [kind] at waits
      dsimp only at waits
      rcases addDirectory_outcome live' p st with ⟨_, _, ends⟩ | ⟨⟨_, taken⟩, _, next | next⟩
      · rw [ends] at waits
        cases waits
      · cases next.symm.trans waits
        exact Or.inl ⟨st, rfl, kind, taken, _, Or.inl rfl⟩
      · cases next.symm.trans waits
        exact Or.inl ⟨st, rfl, kind, taken, _, Or.inr rfl⟩
    | file =>
      rw [kind] at waits
      dsimp only at waits
      rcases addFile_outcome live' p st with ⟨_, _, ends⟩ | ⟨_, _, a, _, ⟨root, next⟩ | next⟩
      · rw [ends] at waits
        cases waits
      · cases next.symm.trans waits
        exact Or.inr ⟨a, Or.inl ⟨root, rfl⟩⟩
      · rw [next] at waits
        split at waits
        · cases waits
          exact Or.inr ⟨a, Or.inr ⟨_, rfl⟩⟩
        · cases waits
    | unknown =>
      rw [kind] at waits
      cases waits

/-- The task stays where crawls of the site go, and lists only what is a directory there. -/
inductive Task.Treads (site : Site) : Task → Prop where
  | begin {p : Path} (reached : site.region p) : Treads site (.begin p)
  | entry {p : Path} (reached : site.region p) : Treads site (.entry p)
  | subscribe {dir : Path} (known : Bool) (opens : site.Opens dir) : Treads site (.subscribe dir known)
  | list {dir : Path} (known : Bool) (opens : site.Opens dir) : Treads site (.list dir known)
  | project (a : Arrival) (root : Path) : Treads site (.project a root)
  | manifest (a : Arrival) (D : Declaration) : Treads site (.manifest a D)
  | inOrder {dir : Path} {current : Task} {queue rest : List Path} (first : Treads site current)
      (later : ∀ q ∈ queue ++ rest, site.region q) : Treads site (.inOrder dir current queue rest)
  | together {dir : Path} {running : List Task} {failure : Option IndexError}
      (each : ∀ task ∈ running, Treads site task) : Treads site (.together dir running failure)

theorem Task.Treads.hereditary (site : Site) : Task.Hereditary (Task.Treads site) where
  first treads := by
    cases treads with
    | inOrder first _ => exact first
  member treads member := by
    cases treads with
    | together each => exact each _ member

section

variable {site : Site} {r : Scope × Progress}

theorem treads_following {dir : Path} {queue rest : List Path}
    (reached : ∀ q ∈ queue ++ rest, site.region q) {task : Task}
    (waits : following dir queue rest = .waiting task) : task.Treads site := by
  cases queue with
  | nil =>
    simp only [following] at waits
    split at waits
    · cases waits
    · cases waits
      apply Task.Treads.together
      intro task member
      obtain ⟨q, inside, rfl⟩ := List.mem_map.1 member
      exact .begin (reached q (by simpa using inside))
  | cons p queue =>
    cases waits
    apply Task.Treads.inOrder
    · exact .entry (reached p (by simp))
    · exact fun q member => reached q (List.mem_cons_of_mem _ member)

/-- After the end of a single wait the crawl is still where crawls go. -/
theorem Task.Moves.treads_single {task : Task} (moved : Task.Moves ctx world s task r)
    (single : task.Single) (lists : site.Lists) (policy : ctx.policy = site.policy)
    (answers : site.Answers world) (live : s.store.isStale ctx.generation = false)
    (treads : task.Treads site) : ∀ next, r.2 = .waiting next → next.Treads site := by
  intro next waits
  cases treads with
  | begin reached =>
    cases moved
    rw [addEntry_outcome live] at waits
    cases waits
    exact .entry reached
  | entry reached =>
    cases moved
    rcases examined_waits live waits with ⟨st, told, kind, taken, known, rfl | rfl⟩ |
      ⟨a, ⟨root, rfl⟩ | ⟨D, rfl⟩⟩
    · exact .subscribe known ⟨reached, ⟨st, answers.entry ▸ told, kind⟩, policy ▸ taken⟩
    · exact .list known ⟨reached, ⟨st, answers.entry ▸ told, kind⟩, policy ▸ taken⟩
    · exact .project a root
    · exact .manifest a D
  | subscribe known opens =>
    cases moved
    cases waits
    exact .list known opens
  | @list dir known opens =>
    cases moved
    rcases listed_outcome live dir known (world.children dir) with
      ⟨cause, _, ⟨_, _, ends⟩ | ⟨_, ends⟩⟩ | ⟨cs, told, _, goesOn⟩
    · rw [ends] at waits
      cases waits
    · rw [ends] at waits
      cases waits
    · rw [goesOn] at waits
      apply treads_following ?_ waits
      intro c member
      have listed := (ctx.policy.arrange_perm cs).mem_iff.1 member
      exact ((lists.entries dir cs opens (answers.children ▸ told)).2 c listed).2
  | project a root =>
    cases moved
    rw [(projectDeclared_outcome live a root (world.projectRemarks root)).2] at waits
    split at waits
    · cases waits
      exact .manifest a _
    · cases waits
  | manifest a D =>
    cases moved
    obtain ⟨D', rfl⟩ := (@manifest_still ctx s live world a D).2 next waits
    exact .manifest a D'
  | inOrder | together => exact absurd single id

/-- After every move the crawl is still where crawls go. -/
theorem Task.Moves.treads {task : Task} (moved : Task.Moves ctx world s task r) (lists : site.Lists)
    (policy : ctx.policy = site.policy) (answers : site.Answers world)
    (live : s.store.isStale ctx.generation = false) (treads : task.Treads site) :
    ∀ next, r.2 = .waiting next → next.Treads site := by
  have single : ∀ {task : Task} {r : Scope × Progress}, Task.Moves ctx world s task r → task.Single →
      task.Treads site → ∀ next, r.2 = .waiting next → next.Treads site :=
    fun moved single treads => moved.treads_single single lists policy answers live treads
  induction moved with
  | begin p => exact single (.begin p) trivial treads
  | entry p => exact single (.entry p) trivial treads
  | subscribe dir known => exact single (.subscribe dir known) trivial treads
  | list dir known => exact single (.list dir known) trivial treads
  | project a root => exact single (.project a root) trivial treads
  | manifest a D => exact single (.manifest a D) trivial treads
  | inOrder dir queue rest moved ih =>
    cases treads with
    | inOrder first later =>
      intro next waits
      cases waits
      exact .inOrder (ih first _ rfl) later
  | inOrderFailed dir queue rest moved ih =>
    intro next waits
    cases waits
  | inOrderDone dir queue rest moved ih =>
    cases treads with
    | inOrder first later =>
      intro next waits
      rw [(nextInOrder_outcome ((moved.edits.isStale _).trans live) dir queue rest).2] at waits
      exact treads_following later waits
  | @together s' task task' dir before after failure moved ih =>
    cases treads with
    | together each =>
      intro next waits
      cases waits
      apply Treads.together
      intro other member
      rcases List.mem_cons.1 (List.perm_middle.mem_iff.1 member) with here | beside
      · exact here ▸ ih (each task (by simp)) _ rfl
      · exact each other (List.perm_middle.mem_iff.2 (List.mem_cons_of_mem _ beside))
  | togetherDone dir before after failure moved left ih =>
    cases treads with
    | together each =>
      intro next waits
      cases waits
      apply Treads.together
      intro other beside
      exact each other (List.perm_middle.mem_iff.2 (List.mem_cons_of_mem _ beside))
  | togetherLast | togetherNone => exact fun next waits => absurd waits conclude_not_waiting

/-- Every move lowers the number of waits that are left, whatever the index says. -/
theorem Task.Moves.cheaper_of_treads {task : Task} {bound : Nat}
    (moved : Task.Moves ctx world s task r) (lists : site.Lists) (shallow : site.Shallow bound)
    (answers : site.Answers world) (live : s.store.isStale ctx.generation = false)
    (treads : task.Treads site) :
    r.2.cost (site.weight bound) < task.cost (site.weight bound) := by
  apply moved.cheaper_of_single (Task.Treads.hereditary site) live ?_ treads
  intro task r moved single treads
  cases treads with
  | @entry p reached =>
    cases moved
    generalize told : ctx.examined p (world.entry p) s = r
    obtain ⟨s', task | result⟩ := r
    · have waits : (ctx.examined p (world.entry p) s).2 = .waiting task := by rw [told]
      rcases examined_waits live waits with ⟨_, _, _, _, known, rfl | rfl⟩ | ⟨a, ⟨root, rfl⟩ | ⟨D, rfl⟩⟩
      · simp [Progress.cost, Task.cost]
      · simp [Progress.cost, Task.cost]
      · simp only [Progress.cost, Task.cost]
        omega
      · cases D <;> simp only [Progress.cost, Task.cost, Declaration.cost] <;> omega
    · simp [Progress.cost, Task.cost]
  | list known opens =>
    cases moved
    rw [answers.children]
    exact listed_cheaper lists shallow live opens
  | begin | subscribe | project | manifest =>
    exact moved.cheaper_aside live single (by simp) (by simp)
  | inOrder | together => exact absurd single id

/-- A move changes nothing away from the path of its task. -/
theorem Task.Moves.sameOutside {task : Task} (moved : Task.Moves ctx world s task r)
    (live : s.store.isStale ctx.generation = false) (placed : task.Placed)
    (filed : s.store.index.Filed) :
    s.store.index.SameOutside r.1.store.index task.path := by
  cases moved.shifts live placed with
  | leaf inside single moved closes =>
    rw [closes.index]
    exact ((moved.deed live single).sameOutside filed).above (placed.covers_leaf inside)
  | idle closes =>
    rw [closes.index]
    exact .refl _ _

theorem not_starts_following {dir : Path} {queue rest : List Path} {next : Task}
    (waits : following dir queue rest = .waiting next) : ¬ next.Starts := by
  cases queue with
  | nil =>
    simp only [following] at waits
    split at waits
    · cases waits
    · cases waits
      exact id
  | cons p queue =>
    cases waits
    exact id

/-- Once the status of an entry is known, the end of a single wait leaves the entry as it is. -/
theorem Task.Moves.sameEntry_single {task : Task} (moved : Task.Moves ctx world s task r)
    (single : task.Single) (answers : site.Answers world)
    (listed : ∀ dir, site.Opens dir → ∃ cs, site.world.children dir = .ok cs)
    (live : s.store.isStale ctx.generation = false) (filed : s.store.index.Filed)
    (treads : task.Treads site) (onward : ¬ task.Starts) :
    s.store.index.SameEntry r.1.store.index task.path ∧
      ∀ next, r.2 = .waiting next → ¬ next.Starts := by
  cases moved with
  | begin | entry => exact absurd trivial onward
  | subscribe dir known =>
    rw [subscribed_index]
    refine ⟨.refl _ _, ?_⟩
    intro next waits
    cases waits
    exact id
  | list dir known =>
    cases treads with
    | list known opens =>
      obtain ⟨cs, there⟩ := listed dir opens
      rcases listed_outcome live dir known (world.children dir) with
        ⟨cause, told, _⟩ | ⟨cs', told, index, goesOn⟩
      · rw [answers.children, there] at told
        cases told
      · rw [index, goesOn]
        refine ⟨?_, fun next => not_starts_following⟩
        split
        · apply SameEntry.evictAll filed
          intro c member
          exact filed dir c (List.mem_filter.1 member).1
        · exact .refl _ _
  | project a root =>
    obtain ⟨index, goesOn⟩ := projectDeclared_outcome live a root (world.projectRemarks root)
    rw [index, goesOn]
    refine ⟨.refl _ _, ?_⟩
    intro next waits
    split at waits
    · cases waits
      exact id
    · cases waits
  | manifest a D =>
    obtain ⟨index, goesOn⟩ := @manifest_still ctx s live world a D
    constructor
    · rcases index with same | ⟨E, installed⟩
      · rw [same]
        exact .refl _ _
      · rw [installed]
        exact ⟨Iff.rfl, Iff.rfl⟩
    · intro next waits
      obtain ⟨D', rfl⟩ := goesOn next waits
      exact id
  | inOrder | inOrderFailed | inOrderDone | together | togetherDone | togetherLast | togetherNone =>
    exact absurd single id

/-- Once the status of an entry is known, the crawl of the entry leaves it as it is. -/
theorem Task.Moves.sameEntry {task : Task} (moved : Task.Moves ctx world s task r)
    (answers : site.Answers world) (listed : ∀ dir, site.Opens dir → ∃ cs, site.world.children dir = .ok cs)
    (live : s.store.isStale ctx.generation = false) (filed : s.store.index.Filed)
    (placed : task.Placed) (treads : task.Treads site) (onward : ¬ task.Starts) :
    s.store.index.SameEntry r.1.store.index task.path ∧
      ∀ next, r.2 = .waiting next → ¬ next.Starts := by
  have single := fun single => moved.sameEntry_single single answers listed live filed treads onward
  have inner : ∀ {current : Task} {r' : Scope × Progress} {dir : Path},
      Task.Moves ctx world s current r' → current.Placed → current.path.parent = some dir →
      s.store.index.SameEntry r'.1.store.index dir := by
    intro current r' dir moved placed parent
    exact .of_outside (moved.sameOutside live placed filed) (Path.not_covers_of_parent parent)
  cases moved with
  | begin | entry | subscribe | list | project | manifest => exact single trivial
  | inOrder dir queue rest moved =>
    cases placed with
    | inOrder first siblings distinct =>
      have kept := inner moved first (siblings _ List.mem_cons_self)
      refine ⟨kept, ?_⟩
      intro next waits
      cases waits
      exact id
  | inOrderFailed dir queue rest moved =>
    cases placed with
    | inOrder first siblings distinct =>
      have kept := inner moved first (siblings _ List.mem_cons_self)
      exact ⟨kept, fun next waits => by cases waits⟩
  | inOrderDone dir queue rest moved =>
    cases placed with
    | inOrder first siblings distinct =>
      have kept := inner moved first (siblings _ List.mem_cons_self)
      obtain ⟨index, goesOn⟩ := nextInOrder_outcome ((moved.edits.isStale _).trans live) dir queue rest
      rw [index, goesOn]
      exact ⟨kept, fun next => not_starts_following⟩
  | @together s' task task' dir before after failure moved =>
    cases placed with
    | together each siblings distinct =>
      have kept := inner moved (each task (by simp)) (siblings task (by simp))
      refine ⟨kept, ?_⟩
      intro next waits
      cases waits
      exact id
  | @togetherDone s' task result dir before after failure moved left =>
    cases placed with
    | together each siblings distinct =>
      have kept := inner moved (each task (by simp)) (siblings task (by simp))
      refine ⟨kept, ?_⟩
      intro next waits
      cases waits
      exact id
  | @togetherLast s' task result dir failure moved =>
    cases placed with
    | together each siblings distinct =>
      have kept := inner moved (each task (by simp)) (siblings task (by simp))
      rw [conclude_index]
      exact ⟨kept, fun next waits => absurd waits conclude_not_waiting⟩
  | togetherNone dir failure =>
    rw [conclude_index]
    exact ⟨.refl _ _, fun next waits => absurd waits conclude_not_waiting⟩

/-- From the moment at which the status of its entry is known, the crawl of an entry leaves the entry
as it is. -/
theorem Served.sameEntry {admits : World → Prop} {result : Except IndexError Bool}
    (served : Served ctx admits r s result) (lists : site.Lists) (policy : ctx.policy = site.policy)
    (answers : ∀ world, admits world → site.Answers world)
    (once : ∀ world, admits world → world.ListsOnce)
    (listed : ∀ dir, site.Opens dir → ∃ cs, site.world.children dir = .ok cs)
    (absolute : p.isAbsolute = true) (live : r.1.store.isStale ctx.generation = false)
    (filed : r.1.store.index.Filed)
    (goesOn : ∀ task, r.2 = .waiting task →
      task.Placed ∧ task.path = p ∧ task.Treads site ∧ ¬ task.Starts) :
    r.1.store.index.SameEntry s.store.index p := by
  refine (served.keeps (P := fun now => now.1.store.isStale ctx.generation = false ∧
    now.1.store.index.Filed ∧ (∀ task, now.2 = .waiting task →
      task.Placed ∧ task.path = p ∧ task.Treads site ∧ ¬ task.Starts) ∧
    r.1.store.index.SameEntry now.1.store.index p) ⟨live, filed, goesOn, .refl _ p⟩ ?_).2.2.2
  rintro s task world now admitted moved ⟨live, filed, goesOn, same⟩
  obtain ⟨placed, rfl, treads, onward⟩ := goesOn task rfl
  obtain ⟨kept, further⟩ := moved.sameEntry (answers world admitted) listed live filed placed treads onward
  refine ⟨(moved.edits.isStale _).trans live, Edits.filed moved.edits filed, ?_, same.trans kept⟩
  intro next waits
  obtain ⟨stints, taken⟩ := moved.takes
  obtain ⟨placed', there⟩ := taken.placed (once world admitted) absolute placed waits
  exact ⟨placed', there, moved.treads lists policy (answers world admitted) live treads next waits,
    further next waits⟩

/-- The crawl of an entry leaves it as the status of the entry has made it. -/
theorem Served.sameEntry_examined {admits : World → Prop} {result : Except IndexError Bool}
    {s s' : Scope} {answer : Except DiskError Status}
    (served : Served ctx admits (ctx.examined p answer s) s' result)
    (told : site.world.entry p = answer) (lists : site.Lists) (policy : ctx.policy = site.policy)
    (answers : ∀ world, admits world → site.Answers world)
    (once : ∀ world, admits world → world.ListsOnce)
    (listed : ∀ dir, site.Opens dir → ∃ cs, site.world.children dir = .ok cs)
    (reached : site.region p) (absolute : p.isAbsolute = true)
    (live : s.store.isStale ctx.generation = false) (filed : s.store.index.Filed) :
    (ctx.examined p answer s).1.store.index.SameEntry s'.store.index p := by
  subst told
  have moved : Task.Moves ctx site.world s (.entry p) (ctx.examined p (site.world.entry p) s) := .entry p
  apply served.sameEntry lists policy answers once listed absolute
    ((moved.edits.isStale _).trans live) (Edits.filed moved.edits filed)
  intro task waits
  have stays := @stays_examined ctx p (site.world.entry p) s
  rw [waits] at stays
  refine ⟨stays.1.placed, stays.2, ?_, ?_⟩
  · exact moved.treads_single trivial lists policy ⟨rfl, rfl⟩ live (.entry reached) task waits
  · rcases examined_waits live waits with ⟨_, _, _, _, _, rfl | rfl⟩ | ⟨_, ⟨_, rfl⟩ | ⟨_, rfl⟩⟩ <;>
      exact id

end

/-- A crawl that has ended is served as it is. -/
theorem Served.of_finished {admits : World → Prop} {s' : Scope} {result result' : Except IndexError Bool}
    (served : Served ctx admits (s, .finished result) s' result') : s' = s ∧ result' = result := by
  cases served
  exact ⟨rfl, rfl⟩

end Crawl

end ProjectIndex
