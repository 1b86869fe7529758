import ProjectIndex.Proofs.Crawl.Bearing
import ProjectIndex.Proofs.Crawl.Declarations
import ProjectIndex.Proofs.Index.Anchored

/-!
# What a crawl does to an index of several roots

A `Deed` is what the end of a single wait does to the index together with what the crawl waits for
next; whatever the world answers, it is one of a few.  So whatever each deed keeps is kept by every
move, and by every crawl.

Along with the anchored index go the tasks that work on it: a task stands when the directories and
files that it relies on are known.  The entries of a directory that are crawled at once are different
ones, so a deed of one of them leaves the others standing.  That is what makes a manifest that is
installed at the end of a wait one whose file is still known.
-/

namespace ProjectIndex

/-- The definition is filed under the directory that its file is in, the file is known, and it is a
manifest that counts. -/
structure Index.Backs (ix : Index) (layout : Layout) (d : Path) (D : Definition) : Prop where
  own : D.directory = d
  inside : D.path.parent = some d
  file : D.path ∈ ix.files
  interest : layout.isOfInterest D.path = true
  absolute : D.path.isAbsolute = true

/-- What holds of an index of several roots. -/
structure Index.Consistent (ix : Index) (layout : Layout) (anchor : Path → Prop) : Prop where
  kinded : ix.Kinded anchor
  anchored : ix.Anchored anchor
  name : ix.manifestName = layout.manifestName
  backed : ∀ (d : Path) (D : Definition), ix.manifests[d]? = some D → ix.Backs layout d D

structure Index.SameOutside (ix ix' : Index) (p : Path) : Prop where
  files : ∀ q, ¬ p.Covers q → (q ∈ ix'.files ↔ q ∈ ix.files)
  directories : ∀ q, ¬ p.Covers q → (q ∈ ix'.directories ↔ q ∈ ix.directories)

namespace Index

theorem consistent_empty (layout : Layout) (anchor : Path → Prop) :
    (empty layout.manifestName).Consistent layout anchor :=
  ⟨kinded_empty _ anchor, anchored_empty _ anchor, rfl, by simp [empty]⟩

theorem Backs.of_files {ix ix' : Index} {layout : Layout} {d : Path} {D : Definition}
    (backs : ix.Backs layout d D) (kept : D.path ∈ ix.files → D.path ∈ ix'.files) :
    ix'.Backs layout d D :=
  { backs with file := kept backs.file }

namespace SameOutside

variable {ix ix' ix'' : Index} {p : Path}

theorem refl (ix : Index) (p : Path) : ix.SameOutside ix p :=
  ⟨fun _ _ => Iff.rfl, fun _ _ => Iff.rfl⟩

theorem trans (first : ix.SameOutside ix' p) (second : ix'.SameOutside ix'' p) :
    ix.SameOutside ix'' p where
  files q out := (second.files q out).trans (first.files q out)
  directories q out := (second.directories q out).trans (first.directories q out)

theorem above {d : Path} (same : ix.SameOutside ix' p) (covers : d.Covers p) :
    ix.SameOutside ix' d where
  files q out := same.files q fun inside => out (covers.trans inside)
  directories q out := same.directories q fun inside => out (covers.trans inside)

/-- What is a foothold for a path stays one when the index changes at and below the path. -/
theorem footed {anchor : Path → Prop} (same : ix.SameOutside ix' p) (footed : ix.Footed anchor p) :
    ix'.Footed anchor p :=
  footed.imp_right fun ⟨d, parent, directory⟩ =>
    ⟨d, parent, (same.directories d (Path.not_covers_of_parent parent)).2 directory⟩

end SameOutside

@[simp] theorem listChild_manifestName (ix : Index) (p : Path) :
    (ix.listChild p).manifestName = ix.manifestName := by
  unfold listChild
  cases p.parent <;> rfl

@[simp] theorem insertDirectory_manifestName (ix : Index) (p : Path) (st : Status) :
    (ix.insertDirectory p st true).1.manifestName = ix.manifestName := by
  simp [insertDirectory]

@[simp] theorem insertFile_manifestName (ix : Index) (p : Path) (st : Status) :
    (ix.insertFile p st true).1.manifestName = ix.manifestName := by
  simp [insertFile]

theorem Filed.sameOutside_evict {ix : Index} (filed : ix.Filed) (p : Path) :
    ix.SameOutside (ix.evict p).1 p where
  files q out := by
    have unreached : ¬ ix.Reaches p q := fun reaches => out (reaches.covers filed)
    simp [filed.mem_files_evict, unreached]
  directories q out := by
    have unreached : ¬ ix.Reaches p q := fun reaches => out (reaches.covers filed)
    simp [filed.mem_directories_evict, unreached]

theorem Filed.sameOutside_clearedFor {ix : Index} (filed : ix.Filed) (p : Path) (st : Status) :
    ix.SameOutside (ix.clearedFor p st) p :=
  (clearedFor_keeps (P := fun ix' => ix'.Filed ∧ ix.SameOutside ix' p) (p := p)
    (fun _ kept => ⟨(kept.1.evict p).filed, kept.2.trans (kept.1.sameOutside_evict p)⟩)
    ⟨filed, .refl ix p⟩ st).2

/-- Evicting entries of a directory changes nothing at the directory and outside. -/
theorem Filed.sameOutside_evictAll {ix : Index} (filed : ix.Filed) {d : Path} {gone : List Path}
    (entries : ∀ c ∈ gone, c.parent = some d) :
    ix.SameOutside (ix.evictAll gone) d ∧
      (d ∈ ix.directories → d ∈ (ix.evictAll gone).directories) := by
  refine (evictAll_keeps
    (P := fun ix' => ix'.Filed ∧ ix.SameOutside ix' d ∧ (d ∈ ix.directories → d ∈ ix'.directories))
    (fun ix' c member kept => ?_) ⟨filed, .refl ix d, id⟩).2
  have parent := entries c member
  have evicted := kept.1.sameOutside_evict c
  refine ⟨(kept.1.evict c).filed, kept.2.1.trans (evicted.above (Path.covers_of_parent parent)), ?_⟩
  exact fun directory =>
    (evicted.directories d (Path.not_covers_of_parent parent)).2 (kept.2.2 directory)

namespace Consistent

variable {ix : Index} {layout : Layout} {anchor : Path → Prop} {p : Path} {st : Status}

theorem filed (consistent : ix.Consistent layout anchor) : ix.Filed :=
  consistent.anchored.filed

theorem mono {wider : Path → Prop} (consistent : ix.Consistent layout anchor)
    (more : ∀ q, anchor q → wider q) : ix.Consistent layout wider :=
  ⟨consistent.kinded.mono more, consistent.anchored.mono more, consistent.name, consistent.backed⟩

/-- What is known, or is in a known directory, has a foothold. -/
theorem footed (consistent : ix.Consistent layout anchor)
    (known : (ix.knows p || ix.knowsParent p) = true) : ix.Footed anchor p := by
  rcases Bool.or_eq_true_iff.1 known with known | parent
  · refine (consistent.anchored.placed p (knows_iff.1 known)).imp_right ?_
    exact fun ⟨d, parent, directory, _⟩ => ⟨d, parent, directory⟩
  · exact Or.inr (knowsParent_iff.1 parent)

/-- With a file that is evicted goes its manifest, so no manifest is left without its file. -/
theorem evict (consistent : ix.Consistent layout anchor) (p : Path) :
    (ix.evict p).1.Consistent layout anchor where
  kinded := consistent.kinded.evict consistent.filed p
  anchored := consistent.anchored.evict consistent.kinded p
  name := (consistent.filed.evict_manifestName p).trans consistent.name
  backed d D found := by
    obtain ⟨before, stays⟩ := consistent.filed.manifests_evict found
    have backs := consistent.backed d D before
    refine backs.of_files (stays D.path backs.inside ?_)
    rw [consistent.name]
    exact Layout.basename_of_isOfInterest backs.interest

theorem evictAll (consistent : ix.Consistent layout anchor) (paths : List Path) :
    (ix.evictAll paths).Consistent layout anchor :=
  evictAll_keeps (P := fun ix => ix.Consistent layout anchor)
    (fun _ p _ consistent => consistent.evict p) consistent

theorem clearedFor (consistent : ix.Consistent layout anchor) (p : Path) (st : Status) :
    (ix.clearedFor p st).Consistent layout anchor :=
  clearedFor_keeps (P := fun ix => ix.Consistent layout anchor)
    (fun _ consistent => consistent.evict p) consistent st

theorem insertDirectory (consistent : ix.Consistent layout anchor) (footed : ix.Footed anchor p)
    (kind : st.kind = .directory) (met : p ∈ ix.files → anchor p) :
    (ix.insertDirectory p st true).1.Consistent layout anchor where
  kinded := consistent.kinded.insertDirectory kind met
  anchored := consistent.anchored.insertDirectory footed
  name := (ix.insertDirectory_manifestName p st).trans consistent.name
  backed d D found := by
    rw [insertDirectory_manifests] at found
    exact (consistent.backed d D found).of_files fun file => by simpa using file

theorem insertFile (consistent : ix.Consistent layout anchor) (footed : ix.Footed anchor p)
    (kind : st.kind = .file) (met : p ∈ ix.directories → anchor p) :
    (ix.insertFile p st true).1.Consistent layout anchor where
  kinded := consistent.kinded.insertFile kind met
  anchored := consistent.anchored.insertFile footed
  name := (ix.insertFile_manifestName p st).trans consistent.name
  backed d D found := by
    rw [insertFile_manifests] at found
    exact (consistent.backed d D found).of_files fun file => by simp [file]

theorem setManifest (consistent : ix.Consistent layout anchor) {D : Definition}
    (backs : ix.Backs layout D.directory D) : (ix.setManifest D true).1.Consistent layout anchor where
  kinded := consistent.kinded.setManifest D
  anchored := consistent.anchored.setManifest D
  name := consistent.name
  backed d E found := by
    rw [Index.setManifest, if_pos rfl, Std.ExtTreeMap.getElem?_insert] at found
    split at found
    next same =>
      obtain rfl := Std.LawfulEqCmp.compare_eq_iff_eq.1 same
      exact Option.some.inj found ▸ backs.of_files id
    · exact (consistent.backed d E found).of_files id

end Consistent

end Index

namespace Crawl

/-- What the end of a single wait in a live generation does to the index, and what the crawl waits
for next. -/
inductive Deed (ctx : Context) (world : World) (ix : Index) : Task → Index → Progress → Prop where
  | ended {task : Task} (result : Except IndexError Bool) :
      Deed ctx world ix task ix (.finished result)
  | removed {task : Task} (result : Except IndexError Bool) :
      Deed ctx world ix task (ix.evict task.path).1 (.finished result)
  | begun (p : Path) : Deed ctx world ix (.begin p) ix (.waiting (.entry p))
  | cleared (p : Path) (st : Status) (result : Except IndexError Bool) :
      Deed ctx world ix (.entry p) (ix.clearedFor p st) (.finished result)
  | directory {p : Path} {st : Status} {task : Task} (kind : st.kind = .directory)
      (goesOn : ∃ known, task = .subscribe p known ∨ task = .list p known) :
      Deed ctx world ix (.entry p) ((ix.clearedFor p st).insertDirectory p st true).1 (.waiting task)
  | file {p : Path} {st : Status} {next : Progress} (kind : st.kind = .file)
      (goesOn : ∀ task, next = .waiting task → ∃ a : Arrival, a.path = p ∧
        ((∃ root, task = .project a root) ∨ (ctx.policy.layout.isOfInterest p = true ∧
          task = .manifest a (.reading p (p.parent.getD p))))) :
      Deed ctx world ix (.entry p) ((ix.clearedFor p st).insertFile p st true).1 next
  | subscribed (dir : Path) (known : Bool) :
      Deed ctx world ix (.subscribe dir known) ix (.waiting (.list dir known))
  | listed {dir : Path} {known : Bool} {cs gone : List Path} (told : world.children dir = .ok cs)
      (entries : ∀ c ∈ gone, c ∈ ix.children dir) :
      Deed ctx world ix (.list dir known) (ix.evictAll gone)
        (following dir (ctx.policy.arrange cs).1 (ctx.policy.arrange cs).2)
  | project (a : Arrival) (root : Path) (interest : ctx.policy.layout.isOfInterest a.path = true) :
      Deed ctx world ix (.project a root) ix
        (.waiting (.manifest a (.reading a.path (a.path.parent.getD a.path))))
  | installed {a : Arrival} {d : Declaration} {D : Definition}
      (further : ∀ path directory, d ≠ .reading path directory) :
      Deed ctx world ix (.manifest a (.reading D.path D.directory)) (ix.setManifest D true).1
        (.waiting (.manifest a d))
  | declared (a : Arrival) (D : Definition) :
      Deed ctx world ix (.manifest a (.declaring D)) ix (.waiting (.manifest a (.publishing D)))

section

variable {ctx : Context} {world : World} {s : Scope}

theorem deed_entry (live : s.store.isStale ctx.generation = false) (p : Path) :
    Deed ctx world s.store.index (.entry p) (ctx.examined p (world.entry p) s).1.store.index
      (ctx.examined p (world.entry p) s).2 := by
  cases world.entry p with
  | error cause =>
    rcases examined_error live p cause with ⟨_, index, changed, ends⟩ | ⟨_, index, ends⟩
    · rw [index, ends]
      split
      · exact .removed (.ok changed)
      · exact .ended (.ok changed)
    · rw [index, ends]
      exact .ended _
  | ok st =>
    obtain ⟨s', live', cleared, examined⟩ := examined_ok live p st
    rw [examined]
    cases kind : st.kind with
    | directory =>
      dsimp only
      rcases addDirectory_outcome live' p st with ⟨_, same, ends⟩ | ⟨_, written, goesOn⟩
      · rw [same, ends, cleared]
        exact .cleared p st (.ok false)
      · rw [written, cleared]
        rcases goesOn with next | next
        · rw [next]
          exact .directory kind ⟨_, Or.inl rfl⟩
        · rw [next]
          exact .directory kind ⟨_, Or.inr rfl⟩
    | file =>
      dsimp only
      rcases addFile_outcome live' p st with ⟨_, same, ends⟩ | ⟨_, written, a, own, goesOn⟩
      · rw [same, ends, cleared]
        exact .cleared p st (.ok false)
      · rw [written, cleared]
        refine .file kind fun task waits => ⟨a, own, ?_⟩
        rcases goesOn with ⟨root, next⟩ | next
        · cases next.symm.trans waits
          exact Or.inl ⟨root, rfl⟩
        · rw [waits] at next
          split at next
          next interest =>
            cases next
            exact Or.inr ⟨interest, rfl⟩
          · cases next
    | unknown =>
      dsimp only
      rw [cleared]
      exact .cleared p st (.ok false)

theorem deed_list (live : s.store.isStale ctx.generation = false) (dir : Path) (known : Bool) :
    Deed ctx world s.store.index (.list dir known)
      (ctx.listed dir known (world.children dir) s).1.store.index
      (ctx.listed dir known (world.children dir) s).2 := by
  rcases listed_outcome live dir known (world.children dir) with
    ⟨cause, _, ⟨_, index, ends⟩ | ⟨index, ends⟩⟩ | ⟨cs, told, index, next⟩
  · rw [index, ends]
    exact .removed (.ok false)
  · rw [index, ends]
    exact .ended _
  · rw [index, next]
    split
    · exact .listed told fun c member => List.mem_of_mem_filter member
    · exact @Deed.listed _ _ _ _ _ _ [] told (by simp)

theorem deed_manifest (live : s.store.isStale ctx.generation = false) (a : Arrival)
    (d : Declaration) :
    let r := ctx.resume a (d.step ctx.policy world ctx.generation s)
    Deed ctx world s.store.index (.manifest a d) r.1.store.index r.2 := by
  intro r
  cases d with
  | reading path directory =>
    have outcome := reading_outcome live world a path directory
    dsimp only at outcome
    split at outcome
    next cause _ =>
      rw [outcome.1, outcome.2]
      split <;> exact .ended _
    next bytes _ =>
      split at outcome
      · rw [outcome.1, outcome.2]
        exact .ended _
      next m _ =>
        rw [outcome.1]
        have installed := fun d => @Deed.installed ctx world s.store.index a d
          ⟨s.store.nextManifest, path, directory, m, Sha256.hex bytes⟩
        rcases outcome.2 with next | next
        · rw [next]
          exact installed _ (by simp)
        · rw [next]
          exact installed _ (by simp)
  | declaring D =>
    obtain ⟨⟨index, next⟩, _⟩ := installed_outcome live world a D
    rw [index, next]
    exact .declared a D
  | publishing D =>
    obtain ⟨_, index, next⟩ := installed_outcome live world a D
    rw [index, next]
    exact .ended _

/-- The end of a single wait is a deed. -/
theorem Task.Moves.deed {task : Task} {r : Scope × Progress} (moved : Task.Moves ctx world s task r)
    (live : s.store.isStale ctx.generation = false) (single : task.Single) :
    Deed ctx world s.store.index task r.1.store.index r.2 := by
  cases moved with
  | begin p =>
    rw [addEntry_outcome live]
    exact .begun p
  | entry p => exact deed_entry live p
  | subscribe dir known =>
    rw [subscribed_index]
    exact .subscribed dir known
  | list dir known => exact deed_list live dir known
  | project a root =>
    obtain ⟨index, next⟩ := projectDeclared_outcome live a root (world.projectRemarks root)
    rw [index, next]
    split
    next interest => exact .project a root interest
    · exact .ended _
  | manifest a d => exact deed_manifest live a d
  | inOrder | inOrderFailed | inOrderDone | together | togetherDone | togetherLast | togetherNone =>
    exact absurd single id

/-- What each deed keeps is kept by every move. -/
theorem Task.Moves.index_keeps {task : Task} {r : Scope × Progress}
    (moved : Task.Moves ctx world s task r) {P : Index → Prop}
    (each : ∀ task ix ix' next, Deed ctx world ix task ix' next → P ix → P ix')
    (start : P s.store.index) : P r.1.store.index := by
  cases stale : s.store.isStale ctx.generation with
  | true => rwa [(moved.edits.quiet_of_stale stale).index]
  | false =>
    induction moved with
    | begin p => exact each _ _ _ _ ((Task.Moves.begin p).deed stale trivial) start
    | entry p => exact each _ _ _ _ (deed_entry stale p) start
    | subscribe dir known =>
      exact each _ _ _ _ ((Task.Moves.subscribe dir known).deed stale trivial) start
    | list dir known => exact each _ _ _ _ (deed_list stale dir known) start
    | project a root => exact each _ _ _ _ ((Task.Moves.project a root).deed stale trivial) start
    | manifest a d => exact each _ _ _ _ (deed_manifest stale a d) start
    | inOrder _ _ _ _ ih | inOrderFailed _ _ _ _ ih | together _ _ _ _ _ ih
      | togetherDone _ _ _ _ _ _ ih => exact ih
    | inOrderDone dir queue rest moved ih =>
      rwa [(nextInOrder_outcome ((moved.edits.isStale _).trans stale) dir queue rest).1]
    | togetherLast dir failure moved ih => rwa [conclude_index]
    | togetherNone dir failure => rwa [conclude_index]

/-- What each deed keeps is kept by every crawl. -/
theorem Served.index_keeps {admits : World → Prop} {r : Scope × Progress}
    {result : Except IndexError Bool} (served : Served ctx admits r s result) {P : Index → Prop}
    (each : ∀ world task ix ix' next, Deed ctx world ix task ix' next → P ix → P ix')
    (start : P r.1.store.index) : P s.store.index :=
  served.keeps (P := fun r => P r.1.store.index) start
    fun _ _ world _ _ moved kept => moved.index_keeps (each world) kept

/-- A deed keeps kinds apart, whatever it is done to. -/
theorem Deed.kinded {excepted : Path → Prop} {task : Task} {ix ix' : Index} {next : Progress}
    (deed : Deed ctx world ix task ix' next) (kept : ix.Filed ∧ ix.Kinded excepted) :
    ix'.Filed ∧ ix'.Kinded excepted := by
  obtain ⟨filed, kinded⟩ := kept
  cases deed with
  | ended | begun | subscribed | project | declared => exact ⟨filed, kinded⟩
  | removed result => exact ⟨(filed.evict _).filed, kinded.evict filed _⟩
  | cleared p st result => exact ⟨filed.clearedFor p st, kinded.clearedFor filed p st⟩
  | @directory p st _ kind goesOn =>
    refine ⟨(filed.clearedFor p st).insertDirectory p st, ?_⟩
    exact (kinded.clearedFor filed p st).insertDirectory kind (kinded.apart_of_directory filed kind)
  | @file p st _ kind goesOn =>
    refine ⟨(filed.clearedFor p st).insertFile p st, ?_⟩
    exact (kinded.clearedFor filed p st).insertFile kind (kinded.apart_of_file filed kind)
  | @listed dir known cs gone told entries =>
    exact Index.evictAll_keeps (P := fun ix => ix.Filed ∧ ix.Kinded excepted)
      (fun _ p _ kept => ⟨(kept.1.evict p).filed, kept.2.evict kept.1 p⟩) ⟨filed, kinded⟩
  | @installed a d D further => exact ⟨filed, kinded.setManifest D⟩

/-- The name of manifests stays the same. -/
theorem Deed.named {name : Name} {task : Task} {ix ix' : Index} {next : Progress}
    (deed : Deed ctx world ix task ix' next) (kept : ix.Filed ∧ ix.manifestName = name) :
    ix'.Filed ∧ ix'.manifestName = name := by
  have evict : ∀ (ix : Index) (p : Path), ix.Filed ∧ ix.manifestName = name →
      (ix.evict p).1.Filed ∧ (ix.evict p).1.manifestName = name :=
    fun _ p kept => ⟨(kept.1.evict p).filed, (kept.1.evict_manifestName p).trans kept.2⟩
  have cleared : ∀ (p : Path) (st : Status),
      (ix.clearedFor p st).Filed ∧ (ix.clearedFor p st).manifestName = name := fun p st =>
    Index.clearedFor_keeps (P := fun ix => ix.Filed ∧ ix.manifestName = name) (p := p)
      (fun ix => evict ix p) kept st
  cases deed with
  | ended | begun | subscribed | project | declared | installed => exact kept
  | removed result => exact evict _ _ kept
  | cleared p st result => exact cleared p st
  | @directory p st _ kind goesOn =>
    exact ⟨(cleared p st).1.insertDirectory p st, by simpa using (cleared p st).2⟩
  | @file p st _ kind goesOn =>
    exact ⟨(cleared p st).1.insertFile p st, by simpa using (cleared p st).2⟩
  | listed told entries =>
    exact Index.evictAll_keeps (P := fun ix => ix.Filed ∧ ix.manifestName = name)
      (fun ix p _ => evict ix p) kept

end

/-- The index knows what the task relies on. -/
inductive Task.Stands (layout : Layout) (anchor : Path → Prop) (ix : Index) : Task → Prop where
  | begin {p : Path} (footed : ix.Footed anchor p) : Stands layout anchor ix (.begin p)
  | entry {p : Path} (footed : ix.Footed anchor p) : Stands layout anchor ix (.entry p)
  | subscribe {dir : Path} (known : Bool) (directory : dir ∈ ix.directories) :
      Stands layout anchor ix (.subscribe dir known)
  | list {dir : Path} (known : Bool) (directory : dir ∈ ix.directories) :
      Stands layout anchor ix (.list dir known)
  | project {a : Arrival} (root : Path) (file : a.path ∈ ix.files) :
      Stands layout anchor ix (.project a root)
  | manifest {a : Arrival} {d : Declaration} (file : a.path ∈ ix.files)
      (own : ∀ path directory, d = .reading path directory →
        path = a.path ∧ a.path.parent = some directory ∧ layout.isOfInterest a.path = true) :
      Stands layout anchor ix (.manifest a d)
  | inOrder {dir : Path} {current : Task} {queue rest : List Path} (directory : dir ∈ ix.directories)
      (first : Stands layout anchor ix current) :
      Stands layout anchor ix (.inOrder dir current queue rest)
  | together {dir : Path} {running : List Task} {failure : Option IndexError}
      (directory : dir ∈ ix.directories) (each : ∀ task ∈ running, Stands layout anchor ix task) :
      Stands layout anchor ix (.together dir running failure)

section

variable {layout : Layout} {anchor : Path → Prop} {ctx : Context} {world : World} {s : Scope}
  {ix ix' : Index}

/-- A task stands as long as nothing at or below its path changes and the path stays in place. -/
theorem Task.Stands.frame {task : Task} (stands : task.Stands layout anchor ix)
    (placed : task.Placed)
    (files : ∀ q, task.path.Covers q → q ∈ ix.files → q ∈ ix'.files)
    (directories : ∀ q, task.path.Covers q → q ∈ ix.directories → q ∈ ix'.directories)
    (footed : ix'.Footed anchor task.path) : task.Stands layout anchor ix' := by
  induction stands with
  | begin _ => exact .begin footed
  | entry _ => exact .entry footed
  | @subscribe dir known directory => exact .subscribe known (directories dir (.refl dir) directory)
  | @list dir known directory => exact .list known (directories dir (.refl dir) directory)
  | @project a root file => exact .project root (files a.path (.refl _) file)
  | @manifest a d file own => exact .manifest (files a.path (.refl _) file) own
  | @inOrder dir current queue rest directory first ih =>
    have kept := directories dir (.refl dir) directory
    cases placed with
    | inOrder placed siblings distinct =>
      have parent := siblings current.path (by simp)
      have below := Path.covers_of_parent parent
      exact .inOrder kept (ih placed (fun q covers => files q (below.trans covers))
        (fun q covers => directories q (below.trans covers)) (Or.inr ⟨dir, parent, kept⟩))
  | @together dir running failure directory each ih =>
    have kept := directories dir (.refl dir) directory
    cases placed with
    | together placed siblings distinct =>
      refine .together kept fun task member => ?_
      have parent := siblings task member
      have below := Path.covers_of_parent parent
      exact ih task member (placed task member) (fun q covers => files q (below.trans covers))
        (fun q covers => directories q (below.trans covers)) (Or.inr ⟨dir, parent, kept⟩)

/-- One of the entries that are crawled at once. -/
theorem Task.Stands.one {dir : Path} {before after : List Task} {task : Task}
    {failure : Option IndexError}
    (stands : (Task.together dir (before ++ task :: after) failure).Stands layout anchor ix)
    (placed : (Task.together dir (before ++ task :: after) failure).Placed) :
    task.Placed ∧ dir.Covers task.path ∧ task.Stands layout anchor ix := by
  cases stands with
  | together directory each =>
    cases placed with
    | together places siblings distinct =>
      exact ⟨places task (by simp), Path.covers_of_parent (siblings task (by simp)),
        each task (by simp)⟩

/-- The entries beside the one that moved still stand. -/
theorem Task.Stands.others {dir : Path} {before after : List Task} {task : Task}
    {failure : Option IndexError}
    (stands : (Task.together dir (before ++ task :: after) failure).Stands layout anchor ix)
    (placed : (Task.together dir (before ++ task :: after) failure).Placed)
    (outside : ix.SameOutside ix' task.path) :
    dir ∈ ix'.directories ∧ ∀ other ∈ before ++ after, other.Stands layout anchor ix' := by
  cases stands with
  | together directory each =>
    cases placed with
    | together places siblings distinct =>
      have parent := siblings task (by simp)
      have kept := (outside.directories dir (Path.not_covers_of_parent parent)).2 directory
      refine ⟨kept, fun other member => ?_⟩
      have listed : other ∈ before ++ task :: after := by
        rcases List.mem_append.1 member with left | right <;> simp [*]
      have unlike : task.path ∉ (before ++ after).map Task.path := by
        rw [List.map_append, List.map_cons] at distinct
        rw [List.map_append]
        exact (List.nodup_middle.1 distinct).notMem
      have apart : ∀ q, other.path.Covers q → ¬ task.path.Covers q := by
        intro q covers both
        have same := Path.eq_of_siblings (siblings other listed) parent covers both
        exact unlike (same ▸ List.mem_map_of_mem member)
      exact (each other listed).frame (places other listed)
        (fun q covers => (outside.files q (apart q covers)).2)
        (fun q covers => (outside.directories q (apart q covers)).2)
        (Or.inr ⟨dir, siblings other listed, kept⟩)

/-- What is left of the entries of a directory is placed and stands. -/
theorem stands_following {dir : Path} {queue rest : List Path} (directory : dir ∈ ix.directories)
    (siblings : ∀ c ∈ queue ++ rest, c.parent = some dir) (distinct : (queue ++ rest).Nodup)
    {task : Task} (waits : following dir queue rest = .waiting task) :
    task.Placed ∧ task.path = dir ∧ task.Stands layout anchor ix := by
  have footed : ∀ c ∈ queue ++ rest, ix.Footed anchor c :=
    fun c member => Or.inr ⟨dir, siblings c member, directory⟩
  cases queue with
  | nil =>
    simp only [following] at waits
    split at waits
    · cases waits
    · cases waits
      have paths : (rest.map Task.begin).map Task.path = rest := by
        rw [List.map_map]
        exact List.map_id rest
      refine ⟨.together ?_ ?_ (by rwa [paths]), rfl, .together directory ?_⟩
      · simp only [List.mem_map]
        rintro task ⟨c, _, rfl⟩
        exact .begin c
      · simp only [List.mem_map]
        rintro task ⟨c, member, rfl⟩
        exact siblings c member
      · simp only [List.mem_map]
        rintro task ⟨c, member, rfl⟩
        exact .begin (footed c member)
  | cons p queue =>
    cases waits
    exact ⟨.inOrder (.entry p) siblings distinct, rfl,
      .inOrder directory (.entry (footed p (by simp)))⟩

/-- A crawl at `p` goes on with a consistent index and a task that stands there, and nothing has
changed elsewhere. -/
structure Advances (layout : Layout) (anchor : Path → Prop) (p : Path) (ix ix' : Index)
    (next : Progress) : Prop where
  consistent : ix'.Consistent layout anchor
  outside : ix.SameOutside ix' p
  goesOn : ∀ task, next = .waiting task →
    task.Placed ∧ task.path = p ∧ task.Stands layout anchor ix'

theorem Advances.idle {p : Path} {next : Progress} (consistent : ix.Consistent layout anchor)
    (goesOn : ∀ task, next = .waiting task →
      task.Placed ∧ task.path = p ∧ task.Stands layout anchor ix) :
    Advances layout anchor p ix ix next :=
  ⟨consistent, .refl ix p, goesOn⟩

theorem Advances.after {p : Path} {mid : Index} {next : Progress}
    (advances : Advances layout anchor p mid ix' next) (outside : ix.SameOutside mid p) :
    Advances layout anchor p ix ix' next :=
  ⟨advances.consistent, outside.trans advances.outside, advances.goesOn⟩

/-- A directory that is written in its place goes on standing. -/
theorem advances_directory {p : Path} {st : Status} {task : Task}
    (consistent : ix.Consistent layout anchor) (footed : ix.Footed anchor p)
    (kind : st.kind = .directory) (met : p ∈ ix.files → anchor p)
    (goesOn : ∃ known, task = .subscribe p known ∨ task = .list p known) :
    Advances layout anchor p ix (ix.insertDirectory p st true).1 (.waiting task) := by
  refine ⟨consistent.insertDirectory footed kind met, ⟨fun q out => ?_, fun q out => ?_⟩,
    fun next waits => ?_⟩
  · rw [Index.insertDirectory_files]
  · have other : p ≠ q := fun same => out (same ▸ .refl p)
    simp [other]
  · obtain rfl := Progress.waiting.inj waits
    have directory : p ∈ (ix.insertDirectory p st true).1.directories := by simp
    obtain ⟨known, rfl | rfl⟩ := goesOn
    · exact ⟨.subscribe p known, rfl, .subscribe known directory⟩
    · exact ⟨.list p known, rfl, .list known directory⟩

/-- The directory of an anchor is written, or passed over, and goes on standing. -/
theorem advances_addDirectory {s : Scope} (live : s.store.isStale ctx.generation = false) {p : Path}
    {st : Status} (consistent : s.store.index.Consistent layout anchor) (anchored : anchor p)
    (kind : st.kind = .directory) :
    Advances layout anchor p s.store.index (ctx.addDirectory p st s).1.store.index
      (ctx.addDirectory p st s).2 := by
  have written : ∀ task, (∃ known, task = .subscribe p known ∨ task = .list p known) →
      Advances layout anchor p s.store.index (s.store.index.insertDirectory p st true).1
        (.waiting task) :=
    fun task goesOn => advances_directory consistent (Or.inl anchored) kind (fun _ => anchored) goesOn
  rcases addDirectory_outcome live p st with ⟨_, same, ends⟩ | ⟨_, index, next | next⟩
  · rw [same, ends]
    exact .idle consistent fun task waits => by cases waits
  · rw [index, next]
    exact written _ ⟨_, Or.inl rfl⟩
  · rw [index, next]
    exact written _ ⟨_, Or.inr rfl⟩

/-- A file that is written in its place goes on standing. -/
theorem advances_file {p : Path} {st : Status} {next : Progress}
    (consistent : ix.Consistent layout anchor) (footed : ix.Footed anchor p)
    (kind : st.kind = .file) (met : p ∈ ix.directories → anchor p)
    (goesOn : ∀ task, next = .waiting task → ∃ a : Arrival, a.path = p ∧
      ((∃ root, task = .project a root) ∨ (layout.isOfInterest p = true ∧
        task = .manifest a (.reading p (p.parent.getD p))))) :
    Advances layout anchor p ix (ix.insertFile p st true).1 next := by
  refine ⟨consistent.insertFile footed kind met, ⟨fun q out => ?_, fun q out => ?_⟩,
    fun task waits => ?_⟩
  · have other : p ≠ q := fun same => out (same ▸ .refl p)
    simp [other]
  · rw [Index.insertFile_directories]
  · have file : p ∈ (ix.insertFile p st true).1.files := by simp
    obtain ⟨a, rfl, ⟨root, rfl⟩ | ⟨interest, rfl⟩⟩ := goesOn task waits
    · exact ⟨.project a root, rfl, .project root file⟩
    · refine ⟨.manifest a _, rfl, .manifest file fun path directory reading => ?_⟩
      obtain ⟨d, parent⟩ := Layout.exists_parent interest
      cases reading
      exact ⟨rfl, by simp [parent], interest⟩

/-- A deed of a task that stands keeps the index consistent, and the crawl goes on where it was. -/
theorem Deed.advances {task : Task} {next : Progress} (deed : Deed ctx world ix task ix' next)
    (layouts : ctx.policy.layout = layout) (lists : world.ListsOnce)
    (absolute : task.path.isAbsolute = true) (consistent : ix.Consistent layout anchor)
    (stands : task.Stands layout anchor ix) : Advances layout anchor task.path ix ix' next := by
  have filed := consistent.filed
  cases deed with
  | ended result => exact .idle consistent fun _ waits => by cases waits
  | removed result =>
    exact ⟨consistent.evict _, filed.sameOutside_evict _, fun _ waits => by cases waits⟩
  | begun p =>
    cases stands with
    | begin footed =>
      refine .idle consistent fun task waits => ?_
      cases waits
      exact ⟨.entry p, rfl, .entry footed⟩
  | cleared p st result =>
    exact ⟨consistent.clearedFor p st, filed.sameOutside_clearedFor p st,
      fun _ waits => by cases waits⟩
  | @directory p st task kind goesOn =>
    cases stands with
    | entry footed =>
      have outside := filed.sameOutside_clearedFor p st
      exact (advances_directory (consistent.clearedFor p st) (outside.footed footed) kind
        (consistent.kinded.apart_of_directory filed kind) goesOn).after outside
  | @file p st next kind goesOn =>
    cases stands with
    | entry footed =>
      have outside := filed.sameOutside_clearedFor p st
      exact (advances_file (consistent.clearedFor p st) (outside.footed footed) kind
        (consistent.kinded.apart_of_file filed kind) (layouts ▸ goesOn)).after outside
  | subscribed dir known =>
    cases stands with
    | subscribe _ directory =>
      refine .idle consistent fun task waits => ?_
      cases waits
      exact ⟨.list dir known, rfl, .list known directory⟩
  | @listed dir known cs gone told entries =>
    cases stands with
    | list _ directory =>
      obtain ⟨outside, kept⟩ := filed.sameOutside_evictAll fun c member => filed dir c (entries c member)
      have arranged := ctx.policy.arrange_perm cs
      refine ⟨consistent.evictAll gone, outside, fun task waits => ?_⟩
      refine stands_following (kept directory) (fun c member => ?_) ?_ waits
      · exact lists.entries dir cs absolute told c (arranged.mem_iff.1 member)
      · exact arranged.nodup_iff.2 (lists.distinct dir cs absolute told)
  | project a root interest =>
    cases stands with
    | project _ file =>
      refine .idle consistent fun task waits => ?_
      cases waits
      refine ⟨.manifest a _, rfl, .manifest file fun path directory reading => ?_⟩
      obtain ⟨d, parent⟩ := Layout.exists_parent interest
      cases reading
      exact ⟨rfl, by simp [parent], layouts ▸ interest⟩
  | @installed a d D further =>
    cases stands with
    | manifest file own =>
      obtain ⟨path, parent, interest⟩ := own D.path D.directory rfl
      have backs : ix.Backs layout D.directory D :=
        ⟨rfl, path ▸ parent, path ▸ file, path ▸ interest, path ▸ absolute⟩
      refine ⟨consistent.setManifest backs, ⟨fun _ _ => Iff.rfl, fun _ _ => Iff.rfl⟩,
        fun task waits => ?_⟩
      cases waits
      exact ⟨.manifest a d, rfl, .manifest file fun path directory reading =>
        absurd reading (further path directory)⟩
  | declared a D =>
    cases stands with
    | manifest file own =>
      refine .idle consistent fun task waits => ?_
      cases waits
      exact ⟨.manifest a _, rfl, .manifest file fun _ _ reading => by cases reading⟩

/-- A move of a task that stands keeps the index consistent, changes nothing away from the path of
the task, and leaves a task that stands at the same path. -/
theorem Task.Moves.advances {task : Task} {r : Scope × Progress}
    (moved : Task.Moves ctx world s task r) (layouts : ctx.policy.layout = layout)
    (lists : world.ListsOnce) (live : s.store.isStale ctx.generation = false)
    (absolute : task.path.isAbsolute = true) (placed : task.Placed)
    (consistent : s.store.index.Consistent layout anchor)
    (stands : task.Stands layout anchor s.store.index) :
    Advances layout anchor task.path s.store.index r.1.store.index r.2 := by
  induction moved with
  | begin p =>
    exact ((Task.Moves.begin p).deed live trivial).advances layouts lists absolute consistent stands
  | entry p => exact (deed_entry live p).advances layouts lists absolute consistent stands
  | subscribe dir known =>
    exact ((Task.Moves.subscribe dir known).deed live trivial).advances layouts lists absolute
      consistent stands
  | list dir known => exact (deed_list live dir known).advances layouts lists absolute consistent stands
  | project a root =>
    exact ((Task.Moves.project a root).deed live trivial).advances layouts lists absolute consistent
      stands
  | manifest a d => exact (deed_manifest live a d).advances layouts lists absolute consistent stands
  | inOrder dir queue rest moved ih =>
    cases placed with
    | inOrder first siblings distinct =>
      cases stands with
      | inOrder directory stands =>
        have parent := siblings _ List.mem_cons_self
        have below := Path.covers_of_parent parent
        have inner := ih (below.isAbsolute absolute) first stands
        refine ⟨inner.consistent, inner.outside.above below, fun task waits => ?_⟩
        cases waits
        obtain ⟨next, same, stands⟩ := inner.goesOn _ rfl
        have kept := (inner.outside.directories dir (Path.not_covers_of_parent parent)).2 directory
        refine ⟨.inOrder next ?_ ?_, rfl, .inOrder kept stands⟩
        · rw [same]
          exact siblings
        · rw [same]
          exact distinct
  | inOrderFailed dir queue rest moved ih =>
    cases placed with
    | inOrder first siblings distinct =>
      cases stands with
      | inOrder directory stands =>
        have below := Path.covers_of_parent (siblings _ List.mem_cons_self)
        have inner := ih (below.isAbsolute absolute) first stands
        exact ⟨inner.consistent, inner.outside.above below, fun task waits => by cases waits⟩
  | inOrderDone dir queue rest moved ih =>
    cases placed with
    | inOrder first siblings distinct =>
      cases stands with
      | inOrder directory stands =>
        have parent := siblings _ List.mem_cons_self
        have below := Path.covers_of_parent parent
        have inner := ih (below.isAbsolute absolute) first stands
        have kept := (inner.outside.directories dir (Path.not_covers_of_parent parent)).2 directory
        obtain ⟨index, next⟩ := nextInOrder_outcome ((moved.edits.isStale _).trans live) dir queue rest
        rw [index, next]
        refine ⟨inner.consistent, inner.outside.above below, fun task waits => ?_⟩
        exact stands_following kept (fun c member => siblings c (List.mem_cons_of_mem _ member))
          (List.nodup_cons.1 distinct).2 waits
  | @together s' task task' dir before after failure moved ih =>
    obtain ⟨first, below, own⟩ := stands.one placed
    have inner := ih (below.isAbsolute absolute) first own
    obtain ⟨kept, others⟩ := stands.others placed inner.outside
    obtain ⟨next, same, standing⟩ := inner.goesOn task' rfl
    refine ⟨inner.consistent, inner.outside.above below, fun _ waits => ?_⟩
    cases waits
    refine ⟨placed.replace next same, rfl, .together kept fun other member => ?_⟩
    rcases List.mem_cons.1 (List.perm_middle.mem_iff.1 member) with rfl | beside
    · exact standing
    · exact others other beside
  | togetherDone dir before after failure moved left ih =>
    obtain ⟨first, below, own⟩ := stands.one placed
    have inner := ih (below.isAbsolute absolute) first own
    obtain ⟨kept, others⟩ := stands.others placed inner.outside
    refine ⟨inner.consistent, inner.outside.above below, fun _ waits => ?_⟩
    cases waits
    exact ⟨placed.without, rfl, .together kept others⟩
  | @togetherLast s' task result dir failure moved ih =>
    obtain ⟨first, below, own⟩ := @Task.Stands.one _ _ _ dir [] [] task failure stands placed
    have inner := ih (below.isAbsolute absolute) first own
    rw [conclude_index]
    exact ⟨inner.consistent, inner.outside.above below,
      fun _ waits => absurd waits conclude_not_waiting⟩
  | togetherNone dir failure =>
    rw [conclude_index]
    exact .idle consistent fun task waits => absurd waits conclude_not_waiting

/-- A crawl that starts with a task that stands leaves a consistent index, however it ends. -/
theorem Served.consistent {admits : World → Prop} {r : Scope × Progress}
    {result : Except IndexError Bool} (served : Served ctx admits r s result)
    (layouts : ctx.policy.layout = layout) (lists : ∀ world, admits world → world.ListsOnce) {p : Path}
    (absolute : p.isAbsolute = true) (consistent : r.1.store.index.Consistent layout anchor)
    (goesOn : ∀ task, r.2 = .waiting task →
      task.Placed ∧ task.path = p ∧ task.Stands layout anchor r.1.store.index) :
    s.store.index.Consistent layout anchor := by
  cases stale : r.1.store.isStale ctx.generation with
  | true => rwa [(served.edits.quiet_of_stale stale).index]
  | false =>
    refine (served.keeps (P := fun r => r.1.store.isStale ctx.generation = false ∧
      r.1.store.index.Consistent layout anchor ∧ ∀ task, r.2 = .waiting task →
        task.Placed ∧ task.path = p ∧ task.Stands layout anchor r.1.store.index)
      ⟨stale, consistent, goesOn⟩ ?_).2.1
    rintro s task world r admitted moved ⟨live, consistent, goesOn⟩
    obtain ⟨placed, rfl, stands⟩ := goesOn task rfl
    have advances := moved.advances layouts (lists world admitted) live absolute placed consistent
      stands
    exact ⟨(moved.edits.isStale _).trans live, advances.consistent, advances.goesOn⟩

end

end Crawl

end ProjectIndex
