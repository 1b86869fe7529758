import ProjectIndex.Proofs.Crawl.Revisit
import ProjectIndex.Proofs.Crawl.Shifting
import ProjectIndex.Proofs.Disk.Links
import ProjectIndex.Proofs.Watch.Convergence
import ProjectIndex.Proofs.Watch.Failures

/-!
# Watching again after a failure

A first watch fails while the disk changes under it, and leaves whatever it had registered.  Later
the disk is at rest and the root is watched again.  The second crawl passes over each entry that it
finds with the kind and the time that the index has for it, and does not look into a directory that
it passes over.  The first watch may have registered a directory and failed before it came to the
entries; then the second one does not come to them either.

So the second watch makes up for the first one exactly if the index that the first one left is right
wherever the kind and the time of an entry are what they were.
-/

namespace ProjectIndex

/-- The world tells what some disk with tidy names tells. -/
def World.OnDisk (world : World) : Prop :=
  ∃ d : Disk, d.isTidy = true ∧ world.Reads d

/-- Everything below the root, in a world. -/
def World.siteBelow (world : World) (policy : Policy) (root : Path) : Site where
  policy
  world
  root
  region p := root.Covers p ∧ p.Plain

namespace World.Reads

variable {world : World} {d : Disk} {policy : Policy} {root : Path} {tree : Node}

theorem wants_iff (reads : world.Reads d) {p : Path} {st : Status} :
    (world.siteBelow policy root).Wants p st ↔ (d.site policy root).Wants p st := by
  have same : ∀ p st, world.entry p = .ok st ↔ (World.ofDisk d).entry p = .ok st := by
    intro p st
    rw [reads.entry]
  constructor
  · intro wants
    induction wants with
    | root reached told directory takes =>
      exact .root reached ((same _ _).1 told) directory takes
    | entry reached parent above directory told kind takes ih =>
      exact .entry reached parent ih directory ((same _ _).1 told) kind takes
  · intro wants
    induction wants with
    | root reached told directory takes =>
      exact .root reached ((same _ _).2 told) directory takes
    | entry reached parent above directory told kind takes ih =>
      exact .entry reached parent ih directory ((same _ _).2 told) kind takes

theorem wantsDirectory_iff (reads : world.Reads d) {p : Path} :
    (world.siteBelow policy root).WantsDirectory p ↔ (d.site policy root).WantsDirectory p := by
  unfold Site.WantsDirectory
  simp only [reads.wants_iff]

theorem reaches (reads : world.Reads d) {p : Path}
    (reaches : (world.siteBelow policy root).Reaches p) : (d.site policy root).Reaches p := by
  refine ⟨reaches.reached, reaches.hooked.imp_right ?_⟩
  rintro ⟨dir, parent, wanted⟩
  exact ⟨dir, parent, reads.wantsDirectory_iff.1 wanted⟩

theorem lists (reads : world.Reads d) (carries : d.Carries root tree) :
    (world.siteBelow policy root).Lists where
  below _ reached := reached.1
  entries p cs opens told := by
    have told : (World.ofDisk d).children p = .ok cs := by
      rw [← reads.children]
      exact told
    have opens : (d.site policy root).Opens p := by
      obtain ⟨st, told, kind⟩ := opens.directory
      refine ⟨opens.reached, ⟨st, ?_, kind⟩, opens.taken⟩
      exact (congrFun reads.entry p).symm.trans told
    exact (carries.lists policy).entries p cs opens told

theorem faithful (reads : world.Reads d) (carries : d.Carries root tree) :
    (world.siteBelow policy root).Faithful where
  root := by
    obtain ⟨st, told, kind⟩ := (carries.faithful policy).root
    exact ⟨st, (congrFun reads.entry root).trans told, kind⟩
  listed p wanted := by
    obtain ⟨cs, told⟩ := (carries.faithful policy).listed p (reads.wantsDirectory_iff.1 wanted)
    exact ⟨cs, (congrFun reads.children p).trans told⟩
  entries p cs wanted told c reached parent := by
    have told : (World.ofDisk d).children p = .ok cs := (congrFun reads.children p).symm.trans told
    have listed := (carries.faithful policy).entries p cs (reads.wantsDirectory_iff.1 wanted) told c
      reached parent
    refine listed.trans (exists_congr fun st => ?_)
    exact (congrFun reads.entry c).symm ▸ Iff.rfl
  contents f st wants kind := by
    obtain ⟨bytes, told⟩ := (carries.faithful policy).contents f st (reads.wants_iff.1 wants) kind
    exact ⟨bytes, (congrFun reads.contents f).trans told⟩

end World.Reads

namespace Index

/-- Where this index has for an entry the kind and the time that the other one has, it says the same
of the entry and of everything in it. -/
def RightWhereUnchanged (ix now : Index) : Prop :=
  ∀ p st st', ix.status? p = some st → now.status? p = some st' → st.kind = st'.kind →
    st.mtime = st'.mtime → st = st' ∧ ∀ q, q.parent = some p → ix.status? q = now.status? q

def knownPaths (ix : Index) : List Path :=
  ix.files.keys ++ ix.directories.keys

def gate (st : Status) : Kind × Int :=
  (st.kind, st.mtime)

variable {ix now : Index}

theorem mem_knownPaths {p : Path} : p ∈ ix.knownPaths ↔ ix.Known p := by
  simp [knownPaths, Known]

/-- Whether an index is right where nothing has changed can be seen from the paths that are known. -/
theorem rightWhereUnchanged_iff : ix.RightWhereUnchanged now ↔
    ∀ p ∈ ix.knownPaths, (ix.status? p).map gate = (now.status? p).map gate →
      ix.status? p = now.status? p ∧ ∀ q ∈ ix.knownPaths ++ now.knownPaths, q.parent = some p →
        ix.status? q = now.status? q := by
  constructor
  · intro right p known same
    obtain ⟨st, found⟩ := known_iff.1 (mem_knownPaths.1 known)
    rw [found] at same
    obtain ⟨st', found', gates⟩ := Option.map_eq_some_iff.1 same.symm
    obtain ⟨rfl, entries⟩ := right p st st' found found' (congrArg Prod.fst gates).symm
      (congrArg Prod.snd gates).symm
    exact ⟨found.trans found'.symm, fun q _ parent => entries q parent⟩
  · intro right p st st' found found' kind mtime
    have known : p ∈ ix.knownPaths := mem_knownPaths.2 (known_iff.2 ⟨st, found⟩)
    obtain ⟨own, entries⟩ := right p known (by simp [found, found', gate, kind, mtime])
    refine ⟨Option.some.inj (found.symm.trans (own.trans found')), fun q parent => ?_⟩
    by_cases listed : q ∈ ix.knownPaths ++ now.knownPaths
    · exact entries q listed parent
    · have unknown : ix.status? q = none ∧ now.status? q = none := by
        simpa [mem_knownPaths, ← status?_eq_none] using listed
      rw [unknown.1, unknown.2]

instance (ix now : Index) : Decidable (ix.RightWhereUnchanged now) :=
  decidable_of_iff _ rightWhereUnchanged_iff.symm

/-- What a crawl may leave that failed while the disk changed: a sound index of paths that a disk
takes, where the root is a directory if it is known at all. -/
structure Remnant (ix : Index) (policy : Policy) (root : Path) : Prop where
  sound : ix.Sound root
  known : ∀ p st, ix.status? p = some st → policy.ignores p st.kind = false ∧
    ∃ names, p = root.descend names ∧ (∀ n ∈ names, n.isLegal = true) ∧
      if p = root then st.kind = .directory else p.spelling.bytes.length ≤ Disk.maxPathLength

theorem remnant_empty (name : Name) (policy : Policy) (root : Path) :
    (empty name).Remnant policy root where
  sound := sound_empty name root
  known p st found := by simp [empty, status?] at found

end Index

namespace Watch

open Crawl (Agrees Dependable PassedOver Revisitable Attributed)

section

variable {policy : Policy} {root : Path} {tree : Node} {d : Disk} {world : World} {ix : Index}

/-- A crawl can go on from what a failed one has left. -/
theorem revisitable_of_remnant (carries : d.Carries root tree) (reads : world.Reads d)
    (remnant : ix.Remnant policy root) : Revisitable (world.siteBelow policy root) ix where
  sound := remnant.sound
  known p st found := by
    obtain ⟨takes, names, rfl, legal, _⟩ := remnant.known p st found
    exact ⟨takes, Path.covers_descend root names, carries.plain.descend legal⟩
  gone p st cause reaches found told := by
    obtain ⟨_, names, rfl, legal, room⟩ := remnant.known p st found
    have told : (World.ofDisk d).entry (root.descend names) = .error cause :=
      (congrFun reads.entry _).symm.trans told
    split at room
    next top =>
      rw [top] at told
      obtain ⟨_, shown, _⟩ := (carries.faithful policy).root
      cases told.symm.trans shown
    · exact carries.gone_of_reaches (reads.reaches reaches) legal room told
  root := by
    intro file
    obtain ⟨st, found, kind⟩ := remnant.sound.mem_files.1 file
    obtain ⟨_, _, _, _, directory⟩ := remnant.known root st found
    rw [if_pos rfl, kind] at directory
    cases directory

/-- A watch that starts on what a failed one has left and does not fail itself leaves an index that
is right about everything, exactly if the index was dependable before. -/
theorem watch_agrees_iff (carries : d.Carries root tree) (reads : world.Reads d) {h h' : Host}
    {subsumed : List Path} (planned : h.roots.plan root = .start subsumed)
    (live : h.store.cancelled = []) (remnant : h.store.index.Remnant policy root)
    {result : Except IndexError Unit}
    (done : (Errand.watch root result).Done policy (· = world) h h')
    (mild : (Errand.watch root result).Mild) :
    h'.store.index.Sound root ∧
      ((∀ p, Agrees (d.site policy root) h'.store.index p) ↔
        Dependable (d.site policy root) h.store.index) := by
  cases done with
  | watch served =>
    obtain ⟨s, crawl, crawled, host, answer⟩ := served.of_start planned
    have mildly := Reply.watched.inj answer ▸ mild.2
    obtain ⟨changed, rfl⟩ : ∃ changed, crawl = .ok changed :=
      crawl_ok_of_watch (fun e spelling found failed =>
        (failed ▸ crawled).hard (by simp [Store.isStale, live]) spelling found) mildly
    have index : h'.store.index = s.store.index := host ▸ (Host.finishWatch_keeps _ _ _ _ _).1.index
    cases crawled with
    | failed e hard quiet failure => cases failure
    | crawled world' status opened admitted told directory quiet served =>
      subst admitted
      have entry : world'.entry root = .ok status := by
        have stat : world'.stat root = .ok tree.status :=
          (congrFun reads.stat root).trans carries.stat_root
        cases told.symm.trans stat
        have shown := carries.shows.entry [] tree rfl
        rw [Path.descend_nil] at shown
        exact (congrFun reads.entry root).trans shown
      have before : opened.index = h.store.index := quiet.index
      have still : opened.isStale h.store.nextGeneration = false := by
        simp [Store.isStale, quiet.cancelled, live]
      obtain ⟨sound, agrees⟩ := @Crawl.rootCrawl_agrees_iff (world'.siteBelow policy root)
        (firstCrawl policy h.store.nextGeneration) { store := opened } status (reads.lists carries)
        (reads.faithful carries) rfl still (before ▸ revisitable_of_remnant carries reads remnant)
        ⟨.refl root, carries.plain⟩ entry directory s _ served
      rw [index, ← before]
      refine ⟨sound, ?_⟩
      simpa only [Dependable, PassedOver, Agrees, reads.wants_iff] using agrees

/-- The paths below the root whose names a disk takes. -/
def namedSite (policy : Policy) (root : Path) (world : World) : Site where
  policy
  world
  root
  region p := ∃ names, p = root.descend names ∧ ∀ n ∈ names, n.isLegal = true

/-- Every disk lists such paths only. -/
theorem listsIn_of_onDisk (plain : root.Plain) (before : World) (onDisk : world.OnDisk) :
    (namedSite policy root before).ListsIn world where
  below p reached := by
    obtain ⟨names, rfl, _⟩ := reached
    exact Path.covers_descend root names
  entries p cs reached told := by
    obtain ⟨names, rfl, legal⟩ := reached
    obtain ⟨d, tidy, reads⟩ := onDisk
    have told : (World.ofDisk d).children (root.descend names) = .ok cs :=
      (congrFun reads.children _).symm.trans told
    obtain ⟨distinct, members⟩ := Disk.legal_children tidy (plain.descend legal) told
    refine ⟨distinct, fun c member => ?_⟩
    obtain ⟨n, own, rfl⟩ := members c member
    rw [← Path.descend_append]
    refine ⟨Path.parent_descend root names n, names ++ [n], rfl, fun m inside => ?_⟩
    rcases List.mem_append.1 inside with earlier | last
    · exact legal m earlier
    · exact List.mem_singleton.1 last ▸ own

/-- What was told by disks is a remnant. -/
theorem remnant_of_told (plain : root.Plain) (before : World) (sound : ix.Sound root)
    (told : Attributed (namedSite policy root before) World.OnDisk ix) : ix.Remnant policy root where
  sound := sound
  known p st found := by
    obtain ⟨takes, ⟨names, rfl, legal⟩, source⟩ := told p st found
    refine ⟨takes, names, rfl, legal, ?_⟩
    split at source
    next top =>
      rw [if_pos (show root.descend names = root from top)]
      exact source
    next other =>
      obtain ⟨world, ⟨d, tidy, reads⟩, told⟩ := source
      have told : (World.ofDisk d).entry (root.descend names) = .ok st :=
        (congrFun reads.entry _).symm.trans told
      rw [if_neg (show root.descend names ≠ root from other)]
      exact Disk.room_of_told tidy (plain.descend legal) told

/-- A first watch that fails leaves a host on which the root can be watched again. -/
theorem remnant_of_failure {h h' : Host} {name : Name} {e : IndexError} (plain : root.Plain)
    (fresh : h.Fresh name) (failed : (Errand.watch root (.error e)).Done policy World.OnDisk h h')
    (hard : ∀ spelling found, e ≠ .diagnostics spelling found) :
    (∃ subsumed, h'.roots.plan root = .start subsumed) ∧ h'.store.cancelled = [] ∧
      h'.store.index.Remnant policy root := by
  have settled : h.Settled := by
    refine ⟨fun r => ?_, fresh.roots ▸ Roots.apart_empty⟩
    simp [fresh.roots]
  have planned : h.roots.plan root = .start [] := by
    rw [fresh.roots]
    rfl
  have active := settled.active_of_failure failed hard
  have again : ∃ subsumed, h'.roots.plan root = .start subsumed := by
    rcases (settled.done failed).plan_cases root with ⟨above, _, member, _⟩ | again
    · rw [Std.ExtTreeMap.mem_iff_isSome_getElem?, active above] at member
      simp [fresh.roots] at member
    · exact ⟨_, again⟩
  refine ⟨again, ?_⟩
  cases failed with
  | watch served =>
    obtain ⟨s, result, crawled, host, _⟩ := served.of_start planned
    obtain ⟨quiet, _⟩ := Host.finishWatch_keeps root h.store.nextGeneration result s.remarks
      ⟨s.store, h.roots.reserve root h.store.nextGeneration⟩
    rw [← host] at quiet
    refine ⟨?_, ?_⟩
    · rw [quiet.cancelled, crawled.edits.generations.1]
      exact fresh.cancelled
    · rw [quiet.index]
      cases crawled with
      | failed _ _ before _ =>
        rw [before.index]
        exact fresh.index ▸ Index.remnant_empty name policy root
      | crawled world status opened admitted told directory before served =>
        have lists : ∀ world', world'.OnDisk → (namedSite policy root world).ListsIn world' :=
          fun _ => listsIn_of_onDisk plain world
        have live : opened.isStale h.store.nextGeneration = false := by
          simp [Store.isStale, before.cancelled, fresh.cancelled]
        have start := @Crawl.exposed_start (namedSite policy root world) World.OnDisk
          (firstCrawl policy h.store.nextGeneration) { store := opened } world status name
          (lists world admitted) rfl live (before.index.trans fresh.index)
          ⟨[], (Path.descend_nil root).symm, by simp⟩ directory
        have ended := served.exposed lists rfl start
        exact remnant_of_told plain world ended.sound ended.told

/-- A dependable index is one that is right where nothing has changed. -/
theorem dependable_iff {site : Site} {now : Index} (agrees : ∀ p, Agrees site now p) :
    Dependable site ix ↔ ix.RightWhereUnchanged now := by
  have same : ∀ p, Agrees site ix p ↔ ix.status? p = now.status? p := by
    intro p
    constructor
    · exact fun right => Option.ext fun st => (right st).trans (agrees p st).symm
    · exact fun equal => (agrees p).congr equal
  simp only [Dependable, PassedOver, same]
  constructor
  · intro right p st st' found found' kind mtime
    obtain ⟨own, entries⟩ := right p ⟨st, st', found, (agrees p st').1 found', kind, mtime⟩
    exact ⟨Option.some.inj (found.symm.trans (own.trans found')), entries⟩
  · rintro right p ⟨st, st', found, wants, kind, mtime⟩
    have found' := (agrees p st').2 wants
    obtain ⟨rfl, entries⟩ := right p st st' found found' kind mtime
    exact ⟨found.trans found'.symm, entries⟩

end

/-- A first watch on a fresh host fails for another reason than its remarks, while the disk changes
in any way between two questions.  Then the disk is at rest, and a second watch does not fail.  The
directories, files and listings are those of a watch on a fresh host, exactly if the first watch has
left an index that is right wherever the kind and the time of an entry are what they are now. -/
theorem retry_heals_iff (policy : Policy) (root : Path) (d : Disk) (tree : Node)
    (carries : d.Carries root tree) (h₀ h₁ h₂ h h' : Host)
    (fresh₀ : h₀.Fresh policy.layout.manifestName) (fresh : h.Fresh policy.layout.manifestName)
    (e : IndexError) (hard : ∀ spelling found, e ≠ .diagnostics spelling found)
    (failed : (Errand.watch root (.error e)).Done policy World.OnDisk h₀ h₁)
    (world world' : World) (reads : world.Reads d) (reads' : world'.Reads d)
    (result result' : Except IndexError Unit)
    (retried : (Errand.watch root result).Done policy (· = world) h₁ h₂)
    (mild : (Errand.watch root result).Mild)
    (anew : (Errand.watch root result').Done policy (· = world') h h')
    (mild' : (Errand.watch root result').Mild) :
    (h₂.store.index.files = h'.store.index.files ∧
        h₂.store.index.directories = h'.store.index.directories ∧
        h₂.store.index.listings = h'.store.index.listings) ↔
      h₁.store.index.RightWhereUnchanged h'.store.index := by
  have started : h.roots.plan root = .start [] := by
    rw [fresh.roots]
    rfl
  obtain ⟨sound', anew⟩ := watch_agrees_iff carries reads' started fresh.cancelled
    (fresh.index ▸ Index.remnant_empty _ policy root) anew mild'
  have right : ∀ p, Agrees (d.site policy root) h'.store.index p := by
    refine anew.2 fun p ⟨st, _, found, _⟩ => ?_
    simp [fresh.index, Index.empty, Index.status?] at found
  obtain ⟨⟨subsumed, planned⟩, live, remnant⟩ :=
    remnant_of_failure carries.plain fresh₀ failed hard
  obtain ⟨sound, retried⟩ := watch_agrees_iff carries reads planned live remnant retried mild
  rw [← dependable_iff right, ← retried]
  constructor
  · rintro ⟨files, directories, _⟩ p
    refine (right p).congr ?_
    rw [Index.status?, Index.status?, files, directories]
  · intro agrees
    refine sound.tables_eq sound' fun p => Option.ext fun st => ?_
    exact (agrees p st).trans (right p st).symm

def packageWith (time : Int) (inner : Node) : Node :=
  .directory time
    [(.ofString "d", inner), (.ofString "e", .directory 0 [(.ofString "y.js", .file 0 [])])]

/-- The package with `d` as a directory that holds a file. -/
def wholePackage (time : Int) : Node :=
  packageWith time (.directory time [(.ofString "x.js", .file 0 [])])

/-- The disk that holds a package as `/a`. -/
def packageDisk (package : Node) : Disk where
  root := .directory 0 [(.ofString "a", package)]

def packageRoot : Path :=
  Path.root.descend [.ofString "a"]

def unwatched : Host where
  store := .empty (.ofString "package.json") .recursive

/-- The host after a watch on `/a`, where `d` had become a file when it was listed. -/
def brokenOff : Host :=
  (serve (.ofSettings {}) (unwatched.watch packageRoot)
    (List.replicate 7 (.ofDisk (packageDisk (wholePackage 0))) ++
      List.replicate 7 (.ofDisk (packageDisk (packageWith 0 (.file 0 [])))))).1

def watchedOn (package : Node) (h : Host) : Host :=
  (serve (.ofSettings {}) (h.watch packageRoot)
    (List.replicate 16 (.ofDisk (packageDisk package)))).1

theorem brokenOff_done : (Errand.watch packageRoot
    (.error (.io (packageRoot.descend [.ofString "d"]).spelling .notADirectory))).Done
      (.ofSettings {}) World.OnDisk unwatched brokenOff := by
  refine .watch (.of_serve (fun world member => ?_) ?_)
  · rcases List.mem_append.1 member with early | late
    · rw [List.eq_of_mem_replicate early]
      exact ⟨_, by decide +kernel, World.reads_ofDisk _⟩
    · rw [List.eq_of_mem_replicate late]
      exact ⟨_, by decide +kernel, World.reads_ofDisk _⟩
  · with_unfolding_all rfl

theorem watchedOn_done {package : Node} {h : Host}
    (answered : (serve (.ofSettings {}) (h.watch packageRoot)
      (List.replicate 16 (.ofDisk (packageDisk package)))).2 = .finished (.watched (.ok ()))) :
    (Errand.watch packageRoot (.ok ())).Done (.ofSettings {})
      (· = .ofDisk (packageDisk package)) h (watchedOn package h) :=
  .watch (.of_serve (fun _ member => List.eq_of_mem_replicate member) answered)

/-- Once `/a` and `d` have other times than before, a second watch finds what the first one missed;
`e` is as the first one left it. -/
theorem retry_heals_iff_touched :
    let healed := watchedOn (wholePackage 1000000) brokenOff
    let anew := watchedOn (wholePackage 1000000) unwatched
    brokenOff.store.index.allFiles.length = 1 ∧ anew.store.index.allFiles.length = 2 ∧
      healed.store.index.files = anew.store.index.files ∧
      healed.store.index.directories = anew.store.index.directories ∧
      healed.store.index.listings = anew.store.index.listings := by
  have carries : (packageDisk (wholePackage 1000000)).Carries packageRoot (wholePackage 1000000) :=
    .of_listing (by decide +kernel) (by decide +kernel) rfl rfl (by decide +kernel)
  refine ⟨by decide +kernel, by decide +kernel, ?_⟩
  exact (retry_heals_iff (.ofSettings {}) packageRoot _ _ carries unwatched brokenOff _
    unwatched _ ⟨rfl, rfl, rfl⟩ ⟨rfl, rfl, rfl⟩ _ (by simp) brokenOff_done _ _
    (World.reads_ofDisk _) (World.reads_ofDisk _) _ _
    (watchedOn_done (by with_unfolding_all rfl)) ⟨rfl, Or.inl rfl⟩
    (watchedOn_done (by with_unfolding_all rfl)) ⟨rfl, Or.inl rfl⟩).2 (by decide +kernel)

/-- Where they have the times that they had, the second watch succeeds and misses the file in `d`. -/
theorem retry_misses_file_in_registered_directory :
    (packageDisk (wholePackage 0)).Carries packageRoot (wholePackage 0) ∧
      ∃ h₁ h₂ h' : Host,
        (Errand.watch packageRoot
          (.error (.io (packageRoot.descend [.ofString "d"]).spelling .notADirectory))).Done
            (.ofSettings {}) World.OnDisk unwatched h₁ ∧
        (Errand.watch packageRoot (.ok ())).Done (.ofSettings {})
          (· = .ofDisk (packageDisk (wholePackage 0))) h₁ h₂ ∧
        (Errand.watch packageRoot (.ok ())).Done (.ofSettings {})
          (· = .ofDisk (packageDisk (wholePackage 0))) unwatched h' ∧
        h₂.store.index.allFiles = [packageRoot.descend [.ofString "e", .ofString "y.js"]] ∧
        h'.store.index.allFiles = [packageRoot.descend [.ofString "d", .ofString "x.js"],
          packageRoot.descend [.ofString "e", .ofString "y.js"]] := by
  refine ⟨.of_listing (by decide +kernel) (by decide +kernel) rfl rfl (by decide +kernel), brokenOff,
    watchedOn (wholePackage 0) brokenOff, watchedOn (wholePackage 0) unwatched, brokenOff_done,
    watchedOn_done (by with_unfolding_all rfl), watchedOn_done (by with_unfolding_all rfl), ?_, ?_⟩
  · decide +kernel
  · decide +kernel

end Watch

end ProjectIndex
