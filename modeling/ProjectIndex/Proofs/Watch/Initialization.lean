import ProjectIndex.Proofs.Crawl.Initializing
import ProjectIndex.Proofs.Watch.Newcomers
import ProjectIndex.Proofs.Watch.Settling

/-!
# When declared projects are initialized

Requests are made one after the other, on disks that may answer differently at every wait, and none of
them fails because of the disk.  A project whose root is a known directory is initialized exactly if a
crawl has entered its root, in the request that declared it or later.  A request that crawls the root
itself, or something above it, enters the root on the way to the file that declares the project.  But a
configuration file that is refreshed by itself declares the project without entering its root, and then
the project waits for a crawl of the root that need not ever come.
-/

namespace ProjectIndex.Watch

open Crawl (Going Passage Standing)

variable {policy : Policy} {admits : World → Prop} {h h' : Host} {errands : List Errand}

def Errand.path : Errand → Path
  | .watch root _ => root
  | .refresh path _ => path
  | .unwatch root _ => root

theorem Host.uneventful_foldl {α : Type} {f : Host → α → Host}
    (each : ∀ (h : Host) (a : α), h.store.Uneventful (f h a).store) (h : Host) (as : List α) :
    h.store.Uneventful (as.foldl f h).store := by
  induction as generalizing h with
  | nil => exact .refl _
  | cons a rest ih => exact (each h a).trans (ih (f h a))

theorem Host.uneventful_settle (h : Host) (root : Path) (g : Generation) (ok : Bool) :
    h.store.Uneventful (h.settle root g ok).store := by
  unfold Host.settle
  dsimp only
  split
  · exact .refl _
  · exact (Store.uneventful_log _ _).trans (Store.uneventful_releaseRoot _ _)
  · exact Host.uneventful_foldl (f := fun h r => h.update (·.releaseRoot r))
      (fun h r => Store.uneventful_releaseRoot h.store r)
      { h with roots := (h.roots.settle root g (ok && h.store.isLive g)).1 } _

theorem Host.uneventful_finishWatch (root : Path) (g : Generation) (result : Except IndexError Bool)
    (remarks : List Diagnostic) (h : Host) :
    h.store.Uneventful (Host.finishWatch root g result remarks h).1.store := by
  unfold Host.finishWatch
  split
  · exact ((h.uneventful_settle root g false).trans (Store.uneventful_closeRoot _ root)).trans
      (Store.uneventful_log _ _)
  · have settled := h.uneventful_settle root g true
    dsimp only
    split
    · exact settled.trans (Store.uneventful_log _ _)
    · refine .trans ?_ (Host.uneventful_foldl (fun h _ => Store.uneventful_log h.store _) _ remarks)
      exact settled.trans (Store.uneventful_log _ _)

theorem Host.uneventful_finishRefresh (path : Path) (result : Except IndexError Bool)
    (remarks : List Diagnostic) (h : Host) :
    h.store.Uneventful (Host.finishRefresh path result remarks h).1.store := by
  unfold Host.finishRefresh
  split
  · exact .refl _
  · split
    · exact .refl _
    · exact Host.uneventful_foldl (fun h _ => Store.uneventful_log h.store _) _ remarks

theorem Host.uneventful_watch (root : Path) (h : Host) :
    h.store.Uneventful (h.watch root).1.store := by
  unfold Host.watch
  split
  · exact Store.uneventful_log _ _
  · exact Store.uneventful_log _ _
  · exact Store.uneventful_log _ _
  next subsumed planned =>
    have reserved : h.store.Uneventful
        { h.store with nextGeneration := h.store.nextGeneration + 1 } :=
      ⟨fun _ => rfl, rfl, (Store.Uneventful.refl h.store).index⟩
    have released : ∀ (h : Host) (r : Path), h.store.Uneventful
        ((h.log (line .debug "subsumed" (r.display ++ " by " ++ root.display))).update
          (·.releaseRoot r)).store := by
      intro h r
      have logged := h.store.uneventful_log
        (line .debug "subsumed" (r.display ++ " by " ++ root.display))
      exact logged.trans (Store.uneventful_releaseRoot _ r)
    exact reserved.trans (Host.uneventful_foldl released
      { store := { h.store with nextGeneration := h.store.nextGeneration + 1 }
        roots := h.roots.reserve root h.store.nextGeneration } subsumed)

theorem Host.uneventful_unwatch (root : Path) (h : Host) :
    h.store.Uneventful (h.unwatch root).1.store := by
  unfold Host.unwatch
  split
  · exact .refl _
  next roots ended _ _ =>
    have cancelled : h.store.Uneventful (ended.foldl Store.cancel h.store) := by
      rw [Store.foldl_cancel]
      exact ⟨fun _ => rfl, rfl, (Store.Uneventful.refl h.store).index⟩
    have closed := cancelled.trans (Store.uneventful_closeRoot _ root)
    exact (closed.trans (Store.uneventful_evict _ root)).trans (Store.uneventful_log _ _)

/-- A watch that waits for the status of its root, in a live generation, and does not fail because of the
disk. -/
theorem Served.passage_looking {root : Path} {g : Generation} {result : Except IndexError Unit}
    (served : Served policy admits (h, .waiting (.looking root g)) h' (.watched result))
    (fine : ¬ (Errand.watch root result).FailsByDisk) (lists : ∀ world, admits world → world.ListsOnce)
    (absolute : root.isAbsolute = true) (live : h.store.isStale g = false) (filed : h.store.index.Filed)
    (d : Path) : ∃ dirs, Passage root d h.store h'.store dirs := by
  have asked : h.store.Uneventful (h.store.askRoot root) := Store.uneventful_emit rfl h.store
  rcases served.opened with ⟨e, k, _, same, failed⟩ |
    ⟨world, status, s, ends, _, _, _, crawled, host, answer⟩
  · cases failed
    have finished := Host.uneventful_finishWatch root g (.error e) [] k
    rcases same with rfl | rfl
    · exact ⟨[], .of_uneventful filed finished⟩
    · exact ⟨[], .of_uneventful filed (asked.trans finished)⟩
  · have opened := asked.trans (Store.uneventful_rootTaken _ root)
    have quiet := (Store.quiet_askRoot h.store root).trans (Store.quiet_rootTaken _ root)
    have still := (quiet.isStale g).trans live
    have finished := Host.uneventful_finishWatch root g ends s.remarks ⟨s.store, h.roots⟩
    rw [← host] at finished
    cases ends with
    | ok changed =>
      obtain ⟨dirs, passage⟩ := crawled.passage_directory rfl lists absolute still
        (opened.index filed).1 d
      exact ⟨dirs, passage.between filed opened finished⟩
    | error e =>
      have added := @Crawl.edits_addDirectory (firstCrawl policy g) root status
        { store := (h.store.askRoot root).rootTaken root }
      obtain ⟨path, cause, rfl⟩ := crawled.failure ((added.isStale _).trans still)
        fun e => Crawl.not_failed_addDirectory still
      obtain rfl := Reply.watched.inj answer
      exact absurd ⟨_, rfl, IndexError.isOfDisk_withDiagnostics _ _⟩ fine

/-- A refresh in a live generation that does not fail because of the disk. -/
theorem Served.passage_refresh {p : Path} {result : Except IndexError Bool}
    (served : Served policy admits (h.refresh policy p) h' (.refreshed result))
    (fine : ¬ (Errand.refresh p result).FailsByDisk) (lists : ∀ world, admits world → world.ListsOnce)
    (sound : ∀ g, h.roots.generationFor p = some g → h.store.isStale g = false ∧ p.isAbsolute = true)
    (filed : h.store.index.Filed) (d : Path) : ∃ dirs, Passage p d h.store h'.store dirs := by
  rcases served.refreshed with ⟨line, logged⟩ | ⟨g, s, ends, covered, _, crawled, host, answer⟩
  · rw [logged]
    exact ⟨[], .of_uneventful filed (Store.uneventful_log _ _)⟩
  · obtain ⟨live, absolute⟩ := sound g covered
    have finished := Host.uneventful_finishRefresh p ends s.remarks ⟨s.store, h.roots⟩
    rw [← host] at finished
    cases ends with
    | ok changed =>
      obtain ⟨dirs, passage⟩ := crawled.passage_entry rfl lists absolute live filed d
      exact ⟨dirs, passage.between filed (.refl _) finished⟩
    | error e =>
      rw [@Crawl.addEntry_outcome (refreshCrawl policy g) { store := h.store } live] at crawled
      obtain ⟨path, cause, rfl⟩ := crawled.failure live fun e => by rintro ⟨⟩
      obtain rfl := Reply.refreshed.inj answer
      exact absurd ⟨_, rfl, IndexError.isOfDisk_withDiagnostics _ _⟩ fine

/-- The roots that cover a path between two requests are absolute and their generations are live. -/
theorem History.sound (history : History policy admits errands h)
    (absolute : ∀ root result, .watch root result ∈ errands → root.isAbsolute = true) {p : Path}
    {g : Generation} (covered : h.roots.generationFor p = some g) :
    h.store.isStale g = false ∧ p.isAbsolute = true := by
  obtain ⟨root, pending | active, covers⟩ := Roots.generationFor_eq_some covered
  · exact absurd (Std.ExtTreeMap.mem_iff_isSome_getElem?.2 (by simp [pending]))
      (history.settled.idle root)
  · have member : root ∈ h.roots.active := Std.ExtTreeMap.mem_iff_isSome_getElem?.2 (by simp [active])
    obtain ⟨g', found, live⟩ := history.generation member covers
    cases covered.symm.trans found
    exact ⟨live, covers.isAbsolute (history.absolute absolute root member)⟩

/-- What a request that does not fail because of the disk means for a directory. -/
theorem Errand.Done.passage {errand : Errand} (done : errand.Done policy admits h h')
    (history : History policy admits errands h) (fine : ¬ errand.FailsByDisk)
    (lists : ∀ world, admits world → world.ListsOnce)
    (absolute : ∀ root result, .watch root result ∈ errand :: errands → root.isAbsolute = true)
    (d : Path) : ∃ dirs, Passage errand.path d h.store h'.store dirs := by
  have filed := history.shelved.1
  have earlier : ∀ root result, .watch root result ∈ errands → root.isAbsolute = true :=
    fun root result member => absolute root result (List.mem_cons_of_mem _ member)
  cases done with
  | @watch _ _ root result served =>
    have before := Host.uneventful_watch root h
    rcases h.watch_cases root with ⟨_, _, idle⟩ | ⟨_, _, quiet, _, starts⟩
    · rcases history.settled.plan_cases root with ⟨above, planned, _, _⟩ | planned
      · simp only [Host.watch, planned] at served
        cases served
        exact ⟨[], .of_uneventful filed (Store.uneventful_log _ _)⟩
      · simp [Host.watch, planned, Progress.duty?, Call.duty?] at idle
    · rw [show h.watch root = ((h.watch root).1, .waiting (.looking root h.store.nextGeneration)) from
        Prod.ext rfl starts] at served
      have live := (quiet.isStale h.store.nextGeneration).trans history.live
      obtain ⟨dirs, passage⟩ := served.passage_looking fine lists (absolute root result (by simp)) live
        (before.index filed).1 d
      exact ⟨dirs, passage.between filed before (.refl _)⟩
  | refresh served =>
    exact served.passage_refresh fine lists (fun g covered => history.sound earlier covered) filed d
  | unwatch _ root => exact ⟨[], .of_uneventful filed (Host.uneventful_unwatch root h)⟩

/-- The request `errand`, made of the host `start`, declared the project with this root, and it is among
the requests that brought the host to where it is. -/
inductive Declares (policy : Policy) (admits : World → Prop) (root : Path) (errand : Errand)
    (start : Host) : List Errand → Host → Prop where
  | now {errands : List Errand} {h : Host} (before : History policy admits errands start)
      (done : errand.Done policy admits start h) (fresh : start.store.projects.get? root = none)
      (declared : h.store.projects.get? root ≠ none) :
      Declares policy admits root errand start (errand :: errands) h
  | later {errands : List Errand} {next : Errand} {h h' : Host}
      (earlier : Declares policy admits root errand start errands h)
      (done : next.Done policy admits h h') : Declares policy admits root errand start (next :: errands) h'

theorem Declares.history {root : Path} {errand : Errand} {start : Host}
    (declares : Declares policy admits root errand start errands h) : History policy admits errands h := by
  induction declares with
  | now before done _ _ => exact .next before done
  | later _ done ih => exact .next ih done

theorem stage?_eq_none {ps : Projects} {root : Path} : ps.stage? root = none ↔ ps.get? root = none := by
  simp [Projects.stage?]

/-- Every project was declared by some request. -/
theorem History.declares (history : History policy admits errands h) {root : Path}
    (declared : h.store.projects.get? root ≠ none) :
    ∃ errand start, Declares policy admits root errand start errands h := by
  induction history with
  | fresh name style => exact absurd (by simp [Store.empty, Projects.get?]) declared
  | @next errands h h' errand before done ih =>
    by_cases fresh : h.store.projects.get? root = none
    · exact ⟨errand, h, .now before done fresh declared⟩
    · obtain ⟨errand', start, earlier⟩ := ih fresh
      exact ⟨errand', start, .later earlier done⟩

/-- How the directories that were entered since the request that declared a project was made decide on
the project. -/
theorem Declares.entered {root : Path} {errand : Errand} {start : Host}
    (declares : Declares policy admits root errand start errands h)
    (lists : ∀ world, admits world → world.ListsOnce)
    (absolute : ∀ root result, .watch root result ∈ errands → root.isAbsolute = true)
    (fine : ∀ errand ∈ errands, ¬ errand.FailsByDisk) :
    ∃ dirs, h.store.entered = dirs ++ start.store.entered ∧
      h.store.projects.stage? root ≠ none ∧
      (root ∈ dirs → h.store.Ready root) ∧
      (root ∉ dirs → h.store.projects.stage? root = some false) ∧
      (errand.path.Covers root → root ∈ dirs) := by
  induction declares with
  | @now errands h before done fresh declared =>
    obtain ⟨dirs, passage⟩ := done.passage before (fine errand (by simp)) lists absolute root
    have fresh : start.store.projects.stage? root = none := stage?_eq_none.2 fresh
    have declared : h.store.projects.stage? root ≠ none := mt stage?_eq_none.1 declared
    have apart : root ∉ dirs →
        h.store.projects.stage? root = some false ∧ ¬ errand.path.Covers root := by
      intro out
      rcases passage.stage out with same | ⟨_, waits, apart⟩
      · exact absurd (same.trans fresh) declared
      · exact ⟨waits, apart⟩
    refine ⟨dirs, passage.entered, declared, passage.ready, fun out => (apart out).1, ?_⟩
    intro covers
    by_contra out
    exact (apart out).2 covers
  | @later errands next h h' earlier done ih =>
    obtain ⟨dirs, entered, declared, ready, waits, within⟩ :=
      ih (fun root result member => absolute root result (List.mem_cons_of_mem _ member))
        fun errand member => fine errand (List.mem_cons_of_mem _ member)
    obtain ⟨more, passage⟩ := done.passage earlier.history (fine next (by simp)) lists absolute root
    have kept : root ∉ more → h'.store.projects.stage? root = h.store.projects.stage? root := by
      intro out
      rcases passage.stage out with same | ⟨fresh, _⟩
      · exact same
      · exact absurd fresh declared
    refine ⟨more ++ dirs, ?_, passage.kept declared, ?_, ?_, ?_⟩
    · rw [passage.entered, entered, List.append_assoc]
    · intro member known
      by_cases now : root ∈ more
      · exact passage.ready now known
      · rw [kept now]
        exact ready ((List.mem_append.1 member).resolve_left now) (passage.known now known)
    · intro out
      rw [kept fun now => out (List.mem_append_left dirs now)]
      exact waits fun before => out (List.mem_append_right more before)
    · exact fun covers => List.mem_append_right more (within covers)

/-- Any requests, one after the other, none of which fails because of the disk, in worlds that may answer
differently at every wait as long as they list the entries of a directory once; and a project whose root is
a known directory.  Some request declared it, and it is initialized exactly if its root was entered in that
request or later.  It was entered, and so the project is initialized, if the path of that request is the
root or above it. -/
theorem initialized_iff_entered (policy : Policy) (admits : World → Prop)
    (lists : ∀ world, admits world → world.ListsOnce) (errands : List Errand) (h : Host)
    (history : History policy admits errands h)
    (absolute : ∀ root result, .watch root result ∈ errands → root.isAbsolute = true)
    (fine : ∀ errand ∈ errands, ¬ errand.FailsByDisk) (root : Path) (P : Project)
    (declared : h.store.projects.get? root = some P) (known : root ∈ h.store.index.directories) :
    ∃ errand start dirs, Declares policy admits root errand start errands h ∧
      h.store.entered = dirs ++ start.store.entered ∧ (P.initialized = true ↔ root ∈ dirs) ∧
      (errand.path.Covers root → P.initialized = true) := by
  have found : h.store.projects.get? root ≠ none := by simp [declared]
  obtain ⟨errand, start, declares⟩ := history.declares found
  obtain ⟨dirs, entered, _, ready, waits, within⟩ := declares.entered lists absolute fine
  have stage : h.store.projects.stage? root = some P.initialized := by
    simp [Projects.stage?, declared]
  have decided : P.initialized = true ↔ root ∈ dirs := by
    constructor
    · intro complete
      by_contra out
      cases (complete ▸ stage).symm.trans (waits out)
    · intro member
      by_contra open'
      have still := ready member known
      rw [stage, eq_false_of_ne_true open'] at still
      exact still rfl
  exact ⟨errand, start, dirs, declares, entered, decided, fun covers => decided.2 (within covers)⟩

def config : Name × Node :=
  (.ofString "projfs.json", .file 0 [])

/-- A host that watched `/w` while these were its entries. -/
def watchedWith (entries : List (Name × Node)) : Host :=
  let fresh : Host := { store := .empty (.ofString "package.json") .recursive }
  (serve (.ofSettings {}) (fresh.watch ⟨[.root, .name (.ofString "w")]⟩)
    (List.replicate 10 (.ofDisk (diskWith entries)))).1

/-- The project of `/w`, which was entered on the way to the configuration file. -/
theorem initialized_iff_entered_configured :
    ∃ (P : Project) (errand : Errand) (start : Host) (dirs : List Path),
      (watchedWith [config]).store.projects.get?
        ⟨[.root, .name (.ofString "w")]⟩ = some P ∧ P.initialized = true ∧
      Declares (.ofSettings {}) World.ListsOnce ⟨[.root, .name (.ofString "w")]⟩ errand start
        [.watch ⟨[.root, .name (.ofString "w")]⟩ (.ok ())]
        (watchedWith [config]) ∧
      ⟨[.root, .name (.ofString "w")]⟩ ∈ dirs := by
  have history : History (.ofSettings {}) World.ListsOnce
      [.watch ⟨[.root, .name (.ofString "w")]⟩ (.ok ())]
      (watchedWith [config]) := by
    refine .next (.fresh (.ofString "package.json") .recursive)
      (.watch (.of_serve (World.listsOnce_replicate (by decide) 10) ?_))
    with_unfolding_all rfl
  have declared : (watchedWith [config]).store.projects.get?
      ⟨[.root, .name (.ofString "w")]⟩ =
        some ⟨⟨1, by decide⟩, ⟨[.root, .name (.ofString "w")]⟩, true, []⟩ := by
    decide +kernel
  obtain ⟨errand, start, dirs, declares, _, decided, _⟩ :=
    initialized_iff_entered (.ofSettings {}) World.ListsOnce (fun _ lists => lists) _ _ history
      (by simp [Path.isAbsolute]) (by simp [Errand.FailsByDisk]) _ _ declared (by decide +kernel)
  exact ⟨_, errand, start, dirs, declared, rfl, declares, decided.1 rfl⟩

/-- `/w` was watched while it was empty, and then its configuration file was refreshed by itself. -/
def configuredLate : Host :=
  (serve (.ofSettings {})
    ((watchedWith []).refresh (.ofSettings {}) (.ofSpelling (.ofString "/w/projfs.json")))
    (List.replicate 10 (.ofDisk (diskWith [config])))).1

/-- A project need not be initialized when its root is known, though no request has failed and nothing
was withdrawn. -/
theorem config_refreshed_alone_leaves_project :
    ¬ ∀ (policy : Policy) (errands : List Errand) (h : Host),
      (∀ root found, .unwatch root found ∉ errands) → (∀ errand ∈ errands, ¬ errand.FailsByDisk) →
      History policy World.ListsOnce errands h → ∀ (root : Path) (P : Project),
        h.store.projects.get? root = some P → root ∈ h.store.index.directories →
        P.initialized = true := by
  intro claim
  have watched : History (.ofSettings {}) World.ListsOnce
      [.watch ⟨[.root, .name (.ofString "w")]⟩ (.ok ())] (watchedWith []) := by
    refine .next (.fresh (.ofString "package.json") .recursive)
      (.watch (.of_serve (World.listsOnce_replicate (by decide) 10) ?_))
    with_unfolding_all rfl
  have refreshed : (Errand.refresh (.ofSpelling (.ofString "/w/projfs.json")) (.ok true)).Done
      (.ofSettings {}) World.ListsOnce (watchedWith []) configuredLate := by
    refine .refresh (.of_serve (World.listsOnce_replicate (by decide) 10) ?_)
    with_unfolding_all rfl
  have declared : configuredLate.store.projects.get? ⟨[.root, .name (.ofString "w")]⟩ =
      some ⟨⟨1, by decide⟩, ⟨[.root, .name (.ofString "w")]⟩, false, []⟩ := by
    decide +kernel
  have complete := claim (.ofSettings {}) _ configuredLate (by simp) (by simp [Errand.FailsByDisk])
    (watched.next refreshed) _ _ declared (by decide +kernel)
  cases complete

end ProjectIndex.Watch
