import ProjectIndex.Proofs.Crawl.Deeds
import ProjectIndex.Proofs.Watch.Failures
import ProjectIndex.Proofs.Watch.Replay

/-!
# Files and directories

A crawl that finds something else at a path than the index knows takes the old entry out before it
takes the new one in.  The first crawl of a root does not look: it registers its root as a directory
whatever the index knows of it.  As long as the root is new, or was known as a directory, nothing
comes of that.  But a file that an earlier watch has left behind, and that no active root covers any
more, can turn into a directory and be watched, and then it is both.

That is the only way.  Whatever requests are served, one after the other, and whatever the disk does
meanwhile, every status has the kind of its table, and each path that is a file and a directory at
once was watched at a time when it was known as a file and no active root covered it.
-/

namespace ProjectIndex.Watch

open Crawl (Deed)

variable {policy : Policy} {admits : World → Prop} {h h' : Host}

theorem Host.unwatch_index {root : Path} (found : (h.unwatch root).2 = true) :
    (h.unwatch root).1.store.index = (h.store.index.evict root).1 := by
  unfold Host.unwatch at found ⊢
  split at found
  · cases found
  · exact (forget_quiet root _ h.store).index

/-- A withdrawal that finds nothing leaves the host as it is. -/
theorem Host.unwatch_nothing {root : Path} (nothing : (h.unwatch root).2 = false) :
    (h.unwatch root).1 = h := by
  unfold Host.unwatch at nothing ⊢
  split at nothing
  · rfl
  · cases nothing

/-- What holds of an index with its new root, and is kept by each deed, holds at the end of a first
crawl. -/
theorem Crawled.index_keeps {root : Path} {g : Generation} {store : Store} {s : Scope}
    {result : Except IndexError Bool} (crawled : Crawled policy admits root g store s result)
    {P : Index → Prop}
    (each : ∀ ctx world task ix ix' next, Deed ctx world ix task ix' next → P ix → P ix')
    (opened : ∀ st : Status, st.kind = .directory →
      P (store.index.insertDirectory root st true).1)
    (start : P store.index) : P s.store.index := by
  cases crawled with
  | failed e hard quiet failure => rwa [quiet.index]
  | crawled world status taken admitted told directory quiet served =>
    refine served.index_keeps (each (firstCrawl policy g)) ?_
    cases stale : taken.isStale g with
    | true =>
      have edits := @Crawl.edits_addDirectory (firstCrawl policy g) root status { store := taken }
      rwa [(edits.quiet_of_stale stale).index, quiet.index]
    | false =>
      rcases @Crawl.addDirectory_outcome (firstCrawl policy g) { store := taken } stale root status
        with ⟨_, same, _⟩ | ⟨_, written, _⟩
      · rwa [same, quiet.index]
      · rw [written, quiet.index]
        exact opened status directory

/-- What a request does to the index: nothing, the first crawl of a root that no active root covers,
the crawl of a path below an active root, or an eviction. -/
inductive Errand.Rewrites (policy : Policy) (admits : World → Prop) (h h' : Host) :
    Errand → Prop where
  | same {errand : Errand} (index : h'.store.index = h.store.index) :
      Rewrites policy admits h h' errand
  | crawl {root : Path} {result : Except IndexError Unit} {s : Scope} {ends : Except IndexError Bool}
      (uncovered : ∀ r ∈ h.watched, ¬ r.Covers root)
      (crawled : Crawled policy admits root h.store.nextGeneration
        { h.store with nextGeneration := h.store.nextGeneration + 1 } s ends)
      (index : h'.store.index = s.store.index) : Rewrites policy admits h h' (.watch root result)
  | refresh {path : Path} {result : Except IndexError Bool} {g : Generation} {s : Scope}
      {ends : Except IndexError Bool} (covered : h.roots.generationFor path = some g)
      (known : (h.store.index.knows path || h.store.index.knowsParent path) = true)
      (served : Crawl.Served (refreshCrawl policy g) admits
        ((refreshCrawl policy g).addEntry path { store := h.store }) s ends)
      (index : h'.store.index = s.store.index) : Rewrites policy admits h h' (.refresh path result)
  | evict {root : Path} {found : Bool} (index : h'.store.index = (h.store.index.evict root).1) :
      Rewrites policy admits h h' (.unwatch root found)

theorem Errand.Done.rewrites {errand : Errand} (done : errand.Done policy admits h h')
    (settled : h.Settled) : errand.Rewrites policy admits h h' := by
  cases done with
  | watch served =>
    rename_i root result
    rcases settled.plan_cases root with ⟨above, planned, _, _⟩ | planned
    · obtain ⟨quiet, _, _⟩ := Host.Settled.served_of_covered planned served
      exact .same quiet.index
    · obtain ⟨s, ends, crawled, host, _⟩ := served.of_start planned
      have quiet := (Host.finishWatch_keeps root h.store.nextGeneration ends s.remarks
        ⟨s.store, h.roots.reserve root h.store.nextGeneration⟩).1
      rw [← host] at quiet
      refine .crawl (fun r watched => ?_) crawled quiet.index
      exact (Roots.plan_eq_start planned).2.1 r (Std.ExtTreeMap.mem_keys.1 watched)
  | refresh served =>
    rename_i path result
    rcases served.of_refresh with ⟨quiet, _⟩ | ⟨g, s, ends, covered, known, crawled, host, _⟩
    · exact .same quiet.index
    · have quiet := (Host.finishRefresh_keeps path ends s.remarks ⟨s.store, h.roots⟩).1
      rw [← host] at quiet
      exact .refresh covered known crawled quiet.index
  | unwatch h root =>
    cases found : (h.unwatch root).2 with
    | true => exact .evict (Host.unwatch_index found)
    | false => exact .same (by rw [Host.unwatch_nothing found])

/-- What is kept by each deed and each eviction, and by the roots of watches that start, is kept by a
request. -/
theorem Errand.Done.index_keeps {errand : Errand} (done : errand.Done policy admits h h')
    (settled : h.Settled) {P : Index → Prop}
    (each : ∀ ctx world task ix ix' next, Deed ctx world ix task ix' next → P ix → P ix')
    (opened : ∀ root result (st : Status), errand = .watch root result →
      (∀ r ∈ h.watched, ¬ r.Covers root) → st.kind = .directory →
      P (h.store.index.insertDirectory root st true).1)
    (evicted : ∀ ix root, P ix → P (ix.evict root).1) (start : P h.store.index) :
    P h'.store.index := by
  cases done.rewrites settled with
  | same index => rwa [index]
  | crawl uncovered crawled index =>
    rw [index]
    exact crawled.index_keeps each
      (fun st directory => opened _ _ st rfl uncovered directory) start
  | @refresh path _ g _ _ covered known served index =>
    rw [index]
    refine served.index_keeps (each (refreshCrawl policy g)) ?_
    unfold Crawl.Context.addEntry
    split <;> exact start
  | evict index =>
    rw [index]
    exact evicted _ _ start

/-- The requests that brought the host to where it is include a watch on the path, made when no active
root covered the path and the host was as it is said. -/
inductive WatchedWhile (policy : Policy) (admits : World → Prop) (holds : Host → Prop) (p : Path) :
    List Errand → Host → Prop where
  | now {errands : List Errand} {h h' : Host} {result : Except IndexError Unit}
      (before : History policy admits errands h) (uncovered : ∀ r ∈ h.watched, ¬ r.Covers p)
      (held : holds h) (done : (Errand.watch p result).Done policy admits h h') :
      WatchedWhile policy admits holds p (.watch p result :: errands) h'
  | later {errands : List Errand} {errand : Errand} {h h' : Host}
      (earlier : WatchedWhile policy admits holds p errands h)
      (done : errand.Done policy admits h h') :
      WatchedWhile policy admits holds p (errand :: errands) h'

theorem WatchedWhile.errand {holds : Host → Prop} {p : Path} {errands : List Errand} {h : Host}
    (watched : WatchedWhile policy admits holds p errands h) :
    ∃ result, Errand.watch p result ∈ errands := by
  induction watched with
  | now => exact ⟨_, List.mem_cons_self⟩
  | later _ _ ih => exact ih.imp fun result member => List.mem_cons_of_mem _ member

/-- After any requests kinds are right, and what is both a file and a directory was watched as a
file. -/
theorem History.kinded {errands : List Errand} (history : History policy admits errands h) :
    h.store.index.Filed ∧ h.store.index.Kinded fun p =>
      WatchedWhile policy admits (fun h => p ∈ h.store.index.files) p errands h := by
  induction history with
  | fresh name style => exact ⟨Index.filed_empty name, Index.kinded_empty name _⟩
  | @next errands h h' errand before done ih =>
    refine done.index_keeps before.settled
      (P := fun ix => ix.Filed ∧ ix.Kinded fun p =>
        WatchedWhile policy admits (fun h => p ∈ h.store.index.files) p (errand :: errands) h')
      (fun _ _ _ _ _ _ deed => deed.kinded) ?_
      (fun _ root kept => ⟨(kept.1.evict root).filed, kept.2.evict kept.1 root⟩) ?_
    · rintro root result st rfl uncovered directory
      refine ⟨ih.1.insertDirectory root st, (ih.2.mono ?_).insertDirectory directory ?_⟩
      · exact fun q earlier => .later earlier done
      · exact fun file => .now before uncovered file done
    · exact ⟨ih.1, ih.2.mono fun q earlier => .later earlier done⟩

/-- After any requests, each served to its end, failed or not, in worlds that may answer differently
at every wait: every status in the table of files is that of a file, every status in the table of
directories is that of a directory, and a path that is in both tables was watched, at some point of
the history, while it was in the table of files and no active root covered it. -/
theorem kinds_apart_unless_watched_as_file (policy : Policy) (admits : World → Prop)
    (errands : List Errand) (h : Host) (history : History policy admits errands h) (p : Path) :
    (∀ st : Status, h.store.index.files[p]? = some st → st.kind = .file) ∧
      (∀ st : Status, h.store.index.directories[p]? = some st → st.kind = .directory) ∧
      (p ∈ h.store.index.files → p ∈ h.store.index.directories →
        WatchedWhile policy admits (fun h => p ∈ h.store.index.files) p errands h) := by
  have kinded := history.kinded.2
  exact ⟨kinded.fileKind p, kinded.directoryKind p, kinded.apart p⟩

/-- A host that watched `/a` with its file `x.js`, and lost that root to a watch on `/` that was
refused. -/
def leftBehind : Host :=
  let fresh : Host := { store := .empty [] .recursive }
  let watched := serve (.ofSettings {}) (fresh.watch ⟨[.root, .name [97]]⟩)
    (List.replicate 6 (.ofDisk (oneFile 1000000)))
  (serve (.ofSettings {}) (watched.1.watch ⟨[.root]⟩)
    [System.directoriesEverywhere, subscriptionsRefused]).1

/-- The same host after a watch on `/a/x.js`, which is a directory by now. -/
def watchedAsFile : Host :=
  (serve (.ofSettings {}) (leftBehind.watch ⟨[.root, .name [97], .name [120, 46, 106, 115]]⟩)
    (List.replicate 4 System.directoriesEverywhere)).1

theorem watchedAsFile_history : History (.ofSettings {}) (fun _ => True)
    [.watch ⟨[.root, .name [97], .name [120, 46, 106, 115]]⟩ (.ok ()),
      .watch ⟨[.root]⟩ (.error (.watch (.pathFailed (Path.spelling ⟨[.root]⟩) "refused"))),
      .watch ⟨[.root, .name [97]]⟩ (.ok ())] watchedAsFile := by
  refine .next (.next (.next (.fresh [] .recursive) (.watch (.of_serve (fun _ _ => trivial) ?_)))
    (.watch (.of_serve (fun _ _ => trivial) ?_))) (.watch (.of_serve (fun _ _ => trivial) ?_))
  · with_unfolding_all rfl
  · with_unfolding_all rfl
  · with_unfolding_all rfl

/-- The watch on `/a/x.js` was made while it was known as a file. -/
theorem kinds_apart_unless_watched_as_file_left_behind :
    ∃ errands, WatchedWhile (.ofSettings {}) (fun _ => True)
      (fun h => ⟨[.root, .name [97], .name [120, 46, 106, 115]]⟩ ∈ h.store.index.files)
      ⟨[.root, .name [97], .name [120, 46, 106, 115]]⟩ errands watchedAsFile :=
  ⟨_, (kinds_apart_unless_watched_as_file _ _ _ _ watchedAsFile_history _).2.2 (by decide +kernel)
    (by decide +kernel)⟩

/-- A path can be a file and a directory at once. -/
theorem watched_file_becomes_both :
    ∃ errands h p, History (.ofSettings {}) (fun _ => True) errands h ∧
      h.store.index.isFile p = true ∧ h.store.index.isDirectory p = true :=
  ⟨_, watchedAsFile, ⟨[.root, .name [97], .name [120, 46, 106, 115]]⟩, watchedAsFile_history,
    by decide +kernel, by decide +kernel⟩

end ProjectIndex.Watch
