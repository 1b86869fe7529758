import ProjectIndex.Proofs.Crawl.Bearing
import ProjectIndex.Proofs.Disk.Walk
import ProjectIndex.Proofs.Store.Delivery
import ProjectIndex.Proofs.Watch.Histories
import ProjectIndex.Proofs.Watch.Withdrawal

/-!
# The notices are a journal of the files

Watches and refreshes, one after the other, each of them served to its end while the disk changes in
any way between two questions.  As long as none of them fails for another reason than its remarks,
whoever has read the notices from the start knows the files of the index after each request, and no
notice ever contradicts what was known before.

A request that fails is another matter: it may have registered a file that nobody announces.  And a
withdrawal forgets files without a notice.
-/

namespace ProjectIndex

/-- A disk with tidy names lists each entry once. -/
theorem World.listsOnce_ofDisk {d : Disk} (tidy : d.isTidy = true) : (World.ofDisk d).ListsOnce := by
  have listed : ∀ (dir : Path) (cs : List Path), (World.ofDisk d).children dir = .ok cs →
      ∃ names : List Name, names.Nodup ∧ cs = names.map dir.child := by
    intro dir cs told
    simp only [World.ofDisk, Disk.children, Disk.names] at told
    cases found : d.node true dir.spelling with
    | error e => simp [found, bind, Except.bind] at told
    | ok node =>
      obtain ⟨place, _, node_at⟩ := Disk.node_eq_ok.1 found
      cases node with
      | directory time es =>
        simp only [found, bind, Except.bind, pure, Except.pure, Except.ok.injEq] at told
        refine ⟨es.map (·.1), ?_, told.symm⟩
        simp only [Disk.isTidy, Bool.and_eq_true] at tidy
        exact (Node.tidy_directory (Node.tidy_get? tidy.2 node_at).1).1
      | file | link | pipe =>
        simp [found, bind, Except.bind, throw, throwThe, MonadExceptOf.throw] at told
  constructor
  · intro dir cs absolute told
    obtain ⟨names, distinct, rfl⟩ := listed dir cs told
    refine distinct.map fun m n same => ?_
    have named : dir.components ≠ [.current] := by
      intro relative
      simp [Path.isAbsolute, relative] at absolute
    simpa [Path.child, named] using same
  · intro dir cs absolute told c member
    obtain ⟨names, _, rfl⟩ := listed dir cs told
    obtain ⟨n, _, rfl⟩ := List.mem_map.1 member
    exact Path.parent_child n absolute

theorem World.listsOnce_replicate {d : Disk} (tidy : d.isTidy = true) (n : Nat) :
    ∀ world ∈ List.replicate n (World.ofDisk d), world.ListsOnce := by
  intro world member
  rw [List.eq_of_mem_replicate member]
  exact World.listsOnce_ofDisk tidy

namespace Watch

open Crawl (Journalled)

/-- A first crawl that ends well keeps the journal. -/
theorem Crawled.journalled {policy : Policy} {admits : World → Prop} {root : Path} {g : Generation}
    {store : Store} {s : Scope} {changed : Bool}
    (crawled : Crawled policy admits root g store s (.ok changed))
    (lists : ∀ world, admits world → world.ListsOnce) (live : store.cancelled = [])
    (absolute : root.isAbsolute = true) (journal : Journalled store fun _ => False) :
    Journalled s.store fun _ => False := by
  cases crawled with
  | failed cause hard quiet failure => cases failure
  | crawled world status opened admitted told directory quiet served =>
    have still : opened.isStale g = false := by simp [Store.isStale, quiet.cancelled, live]
    have added := @Crawl.edits_addDirectory (firstCrawl policy g) root status { store := opened }
    exact served.journalled lists ((added.isStale _).trans still) absolute
      (Crawl.continues_addDirectory (journal.quiet quiet) root status)

/-- What holds of a host between two mild requests. -/
structure Host.Chronicled (h : Host) : Prop where
  settled : h.Settled
  live : h.store.cancelled = []
  absolute : ∀ r ∈ h.roots.active, r.isAbsolute = true
  journal : Journalled h.store fun _ => False

theorem chronicled_fresh (name : Name) (style : Backend.Style) :
    Host.Chronicled { store := .empty name style } where
  settled := ⟨fun r => by simp, Roots.apart_empty⟩
  live := rfl
  absolute r member := by simp at member
  journal := by
    refine ⟨∅, rfl, fun p => ?_, by simp, by simp, Index.filed_empty name⟩
    simp [Store.empty, Index.empty]

namespace Host.Chronicled

variable {policy : Policy} {admits : World → Prop} {h h' : Host}

theorem of_quiet (chronicled : h.Chronicled) (settled : h'.Settled) (quiet : h.store.Quiet h'.store)
    (roots : h'.roots = h.roots) : h'.Chronicled where
  settled := settled
  live := quiet.cancelled.trans chronicled.live
  absolute := roots ▸ chronicled.absolute
  journal := chronicled.journal.quiet quiet

/-- A watch that starts and does not fail keeps the journal. -/
theorem watch (chronicled : h.Chronicled) (settled : h'.Settled) {root : Path}
    {result : Except IndexError Unit} (lists : ∀ world, admits world → world.ListsOnce)
    (planned : h.roots.plan root = .start (h.roots.activeBelow root))
    (served : Served policy admits (h.watch root) h' (.watched result))
    (mild : (Errand.watch root result).Mild) : h'.Chronicled := by
  obtain ⟨s, crawl, crawled, host, answer⟩ := served.of_start planned
  have mildly := Reply.watched.inj answer ▸ mild.2
  obtain ⟨changed, rfl⟩ : ∃ changed, crawl = .ok changed :=
    crawl_ok_of_watch (fun e spelling found failed =>
      (failed ▸ crawled).hard (by simp [Store.isStale, chronicled.live]) spelling found) mildly
  have journal := crawled.journalled lists chronicled.live mild.1
    (chronicled.journal.calm ⟨rfl, rfl, id⟩)
  obtain ⟨quiet, roots⟩ := Host.finishWatch_keeps root h.store.nextGeneration (.ok changed) s.remarks
    ⟨s.store, h.roots.reserve root h.store.nextGeneration⟩
  rw [← host] at quiet roots
  refine ⟨settled, ?_, fun r member => ?_, journal.quiet quiet⟩
  · rw [quiet.cancelled, crawled.edits.generations.1]
    exact chronicled.live
  · have active := (chronicled.settled.finish_reserved planned h.store.nextGeneration
      ((Except.ok changed : Except IndexError Bool).isOk && s.store.isLive h.store.nextGeneration)
      (Except.ok changed : Except IndexError Bool).isOk).2.2 r
    rw [Std.ExtTreeMap.mem_iff_isSome_getElem?, roots, active] at member
    split at member
    next own => exact own.2 ▸ mild.1
    · split at member
      · cases member
      · exact chronicled.absolute r (Std.ExtTreeMap.mem_iff_isSome_getElem?.2 member)

/-- A refresh that does not fail keeps the journal. -/
theorem refresh (chronicled : h.Chronicled) (settled : h'.Settled) {path : Path}
    {result : Except IndexError Bool} (lists : ∀ world, admits world → world.ListsOnce)
    (served : Served policy admits (h.refresh policy path) h' (.refreshed result))
    (mild : (Errand.refresh path result).Mild) : h'.Chronicled := by
  rcases served.of_refresh with ⟨quiet, roots⟩ | ⟨g, s, crawl, covered, _, crawled, host, answer⟩
  · exact chronicled.of_quiet settled quiet roots
  · have live : h.store.isStale g = false := by simp [Store.isStale, chronicled.live]
    rw [Crawl.addEntry_outcome live] at crawled
    obtain ⟨changed, rfl⟩ : ∃ changed, crawl = .ok changed := by
      refine crawl_ok_of_refresh (fun e spelling found failed => ?_)
        (Reply.refreshed.inj answer ▸ mild)
      subst failed
      obtain ⟨_, _, rfl⟩ := crawled.failure live fun e => by rintro ⟨⟩
      simp
    have absolute : path.isAbsolute = true := by
      obtain ⟨r, pending | active, covers⟩ := Roots.generationFor_eq_some covered
      · exact absurd (Std.ExtTreeMap.mem_iff_isSome_getElem?.2 (by simp [pending]))
          (chronicled.settled.idle r)
      · exact covers.isAbsolute (chronicled.absolute r
          (Std.ExtTreeMap.mem_iff_isSome_getElem?.2 (by simp [active])))
    have journal := crawled.journalled lists live absolute
      (Crawl.continues_waiting (.entry path) (by simp) chronicled.journal)
    obtain ⟨quiet, roots⟩ := Host.finishRefresh_keeps path (.ok changed) s.remarks
      ⟨s.store, h.roots⟩
    rw [← host] at quiet roots
    refine ⟨settled, ?_, roots ▸ chronicled.absolute, journal.quiet quiet⟩
    rw [quiet.cancelled, crawled.edits.generations.1]
    exact chronicled.live

end Host.Chronicled

/-- After mild requests the notices are a journal of the files. -/
theorem History.chronicled {policy : Policy} {admits : World → Prop} {errands : List Errand}
    {h : Host} (history : History policy admits errands h)
    (lists : ∀ world, admits world → world.ListsOnce) (mild : ∀ errand ∈ errands, errand.Mild) :
    h.Chronicled := by
  induction history with
  | fresh name style => exact chronicled_fresh name style
  | next before done ih =>
    have chronicled := ih fun errand member => mild errand (by simp [member])
    have settled := chronicled.settled.done done
    have now := mild _ List.mem_cons_self
    cases done with
    | watch served =>
      rename_i root result
      rcases chronicled.settled.plan_cases root with ⟨above, planned, _, _⟩ | planned
      · obtain ⟨quiet, roots, _⟩ := Host.Settled.served_of_covered planned served
        exact chronicled.of_quiet settled quiet roots
      · exact chronicled.watch settled lists planned served now
    | refresh served => exact chronicled.refresh settled lists served now
    | unwatch h root => cases now

/-- After any watches and refreshes, each served to its end in worlds that may differ from one
question to the next, and none failing for another reason than its remarks: a subscriber from the
start, whose channel is large enough, gets a sequence of notices that can be replayed, and knows the
files of the index then. -/
theorem notices_replay_files (policy : Policy) (errands : List Errand) (h : Host)
    (history : History policy World.ListsOnce errands h) (mild : ∀ errand ∈ errands, errand.Mild)
    (capacity : Nat) (enough : h.store.notices.length ≤ capacity) :
    ∃ told known,
      ((h.store.notices.reverse.foldl Broadcast.send
        (Broadcast.create capacity).subscribe.1).drain 0).2 = told.map .message ∧
      Notice.replay told = some known ∧ ∀ p, p ∈ known ↔ p ∈ h.store.index.allFiles := by
  obtain ⟨known, journal⟩ := (history.chronicled (fun _ => id) mild).journal
  refine ⟨h.store.notices.reverse, known, ?_, journal.replayed, fun p => ?_⟩
  · exact Broadcast.drain_sent capacity _ (by simpa using enough)
  · simpa [Index.allFiles] using (journal.files p).symm

def oneFile (time : Int) : Disk where
  root := .directory 0 [([97], .directory 0 [([120, 46, 106, 115], .file time [])])]

/-- A host that watched `/a` and refreshed its file when the file had changed. -/
def changedOnce : Host :=
  let fresh : Host := { store := .empty [] .recursive }
  let watched := serve (.ofSettings {}) (fresh.watch ⟨[.root, .name [97]]⟩)
    (List.replicate 6 (.ofDisk (oneFile 0)))
  (serve (.ofSettings {}) (watched.1.refresh (.ofSettings {})
    ⟨[.root, .name [97], .name [120, 46, 106, 115]]⟩) [.ofDisk (oneFile 1000000)]).1

/-- A reader of the notices about `/a/x.js` knows that file. -/
theorem notices_replay_files_changed :
    changedOnce.store.notices = [.changed ⟨[.root, .name [97], .name [120, 46, 106, 115]]⟩
        ⟨.file, 0, 0⟩ ⟨.file, 0, 1⟩, .new ⟨[.root, .name [97], .name [120, 46, 106, 115]]⟩] ∧
      ∃ told known,
        ((changedOnce.store.notices.reverse.foldl Broadcast.send
          (Broadcast.create 2).subscribe.1).drain 0).2 = told.map .message ∧
        Notice.replay told = some known ∧ ∀ p, p ∈ known ↔ p ∈ changedOnce.store.index.allFiles := by
  refine ⟨by decide +kernel, ?_⟩
  have history : History (.ofSettings {}) World.ListsOnce
      [.refresh ⟨[.root, .name [97], .name [120, 46, 106, 115]]⟩ (.ok true),
        .watch ⟨[.root, .name [97]]⟩ (.ok ())] changedOnce := by
    refine .next (.next (.fresh [] .recursive) (.watch (.of_serve ?_ ?_)))
      (.refresh (.of_serve ?_ ?_))
    · intro world member
      rw [List.eq_of_mem_replicate member]
      exact World.listsOnce_ofDisk (by decide)
    · with_unfolding_all rfl
    · intro world member
      rw [List.mem_singleton.1 member]
      exact World.listsOnce_ofDisk (by decide)
    · with_unfolding_all rfl
  refine notices_replay_files _ _ changedOnce history ?_ 2 (by decide +kernel)
  simp [Errand.Mild, Path.isAbsolute]

end Watch

end ProjectIndex
