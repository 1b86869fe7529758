import ProjectIndex.Proofs.Crawl.Footprint
import ProjectIndex.Proofs.Watch.Forgetting
import ProjectIndex.Proofs.Watch.InForce

/-!
# Watching, refreshing and withdrawing is a round trip

A root of which the index knows nothing is watched, paths below it are refreshed, whatever the disk
does meanwhile, and then the root is withdrawn.  Nothing is left of it, and nothing else has changed:
the tables are what they were before.

There are two halves to it.  What the crawls write beyond the root is the membership of the root in the
listing of its parent and, if the root has become a manifest, the manifest of its parent; the eviction
of the root takes both back.  And what they write below the root stays connected to the root, so the
eviction comes to all of it.
-/

namespace ProjectIndex

open Std

namespace Index

def Shelved (ix : Index) : Prop :=
  ∀ d, d ∈ ix.directories → d ∈ ix.listings

theorem Shelved.evict {ix : Index} (shelved : ix.Shelved) (filed : ix.Filed) (p : Path) :
    (ix.evict p).1.Shelved := by
  intro d member
  have walked := filed.walked p
  obtain ⟨before, unreached⟩ := filed.mem_directories_evict.1 member
  have same := walked.outside d unreached
  rw [Index.evict, mem_listings_unlistChild]
  exact ⟨same.mem_listings.2 (shelved d before), fun _ => Or.inl (same.mem_directories.2 before)⟩

theorem Shelved.insertDirectory {ix : Index} (shelved : ix.Shelved) (p : Path) (st : Status) :
    (ix.insertDirectory p st true).1.Shelved := by
  intro d member
  rw [insertDirectory_directories, ExtTreeMap.mem_insert, LawfulEqCmp.compare_eq_iff_eq] at member
  rw [mem_listings_insertDirectory]
  rcases member with rfl | before
  · exact Or.inr (Or.inl rfl)
  · exact Or.inl (shelved d before)

/-- In an anchored index the listings are those of directories and those that have entries. -/
theorem Anchored.mem_listings {ix : Index} {anchor : Path → Prop} (anchored : ix.Anchored anchor)
    (shelved : ix.Shelved) {d : Path} :
    d ∈ ix.listings ↔ d ∈ ix.directories ∨ ∃ c, c ∈ ix.children d :=
  ⟨anchored.listed d, fun known => known.elim (shelved d) fun ⟨_, entry⟩ =>
    mem_listings_of_child entry⟩

/-- Two indexes that say the same beyond a root, and nothing at the root and below it, are the same. -/
theorem SameBeyond.eq_of_forgets {ix ix' : Index} {root : Path} {layout : Layout}
    {anchor anchor' : Path → Prop} (same : ix.SameBeyond ix' root)
    (consistent : ix.Consistent layout anchor) (consistent' : ix'.Consistent layout anchor')
    (shelved : ix.Shelved) (shelved' : ix'.Shelved) (forgets : ix.Forgets root)
    (forgets' : ix'.Forgets root) : ix' = ix := by
  have files : ix'.files = ix.files := by
    refine ExtTreeMap.ext_getElem? fun q => ?_
    by_cases inside : root.Covers q
    · rw [ExtTreeMap.getElem?_eq_none (forgets'.files q inside),
        ExtTreeMap.getElem?_eq_none (forgets.files q inside)]
    · exact same.files q inside
  have directories : ix'.directories = ix.directories := by
    refine ExtTreeMap.ext_getElem? fun q => ?_
    by_cases inside : root.Covers q
    · rw [ExtTreeMap.getElem?_eq_none (forgets'.directories q inside),
        ExtTreeMap.getElem?_eq_none (forgets.directories q inside)]
    · exact same.directories q inside
  have children : ∀ d c, c ∈ ix'.children d ↔ c ∈ ix.children d := by
    intro d c
    by_cases inside : root.Covers c
    · exact iff_of_false (forgets'.members c inside d) (forgets.members c inside d)
    · exact same.children d c inside
  have listings : ix'.listings = ix.listings := by
    refine listings_ext children fun d => ?_
    rw [consistent'.anchored.mem_listings shelved', consistent.anchored.mem_listings shelved,
      directories]
    exact or_congr_right (exists_congr (children d))
  have manifests : ix'.manifests = ix.manifests := by
    refine ExtTreeMap.ext_getElem? fun d => Option.ext fun D => ?_
    by_cases inside : root.Covers D.path
    · refine iff_of_false (fun found => ?_) fun found => ?_
      · exact forgets'.files _ inside (consistent'.backed d D found).file
      · exact forgets.files _ inside (consistent.backed d D found).file
    · exact same.manifests d D inside
  have name := consistent'.name.trans consistent.name.symm
  cases ix
  cases ix'
  simp_all

/-- What is consistent and knows nothing below a root is consistent with anchors elsewhere. -/
theorem Consistent.elsewhere {ix : Index} {root : Path} {layout : Layout} {anchor : Path → Prop}
    (consistent : ix.Consistent layout anchor) (forgets : ix.Forgets root) :
    ix.Consistent layout fun p => ¬ root.Covers p := by
  have out : ∀ q, ix.Known q → ¬ root.Covers q := fun q known inside =>
    known.elim (forgets.files q inside) (forgets.directories q inside)
  refine ⟨⟨consistent.kinded.fileKind, consistent.kinded.directoryKind, fun q file _ => ?_⟩,
    ⟨fun q known => Or.inl (out q known), consistent.anchored.entries, consistent.anchored.listed⟩,
    consistent.name, consistent.backed⟩
  exact out q (Or.inl file)

end Index

namespace Crawl

variable {ctx : Context} {world : World}

/-- A deed leaves no directory without a listing. -/
theorem Deed.shelved {task : Task} {ix ix' : Index} {next : Progress}
    (deed : Deed ctx world ix task ix' next) (kept : ix.Filed ∧ ix.Shelved) :
    ix'.Filed ∧ ix'.Shelved := by
  have evict : ∀ (ix : Index) (p : Path), ix.Filed ∧ ix.Shelved →
      (ix.evict p).1.Filed ∧ (ix.evict p).1.Shelved :=
    fun ix p kept => ⟨(kept.1.evict p).filed, kept.2.evict kept.1 p⟩
  have cleared : ∀ (p : Path) (st : Status),
      (ix.clearedFor p st).Filed ∧ (ix.clearedFor p st).Shelved := fun p st =>
    Index.clearedFor_keeps (P := fun ix => ix.Filed ∧ ix.Shelved) (p := p) (fun ix => evict ix p) kept
      st
  cases deed with
  | ended | begun | subscribed | project | declared | installed => exact kept
  | removed result => exact evict ix _ kept
  | cleared p st result => exact cleared p st
  | @directory p st _ kind goesOn =>
    exact ⟨(cleared p st).1.insertDirectory p st, (cleared p st).2.insertDirectory p st⟩
  | @file p st _ kind goesOn =>
    refine ⟨(cleared p st).1.insertFile p st, fun d member => ?_⟩
    rw [Index.insertFile_directories] at member
    exact Index.mem_listings_insertFile.2 (Or.inl ((cleared p st).2 d member))
  | listed told entries =>
    exact Index.evictAll_keeps (P := fun ix => ix.Filed ∧ ix.Shelved) (fun ix p _ => evict ix p) kept

end Crawl

namespace Watch

open Crawl (Deed)

variable {policy : Policy} {admits : World → Prop} {h h' : Host} {root : Path}

/-- A request that is served alone is served in some run of the system that it is part of. -/
theorem Served.run {start : Host × Progress} {reply : Reply}
    (served : Served policy admits start h' reply) {s : System} {i : Nat} (host : s.host = start.1)
    (made : s.calls[i]? = some start.2) : ∃ moves, (s.run policy moves).host = h' := by
  induction served generalizing s with
  | finished h reply => exact ⟨[], host⟩
  | @step h h' call reply world schedule admitted rest ih =>
    have within : i < s.calls.length := (List.getElem?_eq_some_iff.1 made).1
    have stepped : s.step policy (.resume i world schedule) =
        ⟨(call.step policy world schedule h).1, s.calls.set i (call.step policy world schedule h).2⟩ := by
      simp_all [System.step]
    obtain ⟨moves, ends⟩ := @ih (s.step policy (.resume i world schedule)) (by rw [stepped]) (by
      rw [stepped]
      simp [within])
    exact ⟨.resume i world schedule :: moves, ends⟩

/-- What a host has been through with one request after the other, it can have been through in a
system. -/
theorem History.reachable {errands : List Errand} (history : History policy admits errands h) :
    ∃ s, System.Reachable policy s ∧ s.host = h := by
  induction history with
  | fresh name style => exact ⟨.fresh name style, ⟨name, style, [], rfl⟩, rfl⟩
  | @next errands h h' errand before done ih =>
    obtain ⟨s, reachable, rfl⟩ := ih
    have served : ∀ {start : Host × Progress} {reply : Reply} (move : Move),
        s.step policy move = ⟨start.1, s.calls ++ [start.2]⟩ →
        Served policy admits start h' reply → ∃ t, System.Reachable policy t ∧ t.host = h' := by
      intro start reply move made served
      obtain ⟨moves, ends⟩ := served.run (s := s.step policy move) (i := s.calls.length)
        (by rw [made]) (by rw [made]; simp)
      exact ⟨_, (reachable.step move).run moves, ends⟩
    cases done with
    | watch rest => exact served (.watch _) rfl rest
    | refresh rest => exact served (.refresh _) rfl rest
    | unwatch _ root => exact ⟨_, reachable.step (.unwatch root), rfl⟩

/-- The next generation of a host is not cancelled. -/
theorem History.live {errands : List Errand} (history : History policy admits errands h) :
    h.store.isStale h.store.nextGeneration = false := by
  obtain ⟨s, reachable, rfl⟩ := history.reachable
  by_contra stale
  exact Nat.lt_irrefl _ (reachable.stale_given (eq_true_of_ne_false stale))

/-- After any requests every known directory has a listing. -/
theorem History.shelved {errands : List Errand} (history : History policy admits errands h) :
    h.store.index.Filed ∧ h.store.index.Shelved := by
  induction history with
  | fresh name style =>
    exact ⟨Index.filed_empty name, fun d member => by simp [Store.empty, Index.empty] at member⟩
  | @next errands h h' errand before done ih =>
    refine done.index_keeps before.settled (P := fun ix => ix.Filed ∧ ix.Shelved)
      (fun _ _ _ _ _ _ deed => deed.shelved) ?_
      (fun _ root kept => ⟨(kept.1.evict root).filed, kept.2.evict kept.1 root⟩) ih
    exact fun root _ st _ _ _ => ⟨ih.1.insertDirectory root st, ih.2.insertDirectory root st⟩

/-- The first crawl of a root changes nothing beyond the root, however it ends. -/
theorem Crawled.sameBeyond {g : Generation} {store : Store} {s : Scope}
    {result : Except IndexError Bool} {anchor : Path → Prop}
    (crawled : Crawled policy admits root g store s result)
    (lists : ∀ world, admits world → world.ListsOnce) (absolute : root.isAbsolute = true)
    (anchored : anchor root) (consistent : store.index.Consistent policy.layout anchor) :
    store.index.SameBeyond s.store.index root := by
  cases stale : store.isStale g with
  | true =>
    rw [(crawled.edits.quiet_of_stale stale).index]
    exact .refl _ root
  | false =>
    cases crawled with
    | failed e hard quiet failure =>
      rw [quiet.index]
      exact .refl _ root
    | crawled world status opened admitted told directory quiet served =>
      have live := (quiet.isStale g).trans stale
      rw [← quiet.index] at consistent ⊢
      have begun := @Crawl.advances_addDirectory _ _ (firstCrawl policy g) { store := opened } live
        root status consistent anchored directory
      exact (@Crawl.sameBeyond_addDirectory (firstCrawl policy g) { store := opened } live root
        status).trans
        (served.sameBeyond rfl lists (.refl root) absolute begun.consistent begun.goesOn)

/-- The crawl of a path below the root changes nothing beyond the root, however it ends. -/
theorem sameBeyond_refresh {path : Path} {g : Generation} {store : Store} {s : Scope}
    {result : Except IndexError Bool} {anchor : Path → Prop}
    (served : Crawl.Served (refreshCrawl policy g) admits
      ((refreshCrawl policy g).addEntry path { store }) s result)
    (known : (store.index.knows path || store.index.knowsParent path) = true)
    (lists : ∀ world, admits world → world.ListsOnce) (covers : root.Covers path)
    (absolute : path.isAbsolute = true) (consistent : store.index.Consistent policy.layout anchor) :
    store.index.SameBeyond s.store.index root := by
  unfold Crawl.Context.addEntry at served
  split at served
  · exact served.sameBeyond rfl lists covers absolute consistent fun task waits => by cases waits
  · refine served.sameBeyond rfl lists covers absolute consistent fun task waits => ?_
    cases waits
    exact ⟨.entry path, rfl, .entry (consistent.footed known)⟩

/-- The index can be restored by evicting the root: beyond the root it says what it said before, and
everything at and below the root hangs together. -/
structure Restorable (policy : Policy) (root : Path) (before ix : Index) : Prop where
  beyond : before.SameBeyond ix root
  consistent : ix.Consistent policy.layout fun p => ¬ root.Covers p ∨ p = root
  kinded : ix.Filed ∧ ix.Kinded fun p => ¬ root.Covers p

namespace Restorable

variable {before ix : Index}

/-- Nothing is left of the root when it is evicted. -/
theorem forgets (restorable : Restorable policy root before ix) : (ix.evict root).1.Forgets root := by
  have consistent := restorable.consistent
  rw [(consistent.evict root).forgets_iff]
  intro q inside known
  obtain ⟨known, unreached | ⟨file, directory⟩⟩ := consistent.filed.known_evict.1 known
  · refine unreached (consistent.anchored.reaches (fun p covers other anchor => ?_) inside known)
    exact anchor.elim (absurd covers) other
  · exact restorable.kinded.2.apart q file directory inside

/-- Evicting the root restores the index. -/
theorem evict {anchor : Path → Prop} (restorable : Restorable policy root before ix)
    (consistent : before.Consistent policy.layout anchor) (shelved : before.Shelved)
    (shelved' : ix.Shelved) (unknown : before.Forgets root) : (ix.evict root).1 = before :=
  (restorable.beyond.trans (.evict restorable.consistent (.refl root))).eq_of_forgets consistent
    (restorable.consistent.evict root) shelved (shelved'.evict restorable.consistent.filed root) unknown
    restorable.forgets

/-- After a watch on a root of which nothing was known, however it ended. -/
theorem watched {result : Except IndexError Unit}
    (done : (Errand.watch root result).Done policy admits h h') (settled : h.Settled)
    (lists : ∀ world, admits world → world.ListsOnce) (absolute : root.isAbsolute = true)
    (consistent : h.store.index.Consistent policy.layout fun p => ¬ root.Covers p)
    (unknown : h.store.index.Forgets root) :
    Restorable policy root h.store.index h'.store.index := by
  have wider : h.store.index.Consistent policy.layout fun p => ¬ root.Covers p ∨ p = root :=
    consistent.mono fun _ => Or.inl
  have kinded := done.index_keeps settled
    (P := fun ix => ix.Filed ∧ ix.Kinded fun p => ¬ root.Covers p)
    (fun _ _ _ _ _ _ deed => deed.kinded)
    (by
      rintro _ _ st ⟨⟩ - directory
      exact ⟨consistent.filed.insertDirectory root st, consistent.kinded.insertDirectory directory
        fun file => absurd file (unknown.files root (.refl root))⟩)
    (fun _ p kept => ⟨(kept.1.evict p).filed, kept.2.evict kept.1 p⟩)
    ⟨consistent.filed, consistent.kinded⟩
  cases done.rewrites settled with
  | same index =>
    rw [index] at kinded ⊢
    exact ⟨.refl _ root, wider, kinded⟩
  | crawl uncovered crawled index =>
    rw [index] at kinded ⊢
    exact ⟨crawled.sameBeyond lists absolute (Or.inr rfl) wider,
      crawled.consistent lists absolute (Or.inr rfl) wider, kinded⟩

/-- After a refresh of a path below the root, however it ended. -/
theorem refreshed {path : Path} {result : Except IndexError Bool}
    (restorable : Restorable policy root before h.store.index)
    (done : (Errand.refresh path result).Done policy admits h h') (settled : h.Settled)
    (lists : ∀ world, admits world → world.ListsOnce) (covers : root.Covers path)
    (absolute : root.isAbsolute = true) : Restorable policy root before h'.store.index := by
  have kinded := done.index_keeps settled
    (P := fun ix => ix.Filed ∧ ix.Kinded fun p => ¬ root.Covers p)
    (fun _ _ _ _ _ _ deed => deed.kinded) (fun _ _ _ other => by cases other)
    (fun _ p kept => ⟨(kept.1.evict p).filed, kept.2.evict kept.1 p⟩) restorable.kinded
  cases done.rewrites settled with
  | same index =>
    rw [index]
    exact restorable
  | refresh covered known served index =>
    rw [index] at kinded ⊢
    have below := covers.isAbsolute absolute
    exact ⟨restorable.beyond.trans
        (sameBeyond_refresh served known lists covers below restorable.consistent),
      consistent_refresh served known lists below restorable.consistent, kinded⟩

end Restorable

/-- A watch that does not fail, remarks apart, leaves its root active where no other root covers it. -/
theorem History.active_of_mild {errands : List Errand} {result : Except IndexError Unit}
    (history : History policy admits errands h)
    (done : (Errand.watch root result).Done policy admits h h')
    (mild : (Errand.watch root result).Mild) (uncovered : ∀ r ∈ h.roots.active, ¬ r.Covers root) :
    root ∈ h'.roots.active := by
  have settled := history.settled
  obtain ⟨above, _, active, covers⟩ | planned := settled.plan_cases root
  · exact absurd covers (uncovered above active)
  cases done with
  | watch served =>
    obtain ⟨s, ends, crawled, host, answer⟩ := served.of_start planned
    obtain rfl := Reply.watched.inj answer
    obtain ⟨changed, rfl⟩ := crawl_ok_of_watch (fun e spelling found failed =>
      (failed ▸ crawled).hard history.live spelling found) mild.2
    have live : s.store.isLive h.store.nextGeneration = true := by
      simp only [Store.isLive, crawled.edits.isStale]
      exact congrArg Bool.not history.live
    have roots := (Host.finishWatch_keeps root h.store.nextGeneration (.ok changed) s.remarks
      ⟨s.store, h.roots.reserve root h.store.nextGeneration⟩).2
    have left := (settled.finish_reserved planned h.store.nextGeneration
      (true && s.store.isLive h.store.nextGeneration) true).2.2 root
    rw [Std.ExtTreeMap.mem_iff_isSome_getElem?, host, roots]
    refine (congrArg Option.isSome left).trans ?_
    simp [live]

/-- Refreshes below an active root keep it active, and the index restorable. -/
theorem History.refreshed_below {errands refreshes : List Errand} {before : Index}
    (history : History policy admits errands h) (active : root ∈ h.roots.active)
    (restorable : Restorable policy root before h.store.index)
    (lists : ∀ world, admits world → world.ListsOnce) (absolute : root.isAbsolute = true)
    (below : ∀ errand ∈ refreshes, ∃ path result, root.Covers path ∧ errand = .refresh path result)
    (done : Errand.DoneAll policy admits refreshes h h') :
    root ∈ h'.roots.active ∧ Restorable policy root before h'.store.index ∧
      h'.store.index.Shelved := by
  induction done generalizing errands with
  | nil h => exact ⟨active, restorable, history.shelved.2⟩
  | @cons h k h' errand refreshes done rest ih =>
    obtain ⟨path, result, covers, rfl⟩ := below errand (by simp)
    have restorable := restorable.refreshed done history.settled lists covers absolute
    cases id done with
    | refresh served =>
      exact ih (.next history done) (served.roots_of_refresh ▸ active) restorable
        fun later member => below later (by simp [member])

namespace Host

/-- There is something to withdraw at an active root. -/
theorem unwatch_found (active : root ∈ h.roots.active) : (h.unwatch root).2 = true := by
  obtain ⟨g, carried⟩ := Option.isSome_iff_exists.1
    (Std.ExtTreeMap.mem_iff_isSome_getElem?.1 active)
  have ended : g ∈ (h.roots.withdraw root).2 := Roots.mem_withdraw.2 (Or.inr carried)
  unfold unwatch
  split
  next none =>
    rw [none] at ended
    cases ended
  · rfl

/-- A withdrawal announces nothing. -/
theorem unwatch_notices (h : Host) (root : Path) :
    (h.unwatch root).1.store.notices = h.store.notices := by
  unfold unwatch
  split
  · rfl
  next roots ended _ _ => exact (forget_quiet root ended h.store).notices

end Host

/-- Watching a root, refreshing paths below it any number of times and withdrawing the root is a round
trip.  On a host after any requests, each served to its end, on which no active root covers the root
and nothing is known at the root or below it: if the watch does not fail, remarks apart, then whatever
the refreshes return, and with worlds that may answer differently at every wait, the withdrawal finds
the root, it leaves the index as it was before the watch, and it announces nothing. -/
theorem watch_refresh_unwatch_round_trip (policy : Policy) (errands : List Errand) (h : Host)
    (history : History policy World.ListsOnce errands h)
    (absolute : ∀ root result, .watch root result ∈ errands → root.isAbsolute = true)
    (name : h.store.index.manifestName = policy.layout.manifestName) (root : Path)
    (uncovered : ∀ r ∈ h.roots.active, ¬ r.Covers root) (unknown : h.store.index.Forgets root)
    (result : Except IndexError Unit) (mild : (Errand.watch root result).Mild)
    (refreshes : List Errand)
    (below : ∀ errand ∈ refreshes, ∃ path result, root.Covers path ∧ errand = .refresh path result)
    (h' : Host)
    (done : Errand.DoneAll policy World.ListsOnce (.watch root result :: refreshes) h h') :
    (h'.unwatch root).2 = true ∧ (h'.unwatch root).1.store.index = h.store.index ∧
      (h'.unwatch root).1.store.notices = h'.store.notices := by
  have consistent := (history.consistent absolute name).elsewhere unknown
  cases done with
  | cons watched rest =>
    obtain ⟨active, restorable, now⟩ := History.refreshed_below (.next history watched)
      (history.active_of_mild watched mild uncovered)
      (.watched watched history.settled (fun _ => id) mild.1 consistent unknown) (fun _ => id) mild.1
      below rest
    have found := Host.unwatch_found active
    refine ⟨found, ?_, h'.unwatch_notices root⟩
    rw [Host.unwatch_index found]
    exact restorable.evict consistent history.shelved.2 now unknown

def neighbours : Disk where
  root := .directory 0
    [([97], .directory 0 [(.ofString "package.json", .file 0 [0x7B, 0x7D])]),
      ([98], .directory 0 [(.ofString "package.json", .file 0 [0x7B, 0x7D])])]

def neighbourEmptied : Disk where
  root := .directory 0
    [([97], .directory 0 []),
      ([98], .directory 0 [(.ofString "package.json", .file 0 [0x7B, 0x7D])])]

/-- A host that watches `/b`. -/
def neighbourWatched : Host :=
  let fresh : Host := { store := .empty (.ofString "package.json") .recursive }
  (serve (.ofSettings {}) (fresh.watch ⟨[.root, .name [98]]⟩)
    (List.replicate 7 (.ofDisk neighbours))).1

def bothWatched : Host :=
  (serve (.ofSettings {}) (neighbourWatched.watch ⟨[.root, .name [97]]⟩)
    (List.replicate 7 (.ofDisk neighbours))).1

/-- The host after a refresh of the manifest of `/a`, which has gone. -/
def bothRefreshed : Host :=
  (serve (.ofSettings {}) (bothWatched.refresh (.ofSettings {})
      ⟨[.root, .name [97], .name (.ofString "package.json")]⟩)
    (List.replicate 3 (.ofDisk neighbourEmptied))).1

theorem neighbourWatched_history : History (.ofSettings {}) World.ListsOnce
    [.watch ⟨[.root, .name [98]]⟩ (.ok ())] neighbourWatched := by
  refine .next (.fresh (.ofString "package.json") .recursive)
    (.watch (.of_serve (World.listsOnce_replicate (by decide) 7) ?_))
  with_unfolding_all rfl

theorem bothRefreshed_done : Errand.DoneAll (.ofSettings {}) World.ListsOnce
    [.watch ⟨[.root, .name [97]]⟩ (.ok ()),
      .refresh ⟨[.root, .name [97], .name (.ofString "package.json")]⟩ (.ok true)]
    neighbourWatched bothRefreshed := by
  refine .cons (.watch (.of_serve (World.listsOnce_replicate (by decide) 7) ?_))
    (.cons (.refresh (.of_serve (World.listsOnce_replicate (by decide) 3) ?_)) (.nil _))
  · with_unfolding_all rfl
  · with_unfolding_all rfl

/-- The package `/a` is watched beside `/b`, its manifest is refreshed, and it is withdrawn: what is
left is what was known of `/b`. -/
theorem watch_refresh_unwatch_round_trip_neighbours :
    (bothRefreshed.unwatch ⟨[.root, .name [97]]⟩).2 = true ∧
      (bothRefreshed.unwatch ⟨[.root, .name [97]]⟩).1.store.index = neighbourWatched.store.index ∧
      (bothRefreshed.unwatch ⟨[.root, .name [97]]⟩).1.store.notices =
        bothRefreshed.store.notices := by
  have absolute : ∀ root result, Errand.watch root result ∈
      [Errand.watch ⟨[.root, .name [98]]⟩ (.ok ())] → root.isAbsolute = true := by
    simp [Path.isAbsolute]
  have name : neighbourWatched.store.index.manifestName =
      (Policy.ofSettings {}).layout.manifestName := by decide +kernel
  have active : ∀ r ∈ neighbourWatched.roots.active.keys, ¬ r.Covers ⟨[.root, .name [97]]⟩ := by
    decide +kernel
  have known : ∀ q ∈ neighbourWatched.store.index.files.keys ++
      neighbourWatched.store.index.directories.keys, ¬ Path.Covers ⟨[.root, .name [97]]⟩ q := by
    decide +kernel
  have unknown : neighbourWatched.store.index.Forgets ⟨[.root, .name [97]]⟩ := by
    rw [(neighbourWatched_history.consistent absolute name).forgets_iff]
    intro q covers either
    exact known q (by simpa [Index.Known] using either) covers
  exact watch_refresh_unwatch_round_trip _ _ _ neighbourWatched_history absolute name _
    (fun r member => active r (Std.ExtTreeMap.mem_keys.2 member)) unknown _ ⟨by decide, Or.inl rfl⟩ _
    (fun errand member => ⟨_, _, by decide, List.mem_singleton.1 member⟩) _ bothRefreshed_done

end Watch

end ProjectIndex
