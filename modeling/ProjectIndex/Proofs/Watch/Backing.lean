import ProjectIndex.Proofs.Watch.Kinds
import ProjectIndex.Proofs.Watch.Replay

/-!
# Every manifest has its file

A manifest is installed at the end of a wait for the contents of its file, and it goes when the file
or its directory is evicted.  Between the registration of the file and the installation of the
manifest other entries of the directory are crawled, and they may be deleted, change their kind or
fail; and a later request finds the index as an earlier one has left it, which may have failed half
way.  Through all of this the file of an installed manifest is known: nothing that happens beside a
task touches the file that it reads, and every way in which a file goes takes the manifest with it.

The requests are served one after the other.  Two refreshes that overlap can part a manifest from its
file.
-/

namespace ProjectIndex.Watch

variable {policy : Policy} {admits : World → Prop} {h h' : Host}

/-- An active root was active before, or it has just been watched. -/
theorem Errand.Done.mem_active {errand : Errand} (done : errand.Done policy admits h h')
    (settled : h.Settled) {r : Path} (active : r ∈ h'.roots.active) :
    r ∈ h.roots.active ∨ ∃ result, errand = .watch r result := by
  cases done with
  | watch served =>
    rename_i root result
    rcases settled.plan_cases root with ⟨above, planned, _, _⟩ | planned
    · obtain ⟨_, roots, _⟩ := Host.Settled.served_of_covered planned served
      exact Or.inl (roots ▸ active)
    · obtain ⟨s, ends, _, host, _⟩ := served.of_start planned
      have roots := (Host.finishWatch_keeps root h.store.nextGeneration ends s.remarks
        ⟨s.store, h.roots.reserve root h.store.nextGeneration⟩).2
      have left := (settled.finish_reserved planned h.store.nextGeneration
        (ends.isOk && s.store.isLive h.store.nextGeneration) ends.isOk).2.2 r
      rw [Std.ExtTreeMap.mem_iff_isSome_getElem?, host, roots, left] at active
      split at active
      next own => exact Or.inr ⟨result, own.2 ▸ rfl⟩
      · split at active
        · cases active
        · exact Or.inl (Std.ExtTreeMap.mem_iff_isSome_getElem?.2 active)
  | refresh served => exact Or.inl (served.roots_of_refresh ▸ active)
  | unwatch h root =>
    unfold Host.unwatch at active
    split at active
    · exact Or.inl active
    next roots _ _ withdrawn =>
      obtain rfl : (h.roots.withdraw root).1 = roots := congrArg Prod.fst withdrawn
      exact Or.inl (Std.ExtTreeMap.mem_of_mem_erase active)

/-- Where every watch was on an absolute path, the active roots are absolute. -/
theorem History.absolute {errands : List Errand} (history : History policy admits errands h)
    (absolute : ∀ root result, .watch root result ∈ errands → root.isAbsolute = true) :
    ∀ r ∈ h.roots.active, r.isAbsolute = true := by
  induction history with
  | fresh name style => simp
  | next before done ih =>
    intro r active
    rcases done.mem_active before.settled active with earlier | ⟨result, rfl⟩
    · exact ih (fun root result member => absolute root result (by simp [member])) r earlier
    · exact absolute r result (by simp)

/-- A first crawl leaves a consistent index, however it ends. -/
theorem Crawled.consistent {root : Path} {g : Generation} {store : Store} {s : Scope}
    {result : Except IndexError Bool} {anchor : Path → Prop}
    (crawled : Crawled policy admits root g store s result)
    (lists : ∀ world, admits world → world.ListsOnce) (absolute : root.isAbsolute = true)
    (anchored : anchor root) (consistent : store.index.Consistent policy.layout anchor) :
    s.store.index.Consistent policy.layout anchor := by
  cases stale : store.isStale g with
  | true => rwa [(crawled.edits.quiet_of_stale stale).index]
  | false =>
    cases crawled with
    | failed e hard quiet failure => rwa [quiet.index]
    | crawled world status opened admitted told directory quiet served =>
      have live := (quiet.isStale g).trans stale
      rw [← quiet.index] at consistent
      have begun := @Crawl.advances_addDirectory _ _ (firstCrawl policy g) { store := opened } live
        root status consistent anchored directory
      exact served.consistent rfl lists absolute begun.consistent begun.goesOn

/-- The crawl of a refreshed path leaves a consistent index, however it ends. -/
theorem consistent_refresh {path : Path} {g : Generation} {store : Store} {s : Scope}
    {result : Except IndexError Bool} {anchor : Path → Prop}
    (served : Crawl.Served (refreshCrawl policy g) admits
      ((refreshCrawl policy g).addEntry path { store }) s result)
    (known : (store.index.knows path || store.index.knowsParent path) = true)
    (lists : ∀ world, admits world → world.ListsOnce) (absolute : path.isAbsolute = true)
    (consistent : store.index.Consistent policy.layout anchor) :
    s.store.index.Consistent policy.layout anchor := by
  unfold Crawl.Context.addEntry at served
  split at served
  · exact served.consistent rfl lists absolute consistent fun task waits => by cases waits
  · refine served.consistent rfl lists absolute consistent fun task waits => ?_
    cases waits
    exact ⟨.entry path, rfl, .entry (consistent.footed known)⟩

/-- A request does not change the name of manifests. -/
theorem Errand.Done.manifestName {errand : Errand} (done : errand.Done policy admits h h')
    (settled : h.Settled) (filed : h.store.index.Filed) :
    h'.store.index.manifestName = h.store.index.manifestName :=
  (done.index_keeps settled
    (P := fun ix => ix.Filed ∧ ix.manifestName = h.store.index.manifestName)
    (fun _ _ _ _ _ _ deed => deed.named)
    (fun root _ st _ _ _ => ⟨filed.insertDirectory root st, by simp⟩)
    (fun _ root kept =>
      ⟨(kept.1.evict root).filed, (kept.1.evict_manifestName root).trans kept.2⟩)
    ⟨filed, rfl⟩).2

/-- After any requests the index is consistent, with the roots of the watches that started as its
anchors. -/
theorem History.consistent {errands : List Errand}
    (history : History policy World.ListsOnce errands h)
    (absolute : ∀ root result, .watch root result ∈ errands → root.isAbsolute = true)
    (name : h.store.index.manifestName = policy.layout.manifestName) :
    h.store.index.Consistent policy.layout fun p =>
      WatchedWhile policy World.ListsOnce (fun _ => True) p errands h := by
  induction history with
  | fresh fresh style =>
    obtain rfl : fresh = policy.layout.manifestName := name
    exact Index.consistent_empty policy.layout _
  | @next errands h h' errand before done ih =>
    rw [done.manifestName before.settled before.kinded.1] at name
    have earlier : ∀ root result, .watch root result ∈ errands → root.isAbsolute = true :=
      fun root result member => absolute root result (by simp [member])
    have consistent := (ih earlier name).mono fun q watched =>
      WatchedWhile.later watched done
    cases done.rewrites before.settled with
    | same index => rwa [index]
    | @crawl root result _ _ uncovered crawled index =>
      rw [index]
      exact crawled.consistent (fun _ => id) (absolute root result (by simp))
        (.now before uncovered trivial done) consistent
    | @refresh path _ _ _ _ covered known served index =>
      have below : path.isAbsolute = true := by
        obtain ⟨r, pending | active, covers⟩ := Roots.generationFor_eq_some covered
        · exact absurd (Std.ExtTreeMap.mem_iff_isSome_getElem?.2 (by simp [pending]))
            (before.settled.idle r)
        · exact covers.isAbsolute (before.absolute earlier r
            (Std.ExtTreeMap.mem_iff_isSome_getElem?.2 (by simp [active])))
      rw [index]
      exact consistent_refresh served known (fun _ => id) below consistent
    | evict index =>
      rw [index]
      exact consistent.evict _

/-- After any requests, each served to its end, failed or not, in worlds that may answer differently
at every wait as long as they list the entries of a directory once, and with every order of the
entries that are crawled at once: a manifest that is installed for a directory is the definition of
that directory, its file is the entry of the directory that has the name of manifests, the file is
known, and it is a manifest that counts. -/
theorem manifests_have_their_files (policy : Policy) (errands : List Errand) (h : Host)
    (history : History policy World.ListsOnce errands h)
    (absolute : ∀ root result, .watch root result ∈ errands → root.isAbsolute = true)
    (name : h.store.index.manifestName = policy.layout.manifestName) (d : Path) (D : Definition)
    (found : h.store.index.manifests[d]? = some D) :
    D.directory = d ∧ D.path = d.child policy.layout.manifestName ∧
      D.path ∈ h.store.index.files ∧ policy.layout.isOfInterest D.path = true := by
  have backs := (history.consistent absolute name).backed d D found
  have place := Layout.components_of_isOfInterest backs.interest backs.inside
  refine ⟨backs.own, ?_, backs.file, backs.interest⟩
  have named : d.components ≠ [.current] := by
    intro relative
    have outside := backs.absolute
    simp [Path.isAbsolute, place, relative] at outside
  rw [Path.child, if_neg named, ← place]

def onePackage : Disk where
  root := .directory 0 [([97], .directory 0 [(.ofString "package.json", .file 0 [0x7B, 0x7D])])]

/-- A host that watched the package `/a`. -/
def packageWatched : Host :=
  let fresh : Host := { store := .empty (.ofString "package.json") .recursive }
  (serve (.ofSettings {}) (fresh.watch ⟨[.root, .name [97]]⟩)
    (List.replicate 7 (.ofDisk onePackage))).1

theorem packageWatched_history : History (.ofSettings {}) World.ListsOnce
    [.watch ⟨[.root, .name [97]]⟩ (.ok ())] packageWatched := by
  refine .next (.fresh (.ofString "package.json") .recursive)
    (.watch (.of_serve (World.listsOnce_replicate (by decide) 7) ?_))
  with_unfolding_all rfl

/-- The package that was watched has its manifest, and the file of the manifest is known. -/
theorem manifests_have_their_files_package :
    ∃ D : Definition,
      packageWatched.store.index.manifests[(⟨[.root, .name [97]]⟩ : Path)]? = some D ∧
      D.path = ⟨[.root, .name [97], .name (.ofString "package.json")]⟩ ∧
      D.path ∈ packageWatched.store.index.files := by
  have installed :
      (packageWatched.store.index.manifests[(⟨[.root, .name [97]]⟩ : Path)]?).isSome = true := by
    decide +kernel
  obtain ⟨D, found⟩ := Option.isSome_iff_exists.1 installed
  obtain ⟨_, path, known, _⟩ := manifests_have_their_files _ _ _ packageWatched_history
    (by simp [Path.isAbsolute]) (by decide +kernel) _ D found
  exact ⟨D, found, path.trans (by decide +kernel), known⟩

end ProjectIndex.Watch
