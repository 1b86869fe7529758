import ProjectIndex.Proofs.Crawl.Survey
import ProjectIndex.Proofs.Watch.Forgetting
import ProjectIndex.Proofs.Watch.Retry
import ProjectIndex.Proofs.Watch.RoundTrip

/-!
# Refreshes while nothing changes

A root was watched, and the disk is as it was.  Then the index knows everything that a crawl could
find, and a refresh of any path finds the entry as it is known, or finds nothing that is taken in.  It
ends without a word but for the log.

The first crawl looks at its root with the last link followed, and a refresh looks at every path
without.  So a root that is a link is one thing to the watch and another to the refresh, and a refresh
of the root forgets it with everything below.
-/

namespace ProjectIndex

theorem World.Reads.listsOnce {world : World} {d : Disk} (reads : world.Reads d)
    (tidy : d.isTidy = true) : world.ListsOnce := by
  have lists := World.listsOnce_ofDisk tidy
  constructor
  · exact fun dir cs absolute told => lists.distinct dir cs absolute (reads.children ▸ told)
  · exact fun dir cs absolute told => lists.entries dir cs absolute (reads.children ▸ told)

/-- A directory is left out by its name alone. -/
theorem Policy.ignores_directory (policy : Policy) (p : Path) :
    policy.ignores p .directory = policy.isDenied p := by
  simp [Policy.ignores]

namespace Watch

variable {policy : Policy} {admits : World → Prop} {d : Disk} {linked : Path → Prop} {root : Path}
  {h h' : Host}

/-- The first crawl of a root leaves an index that the disk attests, and changes nothing but what it goes
down to, however it ends.  If it ends well, the root is known exactly if its name is not denied, and what
the index lacks then it has lacked before. -/
theorem Crawled.surveyed {g : Generation} {store : Store} {s : Scope}
    {result : Except IndexError Bool} (crawled : Crawled policy admits root g store s result)
    (tidy : d.isTidy = true) (reads : ∀ world, admits world → world.Reads d)
    (live : store.isStale g = false) (plain : root.Plain) (anchor : linked root)
    (attested : store.index.Attested d policy linked) :
    Crawl.Surveyed d policy linked (· ∈ store.index.directories) root store.index s.store.index
        (.finished result) ∧
      ∀ changed, result = .ok changed →
        (root ∈ s.store.index.directories ↔ policy.isDenied root = false) ∧
        ∀ q, s.store.index.Lacks d policy q → store.index.Lacks d policy q := by
  cases crawled with
  | failed e hard quiet failure =>
    rw [quiet.index]
    exact ⟨.ended attested result, fun changed well => by cases failure.symm.trans well⟩
  | crawled world status opened admitted told directory quiet served =>
    rw [(reads world admitted).stat] at told
    rw [← quiet.index] at attested ⊢
    obtain ⟨surveyed, known, paid⟩ := served.root_surveyed tidy reads
      ((quiet.isStale g).trans live) plain told directory anchor attested
    refine ⟨surveyed, fun changed well => ⟨?_, paid changed well⟩⟩
    rw [known, ← Policy.ignores_directory]
    rfl

structure Host.UpToDate (h : Host) (d : Disk) (policy : Policy) (root : Path) : Prop where
  attested : h.store.index.Attested d policy (· = root)
  complete : ∀ q, ¬ h.store.index.Lacks d policy q

namespace Host.UpToDate

/-- A refresh of an entry leaves nothing but a line in the log, unless the entry is a root that is
known and is a link. -/
theorem refreshed (current : h.UpToDate d policy root) {s : Spelling} {reply : Reply}
    (served : Served policy (·.Reads d) (h.refresh policy (.ofSpelling s)) h' reply)
    (fine : Path.ofSpelling s = root → d.HasLink root → ¬ h.store.index.Known root) :
    h' = h ∨ ∃ line, h' = h.log line := by
  rcases served.refreshed with logged | ⟨g, sc, result, _, known, crawled, host, _⟩
  · exact Or.inr logged
  · have ended : ∀ {s' : Scope} {result : Except IndexError Bool},
        (s' = { store := h.store } ∨ ∃ line, s' = ({ store := h.store } : Scope).log line) →
        h' = (Host.finishRefresh (.ofSpelling s) result s'.remarks ⟨s'.store, h.roots⟩).1 →
        h' = h ∨ ∃ line, h' = h.log line := by
      rintro s' result (rfl | ⟨line, rfl⟩) rfl
      · cases result <;> exact Or.inl rfl
      · cases result <;> exact Or.inr ⟨line, rfl⟩
    cases stale : h.store.isStale g with
    | true =>
      have passed : (refreshCrawl policy g).addEntry (.ofSpelling s) { store := h.store } =
          ({ store := h.store }, .finished (.ok false)) :=
        if_pos stale
      rw [passed] at crawled
      cases crawled
      exact ended (Or.inl rfl) host
    | false =>
      rw [@Crawl.addEntry_outcome (refreshCrawl policy g) { store := h.store } stale] at crawled
      cases crawled with
      | @step _ _ _ r world _ reads moved rest =>
        cases moved
        have sighted := @Crawl.sighted_examined d (· = root) (refreshCrawl policy g) world
          { store := h.store } stale reads current.attested (.ofSpelling s)
        generalize (refreshCrawl policy g).examined (.ofSpelling s) (world.entry (.ofSpelling s))
          { store := h.store } = r at sighted rest
        have lacking : ∀ {st : Status}, ¬ h.store.index.Known (.ofSpelling s) →
            d.statEntry (Path.ofSpelling s).spelling = .ok st → st.kind ≠ .unknown →
            policy.ignores (.ofSpelling s) st.kind = false → False := by
          intro st unknown told kind taken
          have parent := known
          rw [show h.store.index.knows (.ofSpelling s) = false by
            simpa using mt Index.knows_iff.1 unknown, Bool.false_or, Index.knowsParent_iff] at parent
          obtain ⟨dir, parent, directory⟩ := parent
          obtain ⟨_, _, attests⟩ := current.attested.directory directory
          have plain := attests.plain.of_covers (Path.covers_of_parent parent)
          exact current.complete _ ⟨plain, unknown, ⟨dir, parent, directory⟩, st, told, kind, taken⟩
        cases sighted with
        | passed result same _ _ =>
          cases rest
          exact ended same host
        | dropped result known link index =>
          obtain ⟨st, found⟩ := Index.known_iff.1 known
          obtain ⟨kind, attests⟩ := current.attested.status found
          rcases attests.entry with told | own
          · obtain ⟨st', told', unknown⟩ := link
            cases told.symm.trans told'
            exact absurd unknown kind
          · exact absurd (own ▸ known) (fine own (own ▸ link))
        | directory unknown told kind taken _ _ =>
          exact (lacking unknown told (by simp [kind]) (kind ▸ taken)).elim
        | file unknown told kind taken _ _ =>
          exact (lacking unknown told (by simp [kind]) (kind ▸ taken)).elim

theorem log (current : h.UpToDate d policy root) (line : Log.Line) :
    (h.log line).UpToDate d policy root :=
  ⟨current.attested, current.complete⟩

end Host.UpToDate

/-- A root that is served and known, with everything known below it. -/
structure Host.Established (h : Host) (root : Path) : Prop where
  active : root ∈ h.roots.active
  live : h.store.cancelled = []
  known : root ∈ h.store.index.directories
  reached : ∀ p, h.store.index.Known p → h.store.index.Reaches root p

/-- A refresh of a known path below a root crawls the path. -/
theorem Served.refreshed_known {path : Path} {g : Generation} {reply : Reply}
    (served : Served policy admits (h.refresh policy path) h' reply)
    (covered : h.roots.generationFor path = some g) (known : h.store.index.Known path) :
    ∃ s result, Crawl.Served (refreshCrawl policy g) admits
        ((refreshCrawl policy g).addEntry path { store := h.store }) s result ∧
      h' = (Host.finishRefresh path result s.remarks ⟨s.store, h.roots⟩).1 := by
  unfold Host.refresh at served
  rw [covered] at served
  obtain ⟨s, result, crawled, host, _⟩ := served.of_resumeRefresh
  unfold Crawl.Context.refresh at crawled
  rw [if_pos (by simp [Index.knows_iff.2 known])] at crawled
  exact ⟨s, result, crawled, host⟩

/-- A refresh of a root that is a link forgets everything that is known below it. -/
theorem Host.Established.refreshed (established : h.Established root) (current : h.UpToDate d policy root)
    (link : d.HasLink root) {reply : Reply}
    (served : Served policy (·.Reads d) (h.refresh policy root) h' reply) :
    ∀ p, ¬ h'.store.index.Known p := by
  obtain ⟨g, covered⟩ : ∃ g, h.roots.generationFor root = some g := by
    cases found : h.roots.activeCovering root with
    | none => exact absurd (.refl root) (Roots.activeCovering_eq_none.1 found root established.active)
    | some entry => exact ⟨entry.2, by simp [Roots.generationFor, found]⟩
  have live : h.store.isStale g = false := by simp [Store.isStale, established.live]
  have filed := current.attested.filed
  obtain ⟨sc, result, crawled, host⟩ := served.refreshed_known covered (Or.inr established.known)
  rw [@Crawl.addEntry_outcome (refreshCrawl policy g) { store := h.store } live] at crawled
  have evicted : h'.store.index = (h.store.index.evict root).1 := by
    rw [host, (Host.finishRefresh_keeps root result sc.remarks ⟨sc.store, h.roots⟩).1.index]
    cases crawled with
    | @step _ _ _ r world _ reads moved rest =>
      cases moved
      have sighted := @Crawl.sighted_examined d (· = root) (refreshCrawl policy g) world
        { store := h.store } live reads current.attested root
      generalize (refreshCrawl policy g).examined root (world.entry root) { store := h.store } = r
        at sighted rest
      cases sighted with
      | passed result same _ present => exact absurd link (present (Or.inr established.known))
      | dropped result known link index =>
        cases rest
        exact index
      | directory unknown | file unknown => exact absurd (Or.inr established.known) unknown
  intro p known
  rw [evicted] at known
  rcases known with file | directory
  · obtain ⟨file, both⟩ := filed.mem_files_evict.1 file
    obtain ⟨st, found⟩ := Option.isSome_iff_exists.1 (Std.ExtTreeMap.mem_iff_isSome_getElem?.1 file)
    obtain ⟨kind, attests⟩ := current.attested.files p st found
    obtain ⟨st', kind', attests'⟩ := current.attested.directory (both (established.reached p (Or.inl file)))
    cases attests.told.symm.trans attests'.told
    cases kind.symm.trans kind'
  · obtain ⟨directory, unreached⟩ := filed.mem_directories_evict.1 directory
    exact unreached (established.reached p (Or.inr directory))

/-- Where nothing is known, a refresh is nobody's business. -/
theorem unknown_of_refreshes {refreshes : List Errand}
    (spelled : ∀ errand ∈ refreshes, ∃ s result, errand = .refresh (.ofSpelling s) result)
    (done : Errand.DoneAll policy admits refreshes h h') (unknown : ∀ p, ¬ h.store.index.Known p) :
    ∀ p, ¬ h'.store.index.Known p := by
  induction done with
  | nil h => exact unknown
  | @cons h k h' errand refreshes done rest ih =>
    obtain ⟨s, result, rfl⟩ := spelled errand (by simp)
    refine ih (fun later member => spelled later (by simp [member])) ?_
    cases done with
    | refresh served =>
      rcases served.refreshed with ⟨line, rfl⟩ | ⟨_, _, _, _, known, _⟩
      · exact unknown
      · rcases Bool.or_eq_true_iff.1 known with known | parent
        · exact absurd (Index.knows_iff.1 known) (unknown _)
        · obtain ⟨dir, _, directory⟩ := Index.knowsParent_iff.1 parent
          exact absurd (Or.inr directory) (unknown dir)

/-- Refreshes of an index that is up to date leave lines in the log and nothing else, unless one of
them is of a known root that is a link. -/
theorem Host.UpToDate.refreshes {refreshes : List Errand} (current : h.UpToDate d policy root)
    (spelled : ∀ errand ∈ refreshes, ∃ s result, errand = .refresh (.ofSpelling s) result)
    (done : Errand.DoneAll policy (·.Reads d) refreshes h h')
    (fine : (∃ result, .refresh root result ∈ refreshes) → d.HasLink root →
      ¬ h.store.index.Known root) :
    ∃ lines : List Log.Line, h' = lines.foldl Host.log h := by
  induction done with
  | nil h => exact ⟨[], rfl⟩
  | @cons h k h' errand refreshes done rest ih =>
    obtain ⟨s, result, rfl⟩ := spelled errand (by simp)
    have spelled := fun later member => spelled later (List.mem_cons_of_mem _ member)
    have passed : k = h ∨ ∃ line, k = h.log line := by
      cases done with
      | refresh served =>
        exact current.refreshed served fun own => fine ⟨result, own ▸ by simp⟩
    have fine : (∃ result, .refresh root result ∈ refreshes) → d.HasLink root →
        ¬ h.store.index.Known root :=
      fun ⟨result, member⟩ => fine ⟨result, by simp [member]⟩
    rcases passed with rfl | ⟨line, rfl⟩
    · exact ih current spelled fine
    · obtain ⟨lines, logged⟩ := ih (current.log line) spelled fine
      exact ⟨line :: lines, logged⟩

/-- Among refreshes of an index that is up to date, one of a known root that is a link leaves nothing
known. -/
theorem Host.Established.refreshes {refreshes : List Errand} (established : h.Established root)
    (current : h.UpToDate d policy root) (link : d.HasLink root)
    (spelled : ∀ errand ∈ refreshes, ∃ s result, errand = .refresh (.ofSpelling s) result)
    (done : Errand.DoneAll policy (·.Reads d) refreshes h h')
    (named : ∃ result, .refresh root result ∈ refreshes) : ∀ p, ¬ h'.store.index.Known p := by
  induction done with
  | nil h => simp at named
  | @cons h k h' errand refreshes done rest ih =>
    obtain ⟨s, result, rfl⟩ := spelled errand (by simp)
    have spelled := fun later member => spelled later (List.mem_cons_of_mem _ member)
    cases done with
    | refresh served =>
      by_cases own : Path.ofSpelling s = root
      · subst own
        exact unknown_of_refreshes spelled rest (established.refreshed current link served)
      · have named : ∃ result, .refresh root result ∈ refreshes := by
          obtain ⟨result, member⟩ := named
          refine ⟨result, (List.mem_cons.1 member).resolve_left fun same => own ?_⟩
          cases same
          rfl
        rcases current.refreshed served fun same => absurd same own with rfl | ⟨line, rfl⟩
        · exact ih established current spelled named
        · exact ih ⟨established.active, established.live, established.known, established.reached⟩
            (current.log line)
            spelled named

/-- After a watch on a fresh host that did not fail, remarks apart, the index is up to date, and a root
whose name is not denied is known with everything below it. -/
theorem watched_up_to_date {style : Backend.Style} {result : Except IndexError Unit}
    (tidy : d.isTidy = true) (plain : root.Plain)
    (watched : (Errand.watch root result).Done policy (·.Reads d)
      { store := .empty policy.layout.manifestName style } h)
    (mild : result = .ok () ∨ ∃ spelling found, result = .error (.diagnostics spelling found)) :
    h.UpToDate d policy root ∧ (policy.isDenied root = false → h.Established root) ∧
      (policy.isDenied root = true → ¬ h.store.index.Known root) := by
  have fresh : History policy (·.Reads d) [] { store := .empty policy.layout.manifestName style } :=
    .fresh _ style
  have absolute : root.isAbsolute = true := by
    obtain ⟨_, rfl, _⟩ := plain
    rfl
  have active := fresh.active_of_mild watched ⟨absolute, mild⟩ (by simp)
  cases watched with
  | watch served =>
    rcases fresh.settled.plan_cases root with ⟨_, _, covering, _⟩ | planned
    · simp at covering
    obtain ⟨s, ends, crawled, host, answer⟩ := served.of_start planned
    obtain rfl := Reply.watched.inj answer
    obtain ⟨changed, rfl⟩ := crawl_ok_of_watch (fun e spelling found failed =>
      (failed ▸ crawled).hard fresh.live spelling found) mild
    obtain ⟨⟨attested, outside, _, _, _⟩, well⟩ := crawled.surveyed tidy (fun _ reads => reads)
      fresh.live plain (by rfl) (Index.attested_empty policy.layout.manifestName d policy (· = root))
    obtain ⟨known, paid⟩ := well changed rfl
    have consistent := crawled.consistent (fun _ reads => World.Reads.listsOnce reads tidy) absolute
      (by rfl) (Index.consistent_empty policy.layout (· = root))
    have quiet : s.store.Quiet h.store := by
      rw [host]
      exact (Host.finishWatch_keeps root _ (.ok changed) s.remarks ⟨s.store, _⟩).1
    have below : ∀ p, s.store.index.Known p → root.Covers p := by
      intro p known
      by_contra out
      have before := known.imp (outside.files p out).1 (outside.directories p out).1
      simp [Store.empty, Index.empty] at before
    rw [← quiet.index] at attested known paid consistent below
    refine ⟨⟨attested, fun q lacks => ?_⟩, fun allowed => ⟨active, ?_, known.2 allowed, ?_⟩, ?_⟩
    · obtain ⟨dir, _, directory⟩ := (paid q lacks).parent
      simp [Store.empty, Index.empty] at directory
    · exact quiet.cancelled.trans crawled.edits.generations.1
    · intro p known
      exact consistent.anchored.reaches (fun q _ other => other) (below p known) known
    · intro denied known
      obtain ⟨st, attests⟩ := attested.known known
      cases denied.symm.trans (Policy.ignores_eq_false.1 attests.taken).1

/-- A root was watched on a fresh host without a failure, remarks apart, and then paths are refreshed,
in any order and any number of times, while the disk does not change.  Every refresh leaves the host as
it is but for lines in the log, unless the root is a link whose name is not denied and the root itself
is refreshed.  Then the root was known as a directory, and is not known at the end. -/
theorem refreshes_change_nothing_but_for_linked_root (policy : Policy) (d : Disk)
    (tidy : d.isTidy = true) (root : Path) (plain : root.Plain) (style : Backend.Style)
    (result : Except IndexError Unit) (h h' : Host)
    (watched : (Errand.watch root result).Done policy (·.Reads d)
      { store := .empty policy.layout.manifestName style } h)
    (mild : result = .ok () ∨ ∃ spelling found, result = .error (.diagnostics spelling found))
    (refreshes : List Errand)
    (spelled : ∀ errand ∈ refreshes, ∃ s result, errand = .refresh (.ofSpelling s) result)
    (done : Errand.DoneAll policy (·.Reads d) refreshes h h') :
    let forgetting := d.HasLink root ∧ policy.isDenied root = false ∧
      ∃ result, .refresh root result ∈ refreshes
    (¬ forgetting → ∃ lines : List Log.Line, h' = lines.foldl Host.log h) ∧
      (forgetting → h.store.index.isDirectory root = true ∧
        h'.store.index.isDirectory root = false) := by
  intro forgetting
  obtain ⟨current, established, denied⟩ := watched_up_to_date tidy plain watched mild
  constructor
  · intro fine
    refine current.refreshes spelled done fun named link => ?_
    cases name : policy.isDenied root with
    | true => exact denied name
    | false => exact absurd ⟨link, name, named⟩ fine
  · rintro ⟨link, allowed, named⟩
    have established := established allowed
    refine ⟨Index.isDirectory_iff.2 established.known, ?_⟩
    have forgotten := established.refreshes current link spelled done named root
    simpa using fun directory => forgotten (Or.inr (Index.isDirectory_iff.1 directory))

/-- A disk on which `/a` is a link to the directory `/real`, with a file in it. -/
def linkedPackage : Disk where
  root := .directory 0
    [([97], .link 0 (Utf8.encode "/real")),
      (.ofString "real", .directory 0 [(.ofString "x.js", .file 0 [])])]

/-- A host that watched the link `/a`. -/
def linkWatched : Host :=
  let fresh : Host := { store := .empty (.ofString "package.json") .recursive }
  (serve (.ofSettings {}) (fresh.watch ⟨[.root, .name [97]]⟩)
    (List.replicate 6 (.ofDisk linkedPackage))).1

theorem reads_replicate (d : Disk) (n : Nat) :
    ∀ world ∈ List.replicate n (World.ofDisk d), world.Reads d := by
  intro world member
  rw [List.eq_of_mem_replicate member]
  exact World.reads_ofDisk d

theorem linkWatched_done : (Errand.watch ⟨[.root, .name [97]]⟩ (.ok ())).Done (.ofSettings {})
    (·.Reads linkedPackage) { store := .empty (.ofString "package.json") .recursive } linkWatched := by
  refine .watch (.of_serve (reads_replicate linkedPackage 6) ?_)
  with_unfolding_all rfl

/-- The host after a refresh of a path. -/
def linkRefreshed (s : Spelling) (h : Host) : Host :=
  (serve (.ofSettings {}) (h.refresh (.ofSettings {}) (.ofSpelling s)) [.ofDisk linkedPackage]).1

/-- Refreshes of a known file, of a file that is not there and of a path that nobody watches, below and
beside a root that is a link. -/
theorem refreshes_change_nothing_but_for_linked_root_beside :
    ∃ lines : List Log.Line,
      linkRefreshed (.ofString "/real/x.js") (linkRefreshed (.ofString "/a/y.js")
        (linkRefreshed (.ofString "/a/x.js") linkWatched)) = lines.foldl Host.log linkWatched := by
  have done : Errand.DoneAll (.ofSettings {}) (·.Reads linkedPackage)
      [.refresh (.ofSpelling (.ofString "/a/x.js")) (.ok false),
        .refresh (.ofSpelling (.ofString "/a/y.js")) (.ok false),
        .refresh (.ofSpelling (.ofString "/real/x.js")) (.ok false)] linkWatched
      (linkRefreshed (.ofString "/real/x.js") (linkRefreshed (.ofString "/a/y.js")
        (linkRefreshed (.ofString "/a/x.js") linkWatched))) := by
    have one := reads_replicate linkedPackage 1
    refine .cons (.refresh (.of_serve one ?_)) (.cons (.refresh (.of_serve one ?_))
      (.cons (.refresh (.of_serve one ?_)) (.nil _)))
    · with_unfolding_all rfl
    · with_unfolding_all rfl
    · with_unfolding_all rfl
  refine (refreshes_change_nothing_but_for_linked_root (.ofSettings {}) linkedPackage
    (by decide +kernel) ⟨[.root, .name [97]]⟩ ⟨[[97]], rfl, ?_⟩ .recursive _ _ _ linkWatched_done
    (Or.inl rfl) _ ?_ done).1 ?_
  · simpa using Name.plain_of_isLegal (by decide)
  · simp
  · rintro ⟨_, _, result, member⟩
    simp only [List.mem_cons, Errand.refresh.injEq, List.not_mem_nil, or_false] at member
    rcases member with ⟨same, _⟩ | ⟨same, _⟩ | ⟨same, _⟩
    · exact absurd same (by decide +kernel)
    · exact absurd same (by decide +kernel)
    · exact absurd same (by decide +kernel)

/-- A refresh of a root that is a link forgets it, although nothing has changed. -/
theorem refresh_forgets_linked_root :
    ∃ h h' : Host,
      (Errand.watch ⟨[.root, .name [97]]⟩ (.ok ())).Done (.ofSettings {}) (·.Reads linkedPackage)
        { store := .empty (.ofString "package.json") .recursive } h ∧
      (Errand.refresh (.ofSpelling (.ofString "/a")) (.ok false)).Done (.ofSettings {})
        (·.Reads linkedPackage) h h' ∧
      h.store.index.isDirectory ⟨[.root, .name [97]]⟩ = true ∧
      h'.store.index.isDirectory ⟨[.root, .name [97]]⟩ = false ∧
      h.store.index.allFiles.length = 1 ∧ h'.store.index.allFiles = [] := by
  refine ⟨linkWatched, linkRefreshed (.ofString "/a") linkWatched, linkWatched_done,
    .refresh (.of_serve (reads_replicate linkedPackage 1) ?_), ?_⟩
  · with_unfolding_all rfl
  · decide +kernel

end Watch

end ProjectIndex
