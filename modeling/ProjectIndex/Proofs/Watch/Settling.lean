import ProjectIndex.Proofs.Crawl.OneEntry
import ProjectIndex.Proofs.Watch.Convergence
import ProjectIndex.Proofs.Watch.RoundTrip
import ProjectIndex.Proofs.Watch.Standstill

/-!
# One refresh settles one path

A refresh asks for the status of its path once.  If the path is taken in as what it is on disk, it is
known as that afterwards; otherwise it is not known, and neither is what the walk from it comes to.
Whatever else the refresh does is done below the path.

That is so whatever the index holds, as long as the disk does not change meanwhile, with three
exceptions.  When the status cannot be had for another reason than that nothing is found, the refresh
fails and nothing is done: a path below what used to be a directory stays known.  What is known below
the path without being listed in a known directory on the way is not come to.  And a path that is a file
and a directory at once stays a file.
-/

namespace ProjectIndex

def Disk.Offers (d : Disk) (policy : Policy) (p : Path) (kind : Kind) : Prop :=
  ∃ st, d.statEntry p.spelling = .ok st ∧ st.kind = kind ∧ policy.ignores p kind = false

/-- The disk tells what is at the path, or that nothing is found there. -/
def Disk.Tells (d : Disk) (p : Path) : Prop :=
  ∀ cause, d.statEntry p.spelling = .error cause → cause.isNotFound = true

namespace Disk

variable {d : Disk} {p : Path}

theorem offers_iff {st : Status} (told : d.statEntry p.spelling = .ok st) {policy : Policy} {kind : Kind} :
    d.Offers policy p kind ↔ st.kind = kind ∧ policy.ignores p kind = false := by
  constructor
  · rintro ⟨st', told', offered⟩
    cases told.symm.trans told'
    exact offered
  · exact fun offered => ⟨st, told, offered⟩

theorem not_offers_of_error {cause : DiskError} (failed : d.statEntry p.spelling = .error cause)
    (policy : Policy) (kind : Kind) : ¬ d.Offers policy p kind := by
  rintro ⟨st, told, _⟩
  cases failed.symm.trans told

end Disk

/-- A world that answers as the disk does answers as the site of the disk does. -/
theorem World.Reads.answers {world : World} {d : Disk} (reads : world.Reads d) (policy : Policy)
    (root : Path) : (d.site policy root).Answers world :=
  ⟨reads.entry, reads.children⟩

namespace Watch

open Std
open Crawl (Edits)

variable {policy : Policy} {admits : World → Prop} {h h' : Host} {errands : List Errand}

def System.Lively (s : System) : Prop :=
  ∀ (r : Path) (g : Generation), s.host.roots.active[r]? = some g → g ∉ s.host.store.cancelled

theorem System.Lively.step {s : System} (lively : s.Lively) (matched : s.Matched) (owned : s.Owned)
    (policy : Policy) (move : Move) : (s.step policy move).Lively := by
  intro r g active
  cases s.step_shift policy move with
  | same roots _ _ cancelled | refreshStarted _ _ _ _ _ roots _ _ cancelled
  | refreshEnded _ _ _ _ roots _ _ cancelled =>
    rw [roots] at active
    rw [cancelled]
    exact lively r g active
  | crawlStarted _ _ _ _ _ roots _ _ cancelled =>
    rw [roots, Roots.reserve_active] at active
    rw [cancelled]
    split at active
    · cases active
    · exact lively r g active
  | crawlEnded i root g' ok working roots _ _ cancelled =>
    have pending := matched.pending i root g' working
    have member : root ∈ s.host.roots.pending :=
      ExtTreeMap.mem_iff_isSome_getElem?.2 (by simp [pending])
    rw [roots, matched.apart.settlement member] at active
    rw [cancelled]
    split at active
    next wanted =>
      dsimp only [Roots.announce] at active
      rw [ExtTreeMap.getElem?_insert] at active
      split at active
      · obtain rfl := Option.some.inj active
        simpa [Store.isLive, Store.isStale] using (Bool.and_eq_true_iff.1 wanted).2
      · exact lively r g active
    · exact lively r g active
  | withdrawn root roots _ _ cancelled =>
    rw [roots] at active
    dsimp only [Roots.withdraw] at active
    have before := Roots.carried_of_erase active
    rw [cancelled, List.mem_append, List.mem_reverse, Roots.mem_withdraw]
    rintro ((⟨other, pending, _⟩ | own) | earlier)
    · obtain rfl := owned.one r other g (Or.inr before) (Or.inl pending)
      have waiting : r ∈ s.host.roots.pending := ExtTreeMap.mem_iff_isSome_getElem?.2 (by simp [pending])
      have watched : r ∈ s.host.roots.active := ExtTreeMap.mem_iff_isSome_getElem?.2 (by simp [before])
      exact matched.apart.disjoint r waiting watched
    · obtain rfl := owned.one r root g (Or.inr before) (Or.inr own)
      simp at active
    · exact lively r g before earlier

theorem System.Reachable.lively {s : System} (reachable : System.Reachable policy s) : s.Lively := by
  have all : s.Matched ∧ s.Owned ∧ s.Lively := by
    apply reachable.invariant (P := fun s => s.Matched ∧ s.Owned ∧ s.Lively)
    · intro name style
      refine ⟨System.orderly_fresh name style, System.owned_fresh name style, ?_⟩
      intro r g active
      simp [System.fresh] at active
    · rintro s move ⟨matched, owned, lively⟩
      exact ⟨matched.step policy move, owned.step matched policy move,
        lively.step matched owned policy move⟩
  exact all.2.2

/-- A path below an active root is refreshed in a live generation. -/
theorem History.generation (history : History policy admits errands h) {root p : Path}
    (active : root ∈ h.roots.active) (covers : root.Covers p) :
    ∃ g, h.roots.generationFor p = some g ∧ h.store.isStale g = false := by
  obtain ⟨s, reachable, rfl⟩ := history.reachable
  cases found : s.host.roots.activeCovering p with
  | none => exact absurd covers (Roots.activeCovering_eq_none.1 found root active)
  | some entry =>
    have carried := (Roots.activeCovering_eq_some found).1
    refine ⟨entry.2, ?_, ?_⟩
    · simp [Roots.generationFor, found]
    · simpa [Store.isStale] using reachable.lively _ _ carried

/-- After any requests the index knows what the policy takes in. -/
theorem History.abides (history : History policy admits errands h) :
    h.store.index.Abides policy := by
  induction history with
  | fresh name style => exact Index.abides_empty name policy
  | @next errands h h' errand before done ih =>
    have filed := before.kinded.1
    cases done.rewrites before.settled with
    | same index => rwa [index]
    | crawl _ crawled index =>
      rw [index]
      exact Crawl.Edits.abides crawled.edits filed ih
    | @refresh path _ g _ _ _ _ served index =>
      have added : Edits (refreshCrawl policy g) h.store
          ((refreshCrawl policy g).addEntry path { store := h.store }).1.store := by
        unfold Crawl.Context.addEntry
        split <;> exact .refl
      rw [index]
      exact Crawl.Edits.abides (added.trans served.edits) filed ih
    | @evict root _ index =>
      rw [index]
      exact ih.evict filed root

/-- Whatever the admitted worlds answer and whichever wait ends first, the request is answered. -/
inductive Answered (policy : Policy) (admits : World → Prop) : Host × Progress → Prop where
  | finished (h : Host) (reply : Reply) : Answered policy admits (h, .finished reply)
  | waiting {h : Host} {call : Call}
      (each : ∀ (world : World) (schedule : List Nat), admits world →
        Answered policy admits (call.step policy world schedule h)) :
      Answered policy admits (h, .waiting call)

/-- A refresh is answered if directories do not nest without end. -/
theorem answered_resumeRefresh {site : Site} {bound : Nat} (lists : site.Lists)
    (shallow : site.Shallow bound) (answers : ∀ world, admits world → site.Answers world) {g : Generation}
    (path : Path) (roots : Roots) {r : Scope × Crawl.Progress} (live : r.1.store.isStale g = false)
    (treads : ∀ task, r.2 = .waiting task → task.Treads site) :
    Answered site.policy admits (Host.resumeRefresh path g roots r) := by
  induction waits : r.2.cost (site.weight bound) using Nat.strong_induction_on generalizing r with
  | _ n ih =>
    obtain ⟨s, task | result⟩ := r
    · apply Answered.waiting
      intro world schedule admitted
      have moved := Crawl.Task.step_moves (refreshCrawl site.policy g) world schedule task s
      have answer := answers world admitted
      have here := treads task rfl
      have cheaper := moved.cheaper_of_treads lists shallow answer live here
      apply ih _ (waits ▸ cheaper) ?_ (moved.treads lists rfl answer live here) rfl
      exact (moved.edits.isStale g).trans live
    · exact .finished _ _

/-- The second index has the path as the disk has it and the policy takes it in. -/
structure AsOnDisk (d : Disk) (policy : Policy) (p : Path) (ix ix' : Index) : Prop where
  directory : p ∈ ix'.directories ↔ d.Offers policy p .directory
  file : p ∈ ix'.files ↔ d.Offers policy p .file
  /-- A path that is not taken in goes with what the walk from it comes to. -/
  below : ¬ d.Offers policy p .directory → ¬ d.Offers policy p .file → ∀ q,
    (ix'.Known q ↔ ix.Known q ∧ (¬ ix.Reaches p q ∨ (q ∈ ix.files ∧ q ∈ ix.directories)))

/-- What a refresh of the path on this disk makes of an index, and how it is answered. -/
structure Settles (d : Disk) (policy : Policy) (p : Path) (ix ix' : Index)
    (result : Except IndexError Bool) : Prop where
  /-- Nothing but the path and what is below it changes. -/
  beyond : ix.SameBeyond ix' p
  mirrors : d.Tells p → (p ∈ ix.files → p ∉ ix.directories) → AsOnDisk d policy p ix ix'
  /-- A path that is a file and a directory at once stays a file. -/
  both : p ∈ ix.files → p ∈ ix.directories → p ∈ ix'.files
  /-- If nothing is found, a path that was known is answered as a change. -/
  missing : ∀ cause, d.statEntry p.spelling = .error cause → cause.isNotFound = true →
    result = .ok (ix.knows p)
  /-- If the status cannot be had, and not because nothing is found, nothing is done, and that is the
  failure that is answered. -/
  failed : ∀ cause, d.statEntry p.spelling = .error cause → cause.isNotFound = false →
    ix' = ix ∧ result = .error (.io p.spelling cause)

/-- A refresh of a known path, or of a path in a known directory, below an active root asks for the
status of the path, and is answered as its crawl ends. -/
theorem Served.refreshed_hooked {path : Path} {g : Generation} {reply : Reply}
    (served : Served policy admits (h.refresh policy path) h' reply)
    (covered : h.roots.generationFor path = some g) (live : h.store.isStale g = false)
    (hooked : (h.store.index.knows path || h.store.index.knowsParent path) = true) :
    ∃ world s result, admits world ∧
      Crawl.Served (refreshCrawl policy g) admits
        ((refreshCrawl policy g).examined path (world.entry path) { store := h.store }) s result ∧
      h' = (Host.finishRefresh path result s.remarks ⟨s.store, h.roots⟩).1 ∧
      reply = .refreshed (Host.finishRefresh path result s.remarks ⟨s.store, h.roots⟩).2 := by
  unfold Host.refresh at served
  rw [covered] at served
  obtain ⟨s, result, crawled, host, answer⟩ := served.of_resumeRefresh
  unfold Crawl.Context.refresh at crawled
  rw [if_pos hooked, @Crawl.addEntry_outcome (refreshCrawl policy g) { store := h.store } live] at crawled
  cases crawled with
  | @step _ _ _ r world _ admitted moved rest =>
    cases moved
    exact ⟨world, s, result, admitted, rest, host, answer⟩

/-- Without remarks a refresh is answered as its crawl ends. -/
theorem Host.finishRefresh_plain (path : Path) (result : Except IndexError Bool) (h : Host) :
    Host.finishRefresh path result [] h = (h, result) := by
  cases result <;> rfl

section

variable {d : Disk} {p : Path} {ix ix' : Index} {cause : DiskError}

/-- A failure leaves the index as it is. -/
theorem settles_of_failed (told : d.statEntry p.spelling = .error cause)
    (hard : cause.isNotFound = false) :
    Settles d policy p ix ix (.error (.io p.spelling cause)) where
  beyond := .refl ix p
  mirrors tells _ := by cases hard.symm.trans (tells cause told)
  both file _ := file
  missing _ told' gone := by
    cases told.symm.trans told'
    cases hard.symm.trans gone
  failed _ told' _ := by
    cases told.symm.trans told'
    exact ⟨rfl, rfl⟩

/-- What is not found goes. -/
theorem settles_of_missing (told : d.statEntry p.spelling = .error cause)
    (gone : cause.isNotFound = true) (filed : ix.Filed) (beyond : ix.SameBeyond (ix.without p) p)
    (both : p ∈ ix.files → p ∈ ix.directories → p ∈ (ix.without p).files) :
    Settles d policy p ix (ix.without p) (.ok (ix.knows p)) where
  beyond
  mirrors _ apart := by
    have absent := Disk.not_offers_of_error told policy
    constructor
    · exact iff_of_false filed.not_directory_without (absent .directory)
    · exact iff_of_false (filed.not_file_without apart) (absent .file)
    · exact fun _ _ _ => filed.known_without
  both
  missing _ _ _ := rfl
  failed _ told' hard := by
    cases told.symm.trans told'
    cases hard.symm.trans gone

variable {g : Generation} {s : Scope}

/-- What is found becomes what it is, if the rest of the crawl leaves the entry as its status has made
it. -/
theorem settles_of_found {st : Status} {result : Except IndexError Bool}
    (told : d.statEntry p.spelling = .ok st) (live : s.store.isStale g = false)
    (filed : s.store.index.Filed)
    (kinded : (p ∈ s.store.index.files → p ∉ s.store.index.directories) →
      s.store.index.Kinded (· ≠ p))
    (abides : s.store.index.Abides policy) {r : Scope × Crawl.Progress}
    (examined : (refreshCrawl policy g).examined p (.ok st) s = r)
    (same : r.1.store.index.SameEntry ix' p)
    (closed : ∀ early, r.2 = .finished early → ix' = r.1.store.index)
    (beyond : s.store.index.SameBeyond ix' p) :
    Settles d policy p s.store.index ix' result where
  beyond
  mirrors _ apart := by
    have settled := @Crawl.examined_settles (refreshCrawl policy g) s p live filed (kinded apart) abides st
    rw [examined] at settled
    constructor
    · rw [same.directory, Disk.offers_iff told]
      exact settled.1
    · rw [same.file, Disk.offers_iff told]
      exact settled.2.1
    · intro noDirectory noFile q
      rw [Disk.offers_iff told] at noDirectory noFile
      have left : st.kind = .unknown ∨ policy.ignores p st.kind = true := by
        cases kind : st.kind with
        | unknown => exact Or.inl rfl
        | directory => simpa [kind] using noDirectory
        | file => simpa [kind] using noFile
      obtain ⟨dropped, ends⟩ := settled.2.2 left
      rw [closed _ ends, dropped]
      exact filed.known_without
  both file directory := by
    have kept := @Crawl.examined_both (refreshCrawl policy g) s p live filed file directory (.ok st)
    rw [examined] at kept
    exact same.file.2 kept
  missing _ told' := by cases told.symm.trans told'
  failed _ told' := by cases told.symm.trans told'

/-- The crawl of a refreshed path settles it, once the disk has been asked for the status of the path. -/
theorem settles_of_crawl {s' : Scope} {ends : Except IndexError Bool} {anchor : Path → Prop} (host : Host)
    (crawled : Crawl.Served (refreshCrawl policy g) (·.Reads d)
      ((refreshCrawl policy g).examined p (d.statEntry p.spelling) s) s' ends)
    (tidy : d.isTidy = true) (plain : p.Plain) (absolute : p.isAbsolute = true)
    (live : s.store.isStale g = false) (quiet : s.remarks = [])
    (consistent : s.store.index.Consistent policy.layout anchor) (abides : s.store.index.Abides policy)
    (beyond : s.store.index.SameBeyond s'.store.index p) :
    Settles d policy p s.store.index s'.store.index (Host.finishRefresh p ends s'.remarks host).2 := by
  have filed := consistent.filed
  cases told : d.statEntry p.spelling with
  | error cause =>
    rw [told] at crawled
    cases gone : cause.isNotFound with
    | false =>
      rw [Crawl.examined_failed p gone] at crawled
      obtain ⟨rfl, rfl⟩ := crawled.of_finished
      rw [quiet, Host.finishRefresh_plain]
      exact settles_of_failed told gone
    | true =>
      obtain ⟨s'', examined, remarks, dropped⟩ :=
        @Crawl.examined_missing (refreshCrawl policy g) s live p cause gone
      rw [examined] at crawled
      obtain ⟨rfl, rfl⟩ := crawled.of_finished
      rw [remarks, quiet, Host.finishRefresh_plain, dropped]
      rw [dropped] at beyond
      apply settles_of_missing told gone filed beyond
      intro file directory
      have kept := @Crawl.examined_both (refreshCrawl policy g) s p live filed file directory (.error cause)
      rwa [examined, dropped] at kept
  | ok st =>
    rw [told] at crawled
    have listed : ∀ dir, (d.site policy p).Opens dir →
        ∃ cs, (d.site policy p).world.children dir = .ok cs := by
      intro dir opens
      obtain ⟨st', here, kind⟩ := opens.directory
      exact Disk.children_of_directory (Disk.stat_of_statEntry here (by simp [kind])) kind
    have same := crawled.sameEntry_examined told (Disk.site_lists tidy policy p) rfl
      (fun _ reads => reads.answers policy p) (fun _ reads => reads.listsOnce tidy) listed
      ⟨.refl p, plain⟩ absolute live filed
    apply settles_of_found told live filed ?_ abides rfl same ?_ beyond
    · intro apart
      refine ⟨consistent.kinded.fileKind, consistent.kinded.directoryKind, ?_⟩
      rintro q file directory rfl
      exact apart file directory
    · intro early closed
      generalize (refreshCrawl policy g).examined p (.ok st) s = r at crawled closed ⊢
      obtain ⟨s'', next⟩ := r
      cases closed
      rw [crawled.of_finished.1]

end

/-- A refresh of an absolute path, however it ends, changes nothing but the path and what is below it. -/
theorem Errand.Done.sameBeyond {p : Path} {result : Except IndexError Bool} {anchor : Path → Prop}
    (done : (Errand.refresh p result).Done policy admits h h') (settled : h.Settled)
    (lists : ∀ world, admits world → world.ListsOnce) (absolute : p.isAbsolute = true)
    (consistent : h.store.index.Consistent policy.layout anchor) :
    h.store.index.SameBeyond h'.store.index p := by
  cases done.rewrites settled with
  | same index =>
    rw [index]
    exact .refl _ p
  | refresh covered known served index =>
    rw [index]
    exact sameBeyond_refresh served known lists (.refl p) absolute consistent

/-- After any requests on absolute roots, each served to its end, failed or not, in worlds that may
answer differently at every wait as long as they list the entries of a directory once: a refresh of a
path below an active root, which is known or is in a known directory, beside a disk that does not change
meanwhile, is answered whatever else the system answers and in whatever order entries are crawled, and
it settles the path. -/
theorem refresh_settles (policy : Policy) (errands : List Errand) (h : Host)
    (history : History policy World.ListsOnce errands h)
    (absolute : ∀ root result, .watch root result ∈ errands → root.isAbsolute = true)
    (name : h.store.index.manifestName = policy.layout.manifestName) (d : Disk)
    (tidy : d.isTidy = true) (root : Path) (active : root ∈ h.roots.active) (s : Spelling)
    (covers : root.Covers (.ofSpelling s))
    (hooked : (h.store.index.knows (.ofSpelling s) || h.store.index.knowsParent (.ofSpelling s)) = true) :
    Answered policy (·.Reads d) (h.refresh policy (.ofSpelling s)) ∧
      ∀ result h', (Errand.refresh (.ofSpelling s) result).Done policy (·.Reads d) h h' →
        Settles d policy (.ofSpelling s) h.store.index h'.store.index result := by
  obtain ⟨g, covered, live⟩ := history.generation active covers
  have rooted : (Path.ofSpelling s).isAbsolute = true :=
    covers.isAbsolute (history.absolute absolute root active)
  have plain := Path.plain_ofSpelling rooted
  generalize Path.ofSpelling s = p at *
  constructor
  · have starts : h.refresh policy p =
        Host.resumeRefresh p g h.roots ({ store := h.store }, .waiting (.entry p)) := by
      simp only [Host.refresh, covered, Crawl.Context.refresh]
      rw [if_pos hooked, @Crawl.addEntry_outcome (refreshCrawl policy g) { store := h.store } live]
    rw [starts]
    apply answered_resumeRefresh (Disk.site_lists tidy policy p) (Disk.site_shallow tidy policy p)
      (fun _ reads => reads.answers policy p) p h.roots live
    intro task waits
    cases waits
    exact .entry ⟨.refl p, plain⟩
  · intro result h' done
    have consistent := history.consistent absolute name
    have beyond := done.sameBeyond history.settled (fun _ reads => reads.listsOnce tidy) rooted consistent
    cases done with
    | refresh served =>
      obtain ⟨world, s', ends, reads, crawled, host, reply⟩ := served.refreshed_hooked covered live hooked
      have told : world.entry p = d.statEntry p.spelling := congrFun reads.entry p
      have index : h'.store.index = s'.store.index := by
        rw [host]
        exact (Host.finishRefresh_keeps p ends s'.remarks ⟨s'.store, h.roots⟩).1.index
      rw [told] at crawled
      rw [index] at beyond ⊢
      cases reply
      exact settles_of_crawl _ crawled tidy plain rooted live rfl consistent history.abides beyond

/-- A disk on which `/w` holds these entries. -/
def diskWith (entries : List (Name × Node)) : Disk where
  root := .directory 0 [(.ofString "w", .directory 0 entries)]

def folder : Name × Node :=
  (.ofString "d", .directory 0 [(.ofString "f.js", .file 0 [])])

/-- A host that watched `/w` while the directory was there. -/
def folderWatched : Host :=
  let fresh : Host := { store := .empty (.ofString "package.json") .recursive }
  (serve (.ofSettings {}) (fresh.watch ⟨[.root, .name (.ofString "w")]⟩)
    (List.replicate 10 (.ofDisk (diskWith [folder])))).1

theorem folderWatched_history : History (.ofSettings {}) World.ListsOnce
    [.watch ⟨[.root, .name (.ofString "w")]⟩ (.ok ())] folderWatched := by
  refine .next (.fresh (.ofString "package.json") .recursive)
    (.watch (.of_serve (World.listsOnce_replicate (by decide) 10) ?_))
  with_unfolding_all rfl

/-- A refresh of a known directory that is gone is a change, and its file goes with it. -/
theorem refresh_settles_folder_gone :
    ∃ h', (Errand.refresh (.ofSpelling (.ofString "/w/d")) (.ok true)).Done (.ofSettings {})
        (·.Reads (diskWith [])) folderWatched h' ∧
      Settles (diskWith []) (.ofSettings {}) (.ofSpelling (.ofString "/w/d"))
        folderWatched.store.index h'.store.index (.ok true) ∧
      folderWatched.store.index.isFile (.ofSpelling (.ofString "/w/d/f.js")) = true ∧
      h'.store.index.isFile (.ofSpelling (.ofString "/w/d/f.js")) = false := by
  have settles := (refresh_settles (.ofSettings {}) _ folderWatched folderWatched_history
    (by simp [Path.isAbsolute]) (by decide +kernel) (diskWith []) (by decide)
    ⟨[.root, .name (.ofString "w")]⟩ (by decide +kernel) (.ofString "/w/d") (by decide +kernel)
    (by decide +kernel)).2
  have done : (Errand.refresh (.ofSpelling (.ofString "/w/d")) (.ok true)).Done (.ofSettings {})
      (·.Reads (diskWith [])) folderWatched
      (serve (.ofSettings {}) (folderWatched.refresh (.ofSettings {}) (.ofSpelling (.ofString "/w/d")))
        [.ofDisk (diskWith [])]).1 := by
    refine .refresh (.of_serve (reads_replicate (diskWith []) 1) ?_)
    with_unfolding_all rfl
  exact ⟨_, done, settles _ _ done, by decide +kernel, by decide +kernel⟩

/-- A refresh of a known file, after the directory it was in has turned into a file, fails, and the
file stays known. -/
theorem refresh_fails_below_former_directory :
    ∃ errands h h', History (.ofSettings {}) World.ListsOnce errands h ∧
      ⟨[.root, .name (.ofString "w")]⟩ ∈ h.roots.active ∧
      h.store.index.isFile (.ofSpelling (.ofString "/w/d/f.js")) = true ∧
      (Errand.refresh (.ofSpelling (.ofString "/w/d/f.js"))
          (.error (.io (Path.ofSpelling (.ofString "/w/d/f.js")).spelling .notADirectory))).Done
        (.ofSettings {}) (·.Reads (diskWith [(.ofString "d", .file 0 [])])) h h' ∧
      h'.store.index.isFile (.ofSpelling (.ofString "/w/d/f.js")) = true := by
  refine ⟨_, folderWatched, (serve (.ofSettings {})
      (folderWatched.refresh (.ofSettings {}) (.ofSpelling (.ofString "/w/d/f.js")))
      [.ofDisk (diskWith [(.ofString "d", .file 0 [])])]).1, folderWatched_history, ?_, ?_,
    .refresh (.of_serve (reads_replicate (diskWith [(.ofString "d", .file 0 [])]) 1) ?_), ?_⟩
  · decide +kernel
  · decide +kernel
  · with_unfolding_all rfl
  · decide +kernel

end Watch

end ProjectIndex
