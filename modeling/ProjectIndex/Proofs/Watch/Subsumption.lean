import ProjectIndex.Proofs.Crawl.Accretion
import ProjectIndex.Proofs.Watch.Exactness
import ProjectIndex.Proofs.Watch.Histories

/-!
# A watch above takes over a watch below

On a disk that does not change, watching a directory and then a directory above it comes to the same
as watching the one above alone.  What the first watch has left is an excerpt of what the second one
should know, so the second crawl passes over it and only adds what is missing.  The directory that was
watched first is no root any more; nothing is announced twice, and nothing is asked for twice.
-/

namespace ProjectIndex

open Crawl (Gathered)

def Definition.text (D : Definition) : Path × Path × Manifest × String :=
  (D.path, D.directory, D.manifest, D.hash)

/-- The indexes say the same, up to the numbers of the manifests. -/
structure Index.Alike (ix ix' : Index) : Prop where
  files : ix.files = ix'.files
  directories : ix.directories = ix'.directories
  listings : ix.listings = ix'.listings
  manifests : ∀ d : Path, (ix.manifests[d]?).map Definition.text = (ix'.manifests[d]?).map Definition.text

/-- What the file at a path holds is one manifest. -/
theorem Site.Holds.text_eq {site : Site} {D E : Definition} (holds : site.Holds D)
    (holds' : site.Holds E) (same : E.path = D.path) : E.text = D.text := by
  obtain ⟨bytes, read, valid, hash⟩ := holds.read
  obtain ⟨bytes', read', valid', hash'⟩ := holds'.read
  have directory : E.directory = D.directory :=
    Option.some.inj (holds'.inside.symm.trans (same ▸ holds.inside))
  rw [same, read] at read'
  cases read'
  rw [same, valid] at valid'
  simp only [Definition.text, same, directory, hash, hash', Option.some.inj valid']

namespace Crawl.Gathered

variable {site : Site} {others : Path → Prop} {s t : Store}

/-- Nothing but the root is missing next to nothing. -/
theorem fresh (site : Site) (name : Name) (style : Backend.Style) :
    Gathered site (· = site.root) (.empty name style) where
  excerpt := excerpt_empty site name
  balanced := ⟨fun p => rfl, fun f => rfl, by simp [Store.empty, Store.notices]⟩
  current q outdated := by
    by_contra other
    obtain ⟨d, sd, _, _, _, found⟩ := outdated.above_known other
    simp [Store.empty, Index.empty, Index.status?] at found
  honest d := by
    rintro ⟨D, found, _⟩
    simp [Store.empty, Index.empty] at found
  declared f due := by
    have file := due.file
    simp [Store.empty, Index.empty] at file

/-- Bookkeeping that asks for no directory changes nothing here. -/
theorem kept (gathered : Gathered site others s) (index : t.index = s.index)
    (notices : t.notices = s.notices)
    (asked : ∀ p, t.calls.count (.watchDirectory, p) = s.calls.count (.watchDirectory, p)) :
    Gathered site others t where
  excerpt := index ▸ gathered.excerpt
  balanced := by
    refine ⟨fun p => ?_, fun f => ?_, notices ▸ gathered.balanced.plain⟩
    · rw [asked, index, gathered.balanced.asked]
    · rw [notices, index, gathered.balanced.told]
  current := index ▸ gathered.current
  honest := index ▸ gathered.honest
  declared := index ▸ gathered.declared

theorem mono {wider : Path → Prop} (gathered : Gathered site others s)
    (more : ∀ q, others q → wider q) : Gathered site wider s :=
  ⟨gathered.excerpt, gathered.balanced, fun q outdated => more q (gathered.current q outdated),
    gathered.honest, gathered.declared⟩

/-- What is installed here is installed wherever the same files are known. -/
theorem installed (gathered : Gathered site others s) {others' : Path → Prop}
    (gathered' : Gathered site others' t) (files : s.index.files = t.index.files) {d : Path}
    {D : Definition} (found : s.index.manifests[d]? = some D) :
    ∃ E, t.index.manifests[d]? = some E ∧ E.text = D.text := by
  obtain ⟨own, holds, file⟩ := (manifests_of_settled gathered.honest gathered.declared).1 d D found
  obtain ⟨right, complete⟩ := manifests_of_settled gathered'.honest gathered'.declared
  obtain ⟨E, there, same⟩ := complete D holds (files ▸ file)
  rw [own] at there
  exact ⟨E, there, holds.text_eq (right d E there).holds same⟩

/-- Where nothing is missing, everything but the numbers is as the disk has it. -/
theorem alike (gathered : Gathered site (fun _ => False) s)
    (gathered' : Gathered site (fun _ => False) t) : s.index.Alike t.index := by
  have agrees := gathered.excerpt.agrees_everywhere gathered.current
  have agrees' := gathered'.excerpt.agrees_everywhere gathered'.current
  obtain ⟨files, directories, listings⟩ :=
    gathered.excerpt.orderly.tables_eq gathered'.excerpt.orderly fun p =>
      Option.ext fun st => (agrees p st).trans (agrees' p st).symm
  refine ⟨files, directories, listings, fun d => ?_⟩
  cases found : s.index.manifests[d]? with
  | some D =>
    obtain ⟨E, there, same⟩ := gathered.installed gathered' files found
    simp [there, same]
  | none =>
    cases there : t.index.manifests[d]? with
    | none => rfl
    | some E =>
      obtain ⟨D, here, _⟩ := gathered'.installed gathered files.symm there
      cases found.symm.trans here

end Crawl.Gathered

namespace Watch

/-- A root that is released is no directory that is asked for. -/
private theorem releaseRoot_asked (s : Store) (r p : Path) :
    (s.releaseRoot r).calls.count (.watchDirectory, p) = s.calls.count (.watchDirectory, p) := by
  rw [(Store.releaseRoot_recorded s r).2]
  simp

namespace Host

private theorem foldl_asked {f : Host → Path → Host} {p : Path}
    (each : ∀ h r, (f h r).store.calls.count (.watchDirectory, p) =
      h.store.calls.count (.watchDirectory, p)) (h : Host) (roots : List Path) :
    (roots.foldl f h).store.calls.count (.watchDirectory, p) =
      h.store.calls.count (.watchDirectory, p) := by
  induction roots generalizing h with
  | nil => rfl
  | cons r rest ih => exact (ih (f h r)).trans (each h r)

/-- Before its crawl, a watch asks for no directory. -/
theorem opened_asked {h : Host} {root : Path} {subsumed : List Path}
    (planned : h.roots.plan root = .start subsumed) (p : Path) :
    (((h.watch root).1.store.askRoot root).rootTaken root).calls.count (.watchDirectory, p) =
      h.store.calls.count (.watchDirectory, p) := by
  have asked : ((h.watch root).1.store.askRoot root).calls =
    (.openRoot, root) :: (h.watch root).1.store.calls := rfl
  rw [(Store.rootTaken_recorded _ root).2, asked, List.count_cons_of_ne (by simp)]
  simp only [watch, planned]
  refine foldl_asked (fun k r => (releaseRoot_asked _ r p).trans ?_) _ subsumed
  exact congrArg _ (Store.aside_log k.store _).calls

/-- When its crawl has ended well, a watch asks for no directory any more. -/
theorem finishWatch_asked (root : Path) (g : Generation) (changed : Bool)
    (remarks : List Diagnostic) (h : Host) (p : Path) :
    (finishWatch root g (.ok changed) remarks h).1.store.calls.count (.watchDirectory, p) =
      h.store.calls.count (.watchDirectory, p) := by
  have settled : (h.settle root g true).store.calls.count (.watchDirectory, p) =
      h.store.calls.count (.watchDirectory, p) := by
    unfold settle
    dsimp only
    split
    · rfl
    · exact (releaseRoot_asked _ root p).trans (congrArg _ (Store.aside_log _ _).calls)
    · exact foldl_asked (fun k r => releaseRoot_asked k.store r p) _ _
  unfold finishWatch
  dsimp only
  split
  · exact (congrArg _ (Store.aside_log _ _).calls).trans settled
  · refine (congrArg _ ((warn_aside _ remarks).calls.trans ?_)).trans settled
    exact (Store.aside_log _ _).calls

end Host

namespace Host.Settled

/-- A watch on a settled host starts if no active root covers it. -/
theorem plan_of_uncovered {h : Host} (settled : h.Settled) {root : Path}
    (uncovered : ∀ r, r ∈ h.roots.active → ¬ r.Covers root) :
    h.roots.plan root = .start (h.roots.activeBelow root) := by
  rcases settled.plan_cases root with ⟨above, _, active, covers⟩ | planned
  · exact absurd covers (uncovered above active)
  · exact planned

/-- When its crawl has ended, a root is active if it ended well, and those below it are not. -/
theorem mem_active_after {h : Host} (settled : h.Settled) {root : Path} {subsumed : List Path}
    (planned : h.roots.plan root = .start subsumed) (g : Generation) (wanted ok : Bool) (r : Path) :
    r ∈ (((h.roots.reserve root g).settle root g wanted).1.announce g ok).active ↔
      (wanted = true ∧ r = root) ∨ (r ∈ h.roots.active ∧ ¬ root.Covers r) := by
  rw [Std.ExtTreeMap.mem_iff_isSome_getElem?, (settled.finish_reserved planned g wanted ok).2.2 r]
  by_cases own : root = r
  · subst own
    have inactive : root ∉ h.roots.active := fun active =>
      (Roots.plan_eq_start planned).2.1 root active (.refl root)
    cases wanted <;> simp [inactive]
  · rw [Std.ExtTreeMap.mem_iff_isSome_getElem?]
    by_cases below : root.Covers r
    · simp [own, Ne.symm own, below]
    · simp [own, Ne.symm own, below]

/-- When its crawl has ended well, a root is active in place of those below it. -/
theorem active_after {h : Host} (settled : h.Settled) {root : Path} {subsumed : List Path}
    (planned : h.roots.plan root = .start subsumed) (g : Generation) (r : Path) :
    r ∈ (((h.roots.reserve root g).settle root g true).1.announce g true).active ↔
      r = root ∨ (r ∈ h.roots.active ∧ ¬ root.Covers r) := by
  rw [settled.mem_active_after planned]
  simp

end Host.Settled

/-- The watch of the root was answered without a failure, remarks apart. -/
def Reply.Mild (root : Path) (reply : Reply) : Prop :=
  reply = .watched (.ok ()) ∨
    ∃ remarks, reply = .watched (.error (.diagnostics root.spelling remarks))

section

variable {site : Site} {bound : Nat} {others : Path → Prop} {h : Host} {p : Path} {st : Status}

/-- A watch of a directory of the tree, on a host that knows an excerpt of it in which nothing but that
directory may be missing next to what is known.  Whatever the schedule is, it ends, and has added what
was missing. -/
theorem watch_gathers (lists : site.Lists) (faithful : site.Faithful) (shallow : site.Shallow bound)
    (settled : h.Settled) (live : h.store.cancelled = [])
    (uncovered : ∀ r, r ∈ h.roots.active → ¬ r.Covers p)
    (gathered : Gathered site (fun q => others q ∨ q = p) h.store) (wants : site.Wants p st)
    (kind : st.kind = .directory) (stat : site.world.stat p = .ok st)
    (opened : site.world.openRoot p = .ok ()) :
    Halts site.policy site.world (h.watch p) ∧
      ∀ h' reply, Completes site.policy site.world (h.watch p) h' reply →
        reply.Mild p ∧ h'.Settled ∧ h'.store.cancelled = [] ∧ Gathered site others h'.store ∧
        ∀ r, r ∈ h'.roots.active ↔ r = p ∨ (r ∈ h.roots.active ∧ ¬ p.Covers r) := by
  let g := h.store.nextGeneration
  let store := ((h.watch p).1.store.askRoot p).rootTaken p
  have planned := settled.plan_of_uncovered uncovered
  have quiet : ({ h.store with nextGeneration := g + 1 } : Store).Quiet store := quiet_opened planned
  have still : store.isStale g = false := by simp [Store.isStale, quiet.cancelled, live]
  have begun : Gathered site (fun q => others q ∨ q = p) store :=
    gathered.kept quiet.index quiet.notices (Host.opened_asked planned)
  have gathering := @Crawl.gathering_start site (firstCrawl site.policy g) others { store } p st
    faithful rfl rfl still begun wants kind
  obtain ⟨completes_of, halts_of⟩ := watch_opened planned stat kind opened
  constructor
  · refine halts_of fun schedule => ?_
    obtain ⟨n, s, result, ends⟩ := gathering.ends lists shallow faithful rfl rfl schedule
    exact ⟨n, _, _, (after_resumeWatch p g _ schedule _ n).trans (congrArg _ ends)⟩
  · intro h' reply completes
    obtain ⟨schedule, n, ends⟩ := completes_of h' reply completes
    rw [after_resumeWatch] at ends
    generalize reached : Crawl.after (firstCrawl site.policy g) site.world schedule
      ((firstCrawl site.policy g).addDirectory p st { store }) n = r at ends
    obtain ⟨s, task | result⟩ := r
    · cases ends
    · obtain ⟨⟨changed, rfl⟩, live', gathered'⟩ :=
        gathering.result lists faithful rfl rfl reached
      have edits : Crawl.Edits (firstCrawl site.policy g) store s.store := by
        have added := @Crawl.edits_addDirectory (firstCrawl site.policy g) p st { store }
        have run := @Crawl.after_edits (firstCrawl site.policy g) site.world
          ((firstCrawl site.policy g).addDirectory p st { store }) schedule n
        rw [reached] at run
        exact added.trans run
      obtain ⟨settling, roots, answer⟩ := @finishWatch_ok p g changed s.remarks
        ⟨s.store, h.roots.reserve p g⟩ live'
      have asked := Host.finishWatch_asked p g changed s.remarks ⟨s.store, h.roots.reserve p g⟩
      obtain ⟨idle, apart, _⟩ := settled.finish_reserved planned g true true
      have active := settled.active_after planned g
      have host := congrArg Prod.fst ends
      have answered := Progress.finished.inj (congrArg Prod.snd ends)
      dsimp only [Host.resumeWatch] at host answered
      rw [host] at settling roots asked
      rw [← roots] at idle apart active
      refine ⟨?_, ⟨idle, apart⟩, ?_, gathered'.kept settling.index settling.notices asked, active⟩
      · rw [← answered]
        exact answer.imp (congrArg _) fun failed => ⟨s.remarks, congrArg _ failed⟩
      · rw [settling.cancelled, edits.generations.1, quiet.cancelled]
        exact live

/-- A watch of a directory of the tree on a fresh host leaves nothing out but the root, if that is
another directory. -/
theorem watch_fresh_gathers (lists : site.Lists) (faithful : site.Faithful)
    (shallow : site.Shallow bound) (wants : site.Wants p st) (kind : st.kind = .directory)
    (stat : site.world.stat p = .ok st) (opened : site.world.openRoot p = .ok ())
    (rest : others site.root ∨ site.root = p) (name : Name) (style : Backend.Style) :
    let fresh : Host := { store := .empty name style }
    Halts site.policy site.world (fresh.watch p) ∧
      ∀ h' reply, Completes site.policy site.world (fresh.watch p) h' reply →
        reply.Mild p ∧ h'.Settled ∧ h'.store.cancelled = [] ∧ Gathered site others h'.store ∧
        ∀ r, r ∈ h'.roots.active ↔ r = p := by
  intro fresh
  have gathered : Gathered site (fun q => others q ∨ q = p) fresh.store :=
    (Gathered.fresh site name style).mono fun q same => same ▸ rest
  have idle : ∀ r, r ∉ fresh.roots.active := fun r => by simp [fresh]
  obtain ⟨halts, result⟩ := watch_gathers (h := fresh) lists faithful shallow
    ⟨fun r => by simp [fresh], Roots.apart_empty⟩ rfl (fun r active => absurd active (idle r))
    gathered wants kind stat opened
  refine ⟨halts, fun h' reply completes => ?_⟩
  obtain ⟨mild, settled, live, gathered', active⟩ := result h' reply completes
  exact ⟨mild, settled, live, gathered', fun r => by simp [active r, idle r]⟩

/-- A watch of the root, after one of a directory below it, leaves nothing out and takes over. -/
theorem watch_root_gathers (lists : site.Lists) (faithful : site.Faithful)
    (shallow : site.Shallow bound) (settled : h.Settled) (live : h.store.cancelled = [])
    (gathered : Gathered site (· = site.root) h.store)
    (active : ∀ r, r ∈ h.roots.active ↔ r = p) (below : site.root.Covers p) (other : p ≠ site.root)
    (wants : site.Wants site.root st) (kind : st.kind = .directory)
    (stat : site.world.stat site.root = .ok st) (opened : site.world.openRoot site.root = .ok ()) :
    Halts site.policy site.world (h.watch site.root) ∧
      ∀ h' reply, Completes site.policy site.world (h.watch site.root) h' reply →
        reply.Mild site.root ∧ h'.Settled ∧ Gathered site (fun _ => False) h'.store ∧
        ∀ r, r ∈ h'.roots.active ↔ r = site.root := by
  have uncovered : ∀ r, r ∈ h.roots.active → ¬ r.Covers site.root := by
    intro r member back
    rw [(active r).1 member] at back
    exact other (back.antisymm below)
  obtain ⟨halts, result⟩ := watch_gathers lists faithful shallow settled live uncovered
    (gathered.mono fun q => Or.inr) wants kind stat opened
  refine ⟨halts, fun h' reply completes => ?_⟩
  obtain ⟨mild, settled', _, whole, active'⟩ := result h' reply completes
  refine ⟨mild, settled', whole, fun r => (active' r).trans (or_iff_left ?_)⟩
  rintro ⟨before, apart⟩
  rw [(active r).1 before] at apart
  exact apart below

end

/-- Watching a directory and then one above it, with nothing on the way that is left out, comes to the
same as watching the one above alone: both watches end, the index is the same up to the numbers of the
manifests, and only the one above is active.  Over both watches each file is announced once, as new,
and each directory is asked for once; nothing else is announced or asked for. -/
theorem watch_above_absorbs_watch_below (policy : Policy) (world : World) (above : Path)
    (tree : Node) (names : List Name) (time : Int) (entries : List (Name × Node)) (name : Name)
    (style : Backend.Style) (shows : world.Shows above tree) (directory : tree.isDirectory = true)
    (reached : tree.get? names = some (.directory time entries)) (strictly : names ≠ [])
    (allowed : policy.isDenied above = false) (between : ∀ n ∈ names, policy.denies n = false)
    (stat : world.stat above = .ok tree.status)
    (statBelow : world.stat (above.descend names) = .ok (Node.directory time entries).status)
    (opened : world.openRoot above = .ok ())
    (openedBelow : world.openRoot (above.descend names) = .ok ()) :
    let fresh : Host := { store := .empty name style }
    let below := above.descend names
    Halts policy world (fresh.watch above) ∧ Halts policy world (fresh.watch below) ∧
      ∀ first reply, Completes policy world (fresh.watch below) first reply →
        reply.Mild below ∧ Halts policy world (first.watch above) ∧
        ∀ both reply', Completes policy world (first.watch above) both reply' →
          reply'.Mild above ∧
          (∀ alone reply'', Completes policy world (fresh.watch above) alone reply'' →
            both.store.index.Alike alone.store.index) ∧
          (∀ r, r ∈ both.roots.active ↔ r = above) ∧ (∀ r, r ∉ both.roots.pending) ∧
          (∀ f, both.store.notices.count (.new f) = if f ∈ both.store.index.files then 1 else 0) ∧
          (∀ n ∈ both.store.notices, ∃ f, n = .new f) ∧
          ∀ p, both.store.calls.count (.watchDirectory, p) =
            if p ∈ both.store.index.directories then 1 else 0 := by
  intro fresh below
  let site := world.siteOf policy above tree
  have lists : site.Lists := shows.lists policy
  have faithful : site.Faithful := shows.faithful policy directory
  have shallow := @World.Shows.shallow world above tree policy
  have kind := Node.kind_of_isDirectory directory
  have wants : site.Wants above tree.status := by
    have indexed : tree.Indexed policy above [] tree := ⟨rfl, by simp, by simp [kind], by simp [kind]⟩
    simpa using shows.wants_of_indexed directory allowed indexed
  have wantsBelow : site.Wants below (Node.directory time entries).status :=
    shows.wants_of_indexed directory allowed
      ⟨reached, between, by simp [Node.status], by simp [Node.status]⟩
  have other : below ≠ above := by
    intro same
    have none : names = [] := Path.descend_injective (same.trans (Path.descend_nil above).symm)
    exact strictly none
  obtain ⟨haltsAlone, resultAlone⟩ := @watch_fresh_gathers site _ (fun _ => False) above _ lists
    faithful shallow wants kind stat opened (Or.inr rfl) name style
  obtain ⟨halts, result⟩ := @watch_fresh_gathers site _ (· = above) below _ lists faithful
    shallow wantsBelow rfl statBelow openedBelow (Or.inl rfl) name style
  refine ⟨haltsAlone, halts, fun first reply completes => ?_⟩
  obtain ⟨mild, settled, live, gathered, active⟩ := result first reply completes
  obtain ⟨halts', result'⟩ := watch_root_gathers lists faithful shallow settled live gathered active
    wantsBelow.within other wants kind stat opened
  refine ⟨mild, halts', fun both reply' completes' => ?_⟩
  obtain ⟨mild', settled', whole, active'⟩ := result' both reply' completes'
  refine ⟨mild', fun alone reply'' completes'' => ?_, active', settled'.idle,
    whole.balanced.announced, whole.balanced.plain, whole.balanced.asked_once⟩
  obtain ⟨_, _, _, wholeAlone, _⟩ := resultAlone alone reply'' completes''
  exact whole.alike wholeAlone

/-- A package whose sources are two directories down. -/
def nestedPackage : Node :=
  .directory 0
    [(.ofString ".git", .directory 0 [(.ofString "hook.js", .file 0 [])]),
      (.ofString "package.json", .file 0 [0x7B, 0x7D]),
      (.ofString "src", .directory 0
        [(.ofString "lib", .directory 0
          [(.ofString "package.json", .file 0 [0x7B, 0x7D]), (.ofString "util.ts", .file 0 [])]),
        (.ofString "main.ts", .file 0 [])])]

/-- The inner directory is watched first and then the package. -/
theorem watch_above_absorbs_watch_below_nested :
    let d : Disk := { root := .directory 0 [(.ofString "p", nestedPackage)] }
    let above : Path := Path.root.descend [.ofString "p"]
    let below : Path := above.descend [.ofString "src", .ofString "lib"]
    let fresh : Host := { store := .empty (.ofString "package.json") .perDirectory }
    ∃ first firstReply both reply,
      Completes (.ofSettings {}) (.ofDisk d) (fresh.watch below) first firstReply ∧
      Completes (.ofSettings {}) (.ofDisk d) (first.watch above) both reply ∧
      (∀ r, r ∈ both.roots.active ↔ r = above) ∧
      (∀ alone aloneReply,
        Completes (.ofSettings {}) (.ofDisk d) (fresh.watch above) alone aloneReply →
          both.store.index.Alike alone.store.index) ∧
      ∀ f, both.store.notices.count (.new f) = if f ∈ both.store.index.files then 1 else 0 := by
  intro d above below fresh
  have carries : d.Carries above nestedPackage :=
    .of_listing (by decide +kernel) (by decide +kernel) rfl rfl (by decide +kernel)
  obtain ⟨_, halts, result⟩ := watch_above_absorbs_watch_below (.ofSettings {}) (.ofDisk d) above
    nestedPackage [.ofString "src", .ofString "lib"] 0
    [(.ofString "package.json", .file 0 [0x7B, 0x7D]), (.ofString "util.ts", .file 0 [])]
    (.ofString "package.json") .perDirectory carries.shows carries.directory rfl (by simp)
    (by decide +kernel) (by decide +kernel) carries.stat_root rfl rfl rfl
  obtain ⟨n, first, firstReply, ends⟩ := halts fun _ => []
  have firstCompletes : Completes (.ofSettings {}) (.ofDisk d) (fresh.watch below) first firstReply :=
    ⟨_, n, ends⟩
  obtain ⟨_, halts', result'⟩ := result first firstReply firstCompletes
  obtain ⟨m, both, reply, ends'⟩ := halts' fun _ => []
  have completes : Completes (.ofSettings {}) (.ofDisk d) (first.watch above) both reply := ⟨_, m, ends'⟩
  obtain ⟨_, alike, active, _, told, _, _⟩ := result' both reply completes
  exact ⟨first, firstReply, both, reply, firstCompletes, completes, active, alike, told⟩

end Watch

end ProjectIndex
