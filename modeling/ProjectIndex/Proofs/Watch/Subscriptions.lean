import ProjectIndex.Proofs.Crawl.Dealings
import ProjectIndex.Proofs.Watch.Forgetting

/-!
# Subscriptions mirror the index

With subscriptions per directory, the subscriptions of a watched root are the directories that the
index knows.  A crawl registers a directory first and subscribes it later, so while the crawl is under
way there are known directories that are not subscribed yet; each of them is one that a task of the
crawl is about to subscribe, and it is known until then.  A directory that is deleted takes with it
everything known below it and every subscription below it, and these are the same, because everything
known below a directory is listed on the way down to it.

The system takes every subscription that it is asked for.
-/

namespace ProjectIndex

open Std

/-- Every subscription is that of a known directory, and every known directory is subscribed or one
of these. -/
structure Store.Mirrors (s : Store) (pending : Path → Prop) : Prop where
  style : s.backend.style = .perDirectory
  known : ∀ q, q ∈ s.backend.subscribed → q ∈ s.index.directories
  complete : ∀ q, q ∈ s.index.directories → q ∈ s.backend.subscribed ∨ pending q

/-- The entries of a directory are listed once, and every directory can be subscribed. -/
structure World.Grants (world : World) : Prop where
  lists : world.ListsOnce
  directories : ∀ dir, world.watchDirectory dir = .ok ()

namespace Store.Mirrors

variable {s t : Store} {pending : Path → Prop}

theorem congr {pending' : Path → Prop} (mirrors : s.Mirrors pending)
    (same : ∀ q, pending q ↔ pending' q) : s.Mirrors pending' :=
  ⟨mirrors.style, mirrors.known, fun q directory =>
    (mirrors.complete q directory).imp_right (same q).1⟩

theorem of_same (mirrors : s.Mirrors pending) (backend : t.backend = s.backend)
    (directories : t.index.directories = s.index.directories) : t.Mirrors pending where
  style := backend ▸ mirrors.style
  known := by
    rw [backend, directories]
    exact mirrors.known
  complete := by
    rw [backend, directories]
    exact mirrors.complete

/-- A directory that is registered is to be subscribed from then on. -/
theorem register (mirrors : s.Mirrors pending) {p : Path} {st : Status}
    (index : t.index = (s.index.insertDirectory p st true).1) (backend : t.backend = s.backend) :
    t.Mirrors fun q => pending q ∨ q = p := by
  have directories : ∀ q, q ∈ t.index.directories ↔ q = p ∨ q ∈ s.index.directories := by
    intro q
    rw [index, Index.insertDirectory_directories, ExtTreeMap.mem_insert,
      LawfulEqCmp.compare_eq_iff_eq, @eq_comm _ p q]
  refine ⟨backend ▸ mirrors.style, fun q member => ?_, fun q directory => ?_⟩
  · rw [backend] at member
    exact (directories q).2 (Or.inr (mirrors.known q member))
  · rcases (directories q).1 directory with own | before
    · exact Or.inr (Or.inr own)
    · rw [backend]
      exact (mirrors.complete q before).imp_right Or.inl

/-- A known directory is subscribed. -/
theorem subscribe {dir : Path} (mirrors : s.Mirrors fun q => pending q ∨ q = dir)
    (directory : dir ∈ s.index.directories) (index : t.index = s.index)
    (backend : t.backend = s.backend.watchDirectory dir true) : t.Mirrors pending := by
  have taken : t.backend = { s.backend with subscribed := s.backend.subscribed.insert dir } := by
    simp [backend, Backend.watchDirectory, mirrors.style]
  have subscribed : ∀ q, q ∈ t.backend.subscribed ↔ q = dir ∨ q ∈ s.backend.subscribed := by
    intro q
    rw [taken]
    simp only [ExtTreeSet.mem_insert, LawfulEqCmp.compare_eq_iff_eq, @eq_comm _ dir q]
  refine ⟨by rw [taken]; exact mirrors.style, fun q member => ?_, fun q known => ?_⟩
  · rw [index]
    rcases (subscribed q).1 member with rfl | before
    · exact directory
    · exact mirrors.known q before
  · rw [index] at known
    rcases mirrors.complete q known with before | still | own
    · exact Or.inl ((subscribed q).2 (Or.inr before))
    · exact Or.inr still
    · exact Or.inl ((subscribed q).2 (Or.inl own))

/-- A deletion drops the known directories and the subscriptions at and below its path, as long as no
anchor lies further below. -/
theorem retire {layout : Layout} {anchor : Path → Prop} {p : Path} (mirrors : s.Mirrors pending)
    (retired : Crawl.Retired p s t) (consistent : s.index.Consistent layout anchor)
    (only : ∀ q, p.Covers q → q ≠ p → ¬ anchor q) : t.Mirrors pending := by
  have filed := consistent.filed
  have left : ∀ q, q ∈ t.index.directories ↔ q ∈ s.index.directories ∧ ¬ s.index.Reaches p q := by
    intro q
    rw [retired.index, filed.mem_directories_evict]
  cases directory : s.index.isDirectory p with
  | true =>
    have forgotten : t.backend = (s.backend.unsubscribe p).1 := by
      rw [(retired.directory directory).1, Backend.forgetDirectory, mirrors.style]
    have subscribed : ∀ q, q ∈ t.backend.subscribed ↔ q ∈ s.backend.subscribed ∧ ¬ p.Covers q := by
      intro q
      rw [forgotten, Backend.mem_unsubscribe]
    refine ⟨by rw [forgotten]; exact mirrors.style, fun q member => ?_, fun q known => ?_⟩
    · obtain ⟨before, out⟩ := (subscribed q).1 member
      exact (left q).2 ⟨mirrors.known q before, fun reached => out (reached.covers filed)⟩
    · obtain ⟨before, unreached⟩ := (left q).1 known
      refine (mirrors.complete q before).imp_left fun member => (subscribed q).2 ⟨member, fun inside => ?_⟩
      exact unreached (consistent.anchored.reaches only inside (Or.inr before))
  | false =>
    obtain ⟨backend, _⟩ := retired.other directory
    have leaf : p ∉ s.index.directories := fun member => by
      simp [Index.isDirectory_iff.2 member] at directory
    refine ⟨backend ▸ mirrors.style, fun q member => ?_, fun q known => ?_⟩
    · rw [backend] at member
      have before := mirrors.known q member
      refine (left q).2 ⟨before, fun reached => ?_⟩
      exact leaf (reached.eq_of_leaf leaf ▸ before)
    · rw [backend]
      exact mirrors.complete q ((left q).1 known).1

end Store.Mirrors

namespace Crawl

variable {ctx : Context} {world : World} {layout : Layout} {anchor pending : Path → Prop}

theorem Clears.mirrors {gone : List Path} {s t : Store} (clears : Clears gone s t)
    (consistent : s.index.Consistent layout anchor)
    (only : ∀ p ∈ gone, ∀ q, p.Covers q → q ≠ p → ¬ anchor q) (mirrors : s.Mirrors pending) :
    t.Mirrors pending := by
  induction clears with
  | nil index aside => exact mirrors.of_same aside.backend aside.directories
  | @cons p gone s t u retired rest ih =>
    have left : t.index.Consistent layout anchor := by
      rw [retired.index]
      exact consistent.evict p
    exact ih left (fun p member => only p (by simp [member]))
      (mirrors.retire retired consistent (only p (by simp)))

/-- A deal of a task that stands leaves to be subscribed what the others are about to subscribe and
what the crawl goes on to subscribe itself. -/
theorem Deal.mirrors {task : Task} {s t : Store} {next : Progress}
    (deal : Deal ctx world s task t next) (grants : world.Grants)
    (consistent : s.index.Consistent layout anchor) (stands : task.Stands layout anchor s.index)
    (lone : ∀ q, task.path.Covers q → anchor q → q = task.path)
    (mirrors : s.Mirrors fun q => pending q ∨ task.Subscribes q) :
    t.Mirrors fun q => pending q ∨ next.Subscribes q := by
  have only : ∀ p, task.path.Covers p → ∀ q, p.Covers q → q ≠ p → ¬ anchor q := by
    intro p inside q below other anchored
    have own := lone q (inside.trans below) anchored
    exact other (own ▸ (inside.antisymm (own ▸ below)))
  cases deal with
  | @passed _ gone t _ _ clears own aside before after =>
    have only : ∀ p ∈ gone, ∀ q, p.Covers q → q ≠ p → ¬ anchor q := by
      intro p member
      rcases own p member with rfl | entry
      · exact only _ (.refl _)
      · exact only p (Path.covers_of_parent (consistent.filed _ p entry))
    have cleared := clears.mirrors consistent only mirrors
    exact (cleared.of_same aside.backend aside.directories).congr fun q => by simp [before q, after q]
  | @asked p st gone t _ known told clears own changed index backend calls =>
    have cleared := clears.mirrors consistent (fun c member => own c member ▸ only p (.refl p)) mirrors
    exact (cleared.register index backend).congr fun q => by simp
  | @answered dir known _ index backend calls =>
    cases stands with
    | subscribe _ directory =>
      rw [grants.directories dir] at backend
      have asked : s.Mirrors fun q => pending q ∨ q = dir := mirrors.congr fun q => by simp
      exact (asked.subscribe directory index backend).congr fun q => by simp

/-- Every move of a task that stands does so. -/
theorem Task.Moves.mirrors {s : Scope} {task : Task} {r : Scope × Progress}
    (moved : Task.Moves ctx world s task r) (follows : ctx.follows = true) (grants : world.Grants)
    (placed : task.Placed) (consistent : s.store.index.Consistent layout anchor)
    (stands : task.Stands layout anchor s.store.index)
    (lone : ∀ q, task.path.Covers q → anchor q → q = task.path)
    (mirrors : s.store.Mirrors fun q => pending q ∨ task.Subscribes q) :
    r.1.store.Mirrors fun q => pending q ∨ r.2.Subscribes q := by
  have inner : ∀ {p dir : Path}, p.parent = some dir →
      (∀ q, dir.Covers q → anchor q → q = dir) → ∀ q, p.Covers q → anchor q → q = p := by
    intro p dir parent lone q covers anchored
    have own := lone q ((Path.covers_of_parent parent).trans covers) anchored
    exact absurd (own ▸ covers) (Path.not_covers_of_parent parent)
  induction moved generalizing pending with
  | begin p =>
    exact ((Task.Moves.begin p).deal follows trivial).mirrors grants consistent stands lone mirrors
  | entry p => exact (deal_entry follows p).mirrors grants consistent stands lone mirrors
  | subscribe dir known =>
    exact ((Task.Moves.subscribe dir known).deal follows trivial).mirrors grants consistent stands lone
      mirrors
  | list dir known => exact (deal_list follows dir known).mirrors grants consistent stands lone mirrors
  | project a root =>
    exact ((Task.Moves.project a root).deal follows trivial).mirrors grants consistent stands lone
      mirrors
  | manifest a d =>
    exact ((Task.Moves.manifest a d).deal follows trivial).mirrors grants consistent stands lone mirrors
  | inOrder dir queue rest moved ih =>
    cases placed with
    | inOrder first siblings distinct =>
      cases stands with
      | inOrder directory stands =>
        have moved := @ih pending first stands (inner (siblings _ (by simp)) lone)
          (mirrors.congr fun q => by simp)
        exact moved.congr fun q => by simp
  | inOrderFailed dir queue rest moved ih =>
    cases placed with
    | inOrder first siblings distinct =>
      cases stands with
      | inOrder directory stands =>
        exact ih first stands (inner (siblings _ (by simp)) lone) (mirrors.congr fun q => by simp)
  | @inOrderDone s' current changed dir queue rest moved ih =>
    cases placed with
    | inOrder first siblings distinct =>
      cases stands with
      | inOrder directory stands =>
        have moved := @ih pending first stands (inner (siblings _ (by simp)) lone)
          (mirrors.congr fun q => by simp)
        have aside := @aside_nextInOrder ctx dir queue rest s'
        exact (moved.of_same aside.backend aside.directories).congr fun q => by
          simp [subscribes_nextInOrder]
  | @together s' task task' dir before after failure moved ih =>
    obtain ⟨first, _, own⟩ := stands.one placed
    have parent : task.path.parent = some dir := by
      cases placed with
      | together _ siblings _ => exact siblings task (by simp)
    have moved := @ih (fun q => pending q ∨ ∃ other ∈ before ++ after, other.Subscribes q) first own
      (inner parent lone) (mirrors.congr fun q => by rw [Task.subscribes_split, or_assoc])
    exact moved.congr fun q => by
      simp only [Progress.subscribes_waiting, Task.subscribes_split, or_assoc]
  | @togetherDone s' task result dir before after failure moved left ih =>
    obtain ⟨first, _, own⟩ := stands.one placed
    have parent : task.path.parent = some dir := by
      cases placed with
      | together _ siblings _ => exact siblings task (by simp)
    have moved := @ih (fun q => pending q ∨ ∃ other ∈ before ++ after, other.Subscribes q) first own
      (inner parent lone) (mirrors.congr fun q => by rw [Task.subscribes_split, or_assoc])
    exact moved.congr fun q => by simp
  | @togetherLast s' task result dir failure moved ih =>
    obtain ⟨first, _, own⟩ := @Task.Stands.one _ _ _ dir [] [] task failure stands placed
    have parent : task.path.parent = some dir := by
      cases placed with
      | together _ siblings _ => exact siblings task (by simp)
    have moved := @ih pending first own (inner parent lone) (mirrors.congr fun q => by simp)
    have aside := aside_conclude dir (failure <|> failureOf result) s'
    exact (moved.of_same aside.backend aside.directories).congr fun q => by
      simp [subscribes_conclude]
  | togetherNone dir failure =>
    have aside := aside_conclude dir failure s
    exact (mirrors.of_same aside.backend aside.directories).congr fun q => by
      simp [subscribes_conclude]

/-- A crawl that starts with a task that stands leaves subscriptions that mirror the index, however it
ends. -/
theorem Served.mirrors {admits : World → Prop} {s : Scope} {r : Scope × Progress}
    {result : Except IndexError Bool} (served : Served ctx admits r s result)
    (layouts : ctx.policy.layout = layout) (follows : ctx.follows = true)
    (grants : ∀ world, admits world → world.Grants) {p : Path} (absolute : p.isAbsolute = true)
    (lone : ∀ q, p.Covers q → anchor q → q = p)
    (live : r.1.store.isStale ctx.generation = false)
    (consistent : r.1.store.index.Consistent layout anchor)
    (goesOn : ∀ task, r.2 = .waiting task →
      task.Placed ∧ task.path = p ∧ task.Stands layout anchor r.1.store.index)
    (mirrors : r.1.store.Mirrors r.2.Subscribes) :
    s.store.index.Consistent layout anchor ∧ s.store.Mirrors fun _ => False := by
  have kept := served.keeps (P := fun r => r.1.store.isStale ctx.generation = false ∧
    r.1.store.index.Consistent layout anchor ∧ (∀ task, r.2 = .waiting task →
      task.Placed ∧ task.path = p ∧ task.Stands layout anchor r.1.store.index) ∧
    r.1.store.Mirrors r.2.Subscribes) ⟨live, consistent, goesOn, mirrors⟩ ?_
  · exact ⟨kept.2.1, kept.2.2.2.congr fun q => by simp⟩
  rintro s task world r admitted moved ⟨live, consistent, goesOn, mirrors⟩
  obtain ⟨placed, rfl, stands⟩ := goesOn task rfl
  have grant := grants world admitted
  have advances := moved.advances layouts grant.lists live absolute placed consistent stands
  have before : s.store.Mirrors fun q => False ∨ task.Subscribes q := mirrors.congr fun q => by simp
  have mirrored := moved.mirrors follows grant placed consistent stands lone before
  exact ⟨(moved.edits.isStale _).trans live, advances.consistent, advances.goesOn,
    mirrored.congr fun q => by simp⟩

end Crawl

namespace Watch

namespace Host

/-- Where subscriptions are per directory, the end of a crawl that ended well leaves them alone: a root
that is released leaves what lies below to the one that took it over. -/
theorem finishWatch_backend (root : Path) (g : Generation) (changed : Bool)
    (remarks : List Diagnostic) (h : Host) (style : h.store.backend.style = .perDirectory) :
    (finishWatch root g (.ok changed) remarks h).1.store.backend = h.store.backend := by
  have released : ∀ (s : Store) (r : Path), s.backend.style = .perDirectory →
      (s.releaseRoot r).backend = s.backend := by
    intro s r style
    rw [(Store.releaseRoot_recorded s r).1, Backend.releaseRoot, style]
  have all : ∀ (roots : List Path) (h : Host), h.store.backend.style = .perDirectory →
      (roots.foldl (fun h r => h.update (·.releaseRoot r)) h).store.backend = h.store.backend := by
    intro roots
    induction roots with
    | nil => exact fun h _ => rfl
    | cons r rest ih =>
      intro h style
      have first := released h.store r style
      exact (ih (h.update (·.releaseRoot r)) (first ▸ style)).trans first
  have settled : (h.settle root g true).store.backend = h.store.backend := by
    unfold settle
    dsimp only
    split
    · rfl
    · exact released _ root style
    · exact all _ _ style
  unfold finishWatch
  dsimp only
  split
  · exact settled
  · exact (warn_aside _ remarks).backend.trans settled

end Host

variable {policy : Policy} {h h' : Host} {root : Path} {g : Generation} {s : Scope}
  {result : Except IndexError Bool}

/-- The first crawl of a root keeps the mirror, however it ends. -/
theorem mirrors_firstCrawl {status : Status} {opened : Store}
    (served : Crawl.Served (firstCrawl policy g) World.Grants
      ((firstCrawl policy g).addDirectory root status { store := opened }) s result)
    (absolute : root.isAbsolute = true) (directory : status.kind = .directory)
    (live : opened.isStale g = false) (consistent : opened.index.Consistent policy.layout (· = root))
    (mirrors : opened.Mirrors fun _ => False) :
    s.store.index.Consistent policy.layout (· = root) ∧ s.store.Mirrors fun _ => False := by
  have still := ((@Crawl.edits_addDirectory (firstCrawl policy g) root status
    { store := opened }).isStale g).trans live
  have begun := @Crawl.advances_addDirectory _ _ (firstCrawl policy g) { store := opened } live root
    status consistent rfl directory
  refine served.mirrors rfl rfl (fun _ => id) absolute (fun q _ anchored => anchored) still
    begun.consistent begun.goesOn ?_
  rcases @Crawl.addDirectory_deal (firstCrawl policy g) rfl root status { store := opened } with
    ⟨_, aside, ends⟩ | ⟨_, _, index, backend, _, known, waits⟩
  · exact (mirrors.of_same aside.backend aside.directories).congr fun q => by rw [ends]; simp
  · exact (mirrors.register index backend).congr fun q => by rw [waits]; simp

/-- The crawl of a refreshed path below the root keeps the mirror, however it ends. -/
theorem mirrors_refreshCrawl {path : Path} {store : Store}
    (served : Crawl.Served (refreshCrawl policy g) World.Grants
      ((refreshCrawl policy g).addEntry path { store }) s result)
    (known : (store.index.knows path || store.index.knowsParent path) = true)
    (absolute : path.isAbsolute = true) (covers : root.Covers path) (live : store.isStale g = false)
    (consistent : store.index.Consistent policy.layout (· = root))
    (mirrors : store.Mirrors fun _ => False) :
    s.store.index.Consistent policy.layout (· = root) ∧ s.store.Mirrors fun _ => False := by
  rw [Crawl.addEntry_outcome (s := { store }) live] at served
  refine served.mirrors rfl rfl (fun _ => id) absolute (fun q below own => ?_) live consistent
    (fun task waits => ?_) (mirrors.congr fun q => by simp)
  · subst own
    exact (covers.antisymm below)
  · cases waits
    exact ⟨.entry path, rfl, .entry (consistent.footed known)⟩

/-- A watch that waits for the status of its root keeps the mirror, unless it fails. -/
theorem mirrors_watch {reply : Except IndexError Unit}
    (served : Served policy World.Grants (h, .waiting (.looking root g)) h' (.watched reply))
    (mild : (Errand.watch root reply).Mild) (live : h.store.isStale g = false)
    (consistent : h.store.index.Consistent policy.layout (· = root))
    (mirrors : h.store.Mirrors fun _ => False) :
    h'.store.cancelled = h.store.cancelled ∧
      h'.store.index.Consistent policy.layout (· = root) ∧ h'.store.Mirrors fun _ => False := by
  obtain ⟨world, status, s, changed, _, _, directory, crawled, rfl⟩ :=
    served.opened_of_mild live mild.2
  have opened := (Store.quiet_askRoot h.store root).trans (Store.quiet_rootTaken _ root)
  have backend : ((h.store.askRoot root).rootTaken root).backend = h.store.backend := by
    have style : (h.store.askRoot root).backend.style = .perDirectory := mirrors.style
    rw [(Store.rootTaken_recorded _ root).1, Backend.openRoot, style]
    rfl
  obtain ⟨consistent, mirrors⟩ := mirrors_firstCrawl crawled mild.1 directory
    ((opened.isStale g).trans live) (opened.index ▸ consistent)
    (mirrors.of_same backend (by rw [opened.index]))
  obtain ⟨same, _⟩ := Host.finishWatch_keeps root g (.ok changed) s.remarks ⟨s.store, h.roots⟩
  have written : Crawl.Edits (firstCrawl policy g) ((h.store.askRoot root).rootTaken root) s.store :=
    (Crawl.edits_addDirectory root status _).trans crawled.edits
  refine ⟨?_, same.index ▸ consistent, ?_⟩
  · exact same.cancelled.trans (written.generations.1.trans opened.cancelled)
  · exact mirrors.of_same (Host.finishWatch_backend _ _ _ _ _ mirrors.style) (by rw [same.index])

/-- Between two requests: the only active root is this one, everything known was found below it, and
the subscriptions mirror the index. -/
structure Host.Followed (policy : Policy) (root : Path) (h : Host) : Prop where
  settled : h.Settled
  only : ∀ r ∈ h.roots.active, r = root
  live : h.store.cancelled = []
  consistent : h.store.index.Consistent policy.layout (· = root)
  mirrors : h.store.Mirrors fun _ => False

namespace Host.Followed

/-- A watch on a fresh host that does not fail is followed from then on. -/
theorem of_watch {reply : Except IndexError Unit}
    (done : (Errand.watch root reply).Done policy World.Grants
      { store := .empty policy.layout.manifestName .perDirectory } h)
    (mild : (Errand.watch root reply).Mild) : h.Followed policy root := by
  let fresh : Store := .empty policy.layout.manifestName .perDirectory
  have settled : Settled { store := fresh } := ⟨fun r => by simp, Roots.apart_empty⟩
  have started : Host.watch root { store := fresh } =
      (⟨{ fresh with nextGeneration := 1 }, ({} : Roots).reserve root 0⟩,
        .waiting (.looking root 0)) := rfl
  have roots : ∀ r ∈ h.roots.active, r = root := by
    intro r active
    rcases done.mem_active settled active with before | ⟨_, own⟩
    · simp at before
    · cases own
      rfl
  cases id done with
  | watch served =>
    rw [started] at served
    obtain ⟨live, consistent, mirrors⟩ := mirrors_watch served mild rfl
      (Index.consistent_empty policy.layout _) ⟨rfl, by simp [fresh, Store.empty], by
        simp [fresh, Store.empty, Index.empty]⟩
    exact ⟨settled.done done, roots, live, consistent, mirrors⟩

/-- A refresh keeps it so, whatever it returns. -/
theorem refresh {path : Path} {reply : Except IndexError Bool} (followed : h.Followed policy root)
    (absolute : root.isAbsolute = true)
    (done : (Errand.refresh path reply).Done policy World.Grants h h') : h'.Followed policy root := by
  have settled := followed.settled.done done
  have roots : ∀ r ∈ h'.roots.active, r = root := by
    intro r active
    rcases done.mem_active followed.settled active with before | ⟨_, own⟩
    · exact followed.only r before
    · cases own
  cases id done with
  | refresh served =>
    rcases served.refreshed with ⟨line, rfl⟩ | ⟨g, s, result, covered, known, crawled, rfl, _⟩
    · have logged := Store.aside_log h.store line
      exact ⟨settled, roots, followed.live, followed.consistent,
        followed.mirrors.of_same logged.backend logged.directories⟩
    · have covers : root.Covers path := by
        obtain ⟨r, pending | active, covers⟩ := Roots.generationFor_eq_some covered
        · exact absurd (Std.ExtTreeMap.mem_iff_isSome_getElem?.2 (by simp [pending]))
            (followed.settled.idle r)
        · exact followed.only r (Std.ExtTreeMap.mem_iff_isSome_getElem?.2 (by simp [active])) ▸ covers
      have live : h.store.isStale g = false := by simp [Store.isStale, followed.live]
      obtain ⟨consistent, mirrors⟩ := mirrors_refreshCrawl crawled known (covers.isAbsolute absolute)
        covers live followed.consistent followed.mirrors
      obtain ⟨same, _⟩ := Host.finishRefresh_keeps path result s.remarks ⟨s.store, h.roots⟩
      have aside := Host.finishRefresh_aside path result s.remarks ⟨s.store, h.roots⟩
      have edits : Crawl.Edits (refreshCrawl policy g) h.store s.store := by
        rw [Crawl.addEntry_outcome (s := { store := h.store }) live] at crawled
        exact crawled.edits
      refine ⟨settled, roots, ?_, same.index ▸ consistent,
        mirrors.of_same aside.backend aside.directories⟩
      exact same.cancelled.trans (edits.generations.1.trans followed.live)

theorem refreshes {errands : List Errand} (followed : h.Followed policy root)
    (absolute : root.isAbsolute = true)
    (only : ∀ errand ∈ errands, ∃ path reply, errand = .refresh path reply)
    (done : Errand.DoneAll policy World.Grants errands h h') : h'.Followed policy root := by
  induction done with
  | nil h => exact followed
  | @cons h k h' errand errands done rest ih =>
    obtain ⟨path, reply, rfl⟩ := only errand (by simp)
    exact ih (followed.refresh absolute done) fun later member => only later (by simp [member])

end Host.Followed

/-- Where subscriptions are made per directory and the system takes each of them: after a watch on a
fresh host that did not fail, remarks apart, and after every refresh that follows it, whatever the
refresh returned, with every order of the entries that are crawled at once and in worlds that may
answer differently at every wait, the subscribed directories are the known directories. -/
theorem subscriptions_mirror_directories (policy : Policy) (root : Path)
    (reply : Except IndexError Unit) (mild : (Errand.watch root reply).Mild)
    (refreshes : List Errand)
    (only : ∀ errand ∈ refreshes, ∃ path result, errand = .refresh path result) (h : Host)
    (done : Errand.DoneAll policy World.Grants (.watch root reply :: refreshes)
      { store := .empty policy.layout.manifestName .perDirectory } h) (p : Path) :
    p ∈ h.store.backend.subscribed ↔ p ∈ h.store.index.directories := by
  cases done with
  | cons watched rest =>
    have followed := (Host.Followed.of_watch watched mild).refreshes mild.1 only rest
    refine ⟨followed.mirrors.known p, fun directory => ?_⟩
    exact (followed.mirrors.complete p directory).resolve_right id

def nestedDirectories : Disk where
  root := .directory 0 [([97], .directory 0 [([98], .directory 0 [([99], .directory 0 [])])])]

def nestedReplaced : Disk where
  root := .directory 0 [([97], .directory 0 [([98], .file 0 [])])]

/-- A host that watches `/a`, the directories below it included. -/
def nestedWatched : Host :=
  (serve (.ofSettings {}) (Host.watch ⟨[.root, .name [97]]⟩
      { store := .empty (Policy.ofSettings {}).layout.manifestName .perDirectory })
    (List.replicate 12 (.ofDisk nestedDirectories))).1

/-- The host after a refresh of `b`, which has become a file. -/
def nestedRefreshed : Host :=
  (serve (.ofSettings {})
    (nestedWatched.refresh (.ofSettings {}) ⟨[.root, .name [97], .name [98]]⟩)
    (List.replicate 3 (.ofDisk nestedReplaced))).1

theorem nestedRefreshed_done : Errand.DoneAll (.ofSettings {}) World.Grants
    [.watch ⟨[.root, .name [97]]⟩ (.ok ()), .refresh ⟨[.root, .name [97], .name [98]]⟩ (.ok false)]
    { store := .empty (Policy.ofSettings {}).layout.manifestName .perDirectory } nestedRefreshed := by
  have grants : ∀ (d : Disk) (n : Nat), d.isTidy = true →
      ∀ world ∈ List.replicate n (World.ofDisk d), world.Grants := by
    intro d n tidy world member
    refine ⟨World.listsOnce_replicate tidy n world member, fun dir => ?_⟩
    rw [List.eq_of_mem_replicate member]
    rfl
  refine .cons (.watch (.of_serve (grants nestedDirectories 12 (by decide)) ?_))
    (.cons (.refresh (.of_serve (grants nestedReplaced 3 (by decide)) ?_)) (.nil _))
  · with_unfolding_all rfl
  · with_unfolding_all rfl

/-- The directory `/a/b/c` was subscribed by the watch, and the refresh that finds a file in the place
of `/a/b` leaves the subscription of `/a` and no other below it. -/
theorem subscriptions_mirror_directories_replaced :
    (⟨[.root, .name [97], .name [98], .name [99]]⟩ : Path) ∈ nestedWatched.store.backend.subscribed ∧
      (⟨[.root, .name [97]]⟩ : Path) ∈ nestedRefreshed.store.backend.subscribed ∧
      (⟨[.root, .name [97], .name [98], .name [99]]⟩ : Path) ∉
        nestedRefreshed.store.backend.subscribed := by
  have mirror := subscriptions_mirror_directories (.ofSettings {}) _ (.ok ()) ⟨by decide, Or.inl rfl⟩
    _ (by simp) nestedRefreshed nestedRefreshed_done
  refine ⟨by decide +kernel, (mirror _).2 (by decide +kernel), fun member => ?_⟩
  exact absurd ((mirror _).1 member) (by decide +kernel)

end Watch

end ProjectIndex
