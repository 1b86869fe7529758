import ProjectIndex.Proofs.Index.Removal
import ProjectIndex.Proofs.Watch.RoundTrip

/-!
# What is always true of the index of a system

Whatever requests are under way on a host, and in whatever order they go on: each status has the kind of
the table that it is in, every known directory has a listing, everything listed is known, and a listing of
what is no directory has entries.  Nothing else is assumed of the paths, so roots may lie anywhere, and a
path may be a file and a directory at once.

In such an index the registration of a directory of which there was no record can be taken back: to evict
the directory at once leaves the index as it was.
-/

namespace ProjectIndex

open Std

namespace Index

structure Concordant (ix : Index) : Prop where
  anchored : ix.Anchored fun _ => True
  kinded : ix.Kinded fun _ => True
  shelved : ix.Shelved

def Recorded (ix : Index) (p : Path) : Prop :=
  ix.Known p ∨ p ∈ ix.listings ∨ p ∈ ix.manifests

variable {ix : Index} {p : Path} {st : Status}

private theorem erase_of_absent {β : Type} {table : Table β} (absent : p ∉ table) :
    table.erase p = table := by
  apply ExtTreeMap.ext_getElem?
  intro q
  rw [ExtTreeMap.getElem?_erase]
  split
  next own => rw [← LawfulEqCmp.eq_of_compare own, ExtTreeMap.getElem?_eq_none absent]
  · rfl

private theorem erase_insert_of_absent {β : Type} {table : Table β} (absent : p ∉ table)
    (value : β) : (table.insert p value).erase p = table := by
  rw [← erase_of_absent absent]
  apply ExtTreeMap.ext_getElem?
  intro q
  simp only [ExtTreeMap.getElem?_erase, ExtTreeMap.getElem?_insert]
  split <;> rfl

private theorem erase_insert_of_not_mem {listing : PathSet} (absent : p ∉ listing) :
    (listing.insert p).erase p = listing := by
  apply ExtTreeSet.ext_mem
  intro c
  by_cases own : p = c
  · subst own
    simp [absent]
  · simp [own]

private theorem eq_of_tables {ix ix' : Index} (files : ix'.files = ix.files)
    (directories : ix'.directories = ix.directories) (listings : ix'.listings = ix.listings)
    (manifests : ix'.manifests = ix.manifests) (name : ix'.manifestName = ix.manifestName) :
    ix' = ix := by
  cases ix
  cases ix'
  simp_all

/-- An eviction of a directory without entries. -/
theorem evict_empty_directory (directory : p ∈ ix.directories) (empty : ix.children p = []) :
    ix.evict p =
      (Index.unlistChild
        { ix with
          directories := ix.directories.erase p
          listings := ix.listings.erase p
          manifests := ix.manifests.erase p } p, []) := by
  unfold evict forgetWithin
  rw [if_pos (isDirectory_iff.2 directory), empty]
  rfl

/-- Where nothing is listed at a path, its registration as a directory adds it to the listing of its
parent and gives it an empty one. -/
theorem getElem?_listings_insertDirectory {d : Path} {listing : PathSet}
    (parent : p.parent = some d) (found : ix.listings[d]? = some listing) (unlisted : p ∉ ix.listings)
    (st : Status) (q : Path) : (ix.insertDirectory p st true).1.listings[q]? =
      if d = q then some (listing.insert p) else if p = q then some ∅ else ix.listings[q]? := by
  have other : p ≠ d := by
    rintro rfl
    rw [ExtTreeMap.getElem?_eq_none unlisted] at found
    cases found
  have own : (ix.listings.insert p ∅)[d]? = some listing := by
    simp [ExtTreeMap.getElem?_insert, other, found]
  simp [Index.insertDirectory, listChild, parent, unlisted, ExtTreeMap.getD_eq_getD_getElem?, own,
    ExtTreeMap.getElem?_insert]

namespace Concordant

theorem empty (name : Name) : (Index.empty name).Concordant where
  anchored := anchored_empty name _
  kinded := kinded_empty name _
  shelved d member := by simp [Index.empty] at member

theorem filed (concordant : ix.Concordant) : ix.Filed :=
  concordant.anchored.filed

theorem evict (concordant : ix.Concordant) (p : Path) : (ix.evict p).1.Concordant where
  anchored := concordant.anchored.evict concordant.kinded p
  kinded := concordant.kinded.evict concordant.filed p
  shelved := concordant.shelved.evict concordant.filed p

theorem insertDirectory (concordant : ix.Concordant) (p : Path) (kind : st.kind = .directory) :
    (ix.insertDirectory p st true).1.Concordant where
  anchored := concordant.anchored.insertDirectory (Or.inl trivial)
  kinded := concordant.kinded.insertDirectory kind fun _ => trivial
  shelved := concordant.shelved.insertDirectory p st

theorem insertFile (concordant : ix.Concordant) (p : Path) (kind : st.kind = .file) :
    (ix.insertFile p st true).1.Concordant where
  anchored := concordant.anchored.insertFile (Or.inl trivial)
  kinded := concordant.kinded.insertFile kind fun _ => trivial
  shelved d member := by
    rw [insertFile_directories] at member
    exact mem_listings_insertFile.2 (Or.inl (concordant.shelved d member))

theorem setManifest (concordant : ix.Concordant) (D : Definition) :
    (ix.setManifest D true).1.Concordant where
  anchored := concordant.anchored.setManifest D
  kinded := concordant.kinded.setManifest D
  shelved := concordant.shelved

/-- A directory of which there was no record, in a known directory, is registered and evicted again: that
leaves nothing behind. -/
theorem evict_insertDirectory (concordant : ix.Concordant) (blank : ¬ ix.Recorded p) {d : Path}
    (parent : p.parent = some d) (directory : d ∈ ix.directories) (st : Status) :
    (ix.insertDirectory p st true).1.evict p = (ix, []) := by
  simp only [Recorded, not_or] at blank
  obtain ⟨unknown, unlisted, bare⟩ := blank
  have absent : p ∉ ix.directories := fun directory => unknown (Or.inr directory)
  obtain ⟨listing, found⟩ := Option.isSome_iff_exists.1
    (ExtTreeMap.mem_iff_isSome_getElem?.1 (concordant.shelved d directory))
  have other : p ≠ d := by
    rintro rfl
    exact absent directory
  have listings := getElem?_listings_insertDirectory parent found unlisted st
  have noEntries : (ix.insertDirectory p st true).1.children p = [] := by
    simp [children, listings, other.symm]
  rw [evict_empty_directory (by simp) noEntries]
  have restored : (listing.insert p).erase p = listing := by
    apply erase_insert_of_not_mem
    intro member
    have entry : p ∈ ix.children d := mem_children.2 ⟨listing, found, member⟩
    exact unknown (concordant.anchored.entries d p entry).2
  have files := ix.insertDirectory_files p st
  have directories := ix.insertDirectory_directories p st
  have manifests : (ix.insertDirectory p st true).1.manifests = ix.manifests := by
    simp [Index.insertDirectory, listChild, parent]
  have name := insertDirectory_manifestName ix p st
  generalize (ix.insertDirectory p st true).1 = ix' at *
  refine Prod.ext (eq_of_tables ?_ ?_ ?_ ?_ ?_) rfl
  · simpa using files
  · rw [unlistChild_directories, directories]
    exact erase_insert_of_absent absent st
  · have known : (ix'.directories.erase p).contains d = true := by
      simp [directories, other, directory]
    apply ExtTreeMap.ext_getElem?
    intro q
    rw [getElem?_listings_unlistChild, parent]
    by_cases above : d = q
    · subst above
      simp [listings, ExtTreeMap.getElem?_erase, other, restored, isDirectory, known, found]
    · by_cases own : p = q
      · subst own
        simp [above, ExtTreeMap.getElem?_eq_none unlisted]
      · simp [listings, above, own, ExtTreeMap.getElem?_erase]
  · rw [unlistChild_manifests, manifests]
    exact erase_of_absent bare
  · simpa using name

end Concordant

end Index

namespace Crawl

variable {ctx : Context} {world : World}

theorem Deed.concordant {task : Task} {ix ix' : Index} {next : Progress}
    (deed : Deed ctx world ix task ix' next) (concordant : ix.Concordant) : ix'.Concordant := by
  have cleared : ∀ (p : Path) (st : Status), (ix.clearedFor p st).Concordant :=
    fun p st => Index.clearedFor_keeps (fun _ concordant => concordant.evict p) concordant st
  cases deed with
  | ended | begun | subscribed | project | declared => exact concordant
  | removed result => exact concordant.evict task.path
  | cleared p st result => exact cleared p st
  | @directory p st _ kind goesOn => exact (cleared p st).insertDirectory p kind
  | @file p st _ kind goesOn => exact (cleared p st).insertFile p kind
  | listed told entries =>
    exact Index.evictAll_keeps (fun _ p _ concordant => concordant.evict p) concordant
  | @installed a d D further => exact concordant.setManifest D

end Crawl

namespace Watch

open Crawl (Deed)

variable {policy : Policy} {P : Index → Prop}

/-- A root that waits for its subscription is a directory. -/
def Progress.Opens : Progress → Prop
  | .waiting (.opening _ _ status) => status.kind = .directory
  | _ => True

theorem opens_resumeWatch (root : Path) (g : Generation) (roots : Roots) (r : Scope × Crawl.Progress) :
    (Host.resumeWatch root g roots r).2.Opens := by
  obtain ⟨s, task | result⟩ := r <;> trivial

theorem opens_resumeRefresh (path : Path) (g : Generation) (roots : Roots)
    (r : Scope × Crawl.Progress) : (Host.resumeRefresh path g roots r).2.Opens := by
  obtain ⟨s, task | result⟩ := r <;> trivial

theorem opens_watch (root : Path) (h : Host) : (h.watch root).2.Opens := by
  unfold Host.watch
  split <;> trivial

theorem opens_refresh (path : Path) (h : Host) : (h.refresh policy path).2.Opens := by
  unfold Host.refresh
  split
  · trivial
  · exact opens_resumeRefresh path _ _ _

theorem Call.step_opens (call : Call) (world : World) (schedule : List Nat) (h : Host) :
    (call.step policy world schedule h).2.Opens := by
  cases call with
  | joining root g =>
    unfold step
    dsimp only
    split <;> trivial
  | draining root below =>
    unfold step
    dsimp only
    split
    · exact opens_watch root h
    · trivial
  | looking root g =>
    unfold step
    dsimp only
    split
    · trivial
    · split
      next directory => exact directory
      · trivial
  | opening root g status =>
    unfold step
    dsimp only
    split
    · trivial
    · exact opens_resumeWatch root g h.roots _
  | crawling root g task remarks => exact opens_resumeWatch root g h.roots _
  | refreshing path g task remarks => exact opens_resumeRefresh path g h.roots _

/-- What holds of an index with a root, and is kept by each deed, holds after a crawl has registered its
root. -/
theorem index_addDirectory {ctx : Crawl.Context} {root : Path} {status : Status} {s : Scope}
    (opened : P (s.store.index.insertDirectory root status true).1) (start : P s.store.index) :
    P (ctx.addDirectory root status s).1.store.index := by
  cases stale : s.store.isStale ctx.generation with
  | true =>
    have edits := @Crawl.edits_addDirectory ctx root status s
    rwa [(edits.quiet_of_stale stale).index]
  | false =>
    rcases Crawl.addDirectory_outcome stale root status with ⟨_, same, _⟩ | ⟨_, written, _⟩
    · rwa [same]
    · rwa [written]

theorem index_resumeWatch (root : Path) (g : Generation) (roots : Roots)
    (r : Scope × Crawl.Progress) :
    (Host.resumeWatch root g roots r).1.store.index = r.1.store.index := by
  obtain ⟨s, task | result⟩ := r
  · rfl
  · exact (Host.finishWatch_keeps root g result s.remarks ⟨s.store, roots⟩).1.index

theorem index_resumeRefresh (path : Path) (g : Generation) (roots : Roots)
    (r : Scope × Crawl.Progress) :
    (Host.resumeRefresh path g roots r).1.store.index = r.1.store.index := by
  obtain ⟨s, task | result⟩ := r
  · rfl
  · exact (Host.finishRefresh_keeps path result s.remarks ⟨s.store, roots⟩).1.index

theorem index_watch (root : Path) (h : Host) : (h.watch root).1.store.index = h.store.index := by
  rcases h.watch_cases root with ⟨quiet, _, _⟩ | ⟨_, _, quiet, _, _⟩
  · exact quiet.index
  · exact quiet.index

/-- What each deed keeps, and the registration of a directory, is kept by a request that goes on. -/
theorem Call.index_keeps {call : Call} (opens : (Progress.waiting call).Opens) {world : World}
    {schedule : List Nat} {h : Host}
    (each : ∀ ctx world task ix ix' next, Deed ctx world ix task ix' next → P ix → P ix')
    (opened : ∀ ix root (st : Status), st.kind = .directory → P ix →
      P (ix.insertDirectory root st true).1)
    (start : P h.store.index) : P (call.step policy world schedule h).1.store.index := by
  have failed : ∀ root g e, P (h.failWatch root g e).1.store.index := by
    intro root g e
    have quiet := (Host.finishWatch_keeps root g (.error e) [] h).1
    rw [← quiet.index] at start
    exact start
  cases call with
  | joining root g =>
    unfold step
    dsimp only
    split <;> exact start
  | draining root below =>
    unfold step
    dsimp only
    split
    · rwa [index_watch]
    · exact start
  | looking root g =>
    unfold step
    dsimp only
    split
    · exact failed root g _
    · split
      · exact start
      · exact failed root g _
  | opening root g status =>
    unfold step
    dsimp only
    split
    · exact failed root g _
    · have taken := Store.quiet_rootTaken h.store root
      rw [index_resumeWatch]
      rw [← taken.index] at start
      exact index_addDirectory (opened _ root status opens start) start
  | crawling root g task remarks =>
    have moved := Crawl.Task.step_moves (firstCrawl policy g) world schedule task ⟨h.store, remarks⟩
    unfold step
    rw [index_resumeWatch]
    exact moved.index_keeps (each _ world) start
  | refreshing path g task remarks =>
    have moved := Crawl.Task.step_moves (refreshCrawl policy g) world schedule task ⟨h.store, remarks⟩
    unfold step
    rw [index_resumeRefresh]
    exact moved.index_keeps (each _ world) start

/-- After any move, the requests that wait for a subscription have found a directory. -/
theorem System.step_opens {s : System} (opens : ∀ call ∈ s.calls, call.Opens) (move : Move) :
    ∀ call ∈ (s.step policy move).calls, call.Opens := by
  have appended : ∀ p : Progress, p.Opens → ∀ call ∈ s.calls ++ [p], call.Opens := by
    intro p made call member
    rcases List.mem_append.1 member with before | new
    · exact opens call before
    · obtain rfl := List.mem_singleton.1 new
      exact made
  cases move with
  | watch root => exact appended _ (opens_watch root s.host)
  | refresh path => exact appended _ (opens_refresh path s.host)
  | unwatch root => exact opens
  | resume i world schedule =>
    dsimp only [System.step]
    split
    next call waits =>
      intro other member
      rcases List.mem_or_eq_of_mem_set member with before | new
      · exact opens other before
      · rw [new]
        exact call.step_opens world schedule s.host
    · exact opens

/-- What each deed keeps, the registration of a directory, and each eviction, is kept by every move. -/
theorem System.step_index_keeps {s : System} (opens : ∀ call ∈ s.calls, call.Opens) (move : Move)
    (each : ∀ ctx world task ix ix' next, Deed ctx world ix task ix' next → P ix → P ix')
    (opened : ∀ ix root (st : Status), st.kind = .directory → P ix →
      P (ix.insertDirectory root st true).1)
    (evicted : ∀ ix root, P ix → P (ix.evict root).1) (kept : P s.host.store.index) :
    P (s.step policy move).host.store.index := by
  cases move with
  | watch root =>
    dsimp only [System.step]
    rwa [index_watch]
  | refresh path =>
    dsimp only [System.step]
    rwa [(s.host.refresh_cases policy path).2.1.index]
  | unwatch root =>
    dsimp only [System.step]
    cases found : (s.host.unwatch root).2 with
    | true =>
      rw [Host.unwatch_index found]
      exact evicted _ root kept
    | false => rwa [Host.unwatch_nothing found]
  | resume i world schedule =>
    dsimp only [System.step]
    split
    next call waits =>
      have opening := opens _ (List.mem_of_getElem? waits)
      exact Call.index_keeps opening each opened kept
    · exact kept

/-- So it is true of the index of every system that is reached from an empty one. -/
theorem System.Reachable.index {s : System} (reachable : System.Reachable policy s)
    (each : ∀ ctx world task ix ix' next, Deed ctx world ix task ix' next → P ix → P ix')
    (opened : ∀ ix root (st : Status), st.kind = .directory → P ix →
      P (ix.insertDirectory root st true).1)
    (evicted : ∀ ix root, P ix → P (ix.evict root).1) (start : ∀ name, P (.empty name)) :
    P s.host.store.index := by
  have all : (∀ call ∈ s.calls, call.Opens) ∧ P s.host.store.index := by
    apply reachable.invariant (P := fun s => (∀ call ∈ s.calls, call.Opens) ∧ P s.host.store.index)
    · intro name style
      refine ⟨?_, start name⟩
      intro call member
      cases member
    · rintro s move ⟨opens, kept⟩
      exact ⟨step_opens opens move, step_index_keeps opens move each opened evicted kept⟩
  exact all.2

/-- The tables of the index go together in every system that is reached from an empty one. -/
theorem System.Reachable.concordant {s : System} (reachable : System.Reachable policy s) :
    s.host.store.index.Concordant :=
  reachable.index (fun _ _ _ _ _ _ deed => deed.concordant)
    (fun _ root _ kind concordant => concordant.insertDirectory root kind)
    (fun _ root concordant => concordant.evict root)
    .empty

end Watch

end ProjectIndex
