import ProjectIndex.Proofs.Crawl.Bookings
import ProjectIndex.Proofs.Watch.Alone
import ProjectIndex.Proofs.Watch.Standstill

/-!
# Manifests and the projects that they end up in

A root is watched on a fresh host while the disk does not change.  Each manifest is put into the record
of the project that is nearest when it is sent to the workers, once and for all.  Projects are declared
by configuration files and by manifests, in an order that depends on names, ranks and the schedule, so
a nearer project may come into force after a manifest was sent.  Such a manifest is overtaken: it is in
the record of another project than the one it belongs to in the end, or in none.  Nothing else can go
wrong.
-/

namespace ProjectIndex

/-- Every installed manifest is in the record of the project that it belongs to, if there is one, and
what is in a record is an installed manifest that belongs to the project. -/
structure Store.Associated (s : Store) : Prop where
  owned : ∀ (dir : Path) (D : Definition) (id : ProjectId), s.index.manifests[dir]? = some D →
    s.projects.find? D.path = some id → ∃ r P, s.projects.get? r = some P ∧ P.id = id ∧ D.id ∈ P.manifests
  owning : ∀ r P, s.projects.get? r = some P → ∀ m ∈ P.manifests, ∃ (dir : Path) (D : Definition),
    s.index.manifests[dir]? = some D ∧ D.id = m ∧ s.projects.find? D.path = some P.id

/-- The project that the manifest belongs to came into force after the manifest was sent. -/
def Store.Overtaken (run : Nat → Store) (s : Store) (D : Definition) : Prop :=
  ∃ k r P, SentAt run D k ∧ s.projects.get? r = some P ∧ s.projects.find? D.path = some P.id ∧
    (run (k + 1)).projects.get? r = none

/-- Where each manifest is in the record of its owner, the records are as they should be exactly if
every owner is the project that the manifest belongs to. -/
theorem Store.Booked.associated_iff {s : Store} {owns : Definition → Option ProjectId → Prop}
    (booked : s.Booked (fun _ => False) owns)
    (unique : ∀ D owner owner', owns D owner → owns D owner' → owner = owner') :
    s.Associated ↔ ∀ D owner, s.Has D → owns D owner → s.projects.find? D.path = owner := by
  have numbered := booked.numbered
  have holds : ∀ D owner, s.Has D → owns D owner → s.projects.Holds D.id owner := by
    intro D owner installed own
    obtain ⟨owner', own', holds⟩ := (booked.each D installed).resolve_left id
    exact unique D owner' owner own' own ▸ holds
  constructor
  · intro associated D owner installed own
    have holds := holds D owner installed own
    cases nearest : s.projects.find? D.path with
    | some id =>
      obtain ⟨r, P, found, rfl, member⟩ := associated.owned _ D id installed nearest
      exact ((holds.listed r P found).1 member).symm
    | none =>
      cases owner with
      | none => rfl
      | some id =>
        obtain ⟨r, P, found, rfl⟩ := holds.known id rfl
        obtain ⟨dir, E, installed', same, belongs⟩ :=
          associated.owning r P found D.id ((holds.listed r P found).2 rfl)
        have there : s.Has E := by
          rw [Has, numbered.own dir E installed']
          exact installed'
        obtain rfl := numbered.distinct E D there installed same
        exact nearest.symm.trans belongs
  · intro right
    refine ⟨fun dir D project installed nearest => ?_, fun r P found m member => ?_⟩
    · have there : s.Has D := by
        rw [Has, numbered.own dir D installed]
        exact installed
      obtain ⟨owner, own, holds⟩ := (booked.each D there).resolve_left id
      have same := nearest.symm.trans (right D owner there own)
      obtain ⟨r, P, found, rfl⟩ := holds.known project same.symm
      exact ⟨r, P, found, rfl, (holds.listed r P found).2 same.symm⟩
    · obtain ⟨D, installed, rfl⟩ := booked.listed r P found m member
      obtain ⟨owner, own, holds⟩ := (booked.each D installed).resolve_left id
      refine ⟨_, D, installed, rfl, (right D owner installed own).trans ?_⟩
      exact (holds.listed r P found).1 member

namespace Watch

variable {policy : Policy} {world : World} {d : Disk} {root : Path}

theorem Host.unsent_foldl {α : Type} {f : Host → α → Host}
    (each : ∀ (h : Host) (a : α), h.store.Unsent (f h a).store) (h : Host) (as : List α) :
    h.store.Unsent (as.foldl f h).store := by
  induction as generalizing h with
  | nil => exact .refl _
  | cons a rest ih => exact (each h a).trans (ih (f h a))

theorem Host.unsent_settle (h : Host) (root : Path) (g : Generation) (ok : Bool) :
    h.store.Unsent (h.settle root g ok).store := by
  unfold Host.settle
  dsimp only
  split
  · exact .refl _
  · exact (Store.unsent_log _ _).trans (Store.unsent_releaseRoot _ _)
  · exact Host.unsent_foldl (f := fun h r => h.update (·.releaseRoot r))
      (fun h r => Store.unsent_releaseRoot h.store r)
      { h with roots := (h.roots.settle root g (ok && h.store.isLive g)).1 } _

theorem Host.unsent_finishWatch (root : Path) (g : Generation) (result : Except IndexError Bool)
    (remarks : List Diagnostic) (h : Host) :
    h.store.Unsent (Host.finishWatch root g result remarks h).1.store := by
  unfold Host.finishWatch
  split
  · exact ((h.unsent_settle root g false).trans (Store.unsent_closeRoot _ root)).trans
      (Store.unsent_log _ _)
  · have settled := h.unsent_settle root g true
    dsimp only
    split
    · exact settled.trans (Store.unsent_log _ _)
    · refine .trans ?_ (Host.unsent_foldl (fun h _ => Store.unsent_log h.store _) _ remarks)
      exact settled.trans (Store.unsent_log _ _)

def Progress.Due : Progress → Definition → Prop
  | .waiting (.crawling _ _ task _), D => (Crawl.Progress.waiting task).Due D
  | _, _ => False

/-- A watch of the root that started on a fresh host, on a disk that does not change. -/
inductive Pursues (policy : Policy) (d : Disk) (root : Path) : Host × Progress → Prop where
  | looking {h : Host} {g : Generation} (blank : h.store.index = .empty policy.layout.manifestName)
      (live : h.store.isStale g = false) : Pursues policy d root (h, .waiting (.looking root g))
  | opening {h : Host} {g : Generation} {st : Status}
      (blank : h.store.index = .empty policy.layout.manifestName) (live : h.store.isStale g = false)
      (told : d.stat root.spelling = .ok st) (kind : st.kind = .directory) :
      Pursues policy d root (h, .waiting (.opening root g st))
  | crawling {h : Host} {g : Generation} {task : Crawl.Task} {remarks : List Diagnostic}
      (live : h.store.isStale g = false)
      (regular : Crawl.Regular d policy root h.store.index (.waiting task)) :
      Pursues policy d root (h, .waiting (.crawling root g task remarks))
  | finished (h : Host) (reply : Reply) : Pursues policy d root (h, .finished reply)

/-- A watch ends without a change to the manifests. -/
theorem ended_books {h : Host} {s : Scope} {call : Call} (g : Generation)
    (result : Except IndexError Bool) (roots : Roots) (unsent : h.store.Unsent s.store)
    (manifests : s.store.index.manifests = h.store.index.manifests)
    (undue : ∀ D, ¬ (Progress.waiting call).Due D) :
    let r := Host.resumeWatch root g roots (s, .finished result)
    Pursues policy d root r ∧ h.store.Books r.1.store (Progress.waiting call).Due r.2.Due := by
  have quiet := (Host.finishWatch_keeps root g result s.remarks ⟨s.store, roots⟩).1
  have silent := Host.unsent_finishWatch root g result s.remarks ⟨s.store, roots⟩
  refine ⟨.finished _ _, .still ?_ ?_ fun D => ⟨False.elim, undue D⟩⟩
  · exact unsent.trans silent
  · exact (congrArg Index.manifests quiet.index).trans manifests

/-- The first crawl of a root starts in order, with nothing to be sent. -/
theorem regular_start {s : Scope} {g : Generation} {st : Status}
    (blank : s.store.index = .empty policy.layout.manifestName) (live : s.store.isStale g = false)
    (plain : root.Plain) (told : d.stat root.spelling = .ok st) (kind : st.kind = .directory) :
    let r := (firstCrawl policy g).addDirectory root st s
    Crawl.Regular d policy root r.1.store.index r.2 ∧
      r.1.store.index.manifests = s.store.index.manifests ∧ ∀ D, ¬ r.2.Due D := by
  have attested : s.store.index.Attested d policy (· = root) :=
    blank ▸ Index.attested_empty _ d policy _
  have consistent : s.store.index.Consistent policy.layout (· = root) :=
    blank ▸ Index.consistent_empty policy.layout _
  have advances := @Crawl.advances_addDirectory _ _ (firstCrawl policy g) s live root st consistent rfl
    kind
  have outcome := @Crawl.addDirectory_outcome (firstCrawl policy g) s live root st
  dsimp only
  generalize (firstCrawl policy g).addDirectory root st s = r at advances outcome
  obtain ⟨t, next⟩ := r
  dsimp only at advances outcome ⊢
  rcases outcome with ⟨_, index, rfl⟩ | ⟨⟨_, taken⟩, index, goesOn⟩
  · refine ⟨⟨index ▸ attested, advances.consistent, fun task waits => ?_, by simp⟩, ?_, ?_⟩
    · cases waits
    · rw [index]
    · simp [Crawl.Progress.Due]
  · have written : t.store.index.Attested d policy (· = root) := by
      rw [index]
      exact attested.insertDirectory kind ⟨plain, told, kind ▸ taken, Or.inr rfl⟩
    have absent : s.store.index.isDirectory root = false := by
      simp [blank, Index.isDirectory, Index.empty]
    rw [absent] at goesOn
    have crossed : Crawl.Crossed d policy (fun _ => False) root root :=
      .root plain ⟨st, told, kind⟩ id taken
    have surveys : ∀ task, next = .waiting task → task.Surveys d policy (fun _ => False) root ∧
        ∀ leaf, task.Leaf leaf → leaf = .subscribe root false ∨ leaf = .list root false := by
      rcases goesOn with rfl | rfl
      · rintro task ⟨⟩
        refine ⟨.subscribe crossed, fun leaf inside => ?_⟩
        cases inside
        exact Or.inl rfl
      · rintro task ⟨⟩
        refine ⟨.list crossed, fun leaf inside => ?_⟩
        cases inside
        exact Or.inr rfl
    refine ⟨⟨written, advances.consistent, fun task waits => ?_, ?_⟩, by simp [index], ?_⟩
    · obtain ⟨placed, own, stands⟩ := advances.goesOn task waits
      exact ⟨placed, own, stands, (surveys task waits).1⟩
    · rintro leaf ⟨task, waits, inside⟩
      rcases (surveys task waits).2 leaf inside with rfl | rfl
      · trivial
      · trivial
    · rintro D ⟨a, task, waits, inside⟩
      rcases (surveys task waits).2 _ inside with other | other
      · cases other
      · cases other

/-- Each wait of the watch keeps it in order and does to the manifests what may be done to them. -/
theorem Pursues.step {h : Host} {call : Call} (pursues : Pursues policy d root (h, .waiting call))
    (tidy : d.isTidy = true) (plain : root.Plain) (reads : world.Reads d) (schedule : List Nat) :
    let r := call.step policy world schedule h
    Pursues policy d root r ∧ h.store.Books r.1.store (Progress.waiting call).Due r.2.Due := by
  have failed : ∀ {g : Generation} (e : IndexError), (∀ D, ¬ (Progress.waiting call).Due D) →
      Pursues policy d root (h.failWatch root g e) ∧
        h.store.Books (h.failWatch root g e).1.store (Progress.waiting call).Due
          (h.failWatch root g e).2.Due := fun e undue =>
    @ended_books policy d root h { store := h.store } call _ (.error e) h.roots (.refl _) rfl undue
  have idle : ∀ D : Definition, ¬ False := fun _ => id
  cases pursues with
  | looking blank live =>
    dsimp only [Call.step]
    cases looked : world.stat root with
    | error cause => exact failed _ idle
    | ok status =>
      dsimp only
      split
      next kind =>
        rw [reads.stat] at looked
        refine ⟨.opening blank live looked kind, .still ?_ rfl fun D => Iff.rfl⟩
        exact Store.unsent_emit (by simp [Store.Unsending]) h.store
      · exact failed _ idle
  | @opening h g st blank live told kind =>
    dsimp only [Call.step]
    cases world.openRoot root with
    | error e => exact failed _ idle
    | ok _ =>
      have quiet := Store.quiet_rootTaken h.store root
      have taken := Store.unsent_rootTaken h.store root
      have start := @regular_start policy d root { store := h.store.rootTaken root } g st
        (quiet.index.trans blank) ((quiet.isStale g).trans live) plain told kind
      have unsent := taken.trans (@Crawl.unsent_addDirectory (firstCrawl policy g) root st
        { store := h.store.rootTaken root })
      have still := ((@Crawl.edits_addDirectory (firstCrawl policy g) root st
        { store := h.store.rootTaken root }).isStale g).trans ((quiet.isStale g).trans live)
      dsimp only at start ⊢
      generalize (firstCrawl policy g).addDirectory root st { store := h.store.rootTaken root } = r
        at start unsent still
      obtain ⟨regular, manifests, undue⟩ := start
      replace manifests := manifests.trans (congrArg Index.manifests quiet.index)
      obtain ⟨s, task | result⟩ := r
      · refine ⟨.crawling still regular, .still unsent manifests fun D => ⟨fun due => ?_, False.elim⟩⟩
        exact undue D due
      · exact ended_books g result h.roots unsent manifests idle
  | @crawling h g task remarks live regular =>
    have absolute : root.isAbsolute = true := by
      obtain ⟨_, rfl, _⟩ := plain
      rfl
    have moved := Crawl.Task.step_moves (firstCrawl policy g) world schedule task ⟨h.store, remarks⟩
    have still := (moved.edits.isStale g).trans live
    obtain ⟨regular, change⟩ := moved.regular tidy live reads (World.Reads.listsOnce reads tidy) absolute
      regular
    dsimp only [Call.step]
    generalize task.step (firstCrawl policy g) world schedule ⟨h.store, remarks⟩ = r
      at still regular change
    obtain ⟨s, task' | result⟩ := r
    · exact ⟨.crawling still regular, change.books⟩
    · obtain ⟨unsent, manifests, undue⟩ := change.ended result rfl
      exact ended_books g result h.roots unsent manifests undue

/-- The stores along a watch of the root on a fresh host. -/
def stores (policy : Policy) (world : World) (schedule : Nat → List Nat) (root : Path)
    (style : Backend.Style) (k : Nat) : Store :=
  (after policy world schedule
    (Host.watch root { store := .empty policy.layout.manifestName style }) k).1.store

/-- Along a watch of the root, each wait does to the manifests what may be done to them. -/
theorem pursues_after (tidy : d.isTidy = true) (plain : root.Plain) (reads : world.Reads d)
    (schedule : Nat → List Nat) {start : Host × Progress} (pursues : Pursues policy d root start)
    (k : Nat) :
    Pursues policy d root (after policy world schedule start k) ∧
      (after policy world schedule start k).1.store.Books
        (after policy world schedule start (k + 1)).1.store (after policy world schedule start k).2.Due
        (after policy world schedule start (k + 1)).2.Due := by
  have next : ∀ k, Pursues policy d root (after policy world schedule start k) →
      Pursues policy d root (after policy world schedule start (k + 1)) ∧
        (after policy world schedule start k).1.store.Books
          (after policy world schedule start (k + 1)).1.store
          (after policy world schedule start k).2.Due
          (after policy world schedule start (k + 1)).2.Due := by
    intro k pursues
    rw [after]
    generalize after policy world schedule start k = r at pursues
    obtain ⟨h, call | reply⟩ := r
    · exact pursues.step tidy plain reads (schedule k)
    · exact ⟨pursues, .still (.refl _) rfl fun _ => Iff.rfl⟩
  have kept : Pursues policy d root (after policy world schedule start k) := by
    induction k with
    | zero => exact pursues
    | succ k ih => exact (next k ih).1
  exact ⟨kept, (next k kept).2⟩

/-- A root is watched on a fresh host while the disk does not change, under any schedule and with any
answer, and there are numbers enough.  Every manifest that is installed was sent once, and is in the
record of the project that was nearest at that moment and in no other record; and whatever is in a
record is an installed manifest.  So the manifests are associated with the projects that they belong to
exactly if none of them was overtaken: if no nearer project came into force after it was sent. -/
theorem manifests_associated_unless_overtaken (policy : Policy) (d : Disk) (tidy : d.isTidy = true)
    (world : World) (reads : world.Reads d) (root : Path) (plain : root.Plain) (style : Backend.Style)
    (schedule : Nat → List Nat) (n : Nat) (h : Host) (reply : Reply)
    (ends : after policy world schedule
      (Host.watch root { store := .empty policy.layout.manifestName style }) n = (h, .finished reply))
    (few : h.store.Few) :
    let run := stores policy world schedule root style
    (∀ (dir : Path) (D : Definition), h.store.index.manifests[dir]? = some D →
        ∃ k, k < n ∧ Store.SentAt run D k ∧ (∀ j, Store.SentAt run D j → j = k) ∧
          ∀ r P, h.store.projects.get? r = some P →
            (D.id ∈ P.manifests ↔ (run (k + 1)).projects.find? D.path = some P.id)) ∧
      (∀ r P, h.store.projects.get? r = some P → ∀ m ∈ P.manifests,
        ∃ (dir : Path) (D : Definition), h.store.index.manifests[dir]? = some D ∧ D.id = m) ∧
      (h.store.Associated ↔ ∀ (dir : Path) (D : Definition), h.store.index.manifests[dir]? = some D →
        ¬ Store.Overtaken run h.store D) := by
  intro run
  have pursues : Pursues policy d root
      (Host.watch root { store := .empty policy.layout.manifestName style }) := .looking rfl rfl
  have steps := fun k => (pursues_after tidy plain reads schedule pursues k).2
  have last : run n = h.store := congrArg (·.1.store) ends
  have start : (run 0).Booked (fun _ => False) fun _ _ => False := Store.booked_blank rfl rfl rfl rfl
  have booked := @Store.booked_run run _ steps start n (by rw [last]; exact few)
  rw [ends, last] at booked
  have unique : ∀ {D : Definition} {j k : Nat}, Store.SentAt run D j → Store.SentAt run D k → j = k :=
    Store.SentAt.unique steps
  have has : ∀ (dir : Path) (D : Definition), h.store.index.manifests[dir]? = some D → h.store.Has D := by
    intro dir D found
    rw [Store.Has, booked.numbered.own dir D found]
    exact found
  have precedes : ∀ k, k < n → (run (k + 1)).projects.Precedes h.store.projects :=
    fun k less => last ▸ Store.precedes_of_le steps less
  refine ⟨fun dir D found => ?_, fun r P found m member => ?_, ?_⟩
  · obtain ⟨owner, ⟨k, less, sent, rfl⟩, holds⟩ := (booked.each D (has dir D found)).resolve_left id
    exact ⟨k, less, sent, fun j sent' => unique sent' sent, holds.listed⟩
  · obtain ⟨D, installed, own⟩ := booked.listed r P found m member
    exact ⟨_, D, installed, own⟩
  · rw [booked.associated_iff]
    · constructor
      · rintro right dir D found ⟨k, r, P, sent, overtakes⟩
        obtain ⟨owner, ⟨j, less, sent', rfl⟩, _⟩ := (booked.each D (has dir D found)).resolve_left id
        obtain rfl := unique sent' sent
        exact ((precedes j less).find?_ne_iff booked.projects D.path).2 ⟨r, P, overtakes⟩
          (right D _ (has dir D found) ⟨j, less, sent', rfl⟩)
      · rintro right D owner installed ⟨k, less, sent, rfl⟩
        by_contra other
        obtain ⟨r, P, overtakes⟩ := ((precedes k less).find?_ne_iff booked.projects D.path).1 other
        exact right _ D installed ⟨k, r, P, sent, overtakes⟩
    · rintro D owner owner' ⟨k, _, sent, rfl⟩ ⟨k', _, sent', rfl⟩
      rw [unique sent sent']

/-- A disk on which the package `/a` has a manifest and a configuration file beside it. -/
def configuredPackage : Disk where
  root := .directory 0 [([97], .directory 0
    [(.ofString "package.json", .file 0 [0x7B, 0x7D]), (.ofString "projfs.json", .file 0 [0x7B, 0x7D])])]

/-- Where the watch of the package stands after some of its waits. -/
def configuredWatch : Nat → Host × Progress :=
  after (.ofSettings {}) (.ofDisk configuredPackage) (fun _ => [])
    (Host.watch ⟨[.root, .name [97]]⟩ { store := .empty (.ofString "package.json") .recursive })

theorem configuredWatch_ends :
    configuredWatch 12 = ((configuredWatch 12).1, .finished (.watched (.ok ()))) := by
  refine Prod.ext rfl ?_
  with_unfolding_all rfl

/-- The manifest is put into no record, although the package is a project in the end. -/
theorem configuredWatch_unassociated : ¬ (configuredWatch 12).1.store.Associated := by
  intro associated
  have installed : ((configuredWatch 12).1.store.index.manifests[(⟨[.root, .name [97]]⟩ : Path)]?).any
      (fun D => ((configuredWatch 12).1.store.projects.find? D.path).isSome) = true := by
    decide +kernel
  have bare : ∀ P ∈ (configuredWatch 12).1.store.projects.toList, P.manifests = [] := by
    decide +kernel
  obtain ⟨D, found, nearest⟩ := (Option.any_eq_true _ _).1 installed
  obtain ⟨id, nearest⟩ := Option.isSome_iff_exists.1 nearest
  obtain ⟨r, P, recorded, _, member⟩ := associated.owned _ D id found nearest
  rw [bare P] at member
  · cases member
  · exact List.mem_map.2 ⟨(r, P), Std.ExtTreeMap.mem_toList_iff_getElem?_eq_some.2 recorded, rfl⟩

/-- The manifest of the package was overtaken by the project that the file beside it declares. -/
theorem manifests_associated_unless_overtaken_configured :
    ∃ (dir : Path) (D : Definition),
      (configuredWatch 12).1.store.index.manifests[dir]? = some D ∧
      Store.Overtaken (stores (.ofSettings {}) (.ofDisk configuredPackage) (fun _ => [])
        ⟨[.root, .name [97]]⟩ .recursive) (configuredWatch 12).1.store D := by
  have plain : (⟨[.root, .name [97]]⟩ : Path).Plain :=
    ⟨[[97]], rfl, fun n member => Name.plain_of_isLegal (by
      obtain rfl := List.mem_singleton.1 member
      decide)⟩
  have few : (configuredWatch 12).1.store.Few := by
    refine ⟨?_, ?_⟩
    · unfold Projects.Few
      decide +kernel
    · decide +kernel
  obtain ⟨_, _, exactly⟩ := manifests_associated_unless_overtaken (.ofSettings {}) configuredPackage
    (by decide +kernel) (.ofDisk configuredPackage) (World.reads_ofDisk _) ⟨[.root, .name [97]]⟩ plain
    .recursive (fun _ => []) 12 (configuredWatch 12).1 (.watched (.ok ())) configuredWatch_ends few
  by_contra none
  refine configuredWatch_unassociated (exactly.2 fun dir D found overtaken => none ?_)
  exact ⟨dir, D, found, overtaken⟩

/-- A watch is answered without a failure, and the manifest of the package is in no record. -/
theorem watched_manifest_left_unowned :
    ∃ (n : Nat) (h : Host), after (.ofSettings {}) (.ofDisk configuredPackage) (fun _ => [])
        (Host.watch ⟨[.root, .name [97]]⟩ { store := .empty (.ofString "package.json") .recursive }) n =
        (h, .finished (.watched (.ok ()))) ∧ ¬ h.store.Associated :=
  ⟨12, _, configuredWatch_ends, configuredWatch_unassociated⟩

end Watch

end ProjectIndex
