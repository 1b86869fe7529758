import ProjectIndex.Proofs.Crawl.Stance

/-!
# Crawls while the disk changes

`Task.Fits` compares a task with the disk of one moment: the directories that the task works in are
directories there.  While a disk changes, a directory that a crawl has registered may be something
else by the time it is listed, and the crawl goes on as if it were not.

All that a crawl relies on about the directories that it holds is what the index says about them.
A move asks for one entry at most, and that is none of the directories held.  So a move in any world
is also a move in a world that recalls the directories held, and there the task fits.  What was said
of moves that fit then holds of a crawl on a disk that changes at each of its waits: the index stays
sound, and whatever is known was told at some time.
-/

namespace ProjectIndex

/-- Whatever a world lists in the region of a site is told once each and where it belongs. -/
structure Site.ListsIn (site : Site) (world : World) : Prop where
  below : ∀ p, site.region p → site.root.Covers p
  entries : ∀ d cs, site.region d → world.children d = .ok cs →
    cs.Nodup ∧ ∀ c ∈ cs, c.parent = some d ∧ site.region c

theorem Site.ListsIn.lists {site : Site} {world : World} (lists : site.ListsIn world)
    (entry : Path → Except DiskError Status) :
    ({ site with world := { world with entry } } : Site).Lists where
  below := lists.below
  entries d cs opens told := lists.entries d cs opens.reached told

namespace Crawl

/-- The directories that a task has registered and is not done with. -/
inductive Task.Holds : Task → Path → Prop where
  | subscribe (d : Path) (known : Bool) : Holds (.subscribe d known) d
  | list (d : Path) (known : Bool) : Holds (.list d known) d
  | inOrder (d : Path) (current : Task) (queue rest : List Path) :
      Holds (.inOrder d current queue rest) d
  | first {d q : Path} {current : Task} {queue rest : List Path} (held : Holds current q) :
      Holds (.inOrder d current queue rest) q
  | together (d : Path) (running : List Task) (failure : Option IndexError) :
      Holds (.together d running failure) d
  | among {d q : Path} {task : Task} {running : List Task} {failure : Option IndexError}
      (member : task ∈ running) (held : Holds task q) : Holds (.together d running failure) q

/-- The entries whose status a task waits for. -/
inductive Task.Asks : Task → Path → Prop where
  | entry (p : Path) : Asks (.entry p) p
  | first {d q : Path} {current : Task} {queue rest : List Path} (asks : Asks current q) :
      Asks (.inOrder d current queue rest) q
  | among {d q : Path} {task : Task} {running : List Task} {failure : Option IndexError}
      (member : task ∈ running) (asks : Asks task q) : Asks (.together d running failure) q

namespace Task.Fits

variable {site : Site} {ix : Index} {p q : Path} {task : Task}

/-- The directories that a task holds lie at or below its path and are known. -/
theorem held (fits : Task.Fits site ix p task) (holds : task.Holds q) :
    p.Covers q ∧ q ∈ ix.directories ∧ site.Opens q := by
  induction fits with
  | begin | entry | project | manifest => cases holds
  | subscribe directory opens =>
    cases holds
    exact ⟨.refl q, directory, opens⟩
  | list directory opens =>
    cases holds
    exact ⟨.refl q, directory, opens⟩
  | @inOrder d c current queue rest directory opens first distinct entries ih =>
    cases holds with
    | inOrder => exact ⟨.refl q, directory, opens⟩
    | first holds =>
      obtain ⟨covers, known⟩ := ih holds
      exact ⟨(Path.covers_of_parent (entries c (by simp)).1).trans covers, known⟩
  | together placed shape directory opens each distinct entries ih =>
    cases holds with
    | together => exact ⟨.refl q, directory, opens⟩
    | among member holds =>
      subst shape
      obtain ⟨x, inside, rfl⟩ := List.mem_map.1 member
      obtain ⟨covers, known⟩ := ih x inside holds
      exact ⟨(Path.covers_of_parent (entries x inside).1).trans covers, known⟩

/-- The entries that a task waits for lie at or below its path. -/
theorem asked (fits : Task.Fits site ix p task) (asks : task.Asks q) : p.Covers q := by
  induction fits with
  | begin | subscribe | list | project | manifest => cases asks
  | entry =>
    cases asks
    exact .refl q
  | @inOrder d c current queue rest directory opens first distinct entries ih =>
    cases asks with
    | first asks => exact (Path.covers_of_parent (entries c (by simp)).1).trans (ih asks)
  | together placed shape directory opens each distinct entries ih =>
    cases asks with
    | among member asks =>
      subst shape
      obtain ⟨x, inside, rfl⟩ := List.mem_map.1 member
      exact (Path.covers_of_parent (entries x inside).1).trans (ih x inside asks)

/-- A task does not wait for the status of a directory that it holds. -/
theorem not_held_of_asked (fits : Task.Fits site ix p task) (asks : task.Asks q) :
    ¬ task.Holds q := by
  induction fits with
  | begin | subscribe | list | project | manifest => cases asks
  | entry =>
    intro holds
    cases holds
  | @inOrder d c current queue rest directory opens first distinct entries ih =>
    have parent := (entries c (by simp)).1
    cases asks with
    | first asks =>
      intro holds
      cases holds with
      | inOrder => exact Path.not_covers_of_parent parent (first.asked asks)
      | first holds => exact ih asks holds
  | together placed shape directory opens each distinct entries ih =>
    cases asks with
    | among member asks =>
      subst shape
      obtain ⟨x, inside, rfl⟩ := List.mem_map.1 member
      have covers := (each x inside).asked asks
      intro holds
      cases holds with
      | together => exact Path.not_covers_of_parent (entries x inside).1 covers
      | among member' holds =>
        obtain ⟨y, inside', rfl⟩ := List.mem_map.1 member'
        have same : x = y := by
          refine List.inj_on_of_nodup_map distinct inside inside' ?_
          exact Path.eq_of_siblings (entries x inside).1 (entries y inside').1 covers
            ((each y inside').held holds).1
        subst same
        exact ih x inside asks holds

/-- Of the world, a task needs to know no more than that it holds directories. -/
theorem elsewhere (fits : Task.Fits site ix p task) {world : World}
    (opens : ∀ d, task.Holds d → ({ site with world } : Site).Opens d) :
    Task.Fits { site with world } ix p task := by
  induction fits with
  | begin hooked reached => exact .begin hooked reached
  | entry hooked reached => exact .entry hooked reached
  | subscribe directory _ bare => exact .subscribe directory (opens _ (.subscribe _ _)) bare
  | list directory _ bare => exact .list directory (opens _ (.list _ _)) bare
  | project file => exact .project file
  | manifest file own => exact .manifest file own
  | inOrder directory _ first distinct entries ih =>
    exact .inOrder directory (opens _ (.inOrder _ _ _ _)) (ih fun d holds => opens d (.first holds))
      distinct entries
  | together placed shape directory _ each distinct entries ih =>
    refine .together placed shape directory (opens _ (.together _ _ _)) (fun x member => ?_) distinct
      entries
    refine ih x member fun d holds => opens d (.among ?_ holds)
    exact shape ▸ List.mem_map_of_mem member

end Task.Fits

/-- A move depends on the entries that the task asks for, and on no others. -/
theorem Task.Moves.asking {ctx : Context} {world : World} {s : Scope} {task : Task}
    {r : Scope × Progress} (moved : Task.Moves ctx world s task r)
    {entry : Path → Except DiskError Status}
    (same : ∀ p, task.Asks p → entry p = world.entry p) :
    Task.Moves ctx { world with entry } s task r := by
  induction moved with
  | begin p => exact .begin p
  | entry p =>
    rw [← same p (.entry p)]
    exact @Task.Moves.entry ctx { world with entry } s p
  | subscribe dir known => exact @Task.Moves.subscribe ctx { world with entry } s dir known
  | list dir known => exact @Task.Moves.list ctx { world with entry } s dir known
  | project a root => exact @Task.Moves.project ctx { world with entry } s a root
  | manifest a d =>
    have moved := @Task.Moves.manifest ctx { world with entry } s a d
    cases d <;> exact moved
  | inOrder dir queue rest moved ih =>
    exact .inOrder dir queue rest (ih fun p asks => same p (.first asks))
  | inOrderFailed dir queue rest moved ih =>
    exact .inOrderFailed dir queue rest (ih fun p asks => same p (.first asks))
  | inOrderDone dir queue rest moved ih =>
    exact .inOrderDone dir queue rest (ih fun p asks => same p (.first asks))
  | together dir before after failure moved ih =>
    exact .together dir before after failure (ih fun p asks => same p (.among (by simp) asks))
  | togetherDone dir before after failure moved left ih =>
    exact .togetherDone dir before after failure
      (ih fun p asks => same p (.among (by simp) asks)) left
  | togetherLast dir failure moved ih =>
    exact .togetherLast dir failure (ih fun p asks => same p (.among (by simp) asks))
  | togetherNone dir failure => exact .togetherNone dir failure

open Classical in
/-- What is told of an entry when the directories that a task holds are still what the index says. -/
noncomputable def recalled (world : World) (ix : Index) (task : Task) (p : Path) :
    Except DiskError Status :=
  if task.Holds p then
    match ix.status? p with
    | some st => .ok st
    | none => .error .notFound
  else world.entry p

theorem recalled_ok {world : World} {ix : Index} {task : Task} {p : Path} {st : Status}
    (told : recalled world ix task p = .ok st) :
    ix.status? p = some st ∨ ¬ task.Holds p ∧ world.entry p = .ok st := by
  unfold recalled at told
  split at told
  · split at told
    next found => exact Or.inl (Except.ok.inj told ▸ found)
    · cases told
  next free => exact Or.inr ⟨free, told⟩

section

variable {site : Site} {ctx : Context} {world : World} {s : Scope} {task : Task}
  {r : Scope × Progress} {p : Path}

/-- A move in any world keeps the index sound, enters nothing but what the world tells of entries
that the task does not hold, and leaves a task that fits in some world. -/
theorem Task.Moves.fits_somewhere (moved : Task.Moves ctx world s task r)
    (lists : site.ListsIn world) (policy : ctx.policy = site.policy)
    (live : s.store.isStale ctx.generation = false) (sound : s.store.index.Sound site.root)
    (fits : Task.Fits site s.store.index p task) :
    r.1.store.index.Sound site.root ∧
      (∀ q st, r.1.store.index.status? q = some st → s.store.index.status? q = some st ∨
        (¬ task.Holds q ∧ world.entry q = .ok st ∧ site.policy.ignores q st.kind = false ∧
          site.region q)) ∧
      ∃ world', ∀ task', r.2 = .waiting task' →
        Task.Fits { site with world := world' } r.1.store.index p task' := by
  let entry := recalled world s.store.index task
  have opens : ∀ d, task.Holds d →
      ({ site with world := { world with entry } } : Site).Opens d := by
    intro d holds
    obtain ⟨_, directory, opens⟩ := fits.held holds
    obtain ⟨st, found, kind⟩ := sound.mem_directories.1 directory
    refine ⟨opens.reached, ⟨st, ?_, kind⟩, opens.taken⟩
    simp [entry, recalled, holds, found]
  have asking : Task.Moves ctx { world with entry } s task r := moved.asking fun q asks => by
    simp [entry, recalled, fits.not_held_of_asked asks]
  obtain ⟨reworked, next⟩ := @Task.Moves.fits { site with world := { world with entry } } ctx s task r
    asking p (lists.lists entry) policy live sound (fits.elsewhere opens)
  refine ⟨reworked.sound, fun q st found => ?_, _, next⟩
  rcases reworked.told q st found with before | ⟨told, takes, reached⟩
  · exact Or.inl before
  · exact (recalled_ok told).imp_right fun ⟨free, now⟩ => ⟨free, now, takes, reached⟩

theorem holds_following {d : Path} {queue rest : List Path}
    (waits : following d queue rest = .waiting task) : task.Holds d := by
  cases queue with
  | nil =>
    simp only [following] at waits
    split at waits
    · cases waits
    · cases waits
      exact .together d _ none
  | cons q queue =>
    cases waits
    exact .inOrder d _ queue rest

/-- A task that holds its own path goes on holding it. -/
theorem Task.Moves.holds (moved : Task.Moves ctx world s task r)
    (live : s.store.isStale ctx.generation = false) (fits : Task.Fits site s.store.index p task)
    (holds : task.Holds p) {task' : Task} (waits : r.2 = .waiting task') : task'.Holds p := by
  cases moved with
  | begin | entry | project | manifest => cases holds
  | subscribe _ known =>
    cases fits
    cases waits
    exact .list p known
  | list _ known =>
    cases fits
    rcases listed_outcome live p known (world.children p) with
      ⟨cause, _, ⟨_, _, ends⟩ | ⟨_, ends⟩⟩ | ⟨cs, _, _, next⟩
    · cases ends.symm.trans waits
    · cases ends.symm.trans waits
    · exact holds_following (next.symm.trans waits)
  | inOrder _ queue rest moved =>
    cases fits
    cases waits
    exact .inOrder p _ queue rest
  | inOrderFailed => cases waits
  | inOrderDone _ queue rest moved =>
    cases fits
    have still := (moved.edits.isStale ctx.generation).trans live
    exact holds_following ((nextInOrder_outcome still p queue rest).2.symm.trans waits)
  | together _ before after failure moved =>
    cases fits
    cases waits
    exact .together p _ failure
  | togetherDone _ before after failure moved left =>
    cases fits
    cases waits
    exact .together p _ _
  | togetherLast _ failure moved =>
    exact absurd waits conclude_not_waiting
  | togetherNone _ failure =>
    exact absurd waits conclude_not_waiting

end

/-- What an index knows when every entry was told by some admitted world and the root was a
directory. -/
def Attributed (site : Site) (admits : World → Prop) (ix : Index) : Prop :=
  ∀ q st, ix.status? q = some st → site.policy.ignores q st.kind = false ∧ site.region q ∧
    if q = site.root then st.kind = .directory else ∃ world, admits world ∧ world.entry q = .ok st

/-- The crawl of a root in a live generation, while the worlds change. -/
structure Exposed (site : Site) (admits : World → Prop) (ctx : Context) (r : Scope × Progress) :
    Prop where
  live : r.1.store.isStale ctx.generation = false
  sound : r.1.store.index.Sound site.root
  told : Attributed site admits r.1.store.index
  holds : ∀ task, r.2 = .waiting task → task.Holds site.root
  fits : ∃ world, ∀ task, r.2 = .waiting task →
    Task.Fits { site with world } r.1.store.index site.root task

section

variable {site : Site} {admits : World → Prop} {ctx : Context} {s : Scope}

theorem Exposed.moved {world : World} {task : Task} {r : Scope × Progress}
    (exposed : Exposed site admits ctx (s, .waiting task)) (moved : Task.Moves ctx world s task r)
    (admitted : admits world) (lists : site.ListsIn world) (policy : ctx.policy = site.policy) :
    Exposed site admits ctx r := by
  obtain ⟨before, fits⟩ := exposed.fits
  have fits := fits task rfl
  have holds := exposed.holds task rfl
  obtain ⟨sound, told, next⟩ := @Task.Moves.fits_somewhere { site with world := before } ctx world s
    task r site.root moved ⟨lists.below, lists.entries⟩ policy exposed.live exposed.sound fits
  refine ⟨(moved.edits.isStale _).trans exposed.live, sound, fun q st found => ?_,
    fun task' => moved.holds exposed.live fits holds, next⟩
  rcases told q st found with known | ⟨free, now, takes, reached⟩
  · exact exposed.told q st known
  · refine ⟨takes, reached, ?_⟩
    have other : q ≠ site.root := fun same => free (same ▸ holds)
    rw [if_neg other]
    exact ⟨world, admitted, now⟩

/-- Along a crawl in admitted worlds the index stays sound and knows what was told. -/
theorem Served.exposed {r : Scope × Progress} {result : Except IndexError Bool}
    (served : Served ctx admits r s result) (lists : ∀ world, admits world → site.ListsIn world)
    (policy : ctx.policy = site.policy) (start : Exposed site admits ctx r) :
    Exposed site admits ctx (s, .finished result) :=
  served.keeps start fun _ _ _ _ admitted moved exposed =>
    exposed.moved moved admitted (lists _ admitted) policy

/-- The first crawl of a root, whatever comes later. -/
theorem exposed_start {world : World} {st : Status} {name : Name} (lists : site.ListsIn world)
    (policy : ctx.policy = site.policy) (live : s.store.isStale ctx.generation = false)
    (blank : s.store.index = .empty name) (reached : site.region site.root)
    (kind : st.kind = .directory) :
    Exposed site admits ctx (ctx.addDirectory site.root st s) := by
  have sound : s.store.index.Sound site.root := blank ▸ Index.sound_empty name site.root
  have unknown : ∀ q, s.store.index.status? q = none := by
    intro q
    simp [blank, Index.empty, Index.status?]
  have edits : Edits ctx s.store (ctx.addDirectory site.root st s).1.store := edits_addDirectory _ _ s
  have taken := @addDirectory_taken { site with world := { world with entry := fun _ => .ok st } } ctx
    s site.root st (lists.lists _) policy live sound (Or.inl rfl) reached rfl kind
    (by simp [blank, Index.empty])
  refine ⟨(edits.isStale _).trans live, ?_, fun q st' found => ?_, fun task waits => ?_,
    _, fun task => taken.goesOn⟩
  · exact (taken.reworked sound rfl reached).sound
  · cases taken with
    | passed _ same _ =>
      rw [same, unknown q] at found
      cases found
    | written takes _ statuses _ _ _ =>
      rw [statuses q] at found
      split at found
      next own =>
        obtain rfl := Option.some.inj found
        subst own
        exact ⟨takes, reached, by rw [if_pos rfl]; exact kind⟩
      · rw [unknown q] at found
        cases found
  · cases taken with
    | passed _ _ ends =>
      obtain ⟨changed, ends⟩ := ends
      cases ends.symm.trans waits
    | written _ _ _ _ directory _ =>
      obtain ⟨known, next | next⟩ := directory kind
      · cases next.symm.trans waits
        exact .subscribe _ known
      · cases next.symm.trans waits
        exact .list _ known

end

end Crawl

end ProjectIndex
