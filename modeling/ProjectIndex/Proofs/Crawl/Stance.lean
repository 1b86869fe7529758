import ProjectIndex.Proofs.Crawl.Outcomes

/-!
# Where a crawl stands

A `Site` is a root, the disk that answers below it while it does not change, and the policy.  A task
fits a path when it works at or below that path and the index is ready for it: the directories on
its way are known, and the entries that are crawled at once are different entries of one directory.

A move of a task that fits a path keeps the index sound, changes the status of paths at or below
that path only, and leaves a task that fits the path again.  So tasks that are crawled at once do
not disturb each other.
-/

namespace ProjectIndex

structure Site where
  policy : Policy
  world : World
  root : Path
  /-- The paths that crawls come to. -/
  region : Path → Prop

namespace Site

structure Opens (site : Site) (d : Path) : Prop where
  reached : site.region d
  directory : ∃ st, site.world.entry d = .ok st ∧ st.kind = .directory
  taken : site.policy.ignores d .directory = false

structure Lists (site : Site) : Prop where
  below : ∀ p, site.region p → site.root.Covers p
  entries : ∀ d cs, site.Opens d → site.world.children d = .ok cs →
    cs.Nodup ∧ ∀ c ∈ cs, c.parent = some d ∧ site.region c

end Site

namespace Crawl

/-- The task works at or below the path, and the index is ready for it. -/
inductive Task.Fits (site : Site) (ix : Index) : Path → Task → Prop where
  | begin {p : Path} (hooked : ix.Hooked site.root p) (reached : site.region p) :
      Fits site ix p (.begin p)
  | entry {p : Path} (hooked : ix.Hooked site.root p) (reached : site.region p) :
      Fits site ix p (.entry p)
  | subscribe {d : Path} {known : Bool} (directory : d ∈ ix.directories) (opens : site.Opens d)
      (bare : known = false → ∀ c, c.parent = some d → ¬ ix.Known c) :
      Fits site ix d (.subscribe d known)
  | list {d : Path} {known : Bool} (directory : d ∈ ix.directories) (opens : site.Opens d)
      (bare : known = false → ∀ c, c.parent = some d → ¬ ix.Known c) :
      Fits site ix d (.list d known)
  | project {a : Arrival} {root : Path} (file : a.path ∈ ix.files) :
      Fits site ix a.path (.project a root)
  | manifest {a : Arrival} {d : Declaration} (file : a.path ∈ ix.files)
      (own : ∀ path directory, d = .reading path directory →
        path = a.path ∧ directory = a.path.parent.getD a.path ∧
          site.policy.layout.isOfInterest a.path = true) :
      Fits site ix a.path (.manifest a d)
  | inOrder {d c : Path} {current : Task} {queue rest : List Path}
      (directory : d ∈ ix.directories) (opens : site.Opens d) (first : Fits site ix c current)
      (distinct : (c :: (queue ++ rest)).Nodup)
      (entries : ∀ q ∈ c :: (queue ++ rest), q.parent = some d ∧ site.region q) :
      Fits site ix d (.inOrder d current queue rest)
  | together {d : Path} {running : List Task} {failure : Option IndexError}
      (placed : List (Path × Task)) (shape : running = placed.map (·.2))
      (directory : d ∈ ix.directories) (opens : site.Opens d)
      (each : ∀ x ∈ placed, Fits site ix x.1 x.2) (distinct : (placed.map (·.1)).Nodup)
      (entries : ∀ x ∈ placed, x.1.parent = some d ∧ site.region x.1) :
      Fits site ix d (.together d running failure)

/-- What a crawl that works at or below `p` does to the index. -/
structure Reworked (site : Site) (p : Path) (ix ix' : Index) : Prop where
  sound : ix'.Sound site.root
  outside : ∀ q, ¬ p.Covers q → ix'.status? q = ix.status? q
  /-- Each new status is one that the disk told, of something that is taken in. -/
  told : ∀ q st, ix'.status? q = some st → ix.status? q = some st ∨
    (site.world.entry q = .ok st ∧ site.policy.ignores q st.kind = false ∧ site.region q)

namespace Reworked

variable {site : Site} {p : Path} {ix ix' ix'' : Index}

theorem refl (sound : ix.Sound site.root) (p : Path) : Reworked site p ix ix :=
  ⟨sound, fun _ _ => rfl, fun _ _ found => Or.inl found⟩

/-- Statuses that stay and statuses that go. -/
theorem of_fewer (sound : ix'.Sound site.root)
    (outside : ∀ q, ¬ p.Covers q → ix'.status? q = ix.status? q)
    (fewer : ∀ q st, ix'.status? q = some st → ix.status? q = some st) :
    Reworked site p ix ix' :=
  ⟨sound, outside, fun q st found => Or.inl (fewer q st found)⟩

/-- Nothing is known any more at a path and below it. -/
theorem of_cleared (sound : ix'.Sound site.root)
    (statuses : ∀ q, ix'.status? q = if p.Covers q then none else ix.status? q) :
    Reworked site p ix ix' := by
  refine .of_fewer sound (fun q out => ?_) (fun q st found => ?_)
  · rw [statuses q, if_neg out]
  · rw [statuses q] at found
    split at found
    · cases found
    · exact found

theorem trans (first : Reworked site p ix ix') (second : Reworked site p ix' ix'') :
    Reworked site p ix ix'' where
  sound := second.sound
  outside q out := (second.outside q out).trans (first.outside q out)
  told q st found := by
    rcases second.told q st found with before | told
    · exact first.told q st before
    · exact Or.inr told

/-- What is done below an entry is done below its directory. -/
theorem of_entry {d : Path} (inner : Reworked site p ix ix') (parent : p.parent = some d) :
    Reworked site d ix ix' where
  sound := inner.sound
  outside q out := inner.outside q fun covers => out ((Path.covers_of_parent parent).trans covers)
  told := inner.told

/-- A directory outside stays a directory. -/
theorem mem_directories {d : Path} (sound : ix.Sound site.root) (reworked : Reworked site p ix ix')
    (out : ¬ p.Covers d) : d ∈ ix'.directories ↔ d ∈ ix.directories := by
  simp only [reworked.sound.mem_directories, sound.mem_directories, reworked.outside d out]

end Reworked

/-- A task fits as long as nothing at or below its path changes and its path stays in place. -/
theorem Task.Fits.frame {site : Site} {ix ix' : Index} {p : Path} {task : Task}
    (fits : Task.Fits site ix p task) (sound : ix.Sound site.root) (sound' : ix'.Sound site.root)
    (same : ∀ q, p.Covers q → ix'.status? q = ix.status? q) (hooked : ix'.Hooked site.root p) :
    Task.Fits site ix' p task := by
  have directory_of : ∀ d, ix'.status? d = ix.status? d → d ∈ ix.directories → d ∈ ix'.directories := by
    intro d same directory
    rw [sound'.mem_directories, same, ← sound.mem_directories]
    exact directory
  have file_of : ∀ f, ix'.status? f = ix.status? f → f ∈ ix.files → f ∈ ix'.files := by
    intro f same file
    rw [sound'.mem_files, same, ← sound.mem_files]
    exact file
  have unknown_of : ∀ c, ix'.status? c = ix.status? c → ¬ ix.Known c → ¬ ix'.Known c := by
    intro c same unknown
    rwa [← Index.status?_eq_none, same, Index.status?_eq_none]
  induction fits with
  | begin _ reached => exact .begin hooked reached
  | entry _ reached => exact .entry hooked reached
  | @subscribe d known directory opens bare =>
    refine .subscribe (directory_of d (same d (.refl d)) directory) opens fun new c parent => ?_
    exact unknown_of c (same c (Path.covers_of_parent parent)) (bare new c parent)
  | @list d known directory opens bare =>
    refine .list (directory_of d (same d (.refl d)) directory) opens fun new c parent => ?_
    exact unknown_of c (same c (Path.covers_of_parent parent)) (bare new c parent)
  | @project a _ file => exact .project (file_of a.path (same a.path (.refl _)) file)
  | @manifest a _ file own => exact .manifest (file_of a.path (same a.path (.refl _)) file) own
  | @inOrder d c current queue rest directory opens first distinct entries ih =>
    have parent := (entries c (by simp)).1
    have kept := directory_of d (same d (.refl d)) directory
    refine .inOrder kept opens (ih (fun q covers => ?_) (Or.inr ⟨d, parent, kept⟩)) distinct entries
    exact same q ((Path.covers_of_parent parent).trans covers)
  | @together d running failure placed shape directory opens each distinct entries ih =>
    have kept := directory_of d (same d (.refl d)) directory
    refine .together placed shape kept opens (fun x member => ?_) distinct entries
    have parent := (entries x member).1
    refine ih x member (fun q covers => ?_) (Or.inr ⟨d, parent, kept⟩)
    exact same q ((Path.covers_of_parent parent).trans covers)

/-- After one entry of a directory was worked on, a task at another entry still fits. -/
theorem Task.Fits.beside {site : Site} {ix ix' : Index} {c c' d : Path} {task : Task}
    (fits : Task.Fits site ix c' task) (sound : ix.Sound site.root)
    (reworked : Reworked site c ix ix') (directory : d ∈ ix.directories)
    (parent : c.parent = some d) (parent' : c'.parent = some d) (other : c' ≠ c) :
    Task.Fits site ix' c' task := by
  refine fits.frame sound reworked.sound (fun q covers => ?_) (Or.inr ⟨d, parent', ?_⟩)
  · exact reworked.outside q fun both => other (Path.eq_of_siblings parent' parent covers both)
  · rwa [reworked.mem_directories sound (Path.not_covers_of_parent parent)]

/-- What is left to do in a directory fits the directory. -/
theorem fits_following {site : Site} {ix : Index} {d : Path} {queue rest : List Path}
    (directory : d ∈ ix.directories) (opens : site.Opens d) (distinct : (queue ++ rest).Nodup)
    (entries : ∀ q ∈ queue ++ rest, q.parent = some d ∧ site.region q) {task : Task}
    (waits : following d queue rest = .waiting task) : Task.Fits site ix d task := by
  have hooked : ∀ q ∈ queue ++ rest, ix.Hooked site.root q :=
    fun q member => Or.inr ⟨d, (entries q member).1, directory⟩
  cases queue with
  | nil =>
    simp only [following] at waits
    split at waits
    · cases waits
    · cases waits
      refine .together (rest.map fun c => (c, .begin c)) (by simp) directory opens ?_ ?_ ?_
      · simp only [List.mem_map, forall_exists_index, and_imp, forall_apply_eq_imp_iff₂]
        exact fun c member =>
          .begin (hooked c (by simpa using member)) (entries c (by simpa using member)).2
      · simpa [Function.comp_def] using distinct
      · simp only [List.mem_map, forall_exists_index, and_imp, forall_apply_eq_imp_iff₂]
        exact fun c member => entries c (by simpa using member)
  | cons p queue =>
    cases waits
    refine .inOrder directory opens (.entry (hooked p (by simp)) (entries p (by simp)).2) ?_ ?_
    · simpa using distinct
    · simpa using entries

/-- The entry is left as it is known, or it is written: its status is what the disk told, nothing
else changes, and the crawl goes on at the entry or ends well. -/
inductive Taken (site : Site) (p : Path) (st : Status) (ix ix' : Index) (next : Progress) : Prop where
  | passed (kept : ix.hasChanged p st = false ∨ site.policy.ignores p st.kind = true)
      (same : ix' = ix) (ends : ∃ changed, next = .finished (.ok changed))
  | written (takes : site.policy.ignores p st.kind = false) (sound : ix'.Sound site.root)
      (statuses : ∀ q, ix'.status? q = if q = p then some st else ix.status? q)
      (goesOn : ∀ task, next = .waiting task → Task.Fits site ix' p task)
      (directory : st.kind = .directory →
        ∃ known, next = .waiting (.subscribe p known) ∨ next = .waiting (.list p known))
      (file : st.kind = .file → (∃ a root, a.path = p ∧ next = .waiting (.project a root)) ∨
        (∃ a, a.path = p ∧
          next = .waiting (.manifest a (.reading p (p.parent.getD p)))) ∨
        (site.policy.layout.isOfInterest p = false ∧ next = .finished (.ok true)))

section

variable {site : Site} {ctx : Context} {s : Scope} {p : Path} {st : Status}

theorem addDirectory_taken (lists : site.Lists) (policy : ctx.policy = site.policy)
    (live : s.store.isStale ctx.generation = false) (sound : s.store.index.Sound site.root)
    (hooked : s.store.index.Hooked site.root p) (reached : site.region p)
    (told : site.world.entry p = .ok st) (kind : st.kind = .directory)
    (noFile : p ∉ s.store.index.files) :
    Taken site p st s.store.index (ctx.addDirectory p st s).1.store.index
      (ctx.addDirectory p st s).2 := by
  have below := lists.below p reached
  rcases addDirectory_outcome live p st with ⟨kept, same, ends⟩ | ⟨⟨_, takes⟩, written, next⟩
  · exact .passed (by rwa [kind, ← policy]) same ⟨false, ends⟩
  · rw [policy] at takes
    obtain ⟨sound', statuses⟩ := sound.insertDirectory hooked kind noFile
    rw [← written] at sound' statuses
    have directory : p ∈ (ctx.addDirectory p st s).1.store.index.directories :=
      sound'.mem_directories.2 ⟨st, (statuses p).trans (if_pos rfl), kind⟩
    have opens : site.Opens p := ⟨reached, ⟨st, told, kind⟩, takes⟩
    have bare : s.store.index.isDirectory p = false → ∀ c, c.parent = some p →
        ¬ (ctx.addDirectory p st s).1.store.index.Known c := by
      intro new c parent
      have notRoot : c ≠ site.root := by
        rintro rfl
        exact Path.not_covers_of_parent parent below
      have unknown : p ∉ s.store.index.directories := by
        simpa [← Index.isDirectory_iff] using new
      rw [← Index.status?_eq_none, statuses c, if_neg (Path.ne_of_parent parent)]
      exact sound.unknown_of_parent parent notRoot unknown
    refine .written (kind ▸ takes) sound' statuses ?_ (fun _ => ⟨_, next⟩) (fun file => ?_)
    · rintro task waits
      rcases next with next | next
      · cases next.symm.trans waits
        exact .subscribe directory opens bare
      · cases next.symm.trans waits
        exact .list directory opens bare
    · rw [kind] at file
      cases file

theorem addFile_taken (policy : ctx.policy = site.policy)
    (live : s.store.isStale ctx.generation = false) (sound : s.store.index.Sound site.root)
    (hooked : s.store.index.Hooked site.root p) (kind : st.kind = .file)
    (noDirectory : p ∉ s.store.index.directories) :
    Taken site p st s.store.index (ctx.addFile p st s).1.store.index (ctx.addFile p st s).2 := by
  rcases addFile_outcome live p st with ⟨kept, same, ends⟩ | ⟨⟨_, takes⟩, written, a, rfl, next⟩
  · exact .passed (by rwa [kind, ← policy]) same ⟨false, ends⟩
  · rw [policy] at takes
    obtain ⟨sound', statuses⟩ := sound.insertFile hooked kind noDirectory
    rw [← written] at sound' statuses
    have file : a.path ∈ (ctx.addFile a.path st s).1.store.index.files :=
      sound'.mem_files.2 ⟨st, (statuses a.path).trans (if_pos rfl), kind⟩
    refine .written (kind ▸ takes) sound' statuses ?_ (fun directory => ?_) (fun _ => ?_)
    · rintro task waits
      rcases next with ⟨root, next⟩ | next
      · cases next.symm.trans waits
        exact .project file
      · rw [waits] at next
        split at next
        next interest =>
          cases next
          refine .manifest file fun path directory reading => ?_
          cases reading
          exact ⟨rfl, rfl, policy ▸ interest⟩
        · cases next
    · rw [kind] at directory
      cases directory
    · rcases next with ⟨root, next⟩ | next
      · exact Or.inl ⟨a, root, rfl, next⟩
      · split at next
        · exact Or.inr (Or.inl ⟨a, rfl, next⟩)
        next other => exact Or.inr (Or.inr ⟨by simpa [policy] using other, next⟩)

def Undercut (p : Path) (ix ix' : Index) : Prop :=
  (∀ q, p.Covers q → q ≠ p → ix'.status? q = ix.status? q) ∨
    ∀ q, p.Covers q → q ≠ p → ix'.status? q = none

/-- What came of the question what a path is. -/
inductive Finding (site : Site) (p : Path) (ix ix' : Index) (next : Progress) : Prop where
  | gone {cause : DiskError} (told : site.world.entry p = .error cause)
      (notFound : cause.isNotFound = true) (unknown : ix'.status? p = none)
      (ends : ∃ changed, next = .finished (.ok changed))
  | failed {cause : DiskError} (told : site.world.entry p = .error cause)
      (other : cause.isNotFound = false) (same : ix' = ix)
      (ends : next = .finished (.error (.io p.spelling cause)))
  | special {st : Status} (told : site.world.entry p = .ok st) (kind : st.kind = .unknown)
      (unknown : ix'.status? p = none) (ends : ∃ changed, next = .finished (.ok changed))
  | taken {st : Status} {cleared : Index} (told : site.world.entry p = .ok st)
      (kind : st.kind ≠ .unknown)
      (left : ∀ old, cleared.status? p = some old → cleared = ix ∧ old.kind = st.kind)
      (taken : Taken site p st cleared ix' next)

theorem Taken.reworked {ix ix' : Index} {next : Progress} (taken : Taken site p st ix ix' next)
    (sound : ix.Sound site.root) (told : site.world.entry p = .ok st) (reached : site.region p) :
    Reworked site p ix ix' := by
  cases taken with
  | passed _ same _ => exact same ▸ .refl sound p
  | written takes sound' statuses _ _ _ =>
    refine ⟨sound', fun q out => ?_, fun q st' found => ?_⟩
    · have other : q ≠ p := fun same => out (same ▸ .refl p)
      rw [statuses q, if_neg other]
    · rw [statuses q] at found
      split at found
      next same =>
        cases Option.some.inj found
        exact Or.inr (same ▸ ⟨told, takes, reached⟩)
      · exact Or.inl found

theorem Taken.below {ix ix' : Index} {next : Progress} (taken : Taken site p st ix ix' next)
    {q : Path} (other : q ≠ p) : ix'.status? q = ix.status? q := by
  cases taken with
  | passed _ same _ => rw [same]
  | written _ _ statuses _ _ _ => rw [statuses q, if_neg other]

theorem Taken.goesOn {ix ix' : Index} {next : Progress} (taken : Taken site p st ix ix' next)
    {task : Task} (waits : next = .waiting task) : Task.Fits site ix' p task := by
  cases taken with
  | passed _ _ ends =>
    obtain ⟨changed, ends⟩ := ends
    cases ends.symm.trans waits
  | written _ _ _ goesOn _ _ => exact goesOn task waits

/-- What an answer about an entry does. -/
structure Examined (site : Site) (p : Path) (ix : Index) (r : Scope × Progress) : Prop where
  reworked : Reworked site p ix r.1.store.index
  goesOn : ∀ task, r.2 = .waiting task → Task.Fits site r.1.store.index p task
  undercut : Undercut p ix r.1.store.index
  finding : Finding site p ix r.1.store.index r.2

/-- An entry that the disk does not tell of is forgotten if it is gone. -/
theorem examined_untold (live : s.store.isStale ctx.generation = false)
    (sound : s.store.index.Sound site.root) (below : site.root.Covers p) {cause : DiskError}
    (told : site.world.entry p = .error cause) :
    Examined site p s.store.index (ctx.examined p (.error cause) s) := by
  rcases examined_error live p cause with ⟨gone, index, changed, ends⟩ | ⟨failed, index, ends⟩
  · have goesOn : ∀ task, (ctx.examined p (.error cause) s).2 = .waiting task →
        Task.Fits site (ctx.examined p (.error cause) s).1.store.index p task := by
      intro task waits
      cases ends.symm.trans waits
    cases known : s.store.index.knows p with
    | true =>
      rw [known, if_pos rfl] at index
      obtain ⟨sound', statuses⟩ := sound.evict below
      rw [← index] at sound' statuses
      refine ⟨.of_cleared sound' statuses, goesOn, Or.inr fun q covers _ => ?_,
        .gone told gone ?_ ⟨changed, ends⟩⟩
      · rw [statuses q, if_pos covers]
      · rw [statuses p, if_pos (.refl p)]
    | false =>
      rw [known, if_neg (by simp)] at index
      have unknown : s.store.index.status? p = none := by simpa [Index.knows] using known
      refine ⟨index ▸ .refl sound p, goesOn, Or.inl fun q _ _ => by rw [index], ?_⟩
      exact .gone told gone (index ▸ unknown) ⟨changed, ends⟩
  · refine ⟨index ▸ .refl sound p, fun task waits => ?_, Or.inl fun q _ _ => by rw [index],
      .failed told failed index ends⟩
    cases ends.symm.trans waits

/-- An entry is taken into an index from which what it was before was cleared. -/
theorem Taken.examined {ix cleared : Index} {r : Scope × Progress}
    (taken : Taken site p st cleared r.1.store.index r.2) (reworked : Reworked site p ix cleared)
    (undercut : Undercut p ix cleared) (told : site.world.entry p = .ok st)
    (kind : st.kind ≠ .unknown) (reached : site.region p)
    (left : ∀ old, cleared.status? p = some old → cleared = ix ∧ old.kind = st.kind) :
    Examined site p ix r where
  reworked := reworked.trans (taken.reworked reworked.sound told reached)
  goesOn _ := taken.goesOn
  undercut := undercut.imp
    (fun same q covers other => (taken.below other).trans (same q covers other))
    fun none q covers other => (taken.below other).trans (none q covers other)
  finding := .taken told kind left taken

/-- The answer about an entry is worked in at the entry and below it. -/
theorem examined_effect (lists : site.Lists) (policy : ctx.policy = site.policy)
    (live : s.store.isStale ctx.generation = false) (sound : s.store.index.Sound site.root)
    (hooked : s.store.index.Hooked site.root p) (reached : site.region p) :
    Examined site p s.store.index (ctx.examined p (site.world.entry p) s) := by
  have below := lists.below p reached
  cases told : site.world.entry p with
  | error cause => exact examined_untold live sound below told
  | ok st =>
    obtain ⟨s', live', index, examined⟩ := examined_ok live p st
    obtain ⟨sound', cleared⟩ := sound.clearedFor below st
    rw [← index] at sound' cleared
    have reworked : Reworked site p s.store.index s'.store.index := by
      rcases cleared with ⟨same, _⟩ | statuses
      · exact same ▸ .refl sound p
      · exact .of_cleared sound' statuses
    have undercut : Undercut p s.store.index s'.store.index := by
      rcases cleared with ⟨same, _⟩ | statuses
      · exact Or.inl fun q _ _ => by rw [same]
      · exact Or.inr fun q covers _ => by rw [statuses q, if_pos covers]
    have left : ∀ old, s'.store.index.status? p = some old →
        s'.store.index = s.store.index ∧ old.kind = st.kind := by
      intro old found
      rcases cleared with ⟨same, kinds⟩ | statuses
      · exact ⟨same, kinds old (same ▸ found)⟩
      · rw [statuses p, if_pos (.refl p)] at found
        cases found
    have hooked' : s'.store.index.Hooked site.root p := by
      refine hooked.imp_right fun ⟨d, parent, directory⟩ => ⟨d, parent, ?_⟩
      rwa [reworked.mem_directories sound (Path.not_covers_of_parent parent)]
    rw [examined]
    cases kind : st.kind with
    | directory =>
      have noFile : p ∉ s'.store.index.files := by
        intro file
        obtain ⟨old, found, file⟩ := sound'.mem_files.1 file
        rw [(left old found).2, kind] at file
        cases file
      exact (addDirectory_taken lists policy live' sound' hooked' reached told kind noFile).examined
        reworked undercut told (by simp [kind]) reached left
    | file =>
      have noDirectory : p ∉ s'.store.index.directories := by
        intro directory
        obtain ⟨old, found, directory⟩ := sound'.mem_directories.1 directory
        rw [(left old found).2, kind] at directory
        cases directory
      exact (addFile_taken policy live' sound' hooked' kind noDirectory).examined reworked undercut
        told (by simp [kind]) reached left
    | unknown =>
      refine ⟨reworked, fun task waits => (by cases waits), undercut, .special told kind ?_ ⟨false, rfl⟩⟩
      cases found : s'.store.index.status? p with
      | none => rfl
      | some old =>
        have strange := sound'.kind found
        simp [(left old found).2, kind] at strange

/-- Once a directory is listed, what is not on disk is unknown with everything below it, and what is
on disk is left to be crawled. -/
structure Swept (site : Site) (d : Path) (cs : List Path) (ix ix' : Index) : Prop where
  own : ix'.status? d = ix.status? d
  missing : ∀ c q, c.parent = some d → c ∉ cs → c.Covers q → ix'.status? q = none
  present : ∀ c q, c.parent = some d → c ∈ cs → c.Covers q → ix'.status? q = ix.status? q

/-- Below an entry that is not on disk nothing is known afterwards; the others are untouched. -/
theorem swept_evictAll {ix : Index} {d : Path} (sound : ix.Sound site.root)
    (below : site.root.Covers d) (cs : List Path) :
    let ix' := ix.evictAll ((ix.children d).filter fun child => !cs.contains child)
    Reworked site d ix ix' ∧ Swept site d cs ix ix' := by
  intro ix'
  have gone_entry : ∀ c, c ∈ (ix.children d).filter (fun child => !cs.contains child) ↔
      (c.parent = some d ∧ ix.Known c) ∧ c ∉ cs := by
    intro c
    rw [List.mem_filter, sound.entries]
    simp
  obtain ⟨sound', gone, kept⟩ := sound.evictAll fun c member =>
    below.of_parent ((gone_entry c).1 member).1.1
  refine ⟨.of_fewer sound' (fun q out => ?_) (fun q st found => ?_), ?_, ?_, ?_⟩
  · refine kept q fun c member covers => out ?_
    exact (Path.covers_of_parent ((gone_entry c).1 member).1.1).trans covers
  · by_cases taken : ∃ c ∈ (ix.children d).filter (fun child => !cs.contains child), c.Covers q
    · rw [gone q taken] at found
      cases found
    · rw [kept q fun c member covers => taken ⟨c, member, covers⟩] at found
      exact found
  · refine kept d fun c member covers => ?_
    exact Path.not_covers_of_parent ((gone_entry c).1 member).1.1 covers
  · intro c q parent missing covers
    by_cases taken : ∃ c ∈ (ix.children d).filter (fun child => !cs.contains child), c.Covers q
    · exact gone q taken
    · rw [kept q fun c member covers => taken ⟨c, member, covers⟩]
      refine sound.unknown_below (below.of_parent parent) covers fun known => taken ⟨c, ?_, covers⟩
      exact (gone_entry c).2 ⟨⟨parent, known⟩, missing⟩
  · intro c q parent present covers
    refine kept q fun c' member covers' => ?_
    obtain ⟨⟨parent', _⟩, missing⟩ := (gone_entry c').1 member
    exact missing (Path.eq_of_siblings parent parent' covers covers' ▸ present)

theorem listed_effect {d : Path} {known : Bool} (lists : site.Lists)
    (policy : ctx.policy = site.policy) (live : s.store.isStale ctx.generation = false)
    (sound : s.store.index.Sound site.root) (directory : d ∈ s.store.index.directories)
    (opens : site.Opens d)
    (bare : known = false → ∀ c, c.parent = some d → ¬ s.store.index.Known c) :
    let r := ctx.listed d known (site.world.children d) s
    Reworked site d s.store.index r.1.store.index ∧
      (∀ task, r.2 = .waiting task → Task.Fits site r.1.store.index d task) ∧
      ∀ cs, site.world.children d = .ok cs →
        r.2 = following d (site.policy.arrange cs).1 (site.policy.arrange cs).2 ∧
          Swept site d cs s.store.index r.1.store.index := by
  have below := lists.below d opens.reached
  rcases listed_outcome live d known (site.world.children d) with
    ⟨cause, told, ⟨_, index, ends⟩ | ⟨index, ends⟩⟩ | ⟨cs, told, index, next⟩
  · obtain ⟨sound', statuses⟩ := sound.evict below
    rw [← index] at sound' statuses
    refine ⟨.of_cleared sound' statuses, fun task waits => ?_, fun cs listed => ?_⟩
    · cases ends.symm.trans waits
    · cases told.symm.trans listed
  · refine ⟨index ▸ .refl sound d, fun task waits => ?_, fun cs listed => ?_⟩
    · cases ends.symm.trans waits
    · cases told.symm.trans listed
  · obtain ⟨distinct, entries⟩ := lists.entries d cs opens told
    rw [policy] at next
    have swept : Reworked site d s.store.index
          (ctx.listed d known (site.world.children d) s).1.store.index ∧
        Swept site d cs s.store.index
          (ctx.listed d known (site.world.children d) s).1.store.index := by
      cases known with
      | false =>
        rw [if_neg (by simp)] at index
        rw [index]
        refine ⟨.refl sound d, rfl, fun c q parent _ covers => ?_, fun _ _ _ _ _ => rfl⟩
        exact sound.unknown_below (below.of_parent parent) covers (bare rfl c parent)
      | true =>
        rw [if_pos rfl] at index
        rw [index]
        exact swept_evictAll sound below cs
    refine ⟨swept.1, fun task waits => ?_, fun cs' listed => ?_⟩
    · have kept : d ∈ (ctx.listed d known (site.world.children d) s).1.store.index.directories := by
        rw [swept.1.sound.mem_directories, swept.2.own, ← sound.mem_directories]
        exact directory
      have arranged := site.policy.arrange_perm cs
      refine fits_following kept opens (arranged.nodup_iff.2 distinct) (fun q member => ?_)
        (next.symm.trans waits)
      exact entries q (arranged.mem_iff.1 member)
    · cases told.symm.trans listed
      exact ⟨next, swept.2⟩

/-- The declaration of a manifest touches nothing but the manifests, and fails only where the file
cannot be read. -/
theorem manifest_effect {a : Arrival} {d : Declaration}
    (live : s.store.isStale ctx.generation = false) :
    let r := ctx.resume a (d.step ctx.policy site.world ctx.generation s)
    (r.1.store.index = s.store.index ∨
        ∃ D, r.1.store.index = (s.store.index.setManifest D true).1) ∧
      (∀ task, r.2 = .waiting task →
        ∃ D, task = .manifest a (.declaring D) ∨ task = .manifest a (.publishing D)) ∧
      ∀ e, r.2 = .finished (.error e) →
        ∃ path directory cause, d = .reading path directory ∧
          site.world.contents path = .error cause := by
  cases d with
  | reading path directory =>
    have outcome := reading_outcome live site.world a path directory
    dsimp only at outcome ⊢
    split at outcome
    next cause told =>
      refine ⟨Or.inl outcome.1, fun task waits => ?_, fun _ _ => ⟨path, directory, cause, rfl, told⟩⟩
      rw [outcome.2] at waits
      split at waits <;> cases waits
    · split at outcome
      · refine ⟨Or.inl outcome.1, fun task waits => ?_, fun e failed => ?_⟩
        · cases outcome.2.symm.trans waits
        · cases outcome.2.symm.trans failed
      · refine ⟨Or.inr ⟨_, outcome.1⟩, fun task waits => ?_, fun e failed => ?_⟩
        · rcases outcome.2 with next | next
          · cases next.symm.trans waits
            exact ⟨_, Or.inl rfl⟩
          · cases next.symm.trans waits
            exact ⟨_, Or.inr rfl⟩
        · rcases outcome.2 with next | next <;> cases next.symm.trans failed
  | declaring D =>
    obtain ⟨⟨index, next⟩, _⟩ := installed_outcome live site.world a D
    refine ⟨Or.inl index, fun task waits => ?_, fun e failed => ?_⟩
    · cases next.symm.trans waits
      exact ⟨D, Or.inr rfl⟩
    · cases next.symm.trans failed
  | publishing D =>
    obtain ⟨_, index, next⟩ := installed_outcome live site.world a D
    refine ⟨Or.inl index, fun task waits => ?_, fun e failed => ?_⟩
    · cases next.symm.trans waits
    · cases next.symm.trans failed

/-- The place of one of the tasks that are crawled at once. -/
theorem exists_place {placed : List (Path × Task)} {before after : List Task} {task : Task}
    (shape : before ++ task :: after = placed.map (·.2)) :
    ∃ pre c post, placed = pre ++ (c, task) :: post ∧ pre.map (·.2) = before ∧
      post.map (·.2) = after := by
  obtain ⟨pre, rest, rfl, rfl, tail⟩ := List.append_eq_map_iff.1 shape
  obtain ⟨⟨c, t⟩, post, rfl, rfl, rfl⟩ := List.map_eq_cons_iff.1 tail
  exact ⟨pre, c, post, rfl, rfl, rfl⟩

/-- The tasks beside the one that moved still fit. -/
theorem fits_others {ix ix' : Index} {d c : Path} {task : Task} {pre post : List (Path × Task)}
    (sound : ix.Sound site.root) (directory : d ∈ ix.directories)
    (each : ∀ x ∈ pre ++ (c, task) :: post, Task.Fits site ix x.1 x.2)
    (distinct : ((pre ++ (c, task) :: post).map (·.1)).Nodup)
    (entries : ∀ x ∈ pre ++ (c, task) :: post, x.1.parent = some d ∧ site.region x.1)
    (reworked : Reworked site c ix ix') :
    ∀ x ∈ pre ++ post, Task.Fits site ix' x.1 x.2 := by
  intro x member
  have inside : x ∈ pre ++ (c, task) :: post := by
    rcases List.mem_append.1 member with left | right <;> simp [*]
  have other : x.1 ≠ c := by
    rintro rfl
    have apart : x.1 ∉ (pre ++ post).map (·.1) := by
      have first := (List.Perm.map Prod.fst List.perm_middle).nodup_iff.1 distinct
      exact (List.nodup_cons.1 first).1
    exact apart (List.mem_map_of_mem member)
  exact (each x inside).beside sound reworked directory (entries (c, task) (by simp)).1
    (entries x inside).1 other

/-- One of the tasks that are crawled at once has moved: each of the others fits as before, so all
fit again with what the task goes on with, if it goes on. -/
theorem fits_together {ix ix' : Index} {d c : Path} {task : Task} {pre post : List (Path × Task)}
    (sound : ix.Sound site.root) (directory : d ∈ ix.directories) (opens : site.Opens d)
    (each : ∀ x ∈ pre ++ (c, task) :: post, Task.Fits site ix x.1 x.2)
    (distinct : ((pre ++ (c, task) :: post).map (·.1)).Nodup)
    (entries : ∀ x ∈ pre ++ (c, task) :: post, x.1.parent = some d ∧ site.region x.1)
    (reworked : Reworked site c ix ix') (failure : Option IndexError) :
    Task.Fits site ix' d (.together d (pre.map (·.2) ++ post.map (·.2)) failure) ∧
      ∀ task', Task.Fits site ix' c task' →
        Task.Fits site ix' d (.together d (pre.map (·.2) ++ task' :: post.map (·.2)) failure) := by
  have own := entries (c, task) (by simp)
  have kept := (reworked.mem_directories sound (Path.not_covers_of_parent own.1)).2 directory
  have others := fits_others sound directory each distinct entries reworked
  have apart := (List.Perm.map Prod.fst List.perm_middle).nodup_iff.1 distinct
  have inside : ∀ x ∈ pre ++ post, x.1.parent = some d ∧ site.region x.1 := by
    intro x member
    refine entries x ?_
    rcases List.mem_append.1 member with left | right <;> simp [*]
  constructor
  · exact .together (pre ++ post) (by simp) kept opens others (List.nodup_cons.1 apart).2 inside
  · intro task' next
    refine .together (pre ++ (c, task') :: post) (by simp) kept opens (fun x member => ?_)
      (by simpa using distinct) (fun x member => ?_)
    · rcases List.mem_cons.1 (List.perm_middle.mem_iff.1 member) with rfl | other
      · exact next
      · exact others x other
    · rcases List.mem_cons.1 (List.perm_middle.mem_iff.1 member) with rfl | other
      · exact own
      · exact inside x other

end

/-- Every move of a task that fits a path works at or below that path, and leaves a task that fits
the path again. -/
theorem Task.Moves.fits {site : Site} {ctx : Context} {s : Scope} {task : Task}
    {r : Scope × Progress} (moved : Task.Moves ctx site.world s task r) {p : Path}
    (lists : site.Lists) (policy : ctx.policy = site.policy)
    (live : s.store.isStale ctx.generation = false) (sound : s.store.index.Sound site.root)
    (fits : Task.Fits site s.store.index p task) :
    Reworked site p s.store.index r.1.store.index ∧
      ∀ task', r.2 = .waiting task' → Task.Fits site r.1.store.index p task' := by
  induction moved generalizing p with
  | begin q =>
    cases fits with
    | begin hooked reached =>
      rw [addEntry_outcome live]
      refine ⟨.refl sound q, fun task' waits => ?_⟩
      cases waits
      exact .entry hooked reached
  | entry q =>
    cases fits with
    | entry hooked reached =>
      have effect := examined_effect lists policy live sound hooked reached
      exact ⟨effect.reworked, effect.goesOn⟩
  | subscribe d known =>
    cases fits with
    | subscribe directory opens bare =>
      have index := subscribed_index d (site.world.watchDirectory d) s
      refine ⟨index ▸ .refl sound d, fun task' waits => ?_⟩
      cases waits
      rw [index]
      exact .list directory opens bare
  | list d known =>
    cases fits with
    | list directory opens bare =>
      have effect := listed_effect lists policy live sound directory opens bare
      exact ⟨effect.1, effect.2.1⟩
  | project a root =>
    cases fits with
    | project file =>
      obtain ⟨index, next⟩ := projectDeclared_outcome live a root (site.world.projectRemarks root)
      refine ⟨index ▸ .refl sound a.path, fun task' waits => ?_⟩
      rw [next] at waits
      split at waits
      next interest =>
        cases waits
        rw [index]
        refine .manifest file fun path directory reading => ?_
        cases reading
        exact ⟨rfl, rfl, policy ▸ interest⟩
      · cases waits
  | manifest a d =>
    cases fits with
    | manifest file own =>
      obtain ⟨index, next, _⟩ := @manifest_effect site ctx s a d live
      have reworked : Reworked site a.path s.store.index
          (ctx.resume a (d.step ctx.policy site.world ctx.generation s)).1.store.index ∧
          a.path ∈
            (ctx.resume a (d.step ctx.policy site.world ctx.generation s)).1.store.index.files := by
        rcases index with same | ⟨D, installed⟩
        · rw [same]
          exact ⟨.refl sound a.path, file⟩
        · rw [installed]
          exact ⟨⟨sound.setManifest D, fun _ _ => rfl, fun _ _ found => Or.inl found⟩, file⟩
      refine ⟨reworked.1, fun task' waits => ?_⟩
      obtain ⟨D, rfl | rfl⟩ := next task' waits
      · exact .manifest reworked.2 fun _ _ reading => by cases reading
      · exact .manifest reworked.2 fun _ _ reading => by cases reading
  | inOrder d queue rest moved ih =>
    cases fits with
    | @inOrder _ c _ _ _ directory opens first distinct entries =>
      obtain ⟨reworked, next⟩ := ih first
      have parent := (entries c (by simp)).1
      have kept := (reworked.mem_directories sound (Path.not_covers_of_parent parent)).2 directory
      refine ⟨reworked.of_entry parent, fun task' waits => ?_⟩
      cases waits
      exact .inOrder kept opens (next _ rfl) distinct entries
  | inOrderFailed d queue rest moved ih =>
    cases fits with
    | @inOrder _ c _ _ _ directory opens first distinct entries =>
      refine ⟨(ih first).1.of_entry (entries c (by simp)).1, fun task' waits => ?_⟩
      cases waits
  | inOrderDone d queue rest moved ih =>
    cases fits with
    | @inOrder _ c _ _ _ directory opens first distinct entries =>
      obtain ⟨reworked, _⟩ := ih first
      have parent := (entries c (by simp)).1
      have kept := (reworked.mem_directories sound (Path.not_covers_of_parent parent)).2 directory
      obtain ⟨index, next⟩ := nextInOrder_outcome ((moved.edits.isStale _).trans live) d queue rest
      rw [index]
      refine ⟨reworked.of_entry parent, fun task' waits => ?_⟩
      exact fits_following kept opens (List.nodup_cons.1 distinct).2
        (fun q member => entries q (List.mem_cons_of_mem _ member)) (next.symm.trans waits)
  | @together s' task task' d before after failure moved ih =>
    cases fits with
    | together placed shape directory opens each distinct entries =>
      obtain ⟨pre, c, post, rfl, rfl, rfl⟩ := exists_place shape
      obtain ⟨reworked, next⟩ := ih (each (c, task) (by simp))
      have together := fits_together sound directory opens each distinct entries reworked failure
      refine ⟨reworked.of_entry (entries (c, task) (by simp)).1, fun _ waits => ?_⟩
      cases waits
      exact together.2 task' (next task' rfl)
  | @togetherDone s' task result d before after failure moved left ih =>
    cases fits with
    | together placed shape directory opens each distinct entries =>
      obtain ⟨pre, c, post, rfl, rfl, rfl⟩ := exists_place shape
      obtain ⟨reworked, _⟩ := ih (each (c, task) (by simp))
      have together := fits_together sound directory opens each distinct entries reworked
      refine ⟨reworked.of_entry (entries (c, task) (by simp)).1, fun task' waits => ?_⟩
      cases waits
      exact (together _).1
  | @togetherLast s' task result d failure moved ih =>
    cases fits with
    | together placed shape directory opens each distinct entries =>
      obtain ⟨pre, c, post, rfl, _, _⟩ := @exists_place placed [] [] task shape
      obtain ⟨reworked, _⟩ := ih (each (c, task) (by simp))
      rw [conclude_index]
      refine ⟨reworked.of_entry (entries (c, task) (by simp)).1, fun task' waits => ?_⟩
      exact absurd waits conclude_not_waiting
  | togetherNone d failure =>
    cases fits with
    | together placed shape directory opens each distinct entries =>
      rw [conclude_index]
      refine ⟨.refl sound d, fun task' waits => ?_⟩
      exact absurd waits conclude_not_waiting

end Crawl

end ProjectIndex
