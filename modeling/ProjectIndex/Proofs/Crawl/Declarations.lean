import ProjectIndex.Proofs.Crawl.Debt

/-!
# The manifests of a first crawl

An index that was filled from one disk only never loses anything: what is known is on disk, so no
entry is evicted.  The crawl of such an index installs a manifest for each file that holds one, and
no others.  That no others are installed is kept by every move.  That none is left out is an obligation:
a file whose manifest is not installed yet is owed by a task that is about to read it.
-/

namespace ProjectIndex

/-- The definition is what its file says: a manifest that counts, for the directory that it is in. -/
structure Site.Holds (site : Site) (D : Definition) : Prop where
  interest : site.policy.layout.isOfInterest D.path = true
  inside : D.path.parent = some D.directory
  read : ∃ bytes, site.world.contents D.path = .ok bytes ∧
    site.policy.manifestIn D.path bytes = some D.manifest ∧ D.hash = Sha256.hex bytes

namespace Layout

theorem basename_of_isOfInterest {l : Layout} {f : Path} (interest : l.isOfInterest f = true) :
    f.basename = some l.manifestName := by
  by_contra other
  simp [isOfInterest, isManifestName, other] at interest

theorem name?_of_isOfInterest {l : Layout} {f : Path} (interest : l.isOfInterest f = true) :
    f.name? = some l.manifestName :=
  (Option.filter_eq_some_iff.1 (basename_of_isOfInterest interest)).1

/-- A manifest is in some directory. -/
theorem exists_parent {l : Layout} {f : Path} (interest : l.isOfInterest f = true) :
    ∃ d, f.parent = some d := by
  unfold Path.parent
  rw [Path.name?_eq_some_iff.1 (name?_of_isOfInterest interest)]
  exact ⟨_, rfl⟩

/-- In each directory there is one path at which a manifest can count. -/
theorem components_of_isOfInterest {l : Layout} {f d : Path} (interest : l.isOfInterest f = true)
    (parent : f.parent = some d) : f.components = d.components ++ [.name l.manifestName] :=
  Path.components_of_name (name?_of_isOfInterest interest) parent

theorem isOfInterest_unique {l : Layout} {f g d : Path} (first : l.isOfInterest f = true)
    (second : l.isOfInterest g = true) (parent : f.parent = some d) (parent' : g.parent = some d) :
    f = g := by
  have same := (components_of_isOfInterest first parent).trans
    (components_of_isOfInterest second parent').symm
  cases f
  cases g
  exact congrArg Path.mk same

end Layout

namespace Index

@[simp] theorem listChild_manifests (ix : Index) (p : Path) :
    (ix.listChild p).manifests = ix.manifests := by
  unfold listChild
  cases p.parent <;> rfl

@[simp] theorem insertDirectory_manifests (ix : Index) (p : Path) (st : Status) :
    (ix.insertDirectory p st true).1.manifests = ix.manifests := by
  simp [insertDirectory]

@[simp] theorem insertFile_manifests (ix : Index) (p : Path) (st : Status) :
    (ix.insertFile p st true).1.manifests = ix.manifests := by
  simp [insertFile]

end Index

namespace Crawl

/-- The task is about to read the manifest at the path, if it is one. -/
inductive Task.ToRead : Task → Path → Prop where
  | project (a : Arrival) (root : Path) : ToRead (.project a root) a.path
  | reading (a : Arrival) (path directory : Path) :
      ToRead (.manifest a (.reading path directory)) path
  | current {d q : Path} {current : Task} {queue rest : List Path} (declares : ToRead current q) :
      ToRead (.inOrder d current queue rest) q
  | running {d q : Path} {task : Task} {running : List Task} {failure : Option IndexError}
      (member : task ∈ running) (declares : ToRead task q) :
      ToRead (.together d running failure) q

/-- The file holds a manifest, and it is not installed. -/
structure Undeclared (site : Site) (ix : Index) (f : Path) : Prop where
  file : f ∈ ix.files
  holds : ∃ D, site.Holds D ∧ D.path = f
  missing : ∀ (d : Path) (D : Definition), f.parent = some d → ix.manifests[d]? = some D →
    D.path ≠ f

/-- The declarations of a crawl: a manifest that is not installed has to be read. -/
def declarations (site : Site) : Obligation where
  due := Undeclared site
  owes := Task.ToRead
  begin p q := by
    constructor <;> intro declares <;> cases declares
  inOrder d current queue rest q := by
    constructor
    · intro declares
      cases declares with
      | current declares => exact Or.inl declares
    · rintro (declares | ⟨p, _, declares⟩)
      · exact .current declares
      · cases declares
  together d running failure q := by
    constructor
    · intro declares
      cases declares with
      | running member declares => exact ⟨_, member, declares⟩
    · rintro ⟨task, member, declares⟩
      exact .running member declares

/-- A definition is installed under the directory that it is for, it is what its file says, and the
file is known. -/
structure Installed (site : Site) (ix : Index) (d : Path) (D : Definition) : Prop where
  own : D.directory = d
  holds : site.Holds D
  file : D.path ∈ ix.files

/-- Wrong definitions, which no task ever owes. -/
def mistakes (site : Site) : Obligation where
  due ix d := ∃ D, ix.manifests[d]? = some D ∧ ¬ Installed site ix d D
  owes _ _ := False
  begin _ _ := Iff.rfl
  inOrder _ _ _ _ _ := by simp
  together _ _ _ _ := by simp

/-- What a single wait does to an index that was filled from one disk: it grows by a file or a
directory, or a manifest is installed in it. -/
inductive Growth (site : Site) (task : Task) (ix ix' : Index) (next : Progress) : Prop where
  | grown (manifests : ix'.manifests = ix.manifests) (kept : ∀ f, f ∈ ix.files → f ∈ ix'.files)
      (new : ∀ f, f ∈ ix'.files → f ∈ ix.files ∨ (declarations site).OwesNext next f ∨
        site.policy.layout.isOfInterest f = false)
      (owed : ∀ f, task.ToRead f → (declarations site).OwesNext next f ∨
        ∀ D, site.Holds D → D.path ≠ f)
  | declared {D : Definition} (holds : site.Holds D) (file : D.path ∈ ix.files)
      (installed : ix' = (ix.setManifest D true).1) (owed : ∀ f, task.ToRead f → f = D.path)

section

variable {site : Site} {ctx : Context} {s : Scope} {p : Path}

/-- A wait that concerns no manifest and leaves the index as it is. -/
theorem Growth.idle {task : Task} {ix : Index} {next : Progress} (idle : ∀ f, ¬ task.ToRead f) :
    Growth site task ix ix next :=
  .grown rfl (fun _ file => file) (fun _ file => Or.inl file) fun f declares => absurd declares (idle f)

/-- Everything that is known is on disk. -/
abbrev Original (site : Site) (ix : Index) : Prop :=
  Sourced site (fun _ _ => False) ix

theorem Sourced.told {ix : Index} {st : Status} (original : Original site ix)
    (found : ix.status? p = some st) : site.world.entry p = .ok st :=
  (original p st found).1.resolve_left id

/-- A directory that is registered is one more. -/
theorem growth_addDirectory (live : s.store.isStale ctx.generation = false) {task : Task}
    (idle : ∀ f, ¬ task.ToRead f) (st : Status) :
    Growth site task s.store.index (ctx.addDirectory p st s).1.store.index
      (ctx.addDirectory p st s).2 := by
  rcases addDirectory_outcome live p st with ⟨_, same, _⟩ | ⟨_, written, _⟩
  · exact same ▸ .idle idle
  · rw [written]
    refine .grown (by simp) (fun f file => by simpa using file) (fun f file => Or.inl ?_) ?_
    · simpa using file
    · exact fun f declares => absurd declares (idle f)

/-- A file that is registered is one more, and its manifest is owed if it is one. -/
theorem growth_addFile (policy : ctx.policy = site.policy)
    (live : s.store.isStale ctx.generation = false) {task : Task} (idle : ∀ f, ¬ task.ToRead f)
    (st : Status) :
    Growth site task s.store.index (ctx.addFile p st s).1.store.index (ctx.addFile p st s).2 := by
  rcases addFile_outcome live p st with ⟨_, same, _⟩ | ⟨_, written, a, rfl, next⟩
  · exact same ▸ .idle idle
  · rw [written]
    refine .grown (by simp) (fun f file => by simp [file]) (fun f file => ?_) ?_
    · rw [Index.insertFile_files, Std.ExtTreeMap.mem_insert,
        Std.LawfulEqCmp.compare_eq_iff_eq] at file
      rcases file with rfl | before
      · refine Or.inr ?_
        rcases next with ⟨root, next⟩ | next
        · exact Or.inl ⟨_, next, .project a root⟩
        · split at next
          · exact Or.inl ⟨_, next, .reading a a.path _⟩
          next other => exact Or.inr (by simpa [policy] using other)
      · exact Or.inl before
    · exact fun f declares => absurd declares (idle f)

/-- The answer about an entry takes nothing out. -/
theorem growth_entry (policy : ctx.policy = site.policy)
    (live : s.store.isStale ctx.generation = false) (original : Original site s.store.index)
    (told : ∃ st, site.world.entry p = .ok st) :
    Growth site (.entry p) s.store.index (ctx.examined p (site.world.entry p) s).1.store.index
      (ctx.examined p (site.world.entry p) s).2 := by
  obtain ⟨st, told⟩ := told
  have idle : ∀ f, ¬ (Task.entry p).ToRead f := fun f declares => by cases declares
  have cleared : s.store.index.clearedFor p st = s.store.index := by
    unfold Index.clearedFor
    split
    next old found =>
      cases told.symm.trans (original.told found)
      exact if_pos rfl
    · rfl
  obtain ⟨s', live', index, examined⟩ := examined_ok live p st
  rw [cleared] at index
  rw [told, examined, ← index]
  cases st.kind with
  | unknown => exact .idle idle
  | directory => exact growth_addDirectory live' idle st
  | file => exact growth_addFile policy live' idle st

/-- A directory that is listed loses nothing. -/
theorem growth_list {d : Path} {known : Bool} (faithful : site.Faithful)
    (live : s.store.isStale ctx.generation = false) (orderly : s.store.index.Orderly)
    (original : Original site s.store.index)
    (wanted : site.WantsDirectory d) :
    (ctx.listed d known (site.world.children d) s).1.store.index = s.store.index := by
  obtain ⟨cs, listed⟩ := faithful.listed d wanted
  rcases listed_outcome live d known (site.world.children d) with
    ⟨cause, failed, _⟩ | ⟨cs', told, index, _⟩
  · cases listed.symm.trans failed
  · cases listed.symm.trans told
    have nothing : (s.store.index.children d).filter (fun child => !cs.contains child) = [] := by
      rw [List.filter_eq_nil_iff]
      intro c entry
      obtain ⟨parent, known⟩ := (orderly.entries d c).1 entry
      obtain ⟨st, found⟩ := Index.known_iff.1 known
      obtain ⟨_, _, reached⟩ := original c st found
      have onDisk := (faithful.entries d cs wanted listed c reached parent).2
        ⟨st, original.told found⟩
      simpa using onDisk
    rw [index, nothing]
    split <;> rfl

/-- Once its project is declared, a manifest is read if it is one. -/
theorem growth_project (policy : ctx.policy = site.policy)
    (live : s.store.isStale ctx.generation = false) (a : Arrival) (root : Path) :
    let r := ctx.declareManifest a
      ((s.remarkAll (site.world.projectRemarks root)).update (·.projectDeclared root))
    Growth site (.project a root) s.store.index r.1.store.index r.2 := by
  intro r
  obtain ⟨index, next⟩ := projectDeclared_outcome live a root (site.world.projectRemarks root)
  rw [index, next]
  refine .grown rfl (fun _ file => file) (fun _ file => Or.inl file) fun f declares => ?_
  cases declares
  split
  · exact Or.inl ⟨_, rfl, .reading a a.path _⟩
  next other =>
    refine Or.inr fun D holds same => other ?_
    rw [policy, ← same]
    exact holds.interest

/-- A manifest that is read is installed if it is valid. -/
theorem growth_reading (policy : ctx.policy = site.policy)
    (live : s.store.isStale ctx.generation = false) (a : Arrival)
    (file : a.path ∈ s.store.index.files)
    (interest : site.policy.layout.isOfInterest a.path = true) {bytes : List UInt8}
    (read : site.world.contents a.path = .ok bytes) :
    let directory := a.path.parent.getD a.path
    let r := ctx.resume a
      (Declaration.step ctx.policy site.world ctx.generation (.reading a.path directory) s)
    Growth site (.manifest a (.reading a.path directory)) s.store.index r.1.store.index r.2 := by
  intro directory r
  have outcome := reading_outcome live site.world a a.path directory
  rw [read] at outcome
  dsimp only at outcome
  split at outcome
  next invalid =>
    rw [outcome.1]
    refine .grown rfl (fun _ file => file) (fun _ file => Or.inl file) fun f declares => ?_
    cases declares
    refine Or.inr fun D holds same => ?_
    obtain ⟨bytes', read', valid, _⟩ := holds.read
    rw [same, read] at read'
    cases read'
    rw [same, ← policy, invalid] at valid
    cases valid
  next m valid =>
    let D : Definition := ⟨s.store.nextManifest, a.path, directory, m, Sha256.hex bytes⟩
    obtain ⟨dir, parent⟩ := Layout.exists_parent interest
    have inside : D.path.parent = some D.directory := by simp [D, directory, parent]
    have holds : site.Holds D := ⟨interest, inside, bytes, read, policy ▸ valid, rfl⟩
    refine .declared holds file outcome.1 fun f declares => ?_
    cases declares
    rfl

/-- What a declaration that is under way is about: a known file, and its manifest if that is to be
read. -/
structure ReadsOwn (site : Site) (ix : Index) (a : Arrival) (d : Declaration) : Prop where
  file : a.path ∈ ix.files
  own : ∀ path directory, d = .reading path directory →
    path = a.path ∧ directory = a.path.parent.getD a.path ∧
      site.policy.layout.isOfInterest a.path = true ∧
      ∃ bytes, site.world.contents a.path = .ok bytes

/-- The end of a wait that the status of no path hangs on: a manifest is installed, or nothing is. -/
theorem growth_aside (policy : ctx.policy = site.policy)
    (live : s.store.isStale ctx.generation = false) {task : Task} {r : Scope × Progress}
    (moved : Task.Moves ctx site.world s task r) (single : task.Single)
    (entry : ∀ p, task ≠ .entry p) (list : ∀ d known, task ≠ .list d known)
    (reads : ∀ a d, task = .manifest a d → ReadsOwn site s.store.index a d) :
    Growth site task s.store.index r.1.store.index r.2 := by
  cases moved with
  | begin e =>
    rw [addEntry_outcome live]
    exact .idle fun f declares => by cases declares
  | entry e => exact absurd rfl (entry e)
  | subscribe d known =>
    rw [subscribed_index]
    exact .idle fun f declares => by cases declares
  | list d known => exact absurd rfl (list d known)
  | project a root => exact growth_project policy live a root
  | manifest a d =>
    obtain ⟨file, own⟩ := reads a d rfl
    cases d with
    | reading path directory =>
      obtain ⟨rfl, rfl, interest, bytes, read⟩ := own path directory rfl
      exact growth_reading policy live a file interest read
    | declaring D =>
      rw [(installed_outcome live site.world a D).1.1]
      exact .idle fun f declares => by cases declares
    | publishing D =>
      rw [(installed_outcome live site.world a D).2.1]
      exact .idle fun f declares => by cases declares
  | inOrder | inOrderFailed | inOrderDone | together | togetherDone | togetherLast | togetherNone =>
    exact absurd single id

/-- What the end of a single wait does to an index that was filled from this disk. -/
theorem growth_single (faithful : site.Faithful) (policy : ctx.policy = site.policy)
    (live : s.store.isStale ctx.generation = false) (sound : s.store.index.Sound site.root)
    (original : Original site s.store.index) {task : Task}
    {r : Scope × Progress} (moved : Task.Moves ctx site.world s task r) (single : task.Single)
    (fits : Task.Fits site s.store.index p task) (reaches : site.Reaches p)
    (sure : task.Sure site) : Growth site task s.store.index r.1.store.index r.2 := by
  cases fits with
  | entry hooked reached =>
    cases moved
    cases sure with
    | entry told => exact growth_entry policy live original told
  | list directory opens bare =>
    cases moved
    rw [growth_list faithful live sound.orderly original (opens.wanted faithful reaches)]
    exact .idle fun f declares => by cases declares
  | manifest file own =>
    cases sure with
    | manifest _ told =>
      refine growth_aside policy live moved single (by simp) (by simp) fun a d same => ?_
      cases same
      refine ⟨file, fun path directory reading => ?_⟩
      obtain ⟨rfl, rfl, interest⟩ := own path directory reading
      exact ⟨rfl, rfl, interest, told _ _ reading⟩
  | begin | subscribe | project =>
    exact growth_aside policy live moved single (by simp) (by simp) (by simp)
  | inOrder | together => exact absurd single id

theorem Growth.declares {task : Task} {ix ix' : Index} {next : Progress} {f : Path}
    (growth : Growth site task ix ix' next) (due : Undeclared site ix' f) :
    (Undeclared site ix f ∧ ¬ task.ToRead f) ∨ (declarations site).OwesNext next f := by
  cases growth with
  | grown manifests kept new owed =>
    obtain ⟨D, holds, rfl⟩ := due.holds
    by_cases owes : (declarations site).OwesNext next D.path
    · exact Or.inr owes
    · have before : D.path ∈ ix.files := by
        rcases new D.path due.file with before | owes' | other
        · exact before
        · exact absurd owes' owes
        · cases holds.interest.symm.trans other
      refine Or.inl ⟨⟨before, ⟨D, holds, rfl⟩, manifests ▸ due.missing⟩, fun declares => ?_⟩
      exact (owed D.path declares).elim owes fun nothing => nothing D holds rfl
  | @declared D holds file installed owed =>
    subst installed
    have other : f ≠ D.path := by
      rintro rfl
      exact due.missing D.directory D holds.inside (by simp [Index.setManifest]) rfl
    refine Or.inl ⟨⟨due.file, due.holds, fun d D' parent found => ?_⟩,
      fun declares => other (owed f declares)⟩
    by_cases own : D.directory = d
    · obtain ⟨E, holds', rfl⟩ := due.holds
      refine absurd ?_ other
      exact Layout.isOfInterest_unique holds'.interest holds.interest parent (own ▸ holds.inside)
    · refine due.missing d D' parent ?_
      simpa [Index.setManifest, Std.ExtTreeMap.getElem?_insert, own] using found

theorem Growth.honest {task : Task} {ix ix' : Index} {next : Progress} {d : Path}
    (growth : Growth site task ix ix' next) (due : (mistakes site).due ix' d) :
    (mistakes site).due ix d := by
  obtain ⟨D, found, wrong⟩ := due
  cases growth with
  | grown manifests kept new owed =>
    refine ⟨D, manifests ▸ found, fun installed => wrong ?_⟩
    exact ⟨installed.own, installed.holds, kept _ installed.file⟩
  | @declared E holds file installed owed =>
    subst installed
    by_cases own : E.directory = d
    · have same : E = D := by simpa [Index.setManifest, own] using found
      exact absurd ⟨same ▸ own, same ▸ holds, same ▸ file⟩ wrong
    · refine ⟨D, ?_, fun installed => wrong ⟨installed.own, installed.holds, installed.file⟩⟩
      simpa [Index.setManifest, Std.ExtTreeMap.getElem?_insert, own] using found

/-- Whatever moves in a first crawl, no manifest is forgotten. -/
theorem Task.Moves.declares {task : Task} {r : Scope × Progress}
    (moved : Task.Moves ctx site.world s task r) (lists : site.Lists) (faithful : site.Faithful)
    (policy : ctx.policy = site.policy) (live : s.store.isStale ctx.generation = false)
    (sound : s.store.index.Sound site.root) (original : Original site s.store.index)
    (fits : Task.Fits site s.store.index p task) (reaches : site.Reaches p)
    (sure : task.Sure site) {f : Path} (due : Undeclared site r.1.store.index f) :
    (Undeclared site s.store.index f ∧ ¬ task.ToRead f) ∨
      (declarations site).OwesNext r.2 f := by
  refine moved.settles_tree (declarations site) lists faithful policy live sound ?_ fits reaches sure f due
  intro p task r moved single fits reaches sure f due
  exact (growth_single faithful policy live sound original moved single fits reaches sure).declares due

/-- Whatever moves in a first crawl, no definition is installed that is not what its file says. -/
theorem Task.Moves.honest {task : Task} {r : Scope × Progress}
    (moved : Task.Moves ctx site.world s task r) (lists : site.Lists) (faithful : site.Faithful)
    (policy : ctx.policy = site.policy) (live : s.store.isStale ctx.generation = false)
    (sound : s.store.index.Sound site.root) (original : Original site s.store.index)
    (fits : Task.Fits site s.store.index p task) (reaches : site.Reaches p)
    (sure : task.Sure site) (honest : ∀ d, ¬ (mistakes site).due s.store.index d) (d : Path) :
    ¬ (mistakes site).due r.1.store.index d := by
  intro due
  have settled := moved.settles_tree (mistakes site) lists faithful policy live sound
    (fun p task r moved single fits reaches sure d due => Or.inl ⟨(growth_single faithful policy live
      sound original moved single fits reaches sure).honest due, id⟩) fits reaches sure d due
  rcases settled with ⟨before, _⟩ | ⟨_, _, owes⟩
  · exact honest d before
  · exact owes

/-- Where nothing is wrong and nothing is missing, the manifests are those that the known files
hold. -/
theorem manifests_of_settled {ix : Index} (honest : ∀ d, ¬ (mistakes site).due ix d)
    (complete : ∀ f, ¬ Undeclared site ix f) :
    (∀ (d : Path) (D : Definition), ix.manifests[d]? = some D → Installed site ix d D) ∧
      ∀ D, site.Holds D → D.path ∈ ix.files →
        ∃ E, ix.manifests[D.directory]? = some E ∧ E.path = D.path := by
  constructor
  · intro d D found
    by_contra wrong
    exact honest d ⟨D, found, wrong⟩
  · intro D holds file
    by_contra missing
    refine complete D.path ⟨file, ⟨D, holds, rfl⟩, fun d E parent found same => missing ?_⟩
    obtain rfl : D.directory = d := Option.some.inj (holds.inside.symm.trans parent)
    exact ⟨E, found, same⟩

end

end Crawl

end ProjectIndex
