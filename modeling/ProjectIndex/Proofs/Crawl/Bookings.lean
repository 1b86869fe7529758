import ProjectIndex.Proofs.Crawl.Footprint
import ProjectIndex.Proofs.Crawl.Leaves
import ProjectIndex.Proofs.Crawl.Survey

/-!
# Manifests in the first crawl of a root

In the first crawl of a root on a disk that does not change, every file is registered once and nothing
is taken away, so every manifest is read once, and its number, its installation and its sending are
those of one leaf.  What a move does to the manifests is one of the few things that a `Books` step says.
-/

namespace ProjectIndex.Crawl

open Store (Unsent Sends Installs Books)

variable {ctx : Context} {world : World} {s : Scope} {d : Disk} {root : Path} {known : Path → Prop}

theorem unsent_remove (p : Path) (s : Scope) : s.store.Unsent (ctx.remove p s).1.store :=
  remove_related .refl .trans (fun _ => s.store.unsent_delete p) fun t => t.unsent_forgetDirectory p

theorem unsent_addDirectory (dir : Path) (status : Status) (s : Scope) :
    s.store.Unsent (ctx.addDirectory dir status s).1.store := by
  have written := s.store.unsent_replace (s.store.index.insertDirectory dir status true).1 s.store.backend
  have added := directoryAdded ctx dir status s
  generalize ctx.addDirectory dir status s = r at added ⊢
  cases added with
  | unchanged | withdrawn => exact .refl _
  | ignored => exact Store.unsent_log _ _
  | subscribing => exact written.trans (Store.unsent_emit (by simp [Store.Unsending]) _)
  | listing => exact written

theorem unsent_announce (a : Arrival) (s : Scope) : s.store.Unsent (ctx.announce a s).1.store := by
  have ticked : ∀ t : Store, t.Unsent (t.emit (.tick a.path)) :=
    Store.unsent_emit (by simp [Store.Unsending])
  have told : ∀ (n : Notice) (t : Store), t.Unsent (t.emit (.notice n)) :=
    fun n => Store.unsent_emit (by simp [Store.Unsending])
  have announced := fileAnnounced ctx a s
  generalize ctx.announce a s = r at announced ⊢
  cases announced with
  | withdrawn => exact .refl _
  | new | changed => exact (told _ s.store).trans (ticked _)
  | untold => exact ticked _

theorem unsent_declareManifest (a : Arrival) (s : Scope) :
    s.store.Unsent (ctx.declareManifest a s).1.store := by
  have declared := manifestDeclared ctx a s
  generalize ctx.declareManifest a s = r at declared ⊢
  cases declared with
  | unnamed => exact unsent_announce a s
  | skipped => exact (s.store.unsent_log _).trans (unsent_announce a (s.log _))
  | reading => exact .refl _

theorem unsent_addFile (file : Path) (status : Status) (s : Scope) :
    s.store.Unsent (ctx.addFile file status s).1.store := by
  have declared : ∀ (a : Arrival) (s : Scope), s.store.Unsent (ctx.declareFile a s).1.store := by
    intro a s
    unfold Context.declareFile
    split
    · exact Store.unsent_emit (by simp [Store.Unsending]) s.store
    · exact unsent_declareManifest a s
  have written := s.store.unsent_replace (s.store.index.insertFile file status true).1 s.store.backend
  have added := fileAdded ctx file status s
  generalize ctx.addFile file status s = r at added ⊢
  cases added with
  | unchanged | ignored | withdrawn => exact .refl _
  | registered =>
    refine .trans ?_ (declared _ _)
    exact written

theorem unsent_examined (p : Path) (answer : Except DiskError Status) (s : Scope) :
    s.store.Unsent (ctx.examined p answer s).1.store := by
  cases answer with
  | error cause =>
    unfold Context.examined
    dsimp only
    split
    · split
      · exact unsent_remove p s
      · exact .refl _
    · exact .refl _
  | ok status =>
    obtain ⟨s', origin, examined⟩ := @examined_told ctx p status s
    have cleared : s.store.Unsent s'.store := by
      rcases origin with ⟨rfl, _⟩ | ⟨rfl, _⟩
      · exact .refl _
      · exact unsent_remove p s
    rw [examined]
    split
    · exact cleared.trans (unsent_addDirectory p status s')
    · exact cleared.trans (unsent_addFile p status s')
    · exact cleared

theorem unsent_subscribed (dir : Path) (answer : Except SubscriptionError Unit) (s : Scope) :
    s.store.Unsent (Context.subscribed dir answer s).store := by
  have answered : ∀ taken, s.store.Unsent (s.store.directoryAnswered dir taken) := fun taken =>
    Store.unsent_replace s.store s.store.index _
  unfold Context.subscribed
  split
  · exact answered true
  · exact (answered false).trans (Store.unsent_log _ _)

theorem sends_publish (D : Definition) (s : Scope) :
    s.store.Sends (Declaration.publish D s).1.store D := by
  unfold Declaration.publish
  cases nearest : s.store.projects.find? D.path with
  | none =>
    refine ⟨⟨_, .refl _, ?_⟩, rfl, rfl, rfl⟩
    simp [Projects.assign, nearest, Scope.log, Scope.update, Store.log, Store.emit]
  | some id =>
    refine ⟨⟨_, .refl _, ?_⟩, rfl, rfl, rfl⟩
    simp [Projects.assign, nearest, Scope.update, Store.emit]

/-- Bytes that hold no manifest send nothing.  A manifest is installed where there was none, and waits
for the project that it declares, or is sent at once. -/
theorem install_books (policy : Policy) {g : Generation} (live : s.store.isStale g = false)
    (r : Declaration.Request) (bytes : List UInt8)
    (absent : s.store.index.manifests[r.directory]? = none) :
    let q := Declaration.install policy g r bytes s
    (q.2 = .finished (.ok none) ∧ s.store.Unsent q.1.store ∧ q.1.store.index = s.store.index) ∨
      ∃ D : Definition, D.path = r.path ∧ D.directory = r.directory ∧
        ((q.2 = .waiting (.declaring D) ∧ s.store.Installs q.1.store D ∧
            q.1.store.projects = s.store.projects ∧ q.1.store.broadcasts = s.store.broadcasts) ∨
          (q.2 = .waiting (.publishing D) ∧ ∃ mid, s.store.Installs mid D ∧
            mid.projects = s.store.projects ∧ mid.broadcasts = s.store.broadcasts ∧
            mid.Sends q.1.store D)) := by
  intro q
  dsimp only [q, Declaration.install]
  cases Json.parse bytes with
  | error fault => exact Or.inl ⟨rfl, .refl _, rfl⟩
  | ok value =>
    dsimp only
    cases (Manifest.normalise ⟨policy.configField, r.path.spelling,
        !policy.layout.isDependency r.path⟩ value).manifest with
    | none => exact Or.inl ⟨rfl, Store.unsent_log _ _, rfl⟩
    | some m =>
      refine Or.inr ⟨⟨s.store.nextManifest, r.path, r.directory, m, Sha256.hex bytes⟩, rfl, rfl, ?_⟩
      simp only [Declaration.takeNumber, Store.isLive, Scope.remarkAll, live, Bool.not_false,
        Index.setManifest, if_true]
      split
      · exact Or.inl ⟨rfl, ⟨absent, rfl, rfl, rfl⟩, rfl, rfl⟩
      · refine Or.inr ⟨rfl, _, ?_, ?_, ?_, sends_publish _ _⟩
        · exact ⟨absent, rfl, rfl, rfl⟩
        · rfl
        · rfl

/-- What the end of a single wait does to the manifests. -/
inductive Enrols (s : Scope) (leaf : Task) (r : Scope × Progress) : Prop where
  | still (unsent : s.store.Unsent r.1.store)
      (manifests : r.1.store.index.manifests = s.store.index.manifests)
      (idle : ∀ a D, leaf ≠ .manifest a (.declaring D))
      (undue : ∀ a D, ¬ r.2.Leaf (.manifest a (.declaring D)))
  | noted {a : Arrival} (D : Definition) (own : leaf = .manifest a (.reading D.path D.directory))
      (installs : s.store.Installs r.1.store D) (projects : r.1.store.projects = s.store.projects)
      (broadcasts : r.1.store.broadcasts = s.store.broadcasts)
      (next : r.2 = .waiting (.manifest a (.declaring D)))
  | sent {a : Arrival} (D : Definition) (mid : Store)
      (own : leaf = .manifest a (.reading D.path D.directory)) (installs : s.store.Installs mid D)
      (projects : mid.projects = s.store.projects) (broadcasts : mid.broadcasts = s.store.broadcasts)
      (sends : mid.Sends r.1.store D) (next : r.2 = .waiting (.manifest a (.publishing D)))
  | later {a : Arrival} (D : Definition) (own : leaf = .manifest a (.declaring D))
      (sends : s.store.Sends r.1.store D) (next : r.2 = .waiting (.manifest a (.publishing D)))

/-- Only the reading of a manifest is followed by the declaration of its project. -/
theorem Deed.undue {ix ix' : Index} {leaf : Task} {next : Progress}
    (deed : Deed ctx world ix leaf ix' next)
    (other : ∀ a path directory, leaf ≠ .manifest a (.reading path directory)) (a : Arrival)
    (D : Definition) : ¬ next.Leaf (.manifest a (.declaring D)) := by
  rintro ⟨task, waits, inside⟩
  cases deed with
  | ended | removed | cleared => cases waits
  | begun | subscribed | project | declared =>
    cases waits
    cases inside
  | directory kind goesOn =>
    cases waits
    obtain ⟨known, rfl | rfl⟩ := goesOn
    · cases inside
    · cases inside
  | file kind goesOn =>
    obtain ⟨b, _, ⟨root, rfl⟩ | ⟨_, rfl⟩⟩ := goesOn task waits
    · cases inside
    · cases inside
  | listed told entries => exact leaf_following ⟨task, waits, inside⟩
  | installed further => exact absurd rfl (other _ _ _)

/-- Below the root the first crawl comes to no link that it knows, so an entry leaves the manifests
alone; and what it goes on with was unknown. -/
theorem examined_manifests (live : s.store.isStale ctx.generation = false) (reads : world.Reads d)
    (attested : s.store.index.Attested d ctx.policy (· = root)) {p : Path} (beneath : p.Beneath root) :
    let r := ctx.examined p (world.entry p) s
    r.1.store.index.manifests = s.store.index.manifests ∧
      ∀ task, r.2 = .waiting task → ¬ s.store.index.Known p := by
  have sighted := sighted_examined live reads attested p
  dsimp only
  generalize ctx.examined p (world.entry p) s = r at sighted
  cases sighted with
  | passed result same held present =>
    refine ⟨?_, fun _ waits => by cases waits⟩
    rcases same with rfl | ⟨line, rfl⟩
    · rfl
    · rfl
  | dropped result known link index =>
    obtain ⟨st, found⟩ := Index.known_iff.1 known
    obtain ⟨kind, attests⟩ := attested.status found
    obtain ⟨st', told, unknown⟩ := link
    rcases attests.entry with entry | own
    · cases told.symm.trans entry
      exact absurd unknown kind
    · exact absurd own beneath.other
  | directory unknown _ _ _ index _ => exact ⟨by simp [index], fun _ _ => unknown⟩
  | file unknown _ _ _ index _ => exact ⟨by simp [index], fun _ _ => unknown⟩

/-- What the end of a declaration's wait does to the manifests. -/
theorem enrols_manifest (live : s.store.isStale ctx.generation = false) (world : World) (a : Arrival)
    (declaration : Declaration)
    (absent : ∀ path directory, declaration = .reading path directory →
      s.store.index.manifests[directory]? = none) :
    Enrols s (.manifest a declaration)
      (ctx.resume a (declaration.step ctx.policy world ctx.generation s)) := by
  have ended : ∀ t : Scope, t.store.isStale ctx.generation = false → s.store.Unsent t.store →
      t.store.index = s.store.index → (∀ D, declaration ≠ .declaring D) →
      Enrols s (.manifest a declaration) (ctx.announce a t) := by
    intro t still unsent index idle
    obtain ⟨same, next⟩ := announce_outcome still a
    refine .still (unsent.trans (unsent_announce a t)) ?_ (fun b D own => ?_) fun b D => ?_
    · rw [same, index]
    · cases own
      exact idle D rfl
    · rw [next]
      exact Progress.leaf_finished _ _
  cases declaration with
  | reading path directory =>
    dsimp only [Declaration.step]
    cases world.contents path with
    | error cause =>
      dsimp only
      split
      · refine ended _ ?_ (Store.unsent_log _ _) rfl (by simp)
        exact ((Store.quiet_log s.store _).isStale _).trans live
      · exact .still (.refl _) rfl (by simp) (by simp [Context.resume])
    | ok bytes =>
      dsimp only
      have still := (@edits_install ctx ⟨path, directory, none⟩ bytes s).isStale ctx.generation
      have books := install_books ctx.policy live ⟨path, directory, none⟩ bytes
        (absent path directory rfl)
      dsimp only at books
      generalize Declaration.install ctx.policy ctx.generation ⟨path, directory, none⟩ bytes s = q
        at still books
      obtain ⟨t, next⟩ := q
      rcases books with ⟨rfl, unsent, index⟩ | ⟨D, rfl, rfl, ⟨rfl, installs, projects, broadcasts⟩ |
        ⟨rfl, mid, installs, projects, broadcasts, sends⟩⟩
      · exact ended t (still.trans live) unsent index (by simp)
      · exact .noted D rfl installs projects broadcasts rfl
      · exact .sent D mid rfl installs projects broadcasts sends rfl
  | declaring D =>
    have declared := Store.unsent_projectDeclared s.store D.directory
    have index := (Store.quiet_projectDeclared s.store D.directory).index
    exact .later D rfl ((sends_publish D _).after declared index) rfl
  | publishing D => exact ended s live (.refl _) rfl (by simp)

/-- The end of a single wait in the first crawl of a root. -/
theorem Task.Moves.enrols {leaf : Task} {r : Scope × Progress} (moved : Task.Moves ctx world s leaf r)
    (single : leaf.Single) (live : s.store.isStale ctx.generation = false) (reads : world.Reads d)
    (attested : s.store.index.Attested d ctx.policy (· = root))
    (surveys : leaf.Surveys d ctx.policy known root)
    (absent : ∀ a path directory, leaf = .manifest a (.reading path directory) →
      s.store.index.manifests[directory]? = none) : Enrols s leaf r := by
  have undue := (moved.deed live single).undue
  cases surveys with
  | begin offered =>
    cases moved
    rw [addEntry_outcome live] at undue ⊢
    exact .still (.refl _) rfl (by simp) (undue (by simp))
  | @entry p offered =>
    cases moved
    exact .still (unsent_examined p _ s) (examined_manifests live reads attested offered.beneath).1
      (by simp) (undue (by simp))
  | @subscribe dir crossed =>
    cases moved
    refine .still (unsent_subscribed dir _ s) ?_ (by simp) (undue (by simp))
    rw [subscribed_index]
  | @list dir crossed =>
    cases moved
    obtain ⟨st, told, kind⟩ := crossed.directory
    obtain ⟨cs, children⟩ := Disk.children_of_directory told kind
    have answer : world.children dir = .ok cs := by rw [reads.children]; exact children
    have closes := @closes_nextInOrder ctx dir (ctx.policy.arrange cs).1 (ctx.policy.arrange cs).2 s
    have listed : ctx.listed dir false (world.children dir) s =
        ctx.nextInOrder dir (ctx.policy.arrange cs).1 (ctx.policy.arrange cs).2 s := by
      simp [Context.listed, answer, Context.isStale, live]
    rw [listed] at undue ⊢
    exact .still closes.unsent (by rw [closes.index]) (by simp) (undue (by simp))
  | project a top =>
    cases moved
    obtain ⟨index, _⟩ := projectDeclared_outcome live a top (world.projectRemarks top)
    refine .still ?_ (by rw [index]) (by simp) (undue (by simp))
    refine .trans ?_ (unsent_declareManifest a _)
    exact Store.unsent_projectDeclared s.store top
  | manifest a declaration =>
    cases moved
    refine enrols_manifest live world a declaration fun path directory reading => ?_
    exact absent a path directory (congrArg (Task.manifest a) reading)
  | inOrder | together => exact absurd single id

/-- A manifest that is still to be read is not installed yet, and one whose project is being declared
comes from the file that it was read from. -/
def Task.Fair (ix : Index) : Task → Prop
  | .project a _ => ∀ (dir : Path) (D : Definition), ix.manifests[dir]? = some D → D.path ≠ a.path
  | .manifest a (.reading _ _) =>
    ∀ (dir : Path) (D : Definition), ix.manifests[dir]? = some D → D.path ≠ a.path
  | .manifest a (.declaring D) => D.path = a.path
  | _ => True

theorem Task.Starts.fair {task : Task} (starts : task.Starts) (ix : Index) : task.Fair ix := by
  cases task <;> first | exact trivial | exact starts.elim

/-- A task stays fair beside an index in which everything that is new comes from another file. -/
theorem Task.Fair.frame {ix ix' : Index} {task : Task} (fair : task.Fair ix)
    (origin : ∀ (dir : Path) (D : Definition), ix'.manifests[dir]? = some D →
      ix.manifests[dir]? = some D ∨ D.path ≠ task.path) : task.Fair ix' := by
  have unread : ∀ a : Arrival, task.path = a.path →
      (∀ (dir : Path) (D : Definition), ix.manifests[dir]? = some D → D.path ≠ a.path) →
      ∀ (dir : Path) (D : Definition), ix'.manifests[dir]? = some D → D.path ≠ a.path := by
    intro a own unread dir D found
    rcases origin dir D found with before | other
    · exact unread dir D before
    · exact own ▸ other
  cases task with
  | project a top => exact unread a rfl fair
  | manifest a declaration =>
    cases declaration with
    | reading path directory => exact unread a rfl fair
    | declaring D => exact fair
    | publishing D => trivial
  | begin | entry | subscribe | list | inOrder | together => trivial

def Progress.Due (next : Progress) (D : Definition) : Prop :=
  ∃ a, next.Leaf (.manifest a (.declaring D))

/-- The first crawl of a root under way, on a disk that does not change. -/
structure Regular (d : Disk) (policy : Policy) (root : Path) (ix : Index) (next : Progress) : Prop where
  attested : ix.Attested d policy (· = root)
  consistent : ix.Consistent policy.layout (· = root)
  goesOn : ∀ task, next = .waiting task → task.Placed ∧ task.path = root ∧
    task.Stands policy.layout (· = root) ix ∧ task.Surveys d policy (fun _ => False) root
  fair : ∀ leaf, next.Leaf leaf → leaf.Fair ix

theorem Task.Stands.hereditary (layout : Layout) (anchor : Path → Prop) (ix : Index) :
    Task.Hereditary (Task.Stands layout anchor ix) where
  first stands := by
    cases stands with
    | inOrder _ first => exact first
  member stands member := by
    cases stands with
    | together _ each => exact each _ member

/-- In each directory there is one file whose manifest counts, so what is still to be read has no
manifest installed in its place. -/
theorem absent_of_fair {ix : Index} {layout : Layout} {anchor : Path → Prop}
    (consistent : ix.Consistent layout anchor) {a : Arrival} {path directory : Path}
    (stands : (Task.manifest a (.reading path directory)).Stands layout anchor ix)
    (fair : (Task.manifest a (.reading path directory)).Fair ix) :
    ix.manifests[directory]? = none := by
  cases stands with
  | manifest file own =>
    obtain ⟨rfl, parent, interest⟩ := own path directory rfl
    refine Option.eq_none_iff_forall_ne_some.2 fun D found => fair directory D found ?_
    have backs := consistent.backed directory D found
    exact Layout.eq_of_basename (Layout.basename_of_isOfInterest backs.interest) backs.inside interest
      parent

/-- What a wait goes on with is fair, if it leaves the manifests alone. -/
theorem Deed.fair {layout : Layout} {anchor : Path → Prop} {ix ix' : Index} {leaf : Task}
    {next : Progress} (deed : Deed ctx world ix leaf ix' next)
    (manifests : ix'.manifests = ix.manifests)
    (undue : ∀ a D, ¬ next.Leaf (.manifest a (.declaring D)))
    (consistent : ix.Consistent layout anchor) (fair : leaf.Fair ix)
    (unknown : ∀ p task, leaf = .entry p → next = .waiting task → ¬ ix.Known p) :
    ∀ l, next.Leaf l → l.Fair ix' := by
  rintro l ⟨task, waits, inside⟩
  cases deed with
  | ended | removed | cleared => cases waits
  | begun | subscribed | declared =>
    cases waits
    cases inside
    trivial
  | directory kind goesOn =>
    cases waits
    obtain ⟨known, rfl | rfl⟩ := goesOn
    · cases inside
      trivial
    · cases inside
      trivial
  | @file p st next kind goesOn =>
    obtain ⟨a, rfl, declares⟩ := goesOn task waits
    have unread : ∀ (dir : Path) (D : Definition), ix.manifests[dir]? = some D → D.path ≠ a.path := by
      intro dir D found same
      exact unknown a.path task rfl waits (Or.inl (same ▸ (consistent.backed dir D found).file))
    rw [← manifests] at unread
    rcases declares with ⟨top, rfl⟩ | ⟨_, rfl⟩
    · cases inside
      exact unread
    · cases inside
      exact unread
  | listed told entries => exact (leaf_following ⟨task, waits, inside⟩).fair _
  | project a top interest =>
    cases waits
    cases inside
    exact fair
  | @installed a declaration D further =>
    cases waits
    cases declaration with
    | reading path directory => exact absurd rfl (further path directory)
    | declaring E => exact absurd ⟨_, rfl, .single trivial⟩ (undue a E)
    | publishing E =>
      cases inside
      trivial

/-- What a single wait goes on with is fair. -/
theorem Enrols.fair {layout : Layout} {anchor : Path → Prop} {leaf : Task} {r : Scope × Progress}
    (enrols : Enrols s leaf r) (deed : Deed ctx world s.store.index leaf r.1.store.index r.2)
    (consistent : s.store.index.Consistent layout anchor)
    (stands : leaf.Stands layout anchor s.store.index) (fair : leaf.Fair s.store.index)
    (unknown : ∀ p task, leaf = .entry p → r.2 = .waiting task → ¬ s.store.index.Known p) :
    ∀ l, r.2.Leaf l → l.Fair r.1.store.index := by
  cases enrols with
  | still unsent manifests idle undue => exact deed.fair manifests undue consistent fair unknown
  | noted D own installs projects broadcasts next =>
    rintro l ⟨task, waits, inside⟩
    cases next.symm.trans waits
    cases inside
    subst own
    cases stands with
    | manifest file own => exact (own _ _ rfl).1
  | sent D mid own installs projects broadcasts sends next =>
    rintro l ⟨task, waits, inside⟩
    cases next.symm.trans waits
    cases inside
    trivial
  | later D own sends next =>
    rintro l ⟨task, waits, inside⟩
    cases next.symm.trans waits
    cases inside
    trivial

/-- Whatever is installed at the end of a single wait comes from the file that the wait is about. -/
theorem Enrols.origin {layout : Layout} {anchor : Path → Prop} {leaf : Task} {r : Scope × Progress}
    (enrols : Enrols s leaf r) (stands : leaf.Stands layout anchor s.store.index) (dir : Path)
    (D : Definition) (found : r.1.store.index.manifests[dir]? = some D) :
    s.store.index.manifests[dir]? = some D ∨ D.path = leaf.path := by
  have installed : ∀ {a : Arrival} {E : Definition} {t : Store}, s.store.Installs t E →
      leaf = .manifest a (.reading E.path E.directory) → t.index.manifests[dir]? = some D →
      s.store.index.manifests[dir]? = some D ∨ D.path = leaf.path := by
    intro a E t installs own found
    subst own
    rw [installs.manifests, Std.ExtTreeMap.getElem?_insert] at found
    split at found
    · cases found
      cases stands with
      | manifest file own => exact Or.inr (own _ _ rfl).1
    · exact Or.inl found
  cases enrols with
  | still unsent manifests => exact Or.inl (manifests ▸ found)
  | noted E own installs => exact installed installs own found
  | sent E mid own installs projects broadcasts sends =>
    exact installed installs own (sends.manifests ▸ found)
  | later E own sends => exact Or.inl (sends.manifests ▸ found)

/-- What a move does to the manifests.  A move that ends the crawl does nothing to them, and leaves
nothing to be sent. -/
structure Moved (s : Scope) (task : Task) (r : Scope × Progress) : Prop where
  books : s.store.Books r.1.store (Progress.waiting task).Due r.2.Due
  ended : ∀ result, r.2 = .finished result → s.store.Unsent r.1.store ∧
    r.1.store.index.manifests = s.store.index.manifests ∧ ∀ D, ¬ (Progress.waiting task).Due D

/-- A move that does nothing to the manifests. -/
theorem Moved.still {task : Task} {r : Scope × Progress} (unsent : s.store.Unsent r.1.store)
    (manifests : r.1.store.index.manifests = s.store.index.manifests)
    (same : ∀ D, r.2.Due D ↔ (Progress.waiting task).Due D) : Moved s task r := by
  refine ⟨.still unsent manifests same, fun result ends => ⟨unsent, manifests, fun D due => ?_⟩⟩
  obtain ⟨a, inside⟩ := (same D).2 due
  rw [ends] at inside
  exact Progress.leaf_finished result _ inside

/-- A declaration by itself is about to declare no other project than its own. -/
theorem due_manifest {a : Arrival} {declaration : Declaration} {D : Definition} :
    (Progress.waiting (.manifest a declaration)).Due D ↔ declaration = .declaring D := by
  have single : (Task.manifest a declaration).Single := trivial
  simp only [Progress.Due, Progress.leaf_waiting, single.leaf_iff]
  constructor
  · rintro ⟨b, same⟩
    cases same
    rfl
  · rintro rfl
    exact ⟨a, rfl⟩

def Task.DueBeside (task leaf : Task) (D : Definition) : Prop :=
  ∃ a, task.Leaf (.manifest a (.declaring D)) ∧ (Task.manifest a (.declaring D)).path ≠ leaf.path

/-- What a task is about to declare is what this leaf or another one is about to declare. -/
theorem Task.Placed.due_iff {task leaf : Task} (placed : task.Placed) (inside : task.Leaf leaf)
    (D : Definition) : (Progress.waiting task).Due D ↔
      (∃ a, leaf = .manifest a (.declaring D)) ∨ task.DueBeside leaf D := by
  constructor
  · rintro ⟨a, due⟩
    rw [Progress.leaf_waiting] at due
    by_cases same : (Task.manifest a (.declaring D)).path = leaf.path
    · exact Or.inl ⟨a, (placed.leaf_unique due inside same).symm⟩
    · exact Or.inr ⟨a, due, same⟩
  · rintro (⟨a, rfl⟩ | ⟨a, due, _⟩)
    · exact ⟨a, Progress.leaf_waiting.2 inside⟩
    · exact ⟨a, Progress.leaf_waiting.2 due⟩

/-- Another leaf is about another file, so it declares another project. -/
theorem not_dueBeside {task : Task} {a : Arrival} {D : Definition} {ix : Index}
    (inside : task.Leaf (.manifest a (.declaring D))) (fair : ∀ l, task.Leaf l → l.Fair ix) :
    ¬ task.DueBeside (.manifest a (.declaring D)) D := by
  rintro ⟨b, there, apart⟩
  have here : D.path = a.path := fair (.manifest a (.declaring D)) inside
  have elsewhere : D.path = b.path := fair (.manifest b (.declaring D)) there
  exact apart (elsewhere.symm.trans here)

/-- A move does to the manifests what the end of its leaf does. -/
theorem Enrols.moved {task leaf : Task} {r r' : Scope × Progress} (enrols : Enrols s leaf r')
    (placed : task.Placed) (inside : task.Leaf leaf) (fair : ∀ l, task.Leaf l → l.Fair s.store.index)
    (closes : Closes r'.1 r.1) (waits : ∀ t, r'.2 = .waiting t → r.1 = r'.1 ∧ ∃ t', r.2 = .waiting t')
    (goesOn : ∀ l, r'.2.Leaf l ∨ (task.Leaf l ∧ l.path ≠ leaf.path) → r.2.Leaf l)
    (origin : ∀ l, r.2.Leaf l → r'.2.Leaf l ∨ (task.Leaf l ∧ l.path ≠ leaf.path) ∨ l.Starts) :
    Moved s task r := by
  have before := placed.due_iff inside
  have after : ∀ E, r.2.Due E ↔ r'.2.Due E ∨ task.DueBeside leaf E := by
    intro E
    constructor
    · rintro ⟨a, due⟩
      rcases origin _ due with next | own | starts
      · exact Or.inl ⟨a, next⟩
      · exact Or.inr ⟨a, own⟩
      · exact starts.elim
    · rintro (⟨a, next⟩ | ⟨a, own⟩)
      · exact ⟨a, goesOn _ (Or.inl next)⟩
      · exact ⟨a, goesOn _ (Or.inr own)⟩
  have going : ∀ {t : Task}, r'.2 = .waiting t →
      s.store.Books r'.1.store (Progress.waiting task).Due r.2.Due → Moved s task r := by
    intro t next books
    obtain ⟨same, t', next'⟩ := waits t next
    refine ⟨by rwa [same], fun result ends => ?_⟩
    cases next'.symm.trans ends
  cases enrols with
  | still unsent manifests idle undue =>
    rw [← closes.index] at manifests
    refine .still (unsent.trans closes.unsent) manifests fun E => ?_
    have none : ¬ r'.2.Due E := fun ⟨a, next⟩ => undue a E next
    rw [after, before]
    simp [none, idle]
  | noted D own installs projects broadcasts next =>
    refine going next (.noted D installs projects broadcasts fun E => ?_)
    rw [after, before, next, due_manifest]
    simp [own, eq_comm]
  | sent D mid own installs projects broadcasts sends next =>
    refine going next (.sent D mid installs projects broadcasts sends fun E => ?_)
    rw [after, before, next, due_manifest]
    simp [own]
  | @later a D own sends next =>
    subst own
    refine going next (.later D ((before D).2 (Or.inl ⟨_, rfl⟩)) sends fun E => ?_)
    have other : task.DueBeside (.manifest a (.declaring D)) E → E ≠ D := by
      rintro beside rfl
      exact not_dueBeside inside fair beside
    rw [after, before, next, due_manifest]
    simp only [reduceCtorEq, false_or, Task.manifest.injEq, Declaration.declaring.injEq]
    grind

/-- A move of the first crawl of a root keeps it in order. -/
theorem Task.Moves.regular {task : Task} {r : Scope × Progress} (moved : Task.Moves ctx world s task r)
    (tidy : d.isTidy = true) (live : s.store.isStale ctx.generation = false) (reads : world.Reads d)
    (lists : world.ListsOnce) (absolute : root.isAbsolute = true)
    (regular : Regular d ctx.policy root s.store.index (.waiting task)) :
    Regular d ctx.policy root r.1.store.index r.2 ∧ Moved s task r := by
  obtain ⟨attested, consistent, goesOn, fair⟩ := regular
  obtain ⟨placed, own, stands, surveys⟩ := goesOn task rfl
  have advances := moved.advances rfl lists live (own ▸ absolute) placed consistent stands
  have surveyed := moved.surveyed tidy live reads attested (fun _ before => before.elim) surveys
  have leaves : ∀ l, task.Leaf l → l.Fair s.store.index := fun l inside =>
    fair l (Progress.leaf_waiting.2 inside)
  have further : ∀ t, r.2 = .waiting t → t.Placed ∧ t.path = root ∧
      t.Stands ctx.policy.layout (· = root) r.1.store.index ∧
        t.Surveys d ctx.policy (fun _ => False) root := by
    intro t waits
    obtain ⟨placed, same, stands⟩ := advances.goesOn t waits
    exact ⟨placed, same.trans own, stands, surveyed.goesOn t waits⟩
  cases moved.shifts live placed with
  | idle closes goesOn origin =>
    refine ⟨⟨surveyed.attested, advances.consistent, further, fun l inside => ?_⟩, ?_⟩
    · rcases origin l inside with inside | starts
      · rw [closes.index]
        exact leaves l inside
      · exact starts.fair _
    · refine .still closes.unsent (by rw [closes.index]) fun E => ⟨?_, ?_⟩
      · rintro ⟨a, due⟩
        exact ⟨a, Progress.leaf_waiting.2 ((origin _ due).resolve_right id)⟩
      · rintro ⟨a, due⟩
        exact ⟨a, goesOn _ (Progress.leaf_waiting.1 due)⟩
  | @leaf leaf r' inside single moved closes waits goesOn origin =>
    have stands' := (Task.Stands.hereditary ctx.policy.layout (· = root) _).leaf inside stands
    have surveys' := (Task.Surveys.hereditary d ctx.policy _ root).leaf inside surveys
    have enrols := moved.enrols single live reads attested surveys' fun a path directory same =>
      absent_of_fair consistent (same ▸ stands') (same ▸ leaves leaf inside)
    have unknown : ∀ p t, leaf = .entry p → r'.2 = .waiting t → ¬ s.store.index.Known p := by
      rintro p t rfl next
      cases moved
      cases surveys' with
      | entry offered => exact (examined_manifests live reads attested offered.beneath).2 t next
    have next := enrols.fair (moved.deed live single) consistent stands' (leaves leaf inside) unknown
    refine ⟨⟨surveyed.attested, advances.consistent, further, fun l inside => ?_⟩,
      enrols.moved placed inside leaves closes waits goesOn origin⟩
    rw [closes.index]
    rcases origin l inside with after | ⟨before, apart⟩ | starts
    · exact next l after
    · refine (leaves l before).frame fun dir D found => ?_
      refine (enrols.origin stands' dir D found).imp_right fun same => ?_
      exact same ▸ apart.symm
    · exact starts.fair _

end ProjectIndex.Crawl
