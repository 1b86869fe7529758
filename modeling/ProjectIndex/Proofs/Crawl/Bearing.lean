import ProjectIndex.Proofs.Crawl.Failing
import ProjectIndex.Proofs.Crawl.Journal

/-!
# Crawls keep the journal

Each move of a crawl keeps the journal: what the tasks bear is what is registered and not announced.
The tasks of a crawl stay where they were started, and the entries of a directory are different, so
no task deletes or announces what another one bears.

A crawl that fails leaves arrivals that nobody announces, so all this is said of moves that have not
failed.
-/

namespace ProjectIndex

/-- A directory is listed entry by entry, each of them once. -/
structure World.ListsOnce (world : World) : Prop where
  distinct : ∀ dir cs, dir.isAbsolute = true → world.children dir = .ok cs → cs.Nodup
  entries : ∀ dir cs, dir.isAbsolute = true → world.children dir = .ok cs →
    ∀ c ∈ cs, c.parent = some dir

theorem Path.Covers.isAbsolute {p q : Path} (covers : p.Covers q) (absolute : p.isAbsolute = true) :
    q.isAbsolute = true := by
  obtain ⟨rest, split⟩ := covers
  unfold Path.isAbsolute at absolute ⊢
  rw [← split]
  cases head : p.components with
  | nil => simp [head] at absolute
  | cons c cs => simpa [head] using absolute

namespace Crawl

def Task.path : Task → Path
  | .begin p => p
  | .entry p => p
  | .subscribe dir _ => dir
  | .list dir _ => dir
  | .project a _ => a.path
  | .manifest a _ => a.path
  | .inOrder dir _ _ _ => dir
  | .together dir _ _ => dir

/-- The entries that a task deals with, or is going to deal with, are different entries of its
directory. -/
inductive Task.Placed : Task → Prop where
  | begin (p : Path) : Placed (.begin p)
  | entry (p : Path) : Placed (.entry p)
  | subscribe (dir : Path) (known : Bool) : Placed (.subscribe dir known)
  | list (dir : Path) (known : Bool) : Placed (.list dir known)
  | project (a : Arrival) (root : Path) : Placed (.project a root)
  | manifest (a : Arrival) (d : Declaration) : Placed (.manifest a d)
  | inOrder {dir : Path} {current : Task} {queue rest : List Path} (first : Placed current)
      (siblings : ∀ c ∈ current.path :: (queue ++ rest), c.parent = some dir)
      (distinct : (current.path :: (queue ++ rest)).Nodup) :
      Placed (.inOrder dir current queue rest)
  | together {dir : Path} {running : List Task} {failure : Option IndexError}
      (each : ∀ task ∈ running, Placed task)
      (siblings : ∀ task ∈ running, task.path.parent = some dir)
      (distinct : (running.map Task.path).Nodup) : Placed (.together dir running failure)

/-- The task has registered this file and not announced it. -/
inductive Task.Bears : Task → Arrival → Prop where
  | project (a : Arrival) (root : Path) : Bears (.project a root) a
  | manifest (a : Arrival) (d : Declaration) : Bears (.manifest a d) a
  | inOrder {a : Arrival} {dir : Path} {current : Task} {queue rest : List Path}
      (borne : Bears current a) : Bears (.inOrder dir current queue rest) a
  | together {a : Arrival} {dir : Path} {task : Task} {running : List Task}
      {failure : Option IndexError} (member : task ∈ running) (borne : Bears task a) :
      Bears (.together dir running failure) a

namespace Task

@[simp] theorem bears_begin (p : Path) (a : Arrival) : ¬ (Task.begin p).Bears a := by rintro ⟨⟩

@[simp] theorem bears_entry (p : Path) (a : Arrival) : ¬ (Task.entry p).Bears a := by rintro ⟨⟩

@[simp] theorem bears_subscribe (dir : Path) (known : Bool) (a : Arrival) :
    ¬ (Task.subscribe dir known).Bears a := by rintro ⟨⟩

@[simp] theorem bears_list (dir : Path) (known : Bool) (a : Arrival) :
    ¬ (Task.list dir known).Bears a := by rintro ⟨⟩

@[simp] theorem bears_project {a b : Arrival} {root : Path} :
    (Task.project a root).Bears b ↔ b = a :=
  ⟨fun borne => by cases borne; rfl, fun same => same ▸ .project b root⟩

@[simp] theorem bears_manifest {a b : Arrival} {d : Declaration} :
    (Task.manifest a d).Bears b ↔ b = a :=
  ⟨fun borne => by cases borne; rfl, fun same => same ▸ .manifest b d⟩

@[simp] theorem bears_inOrder {dir : Path} {current : Task} {queue rest : List Path} {a : Arrival} :
    (Task.inOrder dir current queue rest).Bears a ↔ current.Bears a :=
  ⟨fun borne => by cases borne; assumption, .inOrder⟩

@[simp] theorem bears_together {dir : Path} {running : List Task} {failure : Option IndexError}
    {a : Arrival} : (Task.together dir running failure).Bears a ↔ ∃ t ∈ running, t.Bears a :=
  ⟨fun borne => by cases borne with | together member borne => exact ⟨_, member, borne⟩,
    fun ⟨_, member, borne⟩ => .together member borne⟩

/-- What a task bears lies at or below its path. -/
theorem Placed.covers {task : Task} (placed : task.Placed) {a : Arrival} (borne : task.Bears a) :
    task.path.Covers a.path := by
  induction borne with
  | project a root => exact .refl _
  | manifest a d => exact .refl _
  | inOrder borne ih =>
    cases placed with
    | inOrder first siblings distinct =>
      exact (Path.covers_of_parent (siblings _ (by simp))).trans (ih first)
  | together member borne ih =>
    cases placed with
    | together each siblings distinct =>
      exact (Path.covers_of_parent (siblings _ member)).trans (ih (each _ member))

end Task

/-- The crawl of `p` goes on with the journal in order, besides which others bear what they bear; or
it has ended and has left nothing to announce. -/
def Continues (bears : Arrival → Prop) (p : Path) : Scope × Progress → Prop
  | (s, .waiting task) =>
    task.Placed ∧ task.path = p ∧ Journalled s.store fun a => bears a ∨ task.Bears a
  | (s, .finished (.ok _)) => Journalled s.store bears
  | (_, .finished (.error _)) => True

section

variable {ctx : Context} {s : Scope} {bears : Arrival → Prop}

/-- A task that bears nothing leaves the journal to the others. -/
theorem continues_waiting {task : Task} (placed : task.Placed) (nothing : ∀ a, ¬ task.Bears a)
    (journal : Journalled s.store bears) : Continues bears task.path (s, .waiting task) :=
  ⟨placed, rfl, journal.congr fun a => by simp [nothing a]⟩

theorem journalled_remove (journal : Journalled s.store bears) {p : Path}
    (apart : ∀ a, bears a → ¬ p.Covers a.path) : Journalled (ctx.remove p s).1.store bears :=
  remove_related (R := fun s t => Journalled s bears → Journalled t bears) (fun _ => id)
    (fun first second => second ∘ first) (fun _ journal => journal.delete apart)
    (fun t journal => journal.quiet (t.quiet_forgetDirectory p)) journal

theorem journalled_reconcile (journal : Journalled s.store bears) {dir : Path}
    (apart : ∀ a, bears a → ¬ dir.Covers a.path) (onDisk : List Path) :
    Journalled (ctx.reconcile dir onDisk s).store bears := by
  have removed : ∀ c ∈ s.store.index.children dir, ∀ s' : Scope, Journalled s'.store bears →
      Journalled (ctx.remove c s').1.store bears := by
    intro c member s' journal'
    have below := Path.covers_of_parent (journal.filed dir c member)
    exact journalled_remove journal' fun a borne covers => apart a borne (below.trans covers)
  exact reconcile_related (R := fun s t => Journalled s bears → Journalled t bears) (fun _ => id)
    (fun first second => second ∘ first) (fun t line journal => journal.quiet (t.quiet_log line))
    removed onDisk journal

theorem quiet_subscribed (dir : Path) (answer : Except SubscriptionError Unit) (s : Scope) :
    s.store.Quiet (Context.subscribed dir answer s).store := by
  unfold Context.subscribed
  split
  · exact Store.quiet_directoryAnswered _ _ _
  · exact (Store.quiet_directoryAnswered _ _ _).trans (Store.quiet_log _ _)

theorem quiet_finishDirectory (dir : Path) (s : Scope) :
    s.store.Quiet (Context.finishDirectory dir s).1.store :=
  (Store.quiet_directoryDone s.store dir).trans (Store.quiet_emit (by simp [Store.Silent]) _)

theorem quiet_nextInOrder (dir : Path) (queue rest : List Path) (s : Scope) :
    s.store.Quiet (ctx.nextInOrder dir queue rest s).1.store := by
  have goesOn := entriesNext ctx s dir queue rest
  generalize ctx.nextInOrder dir queue rest s = r at goesOn ⊢
  cases goesOn with
  | next | others => exact .refl _
  | done => exact quiet_finishDirectory dir s

theorem quiet_conclude (dir : Path) (failure : Option IndexError) (s : Scope) :
    s.store.Quiet (conclude dir failure s).1.store := by
  cases failure with
  | none => exact quiet_finishDirectory dir s
  | some e => exact .refl _

/-- The entries that are left of a directory are crawled next. -/
theorem continues_nextInOrder (journal : Journalled s.store bears)
    (live : s.store.isStale ctx.generation = false) {dir : Path} {queue rest : List Path}
    (siblings : ∀ c ∈ queue ++ rest, c.parent = some dir) (distinct : (queue ++ rest).Nodup) :
    Continues bears dir (ctx.nextInOrder dir queue rest s) := by
  have goesOn := entriesNext ctx s dir queue rest
  generalize ctx.nextInOrder dir queue rest s = r at goesOn ⊢
  cases goesOn with
  | @next p left _ first =>
    subst first
    exact continues_waiting (.inOrder (.entry p) siblings distinct) (by simp) journal
  | others passed =>
    obtain rfl := passed.resolve_right (by simp [live])
    refine continues_waiting (.together ?_ ?_ ?_) (by simp) journal
    · simp only [List.mem_map]
      rintro task ⟨c, _, rfl⟩
      exact .begin c
    · simp only [List.mem_map]
      rintro task ⟨c, member, rfl⟩
      exact siblings c member
    · have paths : (rest.map Task.begin).map Task.path = rest := by
        rw [List.map_map]
        exact List.map_id rest
      rw [paths]
      exact distinct
  | done => exact journal.quiet (quiet_finishDirectory dir s)

theorem continues_addDirectory (journal : Journalled s.store bears) (dir : Path) (status : Status) :
    Continues bears dir (ctx.addDirectory dir status s) := by
  have written : Journalled { s.store with
      index := (s.store.index.insertDirectory dir status true).1 } bears :=
    journal.calm (.directory s.store dir status)
  have added := directoryAdded ctx dir status s
  generalize ctx.addDirectory dir status s = r at added ⊢
  cases added with
  | unchanged | withdrawn => exact journal
  | ignored => exact journal.quiet (Store.quiet_log s.store _)
  | subscribing =>
    exact continues_waiting (.subscribe dir _) (by simp) (written.quiet (Store.quiet_askDirectory _ dir))
  | listing => exact continues_waiting (.list dir _) (by simp) written

/-- A registered file is announced at the end, and nobody bears it any more. -/
theorem continues_announce {a : Arrival} (journal : Journalled s.store fun b => bears b ∨ b = a)
    (live : s.store.isStale ctx.generation = false) (apart : ∀ b, bears b → b.path ≠ a.path) :
    Continues bears a.path (ctx.announce a s) := by
  have ticked : ∀ t : Store, t.Quiet (t.emit (.tick a.path)) :=
    Store.quiet_emit (by simp [Store.Silent])
  have announced := fileAnnounced ctx a s
  generalize ctx.announce a s = r at announced ⊢
  cases announced with
  | withdrawn stale =>
    rw [live] at stale
    cases stale
  | new _ previous => exact (journal.announce_new previous apart).quiet (ticked _)
  | changed _ previous => exact (journal.unburden previous true).quiet (ticked _)
  | untold _ previous => exact (journal.unburden previous false).quiet (ticked _)

/-- Where a declaration stands is where the file stands. -/
theorem continues_resume {a : Arrival} {r : Scope × Declaration.Progress}
    (journal : Journalled r.1.store fun b => bears b ∨ b = a)
    (live : r.1.store.isStale ctx.generation = false) (apart : ∀ b, bears b → b.path ≠ a.path) :
    Continues bears a.path (ctx.resume a r) := by
  unfold Context.resume
  split
  next s d => exact ⟨.manifest a d, rfl, journal.congr fun b => by simp⟩
  · exact continues_announce journal live apart
  · trivial

theorem continues_declareManifest {a : Arrival}
    (journal : Journalled s.store fun b => bears b ∨ b = a)
    (live : s.store.isStale ctx.generation = false) (apart : ∀ b, bears b → b.path ≠ a.path) :
    Continues bears a.path (ctx.declareManifest a s) := by
  have declared := manifestDeclared ctx a s
  generalize ctx.declareManifest a s = r at declared ⊢
  cases declared with
  | unnamed => exact continues_announce journal live apart
  | skipped => exact continues_announce (journal.quiet (s.store.quiet_log _)) live apart
  | reading => exact ⟨.manifest a _, rfl, journal.congr fun b => by simp⟩

theorem continues_addFile (journal : Journalled s.store bears)
    (live : s.store.isStale ctx.generation = false) {file : Path} (status : Status)
    (apart : ∀ b, bears b → b.path ≠ file) : Continues bears file (ctx.addFile file status s) := by
  have declared : ∀ (a : Arrival) (s : Scope), (∀ b, bears b → b.path ≠ a.path) →
      s.store.isStale ctx.generation = false → (Journalled s.store fun b => bears b ∨ b = a) →
      Continues bears a.path (ctx.declareFile a s) := by
    intro a s apart live journal
    unfold Context.declareFile
    split
    next root _ =>
      refine ⟨.project a root, rfl, ?_⟩
      exact (journal.quiet (Store.quiet_askProject s.store root)).congr fun b => by simp
    · exact continues_declareManifest journal live apart
  have added := fileAdded ctx file status s
  generalize ctx.addFile file status s = r at added ⊢
  cases added with
  | unchanged | ignored | withdrawn => exact journal
  | registered changed => exact declared _ _ apart live (journal.register changed apart)

theorem continues_examined (journal : Journalled s.store bears)
    (live : s.store.isStale ctx.generation = false) {p : Path}
    (apart : ∀ b, bears b → ¬ p.Covers b.path) (answer : Except DiskError Status) :
    Continues bears p (ctx.examined p answer s) := by
  have removed : Journalled (ctx.remove p s).1.store bears := journalled_remove journal apart
  have elsewhere : ∀ b, bears b → b.path ≠ p := fun b borne same => apart b borne (same ▸ .refl _)
  cases answer with
  | error cause =>
    unfold Context.examined
    dsimp only
    split
    · split
      · exact removed
      · exact journal
    · trivial
  | ok st =>
    obtain ⟨s', origin, examined⟩ := @examined_told ctx p st s
    have cleared : Journalled s'.store bears ∧ s'.store.isStale ctx.generation = false := by
      rcases origin with ⟨rfl, _⟩ | ⟨rfl, _⟩
      · exact ⟨journal, live⟩
      · exact ⟨removed, ((edits_remove p s).isStale _).trans live⟩
    rw [examined]
    split
    · exact continues_addDirectory cleared.1 p st
    · exact continues_addFile cleared.1 cleared.2 st elsewhere
    · exact cleared.1

theorem continues_listed (journal : Journalled s.store bears)
    (live : s.store.isStale ctx.generation = false) {dir : Path}
    (apart : ∀ b, bears b → ¬ dir.Covers b.path) (known : Bool)
    {answer : Except DiskError (List Path)} (distinct : ∀ cs, answer = .ok cs → cs.Nodup)
    (entries : ∀ cs, answer = .ok cs → ∀ c ∈ cs, c.parent = some dir) :
    Continues bears dir (ctx.listed dir known answer s) := by
  unfold Context.listed
  split
  · split
    · exact journalled_remove journal apart
    · trivial
  next children =>
    have arranged := ctx.policy.arrange_perm children
    have siblings : ∀ c ∈ (ctx.policy.arrange children).1 ++ (ctx.policy.arrange children).2,
        c.parent = some dir := fun c member => entries children rfl c (arranged.mem_iff.1 member)
    have different := arranged.nodup_iff.2 (distinct children rfl)
    simp only [Context.isStale, live, Bool.false_eq_true, if_false]
    split
    · exact continues_nextInOrder (journalled_reconcile journal apart children)
        (((edits_reconcile dir children s).isStale _).trans live) siblings different
    · exact continues_nextInOrder journal live siblings different

end

/-- What the others of the entries that are crawled at once bear, and those outside. -/
def besides (bears : Arrival → Prop) (others : List Task) (a : Arrival) : Prop :=
  bears a ∨ ∃ other ∈ others, other.Bears a

theorem bears_split {bears : Arrival → Prop} {dir : Path} {before after : List Task} {task : Task}
    {failure : Option IndexError} (a : Arrival) :
    besides bears (before ++ after) a ∨ task.Bears a ↔
      bears a ∨ (Task.together dir (before ++ task :: after) failure).Bears a := by
  simp only [besides, Task.bears_together, List.mem_append, List.mem_cons]
  constructor
  · rintro ((outside | ⟨other, member, borne⟩) | borne)
    · exact Or.inl outside
    · exact Or.inr ⟨other, member.imp_right Or.inr, borne⟩
    · exact Or.inr ⟨task, Or.inr (Or.inl rfl), borne⟩
  · rintro (outside | ⟨other, left | rfl | right, borne⟩)
    · exact Or.inl (Or.inl outside)
    · exact Or.inl (Or.inr ⟨other, Or.inl left, borne⟩)
    · exact Or.inr borne
    · exact Or.inl (Or.inr ⟨other, Or.inr right, borne⟩)

/-- One of the entries that are crawled at once, and what is borne besides it. -/
theorem Task.Placed.one {dir : Path} {before after : List Task} {task : Task}
    {failure : Option IndexError}
    (placed : (Task.together dir (before ++ task :: after) failure).Placed)
    {bears : Arrival → Prop} (apart : ∀ b, bears b → ¬ dir.Covers b.path) :
    task.Placed ∧ dir.Covers task.path ∧
      ∀ b, besides bears (before ++ after) b → ¬ task.path.Covers b.path := by
  cases placed with
  | together each siblings distinct =>
    have parent := siblings task (by simp)
    have below := Path.covers_of_parent parent
    refine ⟨each task (by simp), below, ?_⟩
    rintro b (outside | ⟨other, member, borne⟩) covers
    · exact apart b outside (below.trans covers)
    · have listed : other ∈ before ++ task :: after := by
        rcases List.mem_append.1 member with left | right <;> simp [*]
      have same := Path.eq_of_siblings (siblings other listed) parent
        ((each other listed).covers borne) covers
      have unlike : task.path ∉ (before ++ after).map Task.path := by
        rw [List.map_append, List.map_cons] at distinct
        rw [List.map_append]
        exact (List.nodup_middle.1 distinct).notMem
      exact unlike (same ▸ List.mem_map_of_mem member)

/-- The entries crawled at once stay where they are when one of them goes on. -/
theorem Task.Placed.replace {dir : Path} {before after : List Task} {task task' : Task}
    {failure : Option IndexError}
    (placed : (Task.together dir (before ++ task :: after) failure).Placed) (next : task'.Placed)
    (same : task'.path = task.path) :
    (Task.together dir (before ++ task' :: after) failure).Placed := by
  cases placed with
  | together each siblings distinct =>
    refine .together (fun t member => ?_) (fun t member => ?_) ?_
    · rcases List.mem_append.1 member with left | right
      · exact each t (by simp [left])
      · rcases List.mem_cons.1 right with rfl | right
        · exact next
        · exact each t (by simp [right])
    · rcases List.mem_append.1 member with left | right
      · exact siblings t (by simp [left])
      · rcases List.mem_cons.1 right with rfl | right
        · exact same ▸ siblings task (by simp)
        · exact siblings t (by simp [right])
    · simpa [same] using distinct

/-- The entries crawled at once stay where they are when one of them ends. -/
theorem Task.Placed.without {dir : Path} {before after : List Task} {task : Task}
    {failure failure' : Option IndexError}
    (placed : (Task.together dir (before ++ task :: after) failure).Placed) :
    (Task.together dir (before ++ after) failure').Placed := by
  cases placed with
  | together each siblings distinct =>
    have listed : ∀ t ∈ before ++ after, t ∈ before ++ task :: after := by
      intro t member
      rcases List.mem_append.1 member with left | right <;> simp [*]
    refine .together (fun t member => each t (listed t member))
      (fun t member => siblings t (listed t member)) ?_
    rw [List.map_append, List.map_cons] at distinct
    rw [List.map_append]
    exact (List.nodup_middle.1 distinct).of_cons

/-- A move that has not failed keeps the journal, besides which others bear what lies elsewhere. -/
theorem Task.Moves.continues {ctx : Context} {world : World} {s : Scope} {task : Task}
    {r : Scope × Progress} (moved : Task.Moves ctx world s task r) (lists : world.ListsOnce)
    (live : s.store.isStale ctx.generation = false) {bears : Arrival → Prop}
    (absolute : task.path.isAbsolute = true) (placed : task.Placed)
    (apart : ∀ b, bears b → ¬ task.path.Covers b.path)
    (journal : Journalled s.store fun a => bears a ∨ task.Bears a)
    (fine : ∀ e, ¬ r.2.Failed e) : Continues bears task.path r := by
  induction moved generalizing bears with
  | begin p =>
    rw [addEntry_outcome live]
    exact continues_waiting (.entry p) (by simp) (journal.congr fun a => by simp)
  | entry p =>
    exact continues_examined (journal.congr fun a => by simp) live apart _
  | subscribe dir known =>
    refine continues_waiting (.list dir known) (by simp) ?_
    exact (journal.congr fun a => by simp).quiet (quiet_subscribed dir _ s)
  | list dir known =>
    exact continues_listed (journal.congr fun a => by simp) live apart known
      (fun cs told => lists.distinct dir cs absolute told)
      (fun cs told => lists.entries dir cs absolute told)
  | project a root =>
    have declared := Store.quiet_projectDeclared s.store root
    refine continues_declareManifest ?_ ((declared.isStale _).trans live)
      (fun b borne same => apart b borne (same ▸ .refl _))
    exact (journal.congr fun b => by simp).quiet declared
  | manifest a d =>
    have stepped := @edits_declaration ctx world d s
    refine continues_resume ?_ ((stepped.isStale _).trans live)
      (fun b borne same => apart b borne (same ▸ .refl _))
    exact (journal.congr fun b => by simp).calm (Declaration.calm_step _ world _ d s)
  | inOrder dir queue rest moved ih =>
    cases placed with
    | inOrder first siblings distinct =>
      have parent := siblings _ List.mem_cons_self
      have below := Path.covers_of_parent parent
      obtain ⟨placed', same, journal'⟩ := ih (below.isAbsolute absolute) first
        (fun b borne covers => apart b borne (below.trans covers))
        (journal.congr fun a => by simp) (fun e failed => fine e (.inOrder failed))
      refine ⟨.inOrder placed' ?_ ?_, rfl, journal'.congr fun a => by simp⟩
      · rw [same]
        exact siblings
      · rw [same]
        exact distinct
  | inOrderFailed dir queue rest moved ih => trivial
  | inOrderDone dir queue rest moved ih =>
    cases placed with
    | inOrder first siblings distinct =>
      have parent := siblings _ List.mem_cons_self
      have below := Path.covers_of_parent parent
      have ended := ih (below.isAbsolute absolute) first
        (fun b borne covers => apart b borne (below.trans covers))
        (journal.congr fun a => by simp) (by simp [Progress.Failed])
      exact continues_nextInOrder ended ((moved.edits.isStale _).trans live)
        (fun c member => siblings c (List.mem_cons_of_mem _ member)) (List.nodup_cons.1 distinct).2
  | together dir before after failure moved ih =>
    obtain ⟨first, below, others⟩ := placed.one apart
    obtain ⟨next, same, journal'⟩ := ih (below.isAbsolute absolute) first others
      (journal.congr bears_split) (fun e failed => fine e (.among (by simp) failed))
    exact ⟨placed.replace next same, rfl, journal'.congr fun a => (bears_split a).symm⟩
  | togetherDone dir before after failure moved left ih =>
    obtain ⟨first, below, others⟩ := placed.one apart
    have ended := ih (below.isAbsolute absolute) first others (journal.congr bears_split)
    rename_i result
    cases result with
    | error e =>
      exfalso
      cases failure with
      | none => exact fine e (.together dir _)
      | some e' => exact fine e' (.together dir _)
    | ok changed =>
      refine ⟨placed.without, rfl, (ended (by simp [Progress.Failed])).congr fun a => ?_⟩
      simp only [besides, Task.bears_together]
  | togetherLast dir failure moved ih =>
    obtain ⟨first, below, others⟩ := @Task.Placed.one dir [] [] _ failure placed bears apart
    have ended := ih (below.isAbsolute absolute) first others
      (journal.congr fun a => @bears_split bears dir [] [] _ failure a)
    rename_i result
    cases failure with
    | some e => exact absurd (failed_conclude.2 rfl) (fine e)
    | none =>
      cases result with
      | error e => exact absurd (failed_conclude.2 rfl) (fine e)
      | ok changed =>
        have bare := (ended (by simp [Progress.Failed])).congr fun a =>
          (by simp [besides] : bears a ↔ besides bears ([] ++ []) a)
        exact bare.quiet (quiet_finishDirectory dir _)
  | togetherNone dir failure =>
    cases failure with
    | some e => exact absurd rfl (fine e)
    | none =>
      exact (journal.congr fun a => by simp).quiet (quiet_finishDirectory dir s)

/-- A crawl that ends well leaves nothing to announce. -/
theorem Served.journalled {ctx : Context} {admits : World → Prop} {r : Scope × Progress} {s : Scope}
    {changed : Bool} (served : Served ctx admits r s (.ok changed))
    (lists : ∀ world, admits world → world.ListsOnce)
    (live : r.1.store.isStale ctx.generation = false) {p : Path} (absolute : p.isAbsolute = true)
    (continues : Continues (fun _ => False) p r) : Journalled s.store fun _ => False := by
  generalize ends : Except.ok changed = result at served
  induction served with
  | finished s result =>
    subst ends
    exact continues
  | step admitted moved rest ih =>
    obtain ⟨placed, same, journal⟩ := continues
    subst ends
    refine ih ((moved.edits.isStale _).trans live) ?_ rfl
    rw [← same] at absolute ⊢
    exact moved.continues (lists _ admitted) live absolute placed (fun _ => False.elim) journal
      rest.fine

end Crawl

end ProjectIndex
