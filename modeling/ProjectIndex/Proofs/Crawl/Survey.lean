import ProjectIndex.Proofs.Crawl.Debt
import ProjectIndex.Proofs.Crawl.Deeds
import ProjectIndex.Proofs.Index.Attested

/-!
# Crawls of a disk that does not change

Beside a disk that attests the index, an entry that is asked about is passed over, or is a link that
the index knows and drops, or was unknown and is registered.  So a crawl writes only what it has not
known, lists every directory that it writes, and takes nothing away but links.  Of the entries of the
directories that it writes it owes a visit to each, and a crawl that ends well has paid: what the index
lacks afterwards it has lacked before.

The index that the crawl starts from may hold anything that the disk attests, left by other crawls of
whatever roots.
-/

namespace ProjectIndex

structure Path.Beneath (p top : Path) : Prop where
  plain : p.Plain
  covers : top.Covers p
  other : p ≠ top

/-- What is in a directory at or below a path is strictly below the path. -/
theorem Path.Beneath.of_parent {top dir p : Path} (plain : p.Plain) (below : top.Covers dir)
    (parent : p.parent = some dir) : p.Beneath top := by
  refine ⟨plain, below.of_parent parent, ?_⟩
  rintro rfl
  exact Path.not_covers_of_parent parent below

/-- No link lies on the way from a path down to another one, unless the upper path is one itself. -/
def Disk.Unlinked (d : Disk) (top q : Path) : Prop :=
  ∀ p, p.Beneath top → p.Covers q → ¬ d.HasLink p

theorem Disk.Unlinked.self (d : Disk) (top : Path) : d.Unlinked top top :=
  fun _ beneath above => absurd (beneath.covers.antisymm above).symm beneath.other

namespace Crawl

/-- A crawl of `top` goes into the path: the path was not known when the crawl began, its name is not
denied, and below `top` it is a directory and not a link. -/
@[mk_iff]
structure Passable (d : Disk) (policy : Policy) (known : Path → Prop) (top p : Path) : Prop where
  unknown : ¬ known p
  taken : policy.ignores p .directory = false
  entry : p ≠ top → ∃ st, d.statEntry p.spelling = .ok st ∧ st.kind = .directory

/-- A crawl of `top` goes the whole way down to the directory. -/
structure Crossed (d : Disk) (policy : Policy) (known : Path → Prop) (top dir : Path) : Prop where
  plain : dir.Plain
  covers : top.Covers dir
  directory : d.HasDirectory dir
  way : ∀ p, top.Covers p → p.Covers dir → Passable d policy known top p

/-- The path is an entry of a directory that a crawl of `top` goes down to. -/
structure Offered (d : Disk) (policy : Policy) (known : Path → Prop) (top p : Path) : Prop where
  plain : p.Plain
  parent : ∃ dir, p.parent = some dir ∧ Crossed d policy known top dir

namespace Crossed

variable {d : Disk} {policy : Policy} {known : Path → Prop} {top p : Path}

theorem root (plain : top.Plain) (directory : d.HasDirectory top) (unknown : ¬ known top)
    (taken : policy.ignores top .directory = false) : Crossed d policy known top top := by
  refine ⟨plain, .refl top, directory, fun p below above => ?_⟩
  obtain rfl := below.antisymm above
  exact ⟨unknown, taken, fun other => absurd rfl other⟩

theorem unlinked (crossed : Crossed d policy known top p) : d.Unlinked top p := by
  rintro q beneath above ⟨st, link, unknown⟩
  obtain ⟨st', told, kind⟩ := (crossed.way q beneath.covers above).entry beneath.other
  cases link.symm.trans told
  cases kind.symm.trans unknown

end Crossed

namespace Offered

variable {d : Disk} {policy : Policy} {known : Path → Prop} {top p : Path} {st : Status}

theorem beneath (offered : Offered d policy known top p) : p.Beneath top := by
  obtain ⟨plain, dir, parent, crossed⟩ := offered
  exact .of_parent plain crossed.covers parent

theorem unlinked (offered : Offered d policy known top p) (entry : ¬ d.HasLink p) :
    d.Unlinked top p := by
  obtain ⟨plain, dir, parent, crossed⟩ := offered
  intro q beneath above
  rcases above.eq_or_parent parent with rfl | higher
  · exact entry
  · exact crossed.unlinked q beneath higher

/-- The crawl goes on into an entry that it finds to be a directory. -/
theorem crossed (offered : Offered d policy known top p) (told : d.statEntry p.spelling = .ok st)
    (kind : st.kind = .directory) (taken : policy.ignores p .directory = false)
    (unknown : ¬ known p) : Crossed d policy known top p := by
  have beneath := offered.beneath
  obtain ⟨plain, dir, parent, crossed⟩ := offered
  refine ⟨plain, beneath.covers, ⟨st, Disk.stat_of_statEntry told (by simp [kind]), kind⟩, ?_⟩
  intro q below above
  rcases above.eq_or_parent parent with rfl | higher
  · exact ⟨unknown, taken, fun _ => ⟨st, told, kind⟩⟩
  · exact crossed.way q below higher

end Offered

/-- What comes of asking about an entry. -/
inductive Sighted (d : Disk) (policy : Policy) (p : Path) (s : Scope) : Scope × Progress → Prop where
  /-- It is known as it is, or it is none of those that are taken in. -/
  | passed {s' : Scope} (result : Except IndexError Bool) (same : s' = s ∨ ∃ line, s' = s.log line)
      (held : ¬ s.store.index.Lacks d policy p)
      (present : s.store.index.Known p → ¬ d.HasLink p) : Sighted d policy p s (s', .finished result)
  /-- It is known and a link. -/
  | dropped {s' : Scope} (result : Except IndexError Bool) (known : s.store.index.Known p)
      (link : d.HasLink p) (index : s'.store.index = (s.store.index.evict p).1) :
      Sighted d policy p s (s', .finished result)
  | directory {s' : Scope} {task : Task} {st : Status} (unknown : ¬ s.store.index.Known p)
      (told : d.statEntry p.spelling = .ok st) (kind : st.kind = .directory)
      (taken : policy.ignores p .directory = false)
      (index : s'.store.index = (s.store.index.insertDirectory p st true).1)
      (lists : task = .subscribe p false ∨ task = .list p false) :
      Sighted d policy p s (s', .waiting task)
  | file {s' : Scope} {next : Progress} {st : Status} (unknown : ¬ s.store.index.Known p)
      (told : d.statEntry p.spelling = .ok st) (kind : st.kind = .file)
      (taken : policy.ignores p .file = false)
      (index : s'.store.index = (s.store.index.insertFile p st true).1)
      (declares : ∀ task, next = .waiting task →
        ∃ a, (∃ root, task = .project a root) ∨ ∃ D, task = .manifest a D) :
      Sighted d policy p s (s', next)

section

variable {d : Disk} {linked : Path → Prop} {ctx : Context} {world : World} {s : Scope}

/-- A known entry that is on disk as it is known is passed over. -/
theorem examined_known {p : Path} {st : Status} (found : s.store.index.status? p = some st) :
    ∃ s', (s' = s ∨ ∃ line, s' = s.log line) ∧
      ctx.examined p (.ok st) s = (s', .finished (.ok false)) := by
  have unchanged : s.store.index.hasChanged p st = false := by simp [Index.hasChanged, found]
  simp only [Context.examined, found, if_true]
  cases st.kind with
  | directory => exact addDirectory_passed (Or.inl unchanged)
  | file => exact ⟨s, Or.inl rfl, addFile_passed (Or.inl unchanged)⟩
  | unknown => exact ⟨s, Or.inl rfl, rfl⟩

/-- An unknown entry that is on disk is registered, unless it is left out. -/
theorem sighted_unknown (live : s.store.isStale ctx.generation = false) {p : Path} {st : Status}
    (unknown : ¬ s.store.index.Known p) (told : d.statEntry p.spelling = .ok st) :
    Sighted d ctx.policy p s (ctx.examined p (.ok st) s) := by
  have none := Index.status?_eq_none.2 unknown
  have changed : s.store.index.hasChanged p st = true := by simp [Index.hasChanged, none]
  have ignored : ctx.policy.ignores p st.kind = true → ¬ s.store.index.Lacks d ctx.policy p := by
    rintro ignored ⟨_, _, _, st', told', _, taken⟩
    cases told.symm.trans told'
    cases ignored.symm.trans taken
  simp only [Context.examined, none]
  cases kind : st.kind with
  | directory =>
    rcases addDirectory_outcome live p st with ⟨kept, _⟩ | ⟨⟨_, taken⟩, written, goesOn⟩
    · obtain ⟨s', same, passed⟩ := addDirectory_passed kept
      simp only [passed]
      have out := kept.resolve_left (by simp [changed])
      exact .passed _ same (ignored (kind ▸ out)) fun known => absurd known unknown
    · have absent : s.store.index.isDirectory p = false := by
        simpa using fun directory => unknown (Or.inr (Index.isDirectory_iff.1 directory))
      rw [absent] at goesOn
      dsimp only
      generalize ctx.addDirectory p st s = r at written goesOn
      obtain ⟨s', next⟩ := r
      rcases goesOn with rfl | rfl
      · exact .directory unknown told kind taken written (Or.inl rfl)
      · exact .directory unknown told kind taken written (Or.inr rfl)
  | file =>
    rcases addFile_outcome live p st with ⟨kept, _⟩ | ⟨⟨_, taken⟩, written, a, _, goesOn⟩
    · simp only [addFile_passed kept]
      have out := kept.resolve_left (by simp [changed])
      exact .passed _ (Or.inl rfl) (ignored (kind ▸ out)) fun known => absurd known unknown
    · dsimp only
      generalize ctx.addFile p st s = r at written goesOn
      obtain ⟨s', next⟩ := r
      refine .file unknown told kind taken written fun task waits => ⟨a, ?_⟩
      rcases goesOn with ⟨root, goesOn⟩ | goesOn
      · cases goesOn.symm.trans waits
        exact Or.inl ⟨root, rfl⟩
      · rw [show next = _ from goesOn] at waits
        split at waits
        · cases waits
          exact Or.inr ⟨_, rfl⟩
        · cases waits
  | unknown =>
    refine .passed _ (Or.inl rfl) ?_ fun known => absurd known unknown
    rintro ⟨_, _, _, st', told', other, _⟩
    cases told.symm.trans told'
    exact other kind

/-- Beside a disk that attests the index, an entry that is asked about is passed over, dropped or
registered. -/
theorem sighted_examined (live : s.store.isStale ctx.generation = false) (reads : world.Reads d)
    (attested : s.store.index.Attested d ctx.policy linked) (p : Path) :
    Sighted d ctx.policy p s (ctx.examined p (world.entry p) s) := by
  rw [reads.entry, show (World.ofDisk d).entry p = d.statEntry p.spelling from rfl]
  cases told : d.statEntry p.spelling with
  | error cause =>
    have unknown : ¬ s.store.index.Known p := by
      intro known
      obtain ⟨st, attests⟩ := attested.known known
      obtain ⟨st', there⟩ := attests.exists_entry
      cases told.symm.trans there
    have held : ¬ s.store.index.Lacks d ctx.policy p := by
      rintro ⟨_, _, _, st, there, _⟩
      cases told.symm.trans there
    have passed : ∀ result, Sighted d ctx.policy p s (s, .finished result) := fun result =>
      .passed result (Or.inl rfl) held fun known => absurd known unknown
    simp only [Context.examined, mt Index.knows_iff.1 unknown, Bool.false_eq_true, if_false]
    split
    · exact passed _
    · exact passed _
  | ok st =>
    by_cases known : s.store.index.Known p
    · obtain ⟨old, found⟩ := Index.known_iff.1 known
      obtain ⟨kind, attests⟩ := attested.status found
      have held : ¬ s.store.index.Lacks d ctx.policy p := fun lacks => lacks.unknown known
      by_cases link : st.kind = .unknown
      · obtain ⟨s', _, cleared, examined⟩ := examined_ok live p st
        rw [examined, link]
        refine .dropped _ known ⟨st, told, link⟩ ?_
        rw [cleared, Index.clearedFor, found]
        exact if_neg (link ▸ kind)
      · obtain rfl := attests.eq_of_entry told link
        obtain ⟨s', same, passed⟩ := @examined_known ctx s p st found
        rw [passed]
        refine .passed _ same held fun _ => ?_
        rintro ⟨st', told', unknown⟩
        cases told.symm.trans told'
        exact link unknown
    · exact sighted_unknown live known told

end

/-- The task lists directories that a crawl of `top` goes down to, and asks about their entries. -/
inductive Task.Surveys (d : Disk) (policy : Policy) (known : Path → Prop) (top : Path) : Task → Prop where
  | begin {p : Path} (offered : Offered d policy known top p) : Surveys d policy known top (.begin p)
  | entry {p : Path} (offered : Offered d policy known top p) : Surveys d policy known top (.entry p)
  | subscribe {dir : Path} (crossed : Crossed d policy known top dir) :
      Surveys d policy known top (.subscribe dir false)
  | list {dir : Path} (crossed : Crossed d policy known top dir) :
      Surveys d policy known top (.list dir false)
  | project (a : Arrival) (root : Path) : Surveys d policy known top (.project a root)
  | manifest (a : Arrival) (D : Declaration) : Surveys d policy known top (.manifest a D)
  | inOrder {dir : Path} {current : Task} {queue rest : List Path}
      (first : Surveys d policy known top current)
      (later : ∀ q ∈ queue ++ rest, Offered d policy known top q) :
      Surveys d policy known top (.inOrder dir current queue rest)
  | together {dir : Path} {running : List Task} {failure : Option IndexError}
      (each : ∀ task ∈ running, Surveys d policy known top task) :
      Surveys d policy known top (.together dir running failure)

theorem Task.Surveys.hereditary (d : Disk) (policy : Policy) (known : Path → Prop) (top : Path) :
    Task.Hereditary (Task.Surveys d policy known top) where
  first surveys := by
    cases surveys with
    | inOrder first _ => exact first
  member surveys member := by
    cases surveys with
    | together each => exact each _ member

theorem surveys_following {d : Disk} {policy : Policy} {known : Path → Prop} {top dir : Path}
    {queue rest : List Path} {task : Task} (offered : ∀ q ∈ queue ++ rest, Offered d policy known top q)
    (waits : following dir queue rest = .waiting task) : task.Surveys d policy known top := by
  cases queue with
  | nil =>
    simp only [following] at waits
    split at waits
    · cases waits
    · cases waits
      refine .together fun task member => ?_
      obtain ⟨q, inside, rfl⟩ := List.mem_map.1 member
      exact .begin (offered q (by simpa using inside))
  | cons p queue =>
    cases waits
    exact .inOrder (.entry (offered p (by simp))) fun q member =>
      offered q (List.mem_cons_of_mem _ member)

/-- The index still has the directories that were known, but for what lies behind a link. -/
def Retains (d : Disk) (known : Path → Prop) (top : Path) (ix : Index) : Prop :=
  ∀ q, known q → d.Unlinked top q → q ∈ ix.directories

/-- What a move of such a task leaves: an index that the disk attests, with nothing changed outside.
It has lost directories behind links only, and has gained only such as the crawl goes down to. -/
structure Surveyed (d : Disk) (policy : Policy) (linked known : Path → Prop) (top : Path)
    (ix ix' : Index) (next : Progress) : Prop where
  attested : ix'.Attested d policy linked
  outside : ix.SameOutside ix' top
  kept : Retains d (· ∈ ix.directories) top ix'
  gained : ∀ q ∈ ix'.directories, q ∈ ix.directories ∨ Crossed d policy known top q
  goesOn : ∀ task, next = .waiting task → task.Surveys d policy known top

section

variable {d : Disk} {policy : Policy} {linked known : Path → Prop} {top p q : Path} {ctx : Context}
  {world : World} {s : Scope} {ix ix' ix'' : Index} {next : Progress}

theorem Retains.after (retains : Retains d known top ix) (kept : Retains d (· ∈ ix.directories) top ix') :
    Retains d known top ix' :=
  fun q before unlinked => kept q (retains q before unlinked) unlinked

namespace Surveyed

theorem idle (attested : ix.Attested d policy linked)
    (goesOn : ∀ task, next = .waiting task → task.Surveys d policy known top) :
    Surveyed d policy linked known top ix ix next :=
  ⟨attested, .refl ix top, fun _ before _ => before, fun _ before => Or.inl before, goesOn⟩

theorem ended (attested : ix.Attested d policy linked) (result : Except IndexError Bool) :
    Surveyed d policy linked known top ix ix (.finished result) :=
  .idle attested fun _ waits => by cases waits

theorem trans {between : Progress} (first : Surveyed d policy linked known top ix ix' between)
    (second : Surveyed d policy linked known top ix' ix'' next) :
    Surveyed d policy linked known top ix ix'' next where
  attested := second.attested
  outside := first.outside.trans second.outside
  kept := first.kept.after second.kept
  gained q after := (second.gained q after).elim (first.gained q) Or.inr
  goesOn := second.goesOn

/-- A directory that the crawl goes down to is registered. -/
theorem registered {st : Status} (attested : ix.Attested d policy linked)
    (crossed : Crossed d policy known top p) (kind : st.kind = .directory)
    (attests : d.Attests policy linked p st)
    (goesOn : ∀ task, next = .waiting task → task.Surveys d policy known top) :
    Surveyed d policy linked known top ix (ix.insertDirectory p st true).1 next := by
  refine ⟨attested.insertDirectory kind attests, ⟨fun q _ => by simp, fun q out => ?_⟩,
    fun q before _ => by simp [before], fun q after => ?_, goesOn⟩
  · have other : p ≠ q := by
      rintro rfl
      exact out crossed.covers
    simp [other]
  · rw [Index.insertDirectory_directories, Std.ExtTreeMap.mem_insert] at after
    refine after.symm.imp_right fun own => ?_
    exact Std.LawfulEqCmp.compare_eq_iff_eq.1 own ▸ crossed

theorem goingOn {between : Progress} (surveyed : Surveyed d policy linked known top ix ix' between)
    (goesOn : ∀ task, next = .waiting task → task.Surveys d policy known top) :
    Surveyed d policy linked known top ix ix' next :=
  ⟨surveyed.attested, surveyed.outside, surveyed.kept, surveyed.gained, goesOn⟩

end Surveyed

/-- An entry is passed over, dropped as a link, or registered with the crawl going down to it. -/
theorem Sighted.surveyed {r : Scope × Progress} (sighted : Sighted d policy p s r)
    (attested : s.store.index.Attested d policy linked) (retains : Retains d known top s.store.index)
    (offered : Offered d policy known top p) :
    Surveyed d policy linked known top s.store.index r.1.store.index r.2 := by
  have beneath := offered.beneath
  cases sighted with
  | passed result same _ _ =>
    rcases same with rfl | ⟨line, rfl⟩
    · exact .ended attested result
    · exact .ended attested result
  | dropped result _ link index =>
    rw [index]
    refine ⟨attested.evict p, (attested.filed.sameOutside_evict p).above beneath.covers, ?_, ?_,
      fun _ waits => by cases waits⟩
    · intro q before unlinked
      refine attested.filed.mem_directories_evict.2 ⟨before, fun reaches => ?_⟩
      exact unlinked p beneath (reaches.covers attested.filed) link
    · exact fun q after => Or.inl (attested.filed.mem_directories_evict.1 after).1
  | @directory _ task st unknown told kind taken index lists =>
    have followed := Disk.stat_of_statEntry told (by simp [kind])
    have attests : d.Attests policy linked p st :=
      ⟨beneath.plain, followed, kind ▸ taken, Or.inl told⟩
    have entry : ¬ d.HasLink p := by
      rintro ⟨st', told', link⟩
      cases told.symm.trans told'
      cases kind.symm.trans link
    have new : ¬ known p := fun before =>
      unknown (Or.inr (retains p before (offered.unlinked entry)))
    have crossed := offered.crossed told kind taken new
    rw [index]
    refine .registered attested crossed kind attests fun task waits => ?_
    cases waits
    rcases lists with rfl | rfl
    · exact .subscribe crossed
    · exact .list crossed
  | @file _ _ st unknown told kind taken index declares =>
    have followed := Disk.stat_of_statEntry told (by simp [kind])
    have attests : d.Attests policy linked p st :=
      ⟨beneath.plain, followed, kind ▸ taken, Or.inl told⟩
    rw [index]
    refine ⟨attested.insertFile kind attests, ⟨fun q out => ?_, fun q _ => by simp⟩,
      fun q before _ => by simpa using before, fun q after => Or.inl (by simpa using after),
      fun task waits => ?_⟩
    · have other : p ≠ q := by
        rintro rfl
        exact out beneath.covers
      simp [other]
    · obtain ⟨a, ⟨root, rfl⟩ | ⟨D, rfl⟩⟩ := declares task waits
      · exact .project a root
      · exact .manifest a D

/-- A directory of the disk is listed, and nothing is taken away for it. -/
theorem listed_still (live : s.store.isStale ctx.generation = false) (reads : world.Reads d)
    {dir : Path} (directory : d.HasDirectory dir) :
    ∃ cs, d.children dir = .ok cs ∧
      (ctx.listed dir false (world.children dir) s).1.store.index = s.store.index ∧
      (ctx.listed dir false (world.children dir) s).2 =
        following dir (ctx.policy.arrange cs).1 (ctx.policy.arrange cs).2 := by
  obtain ⟨st, told, kind⟩ := directory
  obtain ⟨cs, children⟩ := Disk.children_of_directory told kind
  have answer : world.children dir = .ok cs := by rw [reads.children]; exact children
  rcases listed_outcome live dir false (world.children dir) with
    ⟨cause, failed, _⟩ | ⟨cs', listed, index, next⟩
  · cases answer.symm.trans failed
  · cases answer.symm.trans listed
    exact ⟨cs, children, by simpa using index, next⟩

theorem manifest_still (live : s.store.isStale ctx.generation = false) (world : World) (a : Arrival)
    (D : Declaration) :
    let r := ctx.resume a (D.step ctx.policy world ctx.generation s)
    (r.1.store.index = s.store.index ∨ ∃ E, r.1.store.index = (s.store.index.setManifest E true).1) ∧
      ∀ task, r.2 = .waiting task → ∃ D', task = .manifest a D' := by
  intro r
  let site : Site := ⟨ctx.policy, world, a.path, fun _ => True⟩
  obtain ⟨index, next, _⟩ := @manifest_effect site ctx s a D live
  refine ⟨index, fun task waits => ?_⟩
  obtain ⟨E, rfl | rfl⟩ := next task waits
  · exact ⟨_, rfl⟩
  · exact ⟨_, rfl⟩

/-- A single wait that ends leaves an attested index. -/
theorem Task.Moves.surveyed_single {task : Task} {r : Scope × Progress}
    (moved : Task.Moves ctx world s task r) (single : task.Single) (tidy : d.isTidy = true)
    (live : s.store.isStale ctx.generation = false) (reads : world.Reads d)
    (attested : s.store.index.Attested d ctx.policy linked) (retains : Retains d known top s.store.index)
    (surveys : task.Surveys d ctx.policy known top) :
    Surveyed d ctx.policy linked known top s.store.index r.1.store.index r.2 := by
  cases surveys with
  | begin offered =>
    cases moved
    rw [addEntry_outcome live]
    refine .idle attested fun task waits => ?_
    cases waits
    exact .entry offered
  | entry offered =>
    cases moved
    exact (sighted_examined live reads attested _).surveyed attested retains offered
  | subscribe crossed =>
    cases moved
    rw [subscribed_index]
    refine .idle attested fun task waits => ?_
    cases waits
    exact .list crossed
  | @list dir crossed =>
    cases moved
    obtain ⟨cs, told, index, next⟩ := @listed_still _ ctx _ s live reads dir crossed.directory
    rw [index, next]
    obtain ⟨_, entries⟩ := Disk.children_ofDisk tidy crossed.plain told
    refine .idle attested fun task waits => surveys_following (fun c member => ?_) waits
    obtain ⟨parent, entryPlain⟩ := entries c ((ctx.policy.arrange_perm cs).mem_iff.1 member)
    exact ⟨entryPlain, dir, parent, crossed⟩
  | project a root =>
    cases moved
    obtain ⟨index, next⟩ := projectDeclared_outcome live a root (world.projectRemarks root)
    rw [index, next]
    refine .idle attested fun task waits => ?_
    split at waits
    · cases waits
      exact .manifest a _
    · cases waits
  | manifest a D =>
    cases moved
    obtain ⟨index, next⟩ := @manifest_still ctx s live world a D
    have goesOn : ∀ task, (ctx.resume a (D.step ctx.policy world ctx.generation s)).2 =
        .waiting task → task.Surveys d ctx.policy known top := by
      intro task waits
      obtain ⟨D', rfl⟩ := next task waits
      exact .manifest a D'
    rcases index with same | ⟨E, installed⟩
    · rw [same]
      exact .idle attested goesOn
    · rw [installed]
      exact ⟨attested.setManifest E, ⟨fun _ _ => Iff.rfl, fun _ _ => Iff.rfl⟩,
        fun _ before _ => before, fun _ before => Or.inl before, goesOn⟩
  | inOrder | together => exact absurd single id

/-- Every move leaves an attested index. -/
theorem Task.Moves.surveyed {task : Task} {r : Scope × Progress}
    (moved : Task.Moves ctx world s task r) (tidy : d.isTidy = true)
    (live : s.store.isStale ctx.generation = false) (reads : world.Reads d)
    (attested : s.store.index.Attested d ctx.policy linked) (retains : Retains d known top s.store.index)
    (surveys : task.Surveys d ctx.policy known top) :
    Surveyed d ctx.policy linked known top s.store.index r.1.store.index r.2 := by
  induction moved with
  | begin p =>
    exact (Task.Moves.begin p).surveyed_single trivial tidy live reads attested retains surveys
  | entry p =>
    exact (Task.Moves.entry p).surveyed_single trivial tidy live reads attested retains surveys
  | subscribe dir flag =>
    exact (Task.Moves.subscribe dir flag).surveyed_single trivial tidy live reads attested retains surveys
  | list dir flag =>
    exact (Task.Moves.list dir flag).surveyed_single trivial tidy live reads attested retains surveys
  | project a root =>
    exact (Task.Moves.project a root).surveyed_single trivial tidy live reads attested retains surveys
  | manifest a D =>
    exact (Task.Moves.manifest a D).surveyed_single trivial tidy live reads attested retains surveys
  | inOrder dir queue rest moved ih =>
    cases surveys with
    | inOrder first later =>
      have inner := ih first
      refine inner.goingOn fun task waits => ?_
      cases waits
      exact .inOrder (inner.goesOn _ rfl) later
  | inOrderFailed dir queue rest moved ih =>
    cases surveys with
    | inOrder first later =>
      have inner := ih first
      exact inner.goingOn fun task waits => by cases waits
  | inOrderDone dir queue rest moved ih =>
    cases surveys with
    | inOrder first later =>
      have inner := ih first
      obtain ⟨index, next⟩ := nextInOrder_outcome ((moved.edits.isStale _).trans live) dir queue rest
      rw [index, next]
      exact inner.goingOn fun task => surveys_following later
  | @together s' task task' dir before after failure moved ih =>
    cases surveys with
    | together each =>
      have inner := ih (each task (by simp))
      refine inner.goingOn fun _ waits => ?_
      cases waits
      refine .together fun other member => ?_
      rcases List.mem_cons.1 (List.perm_middle.mem_iff.1 member) with rfl | beside
      · exact inner.goesOn _ rfl
      · exact each other (List.perm_middle.mem_iff.2 (List.mem_cons_of_mem _ beside))
  | @togetherDone s' task result dir before after failure moved left ih =>
    cases surveys with
    | together each =>
      have inner := ih (each task (by simp))
      refine inner.goingOn fun _ waits => ?_
      cases waits
      refine .together fun other beside => ?_
      exact each other (List.perm_middle.mem_iff.2 (List.mem_cons_of_mem _ beside))
  | @togetherLast s' task result dir failure moved ih =>
    cases surveys with
    | together each =>
      have inner := ih (each task (by simp))
      rw [conclude_index]
      exact inner.goingOn fun _ waits => absurd waits conclude_not_waiting
  | togetherNone dir failure =>
    rw [conclude_index]
    exact .idle attested fun _ waits => absurd waits conclude_not_waiting

/-- What the index lacks has to be visited by a task that awaits it. -/
def lacking (d : Disk) (policy : Policy) (top : Path) : Obligation :=
  { visits ⟨policy, .ofDisk d, top, fun _ => True⟩ with due := fun ix q => ix.Lacks d policy q }

theorem Sighted.lacks {r : Scope × Progress} (sighted : Sighted d policy p s r)
    (filed : s.store.index.Filed) (lacks : r.1.store.index.Lacks d policy q) :
    (s.store.index.Lacks d policy q ∧ q ≠ p) ∨ (lacking d policy top).OwesNext r.2 q := by
  cases sighted with
  | passed result same held _ =>
    have before : s.store.index.Lacks d policy q := by
      rcases same with rfl | ⟨line, rfl⟩
      · exact lacks
      · exact lacks
    refine Or.inl ⟨before, ?_⟩
    rintro rfl
    exact held before
  | dropped result known link index =>
    rw [index] at lacks
    have before := lacks.of_evict filed link
    refine Or.inl ⟨before, ?_⟩
    rintro rfl
    exact before.unknown known
  | directory unknown told kind taken index lists =>
    rw [index] at lacks
    obtain ⟨other, before | parent⟩ := lacks.of_insertDirectory
    · exact Or.inl ⟨before, other⟩
    · refine Or.inr ⟨_, rfl, ?_⟩
      rcases lists with rfl | rfl
      · exact Task.Awaits.subscribe false parent
      · exact Task.Awaits.list false parent
  | file unknown told kind taken index declares =>
    rw [index] at lacks
    obtain ⟨other, before⟩ := lacks.of_insertFile
    exact Or.inl ⟨before, other⟩

/-- The end of a single wait pays the visit that it was for, or passes it on. -/
theorem Task.Moves.lacks_single {task : Task} {r : Scope × Progress}
    (moved : Task.Moves ctx world s task r) (single : task.Single) (tidy : d.isTidy = true)
    (live : s.store.isStale ctx.generation = false) (reads : world.Reads d)
    (attested : s.store.index.Attested d ctx.policy linked) (surveys : task.Surveys d ctx.policy known top)
    (lacks : r.1.store.index.Lacks d ctx.policy q) :
    (s.store.index.Lacks d ctx.policy q ∧ ¬ task.Awaits q) ∨
      (lacking d ctx.policy top).OwesNext r.2 q := by
  cases surveys with
  | @begin p offered =>
    cases moved
    rw [addEntry_outcome live] at lacks ⊢
    by_cases own : q = p
    · exact Or.inr ⟨_, rfl, own ▸ Task.Awaits.entry q⟩
    · refine Or.inl ⟨lacks, fun awaits => own ?_⟩
      cases awaits
      rfl
  | entry offered =>
    cases moved
    refine ((sighted_examined live reads attested _).lacks attested.filed lacks).imp_left
      fun ⟨before, other⟩ => ⟨before, fun awaits => other ?_⟩
    cases awaits
    rfl
  | @subscribe dir crossed =>
    cases moved
    rw [subscribed_index] at lacks
    by_cases entry : q.parent = some dir
    · exact Or.inr ⟨_, rfl, Task.Awaits.list false entry⟩
    · refine Or.inl ⟨lacks, fun awaits => ?_⟩
      cases awaits with
      | subscribe _ parent => exact entry parent
  | @list dir crossed =>
    cases moved
    obtain ⟨cs, told, index, next⟩ := @listed_still _ ctx _ s live reads dir crossed.directory
    rw [index] at lacks
    rw [next]
    by_cases entry : q.parent = some dir
    · obtain ⟨st, there, _⟩ := lacks.entry
      have listed := Disk.mem_children_of_told tidy told lacks.plain entry there
      exact Or.inr ((lacking d ctx.policy top).owes_following
        ((ctx.policy.arrange_perm cs).mem_iff.2 listed) (Task.Awaits.entry q))
    · refine Or.inl ⟨lacks, fun awaits => ?_⟩
      cases awaits with
      | list _ parent => exact entry parent
  | project a root =>
    cases moved
    rw [(projectDeclared_outcome live a root (world.projectRemarks root)).1] at lacks
    exact Or.inl ⟨lacks, fun awaits => by cases awaits⟩
  | manifest a D =>
    cases moved
    refine Or.inl ⟨?_, fun awaits => by cases awaits⟩
    rcases (@manifest_still ctx s live world a D).1 with same | ⟨E, installed⟩
    · exact same ▸ lacks
    · rw [installed] at lacks
      exact lacks.of_setManifest
  | inOrder | together => exact absurd single id

/-- What a crawl of such a task leaves, however it ends. -/
theorem Served.surveyed {admits : World → Prop} {r : Scope × Progress} {s : Scope}
    {result : Except IndexError Bool} (served : Served ctx admits r s result)
    (tidy : d.isTidy = true) (reads : ∀ world, admits world → world.Reads d)
    (live : r.1.store.isStale ctx.generation = false)
    (attested : r.1.store.index.Attested d ctx.policy linked)
    (retains : Retains d known top r.1.store.index)
    (goesOn : ∀ task, r.2 = .waiting task → task.Surveys d ctx.policy known top) :
    Surveyed d ctx.policy linked known top r.1.store.index s.store.index (.finished result) := by
  induction served with
  | finished s result => exact .ended attested result
  | @step s s' task r world result admitted moved rest ih =>
    have step := moved.surveyed tidy live (reads world admitted) attested retains (goesOn task rfl)
    have still := (moved.edits.isStale _).trans live
    exact step.trans (ih still step.attested (retains.after step.kept) step.goesOn)

/-- What the index lacks after a crawl that ended well was lacking before. -/
theorem Served.lacks {admits : World → Prop} {r : Scope × Progress} {s : Scope} {changed : Bool}
    (served : Served ctx admits r s (.ok changed)) (tidy : d.isTidy = true)
    (reads : ∀ world, admits world → world.Reads d)
    (live : r.1.store.isStale ctx.generation = false)
    (attested : r.1.store.index.Attested d ctx.policy linked)
    (retains : Retains d known top r.1.store.index)
    (goesOn : ∀ task, r.2 = .waiting task → task.Surveys d ctx.policy known top) {before : Path → Prop}
    (owed : ∀ q, r.1.store.index.Lacks d ctx.policy q →
      before q ∨ (lacking d ctx.policy top).OwesNext r.2 q)
    (lacks : s.store.index.Lacks d ctx.policy q) : before q := by
  generalize ends : Except.ok changed = result at served
  induction served with
  | finished s result =>
    rcases owed q lacks with before | ⟨_, waits, _⟩
    · exact before
    · cases waits
  | @step s s' task r world result admitted moved rest ih =>
    have reads := reads world admitted
    have surveys := goesOn task rfl
    have step := moved.surveyed tidy live reads attested retains surveys
    refine ih ((moved.edits.isStale _).trans live) step.attested (retains.after step.kept) step.goesOn
      (fun q lacks => ?_) lacks ends
    rcases moved.settles_or_fails (lacking d ctx.policy top)
      (Task.Surveys.hereditary d ctx.policy known top) live
      (fun task r moved single surveys q lacks =>
        moved.lacks_single single tidy live reads attested surveys lacks) surveys q lacks with
      ⟨lacked, unawaited⟩ | owes | ⟨⟨e, failed⟩, _⟩
    · rcases owed q lacked with before | ⟨_, waits, awaits⟩
      · exact Or.inl before
      · cases waits
        exact absurd awaits unawaited
    · exact Or.inr owes
    · subst ends
      exact absurd failed (rest.fine e)

/-- The first crawl of a root leaves an attested index, changes nothing beyond the root and knows the
root exactly if the policy takes it in, however it ends.  If it ends well, what the index lacks then it
has lacked before. -/
theorem Served.root_surveyed {admits : World → Prop} {root : Path} {st : Status} {s s' : Scope}
    {result : Except IndexError Bool}
    (served : Served ctx admits (ctx.addDirectory root st s) s' result) (tidy : d.isTidy = true)
    (reads : ∀ world, admits world → world.Reads d)
    (live : s.store.isStale ctx.generation = false) (plain : root.Plain)
    (told : d.stat root.spelling = .ok st) (kind : st.kind = .directory) (anchor : linked root)
    (attested : s.store.index.Attested d ctx.policy linked) :
    Surveyed d ctx.policy linked (· ∈ s.store.index.directories) root s.store.index s'.store.index
        (.finished result) ∧
      (root ∈ s'.store.index.directories ↔ ctx.policy.ignores root .directory = false) ∧
      ∀ changed, result = .ok changed → ∀ q, s'.store.index.Lacks d ctx.policy q →
        s.store.index.Lacks d ctx.policy q := by
  have taken : ∀ {ix : Index}, ix.Attested d ctx.policy linked → root ∈ ix.directories →
      ctx.policy.ignores root .directory = false := by
    intro ix attested known
    obtain ⟨st, kind, attests⟩ := attested.directory known
    exact kind ▸ attests.taken
  have still := ((@edits_addDirectory ctx root st s).isStale ctx.generation).trans live
  rcases addDirectory_outcome live root st with ⟨kept, index, ends⟩ | ⟨⟨changed, takes⟩, index, goesOn⟩
  · generalize ctx.addDirectory root st s = r at served index ends
    obtain ⟨s₁, next⟩ := r
    obtain rfl : next = .finished (.ok false) := ends
    cases served
    rw [show s'.store.index = s.store.index from index]
    refine ⟨.ended attested _, ⟨taken attested, fun takes => ?_⟩, fun _ _ q lacks => lacks⟩
    have unchanged := kept.resolve_right (by simp [takes])
    refine attested.mem_directories ?_ ⟨st, told, kind⟩
    by_contra unknown
    simp [Index.hasChanged, Index.status?_eq_none.2 unknown] at unchanged
  · have unknown : ¬ s.store.index.Known root := by
      intro known
      cases (attested.unchanged known told).symm.trans changed
    have absent : s.store.index.isDirectory root = false := by
      simpa using fun directory => unknown (Or.inr (Index.isDirectory_iff.1 directory))
    rw [absent] at goesOn
    have crossed : Crossed d ctx.policy (· ∈ s.store.index.directories) root root :=
      .root plain ⟨st, told, kind⟩ (fun directory => unknown (Or.inr directory)) takes
    have surveys : ∀ task, (ctx.addDirectory root st s).2 = .waiting task →
        task.Surveys d ctx.policy (· ∈ s.store.index.directories) root := by
      intro task waits
      rcases goesOn with next | next
      · cases next.symm.trans waits
        exact .subscribe crossed
      · cases next.symm.trans waits
        exact .list crossed
    have first : Surveyed d ctx.policy linked (· ∈ s.store.index.directories) root s.store.index
        (ctx.addDirectory root st s).1.store.index (ctx.addDirectory root st s).2 := by
      rw [index]
      exact .registered attested crossed kind ⟨plain, told, kind ▸ takes, Or.inr anchor⟩ surveys
    have crawl := served.surveyed tidy reads still first.attested first.kept surveys
    refine ⟨first.trans crawl, ⟨fun _ => takes, fun _ => ?_⟩, ?_⟩
    · exact crawl.kept root (index ▸ by simp) (.self d root)
    · rintro changed rfl q lacks
      refine served.lacks tidy reads still first.attested first.kept surveys (fun q lacks => ?_) lacks
      rw [index] at lacks
      obtain ⟨_, before | parent⟩ := lacks.of_insertDirectory
      · exact Or.inl before
      · rcases goesOn with next | next
        · exact Or.inr ⟨_, next, Task.Awaits.subscribe false parent⟩
        · exact Or.inr ⟨_, next, Task.Awaits.list false parent⟩

end

end Crawl

end ProjectIndex
