import ProjectIndex.Proofs.Crawl.Excerpt

/-!
# Crawls that only add

A crawl of the tree finds everything that an excerpt knows as it is on disk.  So it takes nothing out,
registers only what was unknown, and asks for nothing twice: whatever moves, the index is an excerpt
afterwards and the books balance.  No entry has to be crawled only once for this, and it does not
matter which part of the tree was known before.

What the crawl finds it owes to visit and to declare, as every crawl does.  So a crawl that starts
where the excerpt lacks only its own root leaves nothing out.
-/

namespace ProjectIndex

structure Site.Meets (site : Site) (p : Path) : Prop where
  reaches : site.Reaches p
  told : ∃ st, site.world.entry p = .ok st

/-- Crawls go into the directories that the index should know. -/
theorem Site.WantsDirectory.opens {site : Site} {d : Path} (wanted : site.WantsDirectory d) :
    site.Opens d := by
  obtain ⟨st, wants, directory⟩ := wanted
  exact ⟨wants.reaches.reached, ⟨st, wants.told, directory⟩, directory ▸ wants.takes⟩

namespace Crawl

/-- The task deals with paths of the tree that are there, and whatever it has registered was unknown
before. -/
inductive Task.Adds (site : Site) (ix : Index) : Task → Prop where
  | begin {p : Path} (meets : site.Meets p) : Adds site ix (.begin p)
  | entry {p : Path} (meets : site.Meets p) : Adds site ix (.entry p)
  | subscribe {d : Path} (wanted : site.WantsDirectory d) : Adds site ix (.subscribe d false)
  | list {d : Path} (wanted : site.WantsDirectory d) : Adds site ix (.list d false)
  | project {a : Arrival} {root : Path} (new : a.previous = none) (file : a.path ∈ ix.files)
      (readable : ∃ bytes, site.world.contents a.path = .ok bytes) :
      Adds site ix (.project a root)
  | manifest {a : Arrival} {d : Declaration} (new : a.previous = none)
      (reads : ReadsOwn site ix a d) : Adds site ix (.manifest a d)
  | inOrder {d : Path} {current : Task} {queue rest : List Path} (first : Adds site ix current)
      (meets : ∀ q ∈ queue ++ rest, site.Meets q) : Adds site ix (.inOrder d current queue rest)
  | together {d : Path} {running : List Task} (each : ∀ task ∈ running, Adds site ix task) :
      Adds site ix (.together d running none)

structure Progress.Adds (site : Site) (ix : Index) (next : Progress) : Prop where
  unfailing : ∀ e, next ≠ .finished (.error e)
  goesOn : ∀ task, next = .waiting task → task.Adds site ix

section

variable {site : Site} {ix ix' : Index}

theorem Task.Adds.hereditary (site : Site) (ix : Index) : Task.Hereditary (Task.Adds site ix) where
  first adds := by
    cases adds with
    | inOrder first _ => exact first
  member adds member := by
    cases adds with
    | together each => exact each _ member

/-- What a task has registered stays where it is when other files are registered. -/
theorem Task.Adds.mono {task : Task} (adds : task.Adds site ix)
    (more : ∀ f, f ∈ ix.files → f ∈ ix'.files) : task.Adds site ix' := by
  induction adds with
  | begin meets => exact .begin meets
  | entry meets => exact .entry meets
  | subscribe wanted => exact .subscribe wanted
  | list wanted => exact .list wanted
  | project new file readable => exact .project new (more _ file) readable
  | manifest new reads => exact .manifest new ⟨more _ reads.file, reads.own⟩
  | inOrder _ meets ih => exact .inOrder ih meets
  | together _ ih => exact .together ih

theorem adds_waiting {task : Task} (adds : task.Adds site ix) :
    Progress.Adds site ix (.waiting task) where
  unfailing e failed := by cases failed
  goesOn task' waits := by
    cases waits
    exact adds

theorem adds_finished (changed : Bool) : Progress.Adds site ix (.finished (.ok changed)) where
  unfailing e failed := by cases failed
  goesOn task' waits := by cases waits

theorem adds_following {d : Path} {queue rest : List Path}
    (meets : ∀ q ∈ queue ++ rest, site.Meets q) : (following d queue rest).Adds site ix := by
  cases queue with
  | nil =>
    simp only [following]
    split
    · exact adds_finished true
    · refine adds_waiting (.together fun task member => ?_)
      obtain ⟨q, inRest, rfl⟩ := List.mem_map.1 member
      exact .begin (meets q (by simpa using inRest))
  | cons p queue =>
    exact adds_waiting (.inOrder (.entry (meets p (by simp))) fun q member => meets q (by simp_all))

/-- Once a file is registered and its project is asked for, or is not, its manifest is next if it is
one. -/
theorem adds_manifest {a : Arrival} (new : a.previous = none) (file : a.path ∈ ix.files)
    (readable : ∃ bytes, site.world.contents a.path = .ok bytes) :
    Progress.Adds site ix (if site.policy.layout.isOfInterest a.path then
      .waiting (.manifest a (.reading a.path (a.path.parent.getD a.path)))
      else .finished (.ok true)) := by
  split
  next interest =>
    refine adds_waiting (.manifest new ⟨file, fun path directory reading => ?_⟩)
    cases reading
    exact ⟨rfl, rfl, interest, readable⟩
  · exact adds_finished true

end

/-- The index is an excerpt again, the books balance, and the crawl goes on with a task that only
adds. -/
structure Accretes (site : Site) (s : Scope) (before : Path → Nat) (r : Scope × Progress) : Prop where
  excerpt : Excerpt site r.1.store.index
  accrual : Accrual s.store r.1.store before fun f => r.2.burden f
  adds : r.2.Adds site r.1.store.index

/-- What comes of an entry of the tree that is there: the index is right about it and nothing
happens, or it was unknown and is registered. -/
inductive Admits (site : Site) (ctx : Context) (p : Path) (s : Scope) : Scope × Progress → Prop where
  | passed {t : Scope} (right : Agrees site s.store.index p) (quiet : s.store.Quiet t.store)
      (calls : t.store.calls = s.store.calls) : Admits site ctx p s (t, .finished (.ok false))
  | directory {st : Status} (wants : site.Wants p st) (kind : st.kind = .directory)
      (unknown : ¬ s.store.index.Known p) :
      Admits site ctx p s
        ((s.update fun store =>
            { store with index := (store.index.insertDirectory p st true).1 }).update
          (·.askDirectory p),
        .waiting (.subscribe p false))
  | file {st : Status} (wants : site.Wants p st) (kind : st.kind = .file)
      (unknown : ¬ s.store.index.Known p) :
      Admits site ctx p s (ctx.declareFile ⟨p, st, none⟩
        (s.update fun store => { store with index := (store.index.insertFile p st true).1 }))

section

variable {site : Site} {ctx : Context} {s : Scope} {p : Path} {st : Status}

/-- A path that is unchanged is known as the disk has it. -/
theorem Excerpt.status?_of_unchanged (excerpt : Excerpt site s.store.index)
    (told : site.world.entry p = .ok st) (same : s.store.index.hasChanged p st = false) :
    s.store.index.status? p = some st := by
  cases found : s.store.index.status? p with
  | none => simp [Index.hasChanged, found] at same
  | some st' =>
    cases told.symm.trans (excerpt.wanted p st' found).told
    rfl

/-- Of a path that is known already nothing changed. -/
theorem Excerpt.status?_of_changed (excerpt : Excerpt site s.store.index)
    (told : site.world.entry p = .ok st) (changed : s.store.index.hasChanged p st = true) :
    s.store.index.status? p = none := by
  cases found : s.store.index.status? p with
  | none => rfl
  | some st' =>
    cases told.symm.trans (excerpt.wanted p st' found).told
    simp [Index.hasChanged, found] at changed

theorem admits_addDirectory (faithful : site.Faithful) (policy : ctx.policy = site.policy)
    (follows : ctx.follows = true) (live : s.store.isStale ctx.generation = false)
    (excerpt : Excerpt site s.store.index) (reaches : site.Reaches p)
    (told : site.world.entry p = .ok st) (kind : st.kind = .directory) :
    Admits site ctx p s (ctx.addDirectory p st s) := by
  have wants := @Site.wants_iff site p st faithful reaches
  have added := directoryAdded ctx p st s
  generalize ctx.addDirectory p st s = r at added ⊢
  cases added with
  | unchanged same =>
    have found := excerpt.status?_of_unchanged told same
    exact .passed (agrees_of_status found (excerpt.wanted p st found)) (.refl _) rfl
  | ignored changed denied =>
    have new := excerpt.status?_of_changed told changed
    refine .passed (agrees_of_unknown new fun st' wanted => ?_) (Store.quiet_log _ _) rfl
    cases told.symm.trans wanted.told
    rw [policy, ← kind, wanted.takes] at denied
    cases denied
  | withdrawn _ _ stale =>
    rw [live] at stale
    cases stale
  | subscribing changed taken =>
    have unknown := Index.status?_eq_none.1 (excerpt.status?_of_changed told changed)
    have absent : s.store.index.isDirectory p = false := by
      rw [← Bool.not_eq_true, Index.isDirectory_iff]
      exact fun directory => unknown (Or.inr directory)
    have wanted := wants.2 ⟨told, by simp [kind], by rw [← policy, kind, taken]⟩
    rw [absent]
    exact .directory wanted kind unknown
  | listing _ _ _ alone =>
    rw [follows] at alone
    cases alone

theorem admits_addFile (faithful : site.Faithful) (policy : ctx.policy = site.policy)
    (live : s.store.isStale ctx.generation = false) (excerpt : Excerpt site s.store.index)
    (reaches : site.Reaches p) (told : site.world.entry p = .ok st) (kind : st.kind = .file) :
    Admits site ctx p s (ctx.addFile p st s) := by
  have wants := @Site.wants_iff site p st faithful reaches
  have added := fileAdded ctx p st s
  generalize ctx.addFile p st s = r at added ⊢
  cases added with
  | unchanged same =>
    have found := excerpt.status?_of_unchanged told same
    exact .passed (agrees_of_status found (excerpt.wanted p st found)) (.refl _) rfl
  | ignored changed denied =>
    have new := excerpt.status?_of_changed told changed
    refine .passed (agrees_of_unknown new fun st' wanted => ?_) (.refl _) rfl
    cases told.symm.trans wanted.told
    rw [policy, ← kind, wanted.takes] at denied
    cases denied
  | withdrawn _ _ stale =>
    rw [live] at stale
    cases stale
  | registered changed taken =>
    have unknown := Index.status?_eq_none.1 (excerpt.status?_of_changed told changed)
    have blank : s.store.index.files[p]? = none :=
      Std.ExtTreeMap.getElem?_eq_none fun file => unknown (Or.inl file)
    have wanted := wants.2 ⟨told, by simp [kind], by rw [← policy, kind, taken]⟩
    rw [blank]
    exact .file wanted kind unknown

/-- What the disk tells of an entry never contradicts an excerpt. -/
theorem admits_examined (faithful : site.Faithful) (policy : ctx.policy = site.policy)
    (follows : ctx.follows = true) (live : s.store.isStale ctx.generation = false)
    (excerpt : Excerpt site s.store.index) (meets : site.Meets p) :
    Admits site ctx p s (ctx.examined p (site.world.entry p) s) := by
  obtain ⟨reaches, st, told⟩ := meets
  obtain ⟨s', origin, examined⟩ := @examined_told ctx p st s
  have kept : s' = s := by
    rcases origin with ⟨same, _⟩ | ⟨_, old, found, other⟩
    · exact same
    · cases told.symm.trans (excerpt.wanted p old found).told
      exact absurd rfl other
  subst kept
  rw [told, examined]
  split
  next kind => exact admits_addDirectory faithful policy follows live excerpt reaches told kind
  next kind => exact admits_addFile faithful policy live excerpt reaches told kind
  next kind =>
    refine .passed ?_ (.refl _) rfl
    have unwanted : ∀ st', ¬ site.Wants p st' := by
      intro st' wants
      cases told.symm.trans wants.told
      exact wants.kind kind
    refine agrees_of_unknown (Index.status?_eq_none.2 fun known => ?_) unwanted
    obtain ⟨st', found⟩ := Index.known_iff.1 known
    exact unwanted st' (excerpt.wanted p st' found)

/-- Everything that was unknown and is registered should be known. -/
theorem Admits.accretes {r : Scope × Progress} (admits : Admits site ctx p s r)
    (faithful : site.Faithful) (policy : ctx.policy = site.policy)
    (live : s.store.isStale ctx.generation = false) (excerpt : Excerpt site s.store.index) :
    Accretes site s (fun _ => 0) r := by
  cases admits with
  | passed right quiet calls =>
    exact ⟨quiet.index ▸ excerpt, .of_quiet quiet calls fun f => rfl, adds_finished false⟩
  | @directory st wants kind unknown =>
    exact ⟨excerpt.insertDirectory wants kind unknown, .directory unknown st,
      adds_waiting (.subscribe ⟨st, wants, kind⟩)⟩
  | @file st wants kind unknown =>
    have readable := faithful.contents p st wants kind
    have written := excerpt.insertFile wants kind unknown
    let t := s.update fun store => { store with index := (store.index.insertFile p st true).1 }
    have still : t.store.isStale ctx.generation = false := live
    have known : p ∈ t.store.index.files := by simp [t, Scope.update]
    have borne : Accrual s.store t.store (fun _ => 0) (fun f => if p = f then 1 else 0) :=
      .file unknown st
    obtain ⟨index, next⟩ := declareFile_outcome still ⟨p, st, none⟩
    refine ⟨index ▸ written, borne.trans (accrual_declareFile still rfl), ?_⟩
    rw [index]
    rcases next with ⟨root, next⟩ | next
    · rw [next]
      exact adds_waiting (.project rfl known readable)
    · rw [next, policy]
      exact adds_manifest rfl known readable

/-- After a path was registered as it should be, nothing but its entries is newly outdated. -/
theorem Outdated.before_written {ix ix' : Index} {q : Path} (outdated : Outdated site ix' q)
    (statuses : ∀ q, ix'.status? q = if q = p then some st else ix.status? q)
    (wants : site.Wants p st) (elsewhere : q.parent ≠ some p) :
    Outdated site ix q ∧ q ≠ p := by
  have other : q ≠ p := by
    rintro rfl
    exact outdated.1 (agrees_of_status ((statuses q).trans (if_pos rfl)) wants)
  refine ⟨outdated.before ((statuses q).trans (if_neg other)) fun d parent => ?_, other⟩
  refine (statuses d).trans (if_neg ?_)
  rintro rfl
  exact elsewhere parent

/-- The index is right about an entry that was taken in, and the entries of a directory that was
unknown are awaited. -/
theorem Admits.outdated {r : Scope × Progress} (admits : Admits site ctx p s r)
    (live : s.store.isStale ctx.generation = false) {q : Path}
    (outdated : Outdated site r.1.store.index q) :
    (Outdated site s.store.index q ∧ q ≠ p) ∨ (visits site).OwesNext r.2 q := by
  cases admits with
  | passed right quiet _ =>
    rw [quiet.index] at outdated
    refine Or.inl ⟨outdated, ?_⟩
    rintro rfl
    exact outdated.1 right
  | @directory st wants kind unknown =>
    by_cases entry : q.parent = some p
    · exact Or.inr ⟨_, rfl, .subscribe false entry⟩
    · exact Or.inl (outdated.before_written
        (Index.status?_insertDirectory (fun file => unknown (Or.inl file)) st) wants entry)
  | @file st wants kind unknown =>
    let t := s.update fun store => { store with index := (store.index.insertFile p st true).1 }
    have still : t.store.isStale ctx.generation = false := live
    rw [(declareFile_outcome still ⟨p, st, none⟩).1] at outdated
    refine Or.inl (outdated.before_written (Index.status?_insertFile s.store.index p st) wants ?_)
    intro entry
    rcases outdated.2 with rfl | ⟨d, parent, ⟨sd, above, directory⟩, _⟩
    · exact Path.not_covers_of_parent entry wants.within
    · cases entry.symm.trans parent
      cases wants.unique above
      rw [kind] at directory
      cases directory

theorem Admits.cheaper {weight : Path → Nat} {r : Scope × Progress}
    (admits : Admits site ctx p s r) (live : s.store.isStale ctx.generation = false) :
    r.2.cost weight < (Task.entry p).cost weight := by
  cases admits with
  | passed => simp [Progress.cost, Task.cost]
  | directory => simp [Progress.cost, Task.cost]
  | @file st wants kind unknown =>
    let t := s.update fun store => { store with index := (store.index.insertFile p st true).1 }
    have still : t.store.isStale ctx.generation = false := live
    rcases (declareFile_outcome still ⟨p, st, none⟩).2 with ⟨root, next⟩ | next
    · rw [next]
      simp only [Progress.cost, Task.cost]
      omega
    · rw [next]
      split
      · simp only [Progress.cost, Task.cost, Declaration.cost]
        omega
      · simp [Progress.cost, Task.cost]

/-- A directory that is listed loses nothing, and its entries are crawled next. -/
theorem listed_adding {d : Path} (faithful : site.Faithful) (policy : ctx.policy = site.policy)
    (live : s.store.isStale ctx.generation = false) (excerpt : Excerpt site s.store.index)
    (wanted : site.WantsDirectory d) :
    ∃ cs, site.world.children d = .ok cs ∧
      (ctx.listed d false (site.world.children d) s).1.store.index = s.store.index ∧
      (ctx.listed d false (site.world.children d) s).2 =
        following d (site.policy.arrange cs).1 (site.policy.arrange cs).2 := by
  obtain ⟨cs, told⟩ := faithful.listed d wanted
  refine ⟨cs, told, growth_list faithful live excerpt.orderly excerpt.original wanted, ?_⟩
  rcases listed_outcome live d false (site.world.children d) with ⟨_, failed, _⟩ | ⟨_, ok, _, next⟩
  · cases told.symm.trans failed
  · cases told.symm.trans ok
    rw [next, policy]

theorem accretes_listed {d : Path} (lists : site.Lists) (faithful : site.Faithful)
    (policy : ctx.policy = site.policy) (live : s.store.isStale ctx.generation = false)
    (excerpt : Excerpt site s.store.index) (wanted : site.WantsDirectory d) :
    Accretes site s (fun _ => 0) (ctx.listed d false (site.world.children d) s) := by
  obtain ⟨cs, told, index, next⟩ := listed_adding faithful policy live excerpt wanted
  refine ⟨index ▸ excerpt, ?_, ?_⟩
  · have listed : ctx.listed d false (site.world.children d) s =
        ctx.nextInOrder d (ctx.policy.arrange cs).1 (ctx.policy.arrange cs).2 s := by
      simp [told, Context.listed, Context.isStale, live]
    have burden : ∀ f, (ctx.listed d false (site.world.children d) s).2.burden f = 0 := by
      intro f
      rw [next, burden_following]
    refine .of_quiet ?_ ?_ burden
    · exact listed ▸ quiet_nextInOrder d _ _ s
    · exact listed ▸ (aside_nextInOrder d _ _ s).calls
  · rw [next]
    refine adds_following fun q member => ?_
    have onDisk := (site.policy.arrange_perm cs).mem_iff.1 member
    obtain ⟨parent, reached⟩ := (lists.entries d cs wanted.opens told).2 q onDisk
    exact ⟨wanted.entry ⟨parent, reached⟩,
      (faithful.entries d cs wanted told q reached parent).1 onDisk⟩

/-- The end of a single wait adds what it finds and nothing else. -/
theorem Task.Moves.accretes_single {task : Task} {r : Scope × Progress}
    (moved : Task.Moves ctx site.world s task r) (single : task.Single) (lists : site.Lists)
    (faithful : site.Faithful) (policy : ctx.policy = site.policy) (follows : ctx.follows = true)
    (live : s.store.isStale ctx.generation = false) (excerpt : Excerpt site s.store.index)
    (adds : task.Adds site s.store.index) : Accretes site s (fun f => task.burden f) r := by
  cases moved with
  | begin q =>
    cases adds with
    | begin meets =>
      rw [addEntry_outcome live]
      exact ⟨excerpt, .of_quiet (.refl _) rfl fun f => rfl, adds_waiting (.entry meets)⟩
  | entry q =>
    cases adds with
    | entry meets =>
      exact (admits_examined faithful policy follows live excerpt meets).accretes faithful policy
        live excerpt
  | subscribe d known =>
    cases adds with
    | subscribe wanted =>
      have quiet := quiet_subscribed d (site.world.watchDirectory d) s
      refine ⟨quiet.index ▸ excerpt, .of_quiet quiet ?_ fun f => rfl, adds_waiting (.list wanted)⟩
      unfold Context.subscribed
      split <;> rfl
  | list d known =>
    cases adds with
    | list wanted => exact accretes_listed lists faithful policy live excerpt wanted
  | project a root =>
    cases adds with
    | project new file readable =>
      have quiet := Store.quiet_projectDeclared s.store root
      let t := (s.remarkAll (site.world.projectRemarks root)).update (·.projectDeclared root)
      have still : t.store.isStale ctx.generation = false := (quiet.isStale _).trans live
      obtain ⟨index, next⟩ := projectDeclared_outcome live a root (site.world.projectRemarks root)
      have declared : Accrual s.store t.store (fun f => if a.path = f then 1 else 0)
          (fun f => if a.path = f then 1 else 0) :=
        .of_quiet quiet (Store.aside_projectDeclared _ _).calls fun f => rfl
      refine ⟨index ▸ excerpt, declared.trans (accrual_declareManifest still new), ?_⟩
      rw [index, next, policy]
      exact adds_manifest new file readable
  | manifest a d =>
    cases adds with
    | manifest new reads =>
      obtain ⟨index, next, fails⟩ := @manifest_effect site ctx s a d live
      have fine : ∀ e, (ctx.resume a (d.step ctx.policy site.world ctx.generation s)).2 ≠
          .finished (.error e) := by
        intro e failed
        obtain ⟨path, directory, cause, reading, unread⟩ := fails e failed
        obtain ⟨rfl, _, _, bytes, read⟩ := reads.own path directory reading
        cases unread.symm.trans read
      have stepped : Edits ctx s.store _ := edits_declaration site.world d s
      have read : Accrual s.store (d.step ctx.policy site.world ctx.generation s).1.store
          (fun f => if a.path = f then 1 else 0) (fun f => if a.path = f then 1 else 0) :=
        .of_calm (Declaration.calm_step _ _ _ _ _) (aside_declaration _ _ _ _ _) fun f => rfl
      have kept : Excerpt site
            (ctx.resume a (d.step ctx.policy site.world ctx.generation s)).1.store.index ∧
          a.path ∈
            (ctx.resume a (d.step ctx.policy site.world ctx.generation s)).1.store.index.files := by
        rcases index with same | ⟨D, installed⟩
        · exact same ▸ ⟨excerpt, reads.file⟩
        · exact installed ▸ ⟨excerpt.setManifest D, reads.file⟩
      refine ⟨kept.1, read.trans (accrual_resume new ((stepped.isStale _).trans live) fine),
        fine, fun task waits => ?_⟩
      obtain ⟨D, rfl | rfl⟩ := next task waits
      · exact .manifest new ⟨kept.2, fun _ _ reading => by cases reading⟩
      · exact .manifest new ⟨kept.2, fun _ _ reading => by cases reading⟩
  | inOrder | inOrderFailed | inOrderDone | together | togetherDone | togetherLast | togetherNone =>
    exact absurd single id

/-- Every move adds what it finds and nothing else. -/
theorem Task.Moves.accretes {task : Task} {r : Scope × Progress}
    (moved : Task.Moves ctx site.world s task r) (lists : site.Lists) (faithful : site.Faithful)
    (policy : ctx.policy = site.policy) (follows : ctx.follows = true)
    (live : s.store.isStale ctx.generation = false) (excerpt : Excerpt site s.store.index)
    (adds : task.Adds site s.store.index) : Accretes site s (fun f => task.burden f) r := by
  have single : ∀ {task : Task} {r : Scope × Progress}, Task.Moves ctx site.world s task r →
      task.Single → task.Adds site s.store.index → Accretes site s (fun f => task.burden f) r :=
    fun moved alone adds => moved.accretes_single alone lists faithful policy follows live excerpt adds
  induction moved with
  | begin q => exact single (.begin q) trivial adds
  | entry q => exact single (.entry q) trivial adds
  | subscribe d known => exact single (.subscribe d known) trivial adds
  | list d known => exact single (.list d known) trivial adds
  | project a root => exact single (.project a root) trivial adds
  | manifest a d => exact single (.manifest a d) trivial adds
  | inOrder d queue rest moved ih =>
    cases adds with
    | inOrder first meets =>
      obtain ⟨excerpt', accrual, next⟩ := ih first
      exact ⟨excerpt', accrual, adds_waiting (.inOrder (next.goesOn _ rfl) meets)⟩
  | inOrderFailed d queue rest moved ih =>
    cases adds with
    | inOrder first meets => exact absurd rfl ((ih first).adds.unfailing _)
  | @inOrderDone s' current changed d queue rest moved ih =>
    cases adds with
    | inOrder first meets =>
      obtain ⟨excerpt', accrual, _⟩ := ih first
      obtain ⟨index, next⟩ := nextInOrder_outcome ((moved.edits.isStale _).trans live) d queue rest
      refine ⟨index ▸ excerpt', accrual.trans ?_, next ▸ adds_following meets⟩
      refine .of_quiet (quiet_nextInOrder d queue rest s') (aside_nextInOrder d queue rest s').calls
        fun f => ?_
      rw [next, burden_following]
      rfl
  | @together s' task task' d before after failure moved ih =>
    cases adds with
    | together each =>
      obtain ⟨excerpt', accrual, next⟩ := ih (each task (by simp))
      refine ⟨excerpt', accrual.beside (fun f => Task.burdens f (before ++ after)) ?_ ?_,
        adds_waiting (.together fun other member => ?_)⟩
      · intro f
        simp only [Task.burden, burdens_append, Task.burdens]
        omega
      · intro f
        simp only [Progress.burden, Task.burden, burdens_append, Task.burdens]
        omega
      · rcases List.mem_cons.1 (List.perm_middle.mem_iff.1 member) with rfl | other
        · exact next.goesOn _ rfl
        · exact (each _ (List.perm_middle.mem_iff.2 (List.mem_cons_of_mem _ other))).mono accrual.files
  | @togetherDone s' task result d before after failure moved left ih =>
    cases adds with
    | together each =>
      obtain ⟨excerpt', accrual, next⟩ := ih (each task (by simp))
      cases result with
      | error e => exact absurd rfl (next.unfailing e)
      | ok changed =>
        refine ⟨excerpt', accrual.beside (fun f => Task.burdens f (before ++ after)) ?_ ?_,
          adds_waiting (.together fun other member => ?_)⟩
        · intro f
          simp only [Task.burden, burdens_append, Task.burdens]
          omega
        · intro f
          simp [Progress.burden, Task.burden]
        · exact (each _ (List.perm_middle.mem_iff.2 (List.mem_cons_of_mem _ member))).mono
            accrual.files
  | @togetherLast s' task result d failure moved ih =>
    cases adds with
    | together each =>
      obtain ⟨excerpt', accrual, next⟩ := ih (each task (by simp))
      cases result with
      | error e => exact absurd rfl (next.unfailing e)
      | ok changed =>
        have same := conclude_index d none s'
        refine ⟨same ▸ excerpt', ?_, adds_finished true⟩
        refine (accrual.beside (fun _ => 0) (fun f => rfl) fun f => rfl).trans ?_
        exact .of_quiet (quiet_conclude d none s') (aside_conclude d none s').calls fun f => rfl
  | togetherNone d failure =>
    cases adds with
    | together each =>
      have same := conclude_index d none s
      refine ⟨same ▸ excerpt, ?_, adds_finished true⟩
      exact .of_quiet (quiet_conclude d none s) (aside_conclude d none s).calls fun f => rfl

/-- The end of a single wait pays the visit that it was for, and the entries of what it registers are
awaited. -/
theorem visits_adding {task : Task} {r : Scope × Progress}
    (moved : Task.Moves ctx site.world s task r) (single : task.Single)
    (faithful : site.Faithful) (policy : ctx.policy = site.policy) (follows : ctx.follows = true)
    (live : s.store.isStale ctx.generation = false) (excerpt : Excerpt site s.store.index)
    (adds : task.Adds site s.store.index) (q : Path) (outdated : Outdated site r.1.store.index q) :
    (Outdated site s.store.index q ∧ ¬ task.Awaits q) ∨ (visits site).OwesNext r.2 q := by
  cases adds with
  | entry meets =>
    cases moved
    refine ((admits_examined faithful policy follows live excerpt meets).outdated live
      outdated).imp_left fun ⟨before, other⟩ => ⟨before, fun awaits => other ?_⟩
    cases awaits
    rfl
  | @list d wanted =>
    cases moved
    obtain ⟨cs, told, index, next⟩ := listed_adding faithful policy live excerpt wanted
    rw [index] at outdated
    rw [next]
    by_cases entry : q.parent = some d
    · obtain ⟨_, st, wants⟩ := excerpt.unknown_of_wrong outdated.1
      have onDisk := (faithful.entries d cs wanted told q wants.reaches.reached entry).2
        ⟨st, wants.told⟩
      exact Or.inr ((visits site).owes_following
        ((site.policy.arrange_perm cs).mem_iff.2 onDisk) (.entry q))
    · refine Or.inl ⟨outdated, fun awaits => ?_⟩
      cases awaits with
      | list _ parent => exact entry parent
  | begin | subscribe | project | manifest =>
    exact visits_aside live moved single (by simp) (by simp) q outdated
  | inOrder | together => exact absurd single id

/-- What the end of a single wait does to the manifests. -/
theorem growth_adding {task : Task} {r : Scope × Progress}
    (moved : Task.Moves ctx site.world s task r) (single : task.Single)
    (faithful : site.Faithful) (policy : ctx.policy = site.policy)
    (live : s.store.isStale ctx.generation = false) (excerpt : Excerpt site s.store.index)
    (adds : task.Adds site s.store.index) :
    Growth site task s.store.index r.1.store.index r.2 := by
  cases adds with
  | entry meets =>
    cases moved
    exact growth_entry policy live excerpt.original meets.told
  | list wanted =>
    cases moved
    rw [growth_list faithful live excerpt.orderly excerpt.original wanted]
    exact .idle fun f declares => by cases declares
  | manifest new reads =>
    refine growth_aside policy live moved single (by simp) (by simp) fun a d same => ?_
    cases same
    exact reads
  | begin | subscribe | project =>
    exact growth_aside policy live moved single (by simp) (by simp) (by simp)
  | inOrder | together => exact absurd single id

theorem cheaper_adding {bound : Nat} {task : Task} {r : Scope × Progress}
    (moved : Task.Moves ctx site.world s task r) (single : task.Single) (lists : site.Lists)
    (shallow : site.Shallow bound) (faithful : site.Faithful) (policy : ctx.policy = site.policy)
    (follows : ctx.follows = true) (live : s.store.isStale ctx.generation = false)
    (excerpt : Excerpt site s.store.index) (adds : task.Adds site s.store.index) :
    r.2.cost (site.weight bound) < task.cost (site.weight bound) := by
  cases adds with
  | entry meets =>
    cases moved
    exact (admits_examined faithful policy follows live excerpt meets).cheaper live
  | list wanted =>
    cases moved
    exact listed_cheaper lists shallow live wanted.opens
  | begin | subscribe | project | manifest =>
    exact moved.cheaper_aside live single (by simp) (by simp)
  | inOrder | together => exact absurd single id

end

/-- What crawls that only add have left when none is under way: `others` are the paths that may be
missing although the directory they are in is known. -/
structure Gathered (site : Site) (others : Path → Prop) (s : Store) : Prop where
  excerpt : Excerpt site s.index
  balanced : Balanced s fun _ => 0
  current : ∀ q, Outdated site s.index q → others q
  honest : ∀ d, ¬ (mistakes site).due s.index d
  declared : ∀ f, ¬ Undeclared site s.index f

/-- A crawl that only adds, under way. -/
structure Gathering (site : Site) (ctx : Context) (others : Path → Prop) (r : Scope × Progress) :
    Prop where
  live : r.1.store.isStale ctx.generation = false
  excerpt : Excerpt site r.1.store.index
  balanced : Balanced r.1.store fun f => r.2.burden f
  adds : r.2.Adds site r.1.store.index
  visiting : ∀ q, Outdated site r.1.store.index q → others q ∨ (visits site).OwesNext r.2 q
  declaring : Declaring site r

section

variable {site : Site} {ctx : Context} {others : Path → Prop} {s : Scope} {p : Path} {st : Status}

theorem Gathering.moved {task : Task} {r : Scope × Progress}
    (gathering : Gathering site ctx others (s, .waiting task))
    (moved : Task.Moves ctx site.world s task r) (lists : site.Lists) (faithful : site.Faithful)
    (policy : ctx.policy = site.policy) (follows : ctx.follows = true) :
    Gathering site ctx others r := by
  have live := gathering.live
  have excerpt := gathering.excerpt
  have adds := gathering.adds.goesOn task rfl
  have parts := Task.Adds.hereditary site s.store.index
  have unfailing : ∀ task r e, Task.Moves ctx site.world s task r →
      task.Adds site s.store.index → r.2 ≠ .finished (.error e) := fun task r e moved adds =>
    (moved.accretes lists faithful policy follows live excerpt adds).adds.unfailing e
  obtain ⟨excerpt', accrual, adds'⟩ := moved.accretes lists faithful policy follows live excerpt adds
  refine ⟨(moved.edits.isStale _).trans live, excerpt', gathering.balanced.accrues accrual, adds',
    fun q outdated => ?_, adds'.unfailing, fun d due => ?_, fun f due => ?_⟩
  · have paid := moved.settles (visits site) parts unfailing live
      (fun task r moved single adds => visits_adding moved single faithful policy follows live
        excerpt adds) adds q outdated
    rcases paid with ⟨before, unawaited⟩ | owes
    · rcases gathering.visiting q before with other | ⟨_, waits, awaits⟩
      · exact Or.inl other
      · cases waits
        exact absurd awaits unawaited
    · exact Or.inr owes
  · have paid := moved.settles (mistakes site) parts unfailing live
      (fun task r moved single adds d due => Or.inl ⟨(growth_adding moved single faithful policy live
        excerpt adds).honest due, id⟩) adds d due
    rcases paid with ⟨before, _⟩ | ⟨_, _, owes⟩
    · exact gathering.declaring.honest d before
    · exact owes
  · have paid := moved.settles (declarations site) parts unfailing live
      (fun task r moved single adds f due => (growth_adding moved single faithful policy live excerpt
        adds).declares due) adds f due
    rcases paid with ⟨before, unread⟩ | owes
    · obtain ⟨_, waits, declares⟩ := gathering.declaring.owed f before
      cases waits
      exact absurd declares unread
    · exact owes

/-- A crawl that starts at a directory of the tree, where nothing but the directory itself is missing
next to what is known. -/
theorem gathering_start (faithful : site.Faithful) (policy : ctx.policy = site.policy)
    (follows : ctx.follows = true) (live : s.store.isStale ctx.generation = false)
    (gathered : Gathered site (fun q => others q ∨ q = p) s.store) (wants : site.Wants p st)
    (kind : st.kind = .directory) :
    Gathering site ctx others (ctx.addDirectory p st s) := by
  have admits := admits_addDirectory faithful policy follows live gathered.excerpt wants.reaches
    wants.told kind
  obtain ⟨excerpt, accrual, adds⟩ := admits.accretes faithful policy live gathered.excerpt
  have growth : Growth site (.entry p) s.store.index (ctx.addDirectory p st s).1.store.index
      (ctx.addDirectory p st s).2 := growth_addDirectory live (fun f declares => by cases declares) st
  have edits := @edits_addDirectory ctx p st s
  refine ⟨(edits.isStale _).trans live, excerpt, gathered.balanced.accrues accrual, adds,
    fun q outdated => ?_, adds.unfailing, fun d due => gathered.honest d (growth.honest due),
    fun f due => ?_⟩
  · rcases admits.outdated live outdated with ⟨before, other⟩ | owes
    · exact Or.inl ((gathered.current q before).resolve_right other)
    · exact Or.inr owes
  · exact (growth.declares due).resolve_left fun before => gathered.declared f before.1

theorem Gathering.gathered {result : Except IndexError Bool}
    (gathering : Gathering site ctx others (s, .finished result)) : Gathered site others s.store where
  excerpt := gathering.excerpt
  balanced := gathering.balanced
  current q outdated := by
    refine (gathering.visiting q outdated).resolve_right ?_
    rintro ⟨_, waits, _⟩
    cases waits
  honest := gathering.declaring.honest
  declared f due := by
    obtain ⟨_, waits, _⟩ := gathering.declaring.owed f due
    cases waits

/-- Whatever the schedule is, a crawl that only adds ends well. -/
theorem Gathering.ends {bound : Nat} {start : Scope × Progress}
    (gathering : Gathering site ctx others start) (lists : site.Lists) (shallow : site.Shallow bound)
    (faithful : site.Faithful) (policy : ctx.policy = site.policy) (follows : ctx.follows = true)
    (schedule : Nat → List Nat) :
    ∃ n s result, after ctx site.world schedule start n = (s, .finished result) := by
  refine after_ends (site.weight bound) gathering (fun s task schedule now => ?_)
    fun s task schedule now => ?_
  · exact now.moved (Task.step_moves ctx site.world schedule task s) lists faithful policy follows
  · refine (Task.step_moves ctx site.world schedule task s).cheaper_of_single
      (Task.Adds.hereditary site s.store.index) now.live ?_ (now.adds.goesOn task rfl)
    exact fun task r moved single adds => cheaper_adding moved single lists shallow faithful policy
      follows now.live now.excerpt adds

theorem Gathering.result {start : Scope × Progress} (gathering : Gathering site ctx others start)
    (lists : site.Lists) (faithful : site.Faithful) (policy : ctx.policy = site.policy)
    (follows : ctx.follows = true) {schedule : Nat → List Nat} {n : Nat} {s' : Scope}
    {result : Except IndexError Bool}
    (ends : after ctx site.world schedule start n = (s', .finished result)) :
    (∃ changed, result = .ok changed) ∧ s'.store.isStale ctx.generation = false ∧
      Gathered site others s'.store := by
  have along := after_invariant gathering (fun s task schedule now =>
    now.moved (Task.step_moves ctx site.world schedule task s) lists faithful policy follows)
    schedule n
  rw [ends] at along
  refine ⟨?_, along.live, along.gathered⟩
  cases result with
  | ok changed => exact ⟨changed, rfl⟩
  | error e => exact absurd rfl (along.adds.unfailing e)

end

end Crawl

end ProjectIndex
