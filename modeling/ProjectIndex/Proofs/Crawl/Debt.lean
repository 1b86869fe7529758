import ProjectIndex.Proofs.Crawl.Obligations

/-!
# What a crawl still owes

A task awaits the paths whose entry it still asks the disk about.  On a disk that does not change,
a path that is outdated after a move was outdated before or is awaited afterwards, and the path that
was asked about is not outdated any more.
-/

namespace ProjectIndex.Crawl

/-- The task still asks the disk about the path, as far as can be said before it lists. -/
inductive Task.Awaits : Task → Path → Prop where
  | begin (p : Path) : Awaits (.begin p) p
  | entry (p : Path) : Awaits (.entry p) p
  | subscribe {d q : Path} (known : Bool) (parent : q.parent = some d) :
      Awaits (.subscribe d known) q
  | list {d q : Path} (known : Bool) (parent : q.parent = some d) : Awaits (.list d known) q
  | current {d q : Path} {current : Task} {queue rest : List Path} (awaits : Awaits current q) :
      Awaits (.inOrder d current queue rest) q
  | later {d q : Path} {current : Task} {queue rest : List Path} (member : q ∈ queue ++ rest) :
      Awaits (.inOrder d current queue rest) q
  | running {d q : Path} {task : Task} {running : List Task} {failure : Option IndexError}
      (member : task ∈ running) (awaits : Awaits task q) : Awaits (.together d running failure) q

/-- The visits of a crawl: a path that is outdated has to be visited by a task that awaits it. -/
def visits (site : Site) : Obligation where
  due := Outdated site
  owes := Task.Awaits
  begin p q := by
    constructor <;> intro awaits <;> cases awaits <;> constructor
  inOrder d current queue rest q := by
    constructor
    · intro awaits
      cases awaits with
      | current awaits => exact Or.inl awaits
      | later member => exact Or.inr ⟨q, member, .entry q⟩
    · rintro (awaits | ⟨p, member, awaits⟩)
      · exact .current awaits
      · cases awaits
        exact .later member
  together d running failure q := by
    constructor
    · intro awaits
      cases awaits with
      | running member awaits => exact ⟨_, member, awaits⟩
    · rintro ⟨task, member, awaits⟩
      exact .running member awaits

section

variable {site : Site} {old : Path → Status → Prop} {ctx : Context} {s : Scope} {p d : Path}

/-- What is told about a path that the crawl of the tree comes to is what the index says next. -/
theorem Finding.agrees {ix ix' : Index} {next : Progress} (finding : Finding site p ix ix' next)
    (faithful : site.Faithful) (succeeds : Succeeds site old) (sourced : Sourced site old ix)
    (reaches : site.Reaches p) : Agrees site ix' p := by
  have wants := fun st => @Site.wants_iff site p st faithful reaches
  cases finding with
  | gone told _ unknown _ =>
    refine agrees_of_unknown unknown fun st wanted => ?_
    cases told.symm.trans wanted.told
  | failed told other same _ =>
    refine agrees_of_unknown ?_ fun st wanted => ?_
    · rw [same]
      cases found : ix.status? p with
      | none => rfl
      | some st =>
        rcases (sourced p st found).1 with before | now
        · rw [succeeds.gone p st _ reaches before told] at other
          cases other
        · cases told.symm.trans now
    · cases told.symm.trans wanted.told
  | special told kind unknown _ =>
    refine agrees_of_unknown unknown fun st wanted => ?_
    cases told.symm.trans wanted.told
    exact wanted.kind kind
  | @taken st cleared told kind left taken =>
    cases taken with
    | written takes _ statuses _ _ _ =>
      exact agrees_of_status ((statuses p).trans (if_pos rfl)) ((wants st).2 ⟨told, kind, takes⟩)
    | passed kept same _ =>
      subst same
      cases found : ix'.status? p with
      | none =>
        refine agrees_of_unknown found fun st' wanted => ?_
        cases told.symm.trans wanted.told
        rcases kept with unchanged | ignored
        · simp [Index.hasChanged, found] at unchanged
        · rw [wanted.takes] at ignored
          cases ignored
      | some st' =>
        obtain ⟨same, sameKind⟩ := left st' found
        obtain ⟨source, takes, _⟩ := sourced p st' (same ▸ found)
        rcases kept with unchanged | ignored
        · have sameTime : st'.mtime = st.mtime := by simpa [Index.hasChanged, found] using unchanged
          have known : st' = st := by
            rcases source with before | now
            · exact succeeds.noticed p st' st reaches before told sameKind sameTime
            · exact Except.ok.inj (now.symm.trans told)
          subst known
          exact agrees_of_status found ((wants st').2 ⟨told, kind, takes⟩)
        · rw [← sameKind, takes] at ignored
          cases ignored

/-- After an entry was examined it is not outdated, and below it only what is awaited is newly
outdated. -/
theorem examined_outdated (lists : site.Lists) (faithful : site.Faithful)
    (succeeds : Succeeds site old) (policy : ctx.policy = site.policy)
    (live : s.store.isStale ctx.generation = false) (sound : s.store.index.Sound site.root)
    (sourced : Sourced site old s.store.index) (hooked : s.store.index.Hooked site.root p)
    (reaches : site.Reaches p) {q : Path}
    (outdated : Outdated site (ctx.examined p (site.world.entry p) s).1.store.index q) :
    (Outdated site s.store.index q ∧ q ≠ p) ∨
      (visits site).OwesNext (ctx.examined p (site.world.entry p) s).2 q := by
  obtain ⟨reworked, _, undercut, finding⟩ :=
    examined_effect lists policy live sound hooked reaches.reached
  generalize (ctx.examined p (site.world.entry p) s) = r at outdated reworked undercut finding ⊢
  have agrees := finding.agrees faithful succeeds sourced reaches
  have other : q ≠ p := by
    rintro rfl
    exact outdated.1 agrees
  by_cases inside : p.Covers q
  · have notRoot : q ≠ site.root := by
      rintro rfl
      exact other (reaches.within.antisymm inside)
    obtain ⟨d, sd, parent, wants, directory, known⟩ := outdated.above_known notRoot
    have above : p.Covers d := (inside.eq_or_parent parent).resolve_left (Ne.symm other)
    by_cases here : d = p
    · subst here
      cases finding with
      | gone told | failed told => cases told.symm.trans wants.told
      | special told kind _ _ =>
        cases told.symm.trans wants.told
        exact absurd kind wants.kind
      | taken told kind left taken =>
        cases told.symm.trans wants.told
        cases taken with
        | written _ _ _ _ asks _ =>
          obtain ⟨known, next | next⟩ := asks directory
          · exact Or.inr ⟨_, next, .subscribe known parent⟩
          · exact Or.inr ⟨_, next, .list known parent⟩
        | passed _ same _ =>
          have unchanged : r.1.store.index = s.store.index :=
            same.trans (left sd (same ▸ known)).1
          exact Or.inl ⟨unchanged ▸ outdated, other⟩
    · rcases undercut with same | none
      · refine Or.inl ⟨outdated.before (same q inside other) fun d' parent' => ?_, other⟩
        cases parent.symm.trans parent'
        exact same d above here
      · rw [none d above here] at known
        cases known
  · exact Or.inl ⟨outdated.outside reworked inside, other⟩

/-- After a directory was listed its entries are awaited, and nothing else is newly outdated. -/
theorem listed_outdated {known : Bool} (lists : site.Lists) (faithful : site.Faithful)
    (policy : ctx.policy = site.policy) (live : s.store.isStale ctx.generation = false)
    (sound : s.store.index.Sound site.root) (directory : d ∈ s.store.index.directories)
    (opens : site.Opens d)
    (bare : known = false → ∀ c, c.parent = some d → ¬ s.store.index.Known c)
    (reaches : site.Reaches d) {q : Path}
    (outdated : Outdated site (ctx.listed d known (site.world.children d) s).1.store.index q) :
    (Outdated site s.store.index q ∧ q.parent ≠ some d) ∨
      (visits site).OwesNext (ctx.listed d known (site.world.children d) s).2 q := by
  have wanted := opens.wanted faithful reaches
  obtain ⟨cs, told⟩ := faithful.listed d wanted
  obtain ⟨reworked, _, effect⟩ := listed_effect lists policy live sound directory opens bare
  obtain ⟨next, swept⟩ := effect cs told
  rw [next]
  generalize (ctx.listed d known (site.world.children d) s).1.store.index = ix'
    at outdated reworked swept
  by_cases entry : q.parent = some d
  · by_cases onDisk : q ∈ cs
    · have left := (site.policy.arrange_perm cs).mem_iff.2 onDisk
      exact Or.inr ((visits site).owes_following left (.entry q))
    · refine absurd (agrees_of_unknown (swept.missing q q entry onDisk (.refl q)) fun st wants => ?_)
        outdated.1
      exact onDisk ((faithful.entries d cs wanted told q wants.reaches.reached entry).2 ⟨st, wants.told⟩)
  · refine Or.inl ⟨?_, entry⟩
    by_cases inside : d.Covers q
    · by_cases own : q = d
      · subst own
        refine outdated.before swept.own fun d' parent => reworked.outside d' ?_
        exact Path.not_covers_of_parent parent
      · have notRoot : q ≠ site.root := by
          rintro rfl
          exact own (reaches.within.antisymm inside)
        obtain ⟨d', sd, parent, wants, _, known⟩ := outdated.above_known notRoot
        have above : d.Covers d' := (inside.eq_or_parent parent).resolve_left (Ne.symm own)
        have deeper : d' ≠ d := by
          rintro rfl
          exact entry parent
        obtain ⟨c, child, covers⟩ := wants.below_entry reaches.within above deeper
        by_cases onDisk : c ∈ cs
        · refine outdated.before (swept.present c q child onDisk (covers.of_parent parent)) ?_
          intro d'' parent'
          cases parent.symm.trans parent'
          exact swept.present c d' child onDisk covers
        · rw [swept.missing c d' child onDisk covers] at known
          cases known
    · exact outdated.outside reworked inside

/-- The end of a wait that the status of no path hangs on passes the visits on that it owes. -/
theorem visits_aside {world : World} (live : s.store.isStale ctx.generation = false) {task : Task}
    {r : Scope × Progress} (moved : Task.Moves ctx world s task r) (single : task.Single)
    (entry : ∀ p, task ≠ .entry p) (list : ∀ d known, task ≠ .list d known) (q : Path)
    (outdated : Outdated site r.1.store.index q) :
    (Outdated site s.store.index q ∧ ¬ task.Awaits q) ∨ (visits site).OwesNext r.2 q := by
  cases moved with
  | begin e =>
    rw [addEntry_outcome live] at outdated ⊢
    by_cases own : q = e
    · exact Or.inr ⟨_, rfl, own ▸ .entry q⟩
    · refine Or.inl ⟨outdated, fun awaits => own ?_⟩
      cases awaits
      rfl
  | entry e => exact absurd rfl (entry e)
  | subscribe d known =>
    rw [subscribed_index] at outdated
    by_cases entry : q.parent = some d
    · exact Or.inr ⟨_, rfl, .list known entry⟩
    · refine Or.inl ⟨outdated, fun awaits => ?_⟩
      cases awaits with
      | subscribe _ parent => exact entry parent
  | list d known => exact absurd rfl (list d known)
  | project a root =>
    rw [(projectDeclared_outcome live a root (world.projectRemarks root)).1] at outdated
    exact Or.inl ⟨outdated, fun awaits => by cases awaits⟩
  | manifest a d =>
    refine Or.inl ⟨?_, fun awaits => by cases awaits⟩
    rcases (@manifest_effect { site with world } ctx s a d live).1 with same | ⟨D, installed⟩
    · exact same ▸ outdated
    · rw [installed] at outdated
      exact outdated.before rfl fun _ _ => rfl
  | inOrder | inOrderFailed | inOrderDone | together | togetherDone | togetherLast | togetherNone =>
    exact absurd single id

/-- The end of a single wait pays the visit that it was for, and what it makes outdated is awaited
afterwards. -/
theorem visits_single (lists : site.Lists) (faithful : site.Faithful)
    (succeeds : Succeeds site old) (policy : ctx.policy = site.policy)
    (live : s.store.isStale ctx.generation = false) (sound : s.store.index.Sound site.root)
    (sourced : Sourced site old s.store.index) {task : Task} {r : Scope × Progress}
    (moved : Task.Moves ctx site.world s task r) (single : task.Single)
    (fits : Task.Fits site s.store.index p task) (reaches : site.Reaches p) (q : Path)
    (outdated : Outdated site r.1.store.index q) :
    (Outdated site s.store.index q ∧ ¬ task.Awaits q) ∨ (visits site).OwesNext r.2 q := by
  cases fits with
  | entry hooked reached =>
    cases moved
    refine (examined_outdated lists faithful succeeds policy live sound sourced hooked reaches
      outdated).imp_left fun ⟨before, other⟩ => ⟨before, fun awaits => other ?_⟩
    cases awaits
    rfl
  | list directory opens bare =>
    cases moved
    refine (listed_outdated lists faithful policy live sound directory opens bare reaches
      outdated).imp_left fun ⟨before, other⟩ => ⟨before, fun awaits => ?_⟩
    cases awaits with
    | list _ parent => exact other parent
  | begin | subscribe | project | manifest =>
    exact visits_aside live moved single (by simp) (by simp) q outdated
  | inOrder | together => exact absurd single id

/-- Whatever moves, a path that is outdated afterwards was outdated before and is none of those that
were awaited, or it is awaited now. -/
theorem Task.Moves.pays {task : Task} {r : Scope × Progress}
    (moved : Task.Moves ctx site.world s task r) (lists : site.Lists) (faithful : site.Faithful)
    (succeeds : Succeeds site old) (policy : ctx.policy = site.policy)
    (live : s.store.isStale ctx.generation = false) (sound : s.store.index.Sound site.root)
    (sourced : Sourced site old s.store.index) (fits : Task.Fits site s.store.index p task)
    (reaches : site.Reaches p) (sure : task.Sure site) {q : Path}
    (outdated : Outdated site r.1.store.index q) :
    (Outdated site s.store.index q ∧ ¬ task.Awaits q) ∨ (visits site).OwesNext r.2 q := by
  refine moved.settles_tree (visits site) lists faithful policy live sound ?_ fits reaches sure q outdated
  intro p task r moved single fits reaches _ q outdated
  exact visits_single lists faithful succeeds policy live sound sourced moved single fits reaches q
    outdated

end

end ProjectIndex.Crawl
