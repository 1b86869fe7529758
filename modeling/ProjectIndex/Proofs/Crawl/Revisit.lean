import ProjectIndex.Proofs.Crawl.WholeCrawls

/-!
# Crawls of a root that is known in part

The first crawl of a root may find that the index knows something below the root already, because
an earlier crawl failed on its way.  A path that is known with the kind and the time that it has now
is passed over, and the entries of a directory that is passed over are not looked at.  Everything
else is brought in line with the disk.

So the index is right in the end exactly if it was right about every path that is passed over, and
about the entries of each of them.  One half is the obligation of the visits that a crawl owes.  For the
other half, a crawl never visits an entry of a directory that it passes over, and what it does above
the directory leaves the directory and its entries alone.
-/

namespace ProjectIndex.Crawl

def PassedOver (site : Site) (ix : Index) (p : Path) : Prop :=
  ∃ st st', ix.status? p = some st ∧ site.Wants p st' ∧ st.kind = st'.kind ∧ st.mtime = st'.mtime

/-- The index is right about every path that is passed over and about the entries in it. -/
def Dependable (site : Site) (ix : Index) : Prop :=
  ∀ p, PassedOver site ix p → Agrees site ix p ∧ ∀ q, q.parent = some p → Agrees site ix q

/-- What is known is something that a crawl of the root may take in, and the disk says plainly what
of it is gone. -/
structure Revisitable (site : Site) (ix : Index) : Prop where
  sound : ix.Sound site.root
  known : ∀ p st, ix.status? p = some st → site.policy.ignores p st.kind = false ∧ site.region p
  gone : ∀ p st cause, site.Reaches p → ix.status? p = some st → site.world.entry p = .error cause →
    cause.isNotFound = true
  root : site.root ∉ ix.files

section

variable {site : Site} {ix : Index}

theorem Revisitable.sourced (revisitable : Revisitable site ix) :
    Sourced site (fun p st => ix.status? p = some st) ix :=
  fun p st found => ⟨Or.inl found, revisitable.known p st found⟩

theorem Revisitable.root_kind (revisitable : Revisitable site ix) {st : Status}
    (found : ix.status? site.root = some st) : st.kind = .directory := by
  rcases revisitable.sound.kind found with file | directory
  · exact absurd (revisitable.sound.mem_files.2 ⟨st, found, file⟩) revisitable.root
  · exact directory

/-- What a dependable index says is as good as what an earlier disk told. -/
theorem Dependable.succeeds (dependable : Dependable site ix) (revisitable : Revisitable site ix)
    (faithful : site.Faithful) : Succeeds site fun p st => ix.status? p = some st where
  noticed p st st' reaches found told kind mtime := by
    have special : st'.kind ≠ .unknown := by
      rw [← kind]
      rcases revisitable.sound.kind found with file | directory
      · simp [file]
      · simp [directory]
    have takes := (revisitable.known p st found).1
    have wants : site.Wants p st' :=
      (Site.wants_iff faithful reaches).2 ⟨told, special, kind ▸ takes⟩
    have agrees := (dependable p ⟨st, st', found, wants, kind, mtime⟩).1
    exact ((agrees st).1 found).unique wants
  gone := revisitable.gone

/-- Nothing but the root is outdated in a dependable index. -/
theorem Dependable.outdated_root (dependable : Dependable site ix) {q : Path}
    (outdated : Outdated site ix q) : q = site.root := by
  by_contra other
  obtain ⟨d, sd, parent, wants, _, found⟩ := outdated.above_known other
  exact outdated.1 ((dependable d ⟨sd, sd, found, wants, rfl, rfl⟩).2 q parent)

/-- A root that is passed over is right in a dependable index. -/
theorem Dependable.root_right (dependable : Dependable site ix)
    (revisitable : Revisitable site ix) {st : Status} (reached : site.region site.root)
    (told : site.world.entry site.root = .ok st) (kind : st.kind = .directory)
    (kept : ix.hasChanged site.root st = false ∨ site.policy.ignores site.root st.kind = true) :
    Agrees site ix site.root := by
  cases found : ix.status? site.root with
  | none =>
    refine agrees_of_unknown found fun st' wants => ?_
    rcases kept with unchanged | ignored
    · simp [Index.hasChanged, found] at unchanged
    · rw [kind, wants.root_taken] at ignored
      cases ignored
  | some old =>
    have oldKind := revisitable.root_kind found
    have takes := oldKind ▸ (revisitable.known _ _ found).1
    rcases kept with unchanged | ignored
    · have mtime : old.mtime = st.mtime := by simpa [Index.hasChanged, found] using unchanged
      have wants : site.Wants site.root st := .root reached told kind takes
      exact (dependable _ ⟨old, st, found, wants, oldKind.trans kind.symm, mtime⟩).1
    · rw [kind, takes] at ignored
      cases ignored

end

/-- The task waits at an entry of the directory, is going to come to one, or is going to list the
directory. -/
inductive Task.Approaches : Task → Path → Prop where
  | begin {p e : Path} (parent : e.parent = some p) : Approaches (.begin e) p
  | entry {p e : Path} (parent : e.parent = some p) : Approaches (.entry e) p
  | subscribe {p d : Path} (known : Bool) (here : d = p ∨ d.parent = some p) :
      Approaches (.subscribe d known) p
  | list {p d : Path} (known : Bool) (here : d = p ∨ d.parent = some p) : Approaches (.list d known) p
  | project {p : Path} {a : Arrival} (root : Path) (parent : a.path.parent = some p) :
      Approaches (.project a root) p
  | manifest {p : Path} {a : Arrival} (d : Declaration) (parent : a.path.parent = some p) :
      Approaches (.manifest a d) p
  | current {p d : Path} {current : Task} {queue rest : List Path} (enters : Approaches current p) :
      Approaches (.inOrder d current queue rest) p
  | later {p d e : Path} {current : Task} {queue rest : List Path} (member : e ∈ queue ++ rest)
      (parent : e.parent = some p) : Approaches (.inOrder d current queue rest) p
  | running {p d : Path} {task : Task} {running : List Task} {failure : Option IndexError}
      (member : task ∈ running) (enters : Approaches task p) : Approaches (.together d running failure) p

/-- The path and its entries are left as they are, and the crawl goes on without entering it. -/
structure Spares (p : Path) (ix : Index) (r : Scope × Progress) : Prop where
  own : r.1.store.index.status? p = ix.status? p
  entries : ∀ q, q.parent = some p → r.1.store.index.status? q = ix.status? q
  unentered : ∀ task, r.2 = .waiting task → ¬ task.Approaches p

section

variable {site : Site} {ctx : Context} {s : Scope} {task : Task} {p d e : Path}

/-- A task enters directories at or below its path, or the one that its path is in. -/
theorem Task.Fits.entered {ix : Index} {c : Path} (fits : Task.Fits site ix c task)
    (enters : task.Approaches p) : c.Covers p ∨ c.parent = some p := by
  induction fits with
  | begin | entry | project | manifest =>
    cases enters
    right
    assumption
  | subscribe =>
    cases enters with
    | subscribe _ here => exact here.imp_left fun (same : _ = p) => same ▸ .refl _
  | list =>
    cases enters with
    | list _ here => exact here.imp_left fun (same : _ = p) => same ▸ .refl _
  | @inOrder d c current queue rest directory opens first distinct entries ih =>
    cases enters with
    | current enters =>
      have parent := (entries c (by simp)).1
      rcases ih enters with covers | same
      · exact Or.inl ((Path.covers_of_parent parent).trans covers)
      · exact Or.inl (Option.some.inj (parent.symm.trans same) ▸ .refl _)
    | later member same =>
      have parent := (entries _ (List.mem_cons_of_mem _ member)).1
      exact Or.inl (Option.some.inj (parent.symm.trans same) ▸ .refl _)
  | together placed shape directory opens each distinct entries ih =>
    cases enters with
    | running member enters =>
      subst shape
      obtain ⟨x, inside, rfl⟩ := List.mem_map.1 member
      have parent := (entries x inside).1
      rcases ih x inside enters with covers | same
      · exact Or.inl ((Path.covers_of_parent parent).trans covers)
      · exact Or.inl (Option.some.inj (parent.symm.trans same) ▸ .refl _)

theorem enters_following {queue rest : List Path} (waits : following d queue rest = .waiting task)
    (enters : task.Approaches p) : ∃ c ∈ queue ++ rest, c.parent = some p := by
  cases queue with
  | nil =>
    simp only [following] at waits
    split at waits
    · cases waits
    · cases waits
      cases enters with
      | running member enters =>
        obtain ⟨c, inside, rfl⟩ := List.mem_map.1 member
        cases enters with
        | begin parent => exact ⟨c, inside, parent⟩
  | cons c queue =>
    cases waits
    cases enters with
    | current enters =>
      cases enters with
      | entry parent => exact ⟨c, by simp, parent⟩
    | later member parent => exact ⟨_, List.mem_cons_of_mem _ member, parent⟩

/-- What is done elsewhere spares the path. -/
theorem Reworked.spares {ix : Index} {r : Scope × Progress}
    (reworked : Reworked site e ix r.1.store.index)
    (goesOn : ∀ task, r.2 = .waiting task → Task.Fits site r.1.store.index e task)
    (out : ¬ e.Covers p) (other : e.parent ≠ some p) : Spares p ix r where
  own := reworked.outside p out
  entries q parent := by
    refine reworked.outside q fun covers => (covers.eq_or_parent parent).elim ?_ out
    rintro rfl
    exact other parent
  unentered task waits enters := ((goesOn task waits).entered enters).elim out other

/-- Taking in a directory above a path spares the path. -/
theorem Taken.spares {ix : Index} {st : Status} {r : Scope × Progress}
    (taken : Taken site e st ix r.1.store.index r.2) (directory : st.kind = .directory)
    (covers : e.Covers p) (other : e ≠ p) : Spares p ix r where
  own := taken.below (Ne.symm other)
  entries q parent := by
    refine taken.below ?_
    rintro rfl
    exact Path.not_covers_of_parent parent covers
  unentered task waits enters := by
    have apart : ¬ (e = p ∨ e.parent = some p) := by
      rintro (same | parent)
      · exact other same
      · exact Path.not_covers_of_parent parent covers
    cases taken with
    | passed _ _ ends =>
      obtain ⟨changed, ends⟩ := ends
      cases ends.symm.trans waits
    | written _ _ _ _ next _ =>
      obtain ⟨known, next | next⟩ := next directory
      · cases next.symm.trans waits
        cases enters with
        | subscribe _ here => exact apart here
      · cases next.symm.trans waits
        cases enters with
        | list _ here => exact apart here

/-- What is known of a path at or above one that is passed over has the kind that it should have. -/
theorem PassedOver.above {ix : Index} (passed : PassedOver site ix p) (sound : ix.Sound site.root)
    (under : site.root.Covers e) (covers : e.Covers p) (other : e ≠ p) :
    ∃ old st, ix.status? e = some old ∧ old.kind = .directory ∧ site.Wants e st ∧
      st.kind = .directory := by
  obtain ⟨old, st, found, wants, _⟩ := passed
  have known := Index.known_iff.2 ⟨old, found⟩
  have directory := sound.directory_above under covers (Ne.symm other) known
  obtain ⟨old', found', kind⟩ := sound.mem_directories.1 directory
  obtain ⟨st', wants', kind'⟩ := wants.directory_above under covers (Ne.symm other)
  exact ⟨old', st', found', kind, wants', kind'⟩

/-- A path that is passed over when it is examined stays as it is. -/
theorem examined_passedOver (live : s.store.isStale ctx.generation = false)
    (passed : PassedOver site s.store.index p) :
    (ctx.examined p (site.world.entry p) s).1.store.index = s.store.index ∧
      (ctx.examined p (site.world.entry p) s).2 = .finished (.ok false) := by
  obtain ⟨old, st, found, wants, kind, mtime⟩ := passed
  have unchanged : s.store.index.hasChanged p st = false := by
    simp [Index.hasChanged, found, mtime]
  obtain ⟨s', live', index, examined⟩ := examined_ok live p st
  have same : s'.store.index = s.store.index := by simpa [Index.clearedFor, found, kind] using index
  rw [wants.told, examined]
  cases kinds : st.kind with
  | unknown => exact absurd kinds wants.kind
  | directory =>
    rcases addDirectory_outcome live' p st with ⟨_, left, ends⟩ | ⟨⟨changed, _⟩, _⟩
    · exact ⟨left.trans same, ends⟩
    · rw [same, unchanged] at changed
      cases changed
  | file =>
    rcases addFile_outcome live' p st with ⟨_, left, ends⟩ | ⟨⟨changed, _⟩, _⟩
    · exact ⟨left.trans same, ends⟩
    · rw [same, unchanged] at changed
      cases changed

theorem examined_spares (lists : site.Lists) (policy : ctx.policy = site.policy)
    (live : s.store.isStale ctx.generation = false) (sound : s.store.index.Sound site.root)
    (hooked : s.store.index.Hooked site.root e) (reached : site.region e)
    (passed : PassedOver site s.store.index p) (other : e.parent ≠ some p) :
    Spares p s.store.index (ctx.examined e (site.world.entry e) s) := by
  by_cases covers : e.Covers p
  · by_cases here : e = p
    · subst here
      obtain ⟨same, ends⟩ := examined_passedOver live passed
      refine ⟨by rw [same], fun q _ => by rw [same], fun task waits => ?_⟩
      cases ends.symm.trans waits
    · obtain ⟨old, st, found, kind, wants, directory⟩ :=
        passed.above sound (lists.below e reached) covers here
      obtain ⟨s', live', index, examined⟩ := examined_ok live e st
      have same : s'.store.index = s.store.index := by
        simpa [Index.clearedFor, found, kind, directory] using index
      have noFile : e ∉ s'.store.index.files := by
        rw [same]
        intro file
        exact sound.apart e file (sound.mem_directories.2 ⟨old, found, kind⟩)
      have taken := addDirectory_taken lists policy live' (same ▸ sound) (same ▸ hooked) reached
        wants.told directory noFile
      rw [wants.told, examined, directory]
      exact same ▸ taken.spares directory covers here
  · have effect := examined_effect lists policy live sound hooked reached
    exact effect.reworked.spares effect.goesOn covers other

/-- A directory above a path that is passed over is listed: what is on the way to the path is on the
list. -/
theorem listed_spares {known : Bool} (lists : site.Lists) (faithful : site.Faithful)
    (policy : ctx.policy = site.policy) (live : s.store.isStale ctx.generation = false)
    (sound : s.store.index.Sound site.root) (directory : d ∈ s.store.index.directories)
    (opens : site.Opens d)
    (bare : known = false → ∀ c, c.parent = some d → ¬ s.store.index.Known c)
    (passed : PassedOver site s.store.index p) (other : ¬ (d = p ∨ d.parent = some p)) :
    Spares p s.store.index (ctx.listed d known (site.world.children d) s) := by
  have effect := listed_effect lists policy live sound directory opens bare
  by_cases covers : d.Covers p
  · obtain ⟨_, st, _, wants, _⟩ := passed
    have under := lists.below d opens.reached
    have above : p ≠ d := fun same => other (Or.inl same.symm)
    have wanted := wants.directory_above under covers above
    obtain ⟨cs, told⟩ := faithful.listed d wanted
    obtain ⟨next, swept⟩ := effect.2.2 cs told
    obtain ⟨c, parent, covers'⟩ := wants.below_entry under covers above
    have onDisk : c ∈ cs := by
      have wantsEntry : ∃ sc, site.Wants c sc := by
        by_cases here : p = c
        · exact ⟨st, here ▸ wants⟩
        · obtain ⟨sc, wantsEntry, _⟩ := wants.directory_above (under.of_parent parent) covers' here
          exact ⟨sc, wantsEntry⟩
      obtain ⟨sc, wantsEntry⟩ := wantsEntry
      exact (faithful.entries d cs wanted told c wantsEntry.reaches.reached parent).2
        ⟨sc, wantsEntry.told⟩
    refine ⟨swept.present c p parent onDisk covers', fun q child => ?_, fun task waits enters => ?_⟩
    · exact swept.present c q parent onDisk (covers'.of_parent child)
    · obtain ⟨q, member, child⟩ := enters_following (next.symm.trans waits) enters
      have listed := (site.policy.arrange_perm cs).mem_iff.1 member
      have parent' := ((lists.entries d cs opens told).2 q listed).1
      exact above (Option.some.inj (child.symm.trans parent'))
  · exact effect.1.spares effect.2.1 covers fun parent => other (Or.inr parent)

/-- Every move of a task that does not enter a path that is passed over spares the path. -/
theorem Task.Moves.spares {r : Scope × Progress} {c : Path}
    (moved : Task.Moves ctx site.world s task r) (lists : site.Lists) (faithful : site.Faithful)
    (policy : ctx.policy = site.policy) (live : s.store.isStale ctx.generation = false)
    (sound : s.store.index.Sound site.root) (fits : Task.Fits site s.store.index c task)
    (passed : PassedOver site s.store.index p) (unentered : ¬ task.Approaches p) :
    Spares p s.store.index r := by
  induction moved generalizing c with
  | begin e =>
    rw [addEntry_outcome live]
    refine ⟨rfl, fun _ _ => rfl, fun task' waits enters => unentered ?_⟩
    cases waits
    cases enters with
    | entry parent => exact .begin parent
  | entry e =>
    cases fits with
    | entry hooked reached =>
      exact examined_spares lists policy live sound hooked reached passed fun parent =>
        unentered (.entry parent)
  | subscribe d known =>
    have index := subscribed_index d (site.world.watchDirectory d) s
    refine ⟨by rw [index], fun _ _ => by rw [index], fun task' waits enters => unentered ?_⟩
    cases waits
    cases enters with
    | list _ here => exact .subscribe known here
  | list d known =>
    cases fits with
    | list directory opens bare =>
      exact listed_spares lists faithful policy live sound directory opens bare passed fun here =>
        unentered (.list known here)
  | project a root =>
    obtain ⟨index, next⟩ := projectDeclared_outcome live a root (site.world.projectRemarks root)
    refine ⟨by rw [index], fun _ _ => by rw [index], fun task' waits enters => unentered ?_⟩
    rw [next] at waits
    split at waits
    · cases waits
      cases enters with
      | manifest _ parent => exact .project root parent
    · cases waits
  | manifest a d =>
    obtain ⟨index, next, _⟩ := @manifest_effect site ctx s a d live
    generalize ctx.resume a (d.step ctx.policy site.world ctx.generation s) = r at index next ⊢
    have same : ∀ q, r.1.store.index.status? q = s.store.index.status? q := by
      intro q
      rcases index with same | ⟨D, installed⟩
      · rw [same]
      · rw [installed]
        rfl
    refine ⟨same p, fun q _ => same q, fun task' waits enters => unentered ?_⟩
    obtain ⟨D, rfl | rfl⟩ := next task' waits
    · cases enters with
      | manifest _ parent => exact .manifest d parent
    · cases enters with
      | manifest _ parent => exact .manifest d parent
  | inOrder d queue rest moved ih =>
    cases fits with
    | inOrder directory opens first distinct entries =>
      have inner := ih first fun enters => unentered (.current enters)
      refine ⟨inner.own, inner.entries, fun task' waits enters => ?_⟩
      cases waits
      cases enters with
      | current enters => exact inner.unentered _ rfl enters
      | later member parent => exact unentered (.later member parent)
  | inOrderFailed d queue rest moved ih =>
    cases fits with
    | inOrder directory opens first distinct entries =>
      have inner := ih first fun enters => unentered (.current enters)
      exact ⟨inner.own, inner.entries, fun task' waits => by cases waits⟩
  | inOrderDone d queue rest moved ih =>
    cases fits with
    | inOrder directory opens first distinct entries =>
      have inner := ih first fun enters => unentered (.current enters)
      obtain ⟨index, next⟩ := nextInOrder_outcome ((moved.edits.isStale _).trans live) d queue rest
      refine ⟨index ▸ inner.own, index ▸ inner.entries, fun task' waits enters => ?_⟩
      obtain ⟨q, member, parent⟩ := enters_following (next.symm.trans waits) enters
      exact unentered (.later member parent)
  | @together s' task task' d before after failure moved ih =>
    cases fits with
    | together placed shape directory opens each distinct entries =>
      obtain ⟨pre, c, post, rfl, rfl, rfl⟩ := exists_place shape
      have inner := ih (each (c, task) (by simp)) fun enters => unentered (.running (by simp) enters)
      refine ⟨inner.own, inner.entries, fun _ waits enters => ?_⟩
      cases waits
      cases enters with
      | running member enters =>
        rcases List.mem_cons.1 (List.perm_middle.mem_iff.1 member) with rfl | others
        · exact inner.unentered _ rfl enters
        · refine unentered (.running ?_ enters)
          exact List.perm_middle.mem_iff.2 (List.mem_cons_of_mem _ others)
  | @togetherDone s' task result d before after failure moved left ih =>
    cases fits with
    | together placed shape directory opens each distinct entries =>
      obtain ⟨pre, c, post, rfl, rfl, rfl⟩ := exists_place shape
      have inner := ih (each (c, task) (by simp)) fun enters => unentered (.running (by simp) enters)
      refine ⟨inner.own, inner.entries, fun _ waits enters => ?_⟩
      cases waits
      cases enters with
      | running member enters =>
        refine unentered (.running ?_ enters)
        exact List.perm_middle.mem_iff.2 (List.mem_cons_of_mem _ member)
  | @togetherLast s' task result d failure moved ih =>
    cases fits with
    | together placed shape directory opens each distinct entries =>
      obtain ⟨pre, c, post, rfl, _, _⟩ := @exists_place placed [] [] task shape
      have inner := ih (each (c, task) (by simp)) fun enters => unentered (.running (by simp) enters)
      have index := conclude_index d (failure <|> failureOf result) s'
      refine ⟨index ▸ inner.own, index ▸ inner.entries, fun task' waits => ?_⟩
      exact absurd waits conclude_not_waiting
  | togetherNone d failure =>
    have index := conclude_index d failure s
    refine ⟨by rw [index], fun _ _ => by rw [index], fun task' waits => ?_⟩
    exact absurd waits conclude_not_waiting

end

section

variable {site : Site} {ctx : Context} {s : Scope} {st : Status}

/-- The crawl of a root starts with the root itself. -/
theorem rootCrawl_start (lists : site.Lists) (policy : ctx.policy = site.policy)
    (live : s.store.isStale ctx.generation = false)
    (revisitable : Revisitable site s.store.index) (reached : site.region site.root)
    (told : site.world.entry site.root = .ok st) (kind : st.kind = .directory) :
    Underway site ctx site.root s.store.index (ctx.addDirectory site.root st s) ∧
      (Dependable site s.store.index →
        Visiting site (fun p st => s.store.index.status? p = some st) (fun _ => False)
          (ctx.addDirectory site.root st s)) ∧
      ∀ p, PassedOver site s.store.index p →
        Spares p s.store.index (ctx.addDirectory site.root st s) := by
  have sound := revisitable.sound
  have taken := addDirectory_taken lists policy live sound (Or.inl rfl) reached told kind
    revisitable.root
  have reworked := taken.reworked sound told reached
  have edits : Edits ctx s.store (ctx.addDirectory site.root st s).1.store := edits_addDirectory _ _ s
  refine ⟨⟨(edits.isStale _).trans live, reworked, fun task => taken.goesOn⟩, fun dependable => ?_,
    fun p passed => ?_⟩
  · refine ⟨revisitable.sourced.reworked reworked, (taken.sure_root kind).goesOn, fun q outdated => ?_⟩
    exact Or.inr (taken.owes_entries (fun _ => dependable.outdated_root)
      (dependable.root_right revisitable reached told kind) reached told kind outdated)
  · obtain ⟨old, st', found, wants, _, mtime⟩ := passed
    by_cases here : site.root = p
    · subst here
      obtain rfl : st = st' := Except.ok.inj (told.symm.trans wants.told)
      rcases addDirectory_outcome live site.root st with ⟨_, same, ends⟩ | ⟨⟨changed, _⟩, _⟩
      · refine ⟨by rw [same], fun _ _ => by rw [same], fun task waits => ?_⟩
        cases ends.symm.trans waits
      · simp [Index.hasChanged, found, mtime] at changed
    · exact taken.spares kind wants.within here

/-- The index is right about everything when the crawl of a root has ended, exactly if it was
dependable before: what is passed over is as it was. -/
theorem rootCrawl_agrees_iff (lists : site.Lists) (faithful : site.Faithful)
    (policy : ctx.policy = site.policy) (live : s.store.isStale ctx.generation = false)
    (revisitable : Revisitable site s.store.index) (reached : site.region site.root)
    (told : site.world.entry site.root = .ok st) (kind : st.kind = .directory) {s' : Scope}
    {result : Except IndexError Bool}
    (served : Served ctx (· = site.world) (ctx.addDirectory site.root st s) s' result) :
    s'.store.index.Sound site.root ∧
      ((∀ p, Agrees site s'.store.index p) ↔ Dependable site s.store.index) := by
  have reaches : site.Reaches site.root := ⟨reached, Or.inl rfl⟩
  obtain ⟨start, owing, sparing⟩ :=
    rootCrawl_start lists policy live revisitable reached told kind
  have underway : Underway site ctx site.root s.store.index (s', .finished result) := by
    refine served.keeps start fun s task world r same moved now => ?_
    subst same
    exact now.moved moved lists policy
  refine ⟨underway.reworked.sound, fun agrees p passed => ?_, fun dependable => ?_⟩
  · have spares : Spares p s.store.index (s', .finished result) := by
      refine (served.keeps (P := fun r => Underway site ctx site.root s.store.index r ∧
        Spares p s.store.index r) ⟨start, sparing p passed⟩ ?_).2
      rintro s₁ task world r rfl moved ⟨now, spared⟩
      have still : PassedOver site s₁.store.index p := by
        obtain ⟨old, st', found, wants⟩ := passed
        exact ⟨old, st', spared.own.trans found, wants⟩
      have next := moved.spares lists faithful policy now.live now.reworked.sound (now.fits task rfl)
        still (spared.unentered task rfl)
      exact ⟨now.moved moved lists policy, next.own.trans spared.own,
        fun q parent => (next.entries q parent).trans (spared.entries q parent), next.unentered⟩
    refine ⟨(agrees p).congr spares.own.symm, fun q parent => ?_⟩
    exact (agrees q).congr (spares.entries q parent).symm
  · have succeeds := dependable.succeeds revisitable faithful
    have visiting := (served.keeps (P := fun r => Underway site ctx site.root s.store.index r ∧
      Visiting site (fun p st => s.store.index.status? p = some st) (fun _ => False) r)
      ⟨start, owing dependable⟩ (by
        rintro s task world r rfl moved ⟨now, visiting⟩
        exact ⟨now.moved moved lists policy,
          visiting.moved now moved lists faithful succeeds policy reaches⟩)).2
    refine agrees_everywhere underway.reworked.sound fun q outdated => ?_
    rcases visiting.owed q outdated with never | ⟨_, waits, _⟩
    · exact never
    · cases waits

end

end ProjectIndex.Crawl
