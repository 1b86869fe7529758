import ProjectIndex.Proofs.Crawl.Agreement
import ProjectIndex.Proofs.Crawl.Failing

/-!
# Crawls of the tree

A crawl of a path that belongs to the tree of a site does not fail: the disk answers every question
that it asks.  So nothing that it has begun is ever dropped, and what it has to take care of can be
put as an obligation: something is due in the index, and some task owes it.  If each single wait that
ends pays what it owes or passes it on, then so does a whole crawl, with any number of entries that
are crawled at once.
-/

namespace ProjectIndex.Crawl

/-- Nothing that the task asks the disk about fails, as far as can be said before it lists. -/
inductive Task.Sure (site : Site) : Task → Prop where
  | begin {p : Path} (told : ∃ st, site.world.entry p = .ok st) : Sure site (.begin p)
  | entry {p : Path} (told : ∃ st, site.world.entry p = .ok st) : Sure site (.entry p)
  | subscribe (d : Path) (known : Bool) : Sure site (.subscribe d known)
  | list (d : Path) (known : Bool) : Sure site (.list d known)
  | project {a : Arrival} (root : Path) (told : ∃ bytes, site.world.contents a.path = .ok bytes) :
      Sure site (.project a root)
  | manifest (a : Arrival) {d : Declaration}
      (told : ∀ path directory, d = .reading path directory →
        ∃ bytes, site.world.contents path = .ok bytes) : Sure site (.manifest a d)
  | inOrder {d : Path} {current : Task} {queue rest : List Path} (first : Sure site current)
      (told : ∀ q ∈ queue ++ rest, ∃ st, site.world.entry q = .ok st) :
      Sure site (.inOrder d current queue rest)
  | together {d : Path} {running : List Task} (each : ∀ task ∈ running, Sure site task) :
      Sure site (.together d running none)

structure Progress.Sure (site : Site) (next : Progress) : Prop where
  unfailing : ∀ e, next ≠ .finished (.error e)
  goesOn : ∀ task, next = .waiting task → task.Sure site

theorem sure_waiting {site : Site} {task : Task} (sure : task.Sure site) :
    Progress.Sure site (.waiting task) where
  unfailing e failed := by cases failed
  goesOn task' waits := by
    cases waits
    exact sure

theorem sure_finished {site : Site} (changed : Bool) :
    Progress.Sure site (.finished (.ok changed)) where
  unfailing e failed := by cases failed
  goesOn task' waits := by cases waits

theorem sure_following {site : Site} {d : Path} {queue rest : List Path}
    (told : ∀ q ∈ queue ++ rest, ∃ st, site.world.entry q = .ok st) :
    (following d queue rest).Sure site := by
  cases queue with
  | nil =>
    simp only [following]
    split
    · exact sure_finished true
    · refine sure_waiting (.together fun task member => ?_)
      obtain ⟨q, inRest, rfl⟩ := List.mem_map.1 member
      exact .begin (told q (by simpa using inRest))
  | cons p queue =>
    exact sure_waiting (.inOrder (.entry (told p (by simp))) fun q member => told q (by simp_all))

/-- A path of the tree that was asked about and is there leads to nothing that fails. -/
theorem Finding.sure {site : Site} {ix ix' : Index} {p : Path} {next : Progress}
    (finding : Finding site p ix ix' next) (faithful : site.Faithful) (reaches : site.Reaches p)
    (told : ∃ st, site.world.entry p = .ok st) : next.Sure site := by
  obtain ⟨st, told⟩ := told
  cases finding with
  | gone told' | failed told' => cases told.symm.trans told'
  | special _ _ _ ends =>
    obtain ⟨changed, rfl⟩ := ends
    exact sure_finished changed
  | taken told' kind left taken =>
    cases told.symm.trans told'
    cases taken with
    | passed _ _ ends =>
      obtain ⟨changed, rfl⟩ := ends
      exact sure_finished changed
    | written takes _ _ _ directory file =>
      cases kinds : st.kind with
      | unknown => exact absurd kinds kind
      | directory =>
        obtain ⟨known, rfl | rfl⟩ := directory kinds
        · exact sure_waiting (.subscribe p known)
        · exact sure_waiting (.list p known)
      | file =>
        have wants := (Site.wants_iff faithful reaches).2 ⟨told, kind, takes⟩
        have contents := faithful.contents p st wants kinds
        rcases file kinds with ⟨a, root, rfl, rfl⟩ | ⟨a, rfl, rfl⟩ | ⟨_, rfl⟩
        · exact sure_waiting (.project root contents)
        · refine sure_waiting (.manifest a fun path directory reading => ?_)
          cases reading
          exact contents
        · exact sure_finished true

/-- The entry that is crawled first is one of the tree. -/
theorem Task.Fits.first {site : Site} {ix : Index} {p d : Path} {current : Task}
    {queue rest : List Path} (fits : Task.Fits site ix p (.inOrder d current queue rest))
    (faithful : site.Faithful) (reaches : site.Reaches p) :
    ∃ c, Task.Fits site ix c current ∧ site.Reaches c := by
  cases fits with
  | @inOrder _ c _ _ _ _ opens first _ entries =>
    exact ⟨c, first, (opens.wanted faithful reaches).entry (entries c (by simp))⟩

/-- Each of the entries that are crawled at once is one of the tree. -/
theorem Task.Fits.member {site : Site} {ix : Index} {p d : Path} {task : Task} {running : List Task}
    {failure : Option IndexError} (fits : Task.Fits site ix p (.together d running failure))
    (faithful : site.Faithful) (reaches : site.Reaches p) (member : task ∈ running) :
    ∃ c, Task.Fits site ix c task ∧ site.Reaches c := by
  cases fits with
  | together placed shape directory opens each distinct entries =>
    subst shape
    obtain ⟨⟨c, _⟩, inside, rfl⟩ := List.mem_map.1 member
    exact ⟨c, each _ inside, (opens.wanted faithful reaches).entry (entries _ inside)⟩

/-- A move of a crawl of the tree does not fail. -/
theorem Task.Moves.sure {site : Site} {ctx : Context} {s : Scope} {task : Task}
    {r : Scope × Progress} (moved : Task.Moves ctx site.world s task r) {p : Path}
    (lists : site.Lists) (faithful : site.Faithful) (policy : ctx.policy = site.policy)
    (live : s.store.isStale ctx.generation = false) (sound : s.store.index.Sound site.root)
    (fits : Task.Fits site s.store.index p task) (reaches : site.Reaches p)
    (sure : task.Sure site) : r.2.Sure site := by
  induction moved generalizing p with
  | begin q =>
    cases sure with
    | begin told =>
      rw [addEntry_outcome live]
      exact sure_waiting (.entry told)
  | entry q =>
    cases fits with
    | entry hooked reached =>
      cases sure with
      | entry told =>
        obtain ⟨_, _, _, finding⟩ := examined_effect lists policy live sound hooked reached
        exact finding.sure faithful reaches told
  | subscribe d known => exact sure_waiting (.list d known)
  | list d known =>
    cases fits with
    | list directory opens bare =>
      have wanted := opens.wanted faithful reaches
      obtain ⟨cs, told⟩ := faithful.listed d wanted
      obtain ⟨next, _⟩ := (listed_effect lists policy live sound directory opens bare).2.2 cs told
      rw [next]
      refine sure_following fun q member => ?_
      have onDisk := (site.policy.arrange_perm cs).mem_iff.1 member
      obtain ⟨parent, reached⟩ := (lists.entries d cs opens told).2 q onDisk
      exact (faithful.entries d cs wanted told q reached parent).1 onDisk
  | project a root =>
    cases sure with
    | project _ told =>
      rw [(projectDeclared_outcome live a root (site.world.projectRemarks root)).2]
      split
      · refine sure_waiting (.manifest a fun path directory reading => ?_)
        cases reading
        exact told
      · exact sure_finished true
  | manifest a d =>
    cases sure with
    | manifest _ told =>
      obtain ⟨_, next, fails⟩ := @manifest_effect site ctx s a d live
      refine ⟨fun e failed => ?_, fun task' waits => ?_⟩
      · obtain ⟨path, directory, cause, reading, unread⟩ := fails e failed
        obtain ⟨bytes, read⟩ := told path directory reading
        cases unread.symm.trans read
      · obtain ⟨D, rfl | rfl⟩ := next task' waits
        · exact .manifest a fun _ _ reading => by cases reading
        · exact .manifest a fun _ _ reading => by cases reading
  | inOrder d queue rest moved ih =>
    obtain ⟨c, first, entry⟩ := fits.first faithful reaches
    cases sure with
    | inOrder sureFirst told =>
      exact sure_waiting (.inOrder ((ih first entry sureFirst).goesOn _ rfl) told)
  | inOrderFailed d queue rest moved ih =>
    obtain ⟨c, first, entry⟩ := fits.first faithful reaches
    cases sure with
    | inOrder sureFirst _ => exact absurd rfl ((ih first entry sureFirst).unfailing _)
  | inOrderDone d queue rest moved ih =>
    cases sure with
    | inOrder _ told =>
      rw [(nextInOrder_outcome ((moved.edits.isStale _).trans live) d queue rest).2]
      exact sure_following told
  | @together s' task task' d before after failure moved ih =>
    obtain ⟨c, own, entry⟩ := fits.member faithful reaches (by simp : task ∈ before ++ task :: after)
    cases sure with
    | together sureEach =>
      have next := ih own entry (sureEach task (by simp))
      refine sure_waiting (.together fun other member => ?_)
      rcases List.mem_append.1 member with left | right
      · exact sureEach other (List.mem_append_left _ left)
      · rcases List.mem_cons.1 right with rfl | right
        · exact next.goesOn _ rfl
        · exact sureEach other (List.mem_append_right _ (List.mem_cons_of_mem _ right))
  | @togetherDone s' task result d before after failure moved left ih =>
    obtain ⟨c, own, entry⟩ := fits.member faithful reaches (by simp : task ∈ before ++ task :: after)
    cases sure with
    | together sureEach =>
      have next := ih own entry (sureEach task (by simp))
      cases result with
      | error e => exact absurd rfl (next.unfailing e)
      | ok changed =>
        refine sure_waiting (.together fun other member => ?_)
        rcases List.mem_append.1 member with left | right
        · exact sureEach other (List.mem_append_left _ left)
        · exact sureEach other (List.mem_append_right _ (List.mem_cons_of_mem _ right))
  | @togetherLast s' task result d failure moved ih =>
    obtain ⟨c, own, entry⟩ := fits.member faithful reaches (List.mem_singleton_self task)
    cases sure with
    | together sureEach =>
      have next := ih own entry (sureEach task (by simp))
      cases result with
      | error e => exact absurd rfl (next.unfailing e)
      | ok changed => exact sure_finished true
  | togetherNone d failure =>
    cases sure with
    | together each => exact sure_finished true

/-- Something that crawls take care of: where it is due, and which tasks owe it. -/
structure Obligation where
  due : Index → Path → Prop
  owes : Task → Path → Prop
  begin : ∀ p q, owes (.begin p) q ↔ owes (.entry p) q
  inOrder : ∀ d current queue rest q, owes (.inOrder d current queue rest) q ↔
    owes current q ∨ ∃ p ∈ queue ++ rest, owes (.entry p) q
  together : ∀ d running failure q, owes (.together d running failure) q ↔
    ∃ task ∈ running, owes task q

namespace Obligation

def OwesNext (obligation : Obligation) (next : Progress) (q : Path) : Prop :=
  ∃ task, next = .waiting task ∧ obligation.owes task q

theorem owes_following (obligation : Obligation) {d p q : Path} {queue rest : List Path}
    (member : p ∈ queue ++ rest) (owes : obligation.owes (.entry p) q) :
    obligation.OwesNext (following d queue rest) q := by
  cases queue with
  | nil =>
    have inRest : p ∈ rest := by simpa using member
    have some : rest ≠ [] := List.ne_nil_of_mem inRest
    refine ⟨.together d (rest.map .begin) none, by simp [following, some], ?_⟩
    refine (obligation.together _ _ _ _).2 ⟨.begin p, List.mem_map_of_mem inRest, ?_⟩
    exact (obligation.begin p q).2 owes
  | cons first queue =>
    refine ⟨.inOrder d (.entry first) queue rest, rfl, (obligation.inOrder _ _ _ _ _).2 ?_⟩
    rcases List.mem_cons.1 member with rfl | member
    · exact Or.inl owes
    · exact Or.inr ⟨p, member, owes⟩

/-- A task among others owes what it owes itself, and the others owe the rest. -/
theorem together_split (obligation : Obligation) {d q : Path} {before after : List Task} {task : Task}
    {failure : Option IndexError} :
    obligation.owes (.together d (before ++ task :: after) failure) q ↔
      obligation.owes task q ∨ ∃ other ∈ before ++ after, obligation.owes other q := by
  rw [obligation.together]
  constructor
  · rintro ⟨other, member, owes⟩
    rcases List.mem_append.1 member with left | right
    · exact Or.inr ⟨other, List.mem_append_left _ left, owes⟩
    · rcases List.mem_cons.1 right with rfl | right
      · exact Or.inl owes
      · exact Or.inr ⟨other, List.mem_append_right _ right, owes⟩
  · rintro (owes | ⟨other, member, owes⟩)
    · exact ⟨task, by simp, owes⟩
    · refine ⟨other, ?_, owes⟩
      rcases List.mem_append.1 member with left | right <;> simp [*]

end Obligation

/-- A failure of the last entry, or of one that ended before, is a failure of the directory. -/
theorem failed_or {failure : Option IndexError} {result : Except IndexError Bool} {e : IndexError}
    (failed : result = .error e) : ∃ e', (failure <|> failureOf result) = some e' := by
  subst failed
  cases failure with
  | none => exact ⟨e, rfl⟩
  | some first => exact ⟨first, rfl⟩

/-- If the end of each single wait pays what is owed or passes it on, then so does every move, unless
one of the tasks fails and the failure stays with the crawl. -/
theorem Task.Moves.settles_or_fails {ctx : Context} {world : World} {s : Scope} {task : Task}
    {r : Scope × Progress} (moved : Task.Moves ctx world s task r) (obligation : Obligation)
    {good : Task → Prop} (parts : Task.Hereditary good)
    (live : s.store.isStale ctx.generation = false)
    (single : ∀ task r, Task.Moves ctx world s task r → task.Single → good task →
      ∀ q, obligation.due r.1.store.index q →
        (obligation.due s.store.index q ∧ ¬ obligation.owes task q) ∨ obligation.OwesNext r.2 q)
    (fine : good task) (q : Path) (due : obligation.due r.1.store.index q) :
    (obligation.due s.store.index q ∧ ¬ obligation.owes task q) ∨ obligation.OwesNext r.2 q ∨
      ((∃ e, r.2.Failed e) ∧
        ∃ task r e, Task.Moves ctx world s task r ∧ good task ∧ r.2 = .finished (.error e)) := by
  induction moved with
  | begin e => exact (single _ _ (.begin e) trivial fine q due).imp_right Or.inl
  | entry e => exact (single _ _ (.entry e) trivial fine q due).imp_right Or.inl
  | subscribe d known => exact (single _ _ (.subscribe d known) trivial fine q due).imp_right Or.inl
  | list d known => exact (single _ _ (.list d known) trivial fine q due).imp_right Or.inl
  | project a root => exact (single _ _ (.project a root) trivial fine q due).imp_right Or.inl
  | manifest a d => exact (single _ _ (.manifest a d) trivial fine q due).imp_right Or.inl
  | inOrder d queue rest moved ih =>
    rcases ih (parts.first fine) due with ⟨before, unpaid⟩ | ⟨_, waits, owes⟩ | ⟨⟨e, failed⟩, some⟩
    · by_cases later : ∃ p ∈ queue ++ rest, obligation.owes (.entry p) q
      · exact Or.inr (Or.inl ⟨_, rfl, (obligation.inOrder _ _ _ _ _).2 (Or.inr later)⟩)
      · exact Or.inl ⟨before, fun owes => ((obligation.inOrder _ _ _ _ _).1 owes).elim unpaid later⟩
    · cases waits
      exact Or.inr (Or.inl ⟨_, rfl, (obligation.inOrder _ _ _ _ _).2 (Or.inl owes)⟩)
    · exact Or.inr (Or.inr ⟨⟨e, .inOrder failed⟩, some⟩)
  | inOrderFailed d queue rest moved ih =>
    exact Or.inr (Or.inr ⟨⟨_, rfl⟩, _, _, _, .inOrderFailed d queue rest moved, fine, rfl⟩)
  | inOrderDone d queue rest moved ih =>
    obtain ⟨index, next⟩ := nextInOrder_outcome ((moved.edits.isStale _).trans live) d queue rest
    rw [index] at due
    rw [next]
    rcases ih (parts.first fine) due with ⟨before, unpaid⟩ | ⟨_, ended, _⟩ | ⟨⟨_, failed⟩, _⟩
    · by_cases later : ∃ p ∈ queue ++ rest, obligation.owes (.entry p) q
      · obtain ⟨p, member, owes⟩ := later
        exact Or.inr (Or.inl (obligation.owes_following member owes))
      · exact Or.inl ⟨before, fun owes => ((obligation.inOrder _ _ _ _ _).1 owes).elim unpaid later⟩
    · cases ended
    · cases failed
  | together d before after failure moved ih =>
    rcases ih (parts.member fine (by simp)) due with
      ⟨old, unpaid⟩ | ⟨_, waits, owes⟩ | ⟨⟨e, failed⟩, some⟩
    · by_cases others : ∃ other ∈ before ++ after, obligation.owes other q
      · exact Or.inr (Or.inl ⟨_, rfl, obligation.together_split.2 (Or.inr others)⟩)
      · exact Or.inl ⟨old, fun owes => (obligation.together_split.1 owes).elim unpaid others⟩
    · cases waits
      exact Or.inr (Or.inl ⟨_, rfl, obligation.together_split.2 (Or.inl owes)⟩)
    · exact Or.inr (Or.inr ⟨⟨e, .among (by simp) failed⟩, some⟩)
  | togetherDone d before after failure moved left ih =>
    rcases ih (parts.member fine (by simp)) due with ⟨old, unpaid⟩ | ⟨_, ended, _⟩ | ⟨⟨e, failed⟩, some⟩
    · by_cases others : ∃ other ∈ before ++ after, obligation.owes other q
      · exact Or.inr (Or.inl ⟨_, rfl, (obligation.together _ _ _ _).2 others⟩)
      · exact Or.inl ⟨old, fun owes => (obligation.together_split.1 owes).elim unpaid others⟩
    · cases ended
    · obtain ⟨e', recorded⟩ := @failed_or failure _ e failed
      exact Or.inr (Or.inr ⟨⟨e', recorded ▸ .together d _⟩, some⟩)
  | togetherLast d failure moved ih =>
    rw [conclude_index] at due
    rcases ih (parts.member fine (by simp)) due with ⟨old, unpaid⟩ | ⟨_, ended, _⟩ | ⟨⟨e, failed⟩, some⟩
    · refine Or.inl ⟨old, fun owes => ?_⟩
      obtain ⟨other, member, owes⟩ := (obligation.together _ _ _ _).1 owes
      exact unpaid (List.mem_singleton.1 member ▸ owes)
    · cases ended
    · obtain ⟨e', recorded⟩ := @failed_or failure _ e failed
      exact Or.inr (Or.inr ⟨⟨e', failed_conclude.2 recorded⟩, some⟩)
  | togetherNone d failure =>
    rw [conclude_index] at due
    refine Or.inl ⟨due, fun owes => ?_⟩
    obtain ⟨other, member, _⟩ := (obligation.together _ _ _ _).1 owes
    cases member

/-- If the end of each single wait pays what is owed or passes it on, then so does every move of
tasks that do not fail. -/
theorem Task.Moves.settles {ctx : Context} {world : World} {s : Scope} {task : Task}
    {r : Scope × Progress} (moved : Task.Moves ctx world s task r) (obligation : Obligation)
    {good : Task → Prop} (parts : Task.Hereditary good)
    (unfailing : ∀ task r e, Task.Moves ctx world s task r → good task →
      r.2 ≠ .finished (.error e))
    (live : s.store.isStale ctx.generation = false)
    (single : ∀ task r, Task.Moves ctx world s task r → task.Single → good task →
      ∀ q, obligation.due r.1.store.index q →
        (obligation.due s.store.index q ∧ ¬ obligation.owes task q) ∨ obligation.OwesNext r.2 q)
    (fine : good task) (q : Path) (due : obligation.due r.1.store.index q) :
    (obligation.due s.store.index q ∧ ¬ obligation.owes task q) ∨ obligation.OwesNext r.2 q := by
  rcases moved.settles_or_fails obligation parts live single fine q due with
    paid | owes | ⟨_, task, r, e, moved, fine, failed⟩
  · exact Or.inl paid
  · exact Or.inr owes
  · exact absurd failed (unfailing task r e moved fine)

def Task.Tree (site : Site) (ix : Index) (task : Task) : Prop :=
  ∃ p, Task.Fits site ix p task ∧ site.Reaches p ∧ task.Sure site

theorem Task.Tree.hereditary {site : Site} (ix : Index) (faithful : site.Faithful) :
    Task.Hereditary (Task.Tree site ix) where
  first := by
    rintro d current queue rest ⟨p, fits, reaches, sure⟩
    obtain ⟨c, first, entry⟩ := fits.first faithful reaches
    cases sure with
    | inOrder sureFirst _ => exact ⟨c, first, entry, sureFirst⟩
  member := by
    rintro d running failure task ⟨p, fits, reaches, sure⟩ member
    obtain ⟨c, own, entry⟩ := fits.member faithful reaches member
    cases sure with
    | together sureEach => exact ⟨c, own, entry, sureEach task member⟩

/-- If the end of each single wait in the tree pays what is owed or passes it on, then so does every
move in the tree. -/
theorem Task.Moves.settles_tree {site : Site} {ctx : Context} {s : Scope} {task : Task}
    {r : Scope × Progress} (moved : Task.Moves ctx site.world s task r)
    (obligation : Obligation) (lists : site.Lists) (faithful : site.Faithful)
    (policy : ctx.policy = site.policy) (live : s.store.isStale ctx.generation = false)
    (sound : s.store.index.Sound site.root)
    (single : ∀ p task r, Task.Moves ctx site.world s task r → task.Single →
      Task.Fits site s.store.index p task → site.Reaches p → task.Sure site →
      ∀ q, obligation.due r.1.store.index q →
        (obligation.due s.store.index q ∧ ¬ obligation.owes task q) ∨ obligation.OwesNext r.2 q)
    {p : Path} (fits : Task.Fits site s.store.index p task) (reaches : site.Reaches p)
    (sure : task.Sure site) (q : Path) (due : obligation.due r.1.store.index q) :
    (obligation.due s.store.index q ∧ ¬ obligation.owes task q) ∨ obligation.OwesNext r.2 q := by
  refine moved.settles obligation (Task.Tree.hereditary s.store.index faithful) ?_ live ?_
    ⟨p, fits, reaches, sure⟩ q due
  · rintro task r e moved ⟨p, fits, reaches, sure⟩
    exact (moved.sure lists faithful policy live sound fits reaches sure).unfailing e
  · rintro task r moved alone ⟨p, fits, reaches, sure⟩
    exact single p task r moved alone fits reaches sure

end ProjectIndex.Crawl
