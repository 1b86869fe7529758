import ProjectIndex.Proofs.Crawl.Declarations
import ProjectIndex.Proofs.Crawl.Ending

/-!
# Whole crawls

A crawl that is left alone on a disk that does not change, from its first wait to its end.  The
schedule says for each wait which of the entries that are crawled at once goes on; nothing that is
said here depends on it.

What is known about a crawl under way comes in three parts, each of which every move keeps.  The
crawl of any path keeps the index sound and ends.  The crawl of a path of the tree visits what it
owes.  And a first crawl also declares the manifests that it finds.
-/

namespace ProjectIndex.Crawl

/-- Where a crawl stands after some of its waits. -/
def after (ctx : Context) (world : World) (schedule : Nat → List Nat) (start : Scope × Progress) :
    Nat → Scope × Progress
  | 0 => start
  | n + 1 =>
    match after ctx world schedule start n with
    | (s, .waiting task) => task.step ctx world (schedule n) s
    | (s, .finished result) => (s, .finished result)

section

variable {ctx : Context} {world : World} {schedule : Nat → List Nat} {start : Scope × Progress}

/-- What every move keeps holds all along a crawl. -/
theorem after_invariant {P : Scope × Progress → Prop} (holds : P start)
    (kept : ∀ s task schedule, P (s, .waiting task) → P (task.step ctx world schedule s))
    (schedule : Nat → List Nat) (n : Nat) :
    P (after ctx world schedule start n) := by
  induction n with
  | zero => exact holds
  | succ n ih =>
    rw [after]
    split
    next s task waits => exact kept s task (schedule n) (waits ▸ ih)
    next s result ends => exact ends ▸ ih

/-- All that a crawl does to the store is edits. -/
theorem after_edits (schedule : Nat → List Nat) (n : Nat) :
    Edits ctx start.1.store (after ctx world schedule start n).1.store :=
  after_invariant (P := fun r => Edits ctx start.1.store r.1.store) .refl
    (fun s task schedule edits => edits.trans (Task.step_moves ctx world schedule task s).edits)
    schedule n

/-- A crawl in which each move lowers the number of waits that are left ends: as long as it waits, the
waits that are past and those that are left do not grow. -/
theorem after_ends {P : Scope × Progress → Prop} (weight : Path → Nat) (holds : P start)
    (kept : ∀ s task schedule, P (s, .waiting task) → P (task.step ctx world schedule s))
    (cheaper : ∀ s task schedule, P (s, .waiting task) →
      (task.step ctx world schedule s).2.cost weight < task.cost weight) :
    ∃ n s result, after ctx world schedule start n = (s, .finished result) := by
  have within : ∀ n, (∃ s result, after ctx world schedule start n = (s, .finished result)) ∨
      (after ctx world schedule start n).2.cost weight + n ≤ start.2.cost weight := by
    intro n
    induction n with
    | zero => exact Or.inr (Nat.le_refl _)
    | succ n ih =>
      have now : P (after ctx world schedule start n) := after_invariant holds kept schedule n
      rw [after]
      generalize after ctx world schedule start n = r at ih now ⊢
      obtain ⟨s, task | result⟩ := r
      · rcases ih with ⟨_, _, ends⟩ | left
        · cases ends
        · have less := cheaper s task (schedule n) now
          simp only [Progress.cost] at left less ⊢
          exact Or.inr (by omega)
      · exact Or.inl ⟨s, result, rfl⟩
  have late := within (start.2.cost weight + 1)
  rcases late with ⟨s, result, ends⟩ | left
  · exact ⟨_, s, result, ends⟩
  · omega

end

/-- A crawl of a path in a live generation, with what it did to the index since it was `ix`. -/
structure Underway (site : Site) (ctx : Context) (p : Path) (ix : Index) (r : Scope × Progress) :
    Prop where
  live : r.1.store.isStale ctx.generation = false
  reworked : Reworked site p ix r.1.store.index
  fits : ∀ task, r.2 = .waiting task → Task.Fits site r.1.store.index p task

/-- The crawl of a path of the tree, where `others` are the paths that may stay outdated. -/
structure Visiting (site : Site) (old : Path → Status → Prop) (others : Path → Prop)
    (r : Scope × Progress) : Prop where
  sourced : Sourced site old r.1.store.index
  sure : ∀ task, r.2 = .waiting task → task.Sure site
  owed : ∀ q, Outdated site r.1.store.index q → others q ∨ (visits site).OwesNext r.2 q

/-- A first crawl: what it has found it has declared, or is about to. -/
structure Declaring (site : Site) (r : Scope × Progress) : Prop where
  unfailing : ∀ e, r.2 ≠ .finished (.error e)
  honest : ∀ d, ¬ (mistakes site).due r.1.store.index d
  owed : ∀ f, Undeclared site r.1.store.index f → (declarations site).OwesNext r.2 f

section

variable {site : Site} {ctx : Context} {p : Path} {ix : Index} {s : Scope} {task : Task}

theorem Underway.moved {r : Scope × Progress} (underway : Underway site ctx p ix (s, .waiting task))
    (moved : Task.Moves ctx site.world s task r) (lists : site.Lists)
    (policy : ctx.policy = site.policy) : Underway site ctx p ix r := by
  obtain ⟨reworked, fits⟩ := moved.fits lists policy underway.live underway.reworked.sound
    (underway.fits task rfl)
  exact ⟨(moved.edits.isStale _).trans underway.live, underway.reworked.trans reworked, fits⟩

theorem Underway.step (underway : Underway site ctx p ix (s, .waiting task)) (lists : site.Lists)
    (policy : ctx.policy = site.policy) (schedule : List Nat) :
    Underway site ctx p ix (task.step ctx site.world schedule s) :=
  underway.moved (Task.step_moves ctx site.world schedule task s) lists policy

theorem Underway.cheaper {bound : Nat} (underway : Underway site ctx p ix (s, .waiting task))
    (lists : site.Lists) (shallow : site.Shallow bound) (policy : ctx.policy = site.policy)
    (schedule : List Nat) :
    (task.step ctx site.world schedule s).2.cost (site.weight bound) <
      task.cost (site.weight bound) :=
  (Task.step_moves ctx site.world schedule task s).cheaper lists shallow policy underway.live
    underway.reworked.sound (underway.fits task rfl)

theorem Visiting.moved {old : Path → Status → Prop} {others : Path → Prop} {r : Scope × Progress}
    (visiting : Visiting site old others (s, .waiting task))
    (underway : Underway site ctx p ix (s, .waiting task))
    (moved : Task.Moves ctx site.world s task r) (lists : site.Lists) (faithful : site.Faithful)
    (succeeds : Succeeds site old) (policy : ctx.policy = site.policy) (reaches : site.Reaches p) :
    Visiting site old others r := by
  have sound := underway.reworked.sound
  have fits := underway.fits task rfl
  have sure := visiting.sure task rfl
  obtain ⟨reworked, _⟩ := moved.fits lists policy underway.live sound fits
  refine ⟨visiting.sourced.reworked reworked, ?_, fun q outdated => ?_⟩
  · exact (moved.sure lists faithful policy underway.live sound fits reaches sure).goesOn
  · rcases moved.pays lists faithful succeeds policy underway.live sound visiting.sourced fits reaches
      sure outdated with ⟨before, unawaited⟩ | owes
    · rcases visiting.owed q before with other | ⟨_, waits, awaits⟩
      · exact Or.inl other
      · cases waits
        exact absurd awaits unawaited
    · exact Or.inr owes

theorem Visiting.step {old : Path → Status → Prop} {others : Path → Prop}
    (visiting : Visiting site old others (s, .waiting task))
    (underway : Underway site ctx p ix (s, .waiting task)) (lists : site.Lists)
    (faithful : site.Faithful) (succeeds : Succeeds site old) (policy : ctx.policy = site.policy)
    (reaches : site.Reaches p) (schedule : List Nat) :
    Visiting site old others (task.step ctx site.world schedule s) :=
  visiting.moved underway (Task.step_moves ctx site.world schedule task s) lists faithful succeeds
    policy reaches

theorem Declaring.step (declaring : Declaring site (s, .waiting task)) {others : Path → Prop}
    (visiting : Visiting site (fun _ _ => False) others (s, .waiting task))
    (underway : Underway site ctx p ix (s, .waiting task)) (lists : site.Lists)
    (faithful : site.Faithful) (policy : ctx.policy = site.policy) (reaches : site.Reaches p)
    (schedule : List Nat) : Declaring site (task.step ctx site.world schedule s) := by
  have moved := Task.step_moves ctx site.world schedule task s
  have sound := underway.reworked.sound
  have fits := underway.fits task rfl
  have sure := visiting.sure task rfl
  refine ⟨?_, fun d => ?_, fun f due => ?_⟩
  · exact (moved.sure lists faithful policy underway.live sound fits reaches sure).unfailing
  · exact moved.honest lists faithful policy underway.live sound visiting.sourced fits reaches sure
      declaring.honest d
  · rcases moved.declares lists faithful policy underway.live sound visiting.sourced fits reaches sure
      due with ⟨before, unread⟩ | owes
    · obtain ⟨_, waits, declares⟩ := declaring.owed f before
      cases waits
      exact absurd declares unread
    · exact owes

end

/-- A crawl that is under way ends under every schedule. -/
theorem Underway.ends {site : Site} {ctx : Context} {p : Path} {ix : Index} {bound : Nat}
    {start : Scope × Progress} (underway : Underway site ctx p ix start) (lists : site.Lists)
    (shallow : site.Shallow bound) (policy : ctx.policy = site.policy) (schedule : Nat → List Nat) :
    ∃ n s result, after ctx site.world schedule start n = (s, .finished result) :=
  after_ends (site.weight bound) underway (fun _ _ schedule now => now.step lists policy schedule)
    fun _ _ schedule now => now.cheaper lists shallow policy schedule

section

variable {site : Site} {ctx : Context} {s : Scope} {st : Status}

/-- Once the root is taken into an index in which nothing but the root is outdated, its entries are
all that is outdated.  The root itself must be right if it is passed over. -/
theorem Taken.owes_entries {ix ix' : Index} {next : Progress}
    (taken : Taken site site.root st ix ix' next)
    (current : ∀ q, Outdated site ix q → q = site.root)
    (right : ix.hasChanged site.root st = false ∨ site.policy.ignores site.root st.kind = true →
      Agrees site ix site.root)
    (reached : site.region site.root) (told : site.world.entry site.root = .ok st)
    (kind : st.kind = .directory) {q : Path} (outdated : Outdated site ix' q) :
    (visits site).OwesNext next q := by
  cases taken with
  | passed kept same _ =>
    subst same
    obtain rfl := current q outdated
    exact absurd (right kept) outdated.1
  | written takes _ statuses _ directory _ =>
    have known := (statuses site.root).trans (if_pos rfl)
    have wants : site.Wants site.root st := .root reached told kind (kind ▸ takes)
    have notRoot : q ≠ site.root := by
      rintro rfl
      exact outdated.1 (agrees_of_status known wants)
    obtain ⟨d, sd, parent, _⟩ := outdated.above_known notRoot
    by_cases here : d = site.root
    · subst here
      obtain ⟨known, rfl | rfl⟩ := directory kind
      · exact ⟨_, rfl, .subscribe known parent⟩
      · exact ⟨_, rfl, .list known parent⟩
    · have before : Outdated site ix q := by
        refine outdated.before ((statuses q).trans (if_neg notRoot)) fun d' parent' => ?_
        cases parent.symm.trans parent'
        exact (statuses d).trans (if_neg here)
      exact absurd (current q before) notRoot

theorem Taken.sure_root {ix ix' : Index} {next : Progress}
    (taken : Taken site site.root st ix ix' next) (kind : st.kind = .directory) :
    next.Sure site := by
  cases taken with
  | passed _ _ ends =>
    obtain ⟨changed, rfl⟩ := ends
    exact sure_finished changed
  | written _ _ _ _ directory _ =>
    obtain ⟨known, rfl | rfl⟩ := directory kind
    · exact sure_waiting (.subscribe _ known)
    · exact sure_waiting (.list _ known)

/-- The first crawl of a root starts with an index that knows nothing. -/
theorem firstCrawl_start (lists : site.Lists) (policy : ctx.policy = site.policy)
    (live : s.store.isStale ctx.generation = false) {name : Name}
    (blank : s.store.index = .empty name) (reached : site.region site.root)
    (told : site.world.entry site.root = .ok st) (kind : st.kind = .directory) :
    Underway site ctx site.root (.empty name) (ctx.addDirectory site.root st s) ∧
      Visiting site (fun _ _ => False) (fun _ => False) (ctx.addDirectory site.root st s) ∧
      Declaring site (ctx.addDirectory site.root st s) := by
  have sound : s.store.index.Sound site.root := blank ▸ Index.sound_empty name site.root
  have unknown : ∀ q, s.store.index.status? q = none := by
    intro q
    simp [blank, Index.empty, Index.status?]
  have sourced : Sourced site (fun _ _ => False) s.store.index := by
    intro q st found
    rw [unknown q] at found
    cases found
  have taken := addDirectory_taken lists policy live sound (Or.inl rfl) reached told kind
    (by simp [blank, Index.empty])
  have reworked := taken.reworked sound told reached
  have edits : Edits ctx s.store (ctx.addDirectory site.root st s).1.store := edits_addDirectory _ _ s
  have tables : (ctx.addDirectory site.root st s).1.store.index.manifests = ∅ ∧
      (ctx.addDirectory site.root st s).1.store.index.files = ∅ := by
    rcases addDirectory_outcome live site.root st with ⟨_, same, _⟩ | ⟨_, written, _⟩
    · rw [same, blank]
      exact ⟨rfl, rfl⟩
    · rw [written, blank]
      simp [Index.empty]
  have sure := taken.sure_root kind
  refine ⟨⟨(edits.isStale _).trans live, blank ▸ reworked, fun task => taken.goesOn⟩,
    ⟨sourced.reworked reworked, sure.goesOn, fun q outdated => Or.inr ?_⟩, sure.unfailing,
    fun d mistaken => ?_, fun f due => ?_⟩
  · refine taken.owes_entries (fun q outdated => ?_) (fun kept => ?_) reached told kind outdated
    · by_contra other
      obtain ⟨d, _, _, _, _, found⟩ := outdated.above_known other
      cases (unknown d).symm.trans found
    · refine agrees_of_unknown (unknown _) fun st' wants => ?_
      rcases kept with unchanged | ignored
      · simp [Index.hasChanged, unknown] at unchanged
      · rw [kind, wants.root_taken] at ignored
        cases ignored
  · obtain ⟨D, found, _⟩ := mistaken
    rw [tables.1] at found
    simp at found
  · have file := due.file
    rw [tables.2] at file
    simp at file

/-- Whatever the schedule is, the first crawl of a root ends well, the index says of every path what
it should, and its manifests are those that the known files hold. -/
theorem firstCrawl_result (lists : site.Lists) (faithful : site.Faithful)
    (policy : ctx.policy = site.policy) (live : s.store.isStale ctx.generation = false) {name : Name}
    (blank : s.store.index = .empty name) (reached : site.region site.root)
    (told : site.world.entry site.root = .ok st) (kind : st.kind = .directory)
    {schedule : Nat → List Nat} {n : Nat} {s' : Scope} {result : Except IndexError Bool}
    (ends : after ctx site.world schedule (ctx.addDirectory site.root st s) n =
      (s', .finished result)) :
    (∃ changed, result = .ok changed) ∧ s'.store.isStale ctx.generation = false ∧
      s'.store.index.Sound site.root ∧ (∀ p, Agrees site s'.store.index p) ∧
      (∀ d, ¬ (mistakes site).due s'.store.index d) ∧ ∀ f, ¬ Undeclared site s'.store.index f := by
  have reaches : site.Reaches site.root := ⟨reached, Or.inl rfl⟩
  have succeeds : Succeeds site (fun _ _ => False) :=
    ⟨fun _ _ _ _ never => never.elim, fun _ _ _ _ never => never.elim⟩
  have start := firstCrawl_start lists policy live blank reached told kind
  have along := after_invariant (P := fun r =>
      Underway site ctx site.root (.empty name) r ∧
        Visiting site (fun _ _ => False) (fun _ => False) r ∧ Declaring site r) start
    (fun s task schedule ⟨underway, visiting, declaring⟩ =>
      ⟨underway.step lists policy schedule,
        visiting.step underway lists faithful succeeds policy reaches schedule,
        declaring.step visiting underway lists faithful policy reaches schedule⟩) schedule n
  rw [ends] at along
  obtain ⟨underway, visiting, declaring⟩ := along
  have current : ∀ q, ¬ Outdated site s'.store.index q := by
    intro q outdated
    rcases visiting.owed q outdated with never | ⟨_, waits, _⟩
    · exact never
    · cases waits
  refine ⟨?_, underway.live, underway.reworked.sound, ?_, declaring.honest, fun f due => ?_⟩
  · cases result with
    | ok changed => exact ⟨changed, rfl⟩
    | error e => exact absurd rfl (declaring.unfailing e)
  · exact agrees_everywhere underway.reworked.sound current
  · obtain ⟨_, waits, _⟩ := declaring.owed f due
    cases waits

end

section

variable {site : Site} {old : Path → Status → Prop} {ctx : Context} {s : Scope} {p : Path}

/-- Once the question what a path of the tree is has been answered, the crawl goes on with what it
owes. -/
theorem examined_visiting (lists : site.Lists) (faithful : site.Faithful)
    (succeeds : Succeeds site old) (policy : ctx.policy = site.policy)
    (live : s.store.isStale ctx.generation = false) (sound : s.store.index.Sound site.root)
    (sourced : Sourced site old s.store.index) (hooked : s.store.index.Hooked site.root p)
    (reaches : site.Reaches p) :
    Visiting site old (fun q => Outdated site s.store.index q ∧ q ≠ p)
      (ctx.examined p (site.world.entry p) s) := by
  obtain ⟨reworked, _, _, finding⟩ :=
    examined_effect lists policy live sound hooked reaches.reached
  refine ⟨sourced.reworked reworked, fun task waits => ?_, fun q outdated => ?_⟩
  · have told : ∃ st, site.world.entry p = .ok st := by
      cases finding with
      | gone _ _ _ ends =>
        obtain ⟨changed, ends⟩ := ends
        cases ends.symm.trans waits
      | failed _ _ _ ends => cases ends.symm.trans waits
      | special told => exact ⟨_, told⟩
      | taken told => exact ⟨_, told⟩
    exact (finding.sure faithful reaches told).goesOn task waits
  · exact examined_outdated lists faithful succeeds policy live sound sourced hooked reaches outdated

/-- A path that is outdated and lies at or below another one makes that one a path of the tree. -/
theorem Outdated.reaches_above {ix : Index} {q : Path} (outdated : Outdated site ix q)
    (reached : site.region p) (under : site.root.Covers p) (covers : p.Covers q) :
    site.Reaches p := by
  rcases outdated.2 with rfl | ⟨d, parent, wanted, _⟩
  · exact ⟨reached, Or.inl (covers.antisymm under)⟩
  · rcases covers.eq_or_parent parent with rfl | higher
    · exact ⟨reached, Or.inr ⟨d, parent, wanted⟩⟩
    · exact wanted.reaches_above under higher

theorem entryCrawl_start (live : s.store.isStale ctx.generation = false)
    (sound : s.store.index.Sound site.root) (hooked : s.store.index.Hooked site.root p)
    (reached : site.region p) : Underway site ctx p s.store.index (s, .waiting (.entry p)) := by
  refine ⟨live, .refl sound p, fun task waits => ?_⟩
  cases waits
  exact .entry hooked reached

/-- Whatever the schedule is, the crawl of one path leaves nothing outdated that was not outdated
before, and not the path itself. -/
theorem entryCrawl_result (lists : site.Lists) (faithful : site.Faithful)
    (succeeds : Succeeds site old) (policy : ctx.policy = site.policy)
    (live : s.store.isStale ctx.generation = false) (sound : s.store.index.Sound site.root)
    (sourced : Sourced site old s.store.index) (hooked : s.store.index.Hooked site.root p)
    (reached : site.region p) {schedule : Nat → List Nat} {n : Nat} {s' : Scope}
    {result : Except IndexError Bool}
    (ends : after ctx site.world schedule (s, .waiting (.entry p)) n = (s', .finished result)) :
    s'.store.isStale ctx.generation = false ∧ Reworked site p s.store.index s'.store.index ∧
      ∀ q, Outdated site s'.store.index q → Outdated site s.store.index q ∧ q ≠ p := by
  have start := @entryCrawl_start site ctx s p live sound hooked reached
  have underway := after_invariant start
    (fun s task schedule underway => underway.step lists policy schedule) schedule n
  rw [ends] at underway
  refine ⟨underway.live, underway.reworked, fun q outdated => ?_⟩
  by_cases reaches : site.Reaches p
  · have visiting := after_invariant (P := fun r => r = (s, .waiting (.entry p)) ∨
        (Underway site ctx p s.store.index r ∧
          Visiting site old (fun q => Outdated site s.store.index q ∧ q ≠ p) r)) (Or.inl rfl)
      (fun s' task schedule now => by
        rcases now with first | ⟨underway, visiting⟩
        · cases first
          refine Or.inr ⟨start.step lists policy schedule, ?_⟩
          rw [Task.step]
          exact examined_visiting lists faithful succeeds policy live sound sourced hooked reaches
        · exact Or.inr ⟨underway.step lists policy schedule,
            visiting.step underway lists faithful succeeds policy reaches schedule⟩) schedule n
    rw [ends] at visiting
    rcases visiting with first | ⟨_, visiting⟩
    · cases first
    · rcases visiting.owed q outdated with before | ⟨_, waits, _⟩
      · exact before
      · cases waits
  · have outside : ¬ p.Covers q := fun covers =>
      reaches (outdated.reaches_above reached (lists.below p reached) covers)
    refine ⟨outdated.outside underway.reworked outside, ?_⟩
    rintro rfl
    exact outside (.refl q)

end

end ProjectIndex.Crawl
