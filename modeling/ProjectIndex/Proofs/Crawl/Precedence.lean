import Mathlib.Data.List.Pairwise
import ProjectIndex.Proofs.Crawl.Footprint
import ProjectIndex.Proofs.Crawl.Stints
import ProjectIndex.Proofs.Path.Order

/-!
# The order of the entries of a directory

The policy prefers some entries of a directory to others: those that have a rank to those that have a
later one or none.  All that the crawl of a preferred entry does, at the entry and below it, is over
before the first stint of an entry that it is preferred to, whatever the disk answers, whichever of the
entries that are crawled at once goes on, and whatever others do to the store between two waits.  If
the preferred entry fails, that first stint never comes.

Every stint leaves some paths behind: those at which no later stint of the crawl can be.  That is said
of one move, from the paths that still lie ahead after it, and from there of all stints of a crawl.
-/

namespace ProjectIndex

/-- The entry `a` comes first, and `b` comes later in that order or not in it at all. -/
def Policy.Prefers (policy : Policy) (a b : Path) : Prop :=
  ∃ n, policy.rank? a = some n ∧ ∀ m, policy.rank? b = some m → n < m

namespace Policy

variable {policy : Policy} {a b : Path}

theorem not_prefers_self (policy : Policy) (a : Path) : ¬ policy.Prefers a a := by
  rintro ⟨n, rank, later⟩
  have less := later n rank
  omega

theorem not_prefers_of_unranked (none : policy.rank? a = none) (b : Path) : ¬ policy.Prefers a b := by
  rintro ⟨n, rank, _⟩
  rw [none] at rank
  cases rank

theorem Prefers.ranked (prefers : policy.Prefers a b) : policy.rank? a ≠ none := by
  obtain ⟨n, rank, _⟩ := prefers
  rw [rank]
  exact Option.some_ne_none n

/-- The entries that have no order have no rank. -/
theorem arrange_unranked (policy : Policy) (children : List Path) :
    ∀ c ∈ (policy.arrange children).2, policy.rank? c = none := by
  intro c member
  unfold arrange at member
  rw [List.partition_eq_filter_filter] at member
  simpa using (List.mem_filter.1 member).2

/-- Nothing is preferred to what comes before it. -/
theorem arrange_ordered (policy : Policy) (children : List Path) :
    ((policy.arrange children).1 ++ (policy.arrange children).2).Pairwise
      fun a b => ¬ policy.Prefers b a := by
  have unranked := policy.arrange_unranked children
  apply List.pairwise_append.2
  refine ⟨?_, ?_, fun a _ b member => not_prefers_of_unranked (unranked b member) a⟩
  · let rank (c : Path) : Nat := (policy.rank? c).getD 0
    have ranked : ∀ c ∈ (policy.arrange children).1, ∃ n, policy.rank? c = some n := by
      intro c member
      unfold arrange at member
      rw [List.partition_eq_filter_filter] at member
      have first := (List.mem_filter.1 (List.mem_mergeSort.1 member)).2
      exact Option.isSome_iff_exists.1 first
    have sorted : (policy.arrange children).1.Pairwise fun a b => rank a ≤ rank b := by
      unfold arrange
      have transitive : ∀ a b c, decide (rank a ≤ rank b) → decide (rank b ≤ rank c) →
          decide (rank a ≤ rank c) := by
        intro a b c first second
        simp only [decide_eq_true_eq] at first second ⊢
        omega
      have total : ∀ a b, decide (rank a ≤ rank b) || decide (rank b ≤ rank a) := by
        intro a b
        simp only [Bool.or_eq_true, decide_eq_true_eq]
        omega
      exact (List.pairwise_mergeSort transitive total _).imp fun le => of_decide_eq_true le
    apply sorted.imp_of_mem
    rintro a b first second le ⟨n, own, later⟩
    obtain ⟨m, other⟩ := ranked a first
    have less := later m other
    simp only [rank, own, other, Option.getD_some] at le
    omega
  · apply List.pairwise_of_forall_mem_list
    intro a _ b member
    exact not_prefers_of_unranked (unranked b member) a

end Policy

namespace Crawl

/-- The entries that a task deals with in order are in the order of the policy, and those that are
crawled at once have no rank. -/
inductive Task.Ranked (policy : Policy) : Task → Prop where
  | single {task : Task} (single : task.Single) : Ranked policy task
  | inOrder {dir : Path} {current : Task} {queue rest : List Path} (first : Ranked policy current)
      (ordered : (current.path :: (queue ++ rest)).Pairwise fun a b => ¬ policy.Prefers b a)
      (level : ∀ c ∈ rest, policy.rank? c = none) : Ranked policy (.inOrder dir current queue rest)
  | together {dir : Path} {running : List Task} {failure : Option IndexError}
      (each : ∀ task ∈ running, Ranked policy task)
      (level : ∀ task ∈ running, policy.rank? task.path = none) :
      Ranked policy (.together dir running failure)

/-- After the stint, the crawl may have one at the path. -/
structure Stint.Allows (policy : Policy) (x : Stint) (q : Path) : Prop where
  /-- The path is not at or below an entry that is preferred to the one of the stint. -/
  preferred : ∀ a b d, a.parent = some d → b.parent = some d → policy.Prefers a b →
    b.Covers x.path → ¬ a.Covers q
  /-- A crawl that has ended is not taken up again. -/
  ended : x.ended.isSome → ¬ x.path.Covers q
  /-- The failure of an entry that comes first is the end of its directory. -/
  failed : ∀ e d, x.ended = some (.error e) → policy.rank? x.path ≠ none → x.path.parent = some d →
    d.Covers q → q = d

namespace Stint

variable {policy : Policy} {x : Stint} {q : Path}

/-- While the crawl of a path goes on, anything at or below the path may come. -/
theorem allows_of_waiting (waits : x.ended = none) (covers : x.path.Covers q) : x.Allows policy q where
  preferred a b d first second prefers below above := by
    have same : a = b := Path.eq_of_siblings first second above (below.trans covers)
    exact policy.not_prefers_self b (same ▸ prefers)
  ended closed := by
    rw [waits] at closed
    cases closed
  failed e d closed := by
    rw [waits] at closed
    cases closed

/-- A directory strictly above may always come. -/
theorem allows_of_above (covers : q.Covers x.path) (other : q ≠ x.path) : x.Allows policy q where
  preferred a b d first second prefers below above := by
    have same : a = b := Path.eq_of_siblings first second (above.trans covers) below
    exact policy.not_prefers_self b (same ▸ prefers)
  ended _ below := other (covers.antisymm below)
  failed e d _ _ parent above :=
    ((covers.eq_or_parent parent).resolve_left other).antisymm above

/-- After a stint in one entry of a directory the directory may come, and the other entries that are
not preferred to it, as long as the entry has not failed in a way that ends the directory. -/
theorem allows_of_beside {dir c : Path} (parent : c.parent = some dir) (inside : c.Covers x.path)
    (fine : x.path = c → ∀ e, x.ended = some (.error e) → policy.rank? c = none)
    (beside : q = dir ∨ ∃ c', c'.parent = some dir ∧ c' ≠ c ∧ ¬ policy.Prefers c' c ∧ c'.Covers q) :
    x.Allows policy q := by
  have outside : ¬ c.Covers q := by
    intro covers
    rcases beside with same | ⟨c', parent', other, _, covers'⟩
    · exact Path.not_covers_of_parent parent (same ▸ covers)
    · exact other (Path.eq_of_siblings parent' parent covers' covers)
  have below : dir.Covers q := by
    rcases beside with same | ⟨c', parent', _, _, covers'⟩
    · exact same ▸ .refl q
    · exact (Path.covers_of_parent parent').trans covers'
  refine ⟨?_, ?_, ?_⟩
  · intro a b d first second prefers under above
    have here : b ≠ c := by
      rintro rfl
      obtain rfl : dir = d := Option.some.inj (parent.symm.trans second)
      rcases beside with same | ⟨c', parent', _, level, covers'⟩
      · exact Path.not_covers_of_parent first (same ▸ above)
      · have same : a = c' := Path.eq_of_siblings first parent' above covers'
        exact level (same ▸ prefers)
    rcases inside.comparable under with deeper | higher
    · have under' : c.Covers d := (deeper.eq_or_parent second).resolve_left (Ne.symm here)
      exact outside ((under'.of_parent first).trans above)
    · have atop : b.Covers dir := (higher.eq_or_parent parent).resolve_left here
      have same : a = b := Path.eq_of_siblings first second above (atop.trans below)
      exact policy.not_prefers_self b (same ▸ prefers)
  · intro _ covers
    exact outside (inside.trans covers)
  · intro e d closed ranked own above
    rcases inside.eq_or_parent own with same | under
    · exact absurd (fine same.symm e closed) (same ▸ ranked)
    · exact absurd (under.trans above) outside

end Stint

namespace Task

section

variable {ctx : Context} {world : World} {s : Scope} {task : Task} {stints : List Stint}
  {r : Scope × Progress}

theorem ranked_nextInOrder {dir : Path} {queue rest : List Path}
    (ordered : (queue ++ rest).Pairwise fun a b => ¬ ctx.policy.Prefers b a)
    (level : ∀ c ∈ rest, ctx.policy.rank? c = none) {task : Task}
    (waits : (ctx.nextInOrder dir queue rest s).2 = .waiting task) : task.Ranked ctx.policy := by
  have goesOn := entriesNext ctx s dir queue rest
  generalize ctx.nextInOrder dir queue rest s = r at goesOn waits
  cases goesOn with
  | done => cases waits
  | others =>
    cases waits
    apply Ranked.together
    · intro task member
      obtain ⟨c, _, rfl⟩ := List.mem_map.1 member
      exact .single trivial
    · intro task member
      obtain ⟨c, listed, rfl⟩ := List.mem_map.1 member
      exact level c listed
  | next _ first =>
    subst first
    cases waits
    exact .inOrder (.single trivial) ordered level

/-- The entries stay in the order of the policy. -/
theorem Takes.ranked (taken : Takes ctx world s task stints r) (lists : world.ListsOnce)
    (absolute : task.path.isAbsolute = true) (placed : task.Placed) (ranked : task.Ranked ctx.policy)
    {next : Task} (waits : r.2 = .waiting next) : next.Ranked ctx.policy := by
  induction taken generalizing next with
  | @single task r single moved =>
    rcases moved.stays single with stays | ⟨children, s', told, same⟩
    · rw [waits] at stays
      exact .single stays.1
    · rw [same] at waits
      exact ranked_nextInOrder (ctx.policy.arrange_ordered children)
        (ctx.policy.arrange_unranked children) waits
  | @inOrder s' current current' stints dir queue rest taken ih =>
    cases waits
    cases placed with
    | inOrder first siblings distinct =>
      cases ranked with
      | single single => exact absurd single id
      | inOrder first' ordered level =>
        have below := Path.covers_of_parent (siblings _ List.mem_cons_self)
        have absolute' := below.isAbsolute absolute
        obtain ⟨_, same⟩ := taken.placed lists absolute' first rfl
        exact .inOrder (ih absolute' first first' rfl) (same ▸ ordered) level
  | inOrderFailed dir queue rest taken ih => cases waits
  | inOrderDone dir queue rest taken ih =>
    cases ranked with
    | single single => exact absurd single id
    | inOrder first ordered level =>
      exact ranked_nextInOrder (List.pairwise_cons.1 ordered).2 level waits
  | @together s' task task' stints dir before after failure taken ih =>
    cases waits
    obtain ⟨first, below⟩ := placed.among
    have absolute' := below.isAbsolute absolute
    obtain ⟨_, same⟩ := taken.placed lists absolute' first rfl
    cases ranked with
    | single single => exact absurd single id
    | together each level =>
      apply Ranked.together
      · intro other member
        rcases List.mem_cons.1 (List.perm_middle.mem_iff.1 member) with here | beside
        · exact here ▸ ih absolute' first (each task (by simp)) rfl
        · exact each other (List.perm_middle.mem_iff.2 (List.mem_cons_of_mem _ beside))
      · intro other member
        rcases List.mem_cons.1 (List.perm_middle.mem_iff.1 member) with here | beside
        · rw [here, same]
          exact level task (by simp)
        · exact level other (List.perm_middle.mem_iff.2 (List.mem_cons_of_mem _ beside))
  | togetherDone dir before after failure taken left ih =>
    cases waits
    cases ranked with
    | single single => exact absurd single id
    | together each level =>
      apply Ranked.together
      · intro other beside
        exact each other (List.perm_middle.mem_iff.2 (List.mem_cons_of_mem _ beside))
      · intro other beside
        exact level other (List.perm_middle.mem_iff.2 (List.mem_cons_of_mem _ beside))
  | togetherLast dir failure taken ih => exact absurd waits conclude_not_waiting
  | togetherNone dir failure => exact absurd waits conclude_not_waiting

/-- A stint of the task's own path that ends the crawl of that path ends the task. -/
theorem Takes.finished_of_ended (taken : Takes ctx world s task stints r) (placed : task.Placed) :
    ∀ x ∈ stints, x.path = task.path → ∀ result, x.ended = some result → r.2 = .finished result := by
  have own : ∀ {p : Path} {s : Scope} {r : Scope × Progress} {result : Except IndexError Bool},
      (stint p s r).ended = some result → r.2 = .finished result := by
    intro p s r result closed
    obtain ⟨t, _ | result'⟩ := r
    · cases closed
    · exact congrArg Progress.finished (Option.some.inj closed)
  have inner : ∀ {dir : Path} {task : Task} {stints : List Stint} {r : Scope × Progress},
      Takes ctx world s task stints r → task.Placed → task.path.parent = some dir →
      ∀ x ∈ stints, x.path ≠ dir := by
    intro dir task stints r taken placed parent x member same
    have below : task.path.Covers x.path := placed.covers_ahead (taken.ahead_stint x member)
    exact Path.not_covers_of_parent parent (same ▸ below)
  cases taken with
  | single single moved =>
    intro x member _ result closed
    obtain rfl := List.mem_singleton.1 member
    exact own closed
  | inOrder dir queue rest taken =>
    cases placed with
    | inOrder first siblings _ =>
      intro x member same
      exact absurd same (inner taken first (siblings _ List.mem_cons_self) x member)
  | inOrderFailed dir queue rest taken =>
    cases placed with
    | inOrder first siblings _ =>
      intro x member same result closed
      rcases List.mem_append.1 member with inside | last
      · exact absurd same (inner taken first (siblings _ List.mem_cons_self) x inside)
      · obtain rfl := List.mem_singleton.1 last
        exact own closed
  | inOrderDone dir queue rest taken =>
    cases placed with
    | inOrder first siblings _ =>
      intro x member same result closed
      rcases List.mem_append.1 member with inside | last
      · exact absurd same (inner taken first (siblings _ List.mem_cons_self) x inside)
      · obtain rfl := List.mem_singleton.1 last
        exact own closed
  | together dir before after failure taken =>
    cases placed with
    | together each siblings _ =>
      intro x member same
      exact absurd same (inner taken (each _ (by simp)) (siblings _ (by simp)) x member)
  | togetherDone dir before after failure taken left =>
    cases placed with
    | together each siblings _ =>
      intro x member same
      exact absurd same (inner taken (each _ (by simp)) (siblings _ (by simp)) x member)
  | togetherLast dir failure taken =>
    cases placed with
    | together each siblings _ =>
      intro x member same result closed
      rcases List.mem_append.1 member with inside | last
      · exact absurd same (inner taken (each _ (by simp)) (siblings _ (by simp)) x inside)
      · obtain rfl := List.mem_singleton.1 last
        exact own closed
  | togetherNone dir failure =>
    intro x member _ result closed
    obtain rfl := List.mem_singleton.1 member
    exact own closed

/-- What still lies ahead after a move is allowed by all its stints. -/
theorem Takes.allows (taken : Takes ctx world s task stints r) (lists : world.ListsOnce)
    (absolute : task.path.isAbsolute = true) (placed : task.Placed) (ranked : task.Ranked ctx.policy)
    {q : Path} (ahead : r.2.Ahead q) : ∀ x ∈ stints, x.Allows ctx.policy q := by
  induction taken with
  | @single task r single moved =>
    intro x member
    obtain rfl := List.mem_singleton.1 member
    have covers : task.path.Covers q :=
      single.ahead_iff.1 ((Takes.single single moved).ahead_of_ahead lists absolute placed ahead)
    obtain ⟨next, waits, _⟩ := ahead
    exact Stint.allows_of_waiting (by rw [stint, waits]; rfl) covers
  | @inOrder s' current current' stints dir queue rest taken ih =>
    cases placed with
    | inOrder first siblings distinct =>
      cases ranked with
      | single single => exact absurd single id
      | inOrder first' ordered level =>
        intro x member
        have parent := siblings _ List.mem_cons_self
        have inside := first.covers_ahead (taken.ahead_stint x member)
        have fine : x.path = current.path → ∀ e, x.ended = some (.error e) →
            ctx.policy.rank? current.path = none := by
          intro same e closed
          cases taken.finished_of_ended first x member same _ closed
        rw [Progress.ahead_waiting, ahead_inOrder] at ahead
        rcases ahead with same | inner | ⟨c, listed, covers⟩
        · exact Stint.allows_of_beside parent inside fine (Or.inl same)
        · have absolute' := (Path.covers_of_parent parent).isAbsolute absolute
          exact ih absolute' first first' (Progress.ahead_waiting.2 inner) x member
        · have other : c ≠ current.path := by
            rintro rfl
            exact (List.nodup_cons.1 distinct).1 listed
          have parent' := siblings c (List.mem_cons_of_mem _ listed)
          have later := (List.pairwise_cons.1 ordered).1 c listed
          exact Stint.allows_of_beside parent inside fine
            (Or.inr ⟨c, parent', other, later, covers⟩)
  | inOrderFailed dir queue rest taken ih => exact absurd ahead (Progress.not_ahead_finished _ q)
  | @inOrderDone s' current changed stints dir queue rest taken ih =>
    cases placed with
    | inOrder first siblings distinct =>
      cases ranked with
      | single single => exact absurd single id
      | inOrder first' ordered level =>
        intro x member
        have reached := ahead_nextInOrder ahead
        rcases List.mem_append.1 member with inner | own
        · have parent := siblings _ List.mem_cons_self
          have inside := first.covers_ahead (taken.ahead_stint x inner)
          have fine : x.path = current.path → ∀ e, x.ended = some (.error e) →
              ctx.policy.rank? current.path = none := by
            intro same e closed
            cases taken.finished_of_ended first x inner same _ closed
          apply Stint.allows_of_beside parent inside fine
          apply reached.imp_right
          rintro ⟨c, listed, covers⟩
          have other : c ≠ current.path := by
            rintro rfl
            exact (List.nodup_cons.1 distinct).1 listed
          have parent' := siblings c (List.mem_cons_of_mem _ listed)
          exact ⟨c, parent', other, (List.pairwise_cons.1 ordered).1 c listed, covers⟩
        · obtain rfl := List.mem_singleton.1 own
          have covers : dir.Covers q := by
            rcases reached with same | ⟨c, listed, covers⟩
            · exact same ▸ .refl q
            · have parent' := siblings c (List.mem_cons_of_mem _ listed)
              exact (Path.covers_of_parent parent').trans covers
          obtain ⟨next, waits, _⟩ := ahead
          exact Stint.allows_of_waiting (by rw [stint, waits]; rfl) covers
  | @together s' task task' stints dir before after failure taken ih =>
    obtain ⟨first, below⟩ := placed.among
    cases placed with
    | together each siblings distinct =>
      cases ranked with
      | single single => exact absurd single id
      | together each' level =>
        intro x member
        have listed : task ∈ before ++ task :: after := by simp
        have inside := first.covers_ahead (taken.ahead_stint x member)
        rw [Progress.ahead_waiting, ahead_together] at ahead
        by_cases inner : task'.Ahead q
        · exact ih (below.isAbsolute absolute) first (each' task listed)
            (Progress.ahead_waiting.2 inner) x member
        · apply Stint.allows_of_beside (siblings task listed) inside
          · exact fun _ _ _ => level task listed
          · apply ahead.imp_right
            rintro ⟨other, among, ahead⟩
            have beside : other ∈ before ++ after := by
              rcases List.mem_cons.1 (List.perm_middle.mem_iff.1 among) with here | beside
              · exact absurd (here ▸ ahead) inner
              · exact beside
            exact others_beside each siblings distinct level beside ahead
  | @togetherDone s' task result stints dir before after failure taken left ih =>
    obtain ⟨first, below⟩ := placed.among
    cases placed with
    | together each siblings distinct =>
      cases ranked with
      | single single => exact absurd single id
      | together each' level =>
        intro x member
        have listed : task ∈ before ++ task :: after := by simp
        have inside := first.covers_ahead (taken.ahead_stint x member)
        rw [Progress.ahead_waiting, ahead_together] at ahead
        apply Stint.allows_of_beside (siblings task listed) inside
        · exact fun _ _ _ => level task listed
        · apply ahead.imp_right
          rintro ⟨other, beside, ahead⟩
          exact others_beside each siblings distinct level beside ahead
  | togetherLast dir failure taken ih =>
    obtain ⟨next, waits, _⟩ := ahead
    exact absurd waits conclude_not_waiting
  | togetherNone dir failure =>
    obtain ⟨next, waits, _⟩ := ahead
    exact absurd waits conclude_not_waiting
where
  /-- Another of the entries that are crawled at once. -/
  others_beside {dir q : Path} {before after : List Task} {task other : Task}
      (each : ∀ task' ∈ before ++ task :: after, task'.Placed)
      (siblings : ∀ task' ∈ before ++ task :: after, task'.path.parent = some dir)
      (distinct : ((before ++ task :: after).map Task.path).Nodup)
      (level : ∀ task' ∈ before ++ task :: after, ctx.policy.rank? task'.path = none)
      (beside : other ∈ before ++ after) (ahead : other.Ahead q) :
      ∃ c, c.parent = some dir ∧ c ≠ task.path ∧ ¬ ctx.policy.Prefers c task.path ∧ c.Covers q := by
    have listed : other ∈ before ++ task :: after :=
      List.perm_middle.mem_iff.2 (List.mem_cons_of_mem _ beside)
    have unlike : task.path ∉ (before ++ after).map Task.path := by
      rw [List.map_append, List.map_cons] at distinct
      rw [List.map_append]
      exact (List.nodup_middle.1 distinct).notMem
    refine ⟨other.path, siblings other listed, ?_, ?_, (each other listed).covers_ahead ahead⟩
    · intro same
      exact unlike (same ▸ List.mem_map_of_mem beside)
    · exact Policy.not_prefers_of_unranked (level other listed) _

end

end Task

/-- The crawl of a path up to one of its waits or its end, as the list of its stints.  Between two
moves the store and the world may change in any way. -/
inductive Course (ctx : Context) (p : Path) : List Stint → Progress → Prop where
  /-- It starts with a directory of which the status is known. -/
  | directory (status : Status) (s : Scope) :
      Course ctx p [stint p s (ctx.addDirectory p status s)] (ctx.addDirectory p status s).2
  /-- It starts with a path about which nothing is known yet. -/
  | entry (s : Scope) : Course ctx p [stint p s (ctx.addEntry p s)] (ctx.addEntry p s).2
  | move {stints more : List Stint} {task : Task} {world : World} {s : Scope} {r : Scope × Progress}
      (course : Course ctx p stints (.waiting task)) (lists : world.ListsOnce)
      (taken : task.Takes ctx world s more r) : Course ctx p (stints ++ more) r.2

namespace Course

variable {ctx : Context} {p : Path} {stints : List Stint} {next : Progress}

theorem of_stays {s : Scope} {r : Scope × Progress} (stays : r.2.Stays p) {task : Task}
    (waits : r.2 = .waiting task) : task.Single ∧ task.path = p ∧ (stint p s r).ended = none := by
  rw [waits] at stays
  refine ⟨stays.1, stays.2, ?_⟩
  rw [stint, waits]
  rfl

theorem stays_addEntry (p : Path) (s : Scope) : (ctx.addEntry p s).2.Stays p := by
  unfold Context.addEntry
  split
  · trivial
  · exact ⟨trivial, rfl⟩

/-- The crawl stays at its path, with the entries of each directory in the order of the policy. -/
theorem ranked (course : Course ctx p stints next) (absolute : p.isAbsolute = true) :
    ∀ task, next = .waiting task → task.Placed ∧ task.path = p ∧ task.Ranked ctx.policy := by
  have start : ∀ {s : Scope} {r : Scope × Progress}, r.2.Stays p →
      ∀ task, r.2 = .waiting task → task.Placed ∧ task.path = p ∧ task.Ranked ctx.policy := by
    intro s r stays task waits
    obtain ⟨single, own, _⟩ := @of_stays p s r stays task waits
    exact ⟨single.placed, own, .single single⟩
  induction course with
  | directory status s => exact @start s _ (stays_addDirectory p status s)
  | entry s => exact @start s _ (stays_addEntry p s)
  | move course lists taken ih =>
    intro task waits
    obtain ⟨placed, own, ranked⟩ := ih _ rfl
    have absolute' := own.symm ▸ absolute
    obtain ⟨placed', same⟩ := taken.placed lists absolute' placed waits
    exact ⟨placed', same.trans own, taken.ranked lists absolute' placed ranked waits⟩

/-- Each stint allows those that came after it and all that still lies ahead. -/
theorem allows (course : Course ctx p stints next) (absolute : p.isAbsolute = true) :
    (stints.Pairwise fun x y => x.Allows ctx.policy y.path) ∧
      ∀ q, next.Ahead q → ∀ x ∈ stints, x.Allows ctx.policy q := by
  have start : ∀ {s : Scope} {r : Scope × Progress}, r.2.Stays p →
      ([stint p s r].Pairwise fun x y => x.Allows ctx.policy y.path) ∧
        ∀ q, r.2.Ahead q → ∀ x ∈ [stint p s r], x.Allows ctx.policy q := by
    intro s r stays
    refine ⟨List.pairwise_singleton _ _, ?_⟩
    intro q ahead x member
    obtain rfl := List.mem_singleton.1 member
    obtain ⟨task, waits, ahead⟩ := ahead
    obtain ⟨single, own, goesOn⟩ := @of_stays p s r stays task waits
    have covers : p.Covers q := own ▸ single.ahead_iff.1 ahead
    exact Stint.allows_of_waiting goesOn covers
  induction course with
  | directory status s => exact start (stays_addDirectory p status s)
  | entry s => exact start (stays_addEntry p s)
  | @move stints more task world s r course lists taken ih =>
    obtain ⟨before, ahead⟩ := ih
    obtain ⟨placed, own, ranked⟩ := course.ranked absolute task rfl
    have absolute' := own.symm ▸ absolute
    constructor
    · apply List.pairwise_append.2
      refine ⟨before, ?_, ?_⟩
      · apply (taken.inside_out placed).imp
        intro x y above
        exact Stint.allows_of_above above.1 above.2
      · intro x member y later
        exact ahead y.path (Progress.ahead_waiting.2 (taken.ahead_stint y later)) x member
    · intro q further x member
      rcases List.mem_append.1 member with old | new
      · have known := taken.ahead_of_ahead lists absolute' placed further
        exact ahead q (Progress.ahead_waiting.2 known) x old
      · exact taken.allows lists absolute' placed ranked further x new

theorem reports (course : Course ctx p stints next) : ∀ x ∈ stints, x.Reports := by
  induction course with
  | directory status s =>
    intro x member
    obtain rfl := List.mem_singleton.1 member
    exact Or.inl (completed_addDirectory p status s)
  | entry s =>
    intro x member
    obtain rfl := List.mem_singleton.1 member
    have same : (ctx.addEntry p s).1 = s := by
      unfold Context.addEntry
      split <;> rfl
    exact Or.inl (congrArg (fun s => s.store.completed) same)
  | move course lists taken ih =>
    intro x member
    rcases List.mem_append.1 member with old | new
    · exact ih x old
    · exact taken.reports x new

/-- The failure of an entry that comes first keeps away all stints of the entries after it. -/
theorem none_after_failure (course : Course ctx p stints next) (absolute : p.isAbsolute = true) :
    ∀ x ∈ stints, ∀ y ∈ stints, ∀ e b d, x.ended = some (.error e) → x.path.parent = some d →
      b.parent = some d → ctx.policy.Prefers x.path b → ¬ b.Covers y.path := by
  have allowed := (course.allows absolute).1
  apply List.Pairwise.forall_of_forall_of_flip
  · intro x _ e b d _ own parent prefers covers
    have same : b = x.path := Path.eq_of_siblings parent own covers (.refl x.path)
    exact ctx.policy.not_prefers_self x.path (same ▸ prefers)
  · apply allowed.imp
    intro x y allows e b d closed own parent prefers covers
    have under := (Path.covers_of_parent parent).trans covers
    have only := allows.failed e d closed prefers.ranked own under
    exact Path.not_covers_of_parent parent (only ▸ covers)
  · apply allowed.imp
    intro y x allows e b d _ own parent prefers covers
    exact allows.preferred x.path b d own parent prefers covers (.refl x.path)

theorem within (course : Course ctx p stints next) : ∀ x ∈ stints, x.Within := by
  induction course with
  | directory status s =>
    intro x member filed
    obtain rfl := List.mem_singleton.1 member
    cases stale : s.store.isStale ctx.generation with
    | true => exact within_of_quiet ((edits_addDirectory p status s).quiet_of_stale stale) filed
    | false =>
      have same := sameBeyond_addDirectory stale p status
      constructor
      · intro q out
        rw [← Std.ExtTreeMap.isSome_getElem?_iff_mem, stint, same.files q out,
          Std.ExtTreeMap.isSome_getElem?_iff_mem]
      · intro q out
        rw [← Std.ExtTreeMap.isSome_getElem?_iff_mem, stint, same.directories q out,
          Std.ExtTreeMap.isSome_getElem?_iff_mem]
  | entry s =>
    intro x member
    obtain rfl := List.mem_singleton.1 member
    apply within_of_quiet
    unfold Context.addEntry
    split <;> exact .refl _
  | move course lists taken ih =>
    intro x member
    rcases List.mem_append.1 member with old | new
    · exact ih x old
    · exact taken.within x new

end Course

/-- What the order of the policy means for the stints of a crawl. -/
structure Precedence (policy : Policy) (stints : List Stint) : Prop where
  /-- What is done for an entry, at it and below it, is done before anything is done for an entry that
  it is preferred to. -/
  preferred : stints.Pairwise fun x y => ∀ a b d, a.parent = some d → b.parent = some d →
    policy.Prefers a b → b.Covers x.path → ¬ a.Covers y.path
  /-- If an entry fails, nothing is ever done for an entry that it is preferred to. -/
  failed : ∀ x ∈ stints, ∀ y ∈ stints, ∀ e b d, x.ended = some (.error e) →
    x.path.parent = some d → b.parent = some d → policy.Prefers x.path b → ¬ b.Covers y.path
  /-- If an entry with a rank fails, nothing more is done below its directory. -/
  cut : stints.Pairwise fun x y => ∀ e d, x.ended = some (.error e) → policy.rank? x.path ≠ none →
    x.path.parent = some d → d.Covers y.path → y.path = d
  /-- After a project is reported complete, nothing more is done at its root and below it. -/
  complete : stints.Pairwise fun x y => x.after.store.completed ≠ x.before.store.completed →
    ¬ x.path.Covers y.path
  reports : ∀ x ∈ stints, x.Reports
  within : ∀ x ∈ stints, x.Within

/-- Whatever the disk answers, whichever of the waits ends first and whatever happens to the store
meanwhile, the stints of a crawl are in the order of the policy; and they are all that it does, since
each move adds the stints that lead from the scope before the move to the one after it. -/
theorem crawl_precedence {ctx : Context} {p : Path} {stints : List Stint} {next : Progress}
    (course : Course ctx p stints next) (absolute : p.isAbsolute = true) :
    Precedence ctx.policy stints ∧
      ∀ task, next = .waiting task → ∀ (world : World) (schedule : List Nat) (s : Scope),
        world.ListsOnce → ∃ more, Links s more (task.step ctx world schedule s).1 ∧
          Course ctx p (stints ++ more) (task.step ctx world schedule s).2 := by
  have allowed := (course.allows absolute).1
  constructor
  · refine ⟨?_, course.none_after_failure absolute, ?_, ?_, course.reports, course.within⟩
    · exact allowed.imp fun allows => allows.preferred
    · exact allowed.imp fun allows => allows.failed
    · apply allowed.imp_of_mem
      intro x y member _ allows reported
      rcases course.reports x member with same | ⟨_, ended⟩
      · exact absurd same reported
      · exact allows.ended (by simp [ended])
  · intro task waits world schedule s lists
    subst waits
    obtain ⟨more, taken⟩ := (Task.step_moves ctx world schedule task s).takes
    exact ⟨more, taken.links, course.move lists taken⟩

/-- The name `a` comes first. -/
def firstA : Context where
  policy := ⟨[], [[97]], ⟨[109], [110]⟩, [99], [], [], ""⟩
  reason := .initial
  generation := 0
  follows := false

/-- A directory `/w` with the entries `b` and `a`, neither of them a directory or a file. -/
def twoEntries : World where
  entry _ := .ok ⟨.unknown, 0, 0⟩
  stat _ := .ok ⟨.unknown, 0, 0⟩
  children dir :=
    if dir = Path.under [[119]] then .ok [Path.under [[119], [98]], Path.under [[119], [97]]] else .ok []
  contents _ := .ok []

theorem listsOnce_twoEntries : twoEntries.ListsOnce where
  distinct dir cs _ listed := by
    unfold twoEntries at listed
    dsimp only at listed
    split at listed
    · cases listed
      decide
    · cases listed
      exact List.nodup_nil
  entries dir cs _ listed := by
    unfold twoEntries at listed
    dsimp only at listed
    split at listed
    next own =>
      cases listed
      subst own
      decide
    · cases listed
      simp

/-- Although `b` is listed before it, `a` is dealt with first. -/
theorem crawl_precedence_two_entries :
    let dir := Path.under [[119]]
    let a := Path.under [[119], [97]]
    let b := Path.under [[119], [98]]
    firstA.policy.Prefers a b ∧ ∃ stints, Course firstA dir stints (.finished (.ok true)) ∧
      stints.map Stint.path = [dir, dir, a, dir, b, b, dir] ∧ Precedence firstA.policy stints := by
  intro dir a b
  let s : Scope := ⟨.empty [109] .perDirectory, []⟩
  have prefers : firstA.policy.Prefers a b := by
    refine ⟨0, rfl, ?_⟩
    intro m later
    cases later
  have arranged : firstA.policy.arrange [b, a] = ([a], [b]) := by
    have split : ([b, a].partition fun c => (firstA.policy.rank? c).isSome) = ([a], [b]) := rfl
    rw [Policy.arrange, split]
    dsimp only
    rw [List.mergeSort_singleton]
  have live : s.store.isStale firstA.generation = false := rfl
  have passed : ∀ p, ∃ s', Task.Takes firstA twoEntries s (.entry p)
      [stint p s (s', .finished (.ok false))] (s', .finished (.ok false)) := by
    intro p
    obtain ⟨s', _, _, examined⟩ := examined_ok live p ⟨.unknown, 0, 0⟩
    have answer : firstA.examined p (twoEntries.entry p) s = (s', .finished (.ok false)) := examined
    refine ⟨s', ?_⟩
    rw [← answer]
    exact .single trivial (.entry p)
  let listing := firstA.listed dir false (twoEntries.children dir) s
  have listed : listing.2 = .waiting (.inOrder dir (.entry a) [] [b]) := by
    rcases listed_outcome live dir false (twoEntries.children dir) with
      ⟨cause, told, _⟩ | ⟨children, told, _, next⟩
    · cases told
    · obtain rfl : [b, a] = children := Except.ok.inj told
      rw [arranged] at next
      exact next
  obtain ⟨s', firstEnds⟩ := passed a
  obtain ⟨s'', lastEnds⟩ := passed b
  have one : Course firstA dir [_] (.waiting (.list dir false)) := .directory ⟨.directory, 1, 1⟩ s
  have two : Course firstA dir _ listing.2 :=
    one.move listsOnce_twoEntries (.single trivial (.list dir false))
  rw [listed] at two
  have three : Course firstA dir _ (.waiting (.together dir [.begin b] none)) :=
    two.move listsOnce_twoEntries (.inOrderDone dir [] [b] firstEnds)
  have four : Course firstA dir _ (.waiting (.together dir [.entry b] none)) :=
    three.move listsOnce_twoEntries (.together dir [] [] none (.single trivial (.begin (s := s) b)))
  have five : Course firstA dir _ (.finished (.ok true)) :=
    four.move listsOnce_twoEntries (.togetherLast dir none lastEnds)
  have precedence := (crawl_precedence five rfl).1
  exact ⟨prefers, _, five, rfl, precedence⟩

end Crawl

end ProjectIndex
