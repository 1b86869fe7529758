import ProjectIndex.Proofs.Crawl.Stance
import Mathlib.Algebra.GroupWithZero.Nat

/-!
# Every crawl ends

Where directories do not nest without end, each task has a cost: for every entry that it can still
come to, a few waits.  Each move lowers the cost of the task, whatever the schedule is and whatever
the index says, so no crawl goes on for ever.
-/

namespace ProjectIndex

namespace Site

def Shallow (site : Site) (bound : Nat) : Prop :=
  ∀ d, site.Opens d → d.components.length < bound

/-- The number of entries below a path, no more than `depth` levels down. -/
def entriesWithin (site : Site) : Nat → Path → Nat
  | 0, _ => 0
  | depth + 1, p =>
    match site.world.children p with
    | .error _ => 0
    | .ok cs => (cs.map fun c => site.entriesWithin depth c + 1).sum

/-- The number of entries that a crawl of the path can come to. -/
def weight (site : Site) (bound : Nat) (p : Path) : Nat :=
  site.entriesWithin (bound - p.components.length) p

/-- The entries of a directory weigh less than the directory, by one for each. -/
theorem weight_entries {site : Site} {bound : Nat} {d : Path} {cs : List Path}
    (lists : site.Lists) (shallow : site.Shallow bound) (opens : site.Opens d)
    (told : site.world.children d = .ok cs) :
    (cs.map fun c => site.weight bound c + 1).sum = site.weight bound d := by
  obtain ⟨depth, deep⟩ : ∃ depth, bound - d.components.length = depth + 1 :=
    ⟨bound - d.components.length - 1, by have := shallow d opens; omega⟩
  have entry : ∀ c ∈ cs, site.weight bound c + 1 = site.entriesWithin depth c + 1 := by
    intro c member
    have longer := Path.length_of_parent ((lists.entries d cs opens told).2 c member).1
    have left : bound - c.components.length = depth := by omega
    rw [weight, left]
  rw [List.map_congr_left entry, weight, deep, entriesWithin, told]

end Site

def Declaration.cost : Declaration → Nat
  | .reading _ _ => 3
  | .declaring _ => 2
  | .publishing _ => 1

namespace Crawl

mutual

/-- How many waits a task has left, at most, when paths weigh as much as `weight` says. -/
def Task.cost (weight : Path → Nat) : Task → Nat
  | .begin p => 6 * weight p + 6
  | .entry p => 6 * weight p + 5
  | .subscribe d _ => 6 * weight d + 3
  | .list d _ => 6 * weight d + 2
  | .project _ _ => 4
  | .manifest _ d => d.cost
  | .inOrder _ current queue rest =>
    current.cost weight + ((queue ++ rest).map fun q => 6 * weight q + 6).sum + 1
  | .together _ running _ => Task.costs weight running + 1

def Task.costs (weight : Path → Nat) : List Task → Nat
  | [] => 0
  | task :: rest => task.cost weight + Task.costs weight rest

end

def Progress.cost (weight : Path → Nat) : Progress → Nat
  | .waiting task => task.cost weight
  | .finished _ => 0

section

variable {weight : Path → Nat}

theorem costs_append (left right : List Task) :
    Task.costs weight (left ++ right) = Task.costs weight left + Task.costs weight right := by
  induction left with
  | nil => simp [Task.costs]
  | cons task rest ih => simp only [List.cons_append, Task.costs, ih]; omega

theorem costs_begin (rest : List Path) :
    Task.costs weight (rest.map .begin) = (rest.map fun q => 6 * weight q + 6).sum := by
  induction rest with
  | nil => rfl
  | cons q rest ih => simp only [List.map_cons, Task.costs, Task.cost, ih, List.sum_cons]

/-- A task that waits has at least that wait left. -/
theorem cost_pos (task : Task) : 0 < task.cost weight := by
  cases task with
  | manifest _ d => cases d <;> simp [Task.cost, Declaration.cost]
  | _ => simp [Task.cost]

theorem cost_following (d : Path) (queue rest : List Path) :
    (following d queue rest).cost weight ≤
      ((queue ++ rest).map fun q => 6 * weight q + 6).sum + 1 := by
  cases queue with
  | nil =>
    simp only [following, List.nil_append]
    split
    · simp [Progress.cost]
    · simp [Progress.cost, Task.cost, costs_begin]
  | cons p queue =>
    simp only [following, Progress.cost, Task.cost, List.cons_append, List.map_cons, List.sum_cons]
    omega

/-- What comes of the question what a path is costs less than the question. -/
theorem Finding.cheaper {site : Site} {p : Path} {ix ix' : Index} {next : Progress}
    (finding : Finding site p ix ix' next) : next.cost weight < (Task.entry p).cost weight := by
  have ended : ∀ result, (Progress.finished result).cost weight < (Task.entry p).cost weight := by
    simp [Progress.cost, Task.cost]
  cases finding with
  | gone _ _ _ ends | special _ _ _ ends =>
    obtain ⟨changed, rfl⟩ := ends
    exact ended _
  | failed _ _ _ ends => exact ends ▸ ended _
  | @taken st _ _ kind _ taken =>
    cases taken with
    | passed _ _ ends =>
      obtain ⟨changed, rfl⟩ := ends
      exact ended _
    | written _ _ _ _ directory file =>
      cases kinds : st.kind with
      | unknown => exact absurd kinds kind
      | directory =>
        obtain ⟨known, rfl | rfl⟩ := directory kinds <;> simp [Progress.cost, Task.cost]
      | file =>
        rcases file kinds with ⟨a, root, _, rfl⟩ | ⟨a, _, rfl⟩ | ⟨_, rfl⟩
        · simp only [Progress.cost, Task.cost]
          omega
        · simp only [Progress.cost, Task.cost, Declaration.cost]
          omega
        · exact ended _

/-- A declaration that goes on has fewer waits left. -/
theorem manifest_cheaper {ctx : Context} {world : World} {s : Scope} {a : Arrival} {d : Declaration}
    (live : s.store.isStale ctx.generation = false) :
    (ctx.resume a (d.step ctx.policy world ctx.generation s)).2.cost weight < d.cost := by
  cases d with
  | reading path directory =>
    have outcome := reading_outcome live world a path directory
    dsimp only at outcome ⊢
    split at outcome
    · rw [outcome.2]
      split <;> simp [Progress.cost, Declaration.cost]
    · split at outcome
      · simp [outcome.2, Progress.cost, Declaration.cost]
      · rcases outcome.2 with next | next <;>
          simp [next, Progress.cost, Task.cost, Declaration.cost]
  | declaring D =>
    obtain ⟨⟨_, next⟩, _⟩ := installed_outcome live world a D
    simp [next, Progress.cost, Task.cost, Declaration.cost]
  | publishing D =>
    obtain ⟨_, _, next⟩ := installed_outcome live world a D
    simp [next, Progress.cost, Declaration.cost]

theorem sum_budget (cs : List Path) :
    (cs.map fun q => 6 * weight q + 6).sum = 6 * (cs.map fun q => weight q + 1).sum := by
  induction cs with
  | nil => rfl
  | cons c rest ih =>
    simp only [List.map_cons, List.sum_cons, ih]
    omega

end

/-- If the end of each single wait lowers the number of waits that are left, then so does every
move. -/
theorem Task.Moves.cheaper_of_single {weight : Path → Nat} {ctx : Context} {world : World}
    {s : Scope} {task : Task} {r : Scope × Progress} (moved : Task.Moves ctx world s task r)
    {good : Task → Prop} (parts : Task.Hereditary good)
    (live : s.store.isStale ctx.generation = false)
    (single : ∀ task r, Task.Moves ctx world s task r → task.Single → good task →
      r.2.cost weight < task.cost weight) (fine : good task) :
    r.2.cost weight < task.cost weight := by
  induction moved with
  | begin q => exact single _ _ (.begin q) trivial fine
  | entry q => exact single _ _ (.entry q) trivial fine
  | subscribe d known => exact single _ _ (.subscribe d known) trivial fine
  | list d known => exact single _ _ (.list d known) trivial fine
  | project a root => exact single _ _ (.project a root) trivial fine
  | manifest a d => exact single _ _ (.manifest a d) trivial fine
  | inOrder d queue rest moved ih =>
    have inner := ih (parts.first fine)
    simp only [Progress.cost, Task.cost] at inner ⊢
    omega
  | inOrderFailed d queue rest moved ih => simp [Progress.cost, Task.cost]
  | @inOrderDone s' current changed d queue rest moved ih =>
    rw [(nextInOrder_outcome ((moved.edits.isStale _).trans live) d queue rest).2]
    have below := @cost_following weight d queue rest
    have waits := @cost_pos weight current
    simp only [Task.cost]
    omega
  | together d before after failure moved ih =>
    have inner := ih (parts.member fine (by simp))
    simp only [Progress.cost, Task.cost, costs_append, Task.costs] at inner ⊢
    omega
  | @togetherDone s' task result d before after failure moved left ih =>
    have waits := @cost_pos weight task
    simp only [Progress.cost, Task.cost, costs_append, Task.costs]
    omega
  | togetherLast d failure moved ih | togetherNone d failure =>
    have ended : ∀ failure s, (conclude d failure s).2.cost weight = 0 := by
      intro failure s
      cases failure <;> rfl
    simp [ended, Task.cost]

/-- What comes of the entries of a directory costs less than the directory. -/
theorem listed_cheaper {site : Site} {bound : Nat} {ctx : Context} {s : Scope} {d : Path}
    {known : Bool} (lists : site.Lists) (shallow : site.Shallow bound)
    (live : s.store.isStale ctx.generation = false) (opens : site.Opens d) :
    (ctx.listed d known (site.world.children d) s).2.cost (site.weight bound) <
      (Task.list d known).cost (site.weight bound) := by
  rcases listed_outcome live d known (site.world.children d) with
    ⟨cause, _, ⟨_, _, ends⟩ | ⟨_, ends⟩⟩ | ⟨cs, told, _, next⟩
  · simp [ends, Progress.cost, Task.cost]
  · simp [ends, Progress.cost, Task.cost]
  · have below := @cost_following (site.weight bound) d
      (ctx.policy.arrange cs).1 (ctx.policy.arrange cs).2
    have arranged := ((ctx.policy.arrange_perm cs).map fun q =>
      6 * site.weight bound q + 6).sum_nat
    have entries := Site.weight_entries lists shallow opens told
    rw [arranged, sum_budget, entries] at below
    rw [next]
    simp only [Task.cost]
    omega

/-- The end of a wait for something that does not depend on the index costs less than the wait. -/
theorem Task.Moves.cheaper_aside {weight : Path → Nat} {ctx : Context} {world : World} {s : Scope}
    {task : Task} {r : Scope × Progress} (moved : Task.Moves ctx world s task r)
    (live : s.store.isStale ctx.generation = false) (single : task.Single)
    (entry : ∀ p, task ≠ .entry p) (list : ∀ d known, task ≠ .list d known) :
    r.2.cost weight < task.cost weight := by
  cases moved with
  | begin q =>
    rw [addEntry_outcome live]
    simp [Progress.cost, Task.cost]
  | entry q => exact absurd rfl (entry q)
  | subscribe d known => simp [Progress.cost, Task.cost]
  | list d known => exact absurd rfl (list d known)
  | project a root =>
    rw [(projectDeclared_outcome live a root (world.projectRemarks root)).2]
    split <;> simp [Progress.cost, Task.cost, Declaration.cost]
  | manifest a d =>
    have cheaper := @manifest_cheaper weight ctx world s a d live
    simpa [Task.cost] using cheaper
  | inOrder | inOrderFailed | inOrderDone | together | togetherDone | togetherLast | togetherNone =>
    exact absurd single id

/-- Every move lowers the number of waits that are left. -/
theorem Task.Moves.cheaper {site : Site} {bound : Nat} {ctx : Context} {s : Scope} {task : Task}
    {r : Scope × Progress} (moved : Task.Moves ctx site.world s task r) {p : Path}
    (lists : site.Lists) (shallow : site.Shallow bound) (policy : ctx.policy = site.policy)
    (live : s.store.isStale ctx.generation = false) (sound : s.store.index.Sound site.root)
    (fits : Task.Fits site s.store.index p task) :
    r.2.cost (site.weight bound) < task.cost (site.weight bound) := by
  have parts : Task.Hereditary fun task => ∃ p, Task.Fits site s.store.index p task := by
    refine ⟨?_, ?_⟩
    · rintro d current queue rest ⟨p, fits⟩
      cases fits with
      | inOrder _ _ first _ _ => exact ⟨_, first⟩
    · rintro d running failure task ⟨p, fits⟩ member
      cases fits with
      | together placed shape _ _ each _ _ =>
        subst shape
        obtain ⟨x, inside, rfl⟩ := List.mem_map.1 member
        exact ⟨x.1, each x inside⟩
  refine moved.cheaper_of_single parts live ?_ ⟨p, fits⟩
  rintro task r moved single ⟨p, fits⟩
  cases fits with
  | entry hooked reached =>
    cases moved
    exact (examined_effect lists policy live sound hooked reached).finding.cheaper
  | list directory opens bare =>
    cases moved
    exact listed_cheaper lists shallow live opens
  | begin | subscribe | project | manifest =>
    exact moved.cheaper_aside live single (by simp) (by simp)
  | inOrder | together => exact absurd single id

end Crawl

end ProjectIndex
