import ProjectIndex.Proofs.Crawl.Bearing
import ProjectIndex.Proofs.Store.Sendings

/-!
# The leaves of a crawl

A task is a tree whose leaves are single waits.  A move is the end of one leaf: its scope is what that
leaf makes of it, but for the directories that have come to their end with it, and every other leaf
stays.  The entries of a directory are different, so no two leaves are about the same path.
-/

namespace ProjectIndex.Crawl

/-- The task waits for this single wait, by itself or in one of its parts. -/
inductive Task.Leaf : Task → Task → Prop where
  | single {task : Task} (single : task.Single) : Leaf task task
  | inOrder {dir : Path} {current leaf : Task} {queue rest : List Path} (inside : Leaf current leaf) :
      Leaf (.inOrder dir current queue rest) leaf
  | together {dir : Path} {task leaf : Task} {running : List Task} {failure : Option IndexError}
      (member : task ∈ running) (inside : Leaf task leaf) : Leaf (.together dir running failure) leaf

def Progress.Leaf (next : Progress) (leaf : Task) : Prop :=
  ∃ task, next = .waiting task ∧ task.Leaf leaf

def Task.Starts : Task → Prop
  | .begin _ => True
  | .entry _ => True
  | _ => False

@[simp] theorem Progress.leaf_waiting {task leaf : Task} :
    (Progress.waiting task).Leaf leaf ↔ task.Leaf leaf := by
  simp [Progress.Leaf]

@[simp] theorem Progress.leaf_finished (result : Except IndexError Bool) (leaf : Task) :
    ¬ (Progress.finished result).Leaf leaf := by
  simp [Progress.Leaf]

namespace Task

theorem Single.leaf_iff {task leaf : Task} (single : task.Single) : task.Leaf leaf ↔ leaf = task := by
  constructor
  · intro inside
    cases inside with
    | single _ => rfl
    | inOrder | together => exact absurd single id
  · rintro rfl
    exact .single single

@[simp] theorem leaf_inOrder {dir : Path} {current leaf : Task} {queue rest : List Path} :
    (Task.inOrder dir current queue rest).Leaf leaf ↔ current.Leaf leaf := by
  refine ⟨fun inside => ?_, .inOrder⟩
  cases inside with
  | single single => exact absurd single id
  | inOrder inside => exact inside

@[simp] theorem leaf_together {dir : Path} {running : List Task} {failure : Option IndexError}
    {leaf : Task} :
    (Task.together dir running failure).Leaf leaf ↔ ∃ task ∈ running, task.Leaf leaf := by
  refine ⟨fun inside => ?_, fun ⟨_, member, inside⟩ => .together member inside⟩
  cases inside with
  | single single => exact absurd single id
  | together member inside => exact ⟨_, member, inside⟩

/-- The leaves of entries that are crawled at once are those of one of them and those of the others. -/
theorem leaf_split {dir : Path} {before after : List Task} {task leaf : Task}
    {failure : Option IndexError} :
    (Task.together dir (before ++ task :: after) failure).Leaf leaf ↔
      task.Leaf leaf ∨ ∃ other ∈ before ++ after, other.Leaf leaf := by
  rw [leaf_together]
  simp only [List.mem_append, List.mem_cons]
  grind

/-- What holds of a task and is passed on to its parts holds of its leaves. -/
theorem Hereditary.leaf {good : Task → Prop} (hereditary : Hereditary good) {task leaf : Task}
    (inside : task.Leaf leaf) (holds : good task) : good leaf := by
  induction inside with
  | single _ => exact holds
  | inOrder _ ih => exact ih (hereditary.first holds)
  | together member _ ih => exact ih (hereditary.member holds member)

theorem Placed.hereditary : Hereditary Placed where
  first placed := by
    cases placed with
    | inOrder first _ _ => exact first
  member placed member := by
    cases placed with
    | together each _ _ => exact each _ member

/-- The leaves of a task lie at or below its path. -/
theorem Placed.covers_leaf {task leaf : Task} (placed : task.Placed) (inside : task.Leaf leaf) :
    task.path.Covers leaf.path := by
  induction inside with
  | single _ => exact .refl _
  | inOrder _ ih =>
    cases placed with
    | inOrder first siblings distinct =>
      exact (Path.covers_of_parent (siblings _ (by simp))).trans (ih first)
  | together member _ ih =>
    cases placed with
    | together each siblings distinct =>
      exact (Path.covers_of_parent (siblings _ member)).trans (ih (each _ member))

/-- The leaves of different entries that are crawled at once are about different paths. -/
theorem Placed.leaves_apart {dir : Path} {before after : List Task} {task other leaf leaf' : Task}
    {failure : Option IndexError}
    (placed : (Task.together dir (before ++ task :: after) failure).Placed)
    (member : other ∈ before ++ after) (inside : other.Leaf leaf) (inside' : task.Leaf leaf') :
    leaf.path ≠ leaf'.path := by
  cases placed with
  | together each siblings distinct =>
    have listed : other ∈ before ++ task :: after := by
      rcases List.mem_append.1 member with left | right <;> simp [*]
    have unlike : task.path ∉ (before ++ after).map Task.path := by
      rw [List.map_append, List.map_cons] at distinct
      rw [List.map_append]
      exact (List.nodup_middle.1 distinct).notMem
    intro same
    have covers := (each other listed).covers_leaf inside
    rw [same] at covers
    have together := Path.eq_of_siblings (siblings other listed) (siblings task (by simp)) covers
      ((each task (by simp)).covers_leaf inside')
    exact unlike (together ▸ List.mem_map_of_mem member)

/-- No two leaves of a task are about the same path. -/
theorem Placed.leaf_unique {task leaf leaf' : Task} (placed : task.Placed) (inside : task.Leaf leaf)
    (inside' : task.Leaf leaf') (same : leaf.path = leaf'.path) : leaf = leaf' := by
  induction inside with
  | single single => exact (single.leaf_iff.1 inside').symm
  | inOrder _ ih =>
    cases placed with
    | inOrder first _ _ => exact ih first (leaf_inOrder.1 inside') same
  | @together dir task leaf running failure member inside ih =>
    obtain ⟨other, listed, there⟩ := leaf_together.1 inside'
    obtain ⟨before, after, rfl⟩ := List.mem_iff_append.1 member
    rcases List.mem_cons.1 (List.perm_middle.mem_iff.1 listed) with rfl | beside
    · cases placed with
      | together each _ _ => exact ih (each other member) there same
    · exact absurd same.symm (placed.leaves_apart beside there inside)

end Task

/-- Nothing happens but that projects may grow. -/
structure Closes (s s' : Scope) : Prop where
  unsent : s.store.Unsent s'.store
  index : s'.store.index = s.store.index

theorem Closes.refl (s : Scope) : Closes s s :=
  ⟨.refl _, rfl⟩

theorem Closes.trans {s t u : Scope} (first : Closes s t) (second : Closes t u) : Closes s u :=
  ⟨first.unsent.trans second.unsent, second.index.trans first.index⟩

section

variable {ctx : Context} {world : World} {s : Scope}

theorem closes_finishDirectory (dir : Path) (s : Scope) :
    Closes s (Context.finishDirectory dir s).1 where
  unsent := (Store.unsent_directoryDone s.store dir).trans
    (Store.unsent_emit (by simp [Store.Unsending]) _)
  index := (quiet_finishDirectory dir s).index

theorem closes_conclude (dir : Path) (failure : Option IndexError) (s : Scope) :
    Closes s (conclude dir failure s).1 := by
  cases failure with
  | none => exact closes_finishDirectory dir s
  | some e => exact .refl s

theorem leaf_conclude (dir : Path) (failure : Option IndexError) (s : Scope) (leaf : Task) :
    ¬ (conclude dir failure s).2.Leaf leaf :=
  fun ⟨_, waits, _⟩ => conclude_not_waiting waits

theorem closes_nextInOrder (dir : Path) (queue rest : List Path) (s : Scope) :
    Closes s (ctx.nextInOrder dir queue rest s).1 := by
  have goesOn := entriesNext ctx s dir queue rest
  generalize ctx.nextInOrder dir queue rest s = r at goesOn ⊢
  cases goesOn with
  | next | others => exact .refl s
  | done => exact closes_finishDirectory dir s

/-- The next entries of a directory are started. -/
theorem leaf_following {dir : Path} {queue rest : List Path} {leaf : Task}
    (inside : (following dir queue rest).Leaf leaf) : leaf.Starts := by
  cases queue with
  | nil =>
    simp only [following] at inside
    split at inside
    · exact absurd inside (Progress.leaf_finished _ leaf)
    · obtain ⟨task, member, inside⟩ := Task.leaf_together.1 (Progress.leaf_waiting.1 inside)
      obtain ⟨p, _, rfl⟩ := List.mem_map.1 member
      cases inside
      trivial
  | cons p queue =>
    cases Task.leaf_inOrder.1 (Progress.leaf_waiting.1 inside)
    trivial

/-- A move as the end of one leaf.  A task that waits for nothing only comes to its end. -/
inductive Task.Shifts (ctx : Context) (world : World) (s : Scope) (task : Task)
    (r : Scope × Progress) : Prop where
  | leaf {leaf : Task} {r' : Scope × Progress} (inside : task.Leaf leaf) (single : leaf.Single)
      (moved : Moves ctx world s leaf r') (closes : Closes r'.1 r.1)
      (waits : ∀ t, r'.2 = .waiting t → r.1 = r'.1 ∧ ∃ t', r.2 = .waiting t')
      (goesOn : ∀ l, r'.2.Leaf l ∨ (task.Leaf l ∧ l.path ≠ leaf.path) → r.2.Leaf l)
      (origin : ∀ l, r.2.Leaf l → r'.2.Leaf l ∨ (task.Leaf l ∧ l.path ≠ leaf.path) ∨ l.Starts)
  | idle (closes : Closes s r.1) (goesOn : ∀ l, task.Leaf l → r.2.Leaf l)
      (origin : ∀ l, r.2.Leaf l → task.Leaf l ∨ l.Starts)

/-- The end of a single wait is that of its only leaf. -/
theorem Task.Moves.shifts_single {task : Task} {r : Scope × Progress}
    (moved : Task.Moves ctx world s task r) (single : task.Single) : task.Shifts ctx world s r := by
  refine .leaf (.single single) single moved (.refl _) (fun t waits => ⟨rfl, t, waits⟩) ?_
    fun l inside => Or.inl inside
  rintro l (inside | ⟨inside, other⟩)
  · exact inside
  · exact absurd (congrArg Task.path (single.leaf_iff.1 inside)) other

/-- What is around a task, with leaves of its own, shifts as the task does. -/
theorem Task.Shifts.around {task outer : Task} {r R : Scope × Progress}
    (shifts : task.Shifts ctx world s r) (others : Task → Prop)
    (leaves : ∀ l, outer.Leaf l ↔ task.Leaf l ∨ others l)
    (apart : ∀ l leaf, others l → task.Leaf leaf → l.path ≠ leaf.path) (closes : Closes r.1 R.1)
    (waits : ∀ t, r.2 = .waiting t → R.1 = r.1 ∧ ∃ t', R.2 = .waiting t')
    (goesOn : ∀ l, r.2.Leaf l ∨ others l → R.2.Leaf l)
    (origin : ∀ l, R.2.Leaf l → r.2.Leaf l ∨ others l ∨ l.Starts) : outer.Shifts ctx world s R := by
  cases shifts with
  | @leaf leaf r' inside single moved closes' waits' goesOn' origin' =>
    refine .leaf ((leaves leaf).2 (Or.inl inside)) single moved (closes'.trans closes) ?_ ?_ ?_
    · intro t next
      obtain ⟨same, t', next'⟩ := waits' t next
      obtain ⟨same', further⟩ := waits t' next'
      exact ⟨same'.trans same, further⟩
    · rintro l (next | ⟨own, other⟩)
      · exact goesOn l (Or.inl (goesOn' l (Or.inl next)))
      · rcases (leaves l).1 own with own | beside
        · exact goesOn l (Or.inl (goesOn' l (Or.inr ⟨own, other⟩)))
        · exact goesOn l (Or.inr beside)
    · intro l next
      rcases origin l next with next | beside | starts
      · rcases origin' l next with next | ⟨own, other⟩ | starts
        · exact Or.inl next
        · exact Or.inr (Or.inl ⟨(leaves l).2 (Or.inl own), other⟩)
        · exact Or.inr (Or.inr starts)
      · exact Or.inr (Or.inl ⟨(leaves l).2 (Or.inr beside), apart l leaf beside inside⟩)
      · exact Or.inr (Or.inr starts)
  | idle closes' goesOn' origin' =>
    refine .idle (closes'.trans closes) (fun l own => ?_) fun l next => ?_
    · exact goesOn l (((leaves l).1 own).imp_left (goesOn' l))
    · rcases origin l next with next | beside | starts
      · exact (origin' l next).imp_left fun own => (leaves l).2 (Or.inl own)
      · exact Or.inl ((leaves l).2 (Or.inr beside))
      · exact Or.inr starts

/-- Every move is the end of one leaf. -/
theorem Task.Moves.shifts {task : Task} {r : Scope × Progress} (moved : Task.Moves ctx world s task r)
    (live : s.store.isStale ctx.generation = false) (placed : task.Placed) :
    task.Shifts ctx world s r := by
  induction moved with
  | begin p => exact (Task.Moves.begin p).shifts_single trivial
  | entry p => exact (Task.Moves.entry p).shifts_single trivial
  | subscribe dir known => exact (Task.Moves.subscribe dir known).shifts_single trivial
  | list dir known => exact (Task.Moves.list dir known).shifts_single trivial
  | project a root => exact (Task.Moves.project a root).shifts_single trivial
  | manifest a d => exact (Task.Moves.manifest a d).shifts_single trivial
  | @inOrder s' current current' dir queue rest moved ih =>
    have first := Placed.hereditary.first placed
    exact (ih first).around (fun _ => False) (by simp) (by simp) (.refl _)
      (fun t _ => ⟨rfl, _, rfl⟩) (by simp) fun l next => Or.inl (by simpa using next)
  | inOrderFailed dir queue rest moved ih =>
    have first := Placed.hereditary.first placed
    exact (ih first).around (fun _ => False) (by simp) (by simp) (.refl _)
      (fun t waits => by cases waits) (by simp) (by simp)
  | @inOrderDone s' current changed dir queue rest moved ih =>
    have first := Placed.hereditary.first placed
    have next := (nextInOrder_outcome ((moved.edits.isStale _).trans live) dir queue rest).2
    refine (ih first).around (fun _ => False) (by simp) (by simp)
      (closes_nextInOrder dir queue rest s') (fun t waits => by cases waits) (by simp)
      fun l inside => Or.inr (Or.inr ?_)
    rw [next] at inside
    exact leaf_following inside
  | @together s' task task' dir before after failure moved ih =>
    have first : task.Placed := Placed.hereditary.member placed (by simp)
    refine (ih first).around (fun l => ∃ other ∈ before ++ after, other.Leaf l) ?_ ?_ (.refl _)
      (fun t _ => ⟨rfl, _, rfl⟩) ?_ ?_
    · exact fun l => leaf_split
    · rintro l leaf ⟨other, member, inside⟩ inside'
      exact placed.leaves_apart member inside inside'
    · intro l
      rw [Progress.leaf_waiting, Progress.leaf_waiting, leaf_split]
      exact id
    · intro l
      rw [Progress.leaf_waiting, Progress.leaf_waiting, leaf_split]
      exact Or.imp_right Or.inl
  | @togetherDone s' task result dir before after failure moved left ih =>
    have first : task.Placed := Placed.hereditary.member placed (by simp)
    refine (ih first).around (fun l => ∃ other ∈ before ++ after, other.Leaf l) ?_ ?_ (.refl _)
      (fun t waits => by cases waits) ?_ ?_
    · exact fun l => leaf_split
    · rintro l leaf ⟨other, member, inside⟩ inside'
      exact placed.leaves_apart member inside inside'
    · simp
    · intro l
      simp only [Progress.leaf_waiting, leaf_together]
      exact fun inside => Or.inr (Or.inl inside)
  | @togetherLast s' task result dir failure moved ih =>
    have first : task.Placed := Placed.hereditary.member placed (by simp)
    exact (ih first).around (fun _ => False) (by simp) (by simp) (closes_conclude dir _ s')
      (fun t waits => by cases waits) (by simp) fun l next => absurd next (leaf_conclude dir _ s' l)
  | togetherNone dir failure =>
    exact .idle (closes_conclude dir failure s) (by simp) fun l next =>
      absurd next (leaf_conclude dir failure s l)

end

end ProjectIndex.Crawl
