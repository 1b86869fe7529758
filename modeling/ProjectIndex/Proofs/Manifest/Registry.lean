import Mathlib.Data.List.Pairwise
import ProjectIndex.Proofs.Crawl.Declarations
import ProjectIndex.Proofs.Index.Reach
import ProjectIndex.Proofs.Manifest.Phases
import ProjectIndex.Proofs.Runs

/-!
# Interleaved declarations

Any number of declarations on one store, which share its counter and its table of manifests.  A
`Registry` is the store together with the declarations that were asked for so far, and a `Move` is
what happens next: somebody asks for a declaration, one of them goes on, or somebody else writes to
the index, evicts a path or cancels a generation.

What is installed along a run is kept in a list, in the order of installation, and so are the numbers
that were taken.  Each installed definition has a greater number than those before it, so what the
table holds under a directory is the last definition that was installed there, until it is evicted.
-/

namespace ProjectIndex

open Std
open Declaration (Handling Phase Request)

namespace Index

/-- From `ix` to `left` no manifest is installed, though some may go. -/
def Fewer (ix left : Index) : Prop :=
  ∀ (dir : Path) (D : Definition), left.manifests[dir]? = some D → ix.manifests[dir]? = some D

theorem Fewer.of_eq {ix left : Index} (same : left.manifests = ix.manifests) : Fewer ix left :=
  fun _ _ found => same ▸ found

theorem Fewer.erase {ix left : Index} (fewer : Fewer ix left) (dir : Path) :
    Fewer ix { left with manifests := left.manifests.erase dir } := by
  intro other D found
  rw [ExtTreeMap.getElem?_erase] at found
  split at found
  · cases found
  · exact fewer other D found

theorem fewer_forgetFile (ix : Index) (p : Path) : Fewer ix (ix.forgetFile p) := by
  have same : Fewer ix ix := .of_eq rfl
  unfold forgetFile
  split
  · split
    · exact same.erase _
    · exact same
  · exact same

theorem fewer_forgetWithin (depth : Nat) (ix : Index) (p : Path) :
    Fewer ix (forgetWithin depth ix p).1 := by
  induction depth generalizing ix p with
  | zero => exact .of_eq rfl
  | succ depth ih =>
    unfold forgetWithin
    split
    · apply Fewer.erase
      apply foldl_forgetWithin (P := fun left _ => Fewer ix left)
      · intro c _ left _ fewer dir D found
        exact fewer dir D (ih left c dir D found)
      · exact .of_eq rfl
    · split
      · exact ix.fewer_forgetFile p
      · exact .of_eq rfl

theorem fewer_evict (ix : Index) (p : Path) : Fewer ix (ix.evict p).1 := by
  intro dir D found
  rw [evict, unlistChild_manifests] at found
  exact fewer_forgetWithin _ ix p dir D found

theorem fewer_insertDirectory (ix : Index) (p : Path) (status : Status) (live : Bool) :
    Fewer ix (ix.insertDirectory p status live).1 := by
  cases live with
  | false => exact .of_eq rfl
  | true => exact .of_eq (ix.insertDirectory_manifests p status)

theorem fewer_insertFile (ix : Index) (p : Path) (status : Status) (live : Bool) :
    Fewer ix (ix.insertFile p status live).1 := by
  cases live with
  | false => exact .of_eq rfl
  | true => exact .of_eq (ix.insertFile_manifests p status)

end Index

namespace Store

/-- An eviction installs and sends nothing. -/
theorem evict_tells (s : Store) (p : Path) :
    s.index.Fewer (s.evict p).1.index ∧ (s.evict p).1.nextManifest = s.nextManifest ∧
      s.Tells (s.evict p).1 [] := by
  have fewer := s.index.fewer_evict p
  rcases s.evict_logged p with same | ⟨line, logged⟩
  · rw [same]
    exact ⟨fewer, rfl, [], rfl, rfl⟩
  · rw [logged]
    exact ⟨fewer, rfl, [.log line], rfl, rfl⟩

/-- A deletion installs nothing, and sends notices only. -/
theorem delete_tells (s : Store) (p : Path) :
    s.index.Fewer (s.delete p).index ∧ (s.delete p).nextManifest = s.nextManifest ∧
      s.Tells (s.delete p) [] := by
  obtain ⟨fewer, number, tells⟩ := s.evict_tells p
  have noted : (s.evict p).1.Tells (s.delete p) [] := by
    rw [delete_eq]
    refine ⟨_, rfl, List.filterMap_eq_nil_iff.2 ?_⟩
    simp [Effect.summary?]
  refine ⟨?_, ?_, tells.trans noted⟩
  · rw [delete_eq]
    exact fewer
  · rw [delete_eq]
    exact number

end Store

/-- A declaration that was asked for, on behalf of a generation and with remarks of its own. -/
structure Registry.Call where
  generation : Generation
  remarks : List Diagnostic
  progress : Declaration.Progress

/-- A store and all declarations that were asked for, in this order. -/
structure Registry where
  store : Store
  calls : List Registry.Call := []

namespace Registry

/-- What happens next. -/
inductive Move where
  | declare (generation : Generation) (request : Request)
  /-- The declaration with this number goes on, if it waits. -/
  | resume (call : Nat) (world : World)
  | insertDirectory (path : Path) (status : Status) (generation : Generation)
  | insertFile (path : Path) (status : Status) (generation : Generation)
  | evict (path : Path)
  | delete (path : Path)
  | cancel (generation : Generation)

/-- Nobody has asked for anything. -/
def fresh (manifestName : Name) (style : Backend.Style) : Registry where
  store := .empty manifestName style

/-- One move. -/
def step (policy : Policy) (s : Registry) : Move → Registry
  | .declare g r =>
    let (scope, progress) := Declaration.begin policy g r { store := s.store }
    ⟨scope.store, s.calls ++ [⟨g, scope.remarks, progress⟩]⟩
  | .resume i world =>
    match s.calls[i]? with
    | some ⟨g, remarks, .waiting d⟩ =>
      let (scope, progress) := d.step policy world g ⟨s.store, remarks⟩
      ⟨scope.store, s.calls.set i ⟨g, scope.remarks, progress⟩⟩
    | _ => s
  | .insertDirectory p status g =>
    let index := (s.store.index.insertDirectory p status (s.store.isLive g)).1
    { s with store := { s.store with index } }
  | .insertFile p status g =>
    let index := (s.store.index.insertFile p status (s.store.isLive g)).1
    { s with store := { s.store with index } }
  | .evict p => { s with store := (s.store.evict p).1 }
  | .delete p => { s with store := s.store.delete p }
  | .cancel g => { s with store := s.store.cancel g }

def run (policy : Policy) (s : Registry) (moves : List Move) : Registry :=
  moves.foldl (step policy) s

theorem run_concat (policy : Policy) (s : Registry) (moves : List Move) (move : Move) :
    s.run policy (moves ++ [move]) = (s.run policy moves).step policy move := by
  simp only [run, List.foldl_append, List.foldl_cons, List.foldl_nil]

def phase (s : Registry) (i : Nat) : Phase :=
  match s.calls[i]? with
  | some call => call.progress.phase
  | none => .blank

def Returned (s : Registry) (i : Nat) (result : Except IndexError (Option Definition)) : Prop :=
  ∃ call, s.calls[i]? = some call ∧ call.progress = .finished result

def Move.caller? (s : Registry) : Move → Option Nat
  | .declare _ _ => some s.calls.length
  | .resume i _ => some i
  | _ => none

/-- The directory that a move declares a manifest for. -/
def Move.directory? (s : Registry) : Move → Option Path
  | .declare _ r => some r.directory
  | .resume i _ =>
    match s.calls[i]? with
    | some ⟨_, _, .waiting d⟩ => some d.directory
    | _ => none
  | _ => none

theorem Returned.phase {s : Registry} {i : Nat} {D : Definition}
    (returned : s.Returned i (.ok (some D))) : s.phase i = .sent D := by
  obtain ⟨call, found, ended⟩ := returned
  simp only [Registry.phase, found, ended, Declaration.Progress.phase]

theorem phase_append (s : Registry) (store : Store) (call : Call) (i : Nat) :
    phase ⟨store, s.calls ++ [call]⟩ i =
      if i = s.calls.length then call.progress.phase else s.phase i := by
  unfold phase
  rcases Nat.lt_trichotomy i s.calls.length with before | rfl | beyond
  · rw [if_neg (Nat.ne_of_lt before), List.getElem?_append_left before]
  · rw [List.getElem?_concat_length, if_pos rfl]
  · have later : (s.calls ++ [call]).length ≤ i := by
      rw [List.length_append]
      exact beyond
    rw [if_neg (Nat.ne_of_gt beyond), List.getElem?_eq_none later,
      List.getElem?_eq_none (Nat.le_of_lt beyond)]

/-- Nothing is installed by a declaration that nobody has asked for. -/
theorem phase_length (s : Registry) : s.phase s.calls.length = .blank := by
  simp only [phase, List.getElem?_eq_none (Nat.le_refl _)]

theorem phase_set (s : Registry) (store : Store) {i : Nat} {old : Call}
    (found : s.calls[i]? = some old) (call : Call) (j : Nat) :
    phase ⟨store, s.calls.set i call⟩ j = if j = i then call.progress.phase else s.phase j := by
  have within : i < s.calls.length := (List.getElem?_eq_some_iff.1 found).1
  unfold phase
  by_cases same : j = i
  · simp [same, within]
  · simp [same, List.getElem?_set_ne (Ne.symm same)]

/-- What a move does to the store and to the declarations under way. -/
inductive Change (s : Registry) (move : Move) (t : Registry) : Prop where
  | still (same : t = s)
  /-- A declaration goes on. -/
  | called (i : Nat) (dir : Path) (own : move.caller? s = some i)
      (target : move.directory? s = some dir)
      (deed : Handling dir s.store t.store (s.phase i) (t.phase i))
      (others : ∀ j, j ≠ i → t.phase j = s.phase j)
  /-- Something else happens, which installs and sends nothing. -/
  | apart (own : move.caller? s = none) (calls : t.calls = s.calls)
      (manifests : s.store.index.Fewer t.store.index)
      (number : t.store.nextManifest = s.store.nextManifest) (tells : s.store.Tells t.store [])

theorem step_change (policy : Policy) (s : Registry) (move : Move) :
    Change s move (s.step policy move) := by
  cases move with
  | declare g r =>
    obtain ⟨deed, -⟩ := Declaration.begin_deed policy g r { store := s.store }
    apply Change.called s.calls.length r.directory rfl rfl
    · rw [phase_length, step, phase_append, if_pos rfl]
      exact deed
    · intro j other
      rw [step, phase_append, if_neg other]
  | resume i world =>
    cases found : s.calls[i]? with
    | none =>
      apply Change.still
      simp only [step, found]
    | some call =>
      obtain ⟨g, remarks, progress⟩ := call
      cases progress with
      | finished result =>
        apply Change.still
        simp only [step, found]
      | waiting d =>
        obtain ⟨deed, -⟩ := Declaration.step_deed policy world g d ⟨s.store, remarks⟩
        have stepped : s.step policy (.resume i world) =
            ⟨(d.step policy world g ⟨s.store, remarks⟩).1.store, s.calls.set i
              ⟨g, (d.step policy world g ⟨s.store, remarks⟩).1.remarks,
                (d.step policy world g ⟨s.store, remarks⟩).2⟩⟩ := by
          simp only [step, found]
        have before : s.phase i = (Declaration.Progress.waiting d).phase := by
          simp only [phase, found]
        apply Change.called i d.directory rfl
        · simp only [Move.directory?, found]
        · rw [before, stepped, phase_set s _ found, if_pos rfl]
          exact deed
        · intro j other
          rw [stepped, phase_set s _ found, if_neg other]
  | insertDirectory p status g =>
    exact .apart rfl rfl (Index.fewer_insertDirectory _ p status _) rfl ⟨[], rfl, rfl⟩
  | insertFile p status g =>
    exact .apart rfl rfl (Index.fewer_insertFile _ p status _) rfl ⟨[], rfl, rfl⟩
  | evict p =>
    obtain ⟨fewer, number, tells⟩ := s.store.evict_tells p
    exact .apart rfl rfl fewer number tells
  | delete p =>
    obtain ⟨fewer, number, tells⟩ := s.store.delete_tells p
    exact .apart rfl rfl fewer number tells
  | cancel g => exact .apart rfl rfl (.of_eq rfl) rfl ⟨[], rfl, rfl⟩

/-- The number that a move takes, whether anything is installed under it or not. -/
def taken (s : Registry) (_ : Move) (t : Registry) : List ManifestId :=
  if t.store.nextManifest = s.store.nextManifest then [] else [s.store.nextManifest]

/-- The definition that a declaration installs by a move, with the number of the declaration. -/
def installed (s : Registry) (move : Move) (t : Registry) : List (Nat × Definition) :=
  match move.caller? s with
  | none => []
  | some i =>
    match (s.phase i).definition?, (t.phase i).definition? with
    | none, some D => [(i, D)]
    | _, _ => []

/-- The effects of a move that belongs to the declaration with this number. -/
def told (i : Nat) (s : Registry) (move : Move) (t : Registry) : List Effect :=
  if move.caller? s = some i then t.store.since s.store else []

/-- The numbers that were taken. -/
abbrev numbers (policy : Policy) : Registry → List Move → List ManifestId :=
  history (step policy) taken

/-- The definitions that were installed, each with the number of its declaration. -/
abbrev installations (policy : Policy) : Registry → List Move → List (Nat × Definition) :=
  history (step policy) installed

abbrev effectsOf (policy : Policy) (i : Nat) : Registry → List Move → List Effect :=
  history (step policy) (told i)

theorem taken_of_same {s t : Registry} {move : Move}
    (number : t.store.nextManifest = s.store.nextManifest) : taken s move t = [] :=
  if_pos number

theorem taken_of_next {s t : Registry} {move : Move}
    (number : t.store.nextManifest = s.store.nextManifest + 1) :
    taken s move t = [s.store.nextManifest] := by
  apply if_neg
  rw [number]
  intro same
  have toNat := congrArg UInt64.toNat same
  rw [UInt64.toNat_add, UInt64.toNat_one] at toNat
  omega

/-- A move that gives no declaration a definition installs none. -/
theorem installed_of_same {s t : Registry} {move : Move}
    (same : ∀ i, (t.phase i).definition? = (s.phase i).definition?) : installed s move t = [] := by
  unfold installed
  split
  · rfl
  next i _ =>
    rw [same i]
    cases (s.phase i).definition? <;> rfl

theorem installed_of_new {s t : Registry} {move : Move} {i : Nat} {D : Definition}
    (own : move.caller? s = some i) (before : (s.phase i).definition? = none)
    (after : (t.phase i).definition? = some D) : installed s move t = [(i, D)] := by
  simp only [installed, own, before, after]

/-- The counter, the phases and the table of manifests against what is on record. -/
structure Reconciled (s : Registry) (numbers : List ManifestId) (log : List (Nat × Definition)) : Prop where
  next : s.store.nextManifest.toNat = (numbers.length + 1) % UInt64.size
  phases : ∀ i D, (s.phase i).definition? = some D ↔ (i, D) ∈ log
  bounded : ∀ i D, (i, D) ∈ log → D.id.toNat ≤ numbers.length
  increasing : log.Pairwise fun earlier later => earlier.2.id < later.2.id
  table : ∀ (dir : Path) (D : Definition), s.store.index.manifests[dir]? = some D →
    D.directory = dir ∧ (∃ i, (i, D) ∈ log) ∧
      ∀ j E, (j, E) ∈ log → E.directory = dir → E.id ≤ D.id

theorem kept_fresh (name : Name) (style : Backend.Style) : Reconciled (fresh name style) [] [] where
  next := rfl
  phases i D := by simp [fresh, phase, Phase.definition?]
  bounded i D member := by simp at member
  increasing := List.Pairwise.nil
  table dir D found := by simp [fresh, Store.empty, Index.empty] at found

namespace Reconciled

variable {s t : Registry} {numbers more : List ManifestId} {log : List (Nat × Definition)}

/-- The counter after a number was taken. -/
theorem next_succ (kept : Reconciled s numbers log)
    (number : t.store.nextManifest = s.store.nextManifest + 1) :
    t.store.nextManifest.toNat = ((numbers ++ [s.store.nextManifest]).length + 1) % UInt64.size := by
  rw [number, UInt64.toNat_add, kept.next, UInt64.toNat_one, List.length_append, List.length_singleton]
  exact Nat.mod_add_mod _ _ _

/-- A move that gives no declaration a definition. -/
theorem fewer (kept : Reconciled s numbers log)
    (same : ∀ i, (t.phase i).definition? = (s.phase i).definition?)
    (fewer : s.store.index.Fewer t.store.index)
    (next : t.store.nextManifest.toNat = ((numbers ++ more).length + 1) % UInt64.size) :
    Reconciled t (numbers ++ more) log where
  next := next
  phases i D := by rw [same i, kept.phases]
  bounded i D member := by
    have before := kept.bounded i D member
    rw [List.length_append]
    omega
  increasing := kept.increasing
  table dir D found := kept.table dir D (fewer dir D found)

/-- The number under which a definition is installed is greater than those before. -/
theorem less_of_puts (kept : Reconciled s numbers log) {D : Definition} (puts : s.store.Puts t.store D)
    (few : numbers.length + 1 < UInt64.size) {j : Nat} {E : Definition} (member : (j, E) ∈ log) :
    E.id < D.id := by
  have before := kept.bounded j E member
  rw [UInt64.lt_iff_toNat_lt, puts.id, kept.next, Nat.mod_eq_of_lt few]
  omega

/-- A declaration installs a definition. -/
theorem puts (kept : Reconciled s numbers log) {D : Definition} (puts : s.store.Puts t.store D) {i : Nat}
    (before : (s.phase i).definition? = none) (after : (t.phase i).definition? = some D)
    (others : ∀ j, j ≠ i → t.phase j = s.phase j) (few : numbers.length + 1 < UInt64.size) :
    Reconciled t (numbers ++ [s.store.nextManifest]) (log ++ [(i, D)]) where
  next := kept.next_succ puts.number
  phases j E := by
    rw [List.mem_append, List.mem_singleton, Prod.mk.injEq]
    by_cases same : j = i
    · subst same
      have absent : (j, E) ∉ log := fun member => by
        have known := (kept.phases j E).2 member
        rw [before] at known
        cases known
      rw [after]
      simp [absent, eq_comm]
    · rw [others j same, kept.phases]
      simp [same]
  bounded j E member := by
    rw [List.length_append, List.length_singleton]
    rcases List.mem_append.1 member with earlier | now
    · have bound := kept.bounded j E earlier
      omega
    · obtain ⟨rfl, rfl⟩ := Prod.mk.inj (List.mem_singleton.1 now)
      rw [puts.id, kept.next, Nat.mod_eq_of_lt few]
  increasing := by
    refine List.pairwise_append.2 ⟨kept.increasing, List.pairwise_singleton _ _, ?_⟩
    rintro ⟨j, E⟩ member last now
    rw [List.mem_singleton.1 now]
    exact kept.less_of_puts puts few member
  table dir E found := by
    rw [puts.manifests, ExtTreeMap.getElem?_insert] at found
    split at found
    next here =>
      obtain rfl := LawfulEqCmp.compare_eq_iff_eq.1 here
      obtain rfl := Option.some.inj found
      refine ⟨rfl, ⟨i, by simp⟩, fun j F member _ => ?_⟩
      rcases List.mem_append.1 member with earlier | now
      · exact UInt64.le_of_lt (kept.less_of_puts puts few earlier)
      · obtain ⟨rfl, rfl⟩ := Prod.mk.inj (List.mem_singleton.1 now)
        exact UInt64.le_refl _
    next elsewhere =>
      obtain ⟨own, ⟨j, member⟩, largest⟩ := kept.table dir E found
      refine ⟨own, ⟨j, List.mem_append_left _ member⟩, fun k F listed same => ?_⟩
      rcases List.mem_append.1 listed with earlier | now
      · exact largest k F earlier same
      · obtain ⟨rfl, rfl⟩ := Prod.mk.inj (List.mem_singleton.1 now)
        exact absurd (same ▸ ReflCmp.compare_self) elsewhere

/-- A move that takes no number and gives no declaration a definition. -/
theorem still (kept : Reconciled s numbers log) {move : Move}
    (same : ∀ i, (t.phase i).definition? = (s.phase i).definition?)
    (fewer : s.store.index.Fewer t.store.index)
    (number : t.store.nextManifest = s.store.nextManifest) :
    Reconciled t (numbers ++ taken s move t) (log ++ installed s move t) := by
  rw [taken_of_same number, installed_of_same same, List.append_nil log]
  apply kept.fewer same fewer
  rw [List.append_nil, number, kept.next]

/-- A move that gives a declaration a definition. -/
theorem install (kept : Reconciled s numbers log) {move : Move} {i : Nat} {D : Definition}
    (own : move.caller? s = some i) (puts : s.store.Puts t.store D)
    (before : (s.phase i).definition? = none) (after : (t.phase i).definition? = some D)
    (others : ∀ j, j ≠ i → t.phase j = s.phase j)
    (few : (numbers ++ taken s move t).length < UInt64.size) :
    Reconciled t (numbers ++ taken s move t) (log ++ installed s move t) := by
  rw [taken_of_next puts.number] at few ⊢
  rw [installed_of_new own before after]
  rw [List.length_append] at few
  exact kept.puts puts before after others few

/-- Every move keeps the records true. -/
theorem change (kept : Reconciled s numbers log) {move : Move} (change : Change s move t)
    (few : (numbers ++ taken s move t).length < UInt64.size) :
    Reconciled t (numbers ++ taken s move t) (log ++ installed s move t) := by
  cases change with
  | still same =>
    subst same
    exact kept.still (fun i => rfl) (.of_eq rfl) rfl
  | apart own calls manifests number tells =>
    exact kept.still (fun i => by simp only [phase, calls]) manifests number
  | called i dir own target deed others =>
    have elsewhere : ∀ {P : Phase → Option Definition}, (P (t.phase i) = P (s.phase i)) →
        ∀ j, P (t.phase j) = P (s.phase j) := by
      intro P here j
      by_cases same : j = i
      · rw [same, here]
      · rw [others j same]
    generalize before : s.phase i = p at deed
    generalize after : t.phase i = q at deed
    cases deed with
    | idle phase logs number =>
      apply kept.still (elsewhere (by rw [before, after])) _ number
      exact .of_eq (congrArg Index.manifests logs.index)
    | spent logs number =>
      have same := elsewhere (P := Phase.definition?) (by rw [before, after])
      rw [taken_of_next number, installed_of_same same, List.append_nil]
      apply kept.fewer same _ (kept.next_succ number)
      exact .of_eq (congrArg Index.manifests logs.index)
    | noted D _ puts | sent D _ puts =>
      exact kept.install own puts (by rw [before]; rfl) (by rw [after]; rfl) others few
    | later D manifests number tells =>
      apply kept.still (elsewhere (by rw [before, after]; rfl)) (.of_eq manifests) number

end Reconciled

/-- The records of a run in which fewer than `UInt64.size` numbers were taken are true. -/
theorem kept_run (policy : Policy) (name : Name) (style : Backend.Style) (moves : List Move)
    (few : (numbers policy (fresh name style) moves).length < UInt64.size) :
    Reconciled ((fresh name style).run policy moves) (numbers policy (fresh name style) moves)
      (installations policy (fresh name style) moves) := by
  induction moves using List.reverseRecOn with
  | nil => exact kept_fresh name style
  | append_singleton moves move ih =>
    rw [numbers, history_concat] at few ⊢
    rw [installations, history_concat, run_concat]
    have earlier : (numbers policy (fresh name style) moves).length < UInt64.size := by
      rw [List.length_append] at few
      exact Nat.lt_of_le_of_lt (Nat.le_add_right _ _) few
    exact (ih earlier).change (step_change policy _ move) few

/-- A move sends on behalf of a declaration what it adds to the summaries of its phase. -/
theorem Change.told_summaries {s t : Registry} {move : Move} (change : Change s move t) (i : Nat) :
    (s.phase i).summaries ++ (told i s move t).filterMap Effect.summary? = (t.phase i).summaries := by
  cases change with
  | still same => simp [same, told, Store.since]
  | apart own calls => simp [told, own, phase, calls]
  | called j dir own target deed others =>
    by_cases same : i = j
    · subst same
      obtain ⟨new, tells, one, summaries⟩ := deed.tells
      rw [told, if_pos own, tells.since, one, summaries]
    · rw [others i same, told, own, if_neg fun h => same (Option.some.inj h).symm]
      simp

/-- A declaration has sent its definition, once, or it has sent nothing yet. -/
theorem sent_run (policy : Policy) (name : Name) (style : Backend.Style) (moves : List Move)
    (i : Nat) :
    (effectsOf policy i (fresh name style) moves).filterMap Effect.summary? =
      (((fresh name style).run policy moves).phase i).summaries := by
  induction moves using List.reverseRecOn with
  | nil => rfl
  | append_singleton moves move ih =>
    rw [effectsOf, history_concat, run_concat, List.filterMap_append, ← effectsOf, ih]
    exact (step_change policy _ move).told_summaries i

/-- A declaration that has installed a definition goes on to hold it. -/
theorem definition_run (policy : Policy) {s : Registry} {i : Nat} {D : Definition}
    (known : (s.phase i).definition? = some D) (moves : List Move) :
    ((s.run policy moves).phase i).definition? = some D := by
  induction moves generalizing s with
  | nil => exact known
  | cons move rest ih =>
    apply ih
    cases step_change policy s move with
    | still same => rw [same]; exact known
    | apart own calls =>
      rw [phase, calls]
      exact known
    | called j dir own target deed others =>
      by_cases same : i = j
      · subst same
        exact deed.definition_kept known
      · rw [others i same]
        exact known

/-- A move of a declaration that has installed nothing even afterwards adds lines to the log. -/
theorem logs_of_blank (policy : Policy) {s : Registry} {i : Nat} {move : Move}
    (own : move.caller? s = some i) (blank : ((s.step policy move).phase i).definition? = none) :
    s.store.Logs (s.step policy move).store := by
  cases step_change policy s move with
  | still same =>
    rw [same]
    exact .refl _
  | apart other => rw [own] at other; cases other
  | called j dir own' target deed others =>
    obtain rfl := Option.some.inj (own.symm.trans own')
    exact deed.logs blank

/-- A declaration that returns without a definition has installed none. -/
theorem Returned.blank {s : Registry} {i : Nat} {result : Except IndexError (Option Definition)}
    (returned : s.Returned i result) (without : ∀ D, result ≠ .ok (some D)) :
    (s.phase i).definition? = none := by
  obtain ⟨call, found, ended⟩ := returned
  rw [Registry.phase, found]
  dsimp only
  rw [ended]
  rcases result with e | _ | D
  · rfl
  · rfl
  · exact absurd rfl (without D)

theorem mem_installed {s t : Registry} {move : Move} {i : Nat} {D : Definition}
    (member : (i, D) ∈ installed s move t) :
    move.caller? s = some i ∧ (s.phase i).definition? = none ∧ (t.phase i).definition? = some D := by
  unfold installed at member
  split at member
  · cases member
  next j own =>
    split at member
    next E before after =>
      obtain ⟨rfl, rfl⟩ := Prod.mk.inj (List.mem_singleton.1 member)
      exact ⟨own, before, after⟩
    · cases member

/-- What a declaration installs by a move is what the table holds under its directory after it. -/
theorem manifest_of_installed (policy : Policy) {s : Registry} {move : Move} {i : Nat}
    {D : Definition} (member : (i, D) ∈ installed s move (s.step policy move)) :
    (s.step policy move).store.index.manifest? D.directory = some D := by
  obtain ⟨own, before, after⟩ := mem_installed member
  cases step_change policy s move with
  | still same =>
    rw [same, before] at after
    cases after
  | apart other =>
    rw [own] at other
    cases other
  | called j dir own' target deed others =>
    obtain rfl := Option.some.inj (own.symm.trans own')
    obtain ⟨-, puts⟩ := deed.puts before after
    rw [Index.manifest?, puts.manifests, ExtTreeMap.getElem?_insert_self]

/-- Two declarations install definitions with different numbers. -/
theorem Reconciled.ids_differ {s : Registry} {numbers : List ManifestId} {log : List (Nat × Definition)}
    (kept : Reconciled s numbers log) {i j : Nat} {D E : Definition} (first : (i, D) ∈ log)
    (second : (j, E) ∈ log) (different : i ≠ j) : D.id ≠ E.id := by
  have distinct : log.Pairwise fun a b => a.2.id ≠ b.2.id := kept.increasing.imp UInt64.ne_of_lt
  have : Std.Symm fun a b : Nat × Definition => a.2.id ≠ b.2.id := ⟨fun a b => Ne.symm⟩
  apply distinct.forall first second
  exact fun same => different (congrArg Prod.fst same)

theorem run_append (policy : Policy) (s : Registry) (before after : List Move) :
    s.run policy (before ++ after) = (s.run policy before).run policy after :=
  List.foldl_append

/-- What a declaration has not installed by the end of a run it has not installed before. -/
theorem blank_of_prefix (policy : Policy) {s : Registry} {before moves : List Move} {i : Nat}
    (earlier : before <+: moves) (blank : ((s.run policy moves).phase i).definition? = none) :
    ((s.run policy before).phase i).definition? = none := by
  obtain ⟨after, rfl⟩ := earlier
  cases known : ((s.run policy before).phase i).definition? with
  | none => rfl
  | some D =>
    have later := definition_run policy known after
    rw [← run_append, blank] at later
    cases later

/-- Any number of declarations are asked for and go on in any order, while others write, evict, delete
and cancel, and fewer than `UInt64.size` numbers are taken.  The definitions have increasing numbers in the
order of their installation, and what a declaration returns is among them, so that no two
declarations return the same number.  What the table holds under a directory was installed there, and
nothing with a greater number was.  A declaration that returns without a definition does nothing but
write lines to the log; one that returns a definition has sent it, and nothing else, once. -/
theorem declarations_number_and_send (policy : Policy) (name : Name) (style : Backend.Style)
    (moves : List Move) (few : (numbers policy (fresh name style) moves).length < UInt64.size) :
    let s := (fresh name style).run policy moves
    let log := installations policy (fresh name style) moves
    (log.Pairwise fun earlier later => earlier.2.id < later.2.id) ∧
      (∀ before move, before ++ [move] <+: moves →
        let s := (fresh name style).run policy before
        ∀ i D, (i, D) ∈ installed s move (s.step policy move) →
          (s.step policy move).store.index.manifest? D.directory = some D) ∧
      (∀ i D, s.Returned i (.ok (some D)) → (i, D) ∈ log) ∧
      (∀ i j D E, i ≠ j → s.Returned i (.ok (some D)) → s.Returned j (.ok (some E)) →
        D.id ≠ E.id) ∧
      (∀ dir D, s.store.index.manifest? dir = some D →
        D.directory = dir ∧ (∃ i, (i, D) ∈ log) ∧
          ∀ j E, (j, E) ∈ log → E.directory = dir → E.id ≤ D.id) ∧
      (∀ i result, s.Returned i result → (∀ D, result ≠ .ok (some D)) →
        ∀ before move, before ++ [move] <+: moves →
          let s := (fresh name style).run policy before
          move.caller? s = some i → s.store.Logs (s.step policy move).store) ∧
      ∀ i D, s.Returned i (.ok (some D)) →
        (effectsOf policy i (fresh name style) moves).filterMap Effect.summary? = [D.summary] := by
  intro s log
  have kept := kept_run policy name style moves few
  have returned : ∀ i D, s.Returned i (.ok (some D)) → (i, D) ∈ log := by
    intro i D returned
    rw [← kept.phases, returned.phase]
    rfl
  refine ⟨kept.increasing, ?_, returned, ?_, kept.table, ?_, ?_⟩
  · intro before move _ s i D member
    exact manifest_of_installed policy member
  · intro i j D E different first second
    exact kept.ids_differ (returned i D first) (returned j E second) different
  · intro i result ended without before move earlier s own
    apply logs_of_blank policy own
    rw [← run_concat]
    exact blank_of_prefix policy earlier (ended.blank without)
  · intro i D ended
    rw [sent_run, ended.phase]
    rfl

/-- The world in which there is nothing. -/
def nowhere : World where
  entry _ := .error .notFound
  stat _ := .error .notFound
  children _ := .error .notFound
  contents _ := .error .notFound

def requestWith (text : String) : Request where
  path := ⟨[.root, .name [97], .name (.ofString "package.json")]⟩
  directory := ⟨[.root, .name [97]]⟩
  contents := some (Name.ofString text)

/-- The manifest of `/a` declares a project and waits for it, and a second one that declares none comes
in between. -/
def redeclared : List Move :=
  [.declare 0 (requestWith "\x7b\"projfs\":\x7b\x7d\x7d"), .declare 0 (requestWith "\x7b\x7d"),
    .resume 0 nowhere, .resume 0 nowhere, .resume 1 nowhere]

/-- The two manifests are installed under increasing numbers. -/
theorem declarations_number_and_send_redeclared :
    let log := installations (.ofSettings {}) (fresh [] .recursive) redeclared
    (log.Pairwise fun earlier later => earlier.2.id < later.2.id) ∧ log.map (·.2.id) = [1, 2] := by
  refine ⟨?_, by decide +kernel⟩
  exact (declarations_number_and_send (.ofSettings {}) [] .recursive redeclared
    (by decide +kernel)).1

end Registry

end ProjectIndex
