import ProjectIndex.Proofs.Store.Projects
import Mathlib.Data.List.Find
import Mathlib.Data.List.Induction

/-!
# Registering projects

The operations on a set of projects, as values, so that what any sequence of them keeps can be stated.
The roots, the numbers and the manifests are arbitrary: a root is declared any number of times, it is
marked before it is declared, and manifests are associated with numbers that no project has.

What the projects are after some operations depends on the declared roots alone, each taken when it is
declared for the first time: they have the numbers 1, 2, … in that order (`registers_performAll`).  Hence
a number leads to one record at most, in whatever order the records are searched for it.  That holds as
long as the numbers last; the numbers are words of 32 bits, and none of them is zero.
-/

namespace ProjectIndex

open Std

/-- A number is the successor of the position of its project. -/
theorem ProjectId.exists_position (id : ProjectId) : ∃ i, id.val.toNat = i + 1 := by
  have positive : id.val.toNat ≠ 0 := fun zero => id.ne_zero (UInt32.toNat_inj.1 zero)
  exact ⟨id.val.toNat - 1, by omega⟩

/-- What may become of a record: it keeps its number and its root, it stays initialized, and manifests
are only put after those that are there. -/
structure Project.Becomes (P P' : Project) : Prop where
  id : P'.id = P.id
  root : P'.root = P.root
  initialized : P.initialized = true → P'.initialized = true
  manifests : P.manifests <+: P'.manifests

namespace Project.Becomes

variable {P P' P'' : Project}

theorem refl (P : Project) : P.Becomes P :=
  ⟨rfl, rfl, fun done => done, List.prefix_refl _⟩

theorem trans (first : P.Becomes P') (second : P'.Becomes P'') : P.Becomes P'' where
  id := second.id.trans first.id
  root := second.root.trans first.root
  initialized done := second.initialized (first.initialized done)
  manifests := first.manifests.trans second.manifests

end Project.Becomes

namespace Projects

variable {ps ps' : Projects} {r : Path} {P : Project}

/-- What can be done to a set of projects. -/
inductive Operation where
  | declare (root : Path)
  | markInitialized (root : Path)
  | associate (id : ProjectId) (manifest : ManifestId)

namespace Operation

def perform (ps : Projects) : Operation → Projects
  | declare root => ps.declare root
  | markInitialized root => ps.markInitialized root
  | associate id m => ps.associate id m

/-- The root that is declared, if one is. -/
def root? : Operation → Option Path
  | declare root => some root
  | _ => none

end Operation

def performAll (ps : Projects) (ops : List Operation) : Projects :=
  ops.foldl Operation.perform ps

/-- The declared roots, each once, in the order of their first declaration. -/
def declared (ops : List Operation) : List Path :=
  (ops.filterMap Operation.root?).eraseDups

section Places

variable {α : Type} [DecidableEq α]

theorem eraseDups_concat (xs : List α) (x : α) :
    (xs ++ [x]).eraseDups = if x ∈ xs.eraseDups then xs.eraseDups else xs.eraseDups ++ [x] := by
  have listed : x ∈ xs.eraseDups ↔ x ∈ xs := List.mem_eraseDups
  rw [List.eraseDups_append]
  by_cases again : x ∈ xs <;> simp [List.removeAll, List.eraseDups_cons, listed, again]

/-- What is put at the end for the first time has the last place and no other. -/
theorem getElem?_concat_eq_some_iff {xs : List α} {x y : α} {i : Nat} (new : x ∉ xs) :
    (xs ++ [x])[i]? = some y ↔ if x = y then i = xs.length else xs[i]? = some y := by
  rw [List.getElem?_append]
  by_cases inside : i < xs.length
  · rw [if_pos inside]
    split
    next same =>
      have fresh : xs[i]? ≠ some y := fun listed => new (same ▸ List.mem_of_getElem? listed)
      simp only [fresh, false_iff]
      omega
    next => rfl
  · have none : xs[i]? = none := List.getElem?_eq_none (by omega)
    have last : i - xs.length = 0 ↔ i = xs.length := by omega
    rw [if_neg inside, List.getElem?_singleton, none]
    by_cases same : x = y <;> simp [last, same]

end Places

theorem performAll_concat (ps : Projects) (ops : List Operation) (op : Operation) :
    ps.performAll (ops ++ [op]) = op.perform (ps.performAll ops) := by
  rw [performAll, List.foldl_append]
  rfl

theorem declared_concat_declare (ops : List Operation) (root : Path) :
    declared (ops ++ [.declare root]) =
      if root ∈ declared ops then declared ops else declared ops ++ [root] := by
  rw [declared, List.filterMap_append]
  exact eraseDups_concat _ root

theorem declared_concat_other (ops : List Operation) {op : Operation} (other : op.root? = none) :
    declared (ops ++ [op]) = declared ops := by
  simp [declared, other]

theorem length_declared_le (ops : List Operation) (op : Operation) :
    (declared ops).length ≤ (declared (ops ++ [op])).length := by
  cases op with
  | declare root =>
    rw [declared_concat_declare]
    split <;> simp
  | markInitialized root | associate id m => rw [declared_concat_other ops rfl]

/-- The projects are those of the given roots, and their numbers are the places of the roots. -/
structure Registers (ps : Projects) (roots : List Path) : Prop where
  next : ps.nextId.toNat = roots.length + 1
  size : ps.size = roots.length
  own : ∀ r P, ps.get? r = some P → P.root = r
  numbers : ∀ i r, roots[i]? = some r ↔ ∃ P, ps.get? r = some P ∧ P.id.val.toNat = i + 1

theorem registers_empty : ({} : Projects).Registers [] :=
  ⟨rfl, rfl, by simp [get?], by simp [get?]⟩

namespace Registers

variable {roots : List Path}

theorem place (registers : ps.Registers roots) (found : ps.get? r = some P) :
    ∃ i, P.id.val.toNat = i + 1 ∧ roots[i]? = some r := by
  obtain ⟨i, number⟩ := P.id.exists_position
  exact ⟨i, number, (registers.numbers i r).2 ⟨P, found, number⟩⟩

/-- A root is registered exactly if it has a record. -/
theorem mem_iff (registers : ps.Registers roots) : r ∈ roots ↔ r ∈ ps.records := by
  constructor
  · intro member
    obtain ⟨i, listed⟩ := List.mem_iff_getElem?.1 member
    obtain ⟨P, found, _⟩ := (registers.numbers i r).1 listed
    exact ExtTreeMap.mem_iff_isSome_getElem?.2 (Option.isSome_of_eq_some found)
  · intro known
    obtain ⟨P, found⟩ := Option.isSome_iff_exists.1 (ExtTreeMap.mem_iff_isSome_getElem?.1 known)
    obtain ⟨i, _, listed⟩ := registers.place (show ps.get? r = some P from found)
    exact List.mem_of_getElem? listed

/-- Projects with places have been numbered one after the other. -/
theorem numbered (registers : ps.Registers roots) : ps.Numbered where
  next := by rw [registers.next, registers.size]
  bounded r P found := by
    obtain ⟨i, number, listed⟩ := registers.place found
    have inside : i < roots.length := (List.getElem?_eq_some_iff.1 listed).1
    have size := registers.size
    omega
  distinct r r' P P' found found' same := by
    obtain ⟨i, number, listed⟩ := registers.place found
    obtain ⟨i', number', listed'⟩ := registers.place found'
    rw [same] at number
    have place : i = i' := by omega
    rw [place, listed'] at listed
    exact (Option.some.inj listed).symm

/-- Records may change in all but their numbers and their roots. -/
theorem of_records (registers : ps.Registers roots) (next : ps'.nextId = ps.nextId)
    (size : ps'.size = ps.size) {change : Path → Project → Project}
    (records : ∀ r, ps'.get? r = (ps.get? r).map (change r))
    (id : ∀ r P, (change r P).id = P.id) (root : ∀ r P, (change r P).root = P.root) :
    ps'.Registers roots where
  next := by rw [next, registers.next]
  size := by rw [size, registers.size]
  own r P' found := by
    rw [records, Option.map_eq_some_iff] at found
    obtain ⟨P, found, rfl⟩ := found
    rw [root, registers.own r P found]
  numbers i r := by
    rw [registers.numbers]
    constructor
    · rintro ⟨P, found, number⟩
      exact ⟨change r P, by rw [records, found]; rfl, by rw [id, number]⟩
    · rintro ⟨P', found, number⟩
      rw [records, Option.map_eq_some_iff] at found
      obtain ⟨P, found, rfl⟩ := found
      exact ⟨P, found, by rw [← id r P, number]⟩

theorem markInitialized (registers : ps.Registers roots) (dir : Path) :
    (ps.markInitialized dir).Registers roots := by
  have next : (ps.markInitialized dir).nextId = ps.nextId := rfl
  apply registers.of_records next (ps.size_markInitialized dir) (ps.get?_markInitialized dir)
  · intro r P
    split <;> rfl
  · intro r P
    split <;> rfl

theorem associate (registers : ps.Registers roots) (id : ProjectId) (m : ManifestId) :
    (ps.associate id m).Registers roots := by
  apply registers.of_records (ps.nextId_associate id m) (ps.size_associate id m)
    (registers.numbered.get?_associate id m)
  · intro r P
    split <;> rfl
  · intro r P
    split <;> rfl

/-- A registered root that is declared again changes nothing. -/
theorem declare_of_mem (registers : ps.Registers roots) (known : r ∈ roots) : ps.declare r = ps := by
  have record : r ∈ ps.records := registers.mem_iff.1 known
  rcases ps.declare_cases r with ⟨_, same⟩ | ⟨last, _⟩ | ⟨absent, _⟩
  · exact same
  · have next := registers.next
    simp [last] at next
  · exact absurd record absent

/-- A new root takes the next place. -/
theorem insert (registers : ps.Registers roots) (new : r ∉ roots)
    (few : roots.length + 1 < UInt32.size - 1) {id : ProjectId} (own : id.val = ps.nextId) :
    Registers { records := ps.records.insert r ⟨id, r, false, []⟩, nextId := ps.nextId + 1 }
      (roots ++ [r]) where
  next := by
    rw [List.length_append]
    exact toNat_next registers.next few
  size := by
    have absent : r ∉ ps.records := fun record => new (registers.mem_iff.2 record)
    rw [List.length_append, ← registers.size]
    exact size_insert absent _
  own r' P found := by
    rw [get?_insert] at found
    split at found
    next same =>
      cases found
      exact same
    next => exact registers.own r' P found
  numbers i r' := by
    rw [get?_insert, getElem?_concat_eq_some_iff new]
    split
    · have number : id.val.toNat = roots.length + 1 := by rw [own, registers.next]
      simp only [Option.some.injEq, exists_eq_left', number]
      omega
    · exact registers.numbers i r'

theorem declare_of_not_mem (registers : ps.Registers roots) (new : r ∉ roots)
    (few : roots.length + 1 < UInt32.size - 1) : (ps.declare r).Registers (roots ++ [r]) := by
  rcases ps.declare_cases r with ⟨record, _⟩ | ⟨last, _⟩ | ⟨_, id, own, added⟩
  · exact absurd (registers.mem_iff.2 record) new
  · have next := registers.next
    simp [last] at next
  · rw [added]
    exact registers.insert new few own

end Registers

/-- After any operations the projects are those of the declared roots, numbered in the order of their
first declaration.  What the last operation does depends on the roots that were declared before it. -/
theorem registers_performAll (ops : List Operation) (few : (declared ops).length < UInt32.size - 1) :
    (performAll {} ops).Registers (declared ops) := by
  induction ops using List.reverseRecOn with
  | nil => exact registers_empty
  | append_singleton ops op ih =>
    have earlier := ih (Nat.lt_of_le_of_lt (length_declared_le ops op) few)
    rw [performAll_concat]
    cases op with
    | declare root =>
      rw [declared_concat_declare] at few ⊢
      split
      next known =>
        rw [Operation.perform, earlier.declare_of_mem known]
        exact earlier
      next new =>
        rw [if_neg new, List.length_append, List.length_singleton] at few
        exact earlier.declare_of_not_mem new few
    | markInitialized root =>
      rw [declared_concat_other ops rfl]
      exact earlier.markInitialized root
    | associate id m =>
      rw [declared_concat_other ops rfl]
      exact earlier.associate id m

/-- An operation keeps every record, whatever numbers are left. -/
theorem becomes_perform (found : ps.get? r = some P) (op : Operation) :
    ∃ P', (op.perform ps).get? r = some P' ∧ P.Becomes P' := by
  cases op with
  | declare root =>
    have stays : (ps.declare root).get? r = some P := by
      rcases ps.declare_cases root with ⟨_, same⟩ | ⟨_, same⟩ | ⟨absent, id, _, added⟩
      · rw [same, found]
      · rw [same]
        exact found
      · rw [added, get?_insert, if_neg (ne_of_absent absent found)]
        exact found
    exact ⟨P, stays, .refl P⟩
  | markInitialized root =>
    refine ⟨_, (ps.get?_markInitialized root r).trans (congrArg _ found), ?_⟩
    dsimp only
    split
    · exact ⟨rfl, rfl, fun _ => rfl, List.prefix_refl _⟩
    · exact .refl P
  | associate id m =>
    change ∃ P', (ps.associate id m).get? r = some P' ∧ P.Becomes P'
    unfold Projects.associate
    split
    · exact ⟨P, found, .refl P⟩
    next root _ =>
      simp only [get?, ExtTreeMap.getElem?_modify, LawfulEqCmp.compare_eq_iff_eq]
      have found : ps.records[r]? = some P := found
      split
      next own =>
        rw [own, found]
        exact ⟨_, rfl, rfl, rfl, fun done => done, List.prefix_append _ _⟩
      · exact ⟨P, found, .refl P⟩

theorem becomes_performAll (found : ps.get? r = some P) (ops : List Operation) :
    ∃ P', (ps.performAll ops).get? r = some P' ∧ P.Becomes P' := by
  induction ops generalizing ps P with
  | nil => exact ⟨P, found, .refl P⟩
  | cons op rest ih =>
    obtain ⟨P', found', first⟩ := becomes_perform found op
    obtain ⟨P'', found'', second⟩ := ih found'
    exact ⟨P'', found'', first.trans second⟩

/-- The records may be searched for a number in any order. -/
theorem Numbered.find?_perm (numbered : ps.Numbered) (id : ProjectId) {order : List (Path × Project)}
    (perm : order.Perm ps.records.toList) :
    (order.find? fun entry => entry.2.id == id).map (·.1) = (ps.rootsOf id).head? := by
  have one : {entry | entry ∈ order ∧ (entry.2.id == id) = true}.Subsingleton := by
    rintro ⟨r, P⟩ ⟨listed, own⟩ ⟨r', P'⟩ ⟨listed', own'⟩
    have found := ExtTreeMap.mem_toList_iff_getElem?_eq_some.1 (perm.subset listed)
    have found' := ExtTreeMap.mem_toList_iff_getElem?_eq_some.1 (perm.subset listed')
    have same : P.id = P'.id := (beq_iff_eq.1 own).trans (beq_iff_eq.1 own').symm
    obtain rfl := numbered.distinct r r' P P' found found' same
    rw [found, Option.some.injEq] at found'
    rw [found']
  rw [List.find?_eq_find?_of_perm perm one, rootsOf, List.head?_map, List.head?_filter]

/-- After any operations, as long as the numbers last: every record stands under its own root; the roots
have the numbers 1, 2, … in the order of their first declaration, and no two of them the same; a root that
is declared again changes nothing; a record keeps its number and its root, stays initialized and loses no
manifest, whatever is done later; a root that is marked is initialized, and no other; a manifest is put
into the record with the number that is given, into no other, and nowhere if there is none; and the
search for that record may take any order. -/
theorem roots_numbered_in_order (ops : List Operation) (few : (declared ops).length < UInt32.size - 1) :
    let ps := performAll {} ops
    (∀ r P, ps.get? r = some P → P.root = r) ∧
      (∀ i r, (declared ops)[i]? = some r ↔ ∃ P, ps.get? r = some P ∧ P.id.val.toNat = i + 1) ∧
      (∀ r r' P P', ps.get? r = some P → ps.get? r' = some P' → P.id = P'.id → r = r') ∧
      (∀ r ∈ declared ops, ps.declare r = ps) ∧
      (∀ r P later, ps.get? r = some P → ∃ P', (ps.performAll later).get? r = some P' ∧ P.Becomes P') ∧
      (∀ dir r, (ps.markInitialized dir).get? r = (ps.get? r).map fun P =>
        if dir = r then { P with initialized := true } else P) ∧
      (∀ id m r, (ps.associate id m).get? r = (ps.get? r).map fun P =>
        if P.id = id then { P with manifests := P.manifests ++ [m] } else P) ∧
      (∀ id m, (∀ r P, ps.get? r = some P → P.id ≠ id) → ps.associate id m = ps) ∧
      ∀ (id : ProjectId) (order : List (Path × Project)), order.Perm ps.records.toList →
        (order.find? fun entry => entry.2.id == id).map (·.1) = (ps.rootsOf id).head? := by
  intro ps
  have registers : ps.Registers (declared ops) := registers_performAll ops few
  have numbered := registers.numbered
  refine ⟨registers.own, registers.numbers, numbered.distinct, fun r known => ?_,
    fun r P later found => becomes_performAll found later, ps.get?_markInitialized,
    numbered.get?_associate, fun id m out => ?_, fun id order perm => numbered.find?_perm id perm⟩
  · exact registers.declare_of_mem known
  · apply associate_of_unknown
    rintro ⟨r, P, found, own⟩
    exact out r P found own

/-- The second of three roots is marked too early, declared twice and given a manifest. -/
def declaredTwice : List Operation :=
  [.markInitialized (.ofString "/b"), .declare (.ofString "/a"), .declare (.ofString "/b"),
    .associate ⟨2, by decide⟩ 7, .declare (.ofString "/b"), .markInitialized (.ofString "/a"),
    .declare (.ofString "/c")]

/-- The third root has the third number, and the manifest is in the second record. -/
theorem roots_numbered_in_order_declared_twice :
    let ps := performAll {} declaredTwice
    (declared declaredTwice).length < UInt32.size - 1 ∧
      (∃ P, ps.get? (.ofString "/c") = some P ∧ P.id.val.toNat = 3) ∧
      ps.declare (.ofString "/b") = ps ∧
      ps.get? (.ofString "/b") = some ⟨⟨2, by decide⟩, .ofString "/b", false, [7]⟩ := by
  intro ps
  have few : (declared declaredTwice).length < UInt32.size - 1 := by decide +kernel
  obtain ⟨_, numbers, _, again, _⟩ := roots_numbered_in_order declaredTwice few
  refine ⟨few, (numbers 2 _).1 (by decide +kernel), again _ (by decide +kernel), by decide +kernel⟩

end Projects

end ProjectIndex
