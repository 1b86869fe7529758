import ProjectIndex.Projects

/-!
# Projects and the manifests in their records

Projects are only ever added, each under a number of its own as long as there are numbers left.  A
manifest is put into the record of the project that is nearest to it at that moment, and it stays
there, whatever projects come into force later.
-/

namespace ProjectIndex.Projects

open Std

variable {ps ps' ps'' : Projects} {r : Path} {P : Project} {m : ManifestId} {owner : Option ProjectId}

def Few (ps : Projects) : Prop :=
  ps.size < UInt32.size - 1

/-- The projects were numbered one after the other, and no two of them have the same number. -/
structure Numbered (ps : Projects) : Prop where
  next : ps.nextId.toNat = ps.size + 1
  bounded : ∀ r P, ps.get? r = some P → P.id.val.toNat ≤ ps.size
  distinct : ∀ r r' P P', ps.get? r = some P → ps.get? r' = some P' → P.id = P'.id → r = r'

theorem numbered_empty : ({} : Projects).Numbered :=
  ⟨rfl, by simp [get?], by simp [get?]⟩

def Knows (ps : Projects) (id : ProjectId) : Prop :=
  ∃ r P, ps.get? r = some P ∧ P.id = id

/-- The two projects are the same to the manifests. -/
def SameTo (P P' : Project) : Prop :=
  P'.id = P.id ∧ P'.manifests = P.manifests

/-- Projects may be added, without manifests, and those that are there keep their numbers and their
manifests. -/
structure Grows (ps ps' : Projects) : Prop where
  kept : ∀ r P, ps.get? r = some P → ∃ P', ps'.get? r = some P' ∧ SameTo P P'
  origin : ∀ r P', ps'.get? r = some P' → (∃ P, ps.get? r = some P ∧ SameTo P P') ∨ P'.manifests = []
  size : ps.size ≤ ps'.size
  numbered : ps.Numbered → ps'.Few → ps'.Numbered

namespace Grows

theorem refl (ps : Projects) : ps.Grows ps where
  kept _ P found := ⟨P, found, rfl, rfl⟩
  origin _ P found := Or.inl ⟨P, found, rfl, rfl⟩
  size := Nat.le_refl _
  numbered numbered _ := numbered

theorem trans (first : ps.Grows ps') (second : ps'.Grows ps'') : ps.Grows ps'' where
  kept r P found := by
    obtain ⟨P', found, id, manifests⟩ := first.kept r P found
    obtain ⟨P'', found, id', manifests'⟩ := second.kept r P' found
    exact ⟨P'', found, id'.trans id, manifests'.trans manifests⟩
  origin r P'' found := by
    rcases second.origin r P'' found with ⟨P', found, id', manifests'⟩ | new
    · rcases first.origin r P' found with ⟨P, found, id, manifests⟩ | new
      · exact Or.inl ⟨P, found, id'.trans id, manifests'.trans manifests⟩
      · exact Or.inr (manifests'.trans new)
    · exact Or.inr new
  size := Nat.le_trans first.size second.size
  numbered numbered few :=
    second.numbered (first.numbered numbered (Nat.lt_of_le_of_lt second.size few)) few

theorem knows (grows : ps.Grows ps') {id : ProjectId} (known : ps.Knows id) : ps'.Knows id := by
  obtain ⟨r, P, found, own⟩ := known
  obtain ⟨P', found, same, _⟩ := grows.kept r P found
  exact ⟨r, P', found, same.trans own⟩

end Grows

theorem get?_insert (records : Table Project) (n : UInt32) (root r : Path) (P : Project) :
    ({ records := records.insert root P, nextId := n } : Projects).get? r =
      if root = r then some P else records[r]? := by
  simp [get?, ExtTreeMap.getElem?_insert]

/-- A declaration finds the root known, or finds no number left, or adds a project. -/
theorem declare_cases (ps : Projects) (root : Path) :
    (root ∈ ps.records ∧ ps.declare root = ps) ∨
      (ps.nextId = 0 ∧ ps.declare root = { ps with nextId := ps.nextId + 1 }) ∨
      (root ∉ ps.records ∧ ∃ id : ProjectId, id.val = ps.nextId ∧ ps.declare root =
        { records := ps.records.insert root ⟨id, root, false, []⟩, nextId := ps.nextId + 1 }) := by
  unfold declare
  by_cases known : ps.isRoot root = true
  · rw [if_pos known]
    exact Or.inl ⟨by simpa [isRoot] using known, rfl⟩
  · rw [if_neg known]
    have absent : root ∉ ps.records := by simpa [isRoot] using known
    by_cases last : ps.nextId = 0
    · exact Or.inr (Or.inl ⟨last, by simp [ProjectId.ofUInt32?, last]⟩)
    · refine Or.inr (Or.inr ⟨absent, ⟨ps.nextId, last⟩, rfl, ?_⟩)
      simp [ProjectId.ofUInt32?, last]

theorem ne_of_absent {root : Path} (absent : root ∉ ps.records) (found : ps.get? r = some P) :
    root ≠ r := by
  rintro rfl
  simp [get?, ExtTreeMap.getElem?_eq_none absent] at found

theorem size_insert {root : Path} (absent : root ∉ ps.records) (P : Project) :
    (ps.records.insert root P).size = ps.size + 1 := by
  rw [ExtTreeMap.size_insert, if_neg (by simpa using absent)]
  rfl

/-- While numbers are left, counting on does not start again. -/
theorem toNat_next {n : UInt32} {k : Nat} (number : n.toNat = k) (few : k < UInt32.size - 1) :
    (n + 1).toNat = k + 1 := by
  rw [UInt32.toNat_add, number]
  simp only [UInt32.size, UInt32.toNat_ofNat] at few ⊢
  omega

/-- A project that is added under the next number. -/
theorem grows_insert {root : Path} (absent : root ∉ ps.records) {id : ProjectId}
    (own : id.val = ps.nextId) :
    ps.Grows { records := ps.records.insert root ⟨id, root, false, []⟩, nextId := ps.nextId + 1 } := by
  have size := size_insert absent ⟨id, root, false, []⟩
  refine ⟨fun r P found => ⟨P, ?_, rfl, rfl⟩, fun r P found => ?_, ?_, fun numbered few => ⟨?_, ?_, ?_⟩⟩
  · rw [get?_insert, if_neg (ne_of_absent absent found)]
    exact found
  · rw [get?_insert] at found
    split at found
    · cases found
      exact Or.inr rfl
    · exact Or.inl ⟨P, found, rfl, rfl⟩
  · exact Nat.le_trans (Nat.le_succ _) (Nat.le_of_eq size.symm)
  · have fits : (ps.records.insert root (⟨id, root, false, []⟩ : Project)).size < UInt32.size - 1 := few
    change (ps.nextId + 1).toNat = (ps.records.insert root _).size + 1
    rw [size] at fits ⊢
    exact toNat_next numbered.next fits
  · intro r P found
    change P.id.val.toNat ≤ (ps.records.insert root _).size
    rw [size]
    rw [get?_insert] at found
    split at found
    · cases found
      exact Nat.le_of_eq (own ▸ numbered.next)
    · exact Nat.le_trans (numbered.bounded r P found) (Nat.le_succ _)
  · have later : ∀ r P, ps.get? r = some P → P.id ≠ id := by
      intro r P found same
      have bounded := numbered.bounded r P found
      rw [same, own, numbered.next] at bounded
      omega
    intro r r' P P' found found' same
    rw [get?_insert] at found found'
    split at found
    next here =>
      cases found
      split at found'
      next here' => exact here.symm.trans here'
      · exact absurd same.symm (later r' P' found')
    · split at found'
      · cases found'
        exact absurd same (later r P found)
      · exact numbered.distinct r r' P P' found found' same

theorem grows_declare (ps : Projects) (root : Path) : ps.Grows (ps.declare root) := by
  rcases ps.declare_cases root with ⟨_, same⟩ | ⟨last, same⟩ | ⟨absent, id, own, added⟩
  · rw [same]
    exact .refl ps
  · rw [same]
    refine ⟨(Grows.refl ps).kept, (Grows.refl ps).origin, Nat.le_refl _, fun numbered _ => ?_⟩
    have next := numbered.next
    simp [last] at next
  · rw [added]
    exact grows_insert absent own

theorem get?_markInitialized (ps : Projects) (dir r : Path) :
    (ps.markInitialized dir).get? r =
      (ps.get? r).map fun P => if dir = r then { P with initialized := true } else P := by
  simp only [get?, markInitialized, ExtTreeMap.getElem?_modify, LawfulEqCmp.compare_eq_iff_eq]
  split
  next same => simp [same]
  · simp

theorem size_markInitialized (ps : Projects) (dir : Path) : (ps.markInitialized dir).size = ps.size :=
  ExtTreeMap.size_modify

theorem grows_markInitialized (ps : Projects) (dir : Path) : ps.Grows (ps.markInitialized dir) := by
  have origin : ∀ r P', (ps.markInitialized dir).get? r = some P' →
      ∃ P, ps.get? r = some P ∧ SameTo P P' := by
    intro r P' found
    rw [get?_markInitialized, Option.map_eq_some_iff] at found
    obtain ⟨P, found, rfl⟩ := found
    refine ⟨P, found, ?_⟩
    split <;> exact ⟨rfl, rfl⟩
  have size := ps.size_markInitialized dir
  refine ⟨fun r P found => ?_, fun r P found => Or.inl (origin r P found), Nat.le_of_eq size.symm,
    fun numbered _ => ⟨?_, ?_, ?_⟩⟩
  · refine ⟨_, (ps.get?_markInitialized dir r).trans (congrArg _ found), ?_⟩
    dsimp only
    split <;> exact ⟨rfl, rfl⟩
  · rw [size]
    exact numbered.next
  · intro r P found
    obtain ⟨P, found, same, _⟩ := origin r P found
    rw [size, same]
    exact numbered.bounded r P found
  · intro r r' P P' found found' same
    obtain ⟨P, found, own, _⟩ := origin r P found
    obtain ⟨P', found', own', _⟩ := origin r' P' found'
    exact numbered.distinct r r' P P' found found' (own.symm.trans (same.trans own'))

/-- The nearest project is a project. -/
theorem knows_of_find? {p : Path} {id : ProjectId} (found : ps.find? p = some id) : ps.Knows id := by
  obtain ⟨r, _, own⟩ := List.exists_of_findSome?_eq_some found
  obtain ⟨P, found, same⟩ := Option.map_eq_some_iff.1 own
  exact ⟨r, P, found, same⟩

/-- Puts a manifest into the record of the project that is nearest to it. -/
def assign (ps : Projects) (D : Definition) : Projects :=
  match ps.find? D.path with
  | some id => ps.associate id D.id
  | none => ps

/-- No two records have the same number, so the search for a number ends at its record. -/
theorem Numbered.head?_rootsOf (numbered : ps.Numbered) (found : ps.get? r = some P) :
    (ps.rootsOf P.id).head? = some r := by
  have only : ∀ r' ∈ ps.rootsOf P.id, r' = r := by
    intro r' member
    obtain ⟨⟨_, P'⟩, chosen, rfl⟩ := List.mem_map.1 member
    obtain ⟨listed, same⟩ := List.mem_filter.1 chosen
    have found' := ExtTreeMap.mem_toList_iff_getElem?_eq_some.1 listed
    exact numbered.distinct _ r P' P found' found (by simpa using same)
  have member : r ∈ ps.rootsOf P.id := by
    refine List.mem_map.2 ⟨(r, P), List.mem_filter.2 ⟨?_, by simp⟩, rfl⟩
    exact ExtTreeMap.mem_toList_iff_getElem?_eq_some.2 found
  cases roots : ps.rootsOf P.id with
  | nil => simp [roots] at member
  | cons r' rest => simp [only r' (by simp [roots])]

/-- The search for a number that no record has finds nothing. -/
theorem rootsOf_of_unknown {id : ProjectId} (unknown : ¬ ps.Knows id) : ps.rootsOf id = [] := by
  rw [rootsOf, List.map_eq_nil_iff, List.filter_eq_nil_iff]
  rintro ⟨r, P⟩ listed same
  have found := ExtTreeMap.mem_toList_iff_getElem?_eq_some.1 listed
  exact unknown ⟨r, P, found, by simpa using same⟩

theorem associate_of_unknown {id : ProjectId} (unknown : ¬ ps.Knows id) (m : ManifestId) :
    ps.associate id m = ps := by
  simp [associate, rootsOf_of_unknown unknown]

/-- The record with a number gets a manifest, and no other record changes. -/
theorem Numbered.get?_associate (numbered : ps.Numbered) (id : ProjectId) (m : ManifestId) (r : Path) :
    (ps.associate id m).get? r = (ps.get? r).map fun P =>
      if P.id = id then { P with manifests := P.manifests ++ [m] } else P := by
  by_cases known : ps.Knows id
  · obtain ⟨root, P, found, rfl⟩ := known
    have chosen := numbered.head?_rootsOf found
    simp only [associate, chosen, get?, ExtTreeMap.getElem?_modify, LawfulEqCmp.compare_eq_iff_eq]
    split
    next own =>
      subst own
      have found : ps.records[root]? = some P := found
      simp [found]
    next other =>
      cases found' : ps.records[r]? with
      | none => rfl
      | some P' =>
        have unlike : P'.id ≠ P.id := fun same => other (numbered.distinct _ _ _ _ found found' same.symm)
        simp [unlike]
  · rw [associate_of_unknown known]
    cases found : ps.get? r with
    | none => rfl
    | some P =>
      have other : P.id ≠ id := fun own => known ⟨r, P, found, own⟩
      simp [other]

theorem size_associate (ps : Projects) (id : ProjectId) (m : ManifestId) :
    (ps.associate id m).size = ps.size := by
  unfold associate
  split
  · rfl
  · exact ExtTreeMap.size_modify

theorem nextId_associate (ps : Projects) (id : ProjectId) (m : ManifestId) :
    (ps.associate id m).nextId = ps.nextId := by
  unfold associate
  split <;> rfl

/-- A manifest is assigned to the nearest project, and every other record stays as it is. -/
theorem Numbered.get?_assign (numbered : ps.Numbered) (D : Definition) (r : Path) :
    (ps.assign D).get? r = (ps.get? r).map fun P =>
      if ps.find? D.path = some P.id then { P with manifests := P.manifests ++ [D.id] } else P := by
  unfold assign
  cases nearest : ps.find? D.path with
  | none => simp
  | some id =>
    rw [numbered.get?_associate]
    simp only [Option.some.injEq, eq_comm]

theorem size_assign (ps : Projects) (D : Definition) : (ps.assign D).size = ps.size := by
  unfold assign
  split
  · exact ps.size_associate _ _
  · rfl

theorem nextId_assign (ps : Projects) (D : Definition) : (ps.assign D).nextId = ps.nextId := by
  unfold assign
  split
  · exact ps.nextId_associate _ _
  · rfl

/-- Assigning a manifest changes no number. -/
theorem map_id_assign (ps : Projects) (D : Definition) (r : Path) :
    ((ps.assign D).get? r).map Project.id = (ps.get? r).map Project.id := by
  unfold assign associate
  split
  · split
    · rfl
    · simp only [get?, ExtTreeMap.getElem?_modify, LawfulEqCmp.compare_eq_iff_eq]
      split
      next same =>
        rw [same, Option.map_map]
        rfl
      · rfl
  · rfl

theorem find?_assign (ps : Projects) (D : Definition) (p : Path) :
    (ps.assign D).find? p = ps.find? p := by
  simp only [find?, map_id_assign]

theorem Numbered.assign (numbered : ps.Numbered) (D : Definition) : (ps.assign D).Numbered := by
  have origin : ∀ r P', (ps.assign D).get? r = some P' → ∃ P, ps.get? r = some P ∧ P'.id = P.id := by
    intro r P' found
    have ids := ps.map_id_assign D r
    rw [found, Option.map_some, eq_comm, Option.map_eq_some_iff] at ids
    obtain ⟨P, found, same⟩ := ids
    exact ⟨P, found, same.symm⟩
  refine ⟨?_, fun r P found => ?_, fun r r' P P' found found' same => ?_⟩
  · rw [size_assign, nextId_assign]
    exact numbered.next
  · obtain ⟨P, found, same⟩ := origin r P found
    rw [size_assign, same]
    exact numbered.bounded r P found
  · obtain ⟨P, found, own⟩ := origin r P found
    obtain ⟨P', found', own'⟩ := origin r' P' found'
    exact numbered.distinct r r' P P' found found' (own.symm.trans (same.trans own'))

def Precedes (ps ps' : Projects) : Prop :=
  ∀ r id, (ps.get? r).map Project.id = some id → (ps'.get? r).map Project.id = some id

theorem Grows.precedes (grows : ps.Grows ps') : ps.Precedes ps' := by
  intro r id own
  obtain ⟨P, found, rfl⟩ := Option.map_eq_some_iff.1 own
  obtain ⟨P', found, same, _⟩ := grows.kept r P found
  exact Option.map_eq_some_iff.2 ⟨P', found, same⟩

theorem Precedes.assign (precedes : ps.Precedes ps') (D : Definition) : ps.Precedes (ps'.assign D) := by
  intro r id own
  rw [map_id_assign]
  exact precedes r id own

theorem Precedes.trans (first : ps.Precedes ps') (second : ps'.Precedes ps'') : ps.Precedes ps'' :=
  fun r id own => second r id (first r id own)

/-- The nearest project is another one than before exactly if it came into force since. -/
theorem Precedes.find?_ne_iff (precedes : ps.Precedes ps') (numbered : ps'.Numbered) (p : Path) :
    ps'.find? p ≠ ps.find? p ↔
      ∃ r P, ps'.get? r = some P ∧ ps'.find? p = some P.id ∧ ps.get? r = none := by
  constructor
  · intro other
    cases nearest : ps'.find? p with
    | none =>
      refine absurd (nearest.trans ?_) other
      have out := List.findSome?_eq_none_iff.1 nearest
      refine (List.findSome?_eq_none_iff.2 fun r member => ?_).symm
      refine Option.eq_none_iff_forall_ne_some.2 fun id own => ?_
      cases (out r member).symm.trans (precedes r id own)
    | some id =>
      obtain ⟨before, r, rest, way, own, out⟩ := List.findSome?_eq_some_iff.1 nearest
      obtain ⟨P, found, rfl⟩ := Option.map_eq_some_iff.1 own
      refine ⟨r, P, found, rfl, Option.eq_none_iff_forall_ne_some.2 fun P₀ found₀ => other ?_⟩
      have same := precedes r P₀.id (by simp [found₀])
      rw [own] at same
      refine nearest.trans (List.findSome?_eq_some_iff.2 ⟨before, r, rest, way, ?_, ?_⟩).symm
      · rw [found₀]
        exact same.symm
      · intro r' member
        refine Option.eq_none_iff_forall_ne_some.2 fun id own => ?_
        cases (out r' member).symm.trans (precedes r' id own)
  · rintro ⟨r, P, found, nearest, absent⟩ same
    obtain ⟨r', P', found', own⟩ := knows_of_find? (same ▸ nearest)
    obtain ⟨P'', found'', own'⟩ := Option.map_eq_some_iff.1 (precedes r' P'.id (by simp [found']))
    obtain rfl := numbered.distinct r' r P'' P found'' found (own'.trans own)
    cases absent.symm.trans found'

/-- The manifest with this number is in the record of its owner, if it has one, and in no other
record. -/
structure Holds (ps : Projects) (m : ManifestId) (owner : Option ProjectId) : Prop where
  known : ∀ id, owner = some id → ps.Knows id
  listed : ∀ r P, ps.get? r = some P → (m ∈ P.manifests ↔ owner = some P.id)

/-- A manifest that is in no record has no owner. -/
theorem holds_none (out : ∀ r P, ps.get? r = some P → m ∉ P.manifests) : ps.Holds m none :=
  ⟨by simp, fun r P found => by simp [out r P found]⟩

namespace Holds

/-- Projects that come into force later are not given what is in no record or in another one. -/
theorem grows (holds : ps.Holds m owner) (grows : ps.Grows ps') (numbered : ps'.Numbered) :
    ps'.Holds m owner := by
  refine ⟨fun id own => grows.knows (holds.known id own), fun r P' found => ?_⟩
  rcases grows.origin r P' found with ⟨P, before, id, manifests⟩ | new
  · rw [manifests, id]
    exact holds.listed r P before
  · refine ⟨fun member => by simp [new] at member, fun own => ?_⟩
    obtain ⟨r₀, P₀, before, same⟩ := holds.known P'.id own
    obtain ⟨P₁, after, id, manifests⟩ := grows.kept r₀ P₀ before
    obtain rfl := numbered.distinct r r₀ P' P₁ found after (same.symm.trans id.symm)
    cases found.symm.trans after
    exact manifests ▸ (holds.listed r P₀ before).2 (own.trans (congrArg some same.symm))

/-- What is assigned was in no record; then it is in that of the nearest project. -/
theorem assigned {D : Definition} (holds : ps.Holds D.id none) (numbered : ps.Numbered) :
    (ps.assign D).Holds D.id (ps.find? D.path) := by
  refine ⟨fun id own => ?_, fun r P' found => ?_⟩
  · obtain ⟨r, P, found, rfl⟩ := knows_of_find? own
    refine ⟨r, _, (numbered.get?_assign D r).trans (congrArg _ found), ?_⟩
    dsimp only
    split <;> rfl
  · rw [numbered.get?_assign, Option.map_eq_some_iff] at found
    obtain ⟨P, found, rfl⟩ := found
    have out := holds.listed r P found
    by_cases nearest : ps.find? D.path = some P.id
    · simp [nearest]
    · simp [nearest, out]

/-- Another manifest is assigned. -/
theorem beside {D : Definition} (holds : ps.Holds m owner) (numbered : ps.Numbered) (other : m ≠ D.id) :
    (ps.assign D).Holds m owner := by
  refine ⟨fun id own => ?_, fun r P' found => ?_⟩
  · obtain ⟨r, P, found, rfl⟩ := holds.known id own
    refine ⟨r, _, (numbered.get?_assign D r).trans (congrArg _ found), ?_⟩
    dsimp only
    split <;> rfl
  · rw [numbered.get?_assign, Option.map_eq_some_iff] at found
    obtain ⟨P, found, rfl⟩ := found
    have listed := holds.listed r P found
    by_cases nearest : ps.find? D.path = some P.id
    · simpa [nearest, other] using listed
    · simpa [nearest] using listed

end Holds

end ProjectIndex.Projects
