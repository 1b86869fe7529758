import ProjectIndex.Json.Reader
import Mathlib.Data.String.Basic

/-!
# Values with sorted members

A value has one written form because the members of each object in it are sorted by key and no key
occurs twice.  That is the invariant of insertion, and so every value that the reader gives has it
(`sorted_of_parse`).  In a sorted object a member is found exactly if it is there.
-/

namespace ProjectIndex.Json

def Ordered (members : List (String × Value)) : Prop :=
  members.Pairwise fun a b => a.1 < b.1

/-- Every object in the value has ordered members. -/
inductive Value.Sorted : Value → Prop where
  | null : Sorted .null
  | bool (b : Bool) : Sorted (.bool b)
  | number (n : Number) : Sorted (.number n)
  | string (s : String) : Sorted (.string s)
  | array (items : List Value) (each : ∀ v ∈ items, v.Sorted) : Sorted (.array items)
  | object (members : List (String × Value)) (ordered : Ordered members)
      (each : ∀ m ∈ members, m.2.Sorted) : Sorted (.object members)

theorem mem_insertMember {key : String} {v : Value} {members : List (String × Value)}
    {m : String × Value} (member : m ∈ insertMember key v members) : m = (key, v) ∨ m ∈ members := by
  fun_induction insertMember key v members with
  | case1 => exact Or.inl (by simpa using member)
  | case2 w rest => exact (List.mem_cons.1 member).imp_right (List.mem_cons_of_mem _)
  | case3 k w rest => exact List.mem_cons.1 member
  | case4 k w rest _ _ ih =>
    rcases List.mem_cons.1 member with rfl | later
    · exact Or.inr (List.mem_cons_self ..)
    · exact (ih later).imp_right (List.mem_cons_of_mem _)

theorem ordered_insertMember {key : String} {v : Value} {members : List (String × Value)}
    (ordered : Ordered members) : Ordered (insertMember key v members) := by
  fun_induction insertMember key v members with
  | case1 => exact List.pairwise_singleton ..
  | case2 w rest =>
    obtain ⟨above, later⟩ := List.pairwise_cons.1 ordered
    exact List.pairwise_cons.2 ⟨above, later⟩
  | case3 k w rest _ less =>
    refine List.pairwise_cons.2 ⟨fun m member => ?_, ordered⟩
    rcases List.mem_cons.1 member with rfl | later
    · exact less
    · exact String.lt_trans less ((List.pairwise_cons.1 ordered).1 m later)
  | case4 k w rest other notLess ih =>
    obtain ⟨above, later⟩ := List.pairwise_cons.1 ordered
    refine List.pairwise_cons.2 ⟨fun m member => ?_, ih later⟩
    rcases mem_insertMember member with rfl | before
    · exact lt_of_le_of_ne (String.not_lt.1 notLess) (Ne.symm other)
    · exact above m before

theorem bind_eq_ok {ε α β : Type} {first : Except ε α} {next : α → Except ε β} {b : β}
    (done : (first >>= next) = .ok b) : ∃ a, first = .ok a ∧ next a = .ok b := by
  cases first with
  | error e => cases done
  | ok a => exact ⟨a, rfl, done⟩

/-- What the three readers give with this much fuel is sorted. -/
structure ReadsSorted (fuel : Nat) : Prop where
  value : ∀ {depth c v c'}, readValue fuel depth c = .ok (v, c') → v.Sorted
  items : ∀ {depth c first vs c'}, readItems fuel depth c first = .ok (vs, c') → ∀ v ∈ vs, v.Sorted
  members : ∀ {depth c done ms c'}, Ordered done → (∀ m ∈ done, m.2.Sorted) →
    readMembers fuel depth c done = .ok (ms, c') → Ordered ms ∧ ∀ m ∈ ms, m.2.Sorted

namespace ReadsSorted

variable {fuel : Nat} (reads : ReadsSorted fuel)
include reads

/-- A value is of one of the six kinds, and what it holds was read before. -/
theorem value_succ {depth : Nat} {c c' : Cursor} {v : Value}
    (read : readValue (fuel + 1) depth c = .ok (v, c')) : v.Sorted := by
  unfold readValue at read
  simp only at read
  split at read
  next => simp [Cursor.failAtNext] at read
  next =>
    split at read
    · obtain ⟨_, _, read⟩ := bind_eq_ok read
      cases read
      exact .null
    · obtain ⟨_, _, read⟩ := bind_eq_ok read
      cases read
      exact .bool true
    · obtain ⟨_, _, read⟩ := bind_eq_ok read
      cases read
      exact .bool false
    · obtain ⟨_, _, read⟩ := bind_eq_ok read
      cases read
      exact .number _
    · obtain ⟨_, _, read⟩ := bind_eq_ok read
      cases read
      exact .string _
    · split at read
      next => simp [Cursor.failAtNext] at read
      next =>
        obtain ⟨⟨items, _⟩, inner, read⟩ := bind_eq_ok read
        cases read
        exact .array items (reads.items inner)
    · split at read
      next => simp [Cursor.failAtNext] at read
      next =>
        obtain ⟨⟨members, _⟩, inner, read⟩ := bind_eq_ok read
        cases read
        obtain ⟨ordered, each⟩ := reads.members List.Pairwise.nil (by simp) inner
        exact .object members ordered each
    · split at read
      next =>
        obtain ⟨_, _, read⟩ := bind_eq_ok read
        cases read
        exact .number _
      next => simp [Cursor.failAtNext] at read

theorem items_succ {depth : Nat} {c c' : Cursor} {first : Bool} {vs : List Value}
    (read : readItems (fuel + 1) depth c first = .ok (vs, c')) : ∀ v ∈ vs, v.Sorted := by
  unfold readItems at read
  obtain ⟨⟨more, _⟩, _, read⟩ := bind_eq_ok read
  simp only at read
  split at read
  next =>
    obtain ⟨⟨v, _⟩, inner, read⟩ := bind_eq_ok read
    obtain ⟨⟨rest, _⟩, later, read⟩ := bind_eq_ok read
    cases read
    intro w member
    rcases List.mem_cons.1 member with rfl | after
    · exact reads.value inner
    · exact reads.items later w after
  next =>
    cases read
    simp

/-- The members that were read before stay sorted when one more takes its place. -/
theorem members_succ {depth : Nat} {c c' : Cursor} {done ms : List (String × Value)}
    (ordered : Ordered done) (each : ∀ m ∈ done, m.2.Sorted)
    (read : readMembers (fuel + 1) depth c done = .ok (ms, c')) :
    Ordered ms ∧ ∀ m ∈ ms, m.2.Sorted := by
  unfold readMembers at read
  obtain ⟨⟨more, _⟩, _, read⟩ := bind_eq_ok read
  simp only at read
  split at read
  next =>
    obtain ⟨⟨key, _⟩, _, read⟩ := bind_eq_ok read
    obtain ⟨_, _, read⟩ := bind_eq_ok read
    obtain ⟨⟨v, _⟩, inner, read⟩ := bind_eq_ok read
    refine reads.members (ordered_insertMember ordered) (fun m member => ?_) read
    rcases mem_insertMember member with rfl | before
    · exact reads.value inner
    · exact each m before
  next =>
    cases read
    exact ⟨ordered, each⟩

end ReadsSorted

theorem readsSorted (fuel : Nat) : ReadsSorted fuel := by
  induction fuel with
  | zero =>
    refine ⟨fun read => ?_, fun read => ?_, fun _ _ read => ?_⟩
    · simp [readValue, Cursor.fail] at read
    · simp [readItems, Cursor.fail] at read
    · simp [readMembers, Cursor.fail] at read
  | succ fuel reads => exact ⟨reads.value_succ, reads.items_succ, reads.members_succ⟩

/-- The value of a text is sorted. -/
theorem sorted_of_parse {bytes : List UInt8} {v : Value} (read : parse bytes = .ok v) : v.Sorted := by
  unfold parse at read
  obtain ⟨⟨w, _⟩, inner, read⟩ := bind_eq_ok read
  obtain ⟨_, _, read⟩ := bind_eq_ok read
  cases read
  exact (readsSorted _).value inner

/-- Among entries with different keys the one that is found is the one that is there. -/
theorem find?_key_eq_some_iff {α : Type} {entries : List (String × α)}
    (distinct : entries.Pairwise fun a b => a.1 ≠ b.1) {key : String} {a : α} :
    (entries.find? (·.1 = key)).map (·.2) = some a ↔ (key, a) ∈ entries := by
  induction entries with
  | nil => simp
  | cons entry rest ih =>
    obtain ⟨others, later⟩ := List.pairwise_cons.1 distinct
    obtain ⟨k, b⟩ := entry
    by_cases same : k = key
    · subst same
      have absent : (k, a) ∉ rest := fun member => others (k, a) member rfl
      simp [absent, eq_comm]
    · have other : (key, a) ≠ (k, b) := fun equal => same (congrArg Prod.fst equal).symm
      rw [List.find?_cons_of_neg (by simpa using same), ih later]
      simp [Ne.symm same]

theorem Ordered.distinct {members : List (String × Value)} (ordered : Ordered members) :
    members.Pairwise fun a b => a.1 ≠ b.1 := by
  refine List.Pairwise.imp ?_ ordered
  intro a b less same
  exact String.lt_irrefl a.1 (same ▸ less)

/-- A member is found exactly if it is there. -/
theorem get?_eq_some_iff {members : List (String × Value)} (ordered : Ordered members)
    {key : String} {v : Value} : (Value.object members).get? key = some v ↔ (key, v) ∈ members :=
  find?_key_eq_some_iff ordered.distinct

theorem Value.Sorted.get? {v w : Value} (sorted : v.Sorted) {key : String}
    (found : v.get? key = some w) : w.Sorted := by
  cases sorted with
  | object members ordered each => exact each _ ((get?_eq_some_iff ordered).1 found)
  | _ => cases found

end ProjectIndex.Json
