import ProjectIndex.Manifest.Normalise
import ProjectIndex.Proofs.Json.Sorted

/-!
# Strict and lenient reading

Whether a manifest is read strictly makes a difference to the remarks only.  Each field has the same
value both ways (`ReadAlike`); leniently nothing is remarked, and strictly a field of the wrong shape is
an error, which costs the manifest, or a stray range, which is as good as absent.  So the strict manifest
is the lenient one or none.

Both sections of dependencies go into one table, the development section last, and so its ranges
override those of the other one (`getElem?_foldl_insert`).  That each key occurs once in a section is
what a value from the reader brings along (`Json.sorted_of_parse`).
-/

namespace ProjectIndex.Manifest

open Std
open Json

/-- The members of a section of dependencies, if it is an object. -/
def entries (v : Value) (key : String) : List (String × Value) :=
  match v.get? key with
  | some (.object members) => members
  | _ => []

/-- The range of a package in a section, if it is a string. -/
def range? (v : Value) (key package : String) : Option String :=
  match (v.get? key).bind (·.get? package) with
  | some (.string range) => some range
  | _ => none

/-- A member as a package and its range, if its value is a string. -/
def ranged? : String × Value → Option (String × String)
  | (package, .string range) => some (package, range)
  | _ => none

/-- The warning about a range that is no string. -/
def stray (path : Spelling) (key package : String) : Diagnostic :=
  ⟨.warning, "manifest/normalize", path,
    "ignoring non-string range for `" ++ package ++ "` in `" ++ key ++ "`"⟩

theorem entries_ordered {v : Value} (sorted : v.Sorted) (key : String) : Ordered (entries v key) := by
  unfold entries
  split
  · next members found =>
    cases sorted.get? found with
    | object _ ordered _ => exact ordered
  · exact List.Pairwise.nil

theorem range?_eq_some_iff {v : Value} (sorted : v.Sorted) {key package range : String} :
    range? v key package = some range ↔ (package, .string range) ∈ entries v key := by
  have ordered := entries_ordered sorted key
  have found : (v.get? key).bind (·.get? package) = some (.string range) ↔
      (package, .string range) ∈ entries v key := by
    unfold entries at ordered ⊢
    split at ordered
    · next members found =>
      rw [found]
      exact get?_eq_some_iff ordered
    · next other =>
      cases section? : v.get? key with
      | none => simp
      | some w =>
        cases w with
        | object members => exact absurd section? (other members)
        | _ => simp [Value.get?]
  rw [← found]
  unfold range?
  split <;> simp_all

/-- A field that is read to the same value both ways, leniently without remarks, and strictly with
these warnings apart from errors. -/
structure ReadAlike {α : Type} (read : Bool → Field α) (warnings : List Diagnostic) : Prop where
  value : (read true).value = (read false).value
  silent : (read false).remarks = []
  warnings : (read true).remarks.filter (fun d => !d.isError) = warnings

section

variable (field : String) (path : Spelling) (v : Value)

theorem readAlike_plain {α : Type} (a : α) : ReadAlike (fun _ => ⟨a, []⟩) [] :=
  ⟨rfl, rfl, rfl⟩

theorem readAlike_wrong {α : Type} (a : α) (message : String) :
    ReadAlike (fun strict => ⟨a, Reading.remark ⟨field, path, strict⟩ .error message⟩) [] :=
  ⟨rfl, rfl, rfl⟩

theorem readAlike_text (key : String) :
    ReadAlike (fun strict => Reading.text ⟨field, path, strict⟩ v key) [] := by
  unfold Reading.text
  generalize v.get? key = found
  cases found with
  | none => exact readAlike_plain none
  | some w =>
    cases w with
    | string s =>
      by_cases empty : s = ""
      · simp only [if_pos empty]
        exact readAlike_wrong field path none _
      · simp only [if_neg empty]
        exact readAlike_plain (some s)
    | _ => exact readAlike_wrong field path none _

theorem readAlike_moduleType :
    ReadAlike (fun strict => Reading.moduleType ⟨field, path, strict⟩ v) [] := by
  unfold Reading.moduleType
  generalize v.get? "type" = found
  split
  · exact readAlike_plain none
  · exact readAlike_plain (some ModuleType.esModule)
  · exact readAlike_plain (some ModuleType.commonJs)
  · exact readAlike_wrong field path none _

theorem readAlike_projectConfig :
    ReadAlike (fun strict => Reading.projectConfig ⟨field, path, strict⟩ v) [] := by
  simp only [Reading.projectConfig]
  generalize v.get? field = found
  split
  · exact readAlike_plain none
  · exact readAlike_plain (some (Value.object _))
  · exact readAlike_wrong field path none _

/-- One warning for each stray range. -/
theorem readAlike_section (key : String) :
    ReadAlike (fun strict => Reading.section? ⟨field, path, strict⟩ v key)
      (((entries v key).filter fun m => (ranged? m).isNone).map fun m => stray path key m.1) := by
  unfold Reading.section? entries
  generalize v.get? key = found
  cases found with
  | none => exact readAlike_plain []
  | some w =>
    cases w with
    | object members =>
      constructor <;> dsimp only
      · refine List.flatMap_eq_nil_iff.2 ?_
        rintro ⟨package, w⟩ _
        cases w <;> rfl
      · induction members with
        | nil => rfl
        | cons m rest ih =>
          obtain ⟨package, w⟩ := m
          rw [List.flatMap_cons, List.filter_append, ih]
          cases w <;> rfl
    | _ => exact readAlike_wrong field path [] _

end

/-- Of several entries with the same key the last one counts. -/
theorem getElem?_foldl_insert (ranges : List (String × String)) (m : ExtTreeMap String String)
    (package : String) :
    (ranges.foldl (fun m (k, range) => m.insert k range) m)[package]? =
      ((ranges.reverse.find? (·.1 = package)).map (·.2)).or m[package]? := by
  induction ranges generalizing m with
  | nil => simp
  | cons entry rest ih =>
    obtain ⟨k, range⟩ := entry
    rw [List.foldl_cons, ih, List.reverse_cons, List.find?_append, ExtTreeMap.getElem?_insert]
    by_cases same : k = package
    · subst same
      cases rest.reverse.find? (·.1 = k) <;> simp
    · have other : compare k package ≠ .eq := fun equal => same (LawfulEqCmp.compare_eq_iff_eq.1 equal)
      cases rest.reverse.find? (·.1 = package) <;> simp [same, other]

theorem ranged?_eq_some_iff {m : String × Value} {package range : String} :
    ranged? m = some (package, range) ↔ m = (package, .string range) := by
  obtain ⟨name, w⟩ := m
  cases w <;> simp [ranged?]

theorem section?_value (r : Reading) (v : Value) (key : String) :
    (r.section? v key).value = (entries v key).filterMap ranged? := by
  unfold Reading.section? entries
  generalize v.get? key = found
  cases found with
  | none => rfl
  | some w => cases w <;> rfl

theorem mem_section {r : Reading} {v : Value} {key package range : String} :
    (package, range) ∈ (r.section? v key).value ↔ (package, .string range) ∈ entries v key := by
  simp [section?_value, ranged?_eq_some_iff]

theorem section_distinct {v : Value} (sorted : v.Sorted) (r : Reading) (key : String) :
    (r.section? v key).value.Pairwise fun a b => a.1 ≠ b.1 := by
  rw [section?_value, List.pairwise_filterMap]
  refine List.Pairwise.imp ?_ (entries_ordered sorted key).distinct
  rintro a b other ⟨package, range⟩ first ⟨package', range'⟩ second
  rw [ranged?_eq_some_iff.1 first, ranged?_eq_some_iff.1 second] at other
  exact other

/-- A section's ranges, looked up from the end. -/
theorem find?_section {v : Value} (sorted : v.Sorted) (r : Reading) (key package : String) :
    ((r.section? v key).value.reverse.find? (·.1 = package)).map (·.2) = range? v key package := by
  have distinct : (r.section? v key).value.reverse.Pairwise fun a b => a.1 ≠ b.1 :=
    List.pairwise_reverse.2 ((section_distinct sorted r key).imp Ne.symm)
  ext range
  rw [find?_key_eq_some_iff distinct, List.mem_reverse, mem_section, range?_eq_some_iff sorted]

namespace Reading

/-- The manifest that the fields make up. -/
def contents (r : Reading) (v : Value) : Manifest where
  name := (r.text v "name").value
  version := (r.text v "version").value
  moduleType := (r.moduleType v).value
  dependencies :=
    ((r.section? v "dependencies").value ++ (r.section? v "devDependencies").value).foldl
      (fun m (k, range) => m.insert k range) ∅
  projectConfig := (r.projectConfig v).value
  raw := v

/-- The remarks on all fields. -/
def remarks (r : Reading) (v : Value) : List Diagnostic :=
  (r.text v "name").remarks ++ (r.text v "version").remarks ++ (r.moduleType v).remarks ++
    (r.section? v "dependencies").remarks ++ (r.section? v "devDependencies").remarks ++
    (r.projectConfig v).remarks

end Reading

theorem normalise_object (r : Reading) (members : List (String × Value)) :
    normalise r (.object members) =
      ⟨if (r.remarks (.object members)).any Diagnostic.isError then none
        else some (r.contents (.object members)), r.remarks (.object members)⟩ := rfl

/-- The manifest is what the fields make up, if no remark is an error. -/
theorem manifest_eq_some_iff {r : Reading} {members : List (String × Value)} {m : Manifest} :
    (normalise r (.object members)).manifest = some m ↔
      (∀ d ∈ (normalise r (.object members)).remarks, d.isError = false) ∧
        m = r.contents (.object members) := by
  rw [normalise_object]
  have clean : (∀ d ∈ r.remarks (.object members), d.isError = false) ↔
      (r.remarks (.object members)).any Diagnostic.isError = false := by simp
  rw [clean]
  cases (r.remarks (.object members)).any Diagnostic.isError <;> simp [eq_comm]

theorem contents_dependencies {v : Value} (sorted : v.Sorted) (r : Reading) (package : String) :
    (r.contents v).dependencies[package]? =
      (range? v "devDependencies" package).or (range? v "dependencies" package) := by
  unfold Reading.contents
  rw [getElem?_foldl_insert, List.reverse_append, List.find?_append, Option.map_or,
    find?_section sorted, find?_section sorted]
  simp

section

variable (field : String) (path : Spelling) (v : Value)

theorem contents_alike :
    Reading.contents ⟨field, path, true⟩ v = Reading.contents ⟨field, path, false⟩ v := by
  simp only [Reading.contents, (readAlike_text field path v _).value,
    (readAlike_moduleType field path v).value, (readAlike_section field path v _).value,
    (readAlike_projectConfig field path v).value]

theorem remarks_lenient : Reading.remarks ⟨field, path, false⟩ v = [] := by
  simp only [Reading.remarks, (readAlike_text field path v _).silent,
    (readAlike_moduleType field path v).silent, (readAlike_section field path v _).silent,
    (readAlike_projectConfig field path v).silent, List.append_nil]

/-- The strict warnings are about stray ranges, section by section. -/
theorem warnings_strict :
    (Reading.remarks ⟨field, path, true⟩ v).filter (fun d => !d.isError) =
      ["dependencies", "devDependencies"].flatMap fun key =>
        ((entries v key).filter fun m => (ranged? m).isNone).map fun m => stray path key m.1 := by
  simp only [Reading.remarks, List.filter_append, (readAlike_text field path v _).warnings,
    (readAlike_moduleType field path v).warnings, (readAlike_section field path v _).warnings,
    (readAlike_projectConfig field path v).warnings, List.nil_append, List.append_nil,
    List.flatMap_cons, List.flatMap_nil]

end

/-- A value that is no object is no manifest, with one error, leniently and strictly.  An object is a
manifest leniently, without remarks; strictly it is the same manifest unless there is an error.  The
manifest keeps the value as it is, a range from the development section overrides the other one, and each
range that is no string is one strict warning. -/
theorem strict_manifest_is_lenient_or_none (field : String) (path : Spelling) {v : Value}
    (sorted : v.Sorted) :
    ((∀ members, v ≠ .object members) → ∀ strict,
      ∃ d, d.isError = true ∧ normalise ⟨field, path, strict⟩ v = ⟨none, [d]⟩) ∧
    ∀ members, v = .object members →
      ∃ m, normalise ⟨field, path, false⟩ v = ⟨some m, []⟩ ∧
        m.raw = v ∧
        (∀ package, m.dependencies[package]? =
          (range? v "devDependencies" package).or (range? v "dependencies" package)) ∧
        ((normalise ⟨field, path, true⟩ v).manifest.isSome = true ↔
          ∀ d ∈ (normalise ⟨field, path, true⟩ v).remarks, d.isError = false) ∧
        (∀ m', (normalise ⟨field, path, true⟩ v).manifest = some m' → m' = m) ∧
        (normalise ⟨field, path, true⟩ v).remarks.filter (fun d => !d.isError) =
          ["dependencies", "devDependencies"].flatMap fun key =>
            ((entries v key).filter fun m => (ranged? m).isNone).map fun m => stray path key m.1 := by
  refine ⟨fun other strict => ?_, ?_⟩
  · cases v with
    | object members => exact absurd rfl (other members)
    | _ => exact ⟨_, rfl, rfl⟩
  · rintro members rfl
    refine ⟨Reading.contents ⟨field, path, false⟩ (.object members), ?_, rfl,
      contents_dependencies sorted _, ?_, ?_, ?_⟩
    · rw [normalise_object, remarks_lenient]
      rfl
    · rw [Option.isSome_iff_exists]
      simp only [manifest_eq_some_iff]
      exact ⟨fun ⟨_, clean, _⟩ => clean, fun clean => ⟨_, clean, rfl⟩⟩
    · intro m' read
      rw [← contents_alike]
      exact (manifest_eq_some_iff.1 read).2
    · exact warnings_strict field path (.object members)

def twoSections : Value :=
  .object
    [("dependencies", .object [("a", .string "^1.0.0"), ("b", .number (.whole 3))]),
      ("devDependencies", .object [("a", .string "2.0.0")])]

/-- It is read to the same manifest both ways, with the range of the development section and a warning
for the other package. -/
theorem strict_manifest_is_lenient_or_none_two_sections :
    let path : Spelling := .ofString "/p/package.json"
    twoSections.Sorted ∧ ∃ m,
      normalise ⟨"projfs", path, false⟩ twoSections = ⟨some m, []⟩ ∧
        (normalise ⟨"projfs", path, true⟩ twoSections).manifest = some m ∧
        m.dependencies["a"]? = some "2.0.0" ∧ m.dependencies["b"]? = none ∧
        (normalise ⟨"projfs", path, true⟩ twoSections).remarks.filter (fun d => !d.isError) =
          [stray path "dependencies" "b"] := by
  intro path
  have sorted : twoSections.Sorted := by
    refine .object _ (by unfold Ordered; decide) ?_
    simp only [List.mem_cons, List.not_mem_nil, or_false, forall_eq_or_imp, forall_eq]
    refine ⟨.object _ (by unfold Ordered; decide) ?_, .object _ (by unfold Ordered; decide) ?_⟩
    · simp only [List.mem_cons, List.not_mem_nil, or_false, forall_eq_or_imp, forall_eq]
      exact ⟨.string _, .number _⟩
    · simp only [List.mem_cons, List.not_mem_nil, or_false, forall_eq]
      exact .string _
  obtain ⟨m, lenient, -, ranges, -, same, warnings⟩ :=
    (strict_manifest_is_lenient_or_none "projfs" path sorted).2 _ rfl
  obtain ⟨m', strict⟩ : ∃ m', (normalise ⟨"projfs", path, true⟩ twoSections).manifest = some m' :=
    ⟨_, rfl⟩
  refine ⟨sorted, m, lenient, same m' strict ▸ strict, ?_, ?_, ?_⟩
  · rw [ranges]
    rfl
  · rw [ranges]
    rfl
  · rw [warnings]
    rfl

end ProjectIndex.Manifest
