import ProjectIndex.Proofs.Index.Reach
import ProjectIndex.Proofs.Store.Projects
import ProjectIndex.Proofs.Store.Quiet

/-!
# The stages of a project

A root is no project, or the root of one that is declared, or of one that is initialized.  A declaration
takes it from the first stage to the second, and the end of a crawl that entered the root takes it from
the second to the third.  A crawl enters a directory when it registers it and asks for a subscription.
Most of what is done to a store is uneventful: no directory is entered, none comes to be known, and every
project stays at its stage.
-/

namespace ProjectIndex

open Std

namespace Projects

variable {ps ps' ps'' : Projects} {r : Path}

def stage? (ps : Projects) (root : Path) : Option Bool :=
  (ps.get? root).map Project.initialized

theorem stage?_declare (ps : Projects) (root r : Path) :
    (ps.declare root).stage? r = ps.stage? r ∨
      (r = root ∧ ps.stage? r = none ∧ (ps.declare root).stage? r = some false) := by
  rcases ps.declare_cases root with ⟨_, same⟩ | ⟨_, same⟩ | ⟨absent, id, _, added⟩
  · rw [same]
    exact Or.inl rfl
  · rw [same]
    exact Or.inl rfl
  · rw [added]
    by_cases own : root = r
    · subst own
      refine Or.inr ⟨rfl, ?_, ?_⟩
      · simp [stage?, get?, ExtTreeMap.getElem?_eq_none absent]
      · simp [stage?, get?_insert]
    · left
      rw [stage?, get?_insert, if_neg own]
      rfl

theorem stage?_markInitialized (ps : Projects) (dir r : Path) :
    (ps.markInitialized dir).stage? r =
      if dir = r then (ps.stage? r).map fun _ => true else ps.stage? r := by
  simp only [stage?, get?, markInitialized, ExtTreeMap.getElem?_modify, LawfulEqCmp.compare_eq_iff_eq]
  split
  next own =>
    subst own
    simp [Function.comp_def]
  · rfl

theorem stage?_associate (ps : Projects) (id : ProjectId) (m : ManifestId) (r : Path) :
    (ps.associate id m).stage? r = ps.stage? r := by
  unfold associate
  split
  · rfl
  · simp only [stage?, get?, ExtTreeMap.getElem?_modify, LawfulEqCmp.compare_eq_iff_eq]
    split
    next own =>
      subst own
      simp [Function.comp_def]
    · rfl

/-- What is declared stays declared, and away from the roots that may be completed the stages stay,
except that some roots may be declared. -/
structure Develops (declares completes : Path → Prop) (ps ps' : Projects) : Prop where
  kept : ∀ r, ps.stage? r ≠ none → ps'.stage? r ≠ none
  stage : ∀ r, ¬ completes r → ps'.stage? r = ps.stage? r ∨
    (declares r ∧ ps.stage? r = none ∧ ps'.stage? r = some false)

namespace Develops

variable {declares declares' completes completes' : Path → Prop}

theorem of_stages (same : ∀ r, ps'.stage? r = ps.stage? r) : ps.Develops declares completes ps' where
  kept r declared := by rwa [same]
  stage r _ := Or.inl (same r)

theorem mono (develops : ps.Develops declares completes ps') (more : ∀ r, declares r → declares' r)
    (further : ∀ r, completes r → completes' r) : ps.Develops declares' completes' ps' where
  kept := develops.kept
  stage r out := (develops.stage r fun within => out (further r within)).imp_right
    fun ⟨declared, fresh⟩ => ⟨more r declared, fresh⟩

theorem trans (first : ps.Develops declares completes ps')
    (second : ps'.Develops declares completes ps'') : ps.Develops declares completes ps'' where
  kept r declared := second.kept r (first.kept r declared)
  stage r out := by
    rcases first.stage r out with same | ⟨declared, fresh, now⟩
    · rw [← same]
      exact second.stage r out
    · rcases second.stage r out with same | ⟨_, absent, _⟩
      · exact Or.inr ⟨declared, fresh, same.trans now⟩
      · rw [now] at absent
        cases absent

theorem declare (ps : Projects) (root : Path) : ps.Develops (· = root) completes (ps.declare root) where
  kept r declared := by
    rcases ps.stage?_declare root r with same | ⟨_, absent, _⟩
    · rwa [same]
    · exact absurd absent declared
  stage r _ := ps.stage?_declare root r

/-- The project of one directory is completed, if there is one. -/
theorem of_completed {dir : Path} (stages : ∀ r, ps'.stage? r =
    if dir = r then (ps.stage? r).map fun _ => true else ps.stage? r) :
    ps.Develops declares (· = dir) ps' where
  kept r declared := by
    rw [stages]
    split
    · simpa using declared
    · exact declared
  stage r other := by
    rw [stages, if_neg fun same => other same.symm]
    exact Or.inl rfl

end Develops

end Projects

def Effect.enters? : Effect → Option Path
  | .backend .watchDirectory dir => some dir
  | _ => none

namespace Store

variable {s t u : Store}

/-- The directories that crawls have entered, the latest first. -/
def entered (s : Store) : List Path :=
  s.trace.filterMap Effect.enters?

/-- No directory is entered, none comes to be known, and every project stays at its stage. -/
structure Uneventful (s t : Store) : Prop where
  stage : ∀ r, t.projects.stage? r = s.projects.stage? r
  entered : t.entered = s.entered
  index : s.index.Filed → t.index.Filed ∧ ∀ q ∈ t.index.directories, q ∈ s.index.directories

namespace Uneventful

theorem refl (s : Store) : s.Uneventful s :=
  ⟨fun _ => rfl, rfl, fun filed => ⟨filed, fun _ known => known⟩⟩

theorem trans (first : s.Uneventful t) (second : t.Uneventful u) : s.Uneventful u where
  stage r := (second.stage r).trans (first.stage r)
  entered := second.entered.trans first.entered
  index filed := by
    obtain ⟨filed', before⟩ := first.index filed
    obtain ⟨filed'', between⟩ := second.index filed'
    exact ⟨filed'', fun q known => before q (between q known)⟩

end Uneventful

theorem uneventful_emit {e : Effect} (other : e.enters? = none) (s : Store) : s.Uneventful (s.emit e) where
  stage _ := rfl
  entered := by
    rw [entered, emit, List.filterMap_cons_none other]
    rfl
  index := (Uneventful.refl s).index

theorem uneventful_emitAll {es : List Effect} (others : ∀ e ∈ es, e.enters? = none) (s : Store) :
    s.Uneventful (s.emitAll es) :=
  emitAll_related .refl .trans (fun e member => uneventful_emit (others e member)) s

theorem uneventful_log (s : Store) (line : Log.Line) : s.Uneventful (s.log line) :=
  uneventful_emit rfl s

/-- The backend, the numbers and the generations have nothing to do with projects. -/
theorem uneventful_replace (s : Store) (backend : Backend) (nextManifest : ManifestId)
    (nextGeneration : Generation) :
    s.Uneventful { s with backend, nextManifest, nextGeneration } :=
  ⟨fun _ => rfl, rfl, (Uneventful.refl s).index⟩

/-- Another index, with no directory that was not known before. -/
theorem uneventful_index (s : Store) {index : Index}
    (shrinks : s.index.Filed → index.Filed ∧ ∀ q ∈ index.directories, q ∈ s.index.directories) :
    s.Uneventful { s with index } :=
  ⟨fun _ => rfl, rfl, shrinks⟩

theorem uneventful_evict (s : Store) (p : Path) : s.Uneventful (s.evict p).1 := by
  have evicted : s.Uneventful { s with index := (s.index.evict p).1 } := by
    apply uneventful_index
    intro filed
    exact ⟨(filed.evict p).filed, fun q known => (filed.mem_directories_evict.1 known).1⟩
  rcases s.evict_logged p with same | ⟨line, logged⟩
  · exact same ▸ evicted
  · exact logged ▸ evicted.trans (uneventful_log _ line)

theorem uneventful_delete (s : Store) (p : Path) : s.Uneventful (s.delete p) := by
  apply (s.uneventful_evict p).trans
  apply uneventful_emitAll
  simp [Effect.enters?]

/-- A call to the backend that enters nothing, recorded with lines of the log. -/
private theorem uneventful_call (s : Store) (backend : Backend) {effects : List Effect}
    (others : ∀ e ∈ effects, e.enters? = none) :
    s.Uneventful ({ s with backend }.emitAll effects) :=
  (s.uneventful_replace backend s.nextManifest s.nextGeneration).trans (uneventful_emitAll others _)

theorem uneventful_forgetDirectory (s : Store) (dir : Path) : s.Uneventful (s.forgetDirectory dir) :=
  uneventful_call s _ (by simp [Effect.enters?])

theorem uneventful_rootTaken (s : Store) (root : Path) : s.Uneventful (s.rootTaken root) :=
  uneventful_call s _ (by simp [Effect.enters?])

theorem uneventful_closeRoot (s : Store) (root : Path) : s.Uneventful (s.closeRoot root) :=
  uneventful_call s _ (by simp [Effect.enters?])

theorem uneventful_releaseRoot (s : Store) (root : Path) : s.Uneventful (s.releaseRoot root) :=
  uneventful_call s _ (by simp [Effect.enters?])

theorem uneventful_directoryAnswered (s : Store) (dir : Path) (taken : Bool) :
    s.Uneventful (s.directoryAnswered dir taken) :=
  s.uneventful_replace _ s.nextManifest s.nextGeneration

theorem projectDeclared_projects (s : Store) (root : Path) :
    (s.projectDeclared root).projects = s.projects.declare root := by
  unfold projectDeclared
  dsimp only
  split <;> rfl

/-- But for the project itself, a declaration changes nothing. -/
theorem projectDeclared_else (s : Store) (root : Path) :
    (s.projectDeclared root).entered = s.entered ∧ (s.projectDeclared root).index = s.index := by
  unfold projectDeclared
  dsimp only
  split
  · exact ⟨rfl, rfl⟩
  · exact ⟨(uneventful_log _ _).entered, rfl⟩

/-- The end of a directory completes the project of the directory, if there is one. -/
theorem stage?_directoryDone (s : Store) (dir r : Path) :
    (s.directoryDone dir).projects.stage? r =
      if dir = r then (s.projects.stage? r).map fun _ => true else s.projects.stage? r := by
  unfold directoryDone
  split
  · exact s.projects.stage?_markInitialized dir r
  next other =>
    split
    next own =>
      subst own
      have absent : s.projects.get? dir = none := by
        apply ExtTreeMap.getElem?_eq_none
        simpa [Projects.isRoot] using other
      simp [Projects.stage?, absent]
    · rfl

theorem directoryDone_else (s : Store) (dir : Path) :
    (s.directoryDone dir).entered = s.entered ∧ (s.directoryDone dir).index = s.index := by
  unfold directoryDone
  split
  · refine ⟨(uneventful_log _ _).entered.trans ?_, rfl⟩
    exact (uneventful_emit rfl { s with projects := s.projects.markInitialized dir }).entered
  · exact ⟨rfl, rfl⟩

end Store

end ProjectIndex
