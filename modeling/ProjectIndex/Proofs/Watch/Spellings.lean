import ProjectIndex.Proofs.Disk.Straight
import ProjectIndex.Proofs.Watch.Retry
import ProjectIndex.Watch.Facade

/-!
# Answers do not depend on the spelling

Two spellings of one path get the same answers and start the same requests.  A root is seen from the
current directory, which makes no difference to two spellings of one path; the empty spelling is
refused there although it stands for the current directory everywhere else.
-/

namespace ProjectIndex.Watch

variable {policy : Policy} {d : Disk} {h : Host} {p q : Spelling}

theorem absolute_eq_ok (named : p.bytes ≠ []) : d.absolute p = .ok (d.currentPath.join p) := by
  simp [Disk.absolute, named]

theorem absolute_eq_error (empty : p.bytes = []) : d.absolute p = .error .emptyPath := by
  simp [Disk.absolute, empty]

theorem currentPath_join_congr (same : Path.ofSpelling p = .ofSpelling q) :
    d.currentPath.join p = d.currentPath.join q :=
  Path.join_congr rfl same

/-- What stands for the same path as the empty spelling is the current directory. -/
theorem currentPath_join_of_empty (empty : p.bytes = []) (same : Path.ofSpelling p = .ofSpelling q) :
    d.currentPath.join q = d.currentPath := by
  obtain ⟨bytes⟩ := p
  obtain rfl : bytes = [] := empty
  rw [← currentPath_join_congr same]
  have pushed : d.currentPath.components.foldl (Path.push true) [] =
      (d.current.map Component.name).reverse ++ [.root] :=
    Path.foldl_push_append d.current true [.root]
  have normal := Path.normalise_of_stack (by rfl) pushed (by simp)
  have bare : (⟨[]⟩ : Spelling).components = [] := by decide
  simp only [Path.join, bare, List.append_nil, normal]
  simp [Disk.currentPath, Spelling.isAbsolute]

/-- A watch is never refused before it looks at anything. -/
theorem watch_ne_refused (root : Path) (h h' : Host) (e : IndexError) :
    h.watch root ≠ (h', .finished (.watched (.error e))) := by
  unfold Host.watch
  intro refused
  split at refused <;> simp_all

theorem watchSpelled_eq_iff (same : Path.ofSpelling p = .ofSpelling q) :
    h.watchSpelled d p = h.watchSpelled d q ↔ (p.bytes = [] ↔ q.bytes = []) := by
  by_cases first : p.bytes = [] <;> by_cases second : q.bytes = []
  · have equal : p = q := by
      cases p
      cases q
      simp_all
    simp [equal]
  · simp only [Host.watchSpelled, absolute_eq_error first, absolute_eq_ok second, first, second]
    simpa using Ne.symm (watch_ne_refused _ h h _)
  · simp only [Host.watchSpelled, absolute_eq_ok first, absolute_eq_error second, first, second]
    simpa using watch_ne_refused _ h h _
  · simp [Host.watchSpelled, absolute_eq_ok, first, second, currentPath_join_congr same]

/-- A withdrawal that finds nothing changes nothing. -/
theorem unwatch_eq_iff (root : Path) (h : Host) :
    h.unwatch root = (h, false) ↔ (h.unwatch root).2 = false := by
  unfold Host.unwatch
  split <;> simp

theorem unwatchSpelled_eq_iff (same : Path.ofSpelling p = .ofSpelling q) :
    h.unwatchSpelled d p = h.unwatchSpelled d q ↔
      (p.bytes = [] ↔ q.bytes = []) ∨ (h.unwatch d.currentPath).2 = false := by
  by_cases first : p.bytes = [] <;> by_cases second : q.bytes = []
  · simp [Host.unwatchSpelled, absolute_eq_error, first, second]
  · have current := @currentPath_join_of_empty d _ _ first same
    simp only [Host.unwatchSpelled, absolute_eq_error first, absolute_eq_ok second, current, first,
      second]
    simpa [@eq_comm _ (h, false)] using unwatch_eq_iff d.currentPath h
  · have current := @currentPath_join_of_empty d _ _ second same.symm
    simp only [Host.unwatchSpelled, absolute_eq_ok first, absolute_eq_error second, current, first,
      second]
    simpa using unwatch_eq_iff d.currentPath h
  · simp [Host.unwatchSpelled, absolute_eq_ok, first, second, currentPath_join_congr same]

/-- Where the index decides, the disk is not asked; straight spellings of one path get one answer
from the disk. -/
theorem existsOnDisk_congr (same : Path.ofSpelling p = .ofSpelling q)
    (settled : h.exists? (.ofSpelling p) ≠ .unknown ∨ (p.isStraight = true ∧ q.isStraight = true) ∨
      (d.statEntry p).isOk = (d.statEntry q).isOk) :
    h.existsOnDisk d p = h.existsOnDisk d q := by
  unfold Host.existsOnDisk
  rw [← same]
  cases known : h.exists? (.ofSpelling p) with
  | «exists» | missing => rfl
  | unknown =>
    rcases settled with decided | ⟨first, second⟩ | told
    · exact absurd known decided
    · simp only [Disk.statEntry_congr d first second same]
    · exact told

/-- Two spellings of one path get the same answer to every question, and requests for them start in
the same way, so that they end in the same way.  The empty spelling is no root: nothing is watched
or withdrawn under it, whatever other spelling of the current directory is watched.  Where the index
leaves it to the disk whether something exists, spellings that go straight to a name get the same
answer, and so do any others of which the disk tells the same. -/
theorem answers_independent_of_spelling (policy : Policy) (d : Disk) (h : Host) (p q : Spelling)
    (same : Path.ofSpelling p = .ofSpelling q) :
    (∀ question, question ≠ .existenceOnDisk → h.answer d question p = h.answer d question q) ∧
      (h.exists? (.ofSpelling p) ≠ .unknown ∨ (p.isStraight = true ∧ q.isStraight = true) ∨
          (d.statEntry p).isOk = (d.statEntry q).isOk →
        h.answer d .existenceOnDisk p = h.answer d .existenceOnDisk q) ∧
      h.refreshSpelled policy p = h.refreshSpelled policy q ∧
      (h.watchSpelled d p = h.watchSpelled d q ↔ (p.bytes = [] ↔ q.bytes = [])) ∧
      (h.unwatchSpelled d p = h.unwatchSpelled d q ↔
        (p.bytes = [] ↔ q.bytes = []) ∨ (h.unwatch d.currentPath).2 = false) := by
  refine ⟨fun question other => ?_, fun settled => ?_, ?_, watchSpelled_eq_iff same,
    unwatchSpelled_eq_iff same⟩
  · cases question with
    | existenceOnDisk => exact absurd rfl other
    | _ => simp only [Host.answer, same]
  · simp only [Host.answer, existsOnDisk_congr same settled]
  · simp only [Host.refreshSpelled, same]

/-- A known file that is spelled with a detour, a dot and a doubled separator. -/
theorem answers_independent_of_spelling_detour :
    let p := Spelling.ofString "/a/../a//./d/x.js"
    let q := Spelling.ofString "/a/d/x.js"
    let d := packageDisk (wholePackage 0)
    let h := watchedOn (wholePackage 0) unwatched
    Path.ofSpelling p = .ofSpelling q ∧
      (∀ question, question ≠ .existenceOnDisk → h.answer d question p = h.answer d question q) ∧
      h.answer d .existenceOnDisk p = h.answer d .existenceOnDisk q ∧
      h.refreshSpelled (.ofSettings {}) p = h.refreshSpelled (.ofSettings {}) q ∧
      h.watchSpelled d p = h.watchSpelled d q ∧ h.unwatchSpelled d p = h.unwatchSpelled d q := by
  intro p q d h
  have same : Path.ofSpelling p = .ofSpelling q := by decide
  have decided : h.exists? (.ofSpelling p) ≠ .unknown := by decide +kernel
  have named : p.bytes = [] ↔ q.bytes = [] := by decide
  obtain ⟨asked, onDisk, refreshed, watched, withdrawn⟩ :=
    answers_independent_of_spelling (.ofSettings {}) d h p q same
  exact ⟨same, asked, onDisk (Or.inl decided), refreshed, watched.2 named,
    withdrawn.2 (Or.inl named)⟩

/-- The empty spelling and the dot stand for one path, and only the dot can be watched. -/
theorem empty_spelling_is_no_root :
    let nothing := Spelling.ofString ""
    let dot := Spelling.ofString "."
    Path.ofSpelling nothing = .ofSpelling dot ∧
      unwatched.watchSpelled .empty nothing =
        (unwatched, .finished (.watched (.error (.io nothing .emptyPath)))) ∧
      (unwatched.watchSpelled .empty dot).2 = .waiting (.looking .root 0) ∧
      unwatched.watchSpelled .empty nothing ≠ unwatched.watchSpelled .empty dot :=
  ⟨by decide, rfl, rfl, fun equal => nomatch congrArg Prod.snd equal⟩

end ProjectIndex.Watch
