import ProjectIndex.Proofs.Path.Containment
import ProjectIndex.Proofs.Store.Quiet

/-!
# What the backend is told

The calls to the backend are part of the trace.  Most of what is done to a store makes no call and
leaves the subscriptions and the known directories alone; such a change is aside.  Dropping the
subscriptions at and below a path is a search in the order of paths, and since everything below a
path follows it without a gap, the search finds them all.
-/

namespace ProjectIndex

open Std

namespace Backend

/-- The search finds the subscriptions at and below the path, and no others. -/
theorem mem_closing {b : Backend} {top q : Path} :
    q ∈ b.closing top ↔ q ∈ b.subscribed ∧ top.Covers q := by
  have ordered : b.subscribed.toList.Pairwise fun p q => compare p q = .lt := ExtTreeSet.ordered_toList
  rw [closing, ← ExtTreeSet.mem_toList]
  generalize b.subscribed.toList = paths at ordered
  have kept : (paths.dropWhile fun p => compare p top == .lt).Sublist paths := List.dropWhile_sublist _
  constructor
  · intro found
    refine ⟨kept.subset ((List.takeWhile_sublist _).subset found), ?_⟩
    exact Path.isAncestorOrSelfOf_iff.1 (List.all_eq_true.1 List.all_takeWhile q found)
  · rintro ⟨member, covers⟩
    have late : q ∈ paths.dropWhile fun p => compare p top == .lt := by
      rw [← @List.takeWhile_append_dropWhile _ (fun p => compare p top == .lt) paths,
        List.mem_append] at member
      refine member.resolve_left fun early => covers.not_before ?_
      simpa using List.all_eq_true.1 List.all_takeWhile q early
    have order := ordered.sublist kept
    have low : ∀ p ∈ paths.dropWhile fun p => compare p top == .lt, compare p top ≠ .lt := by
      cases left : paths.dropWhile fun p => compare p top == .lt with
      | nil => simp
      | cons first rest =>
        have reached : compare first top ≠ .lt := by
          have stops := List.head_dropWhile_not (fun p => compare p top == .lt) (l := paths)
            (by simp [left])
          simpa [left] using stops
        rw [left, List.pairwise_cons] at order
        intro p member before
        rcases List.mem_cons.1 member with rfl | later
        · exact reached before
        · exact reached (TransCmp.lt_trans (order.1 p later) before)
    obtain ⟨before, after, split⟩ := List.mem_iff_append.1 late
    rw [split] at order low ⊢
    have covered : ∀ p ∈ before, top.isAncestorOrSelfOf p = true := fun p member => by
      have earlier := (List.pairwise_append.1 order).2.2 p member q (by simp)
      exact Path.isAncestorOrSelfOf_iff.2
        (covers.between (low p (by simp [member])) (by simp [earlier]))
    rw [List.takeWhile_append_of_pos covered]
    simp [covers]

/-- The subscriptions that are left are those that are not at or below the path. -/
theorem mem_unsubscribe {b : Backend} {top q : Path} :
    q ∈ (b.unsubscribe top).1.subscribed ↔ q ∈ b.subscribed ∧ ¬ top.Covers q := by
  have erased : ∀ (gone : List Path) (set : PathSet),
      q ∈ gone.foldl (fun set p => set.erase p) set ↔ q ∈ set ∧ q ∉ gone := by
    intro gone
    induction gone with
    | nil => simp
    | cons p rest ih =>
      intro set
      rw [List.foldl_cons, ih, ExtTreeSet.mem_erase, List.mem_cons]
      simp only [ne_eq, LawfulEqCmp.compare_eq_iff_eq, @eq_comm _ p q]
      tauto
  rw [unsubscribe, erased, mem_closing]
  tauto

end Backend

namespace Store

/-- The calls to the backend, the latest first. -/
def calls (s : Store) : List (BackendCall × Path) :=
  s.trace.filterMap fun
    | .backend call path => some (call, path)
    | _ => none

/-- The change from `s` to `t` touches neither the backend, nor the calls, nor the known
directories. -/
structure Aside (s t : Store) : Prop where
  backend : t.backend = s.backend
  calls : t.calls = s.calls
  directories : t.index.directories = s.index.directories

namespace Aside

@[simp] theorem refl (s : Store) : Aside s s :=
  ⟨rfl, rfl, rfl⟩

theorem trans {s t u : Store} (first : Aside s t) (second : Aside t u) : Aside s u where
  backend := second.backend.trans first.backend
  calls := second.calls.trans first.calls
  directories := second.directories.trans first.directories

end Aside

def Elsewhere (e : Effect) : Prop :=
  ∀ call path, e ≠ .backend call path

theorem aside_emit {e : Effect} (elsewhere : Elsewhere e) (s : Store) : Aside s (s.emit e) := by
  refine ⟨rfl, ?_, rfl⟩
  cases e with
  | backend call path => exact absurd rfl (elsewhere call path)
  | _ => rfl

theorem aside_emitAll {es : List Effect} (elsewhere : ∀ e ∈ es, Elsewhere e) (s : Store) :
    Aside s (s.emitAll es) :=
  emitAll_related .refl .trans (fun e member => aside_emit (elsewhere e member)) s

theorem aside_log (s : Store) (line : Log.Line) : Aside s (s.log line) :=
  aside_emit (by simp [Elsewhere]) s

theorem aside_evict (s : Store) (p : Path) :
    Aside { s with index := (s.index.evict p).1 } (s.evict p).1 := by
  rcases s.evict_logged p with same | ⟨line, logged⟩
  · rw [same]
    exact .refl _
  · rw [logged]
    exact aside_log _ line

theorem aside_askProject (s : Store) (root : Path) : Aside s (s.askProject root) :=
  aside_emit (by simp [Elsewhere]) s

/-- Another set of projects is nothing that the backend sees. -/
theorem aside_projects (s : Store) (projects : Projects) : Aside s { s with projects } :=
  ⟨rfl, rfl, rfl⟩

theorem aside_projectDeclared (s : Store) (root : Path) : Aside s (s.projectDeclared root) := by
  have declared := aside_projects s (s.projects.declare root)
  dsimp only [projectDeclared]
  split
  · exact declared
  · exact declared.trans (aside_log _ _)

theorem aside_directoryDone (s : Store) (dir : Path) : Aside s (s.directoryDone dir) := by
  unfold directoryDone
  split
  · exact ((aside_projects s _).trans (aside_emit (by simp [Elsewhere]) _)).trans (aside_log _ _)
  · exact .refl s

/-- A call is recorded with lines of the log. -/
private theorem call_recorded (s : Store) (call : BackendCall) (path : Path)
    (lines : List Log.Line) :
    (s.emitAll (.backend call path :: lines.map .log)).backend = s.backend ∧
      (s.emitAll (.backend call path :: lines.map .log)).calls = (call, path) :: s.calls := by
  have logged := @aside_emitAll (lines.map .log) (by simp [Elsewhere]) (s.emit (.backend call path))
  exact ⟨logged.backend, logged.calls⟩

theorem forgetDirectory_recorded (s : Store) (dir : Path) :
    (s.forgetDirectory dir).backend = (s.backend.forgetDirectory dir).1 ∧
      (s.forgetDirectory dir).calls = (.forgetDirectory, dir) :: s.calls :=
  call_recorded { s with backend := (s.backend.forgetDirectory dir).1 } _ _ _

theorem closeRoot_recorded (s : Store) (root : Path) :
    (s.closeRoot root).backend = (s.backend.closeRoot root).1 ∧
      (s.closeRoot root).calls = (.closeRoot, root) :: s.calls :=
  call_recorded { s with backend := (s.backend.closeRoot root).1 } _ _ _

theorem releaseRoot_recorded (s : Store) (root : Path) :
    (s.releaseRoot root).backend = (s.backend.releaseRoot root).1 ∧
      (s.releaseRoot root).calls = (.releaseRoot, root) :: s.calls :=
  call_recorded { s with backend := (s.backend.releaseRoot root).1 } _ _ _

/-- The call for the subscription of a root is recorded when it is made, not when it is answered. -/
theorem rootTaken_recorded (s : Store) (root : Path) :
    (s.rootTaken root).backend = (s.backend.openRoot root).1 ∧ (s.rootTaken root).calls = s.calls := by
  have logged := @aside_emitAll ((s.backend.openRoot root).2.map .log) (by simp [Elsewhere])
    { s with backend := (s.backend.openRoot root).1 }
  exact ⟨logged.backend, logged.calls⟩

/-- Deleting a path makes no call. -/
theorem delete_calls (s : Store) (p : Path) :
    (s.delete p).backend = s.backend ∧ (s.delete p).calls = s.calls := by
  have told := @aside_emitAll ((s.evict p).2.map fun file => .notice (.deleted file))
    (by simp [Elsewhere]) (s.evict p).1
  have evicted := s.aside_evict p
  exact ⟨told.backend.trans evicted.backend, told.calls.trans evicted.calls⟩

/-- One of these calls ends the subscription of the root: it is released, or it is closed, by itself or
with everything below a path above it. -/
def EndRoot (made : List (BackendCall × Path)) (r : Path) : Prop :=
  (∃ top, (.closeRoot, top) ∈ made ∧ top.Covers r) ∨ (.releaseRoot, r) ∈ made

/-- The calls from `s` to `t` end the subscriptions of these roots, and of no others. -/
def Told (s t : Store) (ended : Path → Prop) : Prop :=
  ∃ made, t.calls = made ++ s.calls ∧ ∀ r, EndRoot made r ↔ ended r

namespace Told

variable {s t u : Store} {ended ended' : Path → Prop}

theorem of_call {call : BackendCall} {path : Path} (calls : t.calls = (call, path) :: s.calls)
    (ends : ∀ r, (call = .closeRoot ∧ path.Covers r) ∨ (call = .releaseRoot ∧ path = r) ↔ ended r) :
    Told s t ended := by
  refine ⟨[(call, path)], calls, fun r => Iff.trans ?_ (ends r)⟩
  simp only [EndRoot, List.mem_singleton, Prod.mk.injEq]
  grind

theorem of_calls (calls : t.calls = s.calls) : Told s t fun _ => False :=
  ⟨[], calls, by simp [EndRoot]⟩

theorem congr (told : Told s t ended) (same : ∀ r, ended r ↔ ended' r) : Told s t ended' := by
  obtain ⟨made, calls, ends⟩ := told
  exact ⟨made, calls, fun r => (ends r).trans (same r)⟩

theorem trans (first : Told s t ended) (second : Told t u ended') :
    Told s u fun r => ended r ∨ ended' r := by
  obtain ⟨made, calls, ends⟩ := first
  obtain ⟨more, calls', ends'⟩ := second
  refine ⟨more ++ made, by rw [calls', calls, List.append_assoc], fun r => ?_⟩
  refine Iff.trans ?_ (or_congr (ends r) (ends' r))
  simp only [EndRoot, List.mem_append]
  grind

/-- What is aside before and after a call makes no difference to it. -/
theorem after (told : Told t u ended) (calls : t.calls = s.calls) : Told s u ended :=
  ((of_calls calls).trans told).congr fun _ => by simp

theorem before (told : Told s t ended) (calls : u.calls = t.calls) : Told s u ended :=
  (told.trans (of_calls calls)).congr fun _ => by simp

end Told

theorem told_askRoot (s : Store) (root : Path) : Told s (s.askRoot root) fun _ => False :=
  .of_call (show (s.askRoot root).calls = (.openRoot, root) :: s.calls from rfl) (by simp)

theorem told_closeRoot (s : Store) (root : Path) : Told s (s.closeRoot root) root.Covers :=
  .of_call (closeRoot_recorded s root).2 (by simp)

theorem told_releaseRoot (s : Store) (root : Path) : Told s (s.releaseRoot root) (root = ·) :=
  .of_call (releaseRoot_recorded s root).2 (by simp)

end Store

end ProjectIndex
