import ProjectIndex.Proofs.Path.Spelled

/-!
# Spellings seen from a directory

Where a relative spelling leads depends only on the path that it stands for: names that it goes down
and up again are gone from that path, and the rest is done to the directory as it is done to nothing.
A spelling that never goes up stands for its pieces, less the dots among them.
-/

namespace ProjectIndex.Path

/-- What is put on a rooted stack may be put on an empty one first. -/
theorem foldl_push_reverse {cs stack base : List Component} (unrooted : .root ∉ cs) :
    cs.foldl (push true) (stack.reverse.foldl (push true) base) =
      (cs.foldl (push false) stack).reverse.foldl (push true) base := by
  induction cs generalizing stack with
  | nil => rfl
  | cons c rest ih =>
    have later : Component.root ∉ rest := fun member => unrooted (List.mem_cons_of_mem _ member)
    have one : push true (stack.reverse.foldl (push true) base) c =
        (push false stack c).reverse.foldl (push true) base := by
      cases c with
      | root => simp at unrooted
      | current => rfl
      | name n => simp [push]
      | up =>
        cases stack with
        | nil => simp [push]
        | cons top below => cases top <;> simp [push]
    rw [List.foldl_cons, List.foldl_cons, one, ih later]

theorem foldl_push_append (names : List Name) (rooted : Bool) (stack : List Component) :
    (names.map .name).foldl (push rooted) stack = (names.map Component.name).reverse ++ stack := by
  induction names generalizing stack with
  | nil => rfl
  | cons n rest ih => simp [push, ih]

/-- What follows a rooted path counts only by its normal form. -/
theorem normalise_append {base cs : List Component} (rooted : base.head? = some .root)
    (unrooted : .root ∉ cs) : normalise (base ++ cs) = normalise (base ++ normalise cs) := by
  have start (rest : List Component) : ((base ++ rest).head? == some Component.root) = true := by
    obtain ⟨tail, rfl⟩ := List.head?_eq_some_iff.1 rooted
    rfl
  have pushed : cs.foldl (push true) (base.foldl (push true) []) =
      (normalise cs).foldl (push true) (base.foldl (push true) []) := by
    rw [normalise, head?_ne_root unrooted]
    have same := @foldl_push_reverse cs [] (base.foldl (push true) []) unrooted
    simp only [List.reverse_nil, List.foldl_nil] at same
    rw [same]
    cases cs.foldl (push false) [] <;> rfl
  unfold normalise
  rw [start, start, List.foldl_append, List.foldl_append, pushed]
  rfl

/-- An absolute spelling stands for an absolute path, and no other does. -/
theorem isAbsolute_ofSpelling_eq (s : Spelling) : (ofSpelling s).isAbsolute = s.isAbsolute := by
  cases anchored : s.isAbsolute with
  | false => exact isAbsolute_ofSpelling anchored
  | true =>
    have components : s.components =
        .root :: (Spelling.split s.bytes).filterMap Spelling.component? := by
      simp [Spelling.components, anchored]
    obtain ⟨names, _, stack⟩ := @foldl_push _ [] (by simp) (plain_pieces s)
    have pushed : s.components.foldl (push true) [] = (names.map .name).reverse ++ [.root] := by
      rw [components]
      exact stack
    have normal := normalise_of_stack (by simp [components]) pushed (by simp)
    simp [ofSpelling, isAbsolute, normal]

/-- Two spellings of one path lead from a rooted path to one place. -/
theorem join_congr {base : Path} (rooted : base.isAbsolute = true) {p q : Spelling}
    (same : ofSpelling p = ofSpelling q) : base.join p = base.join q := by
  have anchored : p.isAbsolute = q.isAbsolute := by
    rw [← isAbsolute_ofSpelling_eq, ← isAbsolute_ofSpelling_eq, same]
  unfold join
  rw [← anchored]
  split
  · exact same
  next relative =>
    have first : p.isAbsolute = false := by simpa using relative
    have second : q.isAbsolute = false := anchored ▸ first
    have head : base.components.head? = some .root := by simpa [isAbsolute] using rooted
    have normal : normalise p.components = normalise q.components := congrArg Path.components same
    rw [normalise_append head (root_not_mem_components first),
      normalise_append head (root_not_mem_components second), normal]

end ProjectIndex.Path
