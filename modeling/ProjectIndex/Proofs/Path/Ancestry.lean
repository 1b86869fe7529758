import ProjectIndex.Proofs.Path.Containment

/-!
# Ancestors

The ancestors of a path are its proper beginnings, the longest first.  For an absolute path the empty
beginning is left out, since the root has no parent.  So a path lies strictly below exactly its
ancestors, and each ancestor lies at or above all that come before it in the list.
-/

namespace ProjectIndex.Path

def beginning (p : Path) (n : Nat) : Path :=
  ⟨p.components.take n⟩

theorem covers_beginning (p : Path) (n : Nat) : (p.beginning n).Covers p :=
  List.take_prefix n _

theorem beginning_covers {p : Path} {m n : Nat} (le : m ≤ n) : (p.beginning m).Covers (p.beginning n) :=
  List.take_prefix_take_left le

theorem Covers.eq_beginning {q p : Path} (covers : q.Covers p) :
    q = p.beginning q.components.length := by
  obtain ⟨rest, split⟩ := covers
  simp [beginning, ← split]

/-- What covers a path is the path or one of its ancestors, unless it is the empty path, which does
not count above an absolute one. -/
theorem mem_ancestors_iff {p q : Path} :
    q ∈ p.ancestors ↔ p ≠ q ∧ q.Covers p ∧ ¬ (p.isAbsolute = true ∧ q.components = []) := by
  have counted : (!(p.isAbsolute && q.components.isEmpty)) = true ↔
      ¬ (p.isAbsolute = true ∧ q.components = []) := by
    cases p.isAbsolute <;> simp
  simp only [ancestors, List.mem_filter, List.mem_map, List.mem_reverse, List.mem_range, counted]
  constructor
  · rintro ⟨⟨n, short, rfl⟩, counts⟩
    have other : p ≠ p.beginning n := by
      intro same
      have lengths := congrArg (fun q => q.components.length) same
      simp only [beginning, List.length_take] at lengths
      omega
    exact ⟨other, covers_beginning p n, counts⟩
  · rintro ⟨other, covers, counts⟩
    refine ⟨⟨q.components.length, ?_, covers.eq_beginning.symm⟩, counts⟩
    refine Nat.lt_of_le_of_ne covers.length_le fun same => other ?_
    have whole := covers.eq_beginning
    rw [same] at whole
    rw [whole, beginning, List.take_length]

/-- Ancestors come in the order of nearness. -/
theorem ancestors_ordered (p : Path) :
    p.ancestors.Pairwise fun near far => far ≠ near ∧ far.Covers near := by
  have lengths : (List.range p.components.length).reverse.Pairwise fun m n => n < m := by
    rw [List.pairwise_reverse]
    exact List.pairwise_lt_range
  refine List.Pairwise.filter _ (List.pairwise_map.2 ?_)
  refine lengths.imp_of_mem ?_
  intro m n inside _ less
  refine ⟨fun same => ?_, beginning_covers (Nat.le_of_lt less)⟩
  have short : m < p.components.length := List.mem_range.1 (List.mem_reverse.1 inside)
  have equal := congrArg (fun q => q.components.length) same
  simp only [List.length_take] at equal
  omega

theorem withAncestors_ordered (p : Path) :
    p.withAncestors.Pairwise fun near far => far ≠ near ∧ far.Covers near := by
  refine List.pairwise_cons.2 ⟨fun far above => ?_, ancestors_ordered p⟩
  obtain ⟨other, covers, _⟩ := mem_ancestors_iff.1 above
  exact ⟨other.symm, covers⟩

/-- The path and its ancestors are the paths that cover it. -/
theorem mem_withAncestors_iff {p q : Path} (nonempty : q.components ≠ []) :
    q ∈ p.withAncestors ↔ q.Covers p := by
  simp only [withAncestors, List.mem_cons, mem_ancestors_iff, nonempty, and_false, not_false_eq_true,
    and_true]
  constructor
  · rintro (rfl | ⟨_, covers⟩)
    · exact .refl q
    · exact covers
  · intro covers
    by_cases same : q = p
    · exact Or.inl same
    · exact Or.inr ⟨Ne.symm same, covers⟩

end ProjectIndex.Path
