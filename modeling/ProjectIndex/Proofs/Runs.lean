import Mathlib.Data.List.Infix

/-!
# What happens along a run

A run is a list of moves that are made one after the other, each from the state that the earlier ones
lead to.  What is said of a run is said by induction on its last move: what the moves leave on record
is what the earlier ones left and what the last one adds, and what happened at one of the moves
happened at an earlier one or at the last one.
-/

namespace ProjectIndex

/-- What the moves of a run leave on record, in their order; `record` is told the state before and
after the move. -/
def history {State Move Entry : Type} (step : State → Move → State)
    (record : State → Move → State → List Entry) : State → List Move → List Entry
  | _, [] => []
  | s, move :: rest =>
    record s move (step s move) ++ history step record (step s move) rest

theorem history_concat {State Move Entry : Type} (step : State → Move → State)
    (record : State → Move → State → List Entry) (s : State) (moves : List Move) (move : Move) :
    history step record s (moves ++ [move]) =
      history step record s moves ++
        record (moves.foldl step s) move (step (moves.foldl step s) move) := by
  induction moves generalizing s with
  | nil => simp [history]
  | cons first rest ih =>
    rw [List.cons_append, history, history, ih, List.append_assoc]
    rfl

/-- What happened at one of the moves happened at an earlier one, or at the last one. -/
theorem exists_prefix_concat {Move : Type} {happens : List Move → Move → Prop}
    {moves : List Move} {move : Move} :
    (∃ before last, before ++ [last] <+: moves ++ [move] ∧ happens before last) ↔
      (∃ before last, before ++ [last] <+: moves ∧ happens before last) ∨ happens moves move := by
  constructor
  · rintro ⟨before, last, within, happened⟩
    rcases List.prefix_concat_iff.1 within with whole | earlier
    · obtain ⟨rfl, rfl⟩ := List.append_singleton_inj.1 whole
      exact Or.inr happened
    · exact Or.inl ⟨before, last, earlier, happened⟩
  · rintro (⟨before, last, within, happened⟩ | happened)
    · exact ⟨before, last, within.trans (List.prefix_append _ _), happened⟩
    · exact ⟨moves, move, List.prefix_rfl, happened⟩

end ProjectIndex
