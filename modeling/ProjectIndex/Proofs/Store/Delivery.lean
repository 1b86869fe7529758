import ProjectIndex.Broadcast

/-!
# Delivery of notices

A subscriber of a new channel that is large enough for everything that is sent gets every message,
in order, and no sign of loss.
-/

namespace ProjectIndex.Broadcast

variable {α : Type}

/-- The capacity of a channel is not below what was asked for. -/
theorem le_roundUp (n : Nat) : n ≤ roundUp n := by
  have grows : ∀ fuel size, 1 ≤ size → n ≤ size + fuel → n ≤ roundUp.go n fuel size := by
    intro fuel
    induction fuel with
    | zero =>
      intro size _ enough
      simpa [roundUp.go] using enough
    | succ fuel ih =>
      intro size positive enough
      unfold roundUp.go
      split
      · assumption
      · exact ih (2 * size) (by omega) (by omega)
  exact grows n 1 (Nat.le_refl 1) (by omega)

/-- What fits is kept. -/
theorem foldl_send (messages : List α) (b : Broadcast α) (listened : b.subscriberCount ≠ 0)
    (fits : b.kept.length + messages.length ≤ b.capacity) :
    messages.foldl send b =
      { b with kept := b.kept ++ messages, next := b.next + messages.length } := by
  induction messages generalizing b with
  | nil => simp
  | cons a rest ih =>
    have short : b.kept.length + 1 - b.capacity = 0 := by
      simp only [List.length_cons] at fits
      omega
    have sent : b.send a = { b with kept := b.kept ++ [a], next := b.next + 1 } := by
      simp [send, listened, short]
    rw [List.foldl_cons, sent, ih { b with kept := b.kept ++ [a], next := b.next + 1 } listened]
    · simp [Nat.add_assoc, Nat.add_comm 1]
    · simp only [List.length_append, List.length_cons, List.length_nil] at fits ⊢
      omega

/-- A channel that has kept everything, and one subscriber that wants the message with this number
next. -/
def holding (capacity : Nat) (messages : List α) (wanted : Nat) : Broadcast α where
  capacity := capacity
  kept := messages
  next := messages.length
  subscribers := [some wanted]

/-- A subscriber of a channel that has kept everything gets what it has not got yet. -/
theorem drain_holding (capacity : Nat) (messages : List α) (left : Nat) :
    ∀ fuel wanted got, wanted + left = messages.length → left < fuel →
      (drain.go 0 fuel (holding capacity messages wanted) got).2 =
        got.reverse ++ (messages.drop wanted).map Receipt.message := by
  induction left with
  | zero =>
    intro fuel wanted got position enough
    obtain ⟨fuel, rfl⟩ : ∃ n, fuel = n + 1 := ⟨fuel - 1, by omega⟩
    have last : wanted = messages.length := by omega
    simp [drain.go, receive, holding, last]
  | succ left ih =>
    intro fuel wanted got position enough
    obtain ⟨fuel, rfl⟩ : ∃ n, fuel = n + 1 := ⟨fuel - 1, by omega⟩
    have within : wanted < messages.length := by omega
    have other : wanted ≠ messages.length := Nat.ne_of_lt within
    have further := ih fuel (wanted + 1) (.message messages[wanted] :: got) (by omega) (by omega)
    have received : (holding capacity messages wanted).receive 0 =
        (holding capacity messages (wanted + 1), .message messages[wanted]) := by
      simp [receive, holding, other, oldest, within]
    rw [drain.go, received]
    dsimp only
    rw [further, List.drop_eq_getElem_cons within, List.map_cons, List.reverse_cons,
      List.append_assoc, List.singleton_append]

/-- The first subscriber of a channel that is large enough gets everything that is sent. -/
theorem drain_sent (capacity : Nat) (messages : List α) (enough : messages.length ≤ capacity) :
    ((messages.foldl send (create capacity).subscribe.1).drain 0).2 = messages.map .message := by
  have fits : messages.length ≤ roundUp capacity := Nat.le_trans enough (le_roundUp capacity)
  have kept : messages.foldl send (create capacity).subscribe.1 =
      holding (roundUp capacity) messages 0 := by
    rw [foldl_send messages _ (by simp [subscribe, create, subscriberCount])
      (by simpa [subscribe, create] using fits)]
    simp [subscribe, create, holding]
  have drained := drain_holding (roundUp capacity) messages messages.length
    (messages.length + 1) 0 [] (by omega) (by omega)
  rw [kept]
  exact drained

end ProjectIndex.Broadcast
