import ProjectIndex.Proofs.Path.Containment

/-!
# Spelled paths

A path is followed name by name.  A name is plain when it stands for itself in a spelling: it is not
empty, it is not one of the two dot names, and it holds no separator.  The spelling of a path of plain
names splits into these names again, and every absolute spelling stands for such a path.
-/

namespace ProjectIndex

/-- A name that stands for itself in a spelling. -/
structure Name.Plain (n : Name) : Prop where
  nonempty : n ≠ []
  unsplit : Spelling.separator ∉ n
  notDot : n ≠ Spelling.dot
  notDotDot : n ≠ Spelling.dotDot

namespace Spelling

theorem split_ne_nil (bytes : List UInt8) : split bytes ≠ [] := by
  cases bytes with
  | nil => simp [split]
  | cons b rest =>
    unfold split
    split
    · simp
    · split <;> simp

theorem split_cons {b : UInt8} (other : b ≠ separator) (rest : List UInt8) :
    ∃ head tail, split rest = head :: tail ∧ split (b :: rest) = (b :: head) :: tail := by
  obtain ⟨head, tail, pieces⟩ := List.exists_cons_of_ne_nil (split_ne_nil rest)
  refine ⟨head, tail, pieces, ?_⟩
  rw [split, if_neg other, pieces]

/-- A piece without a separator is split off whole. -/
theorem split_append {n : Name} (unsplit : separator ∉ n) (rest : List UInt8) :
    split (n ++ separator :: rest) = n :: split rest := by
  induction n with
  | nil => simp [split]
  | cons b n ih =>
    have other : b ≠ separator := fun same => unsplit (by simp [same])
    have inner := ih fun member => unsplit (List.mem_cons_of_mem b member)
    rw [List.cons_append, split, if_neg other, inner]

theorem split_single {n : Name} (unsplit : separator ∉ n) : split n = [n] := by
  induction n with
  | nil => rfl
  | cons b n ih =>
    have other : b ≠ separator := fun same => unsplit (by simp [same])
    rw [split, if_neg other, ih fun member => unsplit (List.mem_cons_of_mem b member)]

/-- No piece holds a separator. -/
theorem unsplit_of_mem_split {bytes : List UInt8} {piece : Name} (member : piece ∈ split bytes) :
    separator ∉ piece := by
  induction bytes generalizing piece with
  | nil => simp_all [split]
  | cons b rest ih =>
    by_cases same : b = separator
    · rw [split, if_pos same] at member
      rcases List.mem_cons.1 member with rfl | later
      · simp
      · exact ih later
    · obtain ⟨head, tail, pieces, split⟩ := split_cons same rest
      rw [split] at member
      rw [pieces] at ih
      rcases List.mem_cons.1 member with rfl | later
      · simpa [Ne.symm same] using ih (List.mem_cons_self ..)
      · exact ih (List.mem_cons_of_mem _ later)

/-- What a piece stands for, if it is a name. -/
theorem plain_of_component {piece n : Name} (unsplit : separator ∉ piece)
    (named : component? piece = some (.name n)) : n.Plain := by
  unfold component? at named
  split at named
  · cases named
  next other =>
    split at named
    · cases named
    next notDotDot =>
      cases named
      rw [not_or] at other
      exact ⟨other.1, unsplit, other.2, notDotDot⟩

end Spelling

namespace Path

/-- The path that is reached by following names. -/
def descend (p : Path) (names : List Name) : Path :=
  ⟨p.components ++ names.map .name⟩

@[simp] theorem descend_nil (p : Path) : p.descend [] = p := by
  simp [descend]

theorem descend_append (p : Path) (first second : List Name) :
    p.descend (first ++ second) = (p.descend first).descend second := by
  simp [descend]

theorem covers_descend (p : Path) (names : List Name) : p.Covers (p.descend names) :=
  ⟨names.map .name, rfl⟩

theorem descend_injective {p : Path} {first second : List Name}
    (same : p.descend first = p.descend second) : first = second := by
  have names : Function.Injective Component.name := fun _ _ same => Component.name.inj same
  have components := List.append_cancel_left (congrArg Path.components same)
  exact List.map_injective_iff.2 names components

theorem parent_descend (p : Path) (names : List Name) (n : Name) :
    (p.descend (names ++ [n])).parent = some (p.descend names) := by
  refine parent_eq_some_iff.2 ⟨.name n, by simp, ?_⟩
  simp [descend]

/-- A path below another one that is reached by names is in one that is reached by names. -/
theorem eq_descend_of_parent {p d : Path} {names : List Name} (other : names ≠ [])
    (parent : (p.descend names).parent = some d) : ∃ init n, names = init ++ [n] ∧ d = p.descend init := by
  obtain ⟨init, n, rfl⟩ := List.eq_nil_or_concat' names |>.resolve_left other
  refine ⟨init, n, rfl, ?_⟩
  rw [parent_descend] at parent
  exact (Option.some.inj parent).symm

/-- One name leads from a directory to what is in it. -/
theorem eq_append_of_parent {p : Path} {names names' : List Name}
    (parent : (p.descend names').parent = some (p.descend names)) : ∃ n, names' = names ++ [n] := by
  have longer : names' ≠ [] := by
    rintro rfl
    rw [descend_nil] at parent
    exact not_covers_of_parent parent (covers_descend p names)
  obtain ⟨init, n, rfl, same⟩ := eq_descend_of_parent longer parent
  exact ⟨n, by rw [descend_injective same]⟩

theorem child_eq_descend {p : Path} (absolute : p.isAbsolute = true) (n : Name) :
    p.child n = p.descend [n] := by
  have named : p.components ≠ [.current] := by
    intro relative
    simp [isAbsolute, relative] at absolute
  simp [child, descend, named]

theorem spelling_descend (names : List Name) :
    (root.descend names).spelling.bytes = Spelling.separator :: renderTail (names.map .name) := rfl

theorem renderTail_cons (n m : Name) (names : List Name) :
    renderTail ((n :: m :: names).map .name) =
      n ++ Spelling.separator :: renderTail ((m :: names).map .name) := rfl

/-- The bytes of names split into the names again. -/
theorem split_renderTail {names : List Name} (some : names ≠ [])
    (plain : ∀ n ∈ names, Spelling.separator ∉ n) :
    Spelling.split (renderTail (names.map .name)) = names := by
  induction names with
  | nil => exact absurd rfl some
  | cons n rest ih =>
    cases rest with
    | nil => exact Spelling.split_single (plain n (by simp))
    | cons m names =>
      rw [renderTail_cons, Spelling.split_append (plain n (by simp)),
        ih (by simp) fun k member => plain k (by simp [member])]

theorem mem_renderTail {names : List Name} {b : UInt8} (other : b ≠ Spelling.separator) :
    b ∈ renderTail (names.map .name) ↔ ∃ n ∈ names, b ∈ n := by
  induction names with
  | nil => simp [renderTail]
  | cons n rest ih =>
    cases rest with
    | nil => simp [renderTail, renderTail.renderOne]
    | cons m names =>
      rw [renderTail_cons, List.mem_append, List.mem_cons, ih]
      simp [other]

/-- A spelling of plain names does not end with a separator. -/
theorem getLast?_renderTail {names : List Name} (some : names ≠ []) (plain : ∀ n ∈ names, n.Plain) :
    ∃ b, (renderTail (names.map .name)).getLast? = Option.some b ∧ b ≠ Spelling.separator := by
  induction names with
  | nil => exact absurd rfl some
  | cons n rest ih =>
    cases rest with
    | nil =>
      have own := plain n (by simp)
      refine ⟨n.getLast own.nonempty, List.getLast?_eq_some_getLast own.nonempty, fun same => ?_⟩
      exact own.unsplit (same ▸ List.getLast_mem own.nonempty)
    | cons m names =>
      obtain ⟨b, last, other⟩ := ih (by simp) fun k member => plain k (by simp [member])
      refine ⟨b, ?_, other⟩
      rw [renderTail_cons, List.getLast?_append, List.getLast?_cons, last]
      rfl

/-- Each name of a path takes at least one byte of its spelling. -/
theorem length_le_spelling {names : List Name} (plain : ∀ n ∈ names, n.Plain) :
    names.length ≤ (root.descend names).spelling.bytes.length := by
  rw [spelling_descend]
  induction names with
  | nil => simp
  | cons n rest ih =>
    have later := ih fun m member => plain m (by simp [member])
    have own : 0 < n.length := List.length_pos_of_ne_nil (plain n (by simp)).nonempty
    cases rest with
    | nil => simp [renderTail, renderTail.renderOne]
    | cons m names =>
      rw [renderTail_cons]
      simp only [List.length_cons, List.length_append] at later ⊢
      omega

/-- An absolute path of plain names. -/
def Plain (p : Path) : Prop :=
  ∃ names, p = root.descend names ∧ ∀ n ∈ names, n.Plain

/-- What is in a directory is reached by a plain name. -/
theorem Plain.of_parent {p d : Path} (plain : p.Plain) (parent : p.parent = some d) :
    ∃ n : Name, n.Plain ∧ p = d.descend [n] := by
  obtain ⟨way, rfl, wayPlain⟩ := plain
  have longer : way ≠ [] := by
    rintro rfl
    cases parent
  obtain ⟨init, n, rfl, rfl⟩ := eq_descend_of_parent longer parent
  exact ⟨n, wayPlain n (by simp), descend_append _ init [n]⟩

def piled (floor : List Component) (names : List Name) : List Component :=
  (names.map .name).reverse ++ floor

theorem piled_concat (floor : List Component) (names : List Name) (n : Name) :
    piled floor (names ++ [n]) = .name n :: piled floor names := by
  simp [piled]

/-- A stack of plain names on a floor stays one.  Only the way up from the floor itself changes it. -/
theorem foldl_push_piled {rooted : Bool} {isFloor : List Component → Prop}
    (rises : ∀ floor, isFloor floor → isFloor (push rooted floor .up)) {cs floor : List Component}
    {names : List Name} (ground : isFloor floor) (plain : ∀ n ∈ names, n.Plain)
    (pushed : ∀ c ∈ cs, c = .up ∨ ∃ n, c = .name n ∧ n.Plain) :
    ∃ floor' left, isFloor floor' ∧ (∀ n ∈ left, n.Plain) ∧
      cs.foldl (push rooted) (piled floor names) = piled floor' left := by
  induction cs generalizing floor names with
  | nil => exact ⟨floor, names, ground, plain, rfl⟩
  | cons c rest ih =>
    have later := fun c member => pushed c (List.mem_cons_of_mem _ member)
    rw [List.foldl_cons]
    rcases pushed c (by simp) with rfl | ⟨n, rfl, own⟩
    · rcases List.eq_nil_or_concat' names with rfl | ⟨init, n, rfl⟩
      · exact ih (rises floor ground) plain later
      · rw [piled_concat]
        exact ih ground (fun m member => plain m (by simp [member])) later
    · have put : push rooted (piled floor names) (.name n) = piled floor (names ++ [n]) :=
        (piled_concat floor names n).symm
      rw [put]
      refine ih ground (fun m member => ?_) later
      rcases List.mem_append.1 member with before | last
      · exact plain m before
      · exact List.mem_singleton.1 last ▸ own

/-- A stack of plain names on the root stays one. -/
theorem foldl_push {cs : List Component} {names : List Name} (plain : ∀ n ∈ names, n.Plain)
    (pushed : ∀ c ∈ cs, c = .up ∨ ∃ n, c = .name n ∧ n.Plain) :
    ∃ left : List Name, (∀ n ∈ left, n.Plain) ∧
      cs.foldl (push true) (piled [.root] names) = piled [.root] left := by
  have rises : ∀ floor, floor = [Component.root] → push true floor .up = [.root] := by
    rintro floor rfl
    rfl
  obtain ⟨_, left, rfl, each, stack⟩ := foldl_push_piled rises rfl plain pushed
  exact ⟨left, each, stack⟩

/-- What is not anchored at the root stays so. -/
theorem root_not_mem_foldl_push {cs stack : List Component} (unrooted : .root ∉ cs)
    (bare : .root ∉ stack) : Component.root ∉ cs.foldl (push false) stack := by
  induction cs generalizing stack with
  | nil => exact bare
  | cons c rest ih =>
    rw [List.foldl_cons]
    refine ih (fun member => unrooted (List.mem_cons_of_mem _ member)) ?_
    cases c with
    | root => simp at unrooted
    | current => exact bare
    | name n => simpa [push] using bare
    | up =>
      cases stack with
      | nil => simp [push]
      | cons top below => cases top <;> simp_all [push]

theorem normalise_of_stack {cs stack : List Component} {rooted : Bool}
    (start : (cs.head? == some .root) = rooted) (pushed : cs.foldl (push rooted) [] = stack)
    (some : stack ≠ []) : normalise cs = stack.reverse := by
  unfold normalise
  rw [start, pushed]
  cases stack with
  | nil => exact absurd rfl some
  | cons top below => rfl

/-- The pieces of a spelling stand for plain names and for the way up. -/
theorem plain_pieces (s : Spelling) :
    ∀ c ∈ (Spelling.split s.bytes).filterMap Spelling.component?,
      c = .up ∨ ∃ n, c = .name n ∧ n.Plain := by
  intro c member
  obtain ⟨piece, inside, stands⟩ := List.mem_filterMap.1 member
  have unsplit := Spelling.unsplit_of_mem_split inside
  cases c with
  | up => exact Or.inl rfl
  | name n => exact Or.inr ⟨n, rfl, Spelling.plain_of_component unsplit stands⟩
  | root | current =>
    unfold Spelling.component? at stands
    split at stands
    · cases stands
    · split at stands <;> cases stands

theorem root_not_mem_components {s : Spelling} (relative : s.isAbsolute = false) :
    Component.root ∉ s.components := by
  intro member
  simp only [Spelling.components, relative, Bool.false_eq_true, if_false, List.mem_append] at member
  rcases member with first | piece
  · split at first <;> simp at first
  · rcases plain_pieces s _ piece with up | ⟨n, named, _⟩
    · cases up
    · cases named

theorem head?_ne_root {cs : List Component} (unrooted : .root ∉ cs) :
    (cs.head? == some Component.root) = false := by
  cases first : cs.head? with
  | none => rfl
  | some c =>
    have member := List.mem_of_head? first
    cases c <;> simp_all

/-- A spelling that does not start at the root stands for a path that does not. -/
theorem isAbsolute_ofSpelling {s : Spelling} (relative : s.isAbsolute = false) :
    (ofSpelling s).isAbsolute = false := by
  have unrooted := root_not_mem_components relative
  have start := head?_ne_root unrooted
  have bare := @root_not_mem_foldl_push s.components [] unrooted (by simp)
  by_contra absolute
  cases pushed : s.components.foldl (push false) [] with
  | nil => simp [ofSpelling, isAbsolute, normalise, start, pushed] at absolute
  | cons top below =>
    have normal := normalise_of_stack start pushed (by simp)
    have head : (top :: below).reverse.head? = some .root := by
      simpa [ofSpelling, isAbsolute, normal] using absolute
    rw [pushed] at bare
    exact bare (List.mem_reverse.1 (List.mem_of_head? head))

/-- Every absolute path in normal form is one of plain names. -/
theorem plain_ofSpelling {s : Spelling} (absolute : (ofSpelling s).isAbsolute = true) :
    (ofSpelling s).Plain := by
  cases anchored : s.isAbsolute with
  | true =>
    have components : s.components =
        .root :: (Spelling.split s.bytes).filterMap Spelling.component? := by
      simp [Spelling.components, anchored]
    obtain ⟨names, plain, stack⟩ := @foldl_push _ [] (by simp) (plain_pieces s)
    refine ⟨names, congrArg Path.mk ?_, plain⟩
    have start : (s.components.head? == some .root) = true := by simp [components]
    have pushed : (Component.root :: (Spelling.split s.bytes).filterMap Spelling.component?).foldl
        (push true) [] = (names.map .name).reverse ++ [.root] := stack
    rw [normalise_of_stack start (components ▸ pushed) (by simp)]
    simp [root]
  | false => cases absolute.symm.trans (isAbsolute_ofSpelling anchored)

/-- A spelling that stands for a path below an absolute one stands for a path of plain names. -/
theorem Plain.of_covers {root : Path} (plain : root.Plain) {s : Spelling}
    (covers : root.Covers (.ofSpelling s)) : (ofSpelling s).Plain := by
  obtain ⟨way, rfl, _⟩ := plain
  refine plain_ofSpelling ?_
  obtain ⟨rest, below⟩ := covers
  simp [isAbsolute, ← below, descend, Path.root]

end Path

end ProjectIndex
