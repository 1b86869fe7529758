import ProjectIndex.Proofs.Disk.Tree
import Mathlib.Data.List.Nodup

/-!
# Walks on a disk

How a disk answers about the tree below a path.  The way to the path may lead through links; from
there on a walk through directories meets none, so it comes to the entry that is followed in the
tree, or to a name that is not there.

The names on a disk are legal ones, and the entries of each directory have different names.
-/

namespace ProjectIndex

def Name.isLegal (n : Name) : Bool :=
  n ≠ [] && n ≠ Spelling.dot && n ≠ Spelling.dotDot && !n.contains Spelling.separator &&
    !n.contains 0 && n.length ≤ Disk.maxNameLength

namespace Name

variable {n : Name}

theorem plain_of_isLegal (legal : n.isLegal = true) : n.Plain := by
  simp only [isLegal, Bool.and_eq_true, decide_eq_true_eq, Bool.not_eq_true', List.contains_eq_mem,
    decide_eq_false_iff_not] at legal
  exact ⟨legal.1.1.1.1.1, legal.1.1.2, legal.1.1.1.1.2, legal.1.1.1.2⟩

theorem nul_of_isLegal (legal : n.isLegal = true) : 0 ∉ n := by
  simp only [isLegal, Bool.and_eq_true, Bool.not_eq_true', List.contains_eq_mem,
    decide_eq_false_iff_not] at legal
  exact legal.1.2

theorem length_of_isLegal (legal : n.isLegal = true) : n.length ≤ Disk.maxNameLength := by
  simp only [isLegal, Bool.and_eq_true, decide_eq_true_eq] at legal
  exact legal.2

end Name

theorem Path.Plain.descend {p : Path} (plain : p.Plain) {names : List Name}
    (legal : ∀ n ∈ names, n.isLegal = true) : (p.descend names).Plain := by
  obtain ⟨way, rfl, wayPlain⟩ := plain
  refine ⟨way ++ names, (Path.descend_append _ way names).symm, fun n member => ?_⟩
  rcases List.mem_append.1 member with before | after
  · exact wayPlain n before
  · exact Name.plain_of_isLegal (legal n after)

namespace Node

mutual

/-- The names in each directory are legal and different. -/
def isTidy : Node → Bool
  | .directory _ es => decide (es.map (·.1)).Nodup && allTidy es
  | _ => true

def allTidy : List (Name × Node) → Bool
  | [] => true
  | (n, node) :: rest => n.isLegal && node.isTidy && allTidy rest

end

theorem tidy_of_mem {es : List (Name × Node)} (tidy : allTidy es = true) {n : Name} {node : Node}
    (member : (n, node) ∈ es) : n.isLegal = true ∧ node.isTidy = true := by
  induction es with
  | nil => cases member
  | cons e rest ih =>
    simp only [allTidy, Bool.and_eq_true] at tidy
    rcases List.mem_cons.1 member with rfl | later
    · exact tidy.1
    · exact ih tidy.2 later

/-- Below a tidy node everything is tidy. -/
theorem tidy_get? {node below : Node} {names : List Name} (tidy : node.isTidy = true)
    (found : node.get? names = some below) : below.isTidy = true ∧ ∀ n ∈ names, n.isLegal = true := by
  induction names generalizing node with
  | nil =>
    cases found
    exact ⟨tidy, by simp⟩
  | cons n rest ih =>
    obtain ⟨time, es, next, rfl, entry, later⟩ := get?_cons found
    simp only [isTidy, Bool.and_eq_true] at tidy
    obtain ⟨legal, deeper⟩ := tidy_of_mem tidy.2 (mem_of_lookup entry)
    obtain ⟨below, others⟩ := ih deeper later
    exact ⟨below, by simpa using ⟨legal, others⟩⟩

theorem tidy_directory {time : Int} {es : List (Name × Node)}
    (tidy : (Node.directory time es).isTidy = true) :
    (es.map (·.1)).Nodup ∧ ∀ e ∈ es, e.1.isLegal = true := by
  simp only [isTidy, Bool.and_eq_true, decide_eq_true_eq] at tidy
  exact ⟨tidy.1, fun e member => (tidy_of_mem tidy.2 member).1⟩

end Node

namespace Disk

/-- What one piece of a walk does, whatever comes after it: the walk fails, goes on elsewhere, or
comes to a link. -/
theorem walk_cons (root : Node) (start : List Name) (piece : Name) :
    (∃ e, ∀ follow rest, walk root follow start (piece :: rest) = .error e) ∨
      (∃ next, ∀ follow rest, walk root follow start (piece :: rest) = walk root follow next rest) ∨
      ∃ time target next, root.get? (start ++ [piece]) = some (.link time target) ∧
        ∀ follow rest, walk root follow start (piece :: rest) =
          if rest.isEmpty && !follow then .ok (.entry (start ++ [piece]))
          else .ok (.link next (pieces ⟨target⟩ ++ rest)) := by
  cases here : root.get? start with
  | none => exact Or.inl ⟨.notFound, by simp [walk, here]⟩
  | some node =>
    cases node with
    | directory time es =>
      by_cases dot : piece = Spelling.dot
      · exact Or.inr (Or.inl ⟨start, by simp [walk, here, dot]⟩)
      by_cases dotDot : piece = Spelling.dotDot
      · exact Or.inr (Or.inl ⟨start.dropLast, by simp [walk, here, dotDot, Spelling.dot, Spelling.dotDot]⟩)
      by_cases long : maxNameLength < piece.length
      · exact Or.inl ⟨.nameTooLong, by simp [walk, here, dot, dotDot, long]⟩
      cases entry : es.lookup piece with
      | none => exact Or.inl ⟨.notFound, by simp [walk, here, dot, dotDot, long, entry]⟩
      | some next =>
        cases next with
        | link time target =>
          refine Or.inr (Or.inr ⟨time, target, if (⟨target⟩ : Spelling).isAbsolute then [] else start,
            Node.get?_of_lookup here entry, fun follow rest => ?_⟩)
          simp only [walk, here, dot, dotDot, long, entry, if_false]
        | _ => exact Or.inr (Or.inl ⟨start ++ [piece], by simp [walk, here, dot, dotDot, long, entry]⟩)
    | _ => exact Or.inl ⟨.notADirectory, by simp [walk, here]⟩

variable {root : Node} {start location place : List Name}

/-- A walk that comes to a directory goes on from there. -/
theorem walk_append {first : List Name} {time : Int} {es : List (Name × Node)}
    (reached : walk root false start first = .ok (.entry location))
    (directory : root.get? location = some (.directory time es)) (follow : Bool)
    (second : List Name) :
    walk root follow start (first ++ second) = walk root follow location second := by
  induction first generalizing start with
  | nil =>
    cases reached
    rfl
  | cons piece rest ih =>
    rw [List.cons_append]
    rcases walk_cons root start piece with ⟨e, fails⟩ | ⟨next, goesOn⟩ | ⟨_, target, next, link, linked⟩
    · cases (fails false rest).symm.trans reached
    · rw [goesOn] at reached ⊢
      exact ih reached
    · rw [linked] at reached
      split at reached
      · cases reached
        cases link.symm.trans directory
      · cases reached

/-- A walk that has to follow a link has to follow it whatever comes later. -/
theorem walk_append_link {first todo next : List Name}
    (reached : walk root false start first = .ok (.link next todo)) (follow : Bool)
    (second : List Name) :
    walk root follow start (first ++ second) = .ok (.link next (todo ++ second)) := by
  induction first generalizing start with
  | nil => cases reached
  | cons piece rest ih =>
    rw [List.cons_append]
    rcases walk_cons root start piece with ⟨e, fails⟩ | ⟨next, goesOn⟩ | ⟨_, target, next, link, linked⟩
    · cases (fails false rest).symm.trans reached
    · rw [goesOn] at reached ⊢
      exact ih reached
    · rw [linked] at reached ⊢
      split at reached
      · cases reached
      next more =>
        cases reached
        have nonempty : rest ≠ [] := by simpa using more
        rw [if_neg (by simp [nonempty]), List.append_assoc]

/-- What is looked for below a directory is looked for from there. -/
theorem resolve_append {first : List Name} {links : Nat} {time : Int} {es : List (Name × Node)}
    (reached : resolve root false links start first = .ok place)
    (directory : root.get? place = some (.directory time es)) :
    ∃ left, ∀ follow second,
      resolve root follow links start (first ++ second) = resolve root follow left place second := by
  induction links generalizing start first with
  | zero =>
    unfold resolve at reached
    split at reached
    · cases reached
    next location walked =>
      cases reached
      refine ⟨0, fun follow second => ?_⟩
      unfold resolve
      rw [walk_append walked directory]
    · cases reached
  | succ links ih =>
    unfold resolve at reached
    split at reached
    · cases reached
    next location walked =>
      cases reached
      refine ⟨links + 1, fun follow second => ?_⟩
      unfold resolve
      rw [walk_append walked directory]
    next next todo walked =>
      obtain ⟨left, later⟩ := ih reached
      refine ⟨left, fun follow second => ?_⟩
      rw [resolve, walk_append_link walked]
      exact later follow second

/-- A walk through directories comes to what is there. -/
theorem walk_found {names : List Name} {node : Node} {follow : Bool}
    (legal : ∀ n ∈ names, n.isLegal = true) (found : root.get? (start ++ names) = some node)
    (ends : follow = true → ∀ time target, node ≠ .link time target) :
    walk root follow start names = .ok (.entry (start ++ names)) := by
  induction names generalizing start with
  | nil => simp [walk]
  | cons n rest ih =>
    have own := legal n (by simp)
    have plain := Name.plain_of_isLegal own
    have short : ¬ maxNameLength < n.length := Nat.not_lt.2 (Name.length_of_isLegal own)
    rw [Node.get?_append] at found
    obtain ⟨above, here, below⟩ := Option.bind_eq_some_iff.1 found
    obtain ⟨time, es, next, rfl, entry, later⟩ := Node.get?_cons below
    have reached : root.get? (start ++ [n] ++ rest) = some node := by
      rw [Node.get?_append, Node.get?_of_lookup here entry]
      exact later
    have deeper := ih (fun m member => legal m (by simp [member])) reached
    simp only [List.append_assoc, List.singleton_append] at deeper
    simp only [walk, here, plain.notDot, plain.notDotDot, short, entry, if_false]
    cases next with
    | link time target =>
      cases rest with
      | nil =>
        cases later
        have unfollowed : follow = false := by
          cases follow with
          | false => rfl
          | true => exact absurd rfl (ends rfl time target)
        simp [unfollowed]
      | cons m rest =>
        obtain ⟨_, _, _, strange, _⟩ := Node.get?_cons later
        cases strange
    | _ => exact deeper

/-- A walk to a name that is not in a directory fails. -/
theorem walk_absent {n : Name} {time : Int} {es : List (Name × Node)} {follow : Bool}
    (plain : n.Plain) (here : root.get? start = some (.directory time es))
    (absent : es.lookup n = none) :
    walk root follow start [n] =
      .error (if maxNameLength < n.length then .nameTooLong else .notFound) := by
  simp only [walk, here, plain.notDot, plain.notDotDot, absent, if_false]
  split <;> rfl

/-- The pieces of a path of plain names are the names; the root itself is written with a dot. -/
theorem pieces_descend {names : List Name} (plain : ∀ n ∈ names, n.Plain) :
    pieces (Path.root.descend names).spelling =
      if names = [] then [Spelling.dot] else names := by
  unfold pieces
  rw [Path.spelling_descend]
  cases names with
  | nil => rfl
  | cons n rest =>
    have some : n :: rest ≠ [] := by simp
    obtain ⟨b, last, other⟩ := Path.getLast?_renderTail some plain
    have kept : (n :: rest).filter (· != []) = n :: rest := by
      refine List.filter_eq_self.2 fun m member => ?_
      simpa using (plain m member).nonempty
    have split : Spelling.split (Spelling.separator :: Path.renderTail ((n :: rest).map .name)) =
        [] :: n :: rest := by
      rw [Spelling.split, if_pos rfl, Path.split_renderTail some fun m member => (plain m member).unsplit]
    rw [split, List.getLast?_cons, last, if_neg (by simpa using other), if_neg some,
      List.filter_cons_of_neg (by simp), kept]

/-- A disk whose top is a directory, with tidy names everywhere. -/
def isTidy (d : Disk) : Bool :=
  d.root.isDirectory && d.root.isTidy

/-- A spelling of plain names is looked for from the top of the disk. -/
theorem locate_descend {d : Disk} (tidy : d.isTidy = true) {names : List Name}
    (plain : ∀ n ∈ names, n.Plain) (follow : Bool) :
    d.locate follow (Path.root.descend names).spelling =
      if ∃ n ∈ names, 0 ∈ n then .error .nulByte
      else if maxPathLength < (Path.root.descend names).spelling.bytes.length then .error .nameTooLong
      else resolve d.root follow maxLinks [] names := by
  have nul : (Path.root.descend names).spelling.bytes.contains 0 = true ↔ ∃ n ∈ names, 0 ∈ n := by
    rw [Path.spelling_descend, List.contains_iff_mem, List.mem_cons,
      Path.mem_renderTail (by decide)]
    simp [Spelling.separator]
  have absolute : (Path.root.descend names).spelling.isAbsolute = true := by
    simp [Spelling.isAbsolute, Path.spelling_descend]
  have dotted : resolve d.root follow maxLinks [] (pieces (Path.root.descend names).spelling) =
      resolve d.root follow maxLinks [] names := by
    rw [pieces_descend plain]
    split
    next top =>
      simp only [isTidy, Bool.and_eq_true] at tidy
      cases here : d.root with
      | directory time es => simp [top, resolve, walk, Node.get?]
      | _ => simp [here, Node.isDirectory] at tidy
    · rfl
  have nonempty : (Path.root.descend names).spelling.bytes.isEmpty = false := by
    simp [Path.spelling_descend]
  unfold locate
  rw [if_congr nul rfl rfl, absolute, if_pos rfl, dotted, nonempty]
  simp

theorem node_eq_ok {d : Disk} {follow : Bool} {s : Spelling} {node : Node} :
    d.node follow s = .ok node ↔
      ∃ place, d.locate follow s = .ok place ∧ d.root.get? place = some node := by
  unfold Disk.node
  cases d.locate follow s with
  | error e => simp [bind, Except.bind]
  | ok place =>
    cases found : d.root.get? place <;> simp [bind, Except.bind, found, pure, Except.pure, throw,
      throwThe, MonadExceptOf.throw]

/-- The path is a directory of the disk itself, and everything below it has a path that the system
takes. -/
structure Carries (d : Disk) (root : Path) (tree : Node) : Prop where
  tidy : d.isTidy = true
  plain : root.Plain
  node : d.node false root.spelling = .ok tree
  directory : tree.isDirectory = true
  room : ∀ names node, tree.get? names = some node →
    (root.descend names).spelling.bytes.length ≤ maxPathLength

namespace Carries

variable {d : Disk} {root : Path} {tree : Node}

/-- Whether a disk carries a tree can be seen from the listing of the tree. -/
theorem of_listing {names : List Name} (tidy : d.isTidy = true)
    (legal : ∀ n ∈ names, n.isLegal = true)
    (node : d.node false (Path.root.descend names).spelling = .ok tree)
    (directory : tree.isDirectory = true)
    (room : ∀ e ∈ tree.listing [],
      ((Path.root.descend names).descend e.1).spelling.bytes.length ≤ maxPathLength) :
    d.Carries (Path.root.descend names) tree where
  tidy := tidy
  plain := ⟨names, rfl, fun n member => Name.plain_of_isLegal (legal n member)⟩
  node := node
  directory := directory
  room _ _ found := room _ (Node.mem_listing found [])

/-- What is below the path is looked for from its place. -/
theorem locate (carries : d.Carries root tree) :
    ∃ place left, d.root.get? place = some tree ∧ ∀ follow names, (∀ n ∈ names, n.Plain) →
      d.locate follow (root.descend names).spelling =
        if ∃ n ∈ names, 0 ∈ n then .error .nulByte
        else if maxPathLength < (root.descend names).spelling.bytes.length then .error .nameTooLong
        else resolve d.root follow left place names := by
  obtain ⟨way, rfl, plain⟩ := carries.plain
  obtain ⟨place, located, found⟩ := node_eq_ok.1 carries.node
  rw [locate_descend carries.tidy plain] at located
  split at located
  · cases located
  next noNul =>
    split at located
    · cases located
    · obtain ⟨time, es, rfl⟩ : ∃ time es, tree = .directory time es := by
        have directory := carries.directory
        cases tree with
        | directory time es => exact ⟨time, es, rfl⟩
        | _ => simp [Node.isDirectory] at directory
      obtain ⟨left, goesOn⟩ := resolve_append located found
      refine ⟨place, left, found, fun follow names namesPlain => ?_⟩
      have whole : ∀ n ∈ way ++ names, n.Plain := by
        intro n member
        rcases List.mem_append.1 member with before | after
        · exact plain n before
        · exact namesPlain n after
      have nul : (∃ n ∈ way ++ names, 0 ∈ n) ↔ ∃ n ∈ names, 0 ∈ n := by
        constructor
        · rintro ⟨n, member, byte⟩
          rcases List.mem_append.1 member with before | after
          · exact absurd ⟨n, before, byte⟩ noNul
          · exact ⟨n, after, byte⟩
        · rintro ⟨n, member, byte⟩
          exact ⟨n, List.mem_append_right _ member, byte⟩
      rw [← Path.descend_append, locate_descend carries.tidy whole, if_congr nul rfl rfl, goesOn]

/-- What is below the path in the tree is tidy. -/
theorem tidy_below (carries : d.Carries root tree) {names : List Name} {node : Node}
    (found : tree.get? names = some node) :
    node.isTidy = true ∧ ∀ n ∈ names, n.isLegal = true := by
  have tidy := carries.tidy
  obtain ⟨place, _, here⟩ := node_eq_ok.1 carries.node
  simp only [Disk.isTidy, Bool.and_eq_true] at tidy
  exact Node.tidy_get? (Node.tidy_get? tidy.2 here).1 found

/-- The disk tells what is in the tree. -/
theorem node_found (carries : d.Carries root tree) {names : List Name} {node : Node} {follow : Bool}
    (found : tree.get? names = some node)
    (ends : follow = true → ∀ time target, node ≠ .link time target) :
    d.node follow (root.descend names).spelling = .ok node := by
  obtain ⟨place, left, here, locate⟩ := carries.locate
  have legal := (carries.tidy_below found).2
  have reached : d.root.get? (place ++ names) = some node := by
    rw [Node.get?_append, here]
    exact found
  refine node_eq_ok.2 ⟨place ++ names, ?_, reached⟩
  have noNul : ¬ ∃ n ∈ names, 0 ∈ n := fun ⟨n, member, nul⟩ => Name.nul_of_isLegal (legal n member) nul
  rw [locate follow names fun n member => Name.plain_of_isLegal (legal n member), if_neg noNul,
    if_neg (Nat.not_lt.2 (carries.room names node found)), resolve, walk_found legal reached ends]

/-- Of a name that is not in a directory of the tree the disk tells an error: that there is no such
entry, if the name is a legal one and the path not too long. -/
theorem node_absent (carries : d.Carries root tree) {names : List Name} {n : Name} {time : Int}
    {es : List (Name × Node)} (found : tree.get? names = some (.directory time es))
    (absent : es.lookup n = none) (plain : n.Plain) :
    ∃ cause, d.node false (root.descend (names ++ [n])).spelling = .error cause ∧
      (n.isLegal = true →
        (root.descend (names ++ [n])).spelling.bytes.length ≤ maxPathLength →
        cause = .notFound) := by
  obtain ⟨place, left, here, locate⟩ := carries.locate
  have legal := (carries.tidy_below found).2
  have reached : d.root.get? (place ++ names) = some (.directory time es) := by
    rw [Node.get?_append, here]
    exact found
  have whole : ∀ m ∈ names ++ [n], m.Plain := by
    intro m member
    rcases List.mem_append.1 member with before | last
    · exact Name.plain_of_isLegal (legal m before)
    · exact List.mem_singleton.1 last ▸ plain
  have located := locate false (names ++ [n]) whole
  have failed : ∀ cause, d.locate false (root.descend (names ++ [n])).spelling = .error cause →
      d.node false (root.descend (names ++ [n])).spelling = .error cause := by
    intro cause failed
    simp [Disk.node, failed, bind, Except.bind]
  split at located
  next nul =>
    refine ⟨_, failed _ located, fun own _ => ?_⟩
    obtain ⟨m, member, byte⟩ := nul
    rcases List.mem_append.1 member with before | last
    · exact absurd byte (Name.nul_of_isLegal (legal m before))
    · exact absurd (List.mem_singleton.1 last ▸ byte) (Name.nul_of_isLegal own)
  · split at located
    next long => exact ⟨_, failed _ located, fun _ short => absurd long (Nat.not_lt.2 short)⟩
    · have walked : walk d.root false place names = .ok (.entry (place ++ names)) :=
        walk_found legal reached fun followed => by cases followed
      rw [resolve, walk_append walked reached, walk_absent plain reached absent] at located
      refine ⟨_, failed _ located, fun own _ => ?_⟩
      exact if_neg (Nat.not_lt.2 (Name.length_of_isLegal own))

theorem isAbsolute (carries : d.Carries root tree) (names : List Name) :
    (root.descend names).isAbsolute = true := by
  obtain ⟨way, rfl, _⟩ := carries.plain
  rfl

/-- A disk shows the tree that it carries. -/
theorem shows (carries : d.Carries root tree) : (World.ofDisk d).Shows root tree where
  distinct names time es found := (Node.tidy_directory (carries.tidy_below found).1).1
  entry names node found := by
    have told := @node_found d root tree carries names node false found (by simp)
    simp [World.ofDisk, Disk.statEntry, told, bind, Except.bind, pure, Except.pure]
  children names time es found := by
    have told := @node_found d root tree carries names _ true found (by simp)
    refine ⟨es.map fun e => root.descend (names ++ [e.1]), ?_, List.Perm.refl _⟩
    have child := Path.child_eq_descend (carries.isAbsolute names)
    simp [World.ofDisk, Disk.children, Disk.names, told, bind, Except.bind, pure, Except.pure, child,
      Path.descend_append, Function.comp_def]
  contents names time bytes found := by
    have told := @node_found d root tree carries names _ true found (by simp)
    simp [World.ofDisk, Disk.contents, told, bind, Except.bind, pure, Except.pure]

theorem stat_root (carries : d.Carries root tree) :
    (World.ofDisk d).stat root = .ok tree.status := by
  have directory := carries.directory
  have real : ∀ time target, tree ≠ .link time target := by
    rintro time target rfl
    simp [Node.isDirectory] at directory
  have told := @node_found d root tree carries [] tree true rfl fun _ => real
  rw [Path.descend_nil] at told
  simp [World.ofDisk, Disk.stat, told, bind, Except.bind, pure, Except.pure]

end Carries

variable {d : Disk} {p : Path}

/-- Whatever is listed, its entries are different ones with legal names. -/
theorem legal_children (tidy : d.isTidy = true) (plain : p.Plain) {cs : List Path}
    (told : (World.ofDisk d).children p = .ok cs) :
    cs.Nodup ∧ ∀ c ∈ cs, ∃ n : Name, n.isLegal = true ∧ c = p.descend [n] := by
  obtain ⟨way, rfl, _⟩ := plain
  simp only [World.ofDisk, Disk.children, Disk.names] at told
  cases found : d.node true (Path.root.descend way).spelling with
  | error e => simp [found, bind, Except.bind] at told
  | ok node =>
    cases node with
    | directory time es =>
      obtain ⟨place, _, here⟩ := node_eq_ok.1 found
      simp only [Disk.isTidy, Bool.and_eq_true] at tidy
      obtain ⟨distinct, legal⟩ := Node.tidy_directory (Node.tidy_get? tidy.2 here).1
      simp only [found, bind, Except.bind, pure, Except.pure, List.map_map, Except.ok.injEq] at told
      subst told
      have child := @Path.child_eq_descend (Path.root.descend way) rfl
      constructor
      · rw [← List.map_map]
        refine distinct.map fun a b same => ?_
        rw [child, child] at same
        simpa using Path.descend_injective same
      · intro c member
        obtain ⟨e, inside, rfl⟩ := List.mem_map.1 member
        exact ⟨e.1, legal e inside, child e.1⟩
    | _ => simp [found, bind, Except.bind, throw, throwThe, MonadExceptOf.throw] at told

/-- Whatever is listed, its entries are different ones, and they are where they belong. -/
theorem children_ofDisk (tidy : d.isTidy = true) (plain : p.Plain) {cs : List Path}
    (told : (World.ofDisk d).children p = .ok cs) :
    cs.Nodup ∧ ∀ c ∈ cs, c.parent = some p ∧ c.Plain := by
  obtain ⟨distinct, members⟩ := legal_children tidy plain told
  refine ⟨distinct, fun c member => ?_⟩
  obtain ⟨n, legal, rfl⟩ := members c member
  refine ⟨?_, plain.descend (by simpa using legal)⟩
  simpa using Path.parent_descend p [] n

/-- What a disk tells anything about has a path that the system takes. -/
theorem room_of_told (tidy : d.isTidy = true) (plain : p.Plain) {st : Status}
    (told : (World.ofDisk d).entry p = .ok st) : p.spelling.bytes.length ≤ maxPathLength := by
  obtain ⟨way, rfl, wayPlain⟩ := plain
  simp only [World.ofDisk, Disk.statEntry] at told
  cases found : d.node false (Path.root.descend way).spelling with
  | error e => simp [found, bind, Except.bind] at told
  | ok node =>
    obtain ⟨place, located, _⟩ := node_eq_ok.1 found
    rw [locate_descend tidy wayPlain] at located
    split at located
    · cases located
    · split at located
      · cases located
      next short => exact Nat.not_lt.1 short

/-- What a disk tells anything about has a path that is not too long. -/
theorem length_of_told (tidy : d.isTidy = true) (plain : p.Plain) {st : Status}
    (told : (World.ofDisk d).entry p = .ok st) : p.components.length ≤ maxPathLength + 1 := by
  have room := room_of_told tidy plain told
  obtain ⟨way, rfl, wayPlain⟩ := plain
  have names := Path.length_le_spelling wayPlain
  simp only [Path.descend, Path.root, List.length_append, List.length_map, List.length_singleton]
  omega

end Disk

end ProjectIndex
