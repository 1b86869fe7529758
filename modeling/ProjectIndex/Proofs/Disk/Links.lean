import ProjectIndex.Proofs.Disk.Walk

/-!
# Links at the end of a way

A disk is asked about an entry with its last link followed or not.  The two answers differ only where
the entry itself is a link.  The entries of a directory are asked for with the last link followed, and
an entry that the disk tells of by a longer path is among them, whatever links lead to the directory.
-/

namespace ProjectIndex

/-- The world tells of files and directories what a disk tells.  What it answers to subscriptions
and what it remarks about projects is open. -/
structure World.Reads (world : World) (d : Disk) : Prop where
  entry : world.entry = (World.ofDisk d).entry
  stat : world.stat = (World.ofDisk d).stat
  children : world.children = (World.ofDisk d).children
  contents : world.contents = (World.ofDisk d).contents

theorem World.reads_ofDisk (d : Disk) : (World.ofDisk d).Reads d :=
  ⟨rfl, rfl, rfl, rfl⟩

namespace Disk

variable {root : Node} {start place : List Name}

/-- Whether the last link is followed matters only where a walk ends at a link. -/
theorem walk_follow (root : Node) (start todo : List Name) :
    walk root true start todo = walk root false start todo ∨
      ∃ location time target next, walk root false start todo = .ok (.entry location) ∧
        root.get? location = some (.link time target) ∧
        walk root true start todo = .ok (.link next (pieces ⟨target⟩)) := by
  induction todo generalizing start with
  | nil => exact Or.inl rfl
  | cons piece rest ih =>
    rcases walk_cons root start piece with
      ⟨e, fails⟩ | ⟨next, goesOn⟩ | ⟨time, target, next, link, linked⟩
    · exact Or.inl ((fails true rest).trans (fails false rest).symm)
    · rw [goesOn, goesOn]
      exact ih next
    · by_cases last : rest = []
      · subst last
        exact Or.inr ⟨_, time, target, next, linked false [], link, by simp [linked]⟩
      · rw [linked, linked, if_neg (by simp), if_neg (by simp [last])]
        exact Or.inl rfl

theorem resolve_follow (root : Node) (links : Nat) (start todo : List Name) :
    resolve root true links start todo = resolve root false links start todo ∨
      ∃ location time target, resolve root false links start todo = .ok location ∧
        root.get? location = some (.link time target) := by
  induction links generalizing start todo with
  | zero =>
    unfold resolve
    rcases walk_follow root start todo with same | ⟨location, time, target, _, walked, link, _⟩
    · rw [same]
      exact Or.inl rfl
    · rw [walked]
      exact Or.inr ⟨location, time, target, rfl, link⟩
  | succ links ih =>
    unfold resolve
    rcases walk_follow root start todo with same | ⟨location, time, target, _, walked, link, _⟩
    · rw [same]
      split
      · exact Or.inl rfl
      · exact Or.inl rfl
      next next later _ => exact ih next later
    · rw [walked]
      exact Or.inr ⟨location, time, target, rfl, link⟩

theorem node_follow (d : Disk) (s : Spelling) :
    d.node true s = d.node false s ∨ ∃ time target, d.node false s = .ok (.link time target) := by
  have located : d.locate true s = d.locate false s ∨ ∃ location time target,
      d.locate false s = .ok location ∧ d.root.get? location = some (.link time target) := by
    unfold locate
    split
    · exact Or.inl rfl
    · split
      · exact Or.inl rfl
      · split
        · exact Or.inl rfl
        · exact resolve_follow _ _ _ _
  rcases located with same | ⟨location, time, target, located, link⟩
  · exact Or.inl (by rw [node, node, same])
  · exact Or.inr ⟨time, target, node_eq_ok.2 ⟨location, located, link⟩⟩

theorem statEntry_eq_ok {d : Disk} {s : Spelling} {st : Status} :
    d.statEntry s = .ok st ↔ ∃ node, d.node false s = .ok node ∧ node.status = st := by
  cases found : d.node false s <;> simp [statEntry, found, bind, Except.bind, pure, Except.pure]

theorem stat_eq_ok {d : Disk} {s : Spelling} {st : Status} :
    d.stat s = .ok st ↔ ∃ node, d.node true s = .ok node ∧ node.status = st := by
  cases found : d.node true s <;> simp [stat, found, bind, Except.bind, pure, Except.pure]

/-- A disk tells the same of a path with its last link followed or not, unless the path names a
link. -/
theorem stat_follow (d : Disk) (s : Spelling) :
    d.stat s = d.statEntry s ∨ ∃ st, d.statEntry s = .ok st ∧ st.kind = .unknown := by
  rcases d.node_follow s with same | ⟨time, target, link⟩
  · exact Or.inl (by rw [stat, statEntry, same])
  · exact Or.inr ⟨_, statEntry_eq_ok.2 ⟨_, link, rfl⟩, rfl⟩

/-- What is there if its link is followed is there. -/
theorem statEntry_of_stat {d : Disk} {s : Spelling} {st : Status} (told : d.stat s = .ok st) :
    d.statEntry s = .ok st ∨ ∃ st', d.statEntry s = .ok st' ∧ st'.kind = .unknown := by
  rcases d.stat_follow s with same | link
  · exact Or.inl (same ▸ told)
  · exact Or.inr link

/-- What is no link is the same if its link is followed. -/
theorem stat_of_statEntry {d : Disk} {s : Spelling} {st : Status} (told : d.statEntry s = .ok st)
    (kind : st.kind ≠ .unknown) : d.stat s = .ok st := by
  rcases d.stat_follow s with same | ⟨st', link, unknown⟩
  · exact same.trans told
  · cases told.symm.trans link
    exact absurd unknown kind

/-- What is looked for below a path goes through the link that the path ends with. -/
theorem walk_append_follow {first todo next second : List Name}
    (reached : walk root true start first = .ok (.link next todo)) (more : second ≠ [])
    (follow : Bool) :
    walk root follow start (first ++ second) = .ok (.link next (todo ++ second)) := by
  induction first generalizing start with
  | nil => cases reached
  | cons piece rest ih =>
    rw [List.cons_append]
    rcases walk_cons root start piece with ⟨e, fails⟩ | ⟨_, goesOn⟩ | ⟨_, target, _, _, linked⟩
    · cases (fails true rest).symm.trans reached
    · rw [goesOn] at reached ⊢
      exact ih reached
    · rw [linked, if_neg (by simp)] at reached
      rw [linked, if_neg (by simp [more]), ← List.append_assoc]
      cases reached
      rfl

/-- What is looked for below a directory is looked for from there, also if a link leads to it. -/
theorem resolve_append_follow {first second : List Name} {links : Nat} {time : Int}
    {es : List (Name × Node)} (reached : resolve root true links start first = .ok place)
    (directory : root.get? place = some (.directory time es)) (more : second ≠ []) :
    ∃ left, resolve root false links start (first ++ second) = resolve root false left place second := by
  have arrived : ∀ {start first}, walk root true start first = .ok (.entry place) →
      walk root false start (first ++ second) = walk root false place second := by
    intro start first walked
    rcases walk_follow root start first with same | ⟨_, _, _, _, _, _, followed⟩
    · exact walk_append (same.symm.trans walked) directory false second
    · cases followed.symm.trans walked
  induction links generalizing start first with
  | zero =>
    unfold resolve at reached
    split at reached
    · cases reached
    next location walked =>
      cases reached
      exact ⟨0, by rw [resolve, resolve, arrived walked]⟩
    · cases reached
  | succ links ih =>
    unfold resolve at reached
    split at reached
    · cases reached
    next location walked =>
      cases reached
      exact ⟨links + 1, by rw [resolve, resolve, arrived walked]⟩
    next next todo walked =>
      obtain ⟨left, later⟩ := ih reached
      refine ⟨left, ?_⟩
      rw [resolve, walk_append_follow walked more]
      exact later

variable {d : Disk} {p q : Path}

/-- A directory can be listed. -/
theorem children_of_directory {st : Status} (told : d.stat p.spelling = .ok st)
    (kind : st.kind = .directory) : ∃ cs, d.children p = .ok cs := by
  obtain ⟨node, found, rfl⟩ := stat_eq_ok.1 told
  cases node with
  | directory time es =>
    exact ⟨(es.map (·.1)).map p.child, by
      simp [Disk.children, Disk.names, found, bind, Except.bind, pure, Except.pure]⟩
  | _ => simp [Node.status] at kind

/-- Whatever the disk tells of in a directory is listed there. -/
theorem mem_children_of_told (tidy : d.isTidy = true) {cs : List Path}
    (listed : d.children p = .ok cs) (plain : q.Plain) (parent : q.parent = some p) {st : Status}
    (told : d.statEntry q.spelling = .ok st) : q ∈ cs := by
  obtain ⟨names, rfl, named⟩ := plain
  have longer : names ≠ [] := by
    rintro rfl
    cases parent
  obtain ⟨way, n, rfl, rfl⟩ := Path.eq_descend_of_parent longer parent
  have wayNamed : ∀ m ∈ way, m.Plain := fun m member => named m (by simp [member])
  simp only [Disk.children, Disk.names] at listed
  cases above : d.node true (Path.root.descend way).spelling with
  | error e => simp [above, bind, Except.bind] at listed
  | ok node =>
    cases node with
    | directory time es =>
      simp only [above, bind, Except.bind, pure, Except.pure, Except.ok.injEq] at listed
      subst listed
      obtain ⟨place, located, directory⟩ := node_eq_ok.1 above
      obtain ⟨node, found, _⟩ := statEntry_eq_ok.1 told
      obtain ⟨own, locatedOwn, here⟩ := node_eq_ok.1 found
      rw [locate_descend tidy wayNamed] at located
      rw [locate_descend tidy named] at locatedOwn
      split at located
      · cases located
      split at located
      · cases located
      split at locatedOwn
      · cases locatedOwn
      split at locatedOwn
      · cases locatedOwn
      obtain ⟨left, same⟩ := resolve_append_follow located directory (List.cons_ne_nil n [])
      rw [same] at locatedOwn
      cases entry : es.lookup n with
      | none =>
        rw [resolve, walk_absent (named n (by simp)) directory entry] at locatedOwn
        cases locatedOwn
      | some next =>
        refine List.mem_map.2 ⟨n, List.mem_map.2 ⟨_, Node.mem_of_lookup entry, rfl⟩, ?_⟩
        rw [Path.child_eq_descend rfl, ← Path.descend_append]
    | _ => simp [above, bind, Except.bind, throw, throwThe, MonadExceptOf.throw] at listed

end Disk

end ProjectIndex
