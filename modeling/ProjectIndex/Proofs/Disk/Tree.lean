import ProjectIndex.Disk.Listing
import ProjectIndex.Proofs.Path.Spelled
import ProjectIndex.World

/-!
# Trees as a world shows them

A tree is followed name by name, as a path is.  A world shows a tree at a root when it answers
every question about the tree by what is there: the status of each entry, the entries of each
directory once and in any order, and the bytes of each regular file.
-/

namespace ProjectIndex

namespace Node

theorem kind_of_isDirectory {node : Node} (directory : node.isDirectory = true) :
    node.status.kind = .directory := by
  cases node with
  | directory => rfl
  | _ => simp [isDirectory] at directory

theorem get?_append (node : Node) (first second : List Name) :
    node.get? (first ++ second) = (node.get? first).bind (·.get? second) := by
  induction first generalizing node with
  | nil => rfl
  | cons n rest ih =>
    simp only [List.cons_append, get?]
    cases node.entry? n with
    | none => rfl
    | some next => exact ih next

/-- What is reached by a name is in a directory. -/
theorem get?_cons {node below : Node} {n : Name} {rest : List Name}
    (found : node.get? (n :: rest) = some below) :
    ∃ time es next, node = .directory time es ∧ es.lookup n = some next ∧
      next.get? rest = some below := by
  simp only [get?] at found
  split at found
  next next entry =>
    cases node with
    | directory time es => exact ⟨time, es, next, rfl, entry, found⟩
    | _ => simp [ entry?, entries] at entry
  · cases found

/-- An entry is in a directory. -/
theorem get?_entry {node below : Node} {names : List Name} {n : Name}
    (found : node.get? (names ++ [n]) = some below) :
    ∃ time es, node.get? names = some (.directory time es) ∧ es.lookup n = some below := by
  rw [get?_append] at found
  obtain ⟨above, reached, found⟩ := Option.bind_eq_some_iff.1 found
  obtain ⟨time, es, next, rfl, entry, here⟩ := get?_cons found
  cases here
  exact ⟨time, es, reached, entry⟩

theorem get?_of_lookup {node below : Node} {names : List Name} {n : Name} {time : Int}
    {es : List (Name × Node)} (reached : node.get? names = some (.directory time es))
    (entry : es.lookup n = some below) : node.get? (names ++ [n]) = some below := by
  rw [get?_append, reached]
  simp [get?, entry?, entries, entry]

theorem mem_of_lookup {es : List (Name × Node)} {n : Name} {below : Node}
    (entry : es.lookup n = some below) : (n, below) ∈ es := by
  obtain ⟨before, after, rfl, _⟩ := List.lookup_eq_some_iff.1 entry
  simp

/-- What is reached by names is smaller by at least their number. -/
theorem length_le_sizeOf {node below : Node} {names : List Name}
    (found : node.get? names = some below) : names.length + sizeOf below ≤ sizeOf node := by
  induction names generalizing node with
  | nil =>
    cases found
    simp
  | cons n rest ih =>
    obtain ⟨time, es, next, rfl, entry, later⟩ := get?_cons found
    have deeper := ih later
    have inList := List.sizeOf_lt_of_mem (mem_of_lookup entry)
    simp only [Prod.mk.sizeOf_spec] at inList
    simp only [List.length_cons, Node.directory.sizeOf_spec]
    omega

theorem listing_subset_listingAll {es : List (Name × Node)} {n : Name} {node : Node}
    (member : (n, node) ∈ es) (place : List Name) :
    node.listing (place ++ [n]) ⊆ listingAll place es := by
  induction es with
  | nil => cases member
  | cons e rest ih =>
    rw [listingAll]
    rcases List.mem_cons.1 member with rfl | later
    · exact List.subset_append_left _ _
    · exact List.Subset.trans (ih later) (List.subset_append_right _ _)

/-- What is reached by names is listed under them. -/
theorem mem_listing {node below : Node} {names : List Name} (found : node.get? names = some below)
    (place : List Name) : (place ++ names, below.status) ∈ node.listing place := by
  induction names generalizing node place with
  | nil =>
    cases found
    rw [List.append_nil]
    cases below <;> simp [listing, status]
  | cons n rest ih =>
    obtain ⟨time, es, next, rfl, entry, later⟩ := get?_cons found
    have deeper := listing_subset_listingAll (mem_of_lookup entry) place (ih later (place ++ [n]))
    rw [List.append_assoc] at deeper
    rw [listing]
    exact List.mem_cons_of_mem _ deeper

end Node

/-- The world answers what there is in a tree, whose top is the root. -/
structure World.Shows (world : World) (root : Path) (tree : Node) : Prop where
  /-- The entries of a directory have different names. -/
  distinct : ∀ names time es, tree.get? names = some (.directory time es) → (es.map (·.1)).Nodup
  entry : ∀ names node, tree.get? names = some node →
    world.entry (root.descend names) = .ok node.status
  /-- The entries of a directory are told once each, in any order. -/
  children : ∀ names time es, tree.get? names = some (.directory time es) →
    ∃ cs, world.children (root.descend names) = .ok cs ∧
      cs.Perm (es.map fun e => root.descend (names ++ [e.1]))
  contents : ∀ names time bytes, tree.get? names = some (.file time bytes) →
    world.contents (root.descend names) = .ok bytes

end ProjectIndex
