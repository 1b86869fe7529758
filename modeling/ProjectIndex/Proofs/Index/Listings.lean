import ProjectIndex.Proofs.Index.Anchored
import ProjectIndex.Proofs.Index.Walks

/-!
# What a recursive listing finds

A walk from a directory follows listings, so it comes to a file only if each directory on the way is
known.  A known path whose directory is not known is loose, and where paths other than crawl roots
are entered into known directories only, nothing but a crawl root is loose.  The files that a listing
of a known directory misses are those at or below a loose root further down.
-/

namespace ProjectIndex.Index

open Std

def Loose (ix : Index) (r : Path) : Prop :=
  ix.Known r ∧ ∀ d, r.parent = some d → d ∉ ix.directories

/-- No loose path lies on the way from the directory down to the file, but for entries of the
directory itself. -/
def Uncut (ix : Index) (d f : Path) : Prop :=
  ∀ r, ix.Loose r → d.Covers r → r ≠ d → r.Covers f → r.parent = some d

/-- What lies on the way of a walk is where the walk began, or in a known directory. -/
theorem Reaches.on_the_way {ix : Index} (filed : ix.Filed) {c f r : Path} (reaches : ix.Reaches c f)
    (low : c.Covers r) (high : r.Covers f) : r = c ∨ ∃ d, r.parent = some d ∧ d ∈ ix.directories := by
  induction reaches with
  | here c => exact Or.inl (high.antisymm low)
  | @entry c c' f directory listed below ih =>
    have parent := filed c c' listed
    rcases (below.covers filed).comparable high with inside | above
    · right
      rcases ih inside high with same | found
      · exact ⟨c, same ▸ parent, directory⟩
      · exact found
    · rcases above.eq_or_parent parent with same | higher
      · exact Or.inr ⟨c, same ▸ parent, directory⟩
      · exact Or.inl (higher.antisymm low)

namespace Coherent

variable {ix : Index} {d f : Path}

theorem uncut_of_reaches (coherent : ix.Coherent) {c : Path} (entry : c ∈ ix.children d)
    (reaches : ix.Reaches c f) : ix.Uncut d f := by
  intro r loose low other high
  have filed := coherent.filed
  have parent := filed d c entry
  have inside : c.Covers r := by
    rcases (reaches.covers filed).comparable high with inside | above
    · exact inside
    · rcases above.eq_or_parent parent with same | higher
      · exact same ▸ .refl r
      · exact absurd (higher.antisymm low) other
  rcases reaches.on_the_way filed inside high with same | ⟨e, parent', directory⟩
  · exact same ▸ parent
  · exact absurd directory (loose.2 e parent')

/-- Going up from something known, each directory is known until the way comes to the one in
question, unless something loose cuts it. -/
theorem reached_of_uncut (coherent : ix.Coherent) (known : ix.Known f) (covers : d.Covers f)
    (other : f ≠ d) (uncut : ix.Uncut d f) : ∃ c ∈ ix.children d, ix.Reaches c f := by
  induction n : f.components.length using Nat.strong_induction_on generalizing f with
  | _ n ih =>
    by_cases own : f.parent = some d
    · exact ⟨f, (coherent.entries d f).2 ⟨own, known⟩, .here f⟩
    · have held : ¬ ix.Loose f := fun loose => own (uncut f loose covers other (.refl f))
      obtain ⟨e, parent, directory⟩ : ∃ e, f.parent = some e ∧ e ∈ ix.directories := by
        by_contra none
        exact held ⟨known, fun e parent directory => none ⟨e, parent, directory⟩⟩
      have above : d.Covers e := (covers.eq_or_parent parent).resolve_left (Ne.symm other)
      have apart : e ≠ d := fun same => own (same ▸ parent)
      have shorter := Path.length_of_parent parent
      have uncut' : ix.Uncut d e := by
        intro r loose low different high
        exact uncut r loose low different (high.of_parent parent)
      obtain ⟨c, entry, reaches⟩ :=
        ih e.components.length (by omega) (Or.inr directory) above apart uncut' rfl
      exact ⟨c, entry, reaches.child directory ((coherent.entries e f).2 ⟨parent, known⟩)⟩

/-- The files that a listing finds are those below the directory that nothing loose cuts off. -/
theorem mem_filesBelow_iff (coherent : ix.Coherent) :
    f ∈ ix.filesBelow d ↔ f ∈ ix.files ∧ d.Covers f ∧ f ≠ d ∧ ix.Uncut d f := by
  rw [coherent.mem_filesBelow]
  apply and_congr_right
  intro file
  constructor
  · rintro ⟨c, entry, reaches⟩
    have parent := coherent.filed d c entry
    have below : c.Covers f := reaches.covers coherent.filed
    refine ⟨(Path.covers_of_parent parent).trans below, ?_, coherent.uncut_of_reaches entry reaches⟩
    rintro rfl
    exact Path.not_covers_of_parent parent below
  · rintro ⟨covers, other, uncut⟩
    exact coherent.reached_of_uncut (Or.inl file) covers other uncut

end Coherent

/-- Everything known is a crawl root or in a known directory. -/
def Held (ix : Index) (root : Path → Prop) : Prop :=
  ∀ p, ix.Known p → ix.Footed root p

theorem Held.loose {ix : Index} {root : Path → Prop} (held : ix.Held root) {r : Path}
    (loose : ix.Loose r) : root r := by
  rcases held r loose.1 with isRoot | ⟨d, parent, directory⟩
  · exact isRoot
  · exact absurd directory (loose.2 d parent)

/-- So only a crawl root can cut anything off. -/
theorem Held.uncut_iff {ix : Index} {root : Path → Prop} (held : ix.Held root) {d f : Path} :
    ix.Uncut d f ↔
      ∀ r, root r → ix.Loose r → d.Covers r → r ≠ d → r.Covers f → r.parent = some d := by
  constructor
  · intro uncut r _ loose
    exact uncut r loose
  · intro uncut r loose
    exact uncut r (held.loose loose) loose

theorem held_empty (name : Name) (root : Path → Prop) : (empty name).Held root := by
  intro p known
  simp [empty, Known] at known

/-- A path that is neither a crawl root nor in a known directory is not entered. -/
def Operation.KeepsHold (root : Path → Prop) (ix : Index) : Operation → Prop
  | insertDirectory p _ live => live = true → ix.Footed root p
  | insertFile p _ live => live = true → ix.Footed root p
  | evict _ => True
  | delete _ => True
  | setManifest _ _ => True

/-- Each of the operations enters a crawl root, or something in a directory that is known by then. -/
def Rooted (root : Path → Prop) : Index → List Operation → Prop
  | _, [] => True
  | ix, op :: rest => op.KeepsHold root ix ∧ Rooted root (op.perform ix) rest

section Decidability

variable (root : Path → Prop) [DecidablePred root]

instance (ix : Index) (p : Path) : Decidable (ix.Footed root p) :=
  decidable_of_iff (root p ∨ ix.knowsParent p = true) (or_congr_right knowsParent_iff)

instance (ix : Index) (op : Operation) : Decidable (op.KeepsHold root ix) :=
  match op with
  | .insertDirectory p _ live => inferInstanceAs (Decidable (live = true → ix.Footed root p))
  | .insertFile p _ live => inferInstanceAs (Decidable (live = true → ix.Footed root p))
  | .evict _ => inferInstanceAs (Decidable True)
  | .delete _ => inferInstanceAs (Decidable True)
  | .setManifest _ _ => inferInstanceAs (Decidable True)

instance decidableRooted : (ix : Index) → (ops : List Operation) → Decidable (Rooted root ix ops)
  | _, [] => inferInstanceAs (Decidable True)
  | ix, op :: rest =>
    have := decidableRooted (op.perform ix) rest
    inferInstanceAs (Decidable (op.KeepsHold root ix ∧ Rooted root (op.perform ix) rest))

end Decidability

namespace Held

variable {ix : Index} {root : Path → Prop}

/-- A write that makes one more path known. -/
private theorem grown {ix' : Index} {p : Path} (held : ix.Held root) (footed : ix.Footed root p)
    (known : ∀ q, ix'.Known q ↔ ix.Known q ∨ q = p)
    (directories : ∀ d, d ∈ ix.directories → d ∈ ix'.directories) : ix'.Held root := by
  intro q after
  have before : ix.Footed root q := by
    rcases (known q).1 after with before | same
    · exact held q before
    · exact same ▸ footed
  rcases before with isRoot | ⟨d, parent, directory⟩
  · exact Or.inl isRoot
  · exact Or.inr ⟨d, parent, directories d directory⟩

/-- What an eviction leaves is still in its directory: the walk comes to everything listed in a
directory that it takes away. -/
theorem evict (held : ix.Held root) (coherent : ix.Coherent) (p : Path) :
    (ix.evict p).1.Held root := by
  intro q left
  obtain ⟨known, unreached⟩ := coherent.known_evict.1 left
  rcases held q known with isRoot | ⟨d, parent, directory⟩
  · exact Or.inl isRoot
  · have entry := (coherent.entries d q).2 ⟨parent, known⟩
    have stays : ¬ ix.Reaches p d := fun reached => unreached (reached.child directory entry)
    exact Or.inr ⟨d, parent, coherent.filed.mem_directories_evict.2 ⟨directory, stays⟩⟩

theorem perform (held : ix.Held root) (coherent : ix.Coherent) {op : Operation}
    (keeps : op.KeepsHold root ix) : (op.perform ix).Held root := by
  by_cases stale : op.isStale = true
  · rwa [op.perform_of_isStale stale]
  · cases op with
    | insertDirectory p st live =>
      obtain rfl : live = true := by simpa [Operation.isStale] using stale
      apply held.grown (keeps rfl)
      · exact fun q => known_insertDirectory
      · intro d directory
        simp [Operation.perform, directory]
    | insertFile p st live =>
      obtain rfl : live = true := by simpa [Operation.isStale] using stale
      apply held.grown (keeps rfl)
      · exact fun q => known_insertFile
      · intro d directory
        simpa [Operation.perform] using directory
    | evict p => exact held.evict coherent p
    | delete p => exact held.evict coherent p
    | setManifest D live =>
      obtain rfl : live = true := by simpa [Operation.isStale] using stale
      exact held

theorem performAll (held : ix.Held root) (coherent : ix.Coherent) {ops : List Operation}
    (unmixed : Unmixed ix ops) (rooted : Rooted root ix ops) : (ix.performAll ops).Held root := by
  induction ops generalizing ix with
  | nil => exact held
  | cons op rest ih =>
    exact ih (held.perform coherent rooted.1) (coherent.perform unmixed.1) unmixed.2 rooted.2

end Held

/-- After any operations on an empty index of which none enters a path as one kind while it is present
as the other, and none enters a path other than a crawl root while its parent is no known directory:
the entries of any directory are listed in strictly increasing order and are the known paths whose
parent it is.  The files below it are listed in strictly increasing order and counted right.  They are
the known files below the directory, but for those at or below a crawl root that is further down than
the entries of the directory and whose own directory is not known.  What is no known directory has
neither entries nor files as long as no crawl root that is known has it as its parent. -/
theorem listings_after_operations (name : Name) (root : Path → Prop) (ops : List Operation)
    (unmixed : Unmixed (empty name) ops) (rooted : Rooted root (empty name) ops) (d : Path) :
    let ix := (empty name).performAll ops
    ((ix.children d).Pairwise Path.Before ∧
      ∀ c, c ∈ ix.children d ↔ ix.Known c ∧ c.parent = some d) ∧
    ((ix.filesBelow d).Pairwise Path.Before ∧ ix.countBelow d = (ix.filesBelow d).length) ∧
    (∀ f, f ∈ ix.filesBelow d ↔ f ∈ ix.files ∧ d.Covers f ∧ f ≠ d ∧
      ∀ r, root r → ix.Loose r → d.Covers r → r ≠ d → r.Covers f → r.parent = some d) ∧
    (d ∉ ix.directories → (∀ r, root r → ix.Known r → r.parent ≠ some d) →
      ix.children d = [] ∧ ix.filesBelow d = [] ∧ ix.countBelow d = 0) := by
  intro ix
  have coherent : ix.Coherent := (coherent_empty name).performAll unmixed
  have held : ix.Held root := (held_empty name root).performAll (coherent_empty name) unmixed rooted
  have entries : ∀ c, c ∈ ix.children d ↔ ix.Known c ∧ c.parent = some d := by
    intro c
    rw [coherent.entries, and_comm]
  refine ⟨⟨?_, entries⟩, ⟨?_, ix.countBelow_eq d⟩, ?_, ?_⟩
  · exact ix.ordered_children d
  · exact ordered_filesBelow coherent.filed d
  · intro f
    rw [coherent.mem_filesBelow_iff, held.uncut_iff]
  · intro unknown bare
    have noEntry : ix.children d = [] := by
      apply List.eq_nil_iff_forall_not_mem.2
      intro c entry
      obtain ⟨known, parent⟩ := (entries c).1 entry
      have isRoot : root c := by
        rcases held c known with isRoot | ⟨e, parent', directory⟩
        · exact isRoot
        · obtain rfl : d = e := Option.some.inj (parent.symm.trans parent')
          exact absurd directory unknown
      exact bare c isRoot known parent
    have noFile : ix.filesBelow d = [] := by
      apply List.eq_nil_iff_forall_not_mem.2
      intro f found
      obtain ⟨_, c, entry, _⟩ := coherent.mem_filesBelow.1 found
      rw [noEntry] at entry
      cases entry
    refine ⟨noEntry, noFile, ?_⟩
    rw [ix.countBelow_eq, noFile]
    rfl

/-- The crawl roots `/a` and `/a/b/c`, with the file `/a/x` and the file `/a/b/c/f`.  The directory
`/a/b` is left out. -/
def gap : List Operation :=
  [.insertDirectory (Path.under [[97], [98], [99]]) ⟨.directory, 0, 1⟩ true,
    .insertFile (Path.under [[97], [98], [99], [102]]) ⟨.file, 1, 1⟩ true,
    .insertDirectory (Path.under [[97]]) ⟨.directory, 0, 1⟩ true,
    .insertFile (Path.under [[97], [120]]) ⟨.file, 1, 1⟩ true]

/-- The listing of the known directory `/a` misses the file below the inner root. -/
theorem listings_after_operations_gap :
    let ix := (empty []).performAll gap
    let top := Path.under [[97]]
    let lost := Path.under [[97], [98], [99], [102]]
    top ∈ ix.directories ∧ lost ∈ ix.files ∧ top.Covers lost ∧ lost ∉ ix.filesBelow top := by
  intro ix top lost
  let inner := Path.under [[97], [98], [99]]
  have unmixed : Unmixed (empty []) gap := by decide +kernel
  have rooted : Rooted (· ∈ [top, inner]) (empty []) gap := by decide +kernel
  have loose : ix.Loose inner := by
    refine ⟨Or.inr (by decide +kernel), ?_⟩
    intro d parent
    obtain rfl : Path.under [[97], [98]] = d := Option.some.inj parent
    decide +kernel
  obtain ⟨_, _, below, _⟩ := listings_after_operations [] (· ∈ [top, inner]) gap unmixed rooted top
  refine ⟨by decide +kernel, by decide +kernel, by decide, ?_⟩
  intro found
  obtain ⟨_, _, _, uncut⟩ := (below lost).1 found
  have entry : inner.parent = some top :=
    uncut inner (by decide) loose (by decide) (by decide) (by decide)
  revert entry
  decide

/-- The root of the file system is no known directory, and has an entry all the same. -/
theorem unknown_directory_lists_crawl_root :
    let ix := (empty []).performAll gap
    let roots := [Path.under [[97]], Path.under [[97], [98], [99]]]
    Unmixed (empty []) gap ∧ Rooted (· ∈ roots) (empty []) gap ∧
      ¬ ix.Known Path.root ∧ ix.children Path.root = [Path.under [[97]]] := by
  intro ix roots
  have unknown : ¬ ix.Known Path.root := by
    rw [← knows_iff]
    decide +kernel
  exact ⟨by decide +kernel, by decide +kernel, unknown, by decide +kernel⟩

end ProjectIndex.Index
