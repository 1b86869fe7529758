import ProjectIndex.Proofs.Crawl.Stance

/-!
# Agreement with a disk that does not change

What an index should say about a site is fixed by what the disk tells: the root, and each entry that
is taken in of each directory that the index should know.  Where the index is wrong about a path
although it is right about the directory that the path is in, the path is outdated.  An index without
outdated paths is right everywhere.

A crawl owes a visit to some paths: those that it waits for, and the entries of directories that it
has still to list.  Every move pays a debt or passes it on, so a path that is outdated after a move
was outdated before, or is one that the crawl still comes to.  This holds of crawls of any path below
the root, and also while other paths are outdated that the crawl has nothing to do with.
-/

namespace ProjectIndex

namespace Site

/-- What an index of the site should say. -/
inductive Wants (site : Site) : Path → Status → Prop where
  | root {st : Status} (reached : site.region site.root)
      (told : site.world.entry site.root = .ok st) (directory : st.kind = .directory)
      (takes : site.policy.ignores site.root .directory = false) : Wants site site.root st
  | entry {d p : Path} {sd st : Status} (reached : site.region p) (parent : p.parent = some d)
      (above : Wants site d sd) (directory : sd.kind = .directory)
      (told : site.world.entry p = .ok st) (kind : st.kind ≠ .unknown)
      (takes : site.policy.ignores p st.kind = false) : Wants site p st

def WantsDirectory (site : Site) (d : Path) : Prop :=
  ∃ st, site.Wants d st ∧ st.kind = .directory

/-- The path is one that crawls come to: the root, or in a directory that the index should know. -/
structure Reaches (site : Site) (p : Path) : Prop where
  reached : site.region p
  hooked : p = site.root ∨ ∃ d, p.parent = some d ∧ site.WantsDirectory d

/-- What the disk tells about the tree fits together. -/
structure Faithful (site : Site) : Prop where
  root : ∃ st, site.world.entry site.root = .ok st ∧ st.kind = .directory
  listed : ∀ d, site.WantsDirectory d → ∃ cs, site.world.children d = .ok cs
  entries : ∀ d cs, site.WantsDirectory d → site.world.children d = .ok cs → ∀ c, site.region c →
    c.parent = some d → (c ∈ cs ↔ ∃ st, site.world.entry c = .ok st)
  contents : ∀ f st, site.Wants f st → st.kind = .file → ∃ bytes, site.world.contents f = .ok bytes

variable {site : Site} {p q d : Path} {st : Status}

theorem Wants.told (wants : site.Wants p st) : site.world.entry p = .ok st := by
  cases wants <;> assumption

theorem Wants.unique {st' : Status} (wants : site.Wants p st) (wants' : site.Wants p st') :
    st = st' := by
  have both := wants.told.symm.trans wants'.told
  exact Except.ok.inj both

theorem Wants.kind (wants : site.Wants p st) : st.kind ≠ .unknown := by
  cases wants with
  | root _ _ directory _ => simp [directory]
  | entry _ _ _ _ _ kind _ => exact kind

theorem Wants.takes (wants : site.Wants p st) : site.policy.ignores p st.kind = false := by
  cases wants with
  | root _ _ directory takes => exact directory ▸ takes
  | entry _ _ _ _ _ _ takes => exact takes

theorem Wants.reaches (wants : site.Wants p st) : site.Reaches p := by
  cases wants with
  | root reached => exact ⟨reached, Or.inl rfl⟩
  | entry reached parent above directory =>
    exact ⟨reached, Or.inr ⟨_, parent, _, above, directory⟩⟩

theorem Wants.within (wants : site.Wants p st) : site.root.Covers p := by
  induction wants with
  | root => exact .refl _
  | entry _ parent _ _ _ _ _ ih => exact ih.of_parent parent

/-- Where the root is left out, nothing is wanted. -/
theorem Wants.root_taken (wants : site.Wants p st) :
    site.policy.ignores site.root .directory = false := by
  induction wants with
  | root _ _ _ takes => exact takes
  | entry _ _ _ _ _ _ _ ih => exact ih

theorem Reaches.within (reaches : site.Reaches p) : site.root.Covers p := by
  rcases reaches.hooked with rfl | ⟨d, parent, st, wants, _⟩
  · exact .refl _
  · exact wants.within.of_parent parent

/-- Of a path that the index comes to, it should say what the disk tells. -/
theorem wants_iff (faithful : site.Faithful) (reaches : site.Reaches p) :
    site.Wants p st ↔
      site.world.entry p = .ok st ∧ st.kind ≠ .unknown ∧ site.policy.ignores p st.kind = false := by
  constructor
  · exact fun wants => ⟨wants.told, wants.kind, wants.takes⟩
  · rintro ⟨told, kind, takes⟩
    obtain ⟨reached, rfl | ⟨d, parent, sd, above, directory⟩⟩ := reaches
    · obtain ⟨st', told', directory⟩ := faithful.root
      obtain rfl : st = st' := Except.ok.inj (told.symm.trans told')
      exact .root reached told directory (directory ▸ takes)
    · exact .entry reached parent above directory told kind takes

theorem Opens.wanted (faithful : site.Faithful) (opens : site.Opens d) (reaches : site.Reaches d) :
    site.WantsDirectory d := by
  obtain ⟨st, told, directory⟩ := opens.directory
  refine ⟨st, (wants_iff faithful reaches).2 ⟨told, by simp [directory], ?_⟩, directory⟩
  exact directory ▸ opens.taken

theorem WantsDirectory.entry (wants : site.WantsDirectory d)
    (entry : p.parent = some d ∧ site.region p) : site.Reaches p :=
  ⟨entry.2, Or.inr ⟨d, entry.1, wants⟩⟩

/-- What lies between the root and a directory that the index should know is a path of the tree. -/
theorem WantsDirectory.reaches_above (wants : site.WantsDirectory d) (under : site.root.Covers p)
    (covers : p.Covers d) : site.Reaches p := by
  obtain ⟨st, wants, -⟩ := wants
  induction wants with
  | root reached =>
    have same := under.antisymm covers
    exact ⟨same ▸ reached, Or.inl same.symm⟩
  | @entry d' d _ _ reached parent above directory _ _ _ ih =>
    rcases covers.eq_or_parent parent with rfl | higher
    · exact ⟨reached, Or.inr ⟨d', parent, _, above, directory⟩⟩
    · exact ih higher

/-- Whatever the index should know below a path lies at or below an entry of it. -/
theorem Wants.below_entry (wants : site.Wants q st) (under : site.root.Covers p)
    (covers : p.Covers q) (other : q ≠ p) : ∃ c : Path, c.parent = some p ∧ c.Covers q := by
  induction wants with
  | root => exact absurd (under.antisymm covers) other
  | @entry d q _ _ _ parent above directory _ _ _ ih =>
    have above : p.Covers d := (covers.eq_or_parent parent).resolve_left (Ne.symm other)
    by_cases here : d = p
    · exact ⟨q, here ▸ parent, .refl q⟩
    · obtain ⟨c, entry, reaches⟩ := ih above here
      exact ⟨c, entry, reaches.of_parent parent⟩

/-- What lies strictly above something that the index should know is a directory that it should
know. -/
theorem Wants.directory_above (wants : site.Wants q st) (under : site.root.Covers p)
    (covers : p.Covers q) (other : q ≠ p) : site.WantsDirectory p := by
  induction wants with
  | root => exact absurd (under.antisymm covers) other
  | @entry d q sd _ _ parent above directory _ _ _ ih =>
    have above' : p.Covers d := (covers.eq_or_parent parent).resolve_left (Ne.symm other)
    by_cases here : d = p
    · exact here ▸ ⟨sd, above, directory⟩
    · exact ih above' here

end Site

namespace Crawl

/-- The index says of the path what it should. -/
def Agrees (site : Site) (ix : Index) (p : Path) : Prop :=
  ∀ st, ix.status? p = some st ↔ site.Wants p st

/-- The index is wrong about the path, but not about the directory that the path is in. -/
def Outdated (site : Site) (ix : Index) (p : Path) : Prop :=
  ¬ Agrees site ix p ∧
    (p = site.root ∨ ∃ d, p.parent = some d ∧ site.WantsDirectory d ∧ Agrees site ix d)

/-- Where each status comes from: an earlier disk, or this one. -/
def Sourced (site : Site) (old : Path → Status → Prop) (ix : Index) : Prop :=
  ∀ p st, ix.status? p = some st →
    (old p st ∨ site.world.entry p = .ok st) ∧ site.policy.ignores p st.kind = false ∧
      site.region p

/-- How the disk differs from an earlier one: the time tells that an entry of the same kind changed,
and what is gone is told to be gone. -/
structure Succeeds (site : Site) (old : Path → Status → Prop) : Prop where
  noticed : ∀ p st st', site.Reaches p → old p st → site.world.entry p = .ok st' →
    st.kind = st'.kind → st.mtime = st'.mtime → st = st'
  gone : ∀ p st cause, site.Reaches p → old p st → site.world.entry p = .error cause →
    cause.isNotFound = true

section

variable {site : Site} {old : Path → Status → Prop} {ix ix' : Index} {p : Path}

theorem Sourced.reworked (sourced : Sourced site old ix) (reworked : Reworked site p ix ix') :
    Sourced site old ix' := by
  intro q st found
  rcases reworked.told q st found with before | ⟨told, takes⟩
  · exact sourced q st before
  · exact ⟨Or.inr told, takes⟩

theorem Agrees.congr (agrees : Agrees site ix p) (same : ix'.status? p = ix.status? p) :
    Agrees site ix' p := by
  intro st
  rw [same]
  exact agrees st

/-- An index that has no status for a path is right if it should have none. -/
theorem agrees_of_unknown (unknown : ix.status? p = none) (unwanted : ∀ st, ¬ site.Wants p st) :
    Agrees site ix p := by
  intro st
  simp [unknown, unwanted st]

theorem agrees_of_status {st : Status} (found : ix.status? p = some st) (wants : site.Wants p st) :
    Agrees site ix p := by
  intro st'
  rw [found]
  exact ⟨fun same => Option.some.inj same ▸ wants, fun wants' => congrArg some (wants.unique wants')⟩

/-- Nothing outdated means that the index is right everywhere. -/
theorem agrees_everywhere (sound : ix.Sound site.root) (current : ∀ p, ¬ Outdated site ix p)
    (p : Path) : Agrees site ix p := by
  induction n : p.components.length using Nat.strong_induction_on generalizing p with
  | _ n ih =>
    by_contra wrong
    have hooked : p = site.root ∨ ∃ d, p.parent = some d ∧
        (d ∈ ix.directories ∨ site.WantsDirectory d) := by
      by_cases known : ix.Known p
      · exact (sound.parents p known).imp_right fun ⟨d, parent, directory⟩ =>
          ⟨d, parent, Or.inl directory⟩
      · by_contra lost
        refine wrong (agrees_of_unknown (Index.status?_eq_none.2 known) fun st wants => lost ?_)
        exact wants.reaches.hooked.imp_right fun ⟨d, parent, wanted⟩ => ⟨d, parent, Or.inr wanted⟩
    rcases hooked with rfl | ⟨d, parent, directory⟩
    · exact current _ ⟨wrong, Or.inl rfl⟩
    · have shorter := Path.length_of_parent parent
      have above := ih d.components.length (by omega) d rfl
      have wanted : site.WantsDirectory d := by
        rcases directory with directory | wanted
        · obtain ⟨st, found, kind⟩ := sound.mem_directories.1 directory
          exact ⟨st, (above st).1 found, kind⟩
        · exact wanted
      exact current p ⟨wrong, Or.inr ⟨d, parent, wanted, above⟩⟩

/-- A path stays outdated only as long as neither it nor the directory it is in changes. -/
theorem Outdated.before {q : Path} (outdated : Outdated site ix' q)
    (own : ix'.status? q = ix.status? q)
    (above : ∀ d, q.parent = some d → ix'.status? d = ix.status? d) : Outdated site ix q := by
  refine ⟨fun agrees => outdated.1 (agrees.congr own), ?_⟩
  refine outdated.2.imp_right fun ⟨d, parent, wanted, agrees⟩ => ⟨d, parent, wanted, ?_⟩
  exact agrees.congr (above d parent).symm

/-- What is done at or below `p` makes nothing else outdated. -/
theorem Outdated.outside {q : Path} (outdated : Outdated site ix' q)
    (reworked : Reworked site p ix ix') (out : ¬ p.Covers q) : Outdated site ix q := by
  refine outdated.before (reworked.outside q out) fun d parent => reworked.outside d fun covers => ?_
  exact out (covers.of_parent parent)

/-- What is outdated lies at or below the root. -/
theorem Outdated.within {ix : Index} (outdated : Outdated site ix p) : site.root.Covers p := by
  rcases outdated.2 with rfl | ⟨d, parent, ⟨st, wants, _⟩, _⟩
  · exact .refl _
  · exact wants.within.of_parent parent

/-- Where the directory is unknown, nothing in it is outdated. -/
theorem Outdated.above_known {q : Path} (outdated : Outdated site ix q) (other : q ≠ site.root) :
    ∃ d sd, q.parent = some d ∧ site.Wants d sd ∧ sd.kind = .directory ∧ ix.status? d = some sd := by
  rcases outdated.2 with root | ⟨d, parent, ⟨sd, wants, directory⟩, agrees⟩
  · exact absurd root other
  · exact ⟨d, sd, parent, wants, directory, (agrees sd).2 wants⟩

end

end Crawl

end ProjectIndex
