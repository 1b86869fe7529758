import ProjectIndex.Proofs.Crawl.Declarations
import ProjectIndex.Proofs.Crawl.Leaves

/-!
# Where files declare projects

A configuration file declares the project of a directory above it, and a manifest that of the directory
it is in.  Either way the root is strictly above the file, and it stays so while the crawl waits for the
manifest to be read and for the project to come into force.
-/

namespace ProjectIndex

def Path.Encloses (d p : Path) : Prop :=
  d.Covers p ∧ d ≠ p

theorem Path.Covers.encloses_of_parent {q p d : Path} (above : q.Covers d) (parent : p.parent = some d) :
    q.Encloses p := by
  refine ⟨above.of_parent parent, ?_⟩
  rintro rfl
  exact Path.not_covers_of_parent parent above

/-- A configuration file declares a project strictly above itself. -/
theorem Policy.encloses_of_projectRoot? {policy : Policy} {p root : Path}
    (found : policy.projectRoot? p = some root) : root.Encloses p := by
  unfold projectRoot? at found
  simp only [Option.bind_eq_bind, Option.bind_eq_some_iff] at found
  obtain ⟨name, _, found⟩ := found
  split at found
  · cases found
  · split at found
    · cases found
    · obtain ⟨parent, own, found⟩ := Option.bind_eq_some_iff.1 found
      split at found
      · exact (Path.covers_of_parent found).encloses_of_parent own
      · cases found
        exact (Path.Covers.refl root).encloses_of_parent own

namespace Crawl

/-- The root of the project that comes into force when this wait is over. -/
def Task.founds? : Task → Option Path
  | .project _ root => some root
  | .manifest _ (.declaring D) => some D.directory
  | _ => none

/-- A project that the wait is about, or is to be about, has its root strictly above the file. -/
def Task.Sited : Task → Prop
  | .project a root => root.Encloses a.path
  | .manifest a (.reading _ directory) => directory.Encloses a.path
  | .manifest a (.declaring D) => D.directory.Encloses a.path
  | _ => True

def Progress.Sited (next : Progress) : Prop :=
  ∀ leaf, next.Leaf leaf → leaf.Sited

theorem Task.Sited.encloses {task : Task} (sited : task.Sited) {root : Path}
    (founds : task.founds? = some root) : root.Encloses task.path := by
  cases task with
  | project a root' =>
    cases founds
    exact sited
  | manifest a d =>
    cases d with
    | declaring D =>
      cases founds
      exact sited
    | reading | publishing => cases founds
  | _ => cases founds

theorem Task.Starts.sited {task : Task} (starts : task.Starts) : task.Sited := by
  cases task with
  | begin | entry => trivial
  | _ => exact absurd starts id

theorem sited_finished (result : Except IndexError Bool) : (Progress.finished result).Sited :=
  fun leaf inside => absurd inside (Progress.leaf_finished result leaf)

theorem sited_of_single {task : Task} (single : task.Single) (sited : task.Sited) :
    (Progress.waiting task).Sited := by
  intro leaf inside
  rw [Progress.leaf_waiting, single.leaf_iff] at inside
  exact inside ▸ sited

section

variable {ctx : Context} {world : World} {s : Scope} {task : Task} {r : Scope × Progress}

theorem sited_announce (a : Arrival) (s : Scope) : (ctx.announce a s).2.Sited := by
  obtain ⟨changed, ends⟩ := @announce_ends ctx a s
  rw [ends]
  exact sited_finished _

theorem sited_declareManifest (a : Arrival) (s : Scope) : (ctx.declareManifest a s).2.Sited := by
  have declared := manifestDeclared ctx a s
  generalize ctx.declareManifest a s = r at declared ⊢
  cases declared with
  | unnamed => exact sited_announce a s
  | skipped => exact sited_announce a _
  | reading counts =>
    obtain ⟨dir, parent⟩ := Layout.exists_parent counts
    have above := (Path.Covers.refl dir).encloses_of_parent parent
    apply sited_of_single
    · trivial
    · simpa [Task.Sited, parent] using above

theorem sited_addFile (file : Path) (status : Status) (s : Scope) :
    (ctx.addFile file status s).2.Sited := by
  have declared : ∀ (a : Arrival) (s : Scope), (ctx.declareFile a s).2.Sited := by
    intro a s
    unfold Context.declareFile
    split
    next root found =>
      apply sited_of_single
      · trivial
      · exact Policy.encloses_of_projectRoot? found
    · exact sited_declareManifest a s
  have added := fileAdded ctx file status s
  generalize ctx.addFile file status s = r at added ⊢
  cases added with
  | unchanged | ignored | withdrawn => exact sited_finished _
  | registered => exact declared _ _

theorem sited_addDirectory (dir : Path) (status : Status) (s : Scope) :
    (ctx.addDirectory dir status s).2.Sited := by
  have added := directoryAdded ctx dir status s
  generalize ctx.addDirectory dir status s = r at added ⊢
  cases added with
  | unchanged | ignored | withdrawn => exact sited_finished _
  | subscribing | listing => exact sited_of_single trivial trivial

theorem sited_examined (p : Path) (answer : Except DiskError Status) (s : Scope) :
    (ctx.examined p answer s).2.Sited := by
  cases answer with
  | error cause =>
    unfold Context.examined
    dsimp only
    split
    · split <;> exact sited_finished _
    · exact sited_finished _
  | ok st =>
    obtain ⟨s', _, examined⟩ := @examined_told ctx p st s
    rw [examined]
    split
    · exact sited_addDirectory p st s'
    · exact sited_addFile p st s'
    · exact sited_finished _

/-- A manifest is installed in the directory that it was read for. -/
theorem install_waits {policy : Policy} {g : Generation} {req : Declaration.Request}
    {bytes : List UInt8} {d : Declaration}
    (waits : (Declaration.install policy g req bytes s).2 = .waiting d) :
    ∃ D : Definition, D.directory = req.directory ∧ (d = .declaring D ∨ d = .publishing D) := by
  unfold Declaration.install at waits
  split at waits
  · cases waits
  · dsimp only at waits
    split at waits
    · cases waits
    · split at waits
      · cases waits
      next store D taken =>
        have own : D.directory = req.directory := by
          unfold Declaration.takeNumber at taken
          dsimp only at taken
          split at taken
          · cases taken
            rfl
          · cases taken
        split at waits
        · cases waits
          exact ⟨D, own, Or.inl rfl⟩
        · cases waits
          exact ⟨D, own, Or.inr rfl⟩

theorem sited_manifest (world : World) (a : Arrival) (d : Declaration)
    (sited : (Task.manifest a d).Sited) (s : Scope) :
    (ctx.resume a (d.step ctx.policy world ctx.generation s)).2.Sited := by
  cases d with
  | reading path directory =>
    dsimp only [Declaration.step]
    split
    next bytes _ =>
      generalize installed : Declaration.install ctx.policy ctx.generation ⟨path, directory, none⟩
        bytes s = q
      obtain ⟨t, d | result | e⟩ := q
      · obtain ⟨D, own, rfl | rfl⟩ := install_waits (congrArg Prod.snd installed)
        · apply sited_of_single
          · trivial
          · exact (own ▸ sited : D.directory.Encloses a.path)
        · exact sited_of_single trivial trivial
      · exact sited_finished _
      · exact sited_announce a t
    · split
      · exact sited_announce a _
      · exact sited_finished _
  | declaring D => exact sited_of_single trivial trivial
  | publishing D => exact sited_announce a s

/-- The waits that a crawl goes on with are about projects strictly above their files. -/
theorem Task.Moves.sited (moved : Task.Moves ctx world s task r)
    (live : s.store.isStale ctx.generation = false) (placed : task.Placed)
    (sited : (Progress.waiting task).Sited) : r.2.Sited := by
  have each : ∀ leaf, task.Leaf leaf → leaf.Sited :=
    fun leaf inside => sited leaf (Progress.leaf_waiting.2 inside)
  cases moved.shifts live placed with
  | idle _ _ origin =>
    intro l inside
    rcases origin l inside with before | starts
    · exact each l before
    · exact starts.sited
  | @leaf leaf r' inside single moved _ _ _ origin =>
    have next : r'.2.Sited := by
      cases moved with
      | begin p =>
        unfold Context.addEntry
        split
        · exact sited_finished _
        · exact sited_of_single trivial trivial
      | entry p => exact sited_examined p _ s
      | subscribe dir known => exact sited_of_single trivial trivial
      | list dir known =>
        rcases listed_outcome live dir known (world.children dir) with
          ⟨_, _, ⟨_, _, ends⟩ | ⟨_, ends⟩⟩ | ⟨children, _, _, next⟩
        · rw [ends]
          exact sited_finished _
        · rw [ends]
          exact sited_finished _
        · rw [next]
          exact fun l started => (leaf_following started).sited
      | project a root => exact sited_declareManifest a _
      | manifest a d => exact sited_manifest world a d (each _ inside) s
      | inOrder | inOrderFailed | inOrderDone | together | togetherDone | togetherLast
      | togetherNone => exact absurd single id
    intro l left
    rcases origin l left with after | ⟨before, _⟩ | starts
    · exact next l after
    · exact each l before
    · exact starts.sited

end

end Crawl

end ProjectIndex
