import ProjectIndex.Proofs.Crawl.Deeds

/-!
# What a crawl leaves alone

A crawl below a root writes at and below the root, into the listing of the root's parent, and, where
the root itself has become a manifest, into the manifest of the parent.  Everything beyond the root
stays as it was, entry by entry: the statuses of files and directories, the other members of listings,
and the manifests whose files lie elsewhere.
-/

namespace ProjectIndex

open Std

/-- A path with the name of manifests is the one in its directory at which a manifest can count. -/
theorem Layout.eq_of_basename {l : Layout} {f g d : Path} (named : f.basename = some l.manifestName)
    (parent : f.parent = some d) (interest : l.isOfInterest g = true) (parent' : g.parent = some d) :
    f = g := by
  have name := (Option.filter_eq_some_iff.1 named).1
  have own := Path.components_of_name name parent
  have place := components_of_isOfInterest interest parent'
  cases f
  cases g
  exact congrArg Path.mk (own.trans place.symm)

namespace Index

/-- The two indexes say the same about everything that is not at or below the root. -/
structure SameBeyond (ix ix' : Index) (root : Path) : Prop where
  files : ∀ q, ¬ root.Covers q → ix'.files[q]? = ix.files[q]?
  directories : ∀ q, ¬ root.Covers q → ix'.directories[q]? = ix.directories[q]?
  children : ∀ d c, ¬ root.Covers c → (c ∈ ix'.children d ↔ c ∈ ix.children d)
  manifests : ∀ (d : Path) (D : Definition), ¬ root.Covers D.path →
    (ix'.manifests[d]? = some D ↔ ix.manifests[d]? = some D)

namespace SameBeyond

variable {ix ix' ix'' : Index} {root p : Path} {layout : Layout} {anchor : Path → Prop}

theorem refl (ix : Index) (root : Path) : ix.SameBeyond ix root :=
  ⟨fun _ _ => rfl, fun _ _ => rfl, fun _ _ _ => Iff.rfl, fun _ _ _ => Iff.rfl⟩

theorem trans (first : ix.SameBeyond ix' root) (second : ix'.SameBeyond ix'' root) :
    ix.SameBeyond ix'' root where
  files q out := (second.files q out).trans (first.files q out)
  directories q out := (second.directories q out).trans (first.directories q out)
  children d c out := (second.children d c out).trans (first.children d c out)
  manifests d D out := (second.manifests d D out).trans (first.manifests d D out)

/-- An eviction below the root. -/
theorem evict (consistent : ix.Consistent layout anchor) (covers : root.Covers p) :
    ix.SameBeyond (ix.evict p).1 root := by
  have filed := consistent.filed
  have unreached : ∀ q, ¬ root.Covers q → ¬ ix.Reaches p q :=
    fun q out reached => out (covers.trans (reached.covers filed))
  refine ⟨fun q out => ?_, fun q out => ?_, fun d c out => ?_, fun d D out => ?_⟩
  · rw [Index.evict, unlistChild_files]
    exact ((filed.walked p).outside q (unreached q out)).files
  · rw [Index.evict, unlistChild_directories]
    exact ((filed.walked p).outside q (unreached q out)).directories
  · rw [filed.mem_children_evict]
    refine ⟨And.left, fun entry => ⟨entry, fun reached => ?_, fun same => out (same ▸ covers)⟩⟩
    exact out (covers.trans ((reached.1.covers filed).of_parent (filed d c entry)))
  · refine ⟨fun found => (filed.manifests_evict found).1, fun found => ?_⟩
    have backs := consistent.backed d D found
    rw [filed.manifest_evict (fun inside => out (covers.trans (inside.of_parent backs.inside)))]
    · exact found
    · intro _ _ parent named
      refine out (Eq.subst (motive := root.Covers) ?_ covers)
      rw [consistent.name] at named
      exact Layout.eq_of_basename named parent backs.interest backs.inside

theorem evictAll (consistent : ix.Consistent layout anchor) {paths : List Path}
    (covers : ∀ p ∈ paths, root.Covers p) : ix.SameBeyond (ix.evictAll paths) root :=
  (evictAll_keeps (P := fun ix' => ix'.Consistent layout anchor ∧ ix.SameBeyond ix' root)
    (fun _ p member kept => ⟨kept.1.evict p, kept.2.trans (.evict kept.1 (covers p member))⟩)
    ⟨consistent, .refl ix root⟩).2

theorem clearedFor (consistent : ix.Consistent layout anchor) (covers : root.Covers p) (st : Status) :
    ix.SameBeyond (ix.clearedFor p st) root :=
  (clearedFor_keeps (P := fun ix' => ix'.Consistent layout anchor ∧ ix.SameBeyond ix' root)
    (fun _ kept => ⟨kept.1.evict p, kept.2.trans (.evict kept.1 covers)⟩)
    ⟨consistent, .refl ix root⟩ st).2

theorem insertDirectory (ix : Index) (covers : root.Covers p) (st : Status) :
    ix.SameBeyond (ix.insertDirectory p st true).1 root := by
  have other : ∀ q, ¬ root.Covers q → p ≠ q := fun q out same => out (same ▸ covers)
  refine ⟨fun q out => by simp, fun q out => ?_, fun d c out => ?_, fun d D out => by simp⟩
  · simp [ExtTreeMap.getElem?_insert, other q out]
  · rw [mem_children_insertDirectory]
    exact or_iff_left fun own => other c out own.2.symm

theorem insertFile (ix : Index) (covers : root.Covers p) (st : Status) :
    ix.SameBeyond (ix.insertFile p st true).1 root := by
  have other : ∀ q, ¬ root.Covers q → p ≠ q := fun q out same => out (same ▸ covers)
  refine ⟨fun q out => ?_, fun q out => by simp, fun d c out => ?_, fun d D out => by simp⟩
  · simp [ExtTreeMap.getElem?_insert, other q out]
  · rw [mem_children_insertFile]
    exact or_iff_left fun own => other c out own.2.symm

/-- A manifest whose file is below the root takes the place of no manifest whose file is not: there is
one file in a directory that can hold its manifest. -/
theorem setManifest (consistent : ix.Consistent layout anchor) {D : Definition}
    (backs : ix.Backs layout D.directory D) (covers : root.Covers D.path) :
    ix.SameBeyond (ix.setManifest D true).1 root := by
  refine ⟨fun _ _ => rfl, fun _ _ => rfl, fun _ _ _ => Iff.rfl, fun d E out => ?_⟩
  rw [Index.setManifest, if_pos rfl, ExtTreeMap.getElem?_insert]
  by_cases own : D.directory = d
  · rw [if_pos (LawfulEqCmp.compare_eq_iff_eq.2 own)]
    refine ⟨fun same => absurd (Option.some.inj same ▸ covers) out, fun found => absurd ?_ out⟩
    have there := consistent.backed d E found
    rw [Layout.isOfInterest_unique there.interest backs.interest there.inside (own ▸ backs.inside)]
    exact covers
  · rw [if_neg (by simpa using own)]

end SameBeyond

end Index

namespace Crawl

variable {ctx : Context} {world : World} {layout : Layout} {anchor : Path → Prop} {root : Path}
  {ix ix' : Index} {s : Scope}

/-- A deed of a task that stands below the root changes nothing beyond it. -/
theorem Deed.sameBeyond {task : Task} {next : Progress} (deed : Deed ctx world ix task ix' next)
    (covers : root.Covers task.path) (absolute : task.path.isAbsolute = true)
    (consistent : ix.Consistent layout anchor) (stands : task.Stands layout anchor ix) :
    ix.SameBeyond ix' root := by
  cases deed with
  | ended | begun | subscribed | project | declared => exact .refl ix root
  | removed result => exact .evict consistent covers
  | cleared p st result => exact .clearedFor consistent covers st
  | @directory p st task kind goesOn =>
    exact (Index.SameBeyond.clearedFor consistent covers st).trans (.insertDirectory _ covers st)
  | @file p st next kind goesOn =>
    exact (Index.SameBeyond.clearedFor consistent covers st).trans (.insertFile _ covers st)
  | @listed dir known cs gone told entries =>
    exact .evictAll consistent fun c member => covers.of_parent (consistent.filed dir c (entries c member))
  | @installed a d D further =>
    cases stands with
    | manifest file own =>
      obtain ⟨path, parent, interest⟩ := own D.path D.directory rfl
      have backs : ix.Backs layout D.directory D :=
        ⟨rfl, path ▸ parent, path ▸ file, path ▸ interest, path ▸ absolute⟩
      exact .setManifest consistent backs (path ▸ covers)

/-- A move of a task that stands below the root changes nothing beyond it. -/
theorem Task.Moves.sameBeyond {task : Task} {r : Scope × Progress}
    (moved : Task.Moves ctx world s task r) (live : s.store.isStale ctx.generation = false)
    (covers : root.Covers task.path) (absolute : task.path.isAbsolute = true) (placed : task.Placed)
    (consistent : s.store.index.Consistent layout anchor)
    (stands : task.Stands layout anchor s.store.index) :
    s.store.index.SameBeyond r.1.store.index root := by
  induction moved with
  | begin p =>
    rw [addEntry_outcome live]
    exact .refl _ root
  | entry p => exact (deed_entry live p).sameBeyond covers absolute consistent stands
  | subscribe dir known =>
    rw [subscribed_index]
    exact .refl _ root
  | list dir known => exact (deed_list live dir known).sameBeyond covers absolute consistent stands
  | project a project =>
    exact ((@Task.Moves.project _ world _ a project).deed live trivial).sameBeyond covers absolute
      consistent stands
  | manifest a d => exact (deed_manifest live a d).sameBeyond covers absolute consistent stands
  | inOrder dir queue rest moved ih | inOrderFailed dir queue rest moved ih =>
    cases placed with
    | inOrder first siblings distinct =>
      cases stands with
      | inOrder directory stands =>
        have below := Path.covers_of_parent (siblings _ List.mem_cons_self)
        exact ih (covers.trans below) (below.isAbsolute absolute) first stands
  | inOrderDone dir queue rest moved ih =>
    cases placed with
    | inOrder first siblings distinct =>
      cases stands with
      | inOrder directory stands =>
        have below := Path.covers_of_parent (siblings _ List.mem_cons_self)
        rw [(nextInOrder_outcome ((moved.edits.isStale _).trans live) dir queue rest).1]
        exact ih (covers.trans below) (below.isAbsolute absolute) first stands
  | together dir before after failure moved ih | togetherDone dir before after failure moved left ih =>
    obtain ⟨first, below, own⟩ := stands.one placed
    exact ih (covers.trans below) (below.isAbsolute absolute) first own
  | @togetherLast s' task result dir failure moved ih =>
    obtain ⟨first, below, own⟩ := @Task.Stands.one _ _ _ dir [] [] task failure stands placed
    rw [conclude_index]
    exact ih (covers.trans below) (below.isAbsolute absolute) first own
  | togetherNone dir failure =>
    rw [conclude_index]
    exact .refl _ root

/-- The directory that a crawl starts with changes nothing beyond itself. -/
theorem sameBeyond_addDirectory (live : s.store.isStale ctx.generation = false) (root : Path)
    (st : Status) :
    s.store.index.SameBeyond (ctx.addDirectory root st s).1.store.index root := by
  rcases addDirectory_outcome live root st with ⟨_, same, _⟩ | ⟨_, written, _⟩
  · rw [same]
    exact .refl _ root
  · rw [written]
    exact .insertDirectory _ (.refl root) st

/-- A crawl that starts with a task that stands below the root changes nothing beyond it, however it
ends. -/
theorem Served.sameBeyond {admits : World → Prop} {r : Scope × Progress}
    {result : Except IndexError Bool} (served : Served ctx admits r s result)
    (layouts : ctx.policy.layout = layout) (lists : ∀ world, admits world → world.ListsOnce) {p : Path}
    (covers : root.Covers p) (absolute : p.isAbsolute = true)
    (consistent : r.1.store.index.Consistent layout anchor)
    (goesOn : ∀ task, r.2 = .waiting task →
      task.Placed ∧ task.path = p ∧ task.Stands layout anchor r.1.store.index) :
    r.1.store.index.SameBeyond s.store.index root := by
  cases stale : r.1.store.isStale ctx.generation with
  | true =>
    rw [(served.edits.quiet_of_stale stale).index]
    exact .refl _ root
  | false =>
    refine (served.keeps (P := fun now => now.1.store.isStale ctx.generation = false ∧
      now.1.store.index.Consistent layout anchor ∧ (∀ task, now.2 = .waiting task →
        task.Placed ∧ task.path = p ∧ task.Stands layout anchor now.1.store.index) ∧
      r.1.store.index.SameBeyond now.1.store.index root)
      ⟨stale, consistent, goesOn, .refl _ root⟩ ?_).2.2.2
    rintro s task world now admitted moved ⟨live, consistent, goesOn, same⟩
    obtain ⟨placed, rfl, stands⟩ := goesOn task rfl
    have advances := moved.advances layouts (lists world admitted) live absolute placed consistent
      stands
    exact ⟨(moved.edits.isStale _).trans live, advances.consistent, advances.goesOn,
      same.trans (moved.sameBeyond live covers absolute placed consistent stands)⟩

end Crawl

end ProjectIndex
