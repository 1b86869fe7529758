import ProjectIndex.Proofs.Path.NormalForm
import ProjectIndex.Proofs.Watch.Standstill
import ProjectIndex.Proofs.Watch.Subsumption

/-!
# Roots that are watched are known

On a disk that does not change, watches and withdrawals are made one after the other, each to its end.
A watch that crawls its root leaves it known, unless the name of the root is denied.  A watch that is
covered by an active root looks at nothing: its root is known if it is known since the covering root was
watched, for nothing at or below an active root changes as long as it is active.  The crawl of the
covering root goes down through directories whose names are not denied, does not follow links, and
passes over directories that are known already.  So it does not come to a root below a directory that a
failed watch or a withdrawal has left behind.
-/

namespace ProjectIndex

/-- A plain path below another one is reached from it by names. -/
theorem Path.Plain.exists_descend {a p : Path} (plain : p.Plain) (above : a.Plain) (covers : a.Covers p) :
    ∃ names : List Name, p = a.descend names := by
  obtain ⟨way, rfl, _⟩ := above
  obtain ⟨whole, rfl, _⟩ := plain
  obtain ⟨rest, joined⟩ := covers
  simp only [Path.descend, Path.root, List.cons_append, List.nil_append,
    List.cons.injEq, true_and] at joined
  obtain ⟨first, second, rfl, ways, rfl⟩ := List.map_eq_append_iff.1 joined.symm
  have injective : Function.Injective Component.name := fun _ _ same => Component.name.inj same
  obtain rfl := List.map_injective_iff.2 injective ways
  exact ⟨second, Path.descend_append _ first second⟩

namespace Crawl

variable {d : Disk} {policy : Policy} {linked : Path → Prop} {top : Path} {ix ix' : Index}

/-- What the directories of an index at or below a path come from, since the path was crawled on an
earlier index: they were known and are behind no link, or the crawl went down to them. -/
structure CrawledFrom (d : Disk) (policy : Policy) (top : Path) (ix ix' : Index) : Prop where
  kept : ∀ q, top.Covers q → q ∈ ix.directories → d.Unlinked top q → q ∈ ix'.directories
  found : ∀ q, q.Plain → top.Covers q →
    (∀ p, top.Covers p → p.Covers q → Passable d policy (· ∈ ix.directories) top p) →
    q ∈ ix'.directories
  gained : ∀ q, top.Covers q → q ∈ ix'.directories →
    q ∈ ix.directories ∨ Crossed d policy (· ∈ ix.directories) top q

/-- A directory with an entry that a crawl goes into was not known before, so the entry would be
lacking now only if it had been lacking then. -/
theorem mem_of_passable (attested : ix'.Attested d policy linked)
    (paid : ∀ q, ix'.Lacks d policy q → ix.Lacks d policy q) (known : top ∈ ix'.directories)
    (names : List Name) (plain : (top.descend names).Plain)
    (way : ∀ init, init <+: names → Passable d policy (· ∈ ix.directories) top (top.descend init)) :
    top.descend names ∈ ix'.directories := by
  induction names using List.reverseRecOn with
  | nil => simpa using known
  | append_singleton init n ih =>
    have parent := Path.parent_descend top init n
    have above := ih (plain.parent parent) fun init' shorter =>
      way init' (shorter.trans (List.prefix_append init [n]))
    have below : top.descend (init ++ [n]) ≠ top := by
      intro same
      exact absurd (Path.descend_injective (same.trans (Path.descend_nil top).symm)) (by simp)
    obtain ⟨_, taken, entry⟩ := way (init ++ [n]) (List.prefix_refl _)
    obtain ⟨st, told, kind⟩ := entry below
    refine attested.mem_directories ?_ ⟨st, Disk.stat_of_statEntry told (by simp [kind]), kind⟩
    by_contra unknown
    have lacks : ix'.Lacks d policy (top.descend (init ++ [n])) :=
      ⟨plain, unknown, ⟨_, parent, above⟩, st, told, by simp [kind], kind ▸ taken⟩
    obtain ⟨dir, same, before⟩ := (paid _ lacks).parent
    cases parent.symm.trans same
    exact (way init (List.prefix_append init [n])).unknown before

end Crawl

namespace Watch

/-- The request is about a root. -/
def Errand.OfRoot : Errand → Prop
  | .watch root _ => root.Plain
  | .refresh _ _ => False
  | .unwatch _ _ => True

/-- The root was not active when the host was the first one.  Then it was watched, and it has been active
after each request since. -/
inductive ActiveSince (policy : Policy) (admits : World → Prop) (root : Path) (k : Host) :
    List Errand → Host → Prop where
  | watched {earlier : List Errand} {h : Host} {result : Except IndexError Unit}
      (before : History policy admits earlier k) (inactive : root ∉ k.watched)
      (done : (Errand.watch root result).Done policy admits k h) (active : root ∈ h.watched) :
      ActiveSince policy admits root k (.watch root result :: earlier) h
  | next {errands : List Errand} {h h' : Host} {errand : Errand}
      (since : ActiveSince policy admits root k errands h) (done : errand.Done policy admits h h')
      (active : root ∈ h'.watched) : ActiveSince policy admits root k (errand :: errands) h'

variable {policy : Policy} {admits : World → Prop} {d : Disk} {root : Path} {h h' k : Host}
  {errands : List Errand}

namespace ActiveSince

theorem history (since : ActiveSince policy admits root k errands h) :
    History policy admits errands h := by
  induction since with
  | watched before _ done _ => exact .next before done
  | next _ done _ ih => exact .next ih done

theorem active (since : ActiveSince policy admits root k errands h) : root ∈ h.watched := by
  cases since with
  | watched _ _ _ active => exact active
  | next _ _ active => exact active

end ActiveSince

/-- Every active root has been active since a watch of it. -/
theorem History.activeSince (history : History policy admits errands h) (active : root ∈ h.watched) :
    ∃ k, ActiveSince policy admits root k errands h := by
  induction history with
  | fresh name style => simp [Host.watched] at active
  | @next errands h h' errand before done ih =>
    by_cases earlier : root ∈ h.watched
    · obtain ⟨k, since⟩ := ih earlier
      exact ⟨k, .next since done active⟩
    · rcases done.mem_active before.settled (Std.ExtTreeMap.mem_keys.1 active) with was | ⟨result, rfl⟩
      · exact absurd (Std.ExtTreeMap.mem_keys.2 was) earlier
      · exact ⟨h, .watched before earlier done active⟩

/-- After watches and withdrawals on a disk that does not change, the disk attests the index. -/
theorem History.attested (history : History policy (·.Reads d) errands h) (tidy : d.isTidy = true)
    (roots : ∀ errand ∈ errands, errand.OfRoot) :
    h.store.index.Attested d policy fun _ => True := by
  induction history with
  | fresh name style => exact Index.attested_empty name d policy _
  | @next errands h h' errand before done ih =>
    have attested := ih fun errand member => roots errand (by simp [member])
    have own := roots errand (by simp)
    cases done.rewrites before.settled with
    | same index => exact index ▸ attested
    | crawl uncovered crawled index =>
      have surveyed := (crawled.surveyed tidy (fun _ reads => reads) before.live own trivial attested).1
      exact index ▸ surveyed.attested
    | refresh => exact own.elim
    | evict index => exact index ▸ attested.evict _

/-- A withdrawal between two requests finds nothing, or evicts an active root. -/
theorem Host.Settled.unwatch_cases (settled : h.Settled) (root : Path) :
    (h.unwatch root).1 = h ∨
      (root ∈ h.roots.active ∧
        (h.unwatch root).1.store.index = (h.store.index.evict root).1 ∧
        ∀ r, r ∈ (h.unwatch root).1.roots.active ↔ r ∈ h.roots.active ∧ r ≠ root) := by
  cases found : (h.unwatch root).2 with
  | false => exact Or.inl (Host.unwatch_nothing found)
  | true =>
    refine Or.inr ⟨?_, Host.unwatch_index found, ?_⟩
    · unfold Host.unwatch at found
      split at found
      · cases found
      next ended some withdrawn =>
        obtain ⟨g, member⟩ := List.exists_mem_of_ne_nil _ some
        have ends : g ∈ (h.roots.withdraw root).2 := by rwa [withdrawn]
        rcases Roots.mem_withdraw.1 ends with ⟨r, pending, _⟩ | active
        · exact absurd (Std.ExtTreeMap.mem_iff_isSome_getElem?.2 (by simp [pending])) (settled.idle r)
        · exact Std.ExtTreeMap.mem_iff_isSome_getElem?.2 (by simp [active])
    · have left : (h.unwatch root).1.roots.active = h.roots.active.erase root := by
        unfold Host.unwatch at found ⊢
        split at found
        · cases found
        next withdrawn => exact (congrArg (·.1.active) withdrawn).symm
      intro r
      rw [left, Std.ExtTreeMap.mem_erase]
      simp [and_comm, @eq_comm _ root r]

/-- A watch between two requests is covered by an active root and changes nothing, or crawls its root. -/
theorem Host.Settled.watch_cases (settled : h.Settled)
    (live : h.store.isStale h.store.nextGeneration = false) {reply : Reply}
    (served : Served policy admits (h.watch root) h' reply) :
    (h'.store.index = h.store.index ∧ h'.watched = h.watched) ∨
      ∃ s ends, Crawled policy admits root h.store.nextGeneration
          { h.store with nextGeneration := h.store.nextGeneration + 1 } s ends ∧
        h'.store.index = s.store.index ∧ (∀ r ∈ h.watched, ¬ r.Covers root) ∧
        ∀ r, r ∈ h'.watched ↔ (ends.isOk = true ∧ r = root) ∨ (r ∈ h.watched ∧ ¬ root.Covers r) := by
  rcases settled.plan_cases root with ⟨above, planned, _, _⟩ | planned
  · obtain ⟨quiet, same, _⟩ := Host.Settled.served_of_covered planned served
    exact Or.inl ⟨quiet.index, by rw [Host.watched, same, Host.watched]⟩
  obtain ⟨s, ends, crawled, host, _⟩ := served.of_start planned
  obtain ⟨quiet, left⟩ := Host.finishWatch_keeps root h.store.nextGeneration ends s.remarks
    ⟨s.store, h.roots.reserve root h.store.nextGeneration⟩
  rw [← host] at quiet left
  refine Or.inr ⟨s, ends, crawled, quiet.index, fun r watched => ?_, fun r => ?_⟩
  · exact (Roots.plan_eq_start planned).2.1 r (Std.ExtTreeMap.mem_keys.1 watched)
  · have still : s.store.isLive h.store.nextGeneration = true := by
      simp only [Store.isLive, crawled.edits.isStale]
      exact congrArg Bool.not live
    simp only [Host.watched, Std.ExtTreeMap.mem_keys]
    rw [left, show s.store.isLive h.store.nextGeneration = true from still, Bool.and_true]
    exact settled.mem_active_after planned _ _ _ r

/-- As long as a root is active, nothing at or below it changes. -/
theorem Errand.Done.same_below {errand : Errand} (done : errand.Done policy (·.Reads d) h h')
    (history : History policy (·.Reads d) errands h) (tidy : d.isTidy = true) (own : errand.OfRoot)
    (roots : ∀ errand ∈ errands, errand.OfRoot) (before : root ∈ h.watched) (after : root ∈ h'.watched)
    {q : Path} (below : root.Covers q) :
    q ∈ h'.store.index.directories ↔ q ∈ h.store.index.directories := by
  have settled := history.settled
  have attested := history.attested tidy roots
  cases done with
  | refresh => exact own.elim
  | @watch _ _ r result served =>
    rcases settled.watch_cases history.live served with
      ⟨same, _⟩ | ⟨s, ends, crawled, index, uncovered, active⟩
    · rw [same]
    have beside : ¬ r.Covers root := by
      rcases (active root).1 after with ⟨_, same⟩ | ⟨_, beside⟩
      · exact absurd (same ▸ .refl _) (uncovered root before)
      · exact beside
    have outside : ¬ r.Covers q := fun inside =>
      (below.comparable inside).elim (uncovered root before) beside
    have same : h.store.index.SameOutside s.store.index r :=
      (crawled.surveyed tidy (fun _ reads => reads) history.live own trivial attested).1.outside
    rw [index]
    exact same.directories q outside
  | unwatch h r =>
    rcases settled.unwatch_cases r with same | ⟨active, index, left⟩
    · rw [same]
    have other := ((left root).1 (Std.ExtTreeMap.mem_keys.1 after)).2
    have held := Std.ExtTreeMap.mem_keys.1 before
    have outside : ¬ r.Covers q := by
      intro inside
      rcases below.comparable inside with down | up
      · exact other (settled.apart.antichain root r (Or.inr held) (Or.inr active) down)
      · exact other (settled.apart.antichain r root (Or.inr active) (Or.inr held) up).symm
    rw [index, attested.filed.mem_directories_evict]
    exact and_iff_left fun reaches => outside (reaches.covers attested.filed)

/-- Below a root that has been active since the host was `k`, the directories are those that were known
then and those that its crawl went down to. -/
theorem ActiveSince.covered (since : ActiveSince policy (·.Reads d) root k errands h)
    (tidy : d.isTidy = true) (roots : ∀ errand ∈ errands, errand.OfRoot) :
    Crawl.CrawledFrom d policy root k.store.index h.store.index := by
  induction since with
  | @watched earlier h result before inactive done active =>
    have attested := before.attested tidy fun errand member => roots errand (by simp [member])
    have plain : root.Plain := roots (.watch root result) (by simp)
    cases done with
    | watch served =>
      rcases before.settled.watch_cases before.live served with
        ⟨_, same⟩ | ⟨s, ends, crawled, index, _, left⟩
      · exact absurd (same ▸ active) inactive
      obtain ⟨changed, rfl⟩ : ∃ changed, ends = .ok changed := by
        rcases (left root).1 active with ⟨well, _⟩ | ⟨was, _⟩
        · cases ends with
          | ok changed => exact ⟨changed, rfl⟩
          | error e => simp [Except.isOk, Except.toBool] at well
        · exact absurd was inactive
      obtain ⟨surveyed, well⟩ := crawled.surveyed tidy (fun _ reads => reads) before.live plain trivial
        attested
      obtain ⟨known, paid⟩ := well changed rfl
      rw [index]
      refine ⟨fun q _ was unlinked => surveyed.kept q was unlinked, fun q plainBelow below way => ?_,
        fun q _ found => surveyed.gained q found⟩
      obtain ⟨names, rfl⟩ := plainBelow.exists_descend plain below
      have own : root ∈ s.store.index.directories := by
        rw [known, ← Policy.ignores_directory]
        exact (way root (.refl root) below).taken
      refine Crawl.mem_of_passable surveyed.attested paid own names plainBelow fun init shorter => ?_
      obtain ⟨rest, rfl⟩ := shorter
      refine way _ (Path.covers_descend root init) ?_
      rw [Path.descend_append]
      exact Path.covers_descend _ rest
  | @next errands h h' errand since done active ih =>
    have earlier : ∀ errand ∈ errands, errand.OfRoot := fun errand member =>
      roots errand (by simp [member])
    have covered := ih earlier
    have same : ∀ {q}, root.Covers q →
        (q ∈ h'.store.index.directories ↔ q ∈ h.store.index.directories) := fun below =>
      done.same_below since.history tidy (roots errand (by simp)) earlier since.active active below
    exact ⟨fun q below was unlinked => (same below).2 (covered.kept q below was unlinked),
      fun q plain below way => (same below).2 (covered.found q plain below way),
      fun q below found => covered.gained q below ((same below).1 found)⟩

/-- After watches and withdrawals, each served to its end on a disk that does not change, a watch is
answered without a failure.  If no active root covered its root, the root is known as a directory
exactly if its name is not denied.  If an active root `a` covered it, then `a` has been active since it
was watched on some host `k`.  The root is known if, on every path from `a` down to it, `k` knew no
directory, the name is not denied, and below `a` the disk has a directory and not a link.  Otherwise it
is known only if `k` knew it already, and then it is known unless there is a link on the way. -/
theorem watched_root_known (policy : Policy) (d : Disk) (tidy : d.isTidy = true)
    (errands : List Errand) (h h' : Host) (history : History policy (·.Reads d) errands h)
    (roots : ∀ errand ∈ errands, errand.OfRoot) (root : Path) (plain : root.Plain)
    (done : (Errand.watch root (.ok ())).Done policy (·.Reads d) h h') :
    ((∀ a ∈ h.watched, ¬ a.Covers root) →
      (h'.store.index.isDirectory root = true ↔ policy.isDenied root = false)) ∧
    ∀ a ∈ h.watched, a.Covers root →
      (∃ k, ActiveSince policy (·.Reads d) a k errands h) ∧
      ∀ k, ActiveSince policy (·.Reads d) a k errands h →
        let reached := ∀ p, a.Covers p → p.Covers root →
          k.store.index.isDirectory p = false ∧ policy.isDenied p = false ∧
            (p ≠ a → ∃ st, d.statEntry p.spelling = .ok st ∧ st.kind = .directory)
        (reached → h'.store.index.isDirectory root = true) ∧
        (h'.store.index.isDirectory root = true →
          k.store.index.isDirectory root = true ∨ reached) ∧
        (k.store.index.isDirectory root = true →
          (∀ p, a.Covers p → p.Covers root → p ≠ a → ¬ d.HasLink p) →
          h'.store.index.isDirectory root = true) := by
  have settled := history.settled
  have attested := history.attested tidy roots
  cases done with
  | watch served =>
    constructor
    · intro uncovered
      have planned := settled.plan_of_uncovered fun a active =>
        uncovered a (Std.ExtTreeMap.mem_keys.2 active)
      obtain ⟨s, ends, crawled, host, answer⟩ := served.of_start planned
      obtain ⟨changed, rfl⟩ := crawl_ok_of_watch (fun e spelling found failed =>
        (failed ▸ crawled).hard history.live spelling found) (Or.inl (Reply.watched.inj answer).symm)
      have quiet : s.store.Quiet h'.store := by
        rw [host]
        exact (Host.finishWatch_keeps root _ (.ok changed) s.remarks ⟨s.store, _⟩).1
      obtain ⟨_, well⟩ := crawled.surveyed tidy (fun _ reads => reads) history.live plain trivial attested
      rw [Index.isDirectory_iff, quiet.index]
      exact (well changed rfl).1
    · intro a watched covers
      refine ⟨history.activeSince watched, fun k since => ?_⟩
      intro reached
      have covered := since.covered tidy roots
      have same : h'.store.index = h.store.index := by
        rcases settled.watch_cases history.live served with ⟨same, _⟩ | ⟨_, _, _, _, uncovered, _⟩
        · exact same
        · exact absurd covers (uncovered a watched)
      have passable : reached ↔ ∀ p, a.Covers p → p.Covers root →
          Crawl.Passable d policy (· ∈ k.store.index.directories) a p := by
        refine forall₃_congr fun p _ _ => ?_
        rw [Crawl.passable_iff, Policy.ignores_directory, ← Bool.not_eq_true, Index.isDirectory_iff]
      simp only [same, Index.isDirectory_iff]
      refine ⟨fun way => ?_, fun known => ?_, fun known straight => ?_⟩
      · exact covered.found root plain covers (passable.1 way)
      · exact (covered.gained root covers known).imp_right fun crossed => passable.2 crossed.way
      · exact covered.kept root covers known fun p beneath above =>
          straight p beneath.covers above beneath.other

def afterWatch (d : Disk) (p : Path) (h : Host) : Host :=
  (serve (.ofSettings {}) (h.watch p) (List.replicate 8 (.ofDisk d))).1

def watchIsOk (d : Disk) (p : Path) (h : Host) : Bool :=
  match (serve (.ofSettings {}) (h.watch p) (List.replicate 8 (.ofDisk d))).2 with
  | .finished (.watched (.ok ())) => true
  | _ => false

theorem afterWatch_done {d : Disk} {p : Path} {h : Host} (answered : watchIsOk d p h = true) :
    (Errand.watch p (.ok ())).Done (.ofSettings {}) (·.Reads d) h (afterWatch d p h) := by
  refine .watch (.of_serve (reads_replicate d 8) ?_)
  unfold watchIsOk at answered
  split at answered
  next ended => exact ended
  · cases answered

/-- A disk on which the package `/a` has a directory `b`. -/
def withDirectory : Disk where
  root := .directory 0 [([97], .directory 0 [([98], .directory 0 [])])]

/-- The directory in the package is known when its watch is answered, although nothing was crawled. -/
theorem watched_root_known_covered :
    ∃ h h', (Errand.watch ⟨[.root, .name [97]]⟩ (.ok ())).Done (.ofSettings {})
        (·.Reads withDirectory) { store := .empty (.ofString "package.json") .recursive } h ∧
      (Errand.watch ⟨[.root, .name [97], .name [98]]⟩ (.ok ())).Done (.ofSettings {})
        (·.Reads withDirectory) h h' ∧
      h'.store.index.isDirectory ⟨[.root, .name [97], .name [98]]⟩ = true := by
  let fresh : Host := { store := .empty (.ofString "package.json") .recursive }
  let a : Path := ⟨[.root, .name [97]]⟩
  have plain : ∀ names : List Name, (∀ n ∈ names, n.isLegal = true) →
      (Path.root.descend names).Plain := fun names legal =>
    ⟨names, rfl, fun n member => Name.plain_of_isLegal (legal n member)⟩
  have first : (Errand.watch a (.ok ())).Done (.ofSettings {}) (·.Reads withDirectory) fresh
      (afterWatch withDirectory a fresh) := afterWatch_done (by decide +kernel)
  have second : (Errand.watch ⟨[.root, .name [97], .name [98]]⟩ (.ok ())).Done (.ofSettings {})
      (·.Reads withDirectory) (afterWatch withDirectory a fresh)
      (afterWatch withDirectory _ (afterWatch withDirectory a fresh)) :=
    afterWatch_done (by decide +kernel)
  refine ⟨_, _, first, second, ?_⟩
  refine ((watched_root_known (.ofSettings {}) withDirectory (by decide +kernel) _ _ _
    (.next (.fresh _ _) first) ?_ _ (plain [[97], [98]] (by decide)) second).2
    a (by decide +kernel) (by decide)).2 fresh
    (.watched (.fresh _ _) (by simp [fresh, Host.watched]) first (by decide +kernel)) |>.1 ?_
  · intro errand member
    obtain rfl := List.mem_singleton.1 member
    exact plain [[97]] (by decide)
  · rintro ⟨way⟩ ⟨rest, rfl⟩ below
    have between : rest = [] ∨ rest = [.name [98]] := by
      cases rest with
      | nil => exact Or.inl rfl
      | cons c rest => simpa [a, Path.Covers, Path.descend, Path.root, List.prefix_cons_iff] using below
    rcases between with rfl | rfl
    · exact ⟨rfl, by decide +kernel, fun other => absurd rfl other⟩
    · exact ⟨rfl, by decide +kernel, fun _ => ⟨⟨.directory, 0, 0⟩, by with_unfolding_all rfl, rfl⟩⟩

/-- A disk on which `/w` has a directory whose name is denied, with a directory `x` in it and a directory
`d` in that. -/
def belowDenied : Disk where
  root := .directory 0
    [([119], .directory 0
      [(.ofString ".git", .directory 0 [([120], .directory 0 [([100], .directory 0 [])])])])]

/-- The path on that disk that is reached by these names. -/
def belowW (names : List Name) : Path :=
  ⟨.root :: .name [119] :: names.map .name⟩

/-- A host that watched `/w/.git/x` and then `/w`, whose crawl does not come to the directories below the
denied name, and withdrew `/w`, which leaves them known. -/
def innerLeft : Host :=
  let fresh : Host := { store := .empty (.ofString "package.json") .recursive }
  ((afterWatch belowDenied (belowW [])
    (afterWatch belowDenied (belowW [.ofString ".git", [120]]) fresh)).unwatch (belowW [])).1

/-- The host then watched and withdrew the inner directory, and watched the outer one again, which is
passed over since it is known. -/
def innerAgain : Host :=
  afterWatch belowDenied (belowW [.ofString ".git", [120]])
    ((afterWatch belowDenied (belowW [.ofString ".git", [120], [100]]) innerLeft).unwatch
      (belowW [.ofString ".git", [120], [100]])).1

/-- A watch can be answered without a failure, covered by an active root, and leave its root unknown,
although no name from the covering root down to it is denied and there is no link. -/
theorem covered_root_left_unknown :
    ∃ errands h h', History (.ofSettings {}) (·.Reads belowDenied) errands h ∧
      (∀ errand ∈ errands, errand.OfRoot) ∧
      (Errand.watch (belowW [.ofString ".git", [120], [100]]) (.ok ())).Done (.ofSettings {})
        (·.Reads belowDenied) h h' ∧
      h.watched = [belowW [.ofString ".git", [120]]] ∧
      (Policy.ofSettings {}).isDenied (belowW [.ofString ".git", [120]]) = false ∧
      (Policy.ofSettings {}).isDenied (belowW [.ofString ".git", [120], [100]]) = false ∧
      belowDenied.HasDirectory (belowW [.ofString ".git", [120], [100]]) ∧
      h'.store.index.isDirectory (belowW [.ofString ".git", [120], [100]]) = false := by
  have history : History (.ofSettings {}) (·.Reads belowDenied) _ innerLeft :=
    .next (.next (.next (.fresh _ _) (afterWatch_done (by decide +kernel)))
      (afterWatch_done (by decide +kernel))) (.unwatch _ _)
  refine ⟨_, innerAgain, _, .next (.next (.next history (afterWatch_done (by decide +kernel)))
    (.unwatch _ _)) (afterWatch_done (by decide +kernel)), ?_,
    afterWatch_done (by decide +kernel), by decide +kernel, by decide +kernel,
    by decide +kernel, ⟨⟨.directory, 0, 0⟩, by with_unfolding_all rfl, rfl⟩, by decide +kernel⟩
  have plain : ∀ names : List Name, (∀ n ∈ names, n.isLegal = true) → (belowW names).Plain := by
    intro names legal
    refine ⟨[119] :: names, rfl, fun n member => Name.plain_of_isLegal ?_⟩
    rcases List.mem_cons.1 member with rfl | inside
    · decide
    · exact legal n inside
  simp only [List.forall_mem_cons]
  exact ⟨plain _ (by decide), trivial, plain _ (by decide), trivial, plain _ (by decide),
    plain _ (by decide), by simp⟩

end Watch

end ProjectIndex
