import ProjectIndex.Proofs.Watch.Exactness
import ProjectIndex.Proofs.Watch.Refreshes

/-!
# Refreshes after a disk has changed

An index was made by a watch on one disk, and the disk is another one now.  Refreshes of the entries
that differ, in any order, any number of times and with others in between, lead to the index that a
fresh watch makes of the new disk.

While only some of the paths are refreshed, the index is ahead of the old disk in one place and
behind the new one in another.  A path may then lead through what was a directory and is a link now,
so that refreshes and crawls come to places that are not in the tree at all.  The site of a whole
disk takes them in.
-/

namespace ProjectIndex

namespace Disk

/-- The site of a whole disk: everything below the root, whether it is in the tree or not. -/
def site (d : Disk) (policy : Policy) (root : Path) : Site where
  policy
  world := .ofDisk d
  root
  region p := root.Covers p ∧ p.Plain

theorem site_lists {d : Disk} (tidy : d.isTidy = true) (policy : Policy) (root : Path) :
    (d.site policy root).Lists where
  below _ reached := reached.1
  entries p cs opens told := by
    obtain ⟨distinct, members⟩ := Disk.children_ofDisk tidy opens.reached.2 told
    refine ⟨distinct, fun c member => ?_⟩
    obtain ⟨parent, plain⟩ := members c member
    exact ⟨parent, opens.reached.1.of_parent parent, plain⟩

theorem site_shallow {d : Disk} (tidy : d.isTidy = true) (policy : Policy) (root : Path) :
    (d.site policy root).Shallow (maxPathLength + 2) := by
  intro p opens
  obtain ⟨st, told, _⟩ := opens.directory
  have short := Disk.length_of_told tidy opens.reached.2 told
  omega

namespace Carries

variable {d : Disk} {root : Path} {tree : Node}

theorem lists (carries : d.Carries root tree) (policy : Policy) : (d.site policy root).Lists :=
  site_lists carries.tidy policy root

theorem shallow (carries : d.Carries root tree) (policy : Policy) :
    (d.site policy root).Shallow (maxPathLength + 2) :=
  site_shallow carries.tidy policy root

/-- Whatever the disk tells of in a directory of the tree is in the tree. -/
theorem found_of_told (carries : d.Carries root tree) {names : List Name} {time : Int}
    {es : List (Name × Node)} (above : tree.get? names = some (.directory time es)) {p : Path}
    (plain : p.Plain) (parent : p.parent = some (root.descend names)) {st : Status}
    (told : (World.ofDisk d).entry p = .ok st) :
    ∃ n node, p = root.descend (names ++ [n]) ∧ tree.get? (names ++ [n]) = some node := by
  obtain ⟨n, own, rfl⟩ := plain.of_parent parent
  cases entry : es.lookup n with
  | some node =>
    exact ⟨n, node, (Path.descend_append root names [n]).symm, Node.get?_of_lookup above entry⟩
  | none =>
    obtain ⟨cause, failed, _⟩ := carries.node_absent above entry own
    rw [Path.descend_append] at failed
    simp [World.ofDisk, Disk.statEntry, failed, bind, Except.bind] at told

/-- On the tree, the whole disk wants what the tree wants. -/
theorem wants_iff_tree (carries : d.Carries root tree) (policy : Policy) {p : Path} {st : Status} :
    (d.site policy root).Wants p st ↔ ((World.ofDisk d).siteOf policy root tree).Wants p st := by
  constructor
  · intro wants
    induction wants with
    | root _ told kind takes =>
      exact .root ⟨[], tree, (Path.descend_nil root).symm, rfl⟩ told kind takes
    | @entry dir p sd st reached parent above kind told known takes ih =>
      obtain ⟨names, time, es, rfl, found⟩ :=
        carries.shows.directory_of_told policy ih.reaches.reached ih.told kind
      obtain ⟨n, node, rfl, below⟩ := carries.found_of_told found reached.2 parent told
      exact .entry ⟨_, node, rfl, below⟩ parent ih kind told known takes
  · intro wants
    induction wants with
    | root _ told kind takes => exact .root ⟨.refl root, carries.plain⟩ told kind takes
    | entry reached parent above kind told known takes ih =>
      obtain ⟨names, node, rfl, found⟩ := reached
      refine .entry ⟨Path.covers_descend root names, ?_⟩ parent ih kind told known takes
      exact carries.plain.descend (carries.tidy_below found).2

theorem wants_iff (carries : d.Carries root tree) {policy : Policy} {p : Path} {st : Status} :
    (d.site policy root).Wants p st ↔ policy.isDenied root = false ∧
      ∃ names node, p = root.descend names ∧ st = node.status ∧
        tree.Indexed policy root names node :=
  (carries.wants_iff_tree policy).trans (carries.shows.wants_iff carries.directory)

/-- A directory that the index should know is one of the tree. -/
theorem directory_of_wanted (carries : d.Carries root tree) {policy : Policy} {p : Path}
    (wanted : (d.site policy root).WantsDirectory p) :
    ∃ names time es, p = root.descend names ∧ tree.get? names = some (.directory time es) := by
  obtain ⟨st, wants, kind⟩ := wanted
  have onTree := (carries.wants_iff_tree policy).1 wants
  exact carries.shows.directory_of_told policy onTree.reaches.reached onTree.told kind

theorem faithful (carries : d.Carries root tree) (policy : Policy) :
    (d.site policy root).Faithful := by
  have onTree := carries.shows.faithful policy carries.directory
  refine ⟨onTree.root, fun p wanted => ?_, fun p cs wanted told c reached parent => ?_,
    fun f st wants => onTree.contents f st ((carries.wants_iff_tree policy).1 wants)⟩
  · obtain ⟨names, time, es, rfl, found⟩ := carries.directory_of_wanted wanted
    obtain ⟨cs, told, _⟩ := carries.shows.children names time es found
    exact ⟨cs, told⟩
  · obtain ⟨names, time, es, rfl, found⟩ := carries.directory_of_wanted wanted
    rw [(carries.shows.mem_children found told).2]
    constructor
    · rintro ⟨n, node, rfl, below⟩
      exact ⟨_, carries.shows.entry _ node below⟩
    · rintro ⟨st, here⟩
      obtain ⟨n, node, rfl, below⟩ := carries.found_of_told found reached.2 parent here
      exact ⟨n, node, rfl, below⟩

/-- A path of the tree that crawls come to is the root, or in a directory of the tree. -/
theorem place_of_reaches (carries : d.Carries root tree) {policy : Policy} {names : List Name}
    (reaches : (d.site policy root).Reaches (root.descend names)) :
    names = [] ∨ ∃ init n time es, names = init ++ [n] ∧
      tree.get? init = some (.directory time es) := by
  by_cases top : names = []
  · exact Or.inl top
  · right
    rcases reaches.hooked with same | ⟨p, parent, wanted⟩
    · exact absurd (Path.descend_injective (same.trans (Path.descend_nil root).symm)) top
    · obtain ⟨init, n, rfl, rfl⟩ := Path.eq_descend_of_parent top parent
      obtain ⟨names, time, es, same, found⟩ := carries.directory_of_wanted wanted
      cases Path.descend_injective same
      exact ⟨init, n, time, es, rfl, found⟩

/-- What the disk tells of a path that crawls come to is in the tree. -/
theorem found_of_reaches (carries : d.Carries root tree) {policy : Policy} {names : List Name}
    (reaches : (d.site policy root).Reaches (root.descend names)) {st : Status}
    (told : (World.ofDisk d).entry (root.descend names) = .ok st) :
    ∃ node, tree.get? names = some node ∧ st = node.status := by
  obtain ⟨node, found⟩ : ∃ node, tree.get? names = some node := by
    rcases carries.place_of_reaches reaches with rfl | ⟨init, n, time, es, rfl, above⟩
    · exact ⟨tree, rfl⟩
    · obtain ⟨m, node, same, found⟩ := carries.found_of_told above reaches.reached.2
        (Path.parent_descend root init n) told
      exact ⟨node, (Path.descend_injective same).symm ▸ found⟩
  exact ⟨node, found, Except.ok.inj (told.symm.trans (carries.shows.entry names node found))⟩

/-- Of a path that crawls come to and that the system takes, the disk says plainly that it is
gone. -/
theorem gone_of_reaches (carries : d.Carries root tree) {policy : Policy} {names : List Name}
    (reaches : (d.site policy root).Reaches (root.descend names))
    (legal : ∀ n ∈ names, n.isLegal = true)
    (room : (root.descend names).spelling.bytes.length ≤ maxPathLength) {cause : DiskError}
    (told : (World.ofDisk d).entry (root.descend names) = .error cause) :
    cause.isNotFound = true := by
  rcases carries.place_of_reaches reaches with rfl | ⟨init, n, time, es, rfl, above⟩
  · cases told.symm.trans (carries.shows.entry [] tree rfl)
  · cases entry : es.lookup n with
    | some node =>
      cases told.symm.trans (carries.shows.entry _ node (Node.get?_of_lookup above entry))
    | none =>
      have own := legal n (by simp)
      obtain ⟨cause', failed, gone⟩ :=
        carries.node_absent above entry (Name.plain_of_isLegal own)
      obtain rfl := gone own room
      simp only [World.ofDisk, Disk.statEntry, failed, bind, Except.bind] at told
      cases told
      rfl

end Carries

end Disk

/-- Between the two trees no entry that keeps its kind and its time changes its size. -/
def Node.Dated (old new : Node) : Prop :=
  ∀ names before after, old.get? names = some before → new.get? names = some after →
    before.status.kind = after.status.kind → before.status.mtime = after.status.mtime →
    before.status.size = after.status.size

/-- The two trees have different entries at these names, or only one of them has an entry there. -/
def Node.Differs (old new : Node) (names : List Name) : Prop :=
  (old.get? names).map Node.status ≠ (new.get? names).map Node.status

instance (old new : Node) (names : List Name) : Decidable (old.Differs new names) :=
  inferInstanceAs (Decidable (_ ≠ _))

/-- What is asked of the entries of two trees can be read off their listings. -/
theorem Node.dated_of_listing {old new : Node}
    (listed : ∀ e ∈ old.listing [], ∀ e' ∈ new.listing [], e.1 = e'.1 → e.2.kind = e'.2.kind →
      e.2.mtime = e'.2.mtime → e.2.size = e'.2.size) : old.Dated new :=
  fun _ _ _ before after => listed _ (mem_listing before []) _ (mem_listing after []) rfl

theorem Node.Differs.of_listing {old new : Node} {P : List Name → Prop}
    (listed : ∀ e ∈ old.listing [] ++ new.listing [], old.Differs new e.1 → P e.1)
    {names : List Name} (differs : old.Differs new names) : P names := by
  cases before : old.get? names with
  | some node => exact listed _ (List.mem_append_left _ (mem_listing before [])) differs
  | none =>
    cases after : new.get? names with
    | some node => exact listed _ (List.mem_append_right _ (mem_listing after [])) differs
    | none => exact absurd (by rw [before, after]) differs

section

variable {policy : Policy} {root : Path} {old new : Node} {d₁ d₂ : Disk}

private theorem Status.eq_of_fields {st st' : Status} (kind : st.kind = st'.kind)
    (size : st.size = st'.size) (mtime : st.mtime = st'.mtime) : st = st' := by
  cases st
  cases st'
  cases kind
  cases size
  cases mtime
  rfl

/-- Where two trees do not differ, they have the same entries for an index. -/
theorem Node.Indexed.of_same {names : List Name} {node : Node}
    (indexed : old.Indexed policy root names node) (same : ¬ old.Differs new names) :
    ∃ node', new.Indexed policy root names node' ∧ node'.status = node.status := by
  have equal : (old.get? names).map Node.status = (new.get? names).map Node.status :=
    not_not.1 same
  rw [indexed.found] at equal
  obtain ⟨node', found, status⟩ := Option.map_eq_some_iff.1 equal.symm
  exact ⟨node', ⟨found, indexed.allowed, status ▸ indexed.kind, status ▸ indexed.taken⟩, status⟩

/-- What only one of two disks wants differs between them. -/
theorem Disk.Carries.differs_of_wants (before : d₁.Carries root old) (after : d₂.Carries root new)
    {p : Path} {st : Status}
    (wants : ¬ ((d₁.site policy root).Wants p st ↔ (d₂.site policy root).Wants p st)) :
    ∃ names, p = root.descend names ∧ old.Differs new names := by
  by_contra none
  have same : ∀ names, p = root.descend names → ¬ old.Differs new names :=
    fun names place differs => none ⟨names, place, differs⟩
  refine wants ?_
  rw [before.wants_iff, after.wants_iff]
  refine and_congr_right fun _ => ⟨?_, ?_⟩
  · rintro ⟨names, node, rfl, rfl, indexed⟩
    obtain ⟨node', indexed', status⟩ := indexed.of_same (same names rfl)
    exact ⟨names, node', rfl, status.symm, indexed'⟩
  · rintro ⟨names, node, rfl, rfl, indexed⟩
    have equal : ¬ new.Differs old names := fun differs => same names rfl (Ne.symm differs)
    obtain ⟨node', indexed', status⟩ := indexed.of_same equal
    exact ⟨names, node', rfl, status.symm, indexed'⟩

/-- What a new disk should be compared with: all that an index of the old one says. -/
theorem Disk.Carries.succeeds (before : d₁.Carries root old) (after : d₂.Carries root new)
    (dated : old.Dated new) :
    Crawl.Succeeds (d₂.site policy root) (d₁.site policy root).Wants where
  noticed p st st' reaches wants told kind mtime := by
    obtain ⟨_, names, node, rfl, rfl, indexed⟩ := before.wants_iff.1 wants
    obtain ⟨node', found, rfl⟩ := after.found_of_reaches reaches told
    have size := dated names node node' indexed.found found kind mtime
    exact Status.eq_of_fields kind size mtime
  gone p st cause reaches wants told := by
    obtain ⟨_, names, node, rfl, rfl, indexed⟩ := before.wants_iff.1 wants
    exact after.gone_of_reaches reaches (before.tidy_below indexed.found).2
      (before.room names node indexed.found) told

end

namespace Watch

open Crawl (Agrees)

section

variable {policy : Policy} {root : Path} {tree old new : Node} {d d₁ d₂ : Disk} {h h' : Host}
  {reply : Reply}

theorem accepts_site (carries : d.Carries root tree) :
    (d.site policy root).Accepts tree.status := by
  have onTree := carries.shows.entry [] tree rfl
  obtain ⟨st, told, kind⟩ := (carries.faithful policy).root
  rw [Path.descend_nil] at onTree
  cases told.symm.trans onTree
  exact ⟨⟨.refl root, carries.plain⟩, onTree, kind, carries.stat_root, rfl⟩

/-- After a watch on a disk the root is served, and all that is owed is what differs on the new
disk. -/
theorem serves_of_watch (before : d₁.Carries root old) (after : d₂.Carries root new)
    (fresh : h.Fresh policy.layout.manifestName)
    (completes : Completes policy (.ofDisk d₁) (h.watch root) h' reply) :
    Serves (d₂.site policy root) (d₁.site policy root).Wants
      (fun p => ∃ names, p = root.descend names ∧ old.Differs new names) h' := by
  obtain ⟨_, generation, sound, agrees, _⟩ := watch_result fresh (accepts_site before)
    (before.lists policy) (before.faithful policy) completes
  refine ⟨generation, sound, fun p st found => ?_, fun st wants => ?_, fun q outdated => ?_⟩
  · have wants := (agrees p st).1 found
    exact ⟨Or.inl wants, wants.takes, wants.reaches.reached⟩
  · obtain ⟨st', told, kind⟩ := (before.faithful policy).root
    have wants' : (d₁.site policy root).Wants root st' :=
      .root ⟨.refl root, before.plain⟩ told kind wants.root_taken
    exact Index.known_iff.2 ⟨st', (agrees root st').2 wants'⟩
  · by_contra same
    refine outdated.1 fun st => (agrees q st).trans ?_
    by_contra differs
    exact same (before.differs_of_wants after differs)

end

/-- However the refreshes of the paths that differ between two disks are ordered and scheduled, and
whatever is refreshed besides, they end and lead to the tables of a fresh watch on the new disk. -/
theorem refreshes_converge (policy : Policy) (d₁ d₂ : Disk) (root : Path) (old new : Node)
    (before : d₁.Carries root old) (after : d₂.Carries root new) (dated : old.Dated new)
    (spellings : List Spelling)
    (listed : ∀ names, old.Differs new names → root.descend names ∈ spellings.map .ofSpelling)
    (h₁ h₂ : Host) (fresh₁ : h₁.Fresh policy.layout.manifestName)
    (fresh₂ : h₂.Fresh policy.layout.manifestName) :
    Halts policy (.ofDisk d₁) (h₁.watch root) ∧ Halts policy (.ofDisk d₂) (h₂.watch root) ∧
      ∀ h reply, Completes policy (.ofDisk d₁) (h₁.watch root) h reply →
        EachHalts policy (.ofDisk d₂) h (spellings.map .ofSpelling) ∧
        ∀ h' h'' reply', Refreshed policy (.ofDisk d₂) h (spellings.map .ofSpelling) h' →
          Completes policy (.ofDisk d₂) (h₂.watch root) h'' reply' →
          h'.store.index.files = h''.store.index.files ∧
            h'.store.index.directories = h''.store.index.directories ∧
            h'.store.index.listings = h''.store.index.listings := by
  have lists := after.lists policy
  have faithful := after.faithful policy
  have succeeds := @Disk.Carries.succeeds policy root old new d₁ d₂ before after dated
  have plain : ∀ p ∈ spellings.map Path.ofSpelling, root.Covers p →
      (d₂.site policy root).region p := by
    intro p member covers
    obtain ⟨s, _, rfl⟩ := List.mem_map.1 member
    exact ⟨covers, after.plain.of_covers covers⟩
  refine ⟨watch_halts fresh₁ (accepts_site before) (before.lists policy) (before.shallow policy),
    watch_halts fresh₂ (accepts_site after) lists (after.shallow policy),
    fun h reply completes => ?_⟩
  have serves := serves_of_watch before after fresh₁ completes
  refine ⟨serves.each_halts lists (after.shallow policy) faithful succeeds plain, ?_⟩
  intro h' h'' reply' refreshed completes'
  have now := serves.all_refreshed lists faithful succeeds plain refreshed
  have agrees := now.settled fun q ⟨⟨names, place, differs⟩, left⟩ =>
    left (place ▸ listed names differs)
  obtain ⟨_, _, sound, agrees', _⟩ :=
    watch_result fresh₂ (accepts_site after) lists faithful completes'
  refine now.sound.tables_eq sound fun p => Option.ext fun st => ?_
  exact (agrees p st).trans (agrees' p st).symm

/-- A package in which a directory turns into a link to a like directory, a file grows and a
directory comes, refreshed from below and with some paths that do not matter. -/
theorem refreshes_converge_relinked :
    let old : Node := .directory 0
      [(.ofString "a", .directory 0 [(.ofString "x.js", .file 0 [])]),
        (.ofString "b.js", .file 0 [])]
    let new : Node := .directory 0
      [(.ofString "a", .link 0 (Utf8.encode "/q")), (.ofString "b.js", .file 1000000 [0x3B]),
        (.ofString "c", .directory 0 [(.ofString "y.ts", .file 0 [])])]
    let disk (package : Node) : Disk :=
      { root := .directory 0 [(.ofString "p", package),
          (.ofString "q", .directory 0 [(.ofString "x.js", .file 0 [])])] }
    let root : Path := Path.root.descend [.ofString "p"]
    let spellings :=
      ["/p/a/x.js", "/p/c/y.ts", "/q", "/p/a", "/p/b.js", "/p/c", "/p/a/x.js"].map Spelling.ofString
    let h₀ : Host := ⟨.empty (.ofString "package.json") .recursive, {}⟩
    ∃ h reply h' h'' reply',
      Completes (.ofSettings {}) (.ofDisk (disk old)) (h₀.watch root) h reply ∧
      Refreshed (.ofSettings {}) (.ofDisk (disk new)) h (spellings.map .ofSpelling) h' ∧
      Completes (.ofSettings {}) (.ofDisk (disk new)) (h₀.watch root) h'' reply' ∧
      h'.store.index.files = h''.store.index.files ∧
      h'.store.index.directories = h''.store.index.directories ∧
      h'.store.index.listings = h''.store.index.listings := by
  intro old new disk root spellings h₀
  have before : (disk old).Carries root old :=
    .of_listing (by decide +kernel) (by decide +kernel) rfl rfl (by decide +kernel)
  have after : (disk new).Carries root new :=
    .of_listing (by decide +kernel) (by decide +kernel) rfl rfl (by decide +kernel)
  have dated : old.Dated new := Node.dated_of_listing (by decide +kernel)
  have fresh : h₀.Fresh (Policy.ofSettings {}).layout.manifestName := ⟨rfl, rfl, rfl⟩
  have listed : ∀ names, old.Differs new names → root.descend names ∈ spellings.map .ofSpelling :=
    fun _ => Node.Differs.of_listing
      (P := fun names => root.descend names ∈ spellings.map .ofSpelling) (by decide +kernel)
  obtain ⟨halts, halts', result⟩ := refreshes_converge (.ofSettings {}) (disk old) (disk new) root
    old new before after dated spellings listed h₀ h₀ fresh fresh
  obtain ⟨n, h, reply, ends⟩ := halts fun _ => []
  obtain ⟨n', h'', reply', ends'⟩ := halts' fun _ => []
  obtain ⟨each, same⟩ := result h reply ⟨_, n, ends⟩
  obtain ⟨h', refreshed⟩ := each.refreshed
  exact ⟨h, reply, h', h'', reply', ⟨_, n, ends⟩, refreshed, ⟨_, n', ends'⟩,
    same h' h'' reply' refreshed ⟨_, n', ends'⟩⟩

end Watch

end ProjectIndex
