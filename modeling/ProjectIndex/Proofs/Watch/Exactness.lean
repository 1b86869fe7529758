import ProjectIndex.Proofs.Disk.Walk
import ProjectIndex.Proofs.Watch.Alone

/-!
# What a watch leaves in the index

A watch on a fresh host reads a tree that does not change.  Whatever the order is in which the
entries of each directory are crawled, it ends, and the index then describes the tree: the
directories that are reached through names that are not left out, the files in them that are taken
in, who lists whom, and the manifests that these files hold.
-/

namespace ProjectIndex

/-- Entries of this name are left out. -/
def Policy.denies (policy : Policy) (n : Name) : Bool :=
  Utf8.isValid n && policy.denylist.contains n

theorem Policy.isDenied_descend (policy : Policy) (p : Path) (names : List Name) (n : Name) :
    policy.isDenied (p.descend (names ++ [n])) = policy.denies n := by
  have named : (p.descend (names ++ [n])).name? = some n := by
    rw [Path.name?_eq_some_iff]
    simp [Path.descend]
  unfold Policy.isDenied Policy.denies Path.basename
  rw [named]
  cases valid : Utf8.isValid n <;> simp [Option.filter, valid]

/-- The site of a tree that a world shows. -/
def World.siteOf (world : World) (policy : Policy) (root : Path) (tree : Node) : Site where
  policy
  world
  root
  region p := ∃ names node, p = root.descend names ∧ tree.get? names = some node

namespace World.Shows

variable {world : World} {root : Path} {tree : Node}

/-- Which entries a directory of the tree has. -/
theorem mem_children (shows : world.Shows root tree) {names : List Name} {time : Int}
    {es : List (Name × Node)} (reached : tree.get? names = some (.directory time es))
    {cs : List Path} (told : world.children (root.descend names) = .ok cs) :
    cs.Nodup ∧ ∀ c, c ∈ cs ↔ ∃ n node, c = root.descend (names ++ [n]) ∧
      tree.get? (names ++ [n]) = some node := by
  obtain ⟨cs', told', listed⟩ := shows.children names time es reached
  cases told.symm.trans told'
  constructor
  · rw [listed.nodup_iff]
    have inner : (fun e : Name × Node => root.descend (names ++ [e.1])) =
        (fun n => root.descend (names ++ [n])) ∘ (·.1) := rfl
    rw [inner, ← List.map_map]
    refine (shows.distinct names time es reached).map fun a b same => ?_
    simpa using Path.descend_injective same
  · intro c
    rw [listed.mem_iff, List.mem_map]
    constructor
    · rintro ⟨⟨n, node⟩, member, rfl⟩
      have present : (es.lookup n).isSome := List.lookup_isSome_iff.2 ⟨(n, node), member, by simp⟩
      obtain ⟨node', entry⟩ := Option.isSome_iff_exists.1 present
      exact ⟨n, node', rfl, Node.get?_of_lookup reached entry⟩
    · rintro ⟨n, node, rfl, found⟩
      obtain ⟨time', es', reached', entry⟩ := Node.get?_entry found
      cases reached.symm.trans reached'
      exact ⟨(n, node), Node.mem_of_lookup entry, rfl⟩

variable (policy : Policy)

/-- A directory that the disk tells of is a directory of the tree. -/
theorem directory_of_told (shows : world.Shows root tree) {p : Path} {st : Status}
    (reached : (world.siteOf policy root tree).region p) (told : world.entry p = .ok st)
    (kind : st.kind = .directory) :
    ∃ names time es, p = root.descend names ∧ tree.get? names = some (.directory time es) := by
  obtain ⟨names, node, rfl, found⟩ := reached
  cases told.symm.trans (shows.entry names node found)
  cases node with
  | directory time es => exact ⟨names, time, es, rfl, found⟩
  | _ => simp [Node.status] at kind

theorem lists (shows : world.Shows root tree) : (world.siteOf policy root tree).Lists where
  below p reached := by
    obtain ⟨names, _, rfl, _⟩ := reached
    exact Path.covers_descend root names
  entries d cs opens told := by
    obtain ⟨st, entry, kind⟩ := opens.directory
    obtain ⟨names, time, es, rfl, found⟩ := shows.directory_of_told policy opens.reached entry kind
    obtain ⟨distinct, members⟩ := shows.mem_children found told
    refine ⟨distinct, fun c member => ?_⟩
    obtain ⟨n, node, rfl, below⟩ := (members c).1 member
    exact ⟨Path.parent_descend root names n, names ++ [n], node, rfl, below⟩

theorem faithful (shows : world.Shows root tree) (directory : tree.isDirectory = true) :
    (world.siteOf policy root tree).Faithful where
  root := by
    have told : world.entry root = .ok tree.status := by simpa using shows.entry [] tree rfl
    exact ⟨tree.status, told, Node.kind_of_isDirectory directory⟩
  listed d wanted := by
    obtain ⟨st, wants, kind⟩ := wanted
    obtain ⟨names, time, es, rfl, found⟩ :=
      shows.directory_of_told policy wants.reaches.reached wants.told kind
    obtain ⟨cs, told, _⟩ := shows.children names time es found
    exact ⟨cs, told⟩
  entries d cs wanted told c reached parent := by
    obtain ⟨st, wants, kind⟩ := wanted
    obtain ⟨names, time, es, rfl, found⟩ :=
      shows.directory_of_told policy wants.reaches.reached wants.told kind
    obtain ⟨names', node, rfl, below⟩ := reached
    rw [(shows.mem_children found told).2]
    refine ⟨fun _ => ⟨_, shows.entry names' node below⟩, fun _ => ?_⟩
    obtain ⟨n, rfl⟩ := Path.eq_append_of_parent parent
    exact ⟨n, node, rfl, below⟩
  contents f st wants kind := by
    obtain ⟨names, node, rfl, found⟩ := wants.reaches.reached
    cases wants.told.symm.trans (shows.entry names node found)
    cases node with
    | file time bytes => exact ⟨bytes, shows.contents names time bytes found⟩
    | _ => simp [Node.status] at kind

theorem shallow :
    (world.siteOf policy root tree).Shallow (root.components.length + sizeOf tree + 1) := by
  intro d opens
  obtain ⟨names, node, rfl, found⟩ := opens.reached
  have below := Node.length_le_sizeOf found
  simp only [Path.descend, List.length_append, List.length_map]
  omega

end World.Shows

/-- An entry of the tree that belongs in the index: no name on the way to it is left out, and a file
is one that is always taken or has a recognised extension. -/
structure Node.Indexed (tree : Node) (policy : Policy) (root : Path) (names : List Name)
    (node : Node) : Prop where
  found : tree.get? names = some node
  allowed : ∀ n ∈ names, policy.denies n = false
  kind : node.status.kind ≠ .unknown
  taken : node.status.kind = .file → policy.alwaysTakes (root.descend names) = true ∨
    Policy.recognises policy.extensions (root.descend names) = true

/-- What is taken in, by the rules about names and about files. -/
theorem Policy.ignores_eq_false {policy : Policy} {p : Path} {kind : Kind} :
    policy.ignores p kind = false ↔ policy.isDenied p = false ∧
      (kind = .file → policy.alwaysTakes p = true ∨
        Policy.recognises policy.extensions p = true) := by
  unfold Policy.ignores
  cases policy.isDenied p <;> cases policy.alwaysTakes p <;> cases kind <;> simp

namespace World.Shows

variable {world : World} {root : Path} {tree : Node} {policy : Policy}

/-- What the index of a tree should know is an entry that belongs in it. -/
theorem indexed_of_wants (shows : world.Shows root tree) {p : Path} {st : Status}
    (wants : (world.siteOf policy root tree).Wants p st) : policy.isDenied root = false ∧
      ∃ names node, p = root.descend names ∧ st = node.status ∧
        tree.Indexed policy root names node := by
  induction wants with
  | @root st _ told kind takes =>
    have shown : world.entry root = .ok tree.status := by simpa using shows.entry [] tree rfl
    have same : st = tree.status := Except.ok.inj (told.symm.trans shown)
    have allowed := (Policy.ignores_eq_false.1 takes).1
    refine ⟨allowed, [], tree, (Path.descend_nil root).symm, same, rfl, by simp, ?_, ?_⟩
    · simp [← same, kind]
    · simp [← same, kind]
  | @entry d p sd st reached parent above kind told known takes ih =>
    obtain ⟨allowed, names, node, rfl, _, indexed⟩ := ih
    obtain ⟨names', node', rfl, found⟩ := reached
    obtain ⟨n, rfl⟩ := Path.eq_append_of_parent parent
    have status : st = node'.status := Except.ok.inj (told.symm.trans (shows.entry _ node' found))
    obtain ⟨named, taken⟩ := Policy.ignores_eq_false.1 takes
    refine ⟨allowed, names ++ [n], node', rfl, status, found, fun m member => ?_, status ▸ known,
      status ▸ taken⟩
    rcases List.mem_append.1 member with inside | last
    · exact indexed.allowed m inside
    · rw [List.mem_singleton.1 last, ← policy.isDenied_descend root names n]
      exact named

/-- An entry that belongs in the index of a tree should be known, name by name from the root on. -/
theorem wants_of_indexed (shows : world.Shows root tree) (directory : tree.isDirectory = true)
    (allowed : policy.isDenied root = false) {names : List Name} {node : Node}
    (indexed : tree.Indexed policy root names node) :
    (world.siteOf policy root tree).Wants (root.descend names) node.status := by
  induction names using List.reverseRecOn generalizing node with
  | nil =>
    cases indexed.found
    have shown : world.entry root = .ok tree.status := by simpa using shows.entry [] tree rfl
    rw [Path.descend_nil]
    refine .root ⟨[], tree, (Path.descend_nil root).symm, rfl⟩ shown
      (Node.kind_of_isDirectory directory) ?_
    exact Policy.ignores_eq_false.2 ⟨allowed, fun file => by cases file⟩
  | append_singleton init n ih =>
    obtain ⟨time, es, above, entry⟩ := Node.get?_entry indexed.found
    have parent : (world.siteOf policy root tree).Wants (root.descend init)
        (Node.directory time es).status :=
      ih ⟨above, fun m member => indexed.allowed m (by simp [member]), by simp [Node.status],
        by simp [Node.status]⟩
    refine .entry ⟨_, node, rfl, indexed.found⟩ (Path.parent_descend root init n) parent rfl
      (shows.entry _ node indexed.found) indexed.kind ?_
    refine Policy.ignores_eq_false.2 ⟨?_, indexed.taken⟩
    exact (policy.isDenied_descend root init n).trans (indexed.allowed n (by simp))

/-- The index of a tree should know the entries of the tree that belong in it, if the root itself
is not left out. -/
theorem wants_iff (shows : world.Shows root tree) (directory : tree.isDirectory = true) {p : Path}
    {st : Status} :
    (world.siteOf policy root tree).Wants p st ↔ policy.isDenied root = false ∧
      ∃ names node, p = root.descend names ∧ st = node.status ∧
        tree.Indexed policy root names node := by
  refine ⟨shows.indexed_of_wants, ?_⟩
  rintro ⟨allowed, names, node, rfl, rfl, indexed⟩
  exact shows.wants_of_indexed directory allowed indexed

end World.Shows

/-- The index describes the tree at its root. -/
structure Index.Describes (ix : Index) (policy : Policy) (root : Path) (tree : Node) : Prop where
  /-- The directories are those to which no name on the way is left out. -/
  directories : ∀ (d : Path) (st : Status), ix.directories[d]? = some st ↔
    ∃ names time es, d = root.descend names ∧ tree.get? names = some (.directory time es) ∧
      (∀ n ∈ names, policy.denies n = false) ∧ st = (Node.directory time es).status
  /-- The files are the regular files in them that are not left out, and are always taken or have a
  recognised extension. -/
  files : ∀ (f : Path) (st : Status), ix.files[f]? = some st ↔
    ∃ names time bytes, f = root.descend names ∧ tree.get? names = some (.file time bytes) ∧
      (∀ n ∈ names, policy.denies n = false) ∧
      (policy.alwaysTakes f = true ∨ Policy.recognises policy.extensions f = true) ∧
      st = (Node.file time bytes).status
  /-- Each directory lists what is known in it, and the parent of the root lists the root. -/
  listings : ∀ d c : Path, (∃ listing, ix.listings[d]? = some listing ∧ c ∈ listing) ↔
    c.parent = some d ∧ (c ∈ ix.directories ∨ c ∈ ix.files)
  listed : ∀ d, d ∈ ix.listings ↔ d ∈ ix.directories ∨ root.parent = some d
  /-- What is installed for a directory comes from the manifest in it. -/
  installed : ∀ (d : Path) (D : Definition), ix.manifests[d]? = some D →
    D.directory = d ∧ D.path = d.descend [policy.layout.manifestName]
  /-- Something is installed exactly where the manifest in a directory is a known file that counts
  and holds a valid manifest, and it is this manifest. -/
  manifests : ∀ (d : Path) (m : Manifest) (hash : String),
    (∃ id, ix.manifests[d]? = some ⟨id, d.descend [policy.layout.manifestName], d, m, hash⟩) ↔
      ∃ names time bytes, d = root.descend names ∧
        tree.get? (names ++ [policy.layout.manifestName]) = some (.file time bytes) ∧
        (∀ n ∈ names ++ [policy.layout.manifestName], policy.denies n = false) ∧
        policy.layout.isOfInterest (d.descend [policy.layout.manifestName]) = true ∧
        policy.manifestIn (d.descend [policy.layout.manifestName]) bytes = some m ∧
        hash = Sha256.hex bytes

namespace World.Shows

open Crawl (Agrees Undeclared mistakes)

variable {world : World} {root : Path} {tree : Node} {policy : Policy} {ix : Index}

theorem status_iff (shows : world.Shows root tree) (directory : tree.isDirectory = true)
    (allowed : policy.isDenied root = false)
    (agrees : ∀ p, Agrees (world.siteOf policy root tree) ix p) {p : Path} {st : Status} :
    ix.status? p = some st ↔ ∃ names node, p = root.descend names ∧ st = node.status ∧
      tree.Indexed policy root names node := by
  rw [agrees p st, shows.wants_iff directory]
  exact and_iff_right allowed

/-- An index that says of every path of the tree what it should describes the tree, as far as
directories, files and listings go. -/
theorem tables (shows : world.Shows root tree) (directory : tree.isDirectory = true)
    (allowed : policy.isDenied root = false) (sound : ix.Sound root)
    (agrees : ∀ p, Agrees (world.siteOf policy root tree) ix p) :
    (∀ (d : Path) (st : Status), ix.directories[d]? = some st ↔
      ∃ names time es, d = root.descend names ∧ tree.get? names = some (.directory time es) ∧
        (∀ n ∈ names, policy.denies n = false) ∧ st = (Node.directory time es).status) ∧
    (∀ (f : Path) (st : Status), ix.files[f]? = some st ↔
      ∃ names time bytes, f = root.descend names ∧ tree.get? names = some (.file time bytes) ∧
        (∀ n ∈ names, policy.denies n = false) ∧
        (policy.alwaysTakes f = true ∨ Policy.recognises policy.extensions f = true) ∧
        st = (Node.file time bytes).status) := by
  have status := fun p st => @status_iff world root tree policy ix shows directory allowed agrees p st
  constructor
  · intro d st
    rw [sound.directory_iff, status]
    constructor
    · rintro ⟨⟨names, node, rfl, rfl, indexed⟩, kind⟩
      cases node with
      | directory time es => exact ⟨names, time, es, rfl, indexed.found, indexed.allowed, rfl⟩
      | _ => simp [Node.status] at kind
    · rintro ⟨names, time, es, rfl, found, names_allowed, rfl⟩
      refine ⟨⟨names, _, rfl, rfl, found, names_allowed, ?_, ?_⟩, rfl⟩ <;> simp [Node.status]
  · intro f st
    rw [sound.file_iff, status]
    constructor
    · rintro ⟨⟨names, node, rfl, rfl, indexed⟩, kind⟩
      cases node with
      | file time bytes =>
        exact ⟨names, time, bytes, rfl, indexed.found, indexed.allowed, indexed.taken rfl, rfl⟩
      | _ => simp [Node.status] at kind
    · rintro ⟨names, time, bytes, rfl, found, names_allowed, taken, rfl⟩
      exact ⟨⟨names, _, rfl, rfl, found, names_allowed, by simp [Node.status], fun _ => taken⟩, rfl⟩

/-- The parent of the root is listed although nobody knows it. -/
theorem listings (sound : ix.Sound root) (known : root ∈ ix.directories) (d : Path) :
    (∀ c : Path, (∃ listing, ix.listings[d]? = some listing ∧ c ∈ listing) ↔
      c.parent = some d ∧ (c ∈ ix.directories ∨ c ∈ ix.files)) ∧
    (d ∈ ix.listings ↔ d ∈ ix.directories ∨ root.parent = some d) := by
  constructor
  · intro c
    rw [← Index.mem_children, sound.entries]
    exact and_congr_right fun _ => or_comm
  · rw [sound.listed]
    constructor
    · rintro (directory | ⟨c, entry⟩)
      · exact Or.inl directory
      · obtain ⟨parent, member⟩ := (sound.entries d c).1 entry
        rcases sound.parents c member with rfl | ⟨d', parent', directory⟩
        · exact Or.inr parent
        · cases parent.symm.trans parent'
          exact Or.inl directory
    · rintro (directory | parent)
      · exact Or.inl directory
      · exact Or.inr ⟨root, (sound.entries d root).2 ⟨parent, Or.inr known⟩⟩

/-- A known file that can be a manifest is one of the tree. -/
theorem manifest_file (directory : tree.isDirectory = true) {d : Path} {n : Name}
    (file : ∃ names time bytes, d.descend [n] = root.descend names ∧
      tree.get? names = some (.file time bytes) ∧ ∀ n ∈ names, policy.denies n = false) :
    ∃ names time bytes, d = root.descend names ∧
      tree.get? (names ++ [n]) = some (.file time bytes) ∧
      ∀ m ∈ names ++ [n], policy.denies m = false := by
  obtain ⟨names, time, bytes, same, found, allowed⟩ := file
  have longer : names ≠ [] := by
    rintro rfl
    cases found
    simp [Node.isDirectory] at directory
  have parent : (root.descend names).parent = some d := by
    rw [← same, ← List.nil_append [n], Path.parent_descend, Path.descend_nil]
  obtain ⟨init, n', rfl, rfl⟩ := Path.eq_descend_of_parent longer parent
  rw [← Path.descend_append] at same
  obtain rfl : n = n' := by simpa using Path.descend_injective same
  exact ⟨init, time, bytes, rfl, found, allowed⟩

/-- What a definition says about its place follows from what it holds. -/
theorem installed_path {site : Site} (honest : ∀ d, ¬ (mistakes site).due ix d)
    (complete : ∀ f, ¬ Undeclared site ix f) {d : Path} {D : Definition}
    (found : ix.manifests[d]? = some D) :
    D.directory = d ∧ D.path = d.descend [site.policy.layout.manifestName] := by
  obtain ⟨own, holds, _⟩ := (Crawl.manifests_of_settled honest complete).1 d D found
  refine ⟨own, ?_⟩
  have components := Layout.components_of_isOfInterest holds.interest (own ▸ holds.inside)
  cases path : D.path with
  | mk cs =>
    rw [path] at components
    exact congrArg Path.mk components

/-- What is installed comes from a file of the tree. -/
theorem manifest_of_installed (shows : world.Shows root tree) (directory : tree.isDirectory = true)
    (allowed : policy.isDenied root = false) (sound : ix.Sound root)
    (agrees : ∀ p, Agrees (world.siteOf policy root tree) ix p)
    (honest : ∀ d, ¬ (mistakes (world.siteOf policy root tree)).due ix d)
    (complete : ∀ f, ¬ Undeclared (world.siteOf policy root tree) ix f) {d : Path} {D : Definition}
    (found : ix.manifests[d]? = some D) :
    ∃ names time bytes, d = root.descend names ∧
      tree.get? (names ++ [policy.layout.manifestName]) = some (.file time bytes) ∧
      (∀ n ∈ names ++ [policy.layout.manifestName], policy.denies n = false) ∧
      policy.layout.isOfInterest (d.descend [policy.layout.manifestName]) = true ∧
      policy.manifestIn (d.descend [policy.layout.manifestName]) bytes = some D.manifest ∧
      D.hash = Sha256.hex bytes := by
  obtain ⟨_, holds, file⟩ := (Crawl.manifests_of_settled honest complete).1 d D found
  have path : D.path = d.descend [policy.layout.manifestName] :=
    (installed_path honest complete found).2
  obtain ⟨bytes, read, valid, digest⟩ := holds.read
  have interest := holds.interest
  rw [path] at file read valid interest
  obtain ⟨st, file⟩ := Option.isSome_iff_exists.1 (Std.ExtTreeMap.mem_iff_isSome_getElem?.1 file)
  obtain ⟨names, time, bytes', same, reached, names_allowed, _⟩ :=
    ((shows.tables directory allowed sound agrees).2 _ st).1 file
  obtain ⟨names, time, bytes', rfl, reached, names_allowed⟩ :=
    manifest_file directory ⟨names, time, bytes', same, reached, names_allowed⟩
  have told := shows.contents _ time bytes' reached
  rw [Path.descend_append] at told
  cases read.symm.trans told
  exact ⟨names, time, bytes, rfl, reached, names_allowed, interest, valid, digest⟩

/-- A valid manifest that counts is installed. -/
theorem installed_of_manifest (shows : world.Shows root tree) (directory : tree.isDirectory = true)
    (allowed : policy.isDenied root = false) (sound : ix.Sound root)
    (agrees : ∀ p, Agrees (world.siteOf policy root tree) ix p)
    (honest : ∀ d, ¬ (mistakes (world.siteOf policy root tree)).due ix d)
    (complete : ∀ f, ¬ Undeclared (world.siteOf policy root tree) ix f) {names : List Name}
    {time : Int} {bytes : List UInt8} {m : Manifest}
    (reached : tree.get? (names ++ [policy.layout.manifestName]) = some (.file time bytes))
    (names_allowed : ∀ n ∈ names ++ [policy.layout.manifestName], policy.denies n = false)
    (interest : policy.layout.isOfInterest
      ((root.descend names).descend [policy.layout.manifestName]) = true)
    (valid : policy.manifestIn ((root.descend names).descend [policy.layout.manifestName]) bytes =
      some m) :
    ∃ D, ix.manifests[root.descend names]? = some D := by
  have told := shows.contents _ time bytes reached
  have inside := Path.parent_descend root names policy.layout.manifestName
  rw [Path.descend_append] at told inside
  let D : Definition := ⟨0, (root.descend names).descend [policy.layout.manifestName],
    root.descend names, m, Sha256.hex bytes⟩
  have holds : (world.siteOf policy root tree).Holds D :=
    ⟨interest, inside, bytes, told, valid, rfl⟩
  have always : policy.alwaysTakes D.path = true := by
    have base := Layout.basename_of_isOfInterest interest
    simp [Policy.alwaysTakes, D, base]
  have file : D.path ∈ ix.files := by
    refine Std.ExtTreeMap.mem_iff_isSome_getElem?.2
      (Option.isSome_iff_exists.2 ⟨(Node.file time bytes).status, ?_⟩)
    refine ((shows.tables directory allowed sound agrees).2 D.path _).2
      ⟨_, time, bytes, ?_, reached, names_allowed, Or.inl always, rfl⟩
    exact (Path.descend_append root names _).symm
  obtain ⟨E, found, _⟩ := (Crawl.manifests_of_settled honest complete).2 D holds file
  exact ⟨E, found⟩

/-- What is installed for a directory, where nothing is wrong and nothing is missing. -/
theorem manifests (shows : world.Shows root tree) (directory : tree.isDirectory = true)
    (allowed : policy.isDenied root = false) (sound : ix.Sound root)
    (agrees : ∀ p, Agrees (world.siteOf policy root tree) ix p)
    (honest : ∀ d, ¬ (mistakes (world.siteOf policy root tree)).due ix d)
    (complete : ∀ f, ¬ Undeclared (world.siteOf policy root tree) ix f) (d : Path) (m : Manifest)
    (hash : String) :
    (∃ id, ix.manifests[d]? = some ⟨id, d.descend [policy.layout.manifestName], d, m, hash⟩) ↔
      ∃ names time bytes, d = root.descend names ∧
        tree.get? (names ++ [policy.layout.manifestName]) = some (.file time bytes) ∧
        (∀ n ∈ names ++ [policy.layout.manifestName], policy.denies n = false) ∧
        policy.layout.isOfInterest (d.descend [policy.layout.manifestName]) = true ∧
        policy.manifestIn (d.descend [policy.layout.manifestName]) bytes = some m ∧
        hash = Sha256.hex bytes := by
  constructor
  · rintro ⟨id, found⟩
    exact shows.manifest_of_installed directory allowed sound agrees honest complete found
  · rintro ⟨names, time, bytes, rfl, reached, names_allowed, interest, valid, rfl⟩
    obtain ⟨D, found⟩ := shows.installed_of_manifest directory allowed sound agrees honest complete
      reached names_allowed interest valid
    obtain ⟨own, path⟩ := installed_path honest complete found
    obtain ⟨names', time', bytes', same, reached', _, _, valid', digest⟩ :=
      shows.manifest_of_installed directory allowed sound agrees honest complete found
    cases Path.descend_injective same
    cases reached.symm.trans reached'
    have manifest : D.manifest = m := Option.some.inj (valid'.symm.trans valid)
    refine ⟨D.id, found.trans ?_⟩
    rw [← manifest, ← digest]
    cases D
    cases own
    cases path
    rfl

end World.Shows

namespace Watch

/-- Whatever the schedule is, a watch on a fresh host ends, succeeds or tells remarks, and leaves an
index that describes the tree. -/
theorem watch_describes_tree (policy : Policy) (world : World) (root : Path) (tree : Node) (h : Host)
    (fresh : h.Fresh policy.layout.manifestName) (shows : world.Shows root tree)
    (directory : tree.isDirectory = true) (stat : world.stat root = .ok tree.status)
    (allowed : policy.isDenied root = false) (opened : world.openRoot root = .ok ()) :
    Halts policy world (h.watch root) ∧
      ∀ h' reply, Completes policy world (h.watch root) h' reply →
        (reply = .watched (.ok ()) ∨
          ∃ remarks, reply = .watched (.error (.diagnostics root.spelling remarks))) ∧
        h'.store.index.Describes policy root tree := by
  let site := world.siteOf policy root tree
  have told : world.entry root = .ok tree.status := by simpa using shows.entry [] tree rfl
  have kind := Node.kind_of_isDirectory directory
  have reached : site.region root := ⟨[], tree, (Path.descend_nil root).symm, rfl⟩
  have accepts : site.Accepts tree.status := ⟨reached, told, kind, stat, opened⟩
  refine ⟨watch_halts fresh accepts (shows.lists policy) (World.Shows.shallow policy),
    fun h' reply completes => ?_⟩
  obtain ⟨answer, _, sound, agrees, honest, complete⟩ :=
    watch_result fresh accepts (shows.lists policy) (shows.faithful policy directory) completes
  refine ⟨answer, ?_⟩
  obtain ⟨directories, files⟩ := shows.tables directory allowed sound agrees
  have known : root ∈ h'.store.index.directories := by
    have wants : site.Wants root tree.status :=
      .root reached told kind (Policy.ignores_eq_false.2 ⟨allowed, fun file => by cases file⟩)
    exact sound.mem_directories.2 ⟨_, (agrees root _).2 wants, kind⟩
  have listings := World.Shows.listings sound known
  exact ⟨directories, files, fun d => (listings d).1, fun d => (listings d).2,
    fun d D => World.Shows.installed_path honest complete,
    shows.manifests directory allowed sound agrees honest complete⟩

/-- A package with a manifest, a source file, a file of no interest, a directory that is left out, a
link and a pipe. -/
def samplePackage : Node :=
  .directory 0
    [(.ofString ".git", .directory 0 [(.ofString "hook.js", .file 0 [])]),
      (.ofString "link", .link 0 [0x2F]),
      (.ofString "package.json", .file 0 [0x7B, 0x7D]),
      (.ofString "pipe", .pipe 0),
      (.ofString "src", .directory 0
        [(.ofString "main.ts", .file 0 []), (.ofString "notes.txt", .file 0 [])])]

/-- The watch of a package on a small disk ends, and the index describes the package. -/
theorem watch_describes_tree_sample :
    let d : Disk := { root := .directory 0 [(.ofString "p", samplePackage)] }
    let root : Path := Path.root.descend [.ofString "p"]
    let h : Host := ⟨.empty (.ofString "package.json") .recursive, {}⟩
    ∃ h' reply, Completes (.ofSettings {}) (.ofDisk d) (h.watch root) h' reply ∧
      h'.store.index.Describes (.ofSettings {}) root samplePackage := by
  intro d root h
  have carries : d.Carries root samplePackage :=
    .of_listing (by decide +kernel) (by decide +kernel) rfl rfl (by decide +kernel)
  obtain ⟨halts, result⟩ := watch_describes_tree (.ofSettings {}) (.ofDisk d) root samplePackage h
    ⟨rfl, rfl, rfl⟩ carries.shows carries.directory carries.stat_root (by decide +kernel) rfl
  obtain ⟨n, h', reply, ends⟩ := halts fun _ => []
  have completes : Completes (.ofSettings {}) (.ofDisk d) (h.watch root) h' reply := ⟨_, n, ends⟩
  exact ⟨h', reply, completes, (result h' reply completes).2⟩

end Watch

end ProjectIndex
