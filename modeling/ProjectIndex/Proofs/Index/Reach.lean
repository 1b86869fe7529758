import ProjectIndex.Proofs.Index.Departures

/-!
# What an eviction reaches

An eviction walks down from a path through the listings of known directories.  `Truthful` indexes
are those in which this walk comes to everything that lies below the path.  Here nothing is assumed
but that every listing has entries of its own directory only, and the eviction is described by the
paths that the walk reaches: a directory goes with its listing, a file goes with the manifest that it
declared, and what is a file and a directory at once is taken for a directory and stays as a file.
What no listing leads to stays as it is, wherever it lies.
-/

namespace ProjectIndex.Index

open Std

/-- A walk from one path down the listings of known directories comes to the other. -/
inductive Reaches (ix : Index) : Path → Path → Prop where
  | here (p : Path) : Reaches ix p p
  | entry {p c q : Path} (directory : p ∈ ix.directories) (listed : c ∈ ix.children p)
      (below : Reaches ix c q) : Reaches ix p q

namespace Reaches

variable {ix ix' : Index} {p q : Path}

/-- The walk goes on from a directory to its entries. -/
theorem child {c : Path} (reaches : ix.Reaches p q) (directory : q ∈ ix.directories)
    (listed : c ∈ ix.children q) : ix.Reaches p c := by
  induction reaches with
  | here p => exact .entry directory listed (.here c)
  | entry above first _ ih => exact .entry above first (ih directory listed)

/-- The walk came to a path from a directory that lists it. -/
theorem eq_or_listed (reaches : ix.Reaches p q) :
    q = p ∨ ∃ d, ix.Reaches p d ∧ d ∈ ix.directories ∧ q ∈ ix.children d := by
  induction reaches with
  | here p => exact Or.inl rfl
  | @entry p c q directory listed _ ih =>
    refine Or.inr ?_
    rcases ih with rfl | ⟨d, reaches, last, entry⟩
    · exact ⟨p, .here p, directory, listed⟩
    · exact ⟨d, .entry directory listed reaches, last, entry⟩

theorem covers (filed : ix.Filed) (reaches : ix.Reaches p q) : p.Covers q := by
  induction reaches with
  | here p => exact .refl p
  | entry _ listed _ ih => exact (Path.covers_of_parent (filed _ _ listed)).trans ih

/-- What is no directory leads nowhere. -/
theorem eq_of_leaf (reaches : ix.Reaches p q) (leaf : p ∉ ix.directories) : q = p := by
  cases reaches with
  | here => rfl
  | entry directory _ _ => exact absurd directory leaf

/-- Two indexes that say the same at and below a path are walked alike from it. -/
theorem congr (filed : ix.Filed) (same : ∀ q, p.Covers q → SameAt ix ix' q)
    (reaches : ix.Reaches p q) : ix'.Reaches p q := by
  induction reaches with
  | here p => exact .here p
  | @entry p c q directory listed _ ih =>
    have below := Path.covers_of_parent (filed p c listed)
    refine .entry ((same p (.refl p)).mem_directories.2 directory) ?_
      (ih fun q covers => same q (below.trans covers))
    rw [(same p (.refl p)).children]
    exact listed

end Reaches

theorem SameAt.symm {ix ix' : Index} {q : Path} (same : SameAt ix ix' q) : SameAt ix' ix q :=
  ⟨same.files.symm, same.directories.symm, same.listings.symm⟩

theorem reaches_congr {ix ix' : Index} {p q : Path} (filed : ix.Filed) (filed' : ix'.Filed)
    (same : ∀ q, p.Covers q → SameAt ix ix' q) : ix'.Reaches p q ↔ ix.Reaches p q :=
  ⟨.congr filed' fun q covers => (same q covers).symm, .congr filed same⟩

/-- The index after a walk that came to the given paths. -/
structure Walked (ix : Index) (reached : Path → Prop) (left : Index) : Prop where
  outside : ∀ q, ¬ reached q → SameAt ix left q
  /-- A directory goes with its listing. -/
  directory : ∀ q, reached q → q ∈ ix.directories →
    q ∉ left.directories ∧ q ∉ left.listings ∧ left.files[q]? = ix.files[q]?
  /-- Anything else goes if it is a file. -/
  other : ∀ q, reached q → q ∉ ix.directories →
    q ∉ left.directories ∧ q ∉ left.files ∧ left.listings[q]? = ix.listings[q]?
  manifests : ∀ (d : Path) (D : Definition), left.manifests[d]? = some D →
    ix.manifests[d]? = some D
  /-- With a file goes what it declared. -/
  undeclared : ∀ f d, reached f → f ∈ ix.files → f ∉ ix.directories →
    f.basename = some ix.manifestName → f.parent = some d → d ∉ left.manifests
  /-- With a directory goes the manifest that it holds. -/
  bare : ∀ d, reached d → d ∈ ix.directories → d ∉ left.manifests
  name : left.manifestName = ix.manifestName

namespace Walked

variable {ix mid left : Index} {reached further : Path → Prop}

theorem none (ix : Index) : Walked ix (fun _ => False) ix :=
  ⟨fun q _ => .refl ix q, fun _ => False.elim, fun _ => False.elim, fun _ _ => id,
    fun _ _ => False.elim, fun _ => False.elim, rfl⟩

theorem of_iff (walked : Walked ix reached left) (same : ∀ q, further q ↔ reached q) :
    Walked ix further left := by
  obtain rfl : further = reached := funext fun q => propext (same q)
  exact walked

theorem not_mem_manifests (walked : Walked ix reached left) {d : Path} (absent : d ∉ ix.manifests) :
    d ∉ left.manifests := by
  intro member
  obtain ⟨D, found⟩ := Option.isSome_iff_exists.1 (ExtTreeMap.mem_iff_isSome_getElem?.1 member)
  exact absent (ExtTreeMap.mem_iff_isSome_getElem?.2 (by simp [walked.manifests d D found]))

/-- Two walks one after the other, of which the second comes to other paths than the first. -/
theorem append (first : Walked ix reached mid) (second : Walked mid further left)
    (apart : ∀ q, further q → ¬ reached q) : Walked ix (fun q => reached q ∨ further q) left where
  outside q out :=
    (first.outside q fun hit => out (Or.inl hit)).trans (second.outside q fun hit => out (Or.inr hit))
  directory q hit known := by
    rcases hit with hit | hit
    · have same := second.outside q fun later => apart q later hit
      obtain ⟨directory, listing, file⟩ := first.directory q hit known
      exact ⟨mt same.mem_directories.1 directory, mt same.mem_listings.1 listing,
        same.files.trans file⟩
    · have same := first.outside q (apart q hit)
      obtain ⟨directory, listing, file⟩ := second.directory q hit (same.mem_directories.2 known)
      exact ⟨directory, listing, file.trans same.files⟩
  other q hit unknown := by
    rcases hit with hit | hit
    · have same := second.outside q fun later => apart q later hit
      obtain ⟨directory, file, listing⟩ := first.other q hit unknown
      exact ⟨mt same.mem_directories.1 directory, mt same.mem_files.1 file,
        same.listings.trans listing⟩
    · have same := first.outside q (apart q hit)
      obtain ⟨directory, file, listing⟩ := second.other q hit (mt same.mem_directories.1 unknown)
      exact ⟨directory, file, listing.trans same.listings⟩
  manifests d D found := first.manifests d D (second.manifests d D found)
  undeclared f d hit file leaf named parent := by
    rcases hit with hit | hit
    · exact second.not_mem_manifests (first.undeclared f d hit file leaf named parent)
    · have same := first.outside f (apart f hit)
      exact second.undeclared f d hit (same.mem_files.2 file) (mt same.mem_directories.1 leaf)
        (first.name ▸ named) parent
  bare d hit known := by
    rcases hit with hit | hit
    · exact second.not_mem_manifests (first.bare d hit known)
    · exact second.bare d hit ((first.outside d (apart d hit)).mem_directories.2 known)
  name := second.name.trans first.name

end Walked

/-- What the walk leaves of an index after it has gone through some entries of one directory. -/
private theorem walked_entries {depth : Nat} {p : Path}
    (one : ∀ ix c, ix.Filed → (ix.directoriesAt c).card < depth →
      Walked ix (ix.Reaches c) (forgetWithin depth ix c).1)
    (entries : List Path) (distinct : entries.Nodup) (siblings : ∀ c ∈ entries, c.parent = some p)
    (ix : Index) (gone : List Path) (filed : ix.Filed)
    (enough : ∀ c ∈ entries, (ix.directoriesAt c).card < depth) :
    Walked ix (fun q => ∃ c ∈ entries, ix.Reaches c q)
      (entries.foldl
        (fun (ix, gone) child =>
          let (ix, more) := forgetWithin depth ix child
          (ix, gone ++ more)) (ix, gone)).1 := by
  induction entries generalizing ix gone with
  | nil => exact (Walked.none ix).of_iff fun q => by simp
  | cons c rest ih =>
    obtain ⟨unlike, distinct⟩ := List.nodup_cons.1 distinct
    have first := one ix c filed (enough c (by simp))
    have filed' := (forgetWithin_departed depth ix c filed).filed
    have elsewhere : ∀ c' ∈ rest, ∀ q, c'.Covers q → ¬ ix.Reaches c q := by
      intro c' member q covers reaches
      have same := Path.eq_of_siblings (siblings c' (by simp [member])) (siblings c (by simp)) covers
        (reaches.covers filed)
      exact unlike (same ▸ member)
    have untouched : ∀ c' ∈ rest, ∀ q, c'.Covers q → SameAt ix (forgetWithin depth ix c).1 q :=
      fun c' member q covers => first.outside q (elsewhere c' member q covers)
    have second := ih distinct (fun c' member => siblings c' (by simp [member]))
      (forgetWithin depth ix c).1 (gone ++ (forgetWithin depth ix c).2) filed' (by
        intro c' member
        refine Nat.lt_of_le_of_lt (Finset.card_le_card fun d known => ?_)
          (enough c' (by simp [member]))
        obtain ⟨known, covers⟩ := mem_directoriesAt.1 known
        exact mem_directoriesAt.2 ⟨(untouched c' member d covers).mem_directories.1 known, covers⟩)
    refine (first.append second ?_).of_iff fun q => ?_
    · rintro q ⟨c', member, reaches⟩
      exact elsewhere c' member q (reaches.covers filed')
    · simp only [List.mem_cons, exists_eq_or_imp]
      refine or_congr_right (exists_congr fun c' => and_congr_right fun member => ?_)
      exact (reaches_congr filed filed' (untouched c' member)).symm

theorem nodup_children (ix : Index) (d : Path) : (ix.children d).Nodup := by
  unfold children
  cases ix.listings[d]? with
  | none => exact List.nodup_nil
  | some listing =>
    refine (ExtTreeSet.distinct_toList (t := listing)).imp fun different same => ?_
    exact different (Std.LawfulEqCmp.compare_eq_iff_eq.2 same)

/-- A directory that is stripped, and then walked entry by entry, is walked. -/
private theorem walked_directory {ix left : Index} {p : Path} (filed : ix.Filed)
    (directory : p ∈ ix.directories)
    (entries : Walked (ix.stripped p)
      (fun q => ∃ c ∈ ix.children p, (ix.stripped p).Reaches c q) left) :
    Walked ix (ix.Reaches p) { left with manifests := left.manifests.erase p } := by
  have below : ∀ c ∈ ix.children p, ∀ q, c.Covers q → q ≠ p := by
    rintro c member q covers rfl
    exact Path.not_covers_of_parent (filed q c member) covers
  have reaches : ∀ q, (∃ c ∈ ix.children p, (ix.stripped p).Reaches c q) ↔
      ix.Reaches p q ∧ q ≠ p := by
    have alike : ∀ c ∈ ix.children p, ∀ q, (ix.stripped p).Reaches c q ↔ ix.Reaches c q :=
      fun c member q => reaches_congr filed (filed.stripped p)
        fun q covers => sameAt_stripped (below c member q covers)
    intro q
    constructor
    · rintro ⟨c, member, reached⟩
      have reached := (alike c member q).1 reached
      exact ⟨.entry directory member reached, below c member q (reached.covers filed)⟩
    · rintro ⟨reached, other⟩
      cases reached with
      | here => exact absurd rfl other
      | @entry _ c _ _ listed reached => exact ⟨c, listed, (alike c listed q).2 reached⟩
  replace entries := entries.of_iff fun q => (reaches q).symm
  refine ⟨fun q out => ?_, fun q hit known => ?_, fun q hit unknown => ?_, fun d D found => ?_,
    fun f d hit file leaf named parent => ?_, fun d hit known => ?_, entries.name⟩
  · have other : q ≠ p := by
      rintro rfl
      exact out (.here q)
    have same := (sameAt_stripped other).trans (entries.outside q fun hit => out hit.1)
    exact ⟨same.files, same.directories, same.listings⟩
  · by_cases other : q = p
    · subst other
      have same := entries.outside q fun hit => hit.2 rfl
      exact ⟨mt same.mem_directories.1 (by simp [stripped]),
        mt same.mem_listings.1 (by simp [stripped]), same.files⟩
    · have same := @sameAt_stripped ix p q other
      obtain ⟨gone, listing, file⟩ := entries.directory q ⟨hit, other⟩ (same.mem_directories.2 known)
      exact ⟨gone, listing, file.trans same.files⟩
  · have other : q ≠ p := fun same => unknown (same ▸ directory)
    have same := @sameAt_stripped ix p q other
    obtain ⟨gone, file, listing⟩ := entries.other q ⟨hit, other⟩ (mt same.mem_directories.1 unknown)
    exact ⟨gone, file, listing.trans same.listings⟩
  · rw [ExtTreeMap.getElem?_erase] at found
    split at found
    · cases found
    · exact entries.manifests d D found
  · have other : f ≠ p := fun same => leaf (same ▸ directory)
    have gone := entries.undeclared f d ⟨hit, other⟩ file
      (mt (sameAt_stripped other).mem_directories.1 leaf) named parent
    simp [gone]
  · by_cases other : d = p
    · simp [other]
    · have gone := entries.bare d ⟨hit, other⟩ ((sameAt_stripped other).mem_directories.2 known)
      simp [gone]

/-- With more levels than directories the walk takes away what it reaches. -/
theorem forgetWithin_walked (depth : Nat) (ix : Index) (p : Path) (filed : ix.Filed)
    (enough : (ix.directoriesAt p).card < depth) :
    Walked ix (ix.Reaches p) (forgetWithin depth ix p).1 := by
  induction depth generalizing ix p with
  | zero => exact absurd enough (Nat.not_lt_zero _)
  | succ depth ih =>
    unfold forgetWithin
    split
    next directory =>
      have directory := isDirectory_iff.1 directory
      refine walked_directory filed directory ?_
      refine walked_entries ih (ix.children p) (ix.nodup_children p) (filed p) (ix.stripped p) []
        (filed.stripped p) fun c member => Nat.lt_of_lt_of_le ?_ (Nat.le_of_lt_succ enough)
      refine directoriesAt_lt directory (filed p c member) fun q covers known => ?_
      refine (sameAt_stripped ?_).mem_directories.1 known
      rintro rfl
      exact Path.not_covers_of_parent (filed q c member) covers
    next leaf =>
      have leaf : p ∉ ix.directories := mt isDirectory_iff.2 (by simpa using leaf)
      split
      · refine ⟨fun q out => ?_, fun q hit known => ?_, fun q hit unknown => ?_, fun d D found => ?_,
          fun f d hit _ _ named parent => ?_, fun d hit known => ?_, rfl⟩
        · have other : p ≠ q := fun same => out (same ▸ .here p)
          exact ⟨by simp [forgetFile, ExtTreeMap.getElem?_erase, other], rfl, rfl⟩
        · exact absurd (hit.eq_of_leaf leaf ▸ known) leaf
        · obtain rfl := hit.eq_of_leaf leaf
          exact ⟨leaf, by simp [forgetFile], rfl⟩
        · dsimp only [forgetFile] at found
          split at found
          · split at found
            · rw [ExtTreeMap.getElem?_erase] at found
              split at found
              · cases found
              · exact found
            · exact found
          · exact found
        · obtain rfl := hit.eq_of_leaf leaf
          simp [forgetFile, named, parent]
        · exact absurd (hit.eq_of_leaf leaf ▸ known) leaf
      next notFile =>
        have notFile : p ∉ ix.files := mt isFile_iff.2 (by simpa using notFile)
        refine ⟨fun q _ => .refl ix q, fun q hit known => ?_, fun q hit unknown => ?_, fun _ _ => id,
          fun f d hit file _ _ _ => ?_, fun d hit known => ?_, rfl⟩
        · exact absurd (hit.eq_of_leaf leaf ▸ known) leaf
        · obtain rfl := hit.eq_of_leaf leaf
          exact ⟨leaf, notFile, rfl⟩
        · exact absurd (hit.eq_of_leaf leaf ▸ file) notFile
        · exact absurd (hit.eq_of_leaf leaf ▸ known) leaf

theorem directoriesAt_card_le (ix : Index) (p : Path) :
    (ix.directoriesAt p).card ≤ ix.directories.size := by
  refine (Finset.card_le_card (Finset.filter_subset _ _)).trans ?_
  exact (List.toFinset_card_le _).trans (by simp)

theorem directoriesAt_card_lt (ix : Index) (p : Path) :
    (ix.directoriesAt p).card < ix.depthBound + 1 := by
  have all := ix.directoriesAt_card_le p
  unfold depthBound
  omega

namespace Filed

variable {ix : Index}

theorem walked (filed : ix.Filed) (p : Path) :
    Walked ix (ix.Reaches p) (forgetWithin (ix.depthBound + 1) ix p).1 :=
  forgetWithin_walked _ ix p filed (ix.directoriesAt_card_lt p)

/-- The directories that are reached go. -/
theorem mem_directories_evict (filed : ix.Filed) {p q : Path} :
    q ∈ (ix.evict p).1.directories ↔ q ∈ ix.directories ∧ ¬ ix.Reaches p q := by
  have walked := filed.walked p
  simp only [Index.evict, unlistChild_directories]
  by_cases hit : ix.Reaches p q
  · by_cases known : q ∈ ix.directories
    · simp [hit, (walked.directory q hit known).1]
    · simp [hit, (walked.other q hit known).1]
  · simp [hit, (walked.outside q hit).mem_directories]

/-- The files that are reached go, but for those that are directories at the same time. -/
theorem mem_files_evict (filed : ix.Filed) {p q : Path} :
    q ∈ (ix.evict p).1.files ↔ q ∈ ix.files ∧ (ix.Reaches p q → q ∈ ix.directories) := by
  have walked := filed.walked p
  simp only [Index.evict, unlistChild_files]
  by_cases hit : ix.Reaches p q
  · by_cases known : q ∈ ix.directories
    · rw [ExtTreeMap.mem_iff_isSome_getElem?, (walked.directory q hit known).2.2,
        ← ExtTreeMap.mem_iff_isSome_getElem?]
      simp [known]
    · simp [hit, known, (walked.other q hit known).2.1]
  · simp [hit, (walked.outside q hit).mem_files]

/-- What stays known keeps its status. -/
theorem evict_kept (filed : ix.Filed) (p q : Path) (st : Status) :
    ((ix.evict p).1.files[q]? = some st → ix.files[q]? = some st) ∧
      ((ix.evict p).1.directories[q]? = some st → ix.directories[q]? = some st) := by
  have walked := filed.walked p
  simp only [Index.evict, unlistChild_files, unlistChild_directories]
  by_cases hit : ix.Reaches p q
  · by_cases known : q ∈ ix.directories
    · obtain ⟨gone, _, file⟩ := walked.directory q hit known
      simp [file, ExtTreeMap.getElem?_eq_none gone]
    · obtain ⟨gone, noFile, _⟩ := walked.other q hit known
      simp [ExtTreeMap.getElem?_eq_none gone, ExtTreeMap.getElem?_eq_none noFile]
  · have same := walked.outside q hit
    simp [same.files, same.directories]

/-- The listings of the directories that are reached go, and the evicted path is taken off the
listing of its parent. -/
theorem mem_children_evict (filed : ix.Filed) {p d c : Path} :
    c ∈ (ix.evict p).1.children d ↔
      c ∈ ix.children d ∧ ¬ (ix.Reaches p d ∧ d ∈ ix.directories) ∧ c ≠ p := by
  have walked := filed.walked p
  have entries : c ∈ (forgetWithin (ix.depthBound + 1) ix p).1.children d ↔
      c ∈ ix.children d ∧ ¬ (ix.Reaches p d ∧ d ∈ ix.directories) := by
    by_cases hit : ix.Reaches p d
    · by_cases known : d ∈ ix.directories
      · have bare := (walked.directory d hit known).2.1
        simp only [hit, known, and_self, not_true, and_false, iff_false]
        exact fun entry => bare (mem_listings_of_child entry)
      · simp [known, Index.children, (walked.other d hit known).2.2]
    · simp [hit, (walked.outside d hit).children]
  have own : c ∈ ix.children d → (¬ (p.parent = some d ∧ c = p) ↔ c ≠ p) :=
    fun entry => not_congr ⟨And.right, fun same => ⟨same ▸ filed d c entry, same⟩⟩
  simp only [Index.evict, mem_children_unlistChild, entries]
  constructor
  · rintro ⟨⟨entry, kept⟩, other⟩
    exact ⟨entry, kept, (own entry).1 other⟩
  · rintro ⟨entry, kept, other⟩
    exact ⟨⟨entry, kept⟩, (own entry).2 other⟩

/-- Where every listing is that of a directory or has entries, it stays so. -/
theorem listed_evict (filed : ix.Filed)
    (listed : ∀ d, d ∈ ix.listings → d ∈ ix.directories ∨ ∃ c, c ∈ ix.children d) (p d : Path)
    (member : d ∈ (ix.evict p).1.listings) :
    d ∈ (ix.evict p).1.directories ∨ ∃ c, c ∈ (ix.evict p).1.children d := by
  have walked := filed.walked p
  simp only [Index.evict, mem_listings_unlistChild, unlistChild_directories,
    mem_children_unlistChild] at member ⊢
  obtain ⟨member, own⟩ := member
  by_cases parent : p.parent = some d
  · refine (own parent).imp_right ?_
    rintro ⟨c, entry, other⟩
    exact ⟨c, entry, fun same => other same.2⟩
  · by_cases hit : ix.Reaches p d
    · by_cases known : d ∈ ix.directories
      · exact absurd member (walked.directory d hit known).2.1
      · have same := (walked.other d hit known).2.2
        have before : d ∈ ix.listings := by
          simpa only [ExtTreeMap.mem_iff_isSome_getElem?, same] using member
        obtain ⟨c, entry⟩ := (listed d before).resolve_left known
        refine Or.inr ⟨c, ?_, fun own => parent own.1⟩
        rwa [Index.children, same]
    · have same := walked.outside d hit
      refine (listed d (same.mem_listings.1 member)).imp same.mem_directories.2 ?_
      rintro ⟨c, entry⟩
      exact ⟨c, same.children ▸ entry, fun own => parent own.1⟩

end Filed

@[simp] theorem unlistChild_manifests (ix : Index) (p : Path) :
    (ix.unlistChild p).manifests = ix.manifests := by
  unfold unlistChild
  split
  · rfl
  · split
    · rfl
    · dsimp only
      split <;> rfl

@[simp] theorem unlistChild_manifestName (ix : Index) (p : Path) :
    (ix.unlistChild p).manifestName = ix.manifestName := by
  unfold unlistChild
  split
  · rfl
  · split
    · rfl
    · dsimp only
      split <;> rfl

/-- A manifest that stays was there before, and if its directory had a file of that name, the file
stays as well. -/
theorem Filed.manifests_evict {ix : Index} (filed : ix.Filed) {p d : Path} {D : Definition}
    (found : (ix.evict p).1.manifests[d]? = some D) :
    ix.manifests[d]? = some D ∧
      ∀ f, f.parent = some d → f.basename = some ix.manifestName → f ∈ ix.files →
        f ∈ (ix.evict p).1.files := by
  have walked := filed.walked p
  rw [Index.evict, unlistChild_manifests] at found
  refine ⟨walked.manifests d D found, fun f parent named file => ?_⟩
  refine filed.mem_files_evict.2 ⟨file, fun hit => ?_⟩
  by_contra leaf
  refine walked.undeclared f d hit file leaf named parent ?_
  exact ExtTreeMap.mem_iff_isSome_getElem?.2 (by simp [found])

/-- An eviction keeps the manifest of a directory that is not below its path, unless the path is
known as the file of that manifest. -/
theorem Filed.manifest_evict {ix : Index} (filed : ix.Filed) {p d : Path} (out : ¬ p.Covers d)
    (other : p ∈ ix.files → p ∉ ix.directories → p.parent = some d →
      p.basename ≠ some ix.manifestName) :
    (ix.evict p).1.manifests[d]? = ix.manifests[d]? := by
  have within : ∀ (depth : Nat) (ix : Index) (p : Path), ix.Filed → ¬ p.Covers d →
      (p ∈ ix.files → p ∉ ix.directories → p.parent = some d →
        p.basename ≠ some ix.manifestName) →
      (forgetWithin depth ix p).1.manifests[d]? = ix.manifests[d]? := by
    intro depth
    induction depth with
    | zero => exact fun ix p _ _ _ => rfl
    | succ depth ih =>
      intro ix p filed out other
      have apart : p ≠ d := fun same => out (same ▸ .refl p)
      have entry : ∀ c ∈ ix.children p, ∀ (left : Index) (gone : List Path),
          left.Filed ∧ left.manifests[d]? = ix.manifests[d]? →
          (forgetWithin depth left c).1.Filed ∧
            (forgetWithin depth left c).1.manifests[d]? = ix.manifests[d]? := by
        rintro c member left _ ⟨filed', same⟩
        have parent := filed p c member
        have first := ih left c filed'
          (fun covers => out ((Path.covers_of_parent parent).trans covers))
          fun _ _ own => absurd (Option.some.inj (parent.symm.trans own)) apart
        exact ⟨(forgetWithin_departed depth left c filed').filed, first.trans same⟩
      unfold forgetWithin
      split
      · have bare : (ix.stripped p).Filed ∧ (ix.stripped p).manifests[d]? = ix.manifests[d]? :=
          ⟨filed.stripped p, rfl⟩
        refine Eq.trans ?_ (@foldl_forgetWithin
          (fun left _ => left.Filed ∧ left.manifests[d]? = ix.manifests[d]?) _ _ entry _ [] bare).2
        simp only [ExtTreeMap.getElem?_erase, LawfulEqCmp.compare_eq_iff_eq, apart, if_false]
        rfl
      next leaf =>
        have leaf : p ∉ ix.directories := mt isDirectory_iff.2 (by simpa using leaf)
        split
        next file =>
          unfold forgetFile
          dsimp only
          split
          next named =>
            split
            next dir parent =>
              have elsewhere : dir ≠ d :=
                fun same => other (isFile_iff.1 file) leaf (same ▸ parent) named
              simp [ExtTreeMap.getElem?_erase, elsewhere]
            · rfl
          · rfl
        · rfl
  rw [Index.evict, unlistChild_manifests]
  exact within _ ix p filed out other

theorem Filed.evict_manifestName {ix : Index} (filed : ix.Filed) (p : Path) :
    (ix.evict p).1.manifestName = ix.manifestName := by
  rw [Index.evict, unlistChild_manifestName]
  exact (filed.walked p).name

end ProjectIndex.Index
