import ProjectIndex.Proofs.Store.Projects
import ProjectIndex.Proofs.Store.Quiet

/-!
# Manifests on their way to the workers

A manifest is installed under the next number.  It is put into the record of the project that is
nearest to it when it is sent to the workers; that may be in the same moment, or later when the project
that the manifest itself declares is in force.  Everything else that happens to a store numbers,
assigns and sends no manifest, though projects may be declared.

So at any time a manifest that is installed is still to be sent, or it is in the record of the project
that was nearest when it was sent.  That is said of the stores along a run, from one moment to the next.
-/

namespace ProjectIndex.Store

open Std Projects

def broadcasts (s : Store) : List Summary :=
  s.trace.filterMap fun
    | .broadcast summary => some summary
    | _ => none

/-- From `s` to `t` no manifest is numbered, assigned or sent. -/
structure Unsent (s t : Store) : Prop where
  projects : s.projects.Grows t.projects
  number : t.nextManifest = s.nextManifest
  broadcasts : t.broadcasts = s.broadcasts

namespace Unsent

theorem refl (s : Store) : s.Unsent s :=
  ⟨.refl _, rfl, rfl⟩

theorem trans {s t u : Store} (first : s.Unsent t) (second : t.Unsent u) : s.Unsent u where
  projects := first.projects.trans second.projects
  number := second.number.trans first.number
  broadcasts := second.broadcasts.trans first.broadcasts

end Unsent

def Unsending (e : Effect) : Prop :=
  ∀ summary, e ≠ .broadcast summary

theorem unsent_emit {e : Effect} (unsending : Unsending e) (s : Store) : s.Unsent (s.emit e) := by
  refine ⟨.refl _, rfl, ?_⟩
  cases e with
  | broadcast summary => exact absurd rfl (unsending summary)
  | _ => rfl

theorem unsent_emitAll {es : List Effect} (unsending : ∀ e ∈ es, Unsending e) (s : Store) :
    s.Unsent (s.emitAll es) :=
  emitAll_related .refl .trans (fun e member => unsent_emit (unsending e member)) s

theorem unsent_log (s : Store) (line : Log.Line) : s.Unsent (s.log line) :=
  unsent_emit (by simp [Unsending]) s

/-- Another index and another backend send nothing. -/
theorem unsent_replace (s : Store) (index : Index) (backend : Backend) :
    s.Unsent { s with index, backend } :=
  ⟨.refl _, rfl, rfl⟩

theorem unsent_delete (s : Store) (p : Path) : s.Unsent (s.delete p) := by
  have evicted : s.Unsent (s.evict p).1 := by
    have forgotten := unsent_replace s (s.index.evict p).1 s.backend
    rcases s.evict_logged p with same | ⟨line, logged⟩
    · exact same ▸ forgotten
    · exact logged ▸ forgotten.trans (unsent_log _ line)
  exact evicted.trans (unsent_emitAll (by simp [Unsending]) _)

theorem unsent_forgetDirectory (s : Store) (dir : Path) : s.Unsent (s.forgetDirectory dir) :=
  (unsent_replace s s.index _).trans (unsent_emitAll (by simp [Unsending]) _)

theorem unsent_rootTaken (s : Store) (root : Path) : s.Unsent (s.rootTaken root) :=
  (unsent_replace s s.index _).trans (unsent_emitAll (by simp [Unsending]) _)

theorem unsent_closeRoot (s : Store) (root : Path) : s.Unsent (s.closeRoot root) :=
  (unsent_replace s s.index _).trans (unsent_emitAll (by simp [Unsending]) _)

theorem unsent_releaseRoot (s : Store) (root : Path) : s.Unsent (s.releaseRoot root) :=
  (unsent_replace s s.index _).trans (unsent_emitAll (by simp [Unsending]) _)

theorem unsent_projectDeclared (s : Store) (root : Path) : s.Unsent (s.projectDeclared root) := by
  have declared : s.Unsent { s with projects := s.projects.declare root } :=
    ⟨grows_declare s.projects root, rfl, rfl⟩
  dsimp only [projectDeclared]
  split
  · exact declared
  · exact declared.trans (unsent_log _ _)

theorem unsent_directoryDone (s : Store) (dir : Path) : s.Unsent (s.directoryDone dir) := by
  have marked : s.Unsent { s with projects := s.projects.markInitialized dir } :=
    ⟨grows_markInitialized s.projects dir, rfl, rfl⟩
  unfold directoryDone
  split
  · exact (marked.trans (unsent_emit (by simp [Unsending]) _)).trans (unsent_log _ _)
  · exact .refl s

def Has (s : Store) (D : Definition) : Prop :=
  s.index.manifests[D.directory]? = some D

def Few (s : Store) : Prop :=
  s.projects.Few ∧ s.index.manifests.size < UInt64.size - 1

/-- A definition is installed under the next number, where none was installed before. -/
structure Installs (s t : Store) (D : Definition) : Prop where
  absent : s.index.manifests[D.directory]? = none
  id : D.id = s.nextManifest
  manifests : t.index.manifests = s.index.manifests.insert D.directory D
  number : t.nextManifest = s.nextManifest + 1

/-- The definition is put into the record of the nearest project and sent.  Projects may be declared
just before. -/
structure Sends (s t : Store) (D : Definition) : Prop where
  projects : ∃ ps, s.projects.Grows ps ∧ t.projects = ps.assign D
  manifests : t.index.manifests = s.index.manifests
  number : t.nextManifest = s.nextManifest
  broadcasts : t.broadcasts = D.summary :: s.broadcasts

/-- What happens to the manifests from one moment to the next, with those that are installed and still
to be sent before and after. -/
inductive Books (s t : Store) (due due' : Definition → Prop) : Prop where
  | still (unsent : s.Unsent t) (manifests : t.index.manifests = s.index.manifests)
      (same : ∀ E, due' E ↔ due E)
  | noted (D : Definition) (installs : s.Installs t D) (unsent : t.projects = s.projects)
      (broadcasts : t.broadcasts = s.broadcasts) (more : ∀ E, due' E ↔ E = D ∨ due E)
  | sent (D : Definition) (mid : Store) (installs : s.Installs mid D)
      (unsent : mid.projects = s.projects) (broadcasts : mid.broadcasts = s.broadcasts)
      (sends : mid.Sends t D) (same : ∀ E, due' E ↔ due E)
  | later (D : Definition) (was : due D) (sends : s.Sends t D) (left : ∀ E, due' E ↔ due E ∧ E ≠ D)

/-- The definitions were numbered one after the other, and no two of them have the same number. -/
structure Numbered (s : Store) : Prop where
  next : s.nextManifest.toNat = s.index.manifests.size + 1
  own : ∀ (dir : Path) (D : Definition), s.index.manifests[dir]? = some D → D.directory = dir
  bounded : ∀ D, s.Has D → D.id.toNat ≤ s.index.manifests.size
  distinct : ∀ D E, s.Has D → s.Has E → D.id = E.id → D = E

/-- Every definition that is installed is still to be sent, or it is in the record of an owner that is
`owns` to it; and there is nothing else in the records, and nothing else was sent. -/
structure Booked (s : Store) (due : Definition → Prop) (owns : Definition → Option ProjectId → Prop) :
    Prop where
  projects : s.projects.Numbered
  numbered : s.Numbered
  listed : ∀ r P, s.projects.get? r = some P → ∀ m ∈ P.manifests, ∃ D, s.Has D ∧ D.id = m
  told : ∀ summary ∈ s.broadcasts, ∃ D, s.Has D ∧ D.summary = summary
  waiting : ∀ D, due D → s.Has D ∧ D.summary ∉ s.broadcasts ∧ s.projects.Holds D.id none
  each : ∀ D, s.Has D → due D ∨ ∃ owner, owns D owner ∧ s.projects.Holds D.id owner

section

variable {s t : Store} {due due' : Definition → Prop} {owns : Definition → Option ProjectId → Prop}
  {D : Definition}

/-- Where nothing is installed, declared or sent. -/
theorem booked_blank (projects : s.projects = {}) (manifests : s.index.manifests = ∅)
    (number : s.nextManifest = 1) (broadcasts : s.broadcasts = []) :
    s.Booked (fun _ => False) owns := by
  have none : ∀ D, ¬ s.Has D := by simp [Has, manifests]
  refine ⟨projects ▸ numbered_empty, ⟨?_, ?_, fun D has => absurd has (none D),
    fun D _ has => absurd has (none D)⟩, ?_, ?_, fun _ waits => waits.elim,
    fun D has => absurd has (none D)⟩
  · rw [number, manifests]
    rfl
  · simp [manifests]
  · simp [projects, Projects.get?]
  · simp [broadcasts]

theorem Numbered.congr (numbered : s.Numbered) (manifests : t.index.manifests = s.index.manifests)
    (number : t.nextManifest = s.nextManifest) : t.Numbered := by
  obtain ⟨next, own, bounded, distinct⟩ := numbered
  refine ⟨?_, ?_, ?_, ?_⟩
  · rw [number, manifests]
    exact next
  · rw [manifests]
    exact own
  · intro D installed
    rw [Has, manifests] at installed
    rw [manifests]
    exact bounded D installed
  · intro D E installed installed'
    rw [Has, manifests] at installed installed'
    exact distinct D E installed installed'

theorem Installs.has (installs : s.Installs t D) : t.Has D := by
  simp [Has, installs.manifests]

/-- What was installed stays so. -/
theorem Installs.kept (installs : s.Installs t D) {E : Definition} (installed : s.Has E) : t.Has E := by
  have other : D.directory ≠ E.directory := by
    intro same
    have absent := installs.absent
    rw [same] at absent
    cases absent.symm.trans installed
  simpa [Has, installs.manifests, ExtTreeMap.getElem?_insert, other] using installed

theorem Installs.origin (installs : s.Installs t D) {E : Definition} (installed : t.Has E) :
    E = D ∨ s.Has E := by
  rw [Has, installs.manifests, ExtTreeMap.getElem?_insert] at installed
  split at installed
  · exact Or.inl (Option.some.inj installed).symm
  · exact Or.inr installed

theorem Installs.size (installs : s.Installs t D) :
    t.index.manifests.size = s.index.manifests.size + 1 := by
  have absent : D.directory ∉ s.index.manifests := by
    simpa using installs.absent
  rw [installs.manifests, ExtTreeMap.size_insert, if_neg (by simpa using absent)]

/-- The new number is none of those that were given before. -/
theorem Installs.fresh (installs : s.Installs t D) (numbered : s.Numbered) {E : Definition}
    (installed : s.Has E) : E.id ≠ D.id := by
  intro same
  have bounded := numbered.bounded E installed
  rw [same, installs.id, numbered.next] at bounded
  omega

theorem Installs.numbered (installs : s.Installs t D) (numbered : s.Numbered)
    (few : t.index.manifests.size < UInt64.size - 1) : t.Numbered := by
  have size := installs.size
  refine ⟨?_, fun dir E found => ?_, fun E installed => ?_, fun E F installed installed' same => ?_⟩
  · have next := numbered.next
    rw [installs.number, UInt64.toNat_add, next]
    simp only [UInt64.toNat_ofNat]
    rw [UInt64.size] at few
    omega
  · rw [installs.manifests, ExtTreeMap.getElem?_insert] at found
    split at found
    next here =>
      cases found
      exact LawfulEqCmp.compare_eq_iff_eq.1 here
    · exact numbered.own dir E found
  · rcases installs.origin installed with rfl | before
    · rw [installs.id, numbered.next]
      omega
    · have bounded := numbered.bounded E before
      omega
  · rcases installs.origin installed with rfl | before
    · rcases installs.origin installed' with rfl | before'
      · rfl
      · exact absurd same.symm (installs.fresh numbered before')
    · rcases installs.origin installed' with rfl | before'
      · exact absurd same (installs.fresh numbered before)
      · exact numbered.distinct E F before before' same

/-- What sends nothing may happen before. -/
theorem Sends.after {u : Store} (sends : t.Sends u D) (unsent : s.Unsent t)
    (index : t.index = s.index) : s.Sends u D := by
  obtain ⟨⟨ps, grows, assigned⟩, manifests, number, broadcasts⟩ := sends
  refine ⟨⟨ps, unsent.projects.trans grows, assigned⟩, ?_, number.trans unsent.number, ?_⟩
  · rw [manifests, index]
  · rw [broadcasts, unsent.broadcasts]

theorem Sends.size (sends : s.Sends t D) : s.projects.size ≤ t.projects.size := by
  obtain ⟨ps, grows, assigned⟩ := sends.projects
  rw [assigned, size_assign]
  exact grows.size

namespace Booked

variable (booked : s.Booked due owns)

include booked

theorem mono {owns' : Definition → Option ProjectId → Prop}
    (more : ∀ D owner, owns D owner → owns' D owner) : s.Booked due owns' :=
  { booked with each := fun D installed =>
      (booked.each D installed).imp_right fun ⟨owner, own, holds⟩ => ⟨owner, more D owner own, holds⟩ }

/-- Nothing is numbered, assigned or sent. -/
theorem still (unsent : s.Unsent t) (manifests : t.index.manifests = s.index.manifests)
    (same : ∀ E, due' E ↔ due E) (few : t.Few) : t.Booked due' owns := by
  have has : ∀ E, t.Has E ↔ s.Has E := fun E => by rw [Has, Has, manifests]
  have numbered := unsent.projects.numbered booked.projects few.1
  refine ⟨numbered, booked.numbered.congr manifests unsent.number, fun r P found m member => ?_,
    fun summary member => ?_, fun E waits => ?_, fun E installed => ?_⟩
  · rcases unsent.projects.origin r P found with ⟨P₀, before, _, same⟩ | new
    · obtain ⟨E, installed, own⟩ := booked.listed r P₀ before m (same ▸ member)
      exact ⟨E, (has E).2 installed, own⟩
    · simp [new] at member
  · obtain ⟨E, installed, own⟩ := booked.told summary (unsent.broadcasts ▸ member)
    exact ⟨E, (has E).2 installed, own⟩
  · obtain ⟨installed, untold, holds⟩ := booked.waiting E ((same E).1 waits)
    exact ⟨(has E).2 installed, unsent.broadcasts ▸ untold, holds.grows unsent.projects numbered⟩
  · refine (booked.each E ((has E).1 installed)).imp (same E).2 fun ⟨owner, own, holds⟩ => ?_
    exact ⟨owner, own, holds.grows unsent.projects numbered⟩

/-- A definition is installed, and is to be sent. -/
theorem noted (installs : s.Installs t D) (projects : t.projects = s.projects)
    (broadcasts : t.broadcasts = s.broadcasts) (more : ∀ E, due' E ↔ E = D ∨ due E)
    (few : t.index.manifests.size < UInt64.size - 1) : t.Booked due' owns := by
  have numbered := booked.numbered
  refine ⟨projects ▸ booked.projects, installs.numbered numbered few, fun r P found m member => ?_,
    fun summary member => ?_, fun E waits => ?_, fun E installed => ?_⟩
  · obtain ⟨E, installed, own⟩ := booked.listed r P (projects ▸ found) m member
    exact ⟨E, installs.kept installed, own⟩
  · obtain ⟨E, installed, own⟩ := booked.told summary (broadcasts ▸ member)
    exact ⟨E, installs.kept installed, own⟩
  · rw [broadcasts, projects]
    rcases (more E).1 waits with rfl | before
    · refine ⟨installs.has, fun told => ?_, holds_none fun r P found member => ?_⟩
      · obtain ⟨F, installed, same⟩ := booked.told E.summary told
        exact installs.fresh numbered installed (congrArg Summary.id same)
      · obtain ⟨F, installed, same⟩ := booked.listed r P found E.id member
        exact installs.fresh numbered installed same
    · obtain ⟨installed, rest⟩ := booked.waiting E before
      exact ⟨installs.kept installed, rest⟩
  · rcases installs.origin installed with rfl | before
    · exact Or.inl ((more E).2 (Or.inl rfl))
    · rw [projects]
      exact (booked.each E before).imp_left fun waits => (more E).2 (Or.inr waits)

/-- A definition that was to be sent is sent, and is in the record of the project that is nearest
now. -/
theorem later (was : due D) (sends : s.Sends t D) (left : ∀ E, due' E ↔ due E ∧ E ≠ D)
    (few : t.projects.Few) :
    t.Booked due' fun E owner => owns E owner ∨ (E = D ∧ owner = t.projects.find? D.path) := by
  obtain ⟨ps, grows, assigned⟩ := sends.projects
  have has : ∀ E, t.Has E ↔ s.Has E := fun E => by rw [Has, Has, sends.manifests]
  have numbered : ps.Numbered := by
    refine grows.numbered booked.projects ?_
    rwa [assigned, Projects.Few, size_assign] at few
  obtain ⟨installed, untold, out⟩ := booked.waiting D was
  have nearest : t.projects.find? D.path = ps.find? D.path := by
    rw [assigned, find?_assign]
  have other : ∀ E, s.Has E → E ≠ D → E.id ≠ D.id := fun E before unlike same =>
    unlike (booked.numbered.distinct E D before installed same)
  refine ⟨assigned ▸ numbered.assign D, booked.numbered.congr sends.manifests sends.number,
    fun r P found m member => ?_, fun summary member => ?_, fun E waits => ?_, fun E present => ?_⟩
  · rw [assigned, numbered.get?_assign, Option.map_eq_some_iff] at found
    obtain ⟨P₀, found, rfl⟩ := found
    have earlier : m ∈ P₀.manifests ∨ m = D.id := by
      split at member
      · simpa using member
      · exact Or.inl member
    rcases earlier with before | rfl
    · rcases grows.origin r P₀ found with ⟨P₁, found, _, same⟩ | new
      · obtain ⟨E, installed, own⟩ := booked.listed r P₁ found m (same ▸ before)
        exact ⟨E, (has E).2 installed, own⟩
      · simp [new] at before
    · exact ⟨D, (has D).2 installed, rfl⟩
  · rw [sends.broadcasts] at member
    rcases List.mem_cons.1 member with rfl | before
    · exact ⟨D, (has D).2 installed, rfl⟩
    · obtain ⟨E, installed, own⟩ := booked.told summary before
      exact ⟨E, (has E).2 installed, own⟩
  · obtain ⟨before, unlike⟩ := (left E).1 waits
    obtain ⟨present, untold, holds⟩ := booked.waiting E before
    refine ⟨(has E).2 present, ?_, ?_⟩
    · rw [sends.broadcasts, List.mem_cons, not_or]
      exact ⟨fun same => other E present unlike (congrArg Summary.id same), untold⟩
    · rw [assigned]
      exact (holds.grows grows numbered).beside numbered (other E present unlike)
  · by_cases same : E = D
    · subst same
      refine Or.inr ⟨_, Or.inr ⟨rfl, rfl⟩, ?_⟩
      rw [nearest, assigned]
      exact (out.grows grows numbered).assigned numbered
    · have before := (has E).1 present
      refine (booked.each E before).imp (fun waits => (left E).2 ⟨waits, same⟩) ?_
      intro ⟨owner, own, holds⟩
      refine ⟨owner, Or.inl own, ?_⟩
      rw [assigned]
      exact (holds.grows grows numbered).beside numbered (other E before same)

end Booked

end

def SentAt (run : Nat → Store) (D : Definition) (k : Nat) : Prop :=
  D.summary ∉ (run k).broadcasts ∧ D.summary ∈ (run (k + 1)).broadcasts

/-- What was sent stays so. -/
theorem Books.told {s t : Store} {due due' : Definition → Prop} (books : s.Books t due due') :
    ∀ summary ∈ s.broadcasts, summary ∈ t.broadcasts := by
  intro summary member
  cases books with
  | still unsent => exact unsent.broadcasts ▸ member
  | noted D _ _ broadcasts => exact broadcasts ▸ member
  | sent D mid _ _ broadcasts sends =>
    rw [sends.broadcasts, broadcasts]
    exact List.mem_cons_of_mem _ member
  | later D _ sends =>
    rw [sends.broadcasts]
    exact List.mem_cons_of_mem _ member

/-- The projects that were in force stay so. -/
theorem Books.precedes {s t : Store} {due due' : Definition → Prop} (books : s.Books t due due') :
    s.projects.Precedes t.projects := by
  have sends : ∀ {s t : Store} {D : Definition}, s.Sends t D → s.projects.Precedes t.projects := by
    intro s t D sends
    obtain ⟨ps, grows, assigned⟩ := sends.projects
    rw [assigned]
    exact grows.precedes.assign D
  cases books with
  | still unsent => exact unsent.projects.precedes
  | noted D _ same => exact same ▸ fun _ _ own => own
  | sent D mid _ same _ sent => exact same ▸ sends sent
  | later D _ sent => exact sends sent

theorem Books.few {s t : Store} {due due' : Definition → Prop} (books : s.Books t due due')
    (few : t.Few) : s.Few := by
  obtain ⟨projects, manifests⟩ := few
  unfold Projects.Few at projects
  refine ⟨?_, ?_⟩
  · unfold Projects.Few
    cases books with
    | still unsent => exact Nat.lt_of_le_of_lt unsent.projects.size projects
    | noted D _ same => exact same ▸ projects
    | sent D mid _ same _ sends => exact same ▸ Nat.lt_of_le_of_lt sends.size projects
    | later D _ sends => exact Nat.lt_of_le_of_lt sends.size projects
  · cases books with
    | still _ same => exact same ▸ manifests
    | noted D installs =>
      have size := installs.size
      omega
    | sent D mid installs _ _ sends =>
      have size := installs.size
      rw [sends.manifests] at manifests
      omega
    | later D _ sends => exact sends.manifests ▸ manifests

section

variable {run : Nat → Store} {due : Nat → Definition → Prop}
  (steps : ∀ k, (run k).Books (run (k + 1)) (due k) (due (k + 1)))

include steps

theorem told_of_le {k n : Nat} (le : k ≤ n) : ∀ summary ∈ (run k).broadcasts,
    summary ∈ (run n).broadcasts := by
  induction le with
  | refl => exact fun _ member => member
  | step _ ih => exact fun summary member => (steps _).told summary (ih summary member)

theorem precedes_of_le {k n : Nat} (le : k ≤ n) : (run k).projects.Precedes (run n).projects := by
  induction le with
  | refl => exact fun _ _ own => own
  | step _ ih => exact ih.trans (steps _).precedes

/-- A definition is sent once. -/
theorem SentAt.unique {D : Definition} {j k : Nat} (first : SentAt run D j) (second : SentAt run D k) :
    j = k := by
  have before : ∀ {j k}, SentAt run D j → SentAt run D k → ¬ j < k := fun first second less =>
    second.1 (told_of_le steps less _ first.2)
  have below := before first second
  have above := before second first
  omega

/-- At each moment of a run, a definition that is installed is still to be sent, or it is in the record
of the project that was nearest when it was sent. -/
theorem booked_run (start : (run 0).Booked (due 0) fun _ _ => False) (n : Nat) (few : (run n).Few) :
    (run n).Booked (due n) fun D owner =>
      ∃ k, k < n ∧ SentAt run D k ∧ owner = (run (k + 1)).projects.find? D.path := by
  induction n with
  | zero => exact start.mono fun _ _ none => none.elim
  | succ n ih =>
    have booked := ih ((steps n).few few)
    have earlier : ∀ (D : Definition) (owner : Option ProjectId),
        (∃ k, k < n ∧ SentAt run D k ∧ owner = (run (k + 1)).projects.find? D.path) →
        ∃ k, k < n + 1 ∧ SentAt run D k ∧ owner = (run (k + 1)).projects.find? D.path :=
      fun D owner ⟨k, less, sent⟩ => ⟨k, Nat.lt_succ_of_lt less, sent⟩
    have sending : ∀ {D : Definition}, D.summary ∉ (run n).broadcasts →
        D.summary ∈ (run (n + 1)).broadcasts → ∀ (E : Definition) (owner : Option ProjectId),
        ((∃ k, k < n ∧ SentAt run E k ∧ owner = (run (k + 1)).projects.find? E.path) ∨
          (E = D ∧ owner = (run (n + 1)).projects.find? D.path)) →
        ∃ k, k < n + 1 ∧ SentAt run E k ∧ owner = (run (k + 1)).projects.find? E.path := by
      intro D untold told E owner own
      rcases own with before | ⟨rfl, nearest⟩
      · exact earlier E owner before
      · exact ⟨n, Nat.lt_succ_self n, ⟨untold, told⟩, nearest⟩
    cases steps n with
    | still unsent manifests same => exact (booked.still unsent manifests same few).mono earlier
    | noted D installs projects broadcasts more =>
      exact (booked.noted installs projects broadcasts more few.2).mono earlier
    | sent D mid installs projects broadcasts sends same =>
      have noted := booked.noted installs projects broadcasts (fun E => Iff.rfl)
        (sends.manifests ▸ few.2)
      have untold := (noted.waiting D (Or.inl rfl)).2.1
      have left : ∀ E, due (n + 1) E ↔ (E = D ∨ due n E) ∧ E ≠ D := by
        intro E
        have unlike : due n E → E ≠ D := by
          rintro waits rfl
          cases installs.absent.symm.trans (booked.waiting E waits).1
        rw [same E]
        grind
      refine (noted.later (Or.inl rfl) sends left few.1).mono (sending (broadcasts ▸ untold) ?_)
      simp [sends.broadcasts]
    | later D was sends left =>
      refine (booked.later was sends left few.1).mono (sending (booked.waiting D was).2.1 ?_)
      simp [sends.broadcasts]

end

end ProjectIndex.Store
