import ProjectIndex.Proofs.Manifest.Registry

/-!
# The last word on a directory

Declarations of manifests for one directory, none of them withdrawn and nothing evicted.  The manifest
that is installed last stays, and the workers should hear of it last.  Between its installation and its
summary a declaration may wait for a project, and another one may be installed and sent meanwhile;
the first one then sends its own summary although it was replaced.

So the workers hear of the installed manifest last exactly if, when it was sent, no other declaration
still had to send what it had installed before.
-/

namespace ProjectIndex.Registry

open Std
open Declaration (Handling Phase)

/-- The move belongs to a declaration for this directory. -/
def Move.WorksOn (dir : Path) : Move → Prop
  | .declare _ r => r.directory = dir
  | .resume _ _ => True
  | _ => False

instance (dir : Path) (move : Move) : Decidable (move.WorksOn dir) :=
  match move with
  | .declare _ r => inferInstanceAs (Decidable (r.directory = dir))
  | .resume _ _ => inferInstanceAs (Decidable True)
  | .insertDirectory _ _ _ | .insertFile _ _ _ | .evict _ | .delete _ | .cancel _ =>
    inferInstanceAs (Decidable False)

/-- From `s` to `t` a declaration sends its definition while another one is installed and not sent. -/
structure SendsAmid (s t : Registry) (i : Nat) : Prop where
  unsent : ∀ D, s.phase i ≠ .sent D
  sent : ∃ D, t.phase i = .sent D
  waiting : ∃ j E, j ≠ i ∧ s.phase j = .installed E

def SentAmid (policy : Policy) (s : Registry) (moves : List Move) (i : Nat) : Prop :=
  ∃ before move, before ++ [move] <+: moves ∧
    SendsAmid (s.run policy before) ((s.run policy before).step policy move) i

theorem sentAmid_concat {policy : Policy} {s : Registry} {moves : List Move} {move : Move} {i : Nat} :
    SentAmid policy s (moves ++ [move]) i ↔
      SentAmid policy s moves i ∨
        SendsAmid (s.run policy moves) ((s.run policy moves).step policy move) i :=
  exists_prefix_concat

structure All (dir : Path) (s : Registry) : Prop where
  calls : ∀ call ∈ s.calls, call.progress.For dir
  own : ∀ i D, (s.phase i).definition? = some D → D.directory = dir

/-- The declaration that was installed last has not been sent; or it was sent when no other one was
waiting, and its summary is the last one; or another one was waiting, and waits still or was sent
last.  `amid` holds of the declarations that were sent while others were waiting. -/
inductive Latest (s : Registry) (amid : Nat → Prop) (i : Nat) (D : Definition) : Prop where
  | waiting (phase : s.phase i = .installed D)
  | heard (phase : s.phase i = .sent D) (alone : ¬ amid i) (others : ∀ j E, s.phase j ≠ .installed E)
      (last : s.store.broadcasts.head? = some D.summary)
  | amid (phase : s.phase i = .sent D) (amid : amid i)
      (other : ∃ j E, j ≠ i ∧ (s.phase j = .installed E ∨
        s.phase j = .sent E ∧ s.store.broadcasts.head? = some E.summary))

/-- What the workers have heard about the directory, against what is installed there. -/
structure Heard (dir : Path) (s : Registry) (amid : Nat → Prop) : Prop where
  silent : s.store.index.manifests[dir]? = none →
    s.store.broadcasts = [] ∧ ∀ i, (s.phase i).definition? = none
  latest : ∀ D, s.store.index.manifests[dir]? = some D → ∃ i, Latest s amid i D
  sent : ∀ i, amid i → ∃ D, s.phase i = .sent D

theorem all_fresh (dir : Path) (name : Name) (style : Backend.Style) :
    All dir (fresh name style) where
  calls call member := by simp [fresh] at member
  own i D known := by simp [fresh, phase, Phase.definition?] at known

theorem heard_fresh (dir : Path) (name : Name) (style : Backend.Style) :
    Heard dir (fresh name style) fun _ => False where
  silent _ := ⟨rfl, fun i => rfl⟩
  latest D found := by simp [fresh, Store.empty, Index.empty] at found
  sent _ none := none.elim

namespace All

variable {dir : Path} {s : Registry} {move : Move}

theorem target (all : All dir s) (serves : move.WorksOn dir) {other : Path}
    (target : move.directory? s = some other) : other = dir := by
  cases move with
  | declare g r => exact (Option.some.inj target).symm.trans serves
  | resume i world =>
    dsimp only [Move.directory?] at target
    split at target
    next g remarks d found =>
      have own := all.calls _ (List.mem_of_getElem? found)
      exact (Option.some.inj target).symm.trans own
    · cases target
  | insertDirectory | insertFile | evict | delete | cancel => exact serves.elim

theorem step (all : All dir s) (policy : Policy) (serves : move.WorksOn dir) :
    All dir (s.step policy move) where
  calls := by
    cases move with
    | declare g r =>
      intro call member
      rcases List.mem_append.1 member with before | now
      · exact all.calls call before
      · obtain rfl := List.mem_singleton.1 now
        have target := (Declaration.begin_deed policy g r { store := s.store }).2
        rwa [show r.directory = dir from serves] at target
    | resume i world =>
      dsimp only [Registry.step]
      split
      next g remarks d found =>
        intro call member
        rcases List.mem_or_eq_of_mem_set member with before | rfl
        · exact all.calls call before
        · have target := (Declaration.step_deed policy world g d ⟨s.store, remarks⟩).2
          have own : d.directory = dir := all.calls _ (List.mem_of_getElem? found)
          rwa [own] at target
      · exact all.calls
    | insertDirectory | insertFile | evict | delete | cancel => exact serves.elim
  own i D known := by
    cases step_change policy s move with
    | still same => exact all.own i D (same ▸ known)
    | apart own calls => exact all.own i D (by simpa only [phase, calls] using known)
    | called j other own target deed others =>
      by_cases same : i = j
      · subst same
        cases before : (s.phase i).definition? with
        | some E =>
          have kept := deed.definition_kept before
          rw [kept] at known
          obtain rfl := Option.some.inj known
          exact all.own i E before
        | none =>
          obtain ⟨directory, -⟩ := deed.puts before known
          exact directory.trans (all.target serves target)
      · exact all.own i D (others i same ▸ known)

end All

namespace Heard

variable {dir : Path} {s t : Registry} {amid : Nat → Prop} {i : Nat} {D : Definition}

/-- Nothing happens to the declarations, to the table and to the workers. -/
theorem quiet (heard : Heard dir s amid) (phases : ∀ j, t.phase j = s.phase j)
    (manifests : t.store.index.manifests = s.store.index.manifests)
    (broadcasts : t.store.broadcasts = s.store.broadcasts) :
    Heard dir t fun j => amid j ∨ SendsAmid s t j := by
  have same : (fun j => amid j ∨ SendsAmid s t j) = amid := by
    funext j
    apply propext
    refine or_iff_left fun sends => ?_
    obtain ⟨E, sent⟩ := sends.sent
    exact sends.unsent E (phases j ▸ sent)
  rw [same]
  constructor
  · intro none
    rw [broadcasts]
    simp only [phases]
    exact heard.silent (manifests ▸ none)
  · intro E found
    obtain ⟨j, latest⟩ := heard.latest E (manifests ▸ found)
    refine ⟨j, ?_⟩
    cases latest with
    | waiting phase => exact .waiting ((phases j).trans phase)
    | heard phase alone others last =>
      exact .heard ((phases j).trans phase) alone (fun k F => phases k ▸ others k F)
        (broadcasts ▸ last)
    | amid phase amid other =>
      refine .amid ((phases j).trans phase) amid ?_
      simpa only [phases, broadcasts] using other
  · intro j sends
    rw [phases j]
    exact heard.sent j sends

/-- What was sent stays so. -/
theorem still_sent (heard : Heard dir s amid) (unsent : ∀ E, s.phase i ≠ .sent E)
    (others : ∀ j, j ≠ i → t.phase j = s.phase j) {j : Nat} (before : amid j ∨ SendsAmid s t j) :
    ∃ E, t.phase j = .sent E := by
  rcases before with earlier | now
  · obtain ⟨E, sent⟩ := heard.sent j earlier
    have other : j ≠ i := fun same => unsent E (same ▸ sent)
    exact ⟨E, (others j other).trans sent⟩
  · exact now.sent

/-- A definition is installed and waits. -/
theorem noted (heard : Heard dir s amid) (before : s.phase i = .blank)
    (after : t.phase i = .installed D) (others : ∀ j, j ≠ i → t.phase j = s.phase j)
    (installed : t.store.index.manifests[dir]? = some D) :
    Heard dir t fun j => amid j ∨ SendsAmid s t j where
  silent none := by
    rw [installed] at none
    cases none
  latest E found := by
    rw [installed] at found
    obtain rfl := Option.some.inj found
    exact ⟨i, .waiting after⟩
  sent j := heard.still_sent (by simp [before]) others

/-- A definition that is sent now is the last one, and others may be waiting. -/
theorem latest_of_sent (heard : Heard dir s amid) (unsent : ∀ E, s.phase i ≠ .sent E)
    (after : t.phase i = .sent D) (others : ∀ j, j ≠ i → t.phase j = s.phase j)
    (last : t.store.broadcasts.head? = some D.summary) :
    Latest t (fun j => amid j ∨ SendsAmid s t j) i D := by
  by_cases waiting : ∃ j E, j ≠ i ∧ s.phase j = .installed E
  · obtain ⟨j, E, other, waits⟩ := waiting
    apply Latest.amid after
    · exact Or.inr ⟨unsent, ⟨D, after⟩, j, E, other, waits⟩
    · exact ⟨j, E, other, Or.inl ((others j other).trans waits)⟩
  · refine .heard after ?_ (fun j E waits => ?_) last
    · rintro (earlier | now)
      · obtain ⟨E, sent⟩ := heard.sent i earlier
        exact unsent E sent
      · exact waiting now.waiting
    · by_cases same : j = i
      · rw [same, after] at waits
        cases waits
      · exact waiting ⟨j, E, same, (others j same).symm.trans waits⟩

/-- A definition is installed and sent at once. -/
theorem sends (heard : Heard dir s amid) (before : s.phase i = .blank)
    (after : t.phase i = .sent D) (others : ∀ j, j ≠ i → t.phase j = s.phase j)
    (installed : t.store.index.manifests[dir]? = some D)
    (last : t.store.broadcasts.head? = some D.summary) :
    Heard dir t fun j => amid j ∨ SendsAmid s t j where
  silent none := by
    rw [installed] at none
    cases none
  latest E found := by
    rw [installed] at found
    obtain rfl := Option.some.inj found
    exact ⟨i, heard.latest_of_sent (by simp [before]) after others last⟩
  sent j := heard.still_sent (by simp [before]) others

/-- A definition that has waited is sent, whether it was replaced or not. -/
theorem catchesUp (heard : Heard dir s amid) (before : s.phase i = .installed D)
    (after : t.phase i = .sent D) (others : ∀ j, j ≠ i → t.phase j = s.phase j)
    (manifests : t.store.index.manifests = s.store.index.manifests)
    (last : t.store.broadcasts.head? = some D.summary) :
    Heard dir t fun j => amid j ∨ SendsAmid s t j where
  silent none := by
    obtain ⟨-, blank⟩ := heard.silent (manifests ▸ none)
    have absent := blank i
    rw [before] at absent
    cases absent
  latest E found := by
    obtain ⟨j, latest⟩ := heard.latest E (manifests ▸ found)
    refine ⟨j, ?_⟩
    by_cases same : j = i
    · subst same
      cases latest with
      | waiting phase =>
        obtain rfl := Phase.installed.inj (before.symm.trans phase)
        exact heard.latest_of_sent (by simp [before]) after others last
      | heard phase | amid phase =>
        rw [before] at phase
        cases phase
    · cases latest with
      | waiting phase => exact .waiting ((others j same).trans phase)
      | heard phase alone none => exact absurd before (none i D)
      | amid phase amid =>
        exact .amid ((others j same).trans phase) (Or.inl amid)
          ⟨i, D, Ne.symm same, Or.inr ⟨after, last⟩⟩
  sent j := heard.still_sent (by simp [before]) others

/-- Every move of a declaration for the directory. -/
theorem step (heard : Heard dir s amid) (all : All dir s) (policy : Policy) {move : Move}
    (serves : move.WorksOn dir) :
    Heard dir (s.step policy move) fun j => amid j ∨ SendsAmid s (s.step policy move) j := by
  cases step_change policy s move with
  | still same =>
    rw [same]
    exact heard.quiet (fun j => rfl) rfl rfl
  | apart own =>
    cases move with
    | declare | resume => cases own
    | insertDirectory | insertFile | evict | delete | cancel => exact serves.elim
  | called i other own target deed others =>
    obtain rfl := all.target serves target
    generalize before : s.phase i = p at deed
    generalize after : (s.step policy move).phase i = q at deed
    have quiet : q = p → ∀ j, (s.step policy move).phase j = s.phase j := by
      intro kept j
      by_cases same : j = i
      · rw [same, before, after, kept]
      · exact others j same
    cases deed with
    | idle phase logs | spent logs =>
      apply heard.quiet (quiet rfl) (congrArg Index.manifests logs.index)
      exact logs.tells.broadcasts
    | noted D own puts =>
      apply heard.noted before after others
      rw [puts.manifests, ← own, ExtTreeMap.getElem?_insert_self]
    | sent D own puts tells =>
      apply heard.sends before after others
      · rw [puts.manifests, ← own, ExtTreeMap.getElem?_insert_self]
      · rw [tells.broadcasts]
        rfl
    | later D manifests number tells =>
      exact heard.catchesUp before after others manifests (by rw [tells.broadcasts]; rfl)

end Heard

/-- All declarations have returned. -/
def Ended (s : Registry) : Prop :=
  ∀ call ∈ s.calls, call.progress.isFinished = true

instance (s : Registry) : Decidable (Ended s) :=
  inferInstanceAs (Decidable (∀ call ∈ s.calls, call.progress.isFinished = true))

theorem all_run (policy : Policy) (name : Name) (style : Backend.Style) {dir : Path}
    {moves : List Move} (serves : ∀ move ∈ moves, move.WorksOn dir) :
    All dir ((fresh name style).run policy moves) := by
  induction moves using List.reverseRecOn with
  | nil => exact all_fresh dir name style
  | append_singleton moves move ih =>
    rw [run_concat]
    apply (ih fun earlier member => serves earlier (List.mem_append_left _ member)).step
    exact serves move (by simp)

theorem heard_run (policy : Policy) (name : Name) (style : Backend.Style) {dir : Path}
    {moves : List Move} (serves : ∀ move ∈ moves, move.WorksOn dir) :
    Heard dir ((fresh name style).run policy moves) (SentAmid policy (fresh name style) moves) := by
  induction moves using List.reverseRecOn with
  | nil =>
    have none : SentAmid policy (fresh name style) [] = fun _ => False := by
      funext i
      simp [SentAmid]
    rw [none]
    exact heard_fresh dir name style
  | append_singleton moves move ih =>
    have earlier : ∀ move ∈ moves, move.WorksOn dir :=
      fun move member => serves move (List.mem_append_left _ member)
    have amid : SentAmid policy (fresh name style) (moves ++ [move]) = fun i =>
        SentAmid policy (fresh name style) moves i ∨
          SendsAmid ((fresh name style).run policy moves)
            (((fresh name style).run policy moves).step policy move) i :=
      funext fun i => propext sentAmid_concat
    rw [run_concat, amid]
    exact (ih earlier).step (all_run policy name style earlier) policy (serves move (by simp))

namespace Ended

variable {s : Registry} (ended : Ended s)

include ended

/-- A declaration that has returned has installed nothing, or it has sent what it returned. -/
theorem phase_cases (i : Nat) :
    s.phase i = .blank ∨ ∃ D, s.phase i = .sent D ∧ s.Returned i (.ok (some D)) := by
  unfold phase
  cases found : s.calls[i]? with
  | none => exact Or.inl rfl
  | some call =>
    obtain ⟨g, remarks, progress⟩ := call
    have finished := ended _ (List.mem_of_getElem? found)
    rcases progress with d | e | _ | D
    · cases finished
    · exact Or.inl rfl
    · exact Or.inl rfl
    · exact Or.inr ⟨D, rfl, _, found, rfl⟩

theorem not_installed (i : Nat) (D : Definition) : s.phase i ≠ .installed D := by
  rcases ended.phase_cases i with blank | ⟨E, sent, -⟩
  · simp [blank]
  · simp [sent]

theorem returned {i : Nat} {D : Definition} (sent : s.phase i = .sent D) :
    s.Returned i (.ok (some D)) := by
  rcases ended.phase_cases i with blank | ⟨E, same, returned⟩
  · rw [sent] at blank
    cases blank
  · obtain rfl := Phase.sent.inj (sent.symm.trans same)
    exact returned

end Ended

/-- Any number of declarations for one directory are asked for and go on in any order, until all have
returned.  If nothing is installed then, nothing was sent.  Otherwise some declaration returned what is
installed.  If no other declaration was waiting for a project when this one was sent, its summary is
the last one that the workers saw; if another one was, the last one is that of a definition which was
returned by another declaration, and which was installed before, as its smaller number shows. -/
theorem workers_hear_installed_last_unless_sent_amid (policy : Policy) (name : Name)
    (style : Backend.Style) (moves : List Move) (dir : Path)
    (serves : ∀ move ∈ moves, move.WorksOn dir)
    (ended : Ended ((fresh name style).run policy moves)) :
    let s := (fresh name style).run policy moves
    (s.store.index.manifest? dir = none → s.store.broadcasts = []) ∧
      ∀ D, s.store.index.manifest? dir = some D → ∃ i, s.Returned i (.ok (some D)) ∧
        (¬ SentAmid policy (fresh name style) moves i →
          s.store.broadcasts.head? = some D.summary) ∧
        (SentAmid policy (fresh name style) moves i →
          ∃ j E, j ≠ i ∧ s.Returned j (.ok (some E)) ∧
            s.store.broadcasts.head? = some E.summary ∧
            ((numbers policy (fresh name style) moves).length < UInt64.size → E.id < D.id)) := by
  intro s
  have heard := heard_run policy name style serves
  refine ⟨fun none => (heard.silent none).1, fun D found => ?_⟩
  obtain ⟨i, latest⟩ := heard.latest D found
  refine ⟨i, ?_⟩
  cases latest with
  | waiting phase => exact absurd phase (ended.not_installed i D)
  | heard phase alone none last =>
    exact ⟨ended.returned phase, fun _ => last, fun amid => absurd amid alone⟩
  | amid phase amid other =>
    refine ⟨ended.returned phase, fun alone => absurd amid alone, fun _ => ?_⟩
    obtain ⟨j, E, different, waits | ⟨sent, last⟩⟩ := other
    · exact absurd waits (ended.not_installed j E)
    · refine ⟨j, E, different, ended.returned sent, last, fun few => ?_⟩
      have kept := kept_run policy name style moves few
      have first : (j, E) ∈ installations policy (fresh name style) moves :=
        (kept.phases j E).1 (by rw [sent]; rfl)
      have second : (i, D) ∈ installations policy (fresh name style) moves :=
        (kept.phases i D).1 (by rw [phase]; rfl)
      have own : E.directory = dir :=
        (all_run policy name style serves).own j E (by rw [sent]; rfl)
      obtain ⟨-, -, largest⟩ := kept.table dir D found
      apply UInt64.lt_of_le_of_ne (largest j E first own)
      exact kept.ids_differ first second different

/-- Of the two manifests of `/a` the workers saw one last that was installed. -/
theorem workers_hear_installed_last_unless_sent_amid_redeclared :
    let s := (fresh [] .recursive).run (.ofSettings {}) redeclared
    ∃ i D, s.Returned i (.ok (some D)) ∧ s.store.broadcasts.head? = some D.summary := by
  intro s
  obtain ⟨D, found⟩ : ∃ D, s.store.index.manifest? ⟨[.root, .name [97]]⟩ = some D :=
    Option.isSome_iff_exists.1 (by decide +kernel)
  obtain ⟨i, returned, alone, overtaken⟩ :=
    (workers_hear_installed_last_unless_sent_amid (.ofSettings {}) [] .recursive redeclared
      ⟨[.root, .name [97]]⟩ (by decide +kernel) (by decide +kernel)).2 D found
  by_cases amid : SentAmid (.ofSettings {}) (fresh [] .recursive) redeclared i
  · obtain ⟨j, E, -, other, last, -⟩ := overtaken amid
    exact ⟨j, E, other, last⟩
  · exact ⟨i, D, returned, alone amid⟩

/-- The workers can see the summary of a manifest last that was replaced before. -/
theorem workers_hear_replaced_last :
    let s := (fresh [] .recursive).run (.ofSettings {}) redeclared
    (∀ move ∈ redeclared, move.WorksOn ⟨[.root, .name [97]]⟩) ∧ Ended s ∧
      (s.store.index.manifest? ⟨[.root, .name [97]]⟩).map (·.id) = some 2 ∧
      s.store.broadcasts.map (·.id) = [1, 2] := by
  refine ⟨by decide +kernel, by decide +kernel, by decide +kernel, by decide +kernel⟩

end ProjectIndex.Registry
