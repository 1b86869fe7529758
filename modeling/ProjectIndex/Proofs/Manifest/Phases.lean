import ProjectIndex.Manifest.Declaration
import ProjectIndex.Proofs.Store.Sendings

/-!
# The phases of a declaration

A declaration has installed nothing; or it has installed a definition and waits for the project that
the definition declares; or it has sent the definition to the workers.  A `Handling` is what the end of
one wait does to the store, from one phase to the next.  A definition is installed under the next
number, whatever its directory held before, and it is sent once.  As long as nothing is installed
there is nothing but lines of the log, although a number may be taken in vain.
-/

namespace ProjectIndex

def Effect.summary? : Effect → Option Summary
  | .broadcast summary => some summary
  | _ => none

namespace Store

/-- From `s` to `t` nothing happens to the index and the projects, and only lines of the log are
added. -/
structure Logs (s t : Store) : Prop where
  index : t.index = s.index
  projects : t.projects = s.projects
  lines : ∃ lines : List Log.Line, t.trace = lines.map .log ++ s.trace

def Tells (s t : Store) (summaries : List Summary) : Prop :=
  ∃ effects, t.trace = effects ++ s.trace ∧ effects.filterMap Effect.summary? = summaries

/-- A definition is installed under the next number, in place of what its directory held before. -/
structure Puts (s t : Store) (D : Definition) : Prop where
  id : D.id = s.nextManifest
  manifests : t.index.manifests = s.index.manifests.insert D.directory D
  number : t.nextManifest = s.nextManifest + 1

variable {s t u : Store}

theorem Logs.refl (s : Store) : s.Logs s :=
  ⟨rfl, rfl, [], rfl⟩

theorem logs_log (s : Store) (line : Log.Line) : s.Logs (s.log line) :=
  ⟨rfl, rfl, [line], rfl⟩

/-- Lines of the log send nothing. -/
theorem Logs.tells (logs : s.Logs t) : s.Tells t [] := by
  obtain ⟨lines, trace⟩ := logs.lines
  refine ⟨_, trace, ?_⟩
  rw [List.filterMap_eq_nil_iff]
  intro e member
  obtain ⟨line, _, rfl⟩ := List.mem_map.1 member
  rfl

/-- Effects come one after the other. -/
theorem Tells.trans {early late : List Summary} (first : s.Tells t early) (second : t.Tells u late) :
    s.Tells u (late ++ early) := by
  obtain ⟨before, tracet, rfl⟩ := first
  obtain ⟨after, traceu, rfl⟩ := second
  refine ⟨after ++ before, ?_, List.filterMap_append⟩
  rw [traceu, tracet, List.append_assoc]

theorem tells_emit (s : Store) (e : Effect) : s.Tells (s.emit e) e.summary?.toList := by
  refine ⟨[e], rfl, ?_⟩
  cases h : e.summary? <;> simp [h]

/-- What was sent so far. -/
theorem Tells.broadcasts {summaries : List Summary} (tells : s.Tells t summaries) :
    t.broadcasts = summaries ++ s.broadcasts := by
  have same : ∀ u : Store, u.broadcasts = u.trace.filterMap Effect.summary? := by
    intro u
    rw [Store.broadcasts]
    congr
  obtain ⟨effects, trace, rfl⟩ := tells
  rw [same, same, trace, List.filterMap_append]

/-- What was sent in between. -/
theorem Tells.since {summaries : List Summary} (tells : s.Tells t summaries) :
    (t.since s).filterMap Effect.summary? = summaries.reverse := by
  obtain ⟨effects, trace, rfl⟩ := tells
  simp [Store.since, trace, List.filterMap_reverse]

end Store

namespace Declaration

open Store

/-- How far a declaration has come. -/
inductive Phase where
  /-- Nothing is installed. -/
  | blank
  /-- A definition is installed and not sent. -/
  | installed (definition : Definition)
  /-- A definition is installed and sent. -/
  | sent (definition : Definition)

def Phase.definition? : Phase → Option Definition
  | .blank => none
  | .installed D => some D
  | .sent D => some D

def Phase.summaries : Phase → List Summary
  | .blank => []
  | .installed _ => []
  | .sent D => [D.summary]

def Progress.phase : Progress → Phase
  | .waiting (.reading _ _) => .blank
  | .waiting (.declaring D) => .installed D
  | .waiting (.publishing D) => .sent D
  | .finished (.ok (some D)) => .sent D
  | .finished (.ok none) => .blank
  | .finished (.error _) => .blank

def Progress.isFinished : Progress → Bool
  | .waiting _ => false
  | .finished _ => true

/-- The directory that a declaration is for. -/
def directory : Declaration → Path
  | .reading _ dir => dir
  | .declaring D => D.directory
  | .publishing D => D.directory

def Progress.For (dir : Path) : Progress → Prop
  | .waiting d => d.directory = dir
  | .finished _ => True

/-- What the end of a wait of a declaration for `dir` does to the store. -/
inductive Handling (dir : Path) (s t : Store) : Phase → Phase → Prop where
  | idle (phase : Phase) (logs : s.Logs t) (number : t.nextManifest = s.nextManifest) :
    Handling dir s t phase phase
  | spent (logs : s.Logs t) (number : t.nextManifest = s.nextManifest + 1) :
    Handling dir s t .blank .blank
  | noted (D : Definition) (own : D.directory = dir) (puts : s.Puts t D) (tells : s.Tells t []) :
    Handling dir s t .blank (.installed D)
  | sent (D : Definition) (own : D.directory = dir) (puts : s.Puts t D)
      (tells : s.Tells t [D.summary]) :
    Handling dir s t .blank (.sent D)
  | later (D : Definition) (manifests : t.index.manifests = s.index.manifests)
      (number : t.nextManifest = s.nextManifest) (tells : s.Tells t [D.summary]) :
    Handling dir s t (.installed D) (.sent D)

namespace Handling

variable {dir : Path} {s t : Store} {p q : Phase}

/-- A wait sends what is sent afterwards and was not before, and that is one summary at most. -/
theorem tells (deed : Handling dir s t p q) :
    ∃ new, s.Tells t new ∧ new.reverse = new ∧ q.summaries = p.summaries ++ new := by
  cases deed with
  | idle phase logs => exact ⟨[], logs.tells, rfl, (List.append_nil _).symm⟩
  | spent logs => exact ⟨[], logs.tells, rfl, rfl⟩
  | noted D _ _ tells => exact ⟨[], tells, rfl, rfl⟩
  | sent D _ _ tells | later D _ _ tells => exact ⟨[D.summary], tells, rfl, rfl⟩

/-- What is installed stays with its declaration. -/
theorem definition_kept (deed : Handling dir s t p q) {D : Definition}
    (known : p.definition? = some D) : q.definition? = some D := by
  cases deed with
  | idle => exact known
  | spent | noted | sent => cases known
  | later => exact known

/-- As long as nothing is installed there are only lines of the log. -/
theorem logs (deed : Handling dir s t p q) (blank : q.definition? = none) : s.Logs t := by
  cases deed with
  | idle _ logs | spent logs => exact logs
  | noted | sent | later => cases blank

/-- A definition that is new was put in its place by this wait. -/
theorem puts (deed : Handling dir s t p q) {D : Definition} (before : p.definition? = none)
    (after : q.definition? = some D) : D.directory = dir ∧ s.Puts t D := by
  cases deed with
  | idle =>
    rw [before] at after
    cases after
  | spent => cases after
  | noted E own puts | sent E own puts =>
    obtain rfl := Option.some.inj after
    exact ⟨own, puts⟩
  | later => cases before

end Handling

/-- The declaration of a project that comes into force sends nothing. -/
theorem projectDeclared_keeps (s : Store) (root : Path) :
    (s.projectDeclared root).index = s.index ∧
      (s.projectDeclared root).nextManifest = s.nextManifest ∧
      s.Tells (s.projectDeclared root) [] := by
  unfold Store.projectDeclared
  dsimp only
  split
  · exact ⟨rfl, rfl, [], rfl, rfl⟩
  · exact ⟨rfl, rfl, [.log _], rfl, rfl⟩

/-- A definition that is sent is sent once, and nothing else is. -/
theorem publish_sends (D : Definition) (s : Scope) :
    (publish D s).2 = .waiting (.publishing D) ∧
      (publish D s).1.store.index = s.store.index ∧
      (publish D s).1.store.nextManifest = s.store.nextManifest ∧
      s.store.Tells (publish D s).1.store [D.summary] := by
  unfold publish
  cases s.store.projects.find? D.path with
  | none => exact ⟨rfl, rfl, rfl, [.broadcast D.summary, .log _], rfl, rfl⟩
  | some project =>
    exact ⟨rfl, rfl, rfl, [.broadcast D.summary, .project .associate D.directory], rfl, rfl⟩

/-- A number is taken in vain if the generation is cancelled; otherwise the manifest is installed
under it. -/
theorem takeNumber_cases (g : Generation) (r : Request) (m : Manifest) (hash : String) (s : Store) :
    (∃ t, takeNumber g r m hash s = (t, none) ∧ s.Logs t ∧
        t.nextManifest = s.nextManifest + 1) ∨
      ∃ t D, takeNumber g r m hash s = (t, some D) ∧ D.directory = r.directory ∧ s.Puts t D ∧
        s.Tells t [] := by
  unfold takeNumber Index.setManifest
  cases s.isLive g with
  | false => exact Or.inl ⟨_, rfl, ⟨rfl, rfl, [], rfl⟩, rfl⟩
  | true => exact Or.inr ⟨_, _, rfl, rfl, ⟨rfl, rfl, rfl⟩, [.log _], rfl, rfl⟩

theorem install_deed (policy : Policy) (g : Generation) (r : Request) (bytes : List UInt8)
    (s : Scope) :
    Handling r.directory s.store (install policy g r bytes s).1.store .blank
        (install policy g r bytes s).2.phase ∧
      (install policy g r bytes s).2.For r.directory := by
  unfold install
  cases Json.parse bytes with
  | error fault => exact ⟨.idle _ (.refl _) rfl, trivial⟩
  | ok value =>
    dsimp only
    split
    · exact ⟨.idle _ (logs_log _ _) rfl, trivial⟩
    next m _ =>
      rcases takeNumber_cases g r m (Sha256.hex bytes) s.store with
        ⟨t, taken, logs, number⟩ | ⟨t, D, taken, own, puts, tells⟩
      · simp only [Scope.remarkAll, taken]
        exact ⟨.spent logs number, trivial⟩
      · simp only [Scope.remarkAll, taken]
        split
        · refine ⟨.noted D own ⟨puts.id, puts.manifests, puts.number⟩ ?_, own⟩
          exact tells.trans (tells_emit t _)
        · obtain ⟨next, index, number, sends⟩ := publish_sends D
            ⟨t, s.remarks ++ (Manifest.normalise _ value).remarks⟩
          rw [next]
          refine ⟨.sent D own ⟨puts.id, ?_, number.trans puts.number⟩ (tells.trans sends), own⟩
          exact (congrArg Index.manifests index).trans puts.manifests

/-- What happens when a declaration is asked for. -/
theorem begin_deed (policy : Policy) (g : Generation) (r : Request) (s : Scope) :
    Handling r.directory s.store (begin policy g r s).1.store .blank (begin policy g r s).2.phase ∧
      (begin policy g r s).2.For r.directory := by
  unfold begin
  split
  · exact ⟨.idle _ (logs_log _ _) rfl, trivial⟩
  · split
    · exact install_deed policy g r _ s
    · exact ⟨.idle _ (.refl _) rfl, rfl⟩

/-- What happens at the end of each wait. -/
theorem step_deed (policy : Policy) (world : World) (g : Generation) (d : Declaration) (s : Scope) :
    Handling d.directory s.store (d.step policy world g s).1.store (Progress.waiting d).phase
        (d.step policy world g s).2.phase ∧
      (d.step policy world g s).2.For d.directory := by
  cases d with
  | reading path dir =>
    dsimp only [step]
    cases world.contents path with
    | ok bytes => exact install_deed policy g ⟨path, dir, none⟩ bytes s
    | error cause =>
      dsimp only
      split
      · exact ⟨.idle _ (logs_log _ _) rfl, trivial⟩
      · exact ⟨.idle _ (.refl _) rfl, trivial⟩
  | declaring D =>
    obtain ⟨index, number, declared⟩ := projectDeclared_keeps s.store D.directory
    obtain ⟨next, index', number', sends⟩ := publish_sends D
      ((s.remarkAll (world.projectRemarks D.directory)).update (·.projectDeclared D.directory))
    dsimp only [step]
    rw [next]
    refine ⟨.later D ?_ (number'.trans number) (declared.trans sends), rfl⟩
    exact congrArg Index.manifests (index'.trans index)
  | publishing D => exact ⟨.idle _ (.refl _) rfl, trivial⟩

end Declaration

end ProjectIndex
