import ProjectIndex.Proofs.Crawl.Turns
import ProjectIndex.Proofs.Watch.Withdrawal

/-!
# Announcements of interleaved requests

A request registers a file before it announces it, and it waits in between if the file declares a
project or a manifest.  Another request may delete the file meanwhile and say so.  The first one does
not look again: when it goes on it announces a file that is known no more, and that is the last that
is said of it.

Here this is shown to be the only way in which notices mislead.  Take any number of watches and
refreshes that are interleaved in any way, on a disk that changes in any way, while nothing is
withdrawn and no access to the disk fails.  When all of them have been answered, the newest notice
about a file that is known says that it is there, and a newest notice that says so of a file that is
not known was sent late in just this sense.
-/

namespace ProjectIndex

/-- The failure is an answer of the disk, whatever had been found before it. -/
def IndexError.isOfDisk : IndexError → Bool
  | .io _ _ => true
  | .aborted source _ => source.isOfDisk
  | _ => false

theorem IndexError.isOfDisk_withDiagnostics (e : IndexError) (remarks : List Diagnostic) :
    (e.withDiagnostics remarks).isOfDisk = e.isOfDisk := by
  unfold withDiagnostics
  split <;> rfl

namespace Watch

open Crawl (Arrival Task Turn TurnAt)
open Store (Calm)

def Reply.isOfDisk : Reply → Bool
  | .watched (.error e) => e.isOfDisk
  | .refreshed (.error e) => e.isOfDisk
  | _ => false

def Progress.task? : Progress → Option Task
  | .waiting (.crawling _ _ task _) => some task
  | .waiting (.refreshing _ _ task _) => some task
  | _ => none

theorem Progress.task?_of_idle {progress : Progress} (idle : progress.duty? = none) :
    progress.task? = none := by
  cases progress with
  | finished reply => rfl
  | waiting call =>
    cases call with
    | joining | draining | looking | opening => rfl
    | crawling | refreshing => cases idle

def Progress.Bears (progress : Progress) (a : Arrival) : Prop :=
  ∃ task ∈ progress.task?, task.Bears a

/-- Everything that failed so far is an access to the disk. -/
def Progress.Honest (progress : Progress) : Prop :=
  ∀ task ∈ progress.task?, ∀ e, task.Failed e → ∃ path cause, e = .io path cause

structure Progress.Fine (progress : Progress) : Prop where
  task : ∀ task ∈ progress.task?, ∀ e, ¬ task.Failed e
  reply : ∀ reply, progress = .finished reply → reply.isOfDisk = false

/-- A request that was at this task, if it was at one, goes on. -/
structure Proceeds (h : Host) (before : Option Task) (next : Host × Progress) : Prop where
  cancelled : next.1.store.cancelled = h.store.cancelled
  filed : next.1.store.index.Filed
  honest : next.2.Honest
  fine : next.2.Fine → ∀ task ∈ before, ∀ e, ¬ task.Failed e
  turn : next.2.Fine →
    Turn h.store next.1.store (fun a => ∃ task ∈ before, task.Bears a) next.2.Bears

/-- A request that has no crawl under way changes no file. -/
theorem Proceeds.idle {h : Host} {next : Host × Progress} (filed : h.store.index.Filed)
    (calm : Calm h.store next.1.store) (cancelled : next.1.store.cancelled = h.store.cancelled)
    (idle : next.2.task? = none) : Proceeds h none next where
  cancelled := cancelled
  filed := calm.filed filed
  honest := by simp [Progress.Honest, idle]
  fine := by simp
  turn _ := .of_calm calm (by simp)

/-- Where a crawl stands is where its request stands. -/
structure Resumed (r : Scope × Crawl.Progress) (next : Host × Progress) : Prop where
  quiet : r.1.store.Quiet next.1.store
  borne : ∀ a, r.2.Bears a → next.2.Bears a
  failed : ∀ task ∈ next.2.task?, ∀ e, task.Failed e → r.2.Failed e
  fine : next.2.Fine → ∀ path cause, ¬ r.2.Failed (.io path cause)

theorem Resumed.waiting {s : Scope} {task : Task} {next : Host × Progress}
    (store : next.1.store = s.store) (stands : next.2.task? = some task) :
    Resumed (s, .waiting task) next where
  quiet := store ▸ .refl _
  borne _ borne := ⟨task, stands, borne⟩
  failed _ member _ failed := Option.some.inj (stands.symm.trans member) ▸ failed
  fine fine _ _ := fine.task task stands _

theorem Resumed.finished {s : Scope} {result : Except IndexError Bool} {next : Host × Progress}
    {reply : Reply} (quiet : s.store.Quiet next.1.store) (ends : next.2 = .finished reply)
    (told : ∀ path cause, result = .error (.io path cause) → reply.isOfDisk = true) :
    Resumed (s, .finished result) next where
  quiet := quiet
  borne _ borne := borne.elim
  failed := by
    rw [ends]
    rintro _ ⟨⟩
  fine fine path cause failed := by
    have hidden := fine.reply reply ends
    rw [told path cause failed] at hidden
    cases hidden

theorem resumed_watch (root : Path) (g : Generation) (roots : Roots) (r : Scope × Crawl.Progress) :
    Resumed r (Host.resumeWatch root g roots r) := by
  obtain ⟨s, task | result⟩ := r
  · exact .waiting rfl rfl
  · refine .finished (Host.finishWatch_keeps root g result s.remarks ⟨s.store, roots⟩).1 rfl ?_
    rintro path cause rfl
    exact IndexError.isOfDisk_withDiagnostics _ s.remarks

theorem resumed_refresh (path : Path) (g : Generation) (roots : Roots)
    (r : Scope × Crawl.Progress) : Resumed r (Host.resumeRefresh path g roots r) := by
  obtain ⟨s, task | result⟩ := r
  · exact .waiting rfl rfl
  · refine .finished (Host.finishRefresh_keeps path result s.remarks ⟨s.store, roots⟩).1 rfl ?_
    rintro path cause rfl
    exact IndexError.isOfDisk_withDiagnostics _ s.remarks

/-- A crawl begins without a failure. -/
theorem Resumed.begun {h : Host} {r : Scope × Crawl.Progress} {next : Host × Progress}
    (resumed : Resumed r next) (filed : h.store.index.Filed) (calm : Calm h.store r.1.store)
    (cancelled : r.1.store.cancelled = h.store.cancelled) (fine : ∀ e, ¬ r.2.Failed e) :
    Proceeds h none next where
  cancelled := resumed.quiet.cancelled.trans cancelled
  filed := (calm.trans (.of_quiet resumed.quiet)).filed filed
  honest task member e failed := absurd (resumed.failed task member e failed) (fine e)
  fine := by simp
  turn _ := .of_calm (calm.trans (.of_quiet resumed.quiet)) (by simp)

/-- A crawl that is under way makes a move. -/
theorem Resumed.moved {h : Host} {ctx : Crawl.Context} {world : World} {task : Task}
    {remarks : List Diagnostic} {r : Scope × Crawl.Progress} {next : Host × Progress}
    (resumed : Resumed r next) (moved : Task.Moves ctx world ⟨h.store, remarks⟩ task r)
    (live : h.store.isStale ctx.generation = false) (filed : h.store.index.Filed)
    (honest : ∀ e, task.Failed e → ∃ path cause, e = .io path cause) :
    Proceeds h (some task) next := by
  have answers : ∀ e, r.2.Failed e → ∃ path cause, e = .io path cause := fun e failed =>
    (moved.failed_before live failed).elim (honest e) id
  have fine : next.2.Fine → ∀ e, ¬ r.2.Failed e := by
    intro fine e failed
    obtain ⟨path, cause, rfl⟩ := answers e failed
    exact resumed.fine fine path cause failed
  refine ⟨resumed.quiet.cancelled.trans moved.edits.generations.1,
    resumed.quiet.index ▸ moved.edits.filed filed,
    fun task member e failed => answers e (resumed.failed task member e failed), ?_, ?_⟩
  · rintro well _ ⟨⟩ e failed
    obtain ⟨e', later⟩ := moved.fails failed
    exact fine well e' later
  · intro well
    exact ((moved.turn live filed (fine well)).calm (.of_quiet resumed.quiet)).congr (by simp)
      resumed.borne

namespace Host

variable {h : Host}

theorem watch_proceeds (filed : h.store.index.Filed) (root : Path) :
    Proceeds h none (h.watch root) := by
  rcases h.watch_cases root with ⟨quiet, _, idle⟩ | ⟨_, _, quiet, _, starts⟩
  · exact .idle filed (.of_quiet quiet) quiet.cancelled (Progress.task?_of_idle idle)
  · have bumped : Calm h.store { h.store with nextGeneration := h.store.nextGeneration + 1 } :=
      ⟨rfl, rfl, id⟩
    exact .idle filed (bumped.trans (.of_quiet quiet)) quiet.cancelled (by rw [starts]; rfl)

theorem refresh_proceeds (filed : h.store.index.Filed) (policy : Policy) (path : Path) :
    Proceeds h none (h.refresh policy path) := by
  unfold refresh
  split
  · exact .idle filed (.of_quiet (Store.quiet_log _ _)) rfl rfl
  next g _ =>
    unfold Crawl.Context.refresh
    split
    · unfold Crawl.Context.addEntry
      split
      · exact (resumed_refresh path g h.roots _).begun filed (.refl _) rfl
          (by simp [Crawl.Progress.Failed])
      · refine (resumed_refresh path g h.roots _).begun filed (.refl _) rfl ?_
        rintro e ⟨⟩
    · exact (resumed_refresh path g h.roots _).begun filed (.of_quiet (Store.quiet_log _ _)) rfl
        (by simp [Crawl.Progress.Failed])

theorem failWatch_proceeds (filed : h.store.index.Filed) (root : Path) (g : Generation)
    (e : IndexError) : Proceeds h none (h.failWatch root g e) := by
  have quiet := (finishWatch_keeps root g (.error e) [] h).1
  exact .idle filed (.of_quiet quiet) quiet.cancelled rfl

end Host

theorem Call.step_proceeds {call : Call} {h : Host} (live : h.store.cancelled = [])
    (filed : h.store.index.Filed) (honest : (Progress.waiting call).Honest) (policy : Policy)
    (world : World) (schedule : List Nat) :
    Proceeds h (Progress.waiting call).task? (call.step policy world schedule h) := by
  have generation : ∀ g, h.store.isStale g = false := by simp [Store.isStale, live]
  cases call with
  | joining root g =>
    unfold step
    dsimp only
    split <;> exact .idle filed (.refl _) rfl rfl
  | draining root below =>
    unfold step
    dsimp only
    split
    · exact Host.watch_proceeds filed root
    · exact .idle filed (.refl _) rfl rfl
  | looking root g =>
    unfold step
    dsimp only
    split
    · exact Host.failWatch_proceeds filed root g _
    · split
      · exact .idle filed (.of_quiet (Store.quiet_askRoot _ _)) rfl rfl
      · exact Host.failWatch_proceeds filed root g _
  | opening root g status =>
    unfold step
    dsimp only
    split
    · exact Host.failWatch_proceeds filed root g _
    · have opened := Store.quiet_rootTaken h.store root
      have still : (h.store.rootTaken root).isStale g = false :=
        (opened.isStale g).trans (generation g)
      have edits := @Crawl.edits_addDirectory (firstCrawl policy g) root status
        { store := h.store.rootTaken root }
      have calm := @Crawl.calm_addDirectory (firstCrawl policy g) root status
        { store := h.store.rootTaken root }
      refine (resumed_watch root g h.roots _).begun filed ((Calm.of_quiet opened).trans calm) ?_ ?_
      · exact edits.generations.1.trans opened.cancelled
      · exact fun e => Crawl.not_failed_addDirectory still
  | crawling root g task remarks =>
    exact (resumed_watch root g h.roots _).moved
      (Task.step_moves (firstCrawl policy g) world schedule task ⟨h.store, remarks⟩) (generation g)
      filed (honest task rfl)
  | refreshing path g task remarks =>
    exact (resumed_refresh path g h.roots _).moved
      (Task.step_moves (refreshCrawl policy g) world schedule task ⟨h.store, remarks⟩) (generation g)
      filed (honest task rfl)

namespace System

def Bears (s : System) (a : Arrival) : Prop :=
  ∃ progress ∈ s.calls, progress.Bears a

def Fine (s : System) : Prop :=
  ∀ progress ∈ s.calls, progress.Fine

/-- Nothing was withdrawn, and everything that failed is an access to the disk. -/
structure Steady (s : System) : Prop where
  live : s.host.store.cancelled = []
  filed : s.host.store.index.Filed
  honest : ∀ progress ∈ s.calls, progress.Honest

theorem steady_fresh (name : Name) (style : Backend.Style) : (fresh name style).Steady :=
  ⟨rfl, Index.filed_empty name, by simp [fresh]⟩

variable {policy : Policy} {s : System}

/-- One request goes on, or is new, and the others stay as they are. -/
private theorem Steady.one (steady : s.Steady) {next : Host × Progress}
    (old : Option Progress) {before after : List Progress}
    (calls : s.calls = before ++ (old.toList ++ after))
    (waits : ∀ reply, old ≠ some (.finished reply))
    (proceeds : Proceeds s.host (old.bind Progress.task?) next) :
    let t : System := ⟨next.1, before ++ next.2 :: after⟩
    t.Steady ∧ (t.Fine → s.Fine ∧ Turn s.host.store t.host.store s.Bears t.Bears) := by
  refine ⟨⟨proceeds.cancelled.trans steady.live, proceeds.filed, fun progress member => ?_⟩,
    fun fine => ⟨fun progress member => ?_, ?_⟩⟩
  · rcases List.mem_append.1 member with left | member
    · exact steady.honest progress (by simp [calls, left])
    · rcases List.mem_cons.1 member with rfl | right
      · exact proceeds.honest
      · exact steady.honest progress (by simp [calls, right])
  · simp only [calls, List.mem_append, Option.mem_toList] at member
    rcases member with left | rfl | right
    · exact fine progress (by simp [left])
    · refine ⟨fun task member => ?_, fun reply ended => absurd (congrArg some ended) (waits reply)⟩
      exact proceeds.fine (fine next.2 (by simp)) task member
    · exact fine progress (by simp [right])
  · refine (proceeds.turn (fine next.2 (by simp))).beside
      (fun a => ∃ progress ∈ before ++ after, progress.Bears a) (fun a => ?_) fun a => ?_
    · simp only [Bears, calls, List.mem_append, Option.mem_toList]
      constructor
      · rintro ⟨progress, left | own | right, borne⟩
        · exact Or.inr ⟨progress, Or.inl left, borne⟩
        · obtain ⟨task, waiting, borne⟩ := borne
          exact Or.inl ⟨task, Option.mem_bind_iff.2 ⟨progress, own, waiting⟩, borne⟩
        · exact Or.inr ⟨progress, Or.inr right, borne⟩
      · rintro (⟨task, waiting, borne⟩ | ⟨progress, left | right, borne⟩)
        · obtain ⟨progress, own, waiting⟩ := Option.mem_bind_iff.1 waiting
          exact ⟨progress, Or.inr (Or.inl own), task, waiting, borne⟩
        · exact ⟨progress, Or.inl left, borne⟩
        · exact ⟨progress, Or.inr (Or.inr right), borne⟩
    · rintro (borne | ⟨progress, member, borne⟩)
      · exact ⟨next.2, by simp, borne⟩
      · rcases List.mem_append.1 member with left | right
        · exact ⟨progress, by simp [left], borne⟩
        · exact ⟨progress, by simp [right], borne⟩

/-- A move that withdraws nothing is a turn, unless an access to the disk has failed. -/
theorem Steady.step (steady : s.Steady) (policy : Policy) {move : Move}
    (stays : ∀ root, move ≠ .unwatch root) :
    (s.step policy move).Steady ∧ ((s.step policy move).Fine → s.Fine ∧
      Turn s.host.store (s.step policy move).host.store s.Bears (s.step policy move).Bears) := by
  cases move with
  | watch root =>
    exact steady.one none (by simp) (by simp) (Host.watch_proceeds steady.filed root)
  | refresh path =>
    exact steady.one none (by simp) (by simp)
      (Host.refresh_proceeds steady.filed policy path)
  | unwatch root => exact absurd rfl (stays root)
  | resume i world schedule =>
    dsimp only [System.step]
    split
    next call found =>
      obtain ⟨within, own⟩ := List.getElem?_eq_some_iff.1 found
      obtain ⟨before, after, calls, _, replaced⟩ :=
        @List.exists_of_set _ i (call.step policy world schedule s.host).2 s.calls within
      rw [own] at calls
      rw [replaced]
      exact steady.one (some (.waiting call)) calls (by simp)
        (Call.step_proceeds steady.live steady.filed
          (steady.honest (.waiting call) (by simp [calls])) policy world schedule)
    · exact ⟨steady, fun fine => ⟨fine, .of_calm (.refl _) fun _ => id⟩⟩

theorem run_append (policy : Policy) (s : System) (first second : List Move) :
    s.run policy (first ++ second) = (s.run policy first).run policy second :=
  List.foldl_append

theorem Steady.run (steady : s.Steady) (policy : Policy) {moves : List Move}
    (stays : ∀ root, .unwatch root ∉ moves) : (s.run policy moves).Steady := by
  induction moves generalizing s with
  | nil => exact steady
  | cons move rest ih =>
    have first : ∀ root, move ≠ .unwatch root := fun root same => stays root (by simp [same])
    exact ih (steady.step policy first).1 fun root member => stays root (List.mem_cons_of_mem _ member)

/-- The last move of a run, seen from one path. -/
theorem Steady.told (steady : s.Steady) {moves : List Move} {move : Move}
    (stays : ∀ root, .unwatch root ∉ moves ++ [move])
    (fine : (s.run policy (moves ++ [move])).Fine) (p : Path) :
    (∀ root, .unwatch root ∉ moves) ∧ (s.run policy moves).Fine ∧
      ∃ sent, (s.run policy (moves ++ [move])).host.store.notices =
          sent ++ (s.run policy moves).host.store.notices ∧
        TurnAt (s.run policy moves).host.store (s.run policy (moves ++ [move])).host.store
          (s.run policy moves).Bears (s.run policy (moves ++ [move])).Bears p sent := by
  have before : ∀ root, .unwatch root ∉ moves :=
    fun root member => stays root (List.mem_append_left _ member)
  have last : ∀ root, move ≠ .unwatch root := fun root same => stays root (by simp [same])
  rw [run_append] at fine ⊢
  obtain ⟨earlier, turn⟩ := ((steady.run policy before).step policy last).2 fine
  exact ⟨before, earlier, turn.told p⟩

/-- A path that was no file and has become one: since then it was announced, or a request is to
announce it. -/
theorem Steady.announced (steady : s.Steady) {moves : List Move}
    (stays : ∀ root, .unwatch root ∉ moves) (fine : (s.run policy moves).Fine) {p : Path}
    (absent : p ∉ s.host.store.index.files) :
    ∃ sent, (s.run policy moves).host.store.notices = sent ++ s.host.store.notices ∧
      (p ∈ (s.run policy moves).host.store.index.files →
        (∃ n, Notice.latest sent p = some n ∧ n.isArrival = true) ∨
          ∃ a, (s.run policy moves).Bears a ∧ a.path = p ∧ a.previous = none) := by
  induction moves using List.reverseRecOn with
  | nil => exact ⟨[], rfl, fun known => absurd known absent⟩
  | append_singleton moves move ih =>
    obtain ⟨before, earlier, more, said, told⟩ := steady.told stays fine p
    obtain ⟨sent, notices, known⟩ := ih before earlier
    refine ⟨more ++ sent, by rw [said, notices, List.append_assoc], fun file => ?_⟩
    cases told with
    | silent nothing same kept =>
      rw [Notice.latest_append_of_silent nothing]
      refine (known (same.1 file)).imp_right fun ⟨a, borne, path, new⟩ => ?_
      exact ⟨a, kept a borne path new, path, new⟩
    | pending _ borne => exact Or.inr borne
    | arrived newest arrival _ =>
      exact Or.inl ⟨_, by rw [Notice.latest_append, newest]; rfl, arrival⟩
    | late _ _ _ _ gone => exact absurd file gone
    | deleted _ gone => exact absurd file gone

/-- The notice was sent when the path was no file, by a request that had registered it before, and
nothing was said of the path afterwards. -/
inductive AnnouncedLate (policy : Policy) (s : System) : List Move → Path → Notice → Prop where
  | now {moves : List Move} {move : Move} {a : Arrival} {n : Notice}
      (bore : (s.run policy moves).Bears a)
      (sent : (s.run policy (moves ++ [move])).host.store.notices =
        n :: (s.run policy moves).host.store.notices)
      (about : n.path = a.path)
      (gone : a.path ∉ (s.run policy (moves ++ [move])).host.store.index.files) :
      AnnouncedLate policy s (moves ++ [move]) a.path n
  | later {moves : List Move} {move : Move} {p : Path} {n : Notice} {sent : List Notice}
      (late : AnnouncedLate policy s moves p n)
      (said : (s.run policy (moves ++ [move])).host.store.notices =
        sent ++ (s.run policy moves).host.store.notices)
      (silent : ∀ m ∈ sent, m.path ≠ p) : AnnouncedLate policy s (moves ++ [move]) p n

/-- A path of which the newest notice says that it is there is a file, or the notice was sent late. -/
theorem Steady.known_or_late (steady : s.Steady) {moves : List Move}
    (stays : ∀ root, .unwatch root ∉ moves) (fine : (s.run policy moves).Fine) {p : Path}
    {n : Notice} (unsaid : Notice.latest s.host.store.notices p = none)
    (newest : Notice.latest (s.run policy moves).host.store.notices p = some n)
    (arrival : n.isArrival = true) :
    p ∈ (s.run policy moves).host.store.index.files ∨ AnnouncedLate policy s moves p n := by
  induction moves using List.reverseRecOn with
  | nil => cases unsaid.symm.trans newest
  | append_singleton moves move ih =>
    obtain ⟨before, earlier, sent, said, told⟩ := steady.told stays fine p
    rw [said] at newest
    cases told with
    | silent nothing same _ =>
      rw [Notice.latest_append_of_silent nothing] at newest
      exact (ih before earlier newest).imp same.2 fun late => .later late said nothing
    | pending known _ => exact Or.inl known
    | arrived _ _ known => exact Or.inl known
    | @late m a bore path only about gone =>
      subst path
      obtain rfl : m = n := by simpa [only, Notice.latest, about] using newest
      exact Or.inr (.now bore (by rw [said, only]; rfl) about gone)
    | deleted last _ =>
      rw [Notice.latest_append, last, Option.some_or] at newest
      cases newest
      cases arrival

/-- Since a notice was sent late nothing was said of the path, which was no file then. -/
theorem AnnouncedLate.since {moves : List Move} {p : Path} {n : Notice}
    (late : AnnouncedLate policy s moves p n) :
    ∃ before after sent, moves = before ++ after ∧
      p ∉ (s.run policy before).host.store.index.files ∧
      (s.run policy moves).host.store.notices =
        sent ++ (s.run policy before).host.store.notices ∧ ∀ m ∈ sent, m.path ≠ p := by
  induction late with
  | @now moves move a n _ _ _ gone =>
    exact ⟨moves ++ [move], [], [], by simp, gone, rfl, by simp⟩
  | @later moves move p n more _ said silent ih =>
    obtain ⟨before, after, sent, rfl, gone, notices, nothing⟩ := ih
    refine ⟨before, after ++ [move], more ++ sent, by simp, gone, ?_, fun m member => ?_⟩
    · rw [said, notices, List.append_assoc]
    · exact (List.mem_append.1 member).elim (silent m) (nothing m)

/-- What was announced late is no file when all requests have been answered. -/
theorem AnnouncedLate.not_known {moves : List Move} {p : Path} {n : Notice}
    (late : AnnouncedLate policy s moves p n) (steady : s.Steady)
    (stays : ∀ root, .unwatch root ∉ moves) (fine : (s.run policy moves).Fine)
    (idle : ∀ a, ¬ (s.run policy moves).Bears a) :
    p ∉ (s.run policy moves).host.store.index.files := by
  obtain ⟨before, after, sent, rfl, gone, notices, nothing⟩ := late.since
  have earlier : ∀ root, .unwatch root ∉ before :=
    fun root member => stays root (List.mem_append_left _ member)
  have since : ∀ root, .unwatch root ∉ after :=
    fun root member => stays root (List.mem_append_right _ member)
  rw [run_append] at fine idle notices ⊢
  obtain ⟨more, said, told⟩ := (steady.run policy earlier).announced since fine gone
  obtain rfl : more = sent := List.append_cancel_right (said.symm.trans notices)
  intro file
  rcases told file with ⟨m, newest, _⟩ | ⟨a, borne, _⟩
  · rw [Notice.latest_eq_none.2 nothing] at newest
    cases newest
  · exact idle a borne

/-- Any watches and refreshes, interleaved in any way, in worlds that may answer differently at every
wait; nothing is withdrawn, and all of them have been answered without a failure of the disk.  Then
the newest notice about a known file says that it is there.  So a path of which the newest notice says
that it was deleted is no file; and a path of which it says that it is there is no file if and only if
that notice was sent late. -/
theorem last_notice_true_unless_late (policy : Policy) (name : Name) (style : Backend.Style)
    (moves : List Move) (stays : ∀ root, .unwatch root ∉ moves)
    (settled : ∀ progress ∈ ((fresh name style).run policy moves).calls,
      ∃ reply, progress = .finished reply ∧ reply.isOfDisk = false) (p : Path) :
    let s := (fresh name style).run policy moves
    (p ∈ s.host.store.index.files →
        ∃ n, Notice.latest s.host.store.notices p = some n ∧ n.isArrival = true) ∧
      ∀ n, Notice.latest s.host.store.notices p = some n →
        (n.isArrival = false → p ∉ s.host.store.index.files) ∧
        (n.isArrival = true → (p ∉ s.host.store.index.files ↔
          AnnouncedLate policy (fresh name style) moves p n)) := by
  intro s
  have steady := steady_fresh name style
  have fine : s.Fine := by
    intro progress member
    obtain ⟨reply, rfl, unhurt⟩ := settled progress member
    refine ⟨by rintro _ ⟨⟩, ?_⟩
    rintro _ ⟨⟩
    exact unhurt
  have idle : ∀ a, ¬ s.Bears a := by
    rintro a ⟨progress, member, task, waiting, _⟩
    obtain ⟨reply, rfl, _⟩ := settled progress member
    cases waiting
  have known : p ∈ s.host.store.index.files →
      ∃ n, Notice.latest s.host.store.notices p = some n ∧ n.isArrival = true := by
    intro file
    obtain ⟨sent, notices, told⟩ := steady.announced stays fine (p := p)
      (by simp [fresh, Store.empty, Index.empty])
    rcases told file with ⟨n, newest, arrival⟩ | ⟨a, borne, _⟩
    · refine ⟨n, ?_, arrival⟩
      rw [notices, Notice.latest_append, newest, Option.some_or]
    · exact absurd borne (idle a)
  refine ⟨known, fun n newest => ⟨fun departure file => ?_, fun arrival => ⟨fun absent => ?_, ?_⟩⟩⟩
  · obtain ⟨m, last, arrival⟩ := known file
    rw [newest, Option.some.injEq] at last
    rw [last, arrival] at departure
    cases departure
  · exact (steady.known_or_late stays fine rfl newest arrival).resolve_left absent
  · exact fun late => late.not_known steady stays fine idle

/-- The world in which there is nothing. -/
def nothingAnywhere : World where
  entry _ := .error .notFound
  stat _ := .error .notFound
  children _ := .error .notFound
  contents _ := .error .notFound

/-- A watch on `/a`, and two refreshes of `/a/projfs.json`: the first one finds a file that declares a
project and waits for the project, the second one finds nothing. -/
def overtaken : List Move :=
  [.watch ⟨[.root, .name [97]]⟩] ++ List.replicate 4 (.resume 0 directoriesEverywhere []) ++
    [.refresh ⟨[.root, .name [97], .name (.ofString "projfs.json")]⟩,
      .resume 1 filesEverywhere [],
      .refresh ⟨[.root, .name [97], .name (.ofString "projfs.json")]⟩,
      .resume 2 nothingAnywhere [],
      .resume 1 nothingAnywhere []]

theorem overtaken_settled :
    ∀ progress ∈ ((fresh [] .recursive).run (.ofSettings {}) overtaken).calls,
      ∃ reply, progress = .finished reply ∧ reply.isOfDisk = false := by
  have calls : ((fresh [] .recursive).run (.ofSettings {}) overtaken).calls =
      [.finished (.watched (.ok ())), .finished (.refreshed (.ok true)),
        .finished (.refreshed (.ok true))] := by
    with_unfolding_all rfl
  rw [calls]
  simp [Reply.isOfDisk]

/-- The first refresh announces the file after the second one has deleted it. -/
theorem last_notice_true_unless_late_overtaken :
    AnnouncedLate (.ofSettings {}) (fresh [] .recursive) overtaken
      ⟨[.root, .name [97], .name (.ofString "projfs.json")]⟩
      (.new ⟨[.root, .name [97], .name (.ofString "projfs.json")]⟩) :=
  (((last_notice_true_unless_late (.ofSettings {}) [] .recursive overtaken (by simp [overtaken])
    overtaken_settled _).2 _ (by decide +kernel)).2 rfl).1 (by decide +kernel)

/-- The newest notice about a path can say that there is a file when there is none. -/
theorem file_announced_after_deletion :
    ∃ moves p n, (∀ root, .unwatch root ∉ moves) ∧
      (∀ progress ∈ ((fresh [] .recursive).run (.ofSettings {}) moves).calls,
        ∃ reply, progress = .finished reply ∧ reply.isOfDisk = false) ∧
      Notice.latest ((fresh [] .recursive).run (.ofSettings {}) moves).host.store.notices p = some n ∧
      n.isArrival = true ∧
      ((fresh [] .recursive).run (.ofSettings {}) moves).host.store.index.isFile p = false :=
  ⟨overtaken, ⟨[.root, .name [97], .name (.ofString "projfs.json")]⟩,
    .new ⟨[.root, .name [97], .name (.ofString "projfs.json")]⟩, by simp [overtaken],
    overtaken_settled, by decide +kernel, rfl, by decide +kernel⟩

end System

end Watch

end ProjectIndex
