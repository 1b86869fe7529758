import ProjectIndex.Proofs.Crawl.Answering
import ProjectIndex.Proofs.Watch.Settling
import ProjectIndex.Proofs.Watch.Concordance

/-!
# What a refresh answers about the index

A refresh is made of a host on which anything may have happened before, and on which nothing else happens
until it is answered.  If it is answered with yes, the files or the directories are not what they were; and
if it is answered with no, nothing has changed that the index shows, and no notice was sent.

There are exceptions, and in each of them something was dropped on the way.  A path that has become
something that is not taken in, is dropped and the answer is no.  So is a directory that is gone by the time
its entries are asked for.  And a path that is a file and a directory at once is dropped as a directory and
registered again, which is answered with yes though everything may be as before.
-/

namespace ProjectIndex

open Std

namespace Index

variable {ix : Index} {p : Path} {st : Status}

theorem status?_of_not_file (noFile : p ∉ ix.files) : ix.status? p = ix.directories[p]? := by
  rw [status?, ExtTreeMap.getElem?_eq_none noFile]
  rfl

theorem status?_of_file (file : ix.files[p]? = some st) : ix.status? p = some st := by
  rw [status?, file]
  rfl

/-- The gate lets nothing pass that is on record with this status. -/
theorem not_hasChanged (known : ix.status? p = some st) : ix.hasChanged p st = false := by
  simp [hasChanged, known]

/-- What is on record with this status is not cleared. -/
theorem clearedFor_of_known (known : ix.status? p = some st) : ix.clearedFor p st = ix := by
  simp [clearedFor, known]

/-- What is known of a path that was evicted is that it was a file and a directory at once. -/
theorem Filed.both_of_known_evict (filed : ix.Filed) (known : (ix.evict p).1.Known p) :
    p ∈ ix.files ∧ p ∈ ix.directories := by
  rcases known with file | directory
  · obtain ⟨file, both⟩ := filed.mem_files_evict.1 file
    exact ⟨file, both (.here p)⟩
  · exact absurd (.here p) (filed.mem_directories_evict.1 directory).2

/-- An eviction of what is known leaves other tables. -/
theorem Filed.evict_ne (filed : ix.Filed) (known : ix.Known p) :
    (ix.evict p).1.files ≠ ix.files ∨ (ix.evict p).1.directories ≠ ix.directories := by
  by_contra same
  simp only [not_or, not_not] at same
  have known' : (ix.evict p).1.Known p := by rwa [Known, same.1, same.2]
  have both := filed.both_of_known_evict known'
  exact (filed.mem_directories_evict.1 (same.2 ▸ both.2)).2 (.here p)

end Index

namespace Watch

open Crawl (PastRegistration Tenure)

variable {policy : Policy} {admits : World → Prop} {p : Path} {s s' : Scope} {g : Generation}

/-- The path is on record as a file, and as the very directory that some admitted world has there. -/
def Doubled (admits : World → Prop) (ix : Index) (p : Path) : Prop :=
  p ∈ ix.files ∧ ∃ world st, admits world ∧ world.entry p = .ok st ∧ ix.directories[p]? = some st

/-- What was on record at the path is dropped by a crawl that finds nothing there to take in. -/
inductive Dropped (policy : Policy) (admits : World → Prop) (p : Path) (s t : Store) : Prop where
  /-- The path has become something else, which is left out. -/
  | other {world : World} {st old : Status} (admitted : admits world) (told : world.entry p = .ok st)
      (known : s.index.status? p = some old) (other : old.kind ≠ st.kind)
      (left : st.kind = .unknown ∨ policy.ignores p st.kind = true ∨
        (p ∈ s.index.files ∧ p ∈ s.index.directories))
      (dropped : (s.delete p).Quiet t)
  /-- It is a directory, and gone as its entries are asked for. -/
  | vanished {world later : World} {st : Status} {cause : DiskError} (admitted : admits world)
      (told : world.entry p = .ok st) (kind : st.kind = .directory) (admitted' : admits later)
      (told' : later.children p = .error cause) (gone : cause.isNotFound = true)
      (recorded : s.index.Recorded p)
      (dropped : (((s.clearedFor p st).withDirectory p st).delete p).Quiet t)

/-- What the answer of a crawl of the path says about what was done. -/
structure AnswersFor (policy : Policy) (admits : World → Prop) (p : Path) (s t : Store) (changed : Bool) :
    Prop where
  yes : changed = true → t.index.files ≠ s.index.files ∨ t.index.directories ≠ s.index.directories ∨
    Doubled admits s.index p
  no : changed = false → s.Quiet t ∨ Dropped policy admits p s t

theorem AnswersFor.of_quiet {s t : Store} (quiet : s.Quiet t) : AnswersFor policy admits p s t false :=
  ⟨by simp, fun _ => Or.inl quiet⟩

/-- A directory that has passed the gate is new among the directories, unless it was there beside a
file. -/
theorem changed_of_directory {ix ix' : Index} {st : Status}
    (changed : (ix.clearedFor p st).hasChanged p st = true) (registered : ix'.directories[p]? = some st) :
    ix'.directories ≠ ix.directories ∨ (p ∈ ix.files ∧ ix.directories[p]? = some st) := by
  by_contra neither
  simp only [not_or, not_and', not_not] at neither
  obtain ⟨same, beside⟩ := neither
  rw [same] at registered
  have known := (Index.status?_of_not_file (beside registered)).trans registered
  rw [Index.clearedFor_of_known known, Index.not_hasChanged known] at changed
  cases changed

/-- A file that has passed the gate is new among the files. -/
theorem changed_of_file {ix ix' : Index} {st : Status}
    (changed : (ix.clearedFor p st).hasChanged p st = true) (registered : ix'.files[p]? = some st) :
    ix'.files ≠ ix.files := by
  intro same
  rw [same] at registered
  have known := Index.status?_of_file registered
  rw [Index.clearedFor_of_known known, Index.not_hasChanged known] at changed
  cases changed

/-- A registration of a directory that is taken back leaves nothing behind, if there was no record of the
path. -/
theorem quiet_of_not_recorded {s t : Store} {st : Status} (concordant : s.index.Concordant)
    (blank : ¬ s.index.Recorded p) (hooked : (s.index.knows p || s.index.knowsParent p) = true)
    (dropped : (((s.clearedFor p st).withDirectory p st).delete p).Quiet t) : s.Quiet t := by
  have unknown : ¬ s.index.Known p := fun known => blank (Or.inl known)
  have none := Index.status?_eq_none.2 unknown
  have cleared : s.clearedFor p st = s := by
    unfold Store.clearedFor
    rw [none]
  rw [cleared] at dropped
  have known : s.index.knows p = false := by
    simp [Index.knows, none]
  rw [known, Bool.false_or] at hooked
  obtain ⟨d, parent, directory⟩ := Index.knowsParent_iff.1 hooked
  have restored := concordant.evict_insertDirectory blank parent directory st
  refine Store.Quiet.trans ?_ dropped
  constructor
  · rw [Crawl.delete_index]
    exact congrArg Prod.fst restored
  · apply List.reverse_injective
    rw [Crawl.Journalled.notices_delete]
    have gone : ((s.withDirectory p st).index.evict p).2 = [] := congrArg Prod.snd restored
    rw [gone, List.map_nil, List.append_nil]
    rfl
  · exact (Crawl.delete_cancelled _ p).1
  · exact (Crawl.delete_cancelled _ p).2

/-- An entry that was passed over is what it was, or something else was on record and is dropped. -/
theorem answersFor_of_passed {s t : Store} {world : World} {st : Status} (filed : s.index.Filed)
    (admitted : admits world) (told : world.entry p = .ok st)
    (left : st.kind = .unknown ∨ policy.ignores p st.kind = true ∨
      (s.index.clearedFor p st).hasChanged p st = false)
    (quiet : (s.clearedFor p st).Quiet t) : AnswersFor policy admits p s t false := by
  unfold Store.clearedFor at quiet
  cases known : s.index.status? p with
  | none =>
    rw [known] at quiet
    exact .of_quiet quiet
  | some old =>
    rw [known] at quiet
    dsimp only at quiet
    split at quiet
    · exact .of_quiet quiet
    next other =>
      refine ⟨by simp, fun _ => Or.inr (.other admitted told known other ?_ quiet)⟩
      apply left.imp_right
      apply Or.imp_right
      intro unchanged
      have cleared : s.index.clearedFor p st = (s.index.evict p).1 := by
        simp [Index.clearedFor, known, other]
      rw [cleared] at unchanged
      apply filed.both_of_known_evict
      by_contra unknown
      simp [Index.hasChanged, Index.status?_eq_none.2 unknown] at unchanged

section

variable {ctx : Crawl.Context} {changed : Bool}

/-- The crawl of an entry whose status the disk does not tell. -/
theorem answersFor_examined_error {cause : DiskError}
    (served : Crawl.Served ctx admits (ctx.examined p (.error cause) s) s' (.ok changed))
    (live : s.store.isStale ctx.generation = false) (filed : s.store.index.Filed) :
    AnswersFor policy admits p s.store s'.store changed := by
  cases gone : cause.isNotFound with
  | false =>
    rw [Crawl.examined_failed p gone] at served
    cases served.of_finished.2
  | true =>
    cases known : s.store.index.knows p with
    | true =>
      obtain ⟨s'', examined, _, index⟩ := @Crawl.examined_missing ctx s live p cause gone
      rw [examined] at served
      obtain ⟨rfl, answer⟩ := served.of_finished
      obtain rfl := (Except.ok.inj answer).trans known
      have other := filed.evict_ne (Index.knows_iff.1 known)
      rw [Index.without, if_pos known] at index
      rw [← index] at other
      exact ⟨fun _ => other.imp_right Or.inl, by simp⟩
    | false =>
      have idle : ctx.examined p (.error cause) s = (s, .finished (.ok false)) := by
        simp [Crawl.Context.examined, gone, known]
      rw [idle] at served
      obtain ⟨rfl, answer⟩ := served.of_finished
      cases answer
      exact .of_quiet (.refl _)

/-- The crawl of a directory that has passed the gate, from its registration on. -/
theorem answersFor_of_tenure {world : World} {st : Status} {r : Scope × Crawl.Progress}
    (served : Crawl.Served ctx admits r s' (.ok changed))
    (tenure : Tenure ctx admits p ((s.store.clearedFor p st).withDirectory p st) r)
    (admitted : admits world) (told : world.entry p = .ok st) (kind : st.kind = .directory)
    (passes : (s.store.index.clearedFor p st).hasChanged p st = true)
    (lists : ∀ world, admits world → world.ListsOnce) (absolute : p.isAbsolute = true)
    (still : r.1.store.isStale ctx.generation = false) (concordant : s.store.index.Concordant)
    (hooked : (s.store.index.knows p || s.store.index.knowsParent p) = true) :
    AnswersFor policy admits p s.store s'.store changed := by
  have cleared : ((s.store.clearedFor p st).withDirectory p st).index.Filed := by
    dsimp only [Store.withDirectory]
    rw [Crawl.clearedFor_index]
    exact (concordant.filed.clearedFor p st).insertDirectory p st
  have written : ((s.store.clearedFor p st).withDirectory p st).index.directories[p]? = some st := by
    simp [Store.withDirectory]
  cases served.tenure tenure lists absolute cleared still with
  | kept kept =>
    obtain rfl := kept.affirms changed rfl
    have registered := kept.same.directory.trans written
    refine ⟨fun _ => Or.inr ?_, by simp⟩
    apply (changed_of_directory passes registered).imp_right
    rintro ⟨file, directory⟩
    exact ⟨file, world, st, admitted, told, directory⟩
  | @vanished _ later cause admitted' told' gone dropped =>
    refine ⟨by simp, fun _ => ?_⟩
    by_cases recorded : s.store.index.Recorded p
    · exact Or.inr (.vanished admitted told kind admitted' told' gone recorded dropped)
    · exact Or.inl (quiet_of_not_recorded concordant recorded hooked dropped)

/-- The crawl of an entry, from the moment at which the disk is asked for its status. -/
theorem answersFor_examined (policies : ctx.policy = policy) {world : World}
    (served : Crawl.Served ctx admits (ctx.examined p (world.entry p) s) s' (.ok changed))
    (admitted : admits world) (lists : ∀ world, admits world → world.ListsOnce)
    (absolute : p.isAbsolute = true) (live : s.store.isStale ctx.generation = false)
    (concordant : s.store.index.Concordant)
    (hooked : (s.store.index.knows p || s.store.index.knowsParent p) = true) :
    AnswersFor policy admits p s.store s'.store changed := by
  have moved : Crawl.Task.Moves ctx world s (.entry p) (ctx.examined p (world.entry p) s) := .entry p
  have still := (moved.edits.isStale _).trans live
  cases told : world.entry p with
  | error cause =>
    rw [told] at served
    exact answersFor_examined_error served live concordant.filed
  | ok st =>
    rw [told] at served still
    rcases @Crawl.examined_registers ctx s admits live concordant.filed p st with
      ⟨quiet, ends, left⟩ | ⟨passes, ⟨kind, tenure⟩ | ⟨kind, kept⟩⟩
    · generalize ctx.examined p (.ok st) s = r at served quiet ends
      obtain ⟨s'', next⟩ := r
      cases ends
      obtain ⟨rfl, answer⟩ := served.of_finished
      cases answer
      exact answersFor_of_passed concordant.filed admitted told (policies ▸ left) quiet
    · exact answersFor_of_tenure served tenure admitted told kind passes lists absolute still concordant
        hooked
    · have kept := served.kept kept lists absolute still
      obtain rfl := kept.affirms changed rfl
      have registered : s'.store.index.files[p]? = some st := kept.same.file.trans (by simp)
      exact ⟨fun _ => Or.inl (changed_of_file passes registered), by simp⟩

end

theorem AnswersFor.after {s t u : Store} {changed : Bool}
    (answers : AnswersFor policy admits p s t changed)
    (quiet : t.Quiet u) : AnswersFor policy admits p s u changed where
  yes changed := by
    rw [quiet.index]
    exact answers.yes changed
  no unchanged := by
    apply (answers.no unchanged).imp (·.trans quiet)
    intro dropped
    cases dropped with
    | other admitted told known other left dropped =>
      exact .other admitted told known other left (dropped.trans quiet)
    | vanished admitted told kind admitted' told' gone recorded dropped =>
      exact .vanished admitted told kind admitted' told' gone recorded (dropped.trans quiet)

/-- A refresh that is answered with a word is answered as its crawl ends. -/
theorem Host.finishRefresh_ok {path : Path} {result : Except IndexError Bool} {remarks : List Diagnostic}
    {h : Host} {changed : Bool} (answered : (Host.finishRefresh path result remarks h).2 = .ok changed) :
    result = .ok changed := by
  unfold Host.finishRefresh at answered
  split at answered
  · cases answered
  · split at answered
    · cases answered
    · exact answered

/-- A refresh whose crawl ends before it has asked for anything. -/
theorem answersFor_of_idle {path : Path} {roots : Roots} {store : Store} {h' : Host} {changed : Bool}
    (quiet : store.Quiet s.store)
    (served : Served policy admits (Host.resumeRefresh path g roots (s, .finished (.ok false))) h'
      (.refreshed (.ok changed))) : AnswersFor policy admits p store h'.store changed := by
  obtain ⟨last, result, crawled, host, answer⟩ := served.of_resumeRefresh
  obtain ⟨rfl, rfl⟩ := crawled.of_finished
  have unchanged := Host.finishRefresh_ok (Reply.refreshed.inj answer).symm
  obtain rfl := Except.ok.inj unchanged
  have finished := (Host.finishRefresh_keeps path (.ok false) last.remarks ⟨last.store, roots⟩).1
  rw [← host] at finished
  exact .of_quiet (quiet.trans finished)

/-- In every system that is reached from an empty one, whatever requests are under way: a refresh that is
served alone, in worlds that may answer differently at every wait as long as they list the entries of a
directory once, and is answered with yes or no.  If it is yes, the files or the directories are not what
they were, unless the path was a file and the very directory that is on disk at once.  If it is no, nothing
has changed that the index shows and no notice was sent, unless something that was on record at the path is
dropped: as something else is there, which is not taken in, or as the directory there was gone when its
entries were asked for. -/
theorem refresh_answers_for_index (policy : Policy) (s : System) (reachable : System.Reachable policy s)
    (absolute : ∀ root, s.host.roots.Holds root → root.isAbsolute = true) (admits : World → Prop)
    (lists : ∀ world, admits world → world.ListsOnce) (p : Path) (changed : Bool) (h' : Host)
    (done : (Errand.refresh p (.ok changed)).Done policy admits s.host h') :
    AnswersFor policy admits p s.host.store h'.store changed := by
  cases done with
  | refresh served =>
    cases covered : s.host.roots.generationFor p with
    | none =>
      unfold Host.refresh at served
      rw [covered] at served
      cases served
      exact .of_quiet (Store.quiet_log _ _)
    | some g =>
      have starts : s.host.refresh policy p = Host.resumeRefresh p g s.host.roots
          ((refreshCrawl policy g).refresh p { store := s.host.store }) := by
        unfold Host.refresh
        rw [covered]
      cases hooked : s.host.store.index.knows p || s.host.store.index.knowsParent p with
      | false =>
        rw [starts, Crawl.Context.refresh, if_neg (by simp [hooked])] at served
        exact answersFor_of_idle (Store.quiet_log _ _) served
      | true =>
        cases stale : s.host.store.isStale g with
        | true =>
          have withdrawn : (refreshCrawl policy g).isStale { store := s.host.store } = true := stale
          rw [starts, Crawl.Context.refresh, if_pos hooked, Crawl.Context.addEntry, if_pos withdrawn]
            at served
          exact answersFor_of_idle (.refl _) served
        | false =>
          obtain ⟨root, carried, covers⟩ := Roots.generationFor_eq_some covered
          have rooted := covers.isAbsolute (absolute root carried.holds)
          obtain ⟨world, last, result, admitted, crawled, host, answer⟩ :=
            served.refreshed_hooked covered stale hooked
          obtain rfl := Host.finishRefresh_ok (Reply.refreshed.inj answer).symm
          have answers :=
            answersFor_examined rfl crawled admitted lists rooted stale reachable.concordant hooked
          have finished := (Host.finishRefresh_keeps p (.ok changed) last.remarks
            ⟨last.store, s.host.roots⟩).1
          rw [← host] at finished
          exact answers.after finished

/-- The host that watched `/w` is that of a system, and its only root is absolute. -/
theorem folderWatched_reachable :
    ∃ s, System.Reachable (.ofSettings {}) s ∧ s.host = folderWatched ∧
      ∀ root, folderWatched.roots.Holds root → root.isAbsolute = true := by
  obtain ⟨s, reachable, host⟩ := folderWatched_history.reachable
  refine ⟨s, reachable, host, ?_⟩
  rintro root (pending | active)
  · exact absurd pending (folderWatched_history.settled.idle root)
  · exact folderWatched_history.absolute (by simp [Path.isAbsolute]) root active

/-- A refresh of a directory that is gone is answered with yes, and the directory is gone. -/
theorem refresh_answers_for_index_folder_gone :
    ∃ h', (Errand.refresh (.ofSpelling (.ofString "/w/d")) (.ok true)).Done (.ofSettings {})
        (·.Reads (diskWith [])) folderWatched h' ∧
      AnswersFor (.ofSettings {}) (·.Reads (diskWith [])) (.ofSpelling (.ofString "/w/d"))
        folderWatched.store h'.store true ∧
      folderWatched.store.index.isDirectory (.ofSpelling (.ofString "/w/d")) = true ∧
      h'.store.index.isDirectory (.ofSpelling (.ofString "/w/d")) = false := by
  obtain ⟨s, reachable, host, absolute⟩ := folderWatched_reachable
  have done : (Errand.refresh (.ofSpelling (.ofString "/w/d")) (.ok true)).Done (.ofSettings {})
      (·.Reads (diskWith [])) folderWatched
      (serve (.ofSettings {}) (folderWatched.refresh (.ofSettings {}) (.ofSpelling (.ofString "/w/d")))
        [.ofDisk (diskWith [])]).1 := by
    refine .refresh (.of_serve (reads_replicate (diskWith []) 1) ?_)
    with_unfolding_all rfl
  refine ⟨_, done, ?_, by decide +kernel, by decide +kernel⟩
  rw [← host] at done absolute ⊢
  exact refresh_answers_for_index (.ofSettings {}) s reachable absolute (·.Reads (diskWith []))
    (fun _ reads => reads.listsOnce (by decide)) _ true _ done

/-- A file that has turned into a pipe is dropped, and the answer is no. -/
theorem replaced_file_dropped_with_no :
    ∃ s h', System.Reachable (.ofSettings {}) s ∧
      (∀ root, s.host.roots.Holds root → root.isAbsolute = true) ∧
      (Errand.refresh (.ofSpelling (.ofString "/w/d/f.js")) (.ok false)).Done (.ofSettings {})
        (·.Reads (diskWith [(.ofString "d", .directory 0 [(.ofString "f.js", .pipe 0)])])) s.host h' ∧
      s.host.store.index.isFile (.ofSpelling (.ofString "/w/d/f.js")) = true ∧
      h'.store.index.isFile (.ofSpelling (.ofString "/w/d/f.js")) = false ∧
      h'.store.notices =
        .deleted (.ofSpelling (.ofString "/w/d/f.js")) :: s.host.store.notices := by
  obtain ⟨s, reachable, host, absolute⟩ := folderWatched_reachable
  refine ⟨s, (serve (.ofSettings {})
      (folderWatched.refresh (.ofSettings {}) (.ofSpelling (.ofString "/w/d/f.js")))
      [.ofDisk (diskWith [(.ofString "d", .directory 0 [(.ofString "f.js", .pipe 0)])])]).1,
    reachable, host ▸ absolute, ?_, ?_, ?_, ?_⟩
  · rw [host]
    refine .refresh (.of_serve (reads_replicate _ 1) ?_)
    with_unfolding_all rfl
  · rw [host]
    decide +kernel
  · decide +kernel
  · rw [host]
    decide +kernel

end Watch

end ProjectIndex
