import ProjectIndex.Proofs.Crawl.NewFiles
import ProjectIndex.Proofs.Watch.Announcements
import ProjectIndex.Proofs.Watch.RoundTrip

/-!
# New files are announced by the request that registers them

Requests are made one after the other, on disks that may answer differently at every wait, and they
may fail.  A file that is known after a request and was not known before it has been announced as new
meanwhile, unless it is a manifest that the request could not read: then the request is answered with
the failure, and the file is known from then on and was never announced.
-/

namespace ProjectIndex.Watch

open Store (Announced)

variable {policy : Policy} {admits during : World → Prop}

/-- The request was answered with a failure of the disk. -/
def Errand.FailsByDisk : Errand → Prop
  | .watch _ result => ∃ e, result = .error e ∧ e.isOfDisk = true
  | .refresh _ result => ∃ e, result = .error e ∧ e.isOfDisk = true
  | .unwatch _ _ => False

/-- Notices say the same of stores that have the same. -/
theorem announced_of_quiet {old s t u : Store} {p : Path} (announced : Announced s t p)
    (first : old.Quiet s) (last : t.Quiet u) : Announced old u p := by
  obtain ⟨sent, notices, member⟩ := announced
  refine ⟨sent, ?_, member⟩
  rw [last.notices, notices, first.notices]

/-- The crawl of a watch announces what it registers, or fails at a manifest that it cannot read. -/
theorem Crawled.announced {root : Path} {g : Generation} {store : Store} {s : Scope}
    {result : Except IndexError Bool} (crawled : Crawled policy during root g store s result)
    (filed : store.index.Filed) {p : Path} (known : p ∈ s.store.index.files)
    (unknown : p ∉ store.index.files) :
    Announced store s.store p ∨
      (policy.Unreadable during p ∧ ∃ path cause, result = .error (.io path cause)) := by
  cases stale : store.isStale g with
  | true =>
    rw [(crawled.edits.quiet_of_stale stale).index] at known
    exact absurd known unknown
  | false =>
    cases crawled with
    | failed e hard quiet failure =>
      rw [quiet.index] at known
      exact absurd known unknown
    | crawled world status opened admitted told directory quiet served =>
      have live := (quiet.isStale g).trans stale
      rw [← quiet.index] at filed unknown
      have added := @Crawl.edits_addDirectory (firstCrawl policy g) root status { store := opened }
      have calm := @Crawl.calm_addDirectory (firstCrawl policy g) root status { store := opened }
      have still := (added.isStale (firstCrawl policy g).generation).trans live
      have begins : Crawl.Welcomes policy during opened
          ((firstCrawl policy g).addDirectory root status { store := opened }) := by
        refine ⟨?_, fun q there => Or.inl (calm.files ▸ there)⟩
        exact @Crawl.reads_addDirectory (firstCrawl policy g) { store := opened } live root status
      rcases served.announced still (calm.filed filed) added begins known unknown with
        announced | ⟨unreadable, e, rfl⟩
      · exact Or.inl (announced_of_quiet announced quiet (.refl _))
      · obtain ⟨path, cause, rfl⟩ := served.failure still fun e => Crawl.not_failed_addDirectory live
        exact Or.inr ⟨unreadable, path, cause, rfl⟩

/-- The crawl of a refreshed path announces what it registers, or fails at a manifest that it cannot
read. -/
theorem announced_refresh {path : Path} {g : Generation} {store : Store} {s : Scope}
    {result : Except IndexError Bool}
    (served : Crawl.Served (refreshCrawl policy g) during
      ((refreshCrawl policy g).addEntry path { store }) s result)
    (filed : store.index.Filed) {p : Path} (known : p ∈ s.store.index.files)
    (unknown : p ∉ store.index.files) :
    Announced store s.store p ∨
      (policy.Unreadable during p ∧ ∃ path cause, result = .error (.io path cause)) := by
  cases stale : store.isStale g with
  | true =>
    have idle : (refreshCrawl policy g).addEntry path { store } = ({ store }, .finished (.ok false)) :=
      if_pos stale
    rw [idle] at served
    cases served
    exact absurd known unknown
  | false =>
    rw [Crawl.addEntry_outcome stale] at served
    have begins : Crawl.Welcomes policy during store ({ store }, .waiting (.entry path)) := by
      refine ⟨?_, fun q there => Or.inl there⟩
      intro wait member
      obtain rfl := List.mem_singleton.1 member
      exact Crawl.Task.Starts.reads trivial
    rcases served.announced stale filed .refl begins known unknown with
      announced | ⟨unreadable, e, rfl⟩
    · exact Or.inl announced
    · obtain ⟨path, cause, rfl⟩ := served.failure stale fun e => by rintro ⟨⟩
      exact Or.inr ⟨unreadable, path, cause, rfl⟩

/-- Any requests, one after the other, in worlds that may answer differently at every wait, and then
one more, in worlds of which some may be told.  A file that is known after it and was not known before
it has been announced as new meanwhile; or it is a manifest that counts, some world did not let it be
read though it did not say that nothing is there, and the request was answered with a failure of the
disk. -/
theorem new_files_announced_unless_unreadable (policy : Policy) (admits during : World → Prop)
    (errands : List Errand) (h h' : Host) (history : History policy admits errands h)
    (errand : Errand) (done : errand.Done policy during h h') (p : Path)
    (known : p ∈ h'.store.index.files) (unknown : p ∉ h.store.index.files) :
    Announced h.store h'.store p ∨ (policy.Unreadable during p ∧ errand.FailsByDisk) := by
  have filed := history.shelved.1
  cases done with
  | @watch _ _ root result served =>
    rcases history.settled.plan_cases root with ⟨above, planned, _, _⟩ | planned
    · obtain ⟨quiet, _, _⟩ := Host.Settled.served_of_covered planned served
      rw [quiet.index] at known
      exact absurd known unknown
    · obtain ⟨s, crawl, crawled, host, answer⟩ := served.of_start planned
      have finished := (Host.finishWatch_keeps root h.store.nextGeneration crawl s.remarks
        ⟨s.store, h.roots.reserve root h.store.nextGeneration⟩).1
      rw [← host] at finished
      rw [finished.index] at known
      rcases crawled.announced filed known unknown with
        ⟨sent, notices, member⟩ | ⟨unreadable, path, cause, rfl⟩
      · exact Or.inl ⟨sent, finished.notices.trans notices, member⟩
      · refine Or.inr ⟨unreadable, _, Reply.watched.inj answer, ?_⟩
        exact IndexError.isOfDisk_withDiagnostics _ _
  | @refresh _ _ path result served =>
    rcases served.of_refresh with ⟨quiet, _⟩ | ⟨g, s, crawl, _, _, crawled, host, answer⟩
    · rw [quiet.index] at known
      exact absurd known unknown
    · have finished := (Host.finishRefresh_keeps path crawl s.remarks ⟨s.store, h.roots⟩).1
      rw [← host] at finished
      rw [finished.index] at known
      rcases announced_refresh crawled filed known unknown with
        ⟨sent, notices, member⟩ | ⟨unreadable, path, cause, rfl⟩
      · exact Or.inl ⟨sent, finished.notices.trans notices, member⟩
      · refine Or.inr ⟨unreadable, _, Reply.refreshed.inj answer, ?_⟩
        exact IndexError.isOfDisk_withDiagnostics _ _
  | unwatch _ root =>
    cases found : (h.unwatch root).2 with
    | true =>
      rw [Host.unwatch_index found] at known
      exact absurd (((filed.evict root).files p).1 known).1 unknown
    | false =>
      rw [Host.unwatch_nothing found] at known
      exact absurd known unknown

/-- There is `/a` with `package.json`, a file that nobody may read. -/
def lockedManifest : World where
  entry _ := .ok ⟨.file, 0, 0⟩
  stat _ := .ok ⟨.directory, 0, 0⟩
  children _ := .ok [⟨[.root, .name [97], .name (.ofString "package.json")]⟩]
  contents _ := .error (.system 13)

/-- A watch on `/a` there, up to its answer. -/
def lockedWatch : Host × Progress :=
  serve (.ofSettings {}) (Host.watch ⟨[.root, .name [97]]⟩ { store := .empty [] .recursive })
    (List.replicate 6 lockedManifest)

theorem lockedWatch_done :
    (Errand.watch ⟨[.root, .name [97]]⟩ (.error (.io
        (Path.spelling ⟨[.root, .name [97], .name (.ofString "package.json")]⟩) (.system 13)))).Done
      (.ofSettings {}) (fun _ => True) { store := .empty [] .recursive } lockedWatch.1 :=
  .watch (.of_serve (fun _ _ => trivial) (by with_unfolding_all rfl))

/-- The manifest is a file of the index, and what is said of it is that the watch failed. -/
theorem new_files_announced_unless_unreadable_locked :
    ⟨[.root, .name [97], .name (.ofString "package.json")]⟩ ∈ lockedWatch.1.store.index.files ∧
      (Announced (.empty [] .recursive) lockedWatch.1.store
          ⟨[.root, .name [97], .name (.ofString "package.json")]⟩ ∨
        (Policy.ofSettings {}).Unreadable (fun _ => True)
            ⟨[.root, .name [97], .name (.ofString "package.json")]⟩ ∧
          (Errand.watch ⟨[.root, .name [97]]⟩ (.error (.io (Path.spelling
            ⟨[.root, .name [97], .name (.ofString "package.json")]⟩) (.system 13)))).FailsByDisk) := by
  have known : ⟨[.root, .name [97], .name (.ofString "package.json")]⟩ ∈
      lockedWatch.1.store.index.files := by
    decide +kernel
  exact ⟨known, new_files_announced_unless_unreadable _ (fun _ => True) _ [] _ _
    (.fresh [] .recursive) _ lockedWatch_done _ known (by decide +kernel)⟩

/-- Even if nothing is ever withdrawn, a file that is registered need not have been announced when the
request is answered. -/
theorem unreadable_manifest_registered_silently :
    ¬ ∀ (policy : Policy) (errands : List Errand) (h h' : Host) (errand : Errand),
      (∀ root found, .unwatch root found ∉ errand :: errands) →
      History policy (fun _ => True) errands h → errand.Done policy (fun _ => True) h h' →
      ∀ p ∈ h'.store.index.files, p ∉ h.store.index.files → Announced h.store h'.store p := by
  intro claim
  obtain ⟨sent, notices, member⟩ := claim (.ofSettings {}) [] { store := .empty [] .recursive }
    lockedWatch.1 _ (by simp) (.fresh [] .recursive) lockedWatch_done
    ⟨[.root, .name [97], .name (.ofString "package.json")]⟩ (by decide +kernel) (by decide +kernel)
  have silent : lockedWatch.1.store.notices = [] := by decide +kernel
  rw [silent] at notices
  obtain ⟨rfl, _⟩ := List.append_eq_nil_iff.1 notices.symm
  cases member

end ProjectIndex.Watch
