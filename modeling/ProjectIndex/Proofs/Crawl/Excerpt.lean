import ProjectIndex.Proofs.Crawl.Bearing
import ProjectIndex.Proofs.Crawl.Dealings
import ProjectIndex.Proofs.Crawl.WholeCrawls

/-!
# Excerpts and the books about them

An index that knows nothing but what the index of a site should know, if not all of it, is an
excerpt.  Where it begins and ends does not matter: it may have been filled below a directory deep in
the tree.  An excerpt that lacks nothing next to what it knows, and knows the root, is the whole.

What is added to an excerpt is kept in books.  A directory is one more exactly when the backend is
asked once more to follow it, and a file is one more exactly when it is announced as new or a task
bears it.  The books balance at every move, and they can be kept by several crawls at once, since both
sides of each equation are sums.
-/

namespace ProjectIndex

namespace Index

theorem isDirectory_insertDirectory (ix : Index) (p : Path) (st : Status) (q : Path) :
    (ix.insertDirectory p st true).1.isDirectory q = (decide (p = q) || ix.isDirectory q) := by
  rw [Bool.eq_iff_iff, Bool.or_eq_true, isDirectory_iff, isDirectory_iff]
  simp

theorem isFile_insertFile (ix : Index) (p : Path) (st : Status) (q : Path) :
    (ix.insertFile p st true).1.isFile q = (decide (p = q) || ix.isFile q) := by
  rw [Bool.eq_iff_iff, Bool.or_eq_true, isFile_iff, isFile_iff]
  simp

theorem isFile_insertDirectory (ix : Index) (p : Path) (st : Status) (q : Path) :
    (ix.insertDirectory p st true).1.isFile q = ix.isFile q := by
  simp [isFile]

theorem isDirectory_insertFile (ix : Index) (p : Path) (st : Status) (q : Path) :
    (ix.insertFile p st true).1.isDirectory q = ix.isDirectory q := by
  simp [isDirectory]

end Index

namespace Crawl

open Store (Calm Aside)

structure Excerpt (site : Site) (ix : Index) : Prop where
  orderly : ix.Orderly
  wanted : ∀ p st, ix.status? p = some st → site.Wants p st

theorem excerpt_empty (site : Site) (name : Name) : Excerpt site (.empty name) where
  orderly := Index.orderly_empty name
  wanted p st found := by simp [Index.empty, Index.status?] at found

namespace Excerpt

variable {site : Site} {ix : Index} {p : Path} {st : Status}

theorem original (excerpt : Excerpt site ix) : Original site ix := by
  intro p st found
  have wants := excerpt.wanted p st found
  exact ⟨Or.inr wants.told, wants.takes, wants.reaches.reached⟩

/-- A path about which the index is wrong should be known and is not. -/
theorem unknown_of_wrong (excerpt : Excerpt site ix) (wrong : ¬ Agrees site ix p) :
    ix.status? p = none ∧ ∃ st, site.Wants p st := by
  cases found : ix.status? p with
  | some st => exact absurd (agrees_of_status found (excerpt.wanted p st found)) wrong
  | none =>
    refine ⟨rfl, ?_⟩
    by_contra unwanted
    exact wrong (agrees_of_unknown found (not_exists.1 unwanted))

theorem insertDirectory (excerpt : Excerpt site ix) (wants : site.Wants p st)
    (kind : st.kind = .directory) (unknown : ¬ ix.Known p) :
    Excerpt site (ix.insertDirectory p st true).1 where
  orderly := excerpt.orderly.insertDirectory kind fun file => unknown (Or.inl file)
  wanted q st' found := by
    rw [Index.status?_insertDirectory fun file => unknown (Or.inl file)] at found
    split at found
    next same =>
      cases found
      exact same ▸ wants
    · exact excerpt.wanted q st' found

theorem insertFile (excerpt : Excerpt site ix) (wants : site.Wants p st) (kind : st.kind = .file)
    (unknown : ¬ ix.Known p) : Excerpt site (ix.insertFile p st true).1 where
  orderly := excerpt.orderly.insertFile kind fun directory => unknown (Or.inr directory)
  wanted q st' found := by
    rw [Index.status?_insertFile] at found
    split at found
    next same =>
      cases found
      exact same ▸ wants
    · exact excerpt.wanted q st' found

theorem setManifest (excerpt : Excerpt site ix) (D : Definition) :
    Excerpt site (ix.setManifest D true).1 :=
  ⟨excerpt.orderly.setManifest D, excerpt.wanted⟩

/-- An excerpt that knows the root and the entries of everything that it knows is the whole. -/
theorem agrees_everywhere (excerpt : Excerpt site ix) (current : ∀ p, ¬ Outdated site ix p)
    (p : Path) : Agrees site ix p := by
  have known : ∀ st, site.Wants p st → Agrees site ix p := by
    intro st wants
    induction wants with
    | root =>
      by_contra wrong
      exact current _ ⟨wrong, Or.inl rfl⟩
    | entry reached parent above directory told kind takes ih =>
      by_contra wrong
      exact current _ ⟨wrong, Or.inr ⟨_, parent, ⟨_, above, directory⟩, ih⟩⟩
  by_contra wrong
  obtain ⟨_, st, wants⟩ := excerpt.unknown_of_wrong wrong
  exact wrong (known st wants)

end Excerpt

mutual

/-- How often the file is borne by a task: registered, and not announced yet. -/
def Task.burden (f : Path) : Task → Nat
  | .project a _ => if a.path = f then 1 else 0
  | .manifest a _ => if a.path = f then 1 else 0
  | .inOrder _ current _ _ => current.burden f
  | .together _ running _ => Task.burdens f running
  | _ => 0

def Task.burdens (f : Path) : List Task → Nat
  | [] => 0
  | task :: rest => task.burden f + Task.burdens f rest

end

def Progress.burden (f : Path) : Progress → Nat
  | .waiting task => task.burden f
  | .finished _ => 0

theorem burdens_append (f : Path) (left right : List Task) :
    Task.burdens f (left ++ right) = Task.burdens f left + Task.burdens f right := by
  induction left with
  | nil => simp [Task.burdens]
  | cons task rest ih => simp only [List.cons_append, Task.burdens, ih, Nat.add_assoc]

theorem burdens_begin (f : Path) (rest : List Path) : Task.burdens f (rest.map .begin) = 0 := by
  induction rest with
  | nil => rfl
  | cons p rest ih => simpa [Task.burdens, Task.burden] using ih

theorem burden_following (f d : Path) (queue rest : List Path) :
    (following d queue rest).burden f = 0 := by
  cases queue with
  | nil =>
    simp only [following]
    split
    · rfl
    · exact burdens_begin f rest
  | cons p queue => rfl

/-- What is added from `s` to `t`, while the borne files change from `before` to `after`.  Both sides
of each equation count what is known and what was said of it. -/
structure Accrual (s t : Store) (before after : Path → Nat) : Prop where
  files : ∀ f, f ∈ s.index.files → f ∈ t.index.files
  asked : ∀ p, t.calls.count (.watchDirectory, p) + (s.index.isDirectory p).toNat =
    s.calls.count (.watchDirectory, p) + (t.index.isDirectory p).toNat
  told : ∀ f, t.notices.count (.new f) + after f + (s.index.isFile f).toNat =
    s.notices.count (.new f) + before f + (t.index.isFile f).toNat
  /-- No other notices are sent. -/
  plain : ∀ n ∈ t.notices, n ∈ s.notices ∨ ∃ f, n = .new f

namespace Accrual

variable {s t u : Store} {before between after : Path → Nat}

theorem of_calm (calm : s.Calm t) (aside : s.Aside t) (same : ∀ f, after f = before f) :
    Accrual s t before after where
  files f file := calm.files ▸ file
  asked p := by simp only [aside.calls, Index.isDirectory, aside.directories]
  told f := by simp only [calm.notices, same, Index.isFile, calm.files]
  plain n member := Or.inl (calm.notices ▸ member)

theorem of_quiet (quiet : s.Quiet t) (calls : t.calls = s.calls)
    (same : ∀ f, after f = before f) : Accrual s t before after where
  files f file := quiet.index ▸ file
  asked p := by rw [calls, quiet.index]
  told f := by rw [quiet.notices, quiet.index, same]
  plain n member := Or.inl (quiet.notices ▸ member)

theorem trans (first : Accrual s t before between) (second : Accrual t u between after) :
    Accrual s u before after where
  files f file := second.files f (first.files f file)
  asked p := by
    have one := first.asked p
    have two := second.asked p
    omega
  told f := by
    have one := first.told f
    have two := second.told f
    omega
  plain n member := by
    rcases second.plain n member with old | new
    · exact first.plain n old
    · exact Or.inr new

/-- What others bear besides makes no difference. -/
theorem beside (accrual : Accrual s t before after) {before' after' : Path → Nat}
    (more : Path → Nat) (own : ∀ f, before' f = before f + more f)
    (left : ∀ f, after' f = after f + more f) : Accrual s t before' after' where
  files := accrual.files
  asked := accrual.asked
  told f := by
    have own := own f
    have left := left f
    have told := accrual.told f
    omega
  plain := accrual.plain

/-- A directory that was unknown is registered, and the backend is asked to follow it. -/
theorem directory {p : Path} (unknown : ¬ s.index.Known p) (st : Status) :
    Accrual s ({ s with index := (s.index.insertDirectory p st true).1 }.askDirectory p)
      (fun _ => 0) (fun _ => 0) where
  files f file := by simpa [Store.askDirectory, Store.emit] using file
  asked q := by
    change List.count _ ((.watchDirectory, p) :: s.calls) + _ =
      _ + ((s.index.insertDirectory p st true).1.isDirectory q).toNat
    rw [List.count_cons, Index.isDirectory_insertDirectory]
    by_cases same : p = q
    · subst same
      have before : s.index.isDirectory p = false := by
        simpa [← Index.isDirectory_iff] using fun directory => unknown (Or.inr directory)
      simp [before]
    · simp [same]
  told f := by
    change List.count _ s.notices + _ + _ =
      _ + ((s.index.insertDirectory p st true).1.isFile f).toNat
    rw [Index.isFile_insertDirectory]
  plain n member := Or.inl member

/-- A file that was unknown is registered and borne. -/
theorem file {p : Path} (unknown : ¬ s.index.Known p) (st : Status) :
    Accrual s { s with index := (s.index.insertFile p st true).1 } (fun _ => 0)
      (fun f => if p = f then 1 else 0) where
  files f file := by simp [file]
  asked q := by
    change List.count _ s.calls + _ = _ + ((s.index.insertFile p st true).1.isDirectory q).toNat
    rw [Index.isDirectory_insertFile]
  told f := by
    change List.count _ s.notices + _ + _ = _ + ((s.index.insertFile p st true).1.isFile f).toNat
    rw [Index.isFile_insertFile]
    by_cases same : p = f
    · subst same
      have before : s.index.isFile p = false := by
        simpa [← Index.isFile_iff] using fun file => unknown (Or.inl file)
      simp [before]
    · simp [same]
  plain n member := Or.inl member

end Accrual

/-- The books since the first directory and the first file, while some files are borne. -/
structure Balanced (s : Store) (borne : Path → Nat) : Prop where
  asked : ∀ p, s.calls.count (.watchDirectory, p) = (s.index.isDirectory p).toNat
  told : ∀ f, s.notices.count (.new f) + borne f = (s.index.isFile f).toNat
  plain : ∀ n ∈ s.notices, ∃ f, n = .new f

theorem Balanced.accrues {s t : Store} {before after : Path → Nat} (balanced : Balanced s before)
    (accrual : Accrual s t before after) : Balanced t after where
  asked p := by
    have old := balanced.asked p
    have now := accrual.asked p
    omega
  told f := by
    have old := balanced.told f
    have now := accrual.told f
    omega
  plain n member := (accrual.plain n member).elim (balanced.plain n) id

/-- Where nothing is borne, each file was announced once. -/
theorem Balanced.announced {s : Store} (balanced : Balanced s fun _ => 0) (f : Path) :
    s.notices.count (.new f) = if f ∈ s.index.files then 1 else 0 := by
  rw [← Nat.add_zero (s.notices.count _), balanced.told f]
  simp only [← Index.isFile_iff]
  cases s.index.isFile f <;> rfl

/-- Each directory was asked for once. -/
theorem Balanced.asked_once {s : Store} {borne : Path → Nat} (balanced : Balanced s borne) (p : Path) :
    s.calls.count (.watchDirectory, p) = if p ∈ s.index.directories then 1 else 0 := by
  rw [balanced.asked p]
  simp only [← Index.isDirectory_iff]
  cases s.index.isDirectory p <;> rfl

section

variable {ctx : Context} {s : Scope}

/-- A file that was new is announced, and nobody bears it any more. -/
theorem accrual_announce (live : s.store.isStale ctx.generation = false) {a : Arrival}
    (new : a.previous = none) :
    Accrual s.store (ctx.announce a s).1.store (fun f => if a.path = f then 1 else 0)
      fun f => (ctx.announce a s).2.burden f := by
  have announced := fileAnnounced ctx a s
  generalize ctx.announce a s = r at announced ⊢
  cases announced with
  | withdrawn stale =>
    rw [live] at stale
    cases stale
  | changed _ previous | untold _ previous =>
    rw [new] at previous
    cases previous
  | new =>
    refine ⟨fun f file => file, fun p => rfl, fun f => ?_, fun n member => ?_⟩
    · have told : ((s.update (·.emit (.notice (.new a.path)))).update
          (·.emit (.tick a.path))).store.notices = .new a.path :: s.store.notices := rfl
      dsimp only
      rw [told, List.count_cons]
      by_cases same : a.path = f
      · simp [same, Progress.burden, Scope.update, Store.emit]
      · simp [same, Progress.burden, Scope.update, Store.emit]
    · rcases List.mem_cons.1 member with rfl | old
      · exact Or.inr ⟨a.path, rfl⟩
      · exact Or.inl old

/-- Where a declaration stands is where the file stands. -/
theorem accrual_resume {a : Arrival} (new : a.previous = none) {r : Scope × Declaration.Progress}
    (live : r.1.store.isStale ctx.generation = false)
    (fine : ∀ e, (ctx.resume a r).2 ≠ .finished (.error e)) :
    Accrual r.1.store (ctx.resume a r).1.store (fun f => if a.path = f then 1 else 0)
      fun f => (ctx.resume a r).2.burden f := by
  obtain ⟨s, d | result | e⟩ := r
  · exact .of_quiet (.refl _) rfl fun f => rfl
  · exact absurd rfl (fine _)
  · exact accrual_announce live new

theorem accrual_declareManifest (live : s.store.isStale ctx.generation = false) {a : Arrival}
    (new : a.previous = none) :
    Accrual s.store (ctx.declareManifest a s).1.store (fun f => if a.path = f then 1 else 0)
      fun f => (ctx.declareManifest a s).2.burden f := by
  have declared := manifestDeclared ctx a s
  generalize ctx.declareManifest a s = r at declared ⊢
  cases declared with
  | unnamed => exact accrual_announce live new
  | skipped =>
    have logged := s.store.quiet_log (Declaration.line "skipped" a.path.display)
    exact (Accrual.of_calm (.of_quiet logged) (s.store.aside_log _) fun f => rfl).trans
      (@accrual_announce ctx (s.log _) live a new)
  | reading => exact .of_quiet (.refl _) rfl fun f => rfl

theorem accrual_declareFile (live : s.store.isStale ctx.generation = false) {a : Arrival}
    (new : a.previous = none) :
    Accrual s.store (ctx.declareFile a s).1.store (fun f => if a.path = f then 1 else 0)
      fun f => (ctx.declareFile a s).2.burden f := by
  unfold Context.declareFile
  split
  next root _ =>
    exact .of_quiet (Store.quiet_askProject _ root) rfl fun f => rfl
  · exact accrual_declareManifest live new

end

end Crawl

end ProjectIndex
