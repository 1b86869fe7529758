import ProjectIndex.Proofs.Watch.Alone

/-!
# Refreshes one after the other

A host serves a tree when one root is active, its generation is live, and what the index says comes
from the disk or from an earlier one.  Some paths may be outdated; a refresh that has ended took its
own path off them and put no other one there, so the order of refreshes does not matter, nor does it
matter how many others come in between.
-/

namespace ProjectIndex.Watch

open Crawl (Sourced Succeeds Outdated Reworked)

/-- The root is watched, and no more is outdated than what is owed. -/
structure Serves (site : Site) (old : Path → Status → Prop) (owed : Path → Prop) (h : Host) :
    Prop where
  generation : ∃ g, h.store.isStale g = false ∧
    ∀ p, h.roots.generationFor p = if site.root.Covers p then some g else none
  sound : h.store.index.Sound site.root
  sourced : Sourced site old h.store.index
  /-- A root that should be known is known, so that it can be refreshed. -/
  rooted : ∀ st, site.Wants site.root st → h.store.index.Known site.root
  owed : ∀ q, Outdated site h.store.index q → owed q

section

variable {site : Site} {old : Path → Status → Prop} {owed : Path → Prop} {h : Host} {p : Path}

/-- A path of which neither itself nor the directory it is in is known is not outdated. -/
theorem Serves.outdated_hooked (serves : Serves site old owed h)
    (outdated : Outdated site h.store.index p) :
    h.store.index.knows p = true ∨ h.store.index.knowsParent p = true := by
  by_cases root : p = site.root
  · subst root
    left
    by_contra unknown
    have none : h.store.index.status? site.root = none := by
      simpa [Index.knows] using unknown
    refine outdated.1 (Crawl.agrees_of_unknown none fun st wants => ?_)
    exact Index.status?_eq_none.1 none (serves.rooted st wants)
  · right
    obtain ⟨d, sd, parent, _, kind, known⟩ := outdated.above_known root
    exact Index.knowsParent_iff.2 ⟨d, parent, serves.sound.mem_directories.2 ⟨sd, known, kind⟩⟩

/-- What counts of a host for those that it serves. -/
theorem Serves.quiet (serves : Serves site old owed h) {h' : Host} (quiet : h.store.Quiet h'.store)
    (roots : h'.roots = h.roots) : Serves site old owed h' := by
  obtain ⟨g, live, generation⟩ := serves.generation
  have same := quiet.index
  refine ⟨⟨g, (quiet.isStale g).trans live, fun p => roots ▸ generation p⟩, ?_, ?_, ?_, ?_⟩
  · exact same ▸ serves.sound
  · exact same ▸ serves.sourced
  · exact same ▸ serves.rooted
  · exact same ▸ serves.owed

/-- What is done to a path below the root leaves the root known. -/
theorem Serves.root_stays (serves : Serves site old owed h) {ix : Index}
    (covers : site.root.Covers p) (reworked : Reworked site p h.store.index ix)
    (current : ∀ q, Outdated site ix q → q ≠ p) {st : Status} (wants : site.Wants site.root st) :
    ix.Known site.root := by
  by_contra unknown
  have none := Index.status?_eq_none.2 unknown
  by_cases root : p = site.root
  · subst root
    refine current site.root ⟨fun agrees => ?_, Or.inl rfl⟩ rfl
    cases none.symm.trans ((agrees st).2 wants)
  · have outside : ¬ p.Covers site.root := fun above => root (above.antisymm covers)
    rw [reworked.outside site.root outside] at none
    exact Index.status?_eq_none.1 none (serves.rooted st wants)

/-- How a refresh starts: it is nobody's business, and then its path is not outdated, or it crawls
its path. -/
theorem Serves.refresh_cases (serves : Serves site old owed h) (p : Path)
    (reached : site.root.Covers p → site.region p) :
    ((∃ reply, (h.refresh site.policy p).2 = .finished reply) ∧
        ¬ Outdated site h.store.index p) ∨
      ∃ g, h.store.isStale g = false ∧
        (∀ q, h.roots.generationFor q = if site.root.Covers q then some g else none) ∧
        h.store.index.Hooked site.root p ∧ site.region p ∧
        h.refresh site.policy p =
          Host.resumeRefresh p g h.roots ({ store := h.store }, .waiting (.entry p)) := by
  obtain ⟨g, live, generation⟩ := serves.generation
  by_cases covers : site.root.Covers p
  · have found := (generation p).trans (if_pos covers)
    by_cases hooked : h.store.index.knows p = true ∨ h.store.index.knowsParent p = true
    · right
      refine ⟨g, live, generation, ?_, reached covers, ?_⟩
      · rcases hooked with known | parent
        · refine serves.sound.parents p (by_contra fun unknown => ?_)
          simp [Index.knows, Index.status?_eq_none.2 unknown] at known
        · exact Or.inr (Index.knowsParent_iff.1 parent)
      · simp only [Host.refresh, found, Crawl.Context.refresh]
        rw [if_pos (by simpa using hooked), Crawl.addEntry_outcome live]
    · left
      refine ⟨?_, fun outdated => hooked (serves.outdated_hooked outdated)⟩
      simp only [Host.refresh, found, Crawl.Context.refresh]
      rw [if_neg (by simpa using hooked)]
      exact ⟨_, rfl⟩
  · left
    have found := (generation p).trans (if_neg covers)
    refine ⟨?_, fun outdated => covers outdated.within⟩
    simp only [Host.refresh, found]
    exact ⟨_, rfl⟩

/-- A refresh ends under every schedule. -/
theorem Serves.refresh_halts {bound : Nat} (serves : Serves site old owed h) (lists : site.Lists)
    (shallow : site.Shallow bound) (p : Path) (reached : site.root.Covers p → site.region p) :
    Halts site.policy site.world (h.refresh site.policy p) := by
  rcases serves.refresh_cases p reached with
    ⟨⟨reply, ends⟩, _⟩ | ⟨g, live, _, hooked, inside, starts⟩
  · have start : h.refresh site.policy p = ((h.refresh site.policy p).1, .finished reply) :=
      Prod.ext rfl ends
    rw [start]
    exact halts_of_finished _ reply
  · intro schedule
    have start := @Crawl.entryCrawl_start site (refreshCrawl site.policy g) { store := h.store } p live
      serves.sound hooked inside
    obtain ⟨n, s, result, ends⟩ := start.ends lists shallow rfl schedule
    rw [starts]
    exact ⟨n, _, _, (after_resumeRefresh p g h.roots schedule _ n).trans (congrArg _ ends)⟩

/-- A refresh that has ended leaves its path up to date, and makes nothing else outdated. -/
theorem Serves.refreshed (serves : Serves site old owed h) (lists : site.Lists)
    (faithful : site.Faithful) (succeeds : Succeeds site old)
    (reached : site.root.Covers p → site.region p) {h' : Host} {reply : Reply}
    (completes : Completes site.policy site.world (h.refresh site.policy p) h' reply) :
    Serves site old (fun q => owed q ∧ q ≠ p) h' := by
  rcases serves.refresh_cases p reached with
    ⟨⟨reply', ends⟩, current⟩ | ⟨g, live, generation, hooked, inside, starts⟩
  · have start : h.refresh site.policy p = ((h.refresh site.policy p).1, .finished reply') :=
      Prod.ext rfl ends
    rw [start] at completes
    obtain rfl := completes_of_finished completes
    obtain ⟨roots, quiet, _⟩ := Host.refresh_cases site.policy p h
    refine { serves.quiet quiet roots with owed := fun q outdated => ?_ }
    rw [quiet.index] at outdated
    refine ⟨serves.owed q outdated, ?_⟩
    rintro rfl
    exact current outdated
  · rw [starts] at completes
    obtain ⟨schedule, n, ends⟩ := completes
    rw [after_resumeRefresh] at ends
    generalize crawled : Crawl.after (refreshCrawl site.policy g) site.world schedule
      ({ store := h.store }, .waiting (.entry p)) n = r at ends
    obtain ⟨s, task | result⟩ := r
    · cases ends
    · obtain ⟨live', reworked, outdated⟩ := Crawl.entryCrawl_result lists faithful succeeds rfl live
        serves.sound serves.sourced hooked inside crawled
      have moved : Serves site old (fun q => owed q ∧ q ≠ p) ⟨s.store, h.roots⟩ := by
        refine ⟨⟨g, live', generation⟩, reworked.sound, serves.sourced.reworked reworked,
          fun st wants => ?_, fun q now => ?_⟩
        · exact serves.root_stays (lists.below p inside) reworked (fun q now => (outdated q now).2)
            wants
        · exact ⟨serves.owed q (outdated q now).1, (outdated q now).2⟩
      obtain ⟨quiet, roots⟩ := Host.finishRefresh_keeps p result s.remarks ⟨s.store, h.roots⟩
      have host := congrArg Prod.fst ends
      dsimp only [Host.resumeRefresh] at host
      rw [host] at quiet roots
      exact moved.quiet quiet roots

end

/-- Refreshes of these paths, one after the other, each of them to its end. -/
inductive Refreshed (policy : Policy) (world : World) : Host → List Path → Host → Prop where
  | none (h : Host) : Refreshed policy world h [] h
  | next {h h' h'' : Host} {p : Path} {ps : List Path} {reply : Reply}
      (first : Completes policy world (h.refresh policy p) h' reply)
      (rest : Refreshed policy world h' ps h'') : Refreshed policy world h (p :: ps) h''

/-- Refreshes of these paths, one after the other, all end, whatever their schedules are. -/
def EachHalts (policy : Policy) (world : World) (h : Host) : List Path → Prop
  | [] => True
  | p :: ps => Halts policy world (h.refresh policy p) ∧
      ∀ h' reply, Completes policy world (h.refresh policy p) h' reply →
        EachHalts policy world h' ps

theorem EachHalts.refreshed {policy : Policy} {world : World} {h : Host} {ps : List Path}
    (halts : EachHalts policy world h ps) : ∃ h', Refreshed policy world h ps h' := by
  induction ps generalizing h with
  | nil => exact ⟨h, .none h⟩
  | cons p ps ih =>
    obtain ⟨n, h', reply, ends⟩ := halts.1 fun _ => []
    have first : Completes policy world (h.refresh policy p) h' reply := ⟨_, n, ends⟩
    obtain ⟨h'', rest⟩ := ih (halts.2 h' reply first)
    exact ⟨h'', .next first rest⟩

section

variable {site : Site} {old : Path → Status → Prop} {owed : Path → Prop} {h h' : Host}
  {ps : List Path}

theorem Serves.each_halts {bound : Nat} (serves : Serves site old owed h) (lists : site.Lists)
    (shallow : site.Shallow bound) (faithful : site.Faithful) (succeeds : Succeeds site old)
    (reached : ∀ p ∈ ps, site.root.Covers p → site.region p) :
    EachHalts site.policy site.world h ps := by
  induction ps generalizing h owed with
  | nil => trivial
  | cons p ps ih =>
    have here := reached p (by simp)
    refine ⟨serves.refresh_halts lists shallow p here, fun h' reply completes => ?_⟩
    have moved := serves.refreshed lists faithful succeeds here completes
    exact ih moved fun q member => reached q (by simp [member])

/-- Refreshes take their paths off what is owed, in whatever order they come. -/
theorem Serves.all_refreshed (serves : Serves site old owed h) (lists : site.Lists)
    (faithful : site.Faithful) (succeeds : Succeeds site old)
    (reached : ∀ p ∈ ps, site.root.Covers p → site.region p)
    (refreshed : Refreshed site.policy site.world h ps h') :
    Serves site old (fun q => owed q ∧ q ∉ ps) h' := by
  induction refreshed generalizing owed with
  | none => exact { serves with owed := fun q outdated => ⟨serves.owed q outdated, by simp⟩ }
  | @next h₁ h₂ h₃ p ps reply first rest ih =>
    have moved := serves.refreshed lists faithful succeeds (reached p (by simp)) first
    have later := ih moved (fun q member => reached q (by simp [member]))
    refine { later with owed := fun q outdated => ?_ }
    obtain ⟨⟨due, other⟩, left⟩ := later.owed q outdated
    exact ⟨due, by simp [other, left]⟩

/-- Once all that was owed is refreshed, the index is right everywhere. -/
theorem Serves.settled (serves : Serves site old owed h) (nothing : ∀ q, ¬ owed q) (p : Path) :
    Crawl.Agrees site h.store.index p :=
  Crawl.agrees_everywhere serves.sound (fun q outdated => nothing q (serves.owed q outdated)) p

end

end ProjectIndex.Watch
