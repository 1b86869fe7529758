import ProjectIndex.Proofs.Index.Sound

/-!
# The files that an eviction names

An eviction says which files went.  Whatever the index looks like, the list names each file that
went once and no other file.  That the files lie at or below the evicted path takes one thing more:
every listing has entries of its own directory only.  Every write keeps it so.
-/

namespace ProjectIndex.Index

open Std

def Filed (ix : Index) : Prop :=
  ∀ d c, c ∈ ix.children d → c.parent = some d

theorem filed_empty (name : Name) : (empty name).Filed := by
  intro d c member
  simp [empty, mem_children] at member

theorem Filed.insertDirectory {ix : Index} (filed : ix.Filed) (p : Path) (st : Status) :
    (ix.insertDirectory p st true).1.Filed := by
  intro d c member
  rcases mem_children_insertDirectory.1 member with before | ⟨parent, rfl⟩
  · exact filed d c before
  · exact parent

theorem Filed.insertFile {ix : Index} (filed : ix.Filed) (p : Path) (st : Status) :
    (ix.insertFile p st true).1.Filed := by
  intro d c member
  rcases mem_children_insertFile.1 member with before | ⟨parent, rfl⟩
  · exact filed d c before
  · exact parent

theorem Filed.unlistChild {ix : Index} (filed : ix.Filed) (p : Path) : (ix.unlistChild p).Filed :=
  fun d c member => filed d c (mem_children_unlistChild.1 member).1

theorem Filed.stripped {ix : Index} (filed : ix.Filed) (p : Path) : (ix.stripped p).Filed := by
  intro d c member
  refine filed d c ?_
  obtain ⟨listing, found, entry⟩ := mem_children.1 member
  refine mem_children.2 ⟨listing, ?_, entry⟩
  rw [Index.stripped, ExtTreeMap.getElem?_erase] at found
  split at found
  · cases found
  · exact found

/-- The files in the list went, each of them once, and they lay at or below `p`; no other file
went. -/
structure Departed (ix : Index) (p : Path) (left : Index) (gone : List Path) : Prop where
  nodup : gone.Nodup
  below : ∀ f ∈ gone, p.Covers f
  were : ∀ f ∈ gone, f ∈ ix.files
  files : ∀ f, f ∈ left.files ↔ f ∈ ix.files ∧ f ∉ gone
  filed : left.Filed

namespace Departed

variable {ix mid left : Index} {p : Path} {gone more : List Path}

theorem none (filed : ix.Filed) (p : Path) : Departed ix p ix [] :=
  ⟨List.nodup_nil, by simp, by simp, by simp, filed⟩

/-- What went later had not gone before. -/
theorem append (first : Departed ix p mid gone) (second : Departed mid p left more) :
    Departed ix p left (gone ++ more) where
  nodup := by
    refine List.nodup_append.2 ⟨first.nodup, second.nodup, ?_⟩
    rintro f before _ after rfl
    exact ((first.files f).1 (second.were f after)).2 before
  below f member := (List.mem_append.1 member).elim (first.below f) (second.below f)
  were f member :=
    (List.mem_append.1 member).elim (first.were f) fun after =>
      ((first.files f).1 (second.were f after)).1
  files f := by
    rw [second.files, first.files, List.mem_append, not_or, and_assoc]
  filed := second.filed

theorem above {c : Path} (departed : Departed ix c left gone) (covers : p.Covers c) :
    Departed ix p left gone :=
  { departed with below := fun f member => covers.trans (departed.below f member) }

end Departed

/-- What each walk from an entry keeps, the walk through the entries keeps. -/
theorem foldl_forgetWithin {P : Index → List Path → Prop} {depth : Nat} {entries : List Path}
    (each : ∀ c ∈ entries, ∀ ix gone, P ix gone →
      P (forgetWithin depth ix c).1 (gone ++ (forgetWithin depth ix c).2))
    {ix : Index} {gone : List Path} (start : P ix gone) :
    let r := entries.foldl
      (fun (ix, gone) child =>
        let (ix, more) := forgetWithin depth ix child
        (ix, gone ++ more)) (ix, gone)
    P r.1 r.2 := by
  induction entries generalizing ix gone with
  | nil => exact start
  | cons c rest ih =>
    exact ih (fun c' member => each c' (by simp [member])) (each c (by simp) ix gone start)

/-- The walk names the files that it takes away. -/
theorem forgetWithin_departed (depth : Nat) (ix : Index) (p : Path) (filed : ix.Filed) :
    Departed ix p (forgetWithin depth ix p).1 (forgetWithin depth ix p).2 := by
  induction depth generalizing ix p with
  | zero => exact .none filed p
  | succ depth ih =>
    unfold forgetWithin
    split
    · have bare : Departed ix p (ix.stripped p) [] :=
        ⟨List.nodup_nil, by simp, by simp, by simp [stripped], filed.stripped p⟩
      have each : ∀ c ∈ ix.children p, ∀ left gone, Departed ix p left gone →
          Departed ix p (forgetWithin depth left c).1 (gone ++ (forgetWithin depth left c).2) := by
        intro c member left gone departed
        have covers : p.Covers c := Path.covers_of_parent (filed p c member)
        exact departed.append ((ih left c departed.filed).above covers)
      have swept := foldl_forgetWithin each bare
      exact { swept with files := swept.files, filed := swept.filed }
    · split
      next file =>
        refine ⟨List.nodup_singleton p, by simp, ?_, fun f => ?_, filed⟩
        · simpa using isFile_iff.1 file
        · simp [forgetFile, ExtTreeMap.mem_erase, and_comm, @eq_comm _ p f]
      · exact .none filed p

/-- An eviction names the files that it takes away. -/
theorem Filed.evict {ix : Index} (filed : ix.Filed) (p : Path) :
    Departed ix p (ix.evict p).1 (ix.evict p).2 := by
  have departed := forgetWithin_departed (ix.depthBound + 1) ix p filed
  exact { departed with
    files := fun f => by simpa [Index.evict] using departed.files f
    filed := departed.filed.unlistChild p }

end ProjectIndex.Index
