import ProjectIndex.Broadcast
import ProjectIndex.Store.Basic

/-!
# Reports

What a step of a session showed, in a form that does not depend on the order in which entries were
crawled at once.  What happened is sorted by path, and numbers that were given out in one step are
dealt out again in the order of the paths.
-/

namespace ProjectIndex.Session

/-- The effects of one step. -/
structure Report where
  notices : List (Receipt Notice)
  calls : List (BackendCall × Path)
  summaries : List Summary
  projectCalls : List (ProjectCall × Path)
  ticks : List Path

/-- Numbers as they were given out, with the numbers that are shown instead. -/
structure Numbering where
  manifests : List (ManifestId × ManifestId) := []
  projects : List (UInt32 × UInt32) := []

namespace Numbering

def manifest (n : Numbering) (id : ManifestId) : ManifestId :=
  (n.manifests.lookup id).getD id

def project (n : Numbering) (id : UInt32) : UInt32 :=
  (n.projects.lookup id).getD id

/-- Deals the numbers of summaries out again, in the order of their paths. -/
def dealManifests (n : Numbering) (sorted : List Summary) : Numbering :=
  let ids := sorted.map Summary.id
  { n with manifests := ids.zip (ids.mergeSort (· ≤ ·)) ++ n.manifests }

/-- Deals the numbers of new projects out again, in the order of their roots. -/
def dealProjects (n : Numbering) (ps : Projects) : Numbering :=
  let new := (ps.toList.map fun p => p.id.val).filter fun id => (n.projects.lookup id).isNone
  { n with projects := new.zip (new.mergeSort (· ≤ ·)) ++ n.projects }

def showDefinition (n : Numbering) (d : Definition) : Definition :=
  { d with id := n.manifest d.id }

def showSummary (n : Numbering) (s : Summary) : Summary :=
  { s with id := n.manifest s.id }

/-- The number of a project and its manifests as they are shown. -/
def showProject (n : Numbering) (p : Project) : UInt32 × List ManifestId :=
  (n.project p.id.val, (p.manifests.map n.manifest).mergeSort (· ≤ ·))

end Numbering

/-- Calls that are about a whole root keep their place. -/
def isFence : BackendCall → Bool
  | .watchDirectory => false
  | .forgetDirectory => false
  | _ => true

/-- Sorts the calls between two calls that keep their place. -/
def sortCalls (calls : List (BackendCall × Path)) : List (BackendCall × Path) :=
  let flush (run : List (BackendCall × Path)) := sortByPath (·.2) run.reverse
  let (done, run) := calls.foldl
    (fun (done, run) call =>
      if isFence call.1 then (done ++ flush run ++ [call], []) else (done, call :: run))
    ([], [])
  done ++ flush run

/-- Sorts what a subscriber got by path, the signs of loss first. -/
def sortReceipts (receipts : List (Receipt Notice)) : List (Receipt Notice) :=
  let messages := receipts.filterMap fun
    | .message n => some n
    | _ => none
  let lags := receipts.filter fun
    | .lagged _ => true
    | _ => false
  lags ++ (sortByPath Notice.path messages).map .message

namespace Report

/-- The report of the effects of one step, given in order.  Notices go through the channel `bus`, on
which subscriber 0 listens. -/
def ofEffects (bus : Broadcast Notice) (effects : List Effect) : Broadcast Notice × Report :=
  let notices := effects.filterMap fun
    | .notice n => some n
    | _ => none
  let (bus, receipts) := (notices.foldl Broadcast.send bus).drain 0
  let summaries := effects.filterMap fun
    | .broadcast s => some s
    | _ => none
  (bus,
    { notices := sortReceipts receipts
      calls := sortCalls (effects.filterMap fun
        | .backend call p => some (call, p)
        | _ => none)
      summaries := sortByPath (fun s => .ofSpelling s.path) summaries
      projectCalls := sortByPath (·.2) (effects.filterMap fun
        | .project call p => some (call, p)
        | _ => none)
      ticks := sortByPath id (effects.filterMap fun
        | .tick p => some p
        | _ => none) })

end Report

end ProjectIndex.Session
