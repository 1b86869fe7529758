import ProjectIndex.Change
import ProjectIndex.Session.Stage

/-!
# Changes that the system reports

What the operating system reports is turned into refreshes, one after the other.
-/

namespace ProjectIndex

/-- Something that comes from the operating system: a report of changes, or a failure. -/
inductive Watch.Raw where
  | report (report : Change.Report)
  | failure (details : String)
  deriving DecidableEq, Repr

namespace Session.Stage

variable {β α : Type}

/-- What the log says about the end of a refresh that a change caused. -/
def refreshLine (path : Path) : Except IndexError Bool → Option Log.Line
  | .ok true => some (Watch.line .debug "refreshed" path.display)
  | .ok false => none
  | .error e => some ⟨.error, .watches, "[watcher] refresh failed: " ++ e.message⟩

/-- Applies one change. -/
def change (act : β → Stage β α → Stage β α × α) (fuel : Nat) (c : Change) (s : Stage β α) :
    Stage β α :=
  let path := c.resolve
  let started := s.launch act (Actor.refresh s.policy path)
  let done := started.play act fuel
  match done.actors.getLast? with
  | some (.ended (.refreshed result)) =>
    match refreshLine path result with
    | some line => { done with host := done.host.log line }
    | none => done
  | _ => done

/-- Applies everything that the system reports, until it has no more to say. -/
def feed (act : β → Stage β α → Stage β α × α) (fuel : Nat) (raws : List Watch.Raw)
    (s : Stage β α) : Stage β α :=
  let fed := raws.foldl
    (fun s raw =>
      match raw with
      | .report report => (Change.ofReport report).foldl (fun s c => s.change act fuel c) s
      | .failure details =>
        let error := SubscriptionError.eventFailed details
        { s with host := s.host.log ⟨.error, .watches, "[watcher] " ++ error.message⟩ })
    s
  { fed with host := fed.host.log ⟨.debug, .watches, "[watcher] event loop stopped"⟩ }

/-- The paths that an edit of the disk is about, those above them first. -/
def touched (current : Path) (edit : Disk.Edit) : List Path :=
  let spellings := match edit with
    | .mkdir s _ => [s]
    | .write s _ _ => [s]
    | .touch s _ => [s]
    | .remove s => [s]
    | .rename s target => [s, target]
    | .symlink s _ _ => [s]
    | .pipe s _ => [s]
  (spellings.map current.join).flatMap fun p => p.withAncestors.reverse

/-- The system reports some paths. -/
def refreshAll (act : β → Stage β α → Stage β α × α) (fuel : Nat) (paths : List Path)
    (s : Stage β α) : Stage β α :=
  paths.foldl
    (fun s p =>
      match Change.ofPath? p with
      | some c => s.change act fuel c
      | none => s)
    s

/-- Somebody changes the disk, and the system reports it. -/
def edit (act : β → Stage β α → Stage β α × α) (fuel : Nat) (edits : List Disk.Edit)
    (s : Stage β α) : Stage β α :=
  { s with disk := s.disk.applyAll edits }.refreshAll act fuel
    (edits.flatMap (touched s.disk.currentPath))

end Session.Stage

end ProjectIndex
