import ProjectIndex.Disk.Edit
import ProjectIndex.Native
import ProjectIndex.Session.Job

/-!
# Sessions

A host on a disk, with scripted surprises: calls of the backend that are refused, remarks that the
loading of a project makes, and hooks, which are actions that happen in the middle of a call.  A
session is deterministic.  The actors take turns: of those that can go on it is the one that has
waited longest that does, and entries that are crawled at once go on one after the other.

The actions of hooks are of any type; whoever runs the session says what they do.
-/

namespace ProjectIndex.Session

open Watch (Host)

/-- The calls that a hook can sit in. -/
inductive Point where
  | openRoot
  | watchDirectory
  | declare
  | broadcast
  deriving DecidableEq, Repr

/-- The call that an effect records, if a hook can sit in it. -/
def Point.ofEffect? : Effect → Option (Point × Path)
  | .backend .openRoot p => some (.openRoot, p)
  | .backend .watchDirectory p => some (.watchDirectory, p)
  | .project .declare p => some (.declare, p)
  | .broadcast s => some (.broadcast, .ofSpelling s.path)
  | _ => none

/-- Actions that happen inside the next call of a kind for a path. -/
structure Hook (β : Type) where
  point : Point
  path : Path
  actions : List β

/-- A call of the backend that is refused. -/
structure Refusal where
  point : Point
  path : Path
  reason : String
  deriving DecidableEq, Repr

/-- A request that is made while another one is under way. -/
inductive Request where
  | watch (root : Path)
  | refresh (path : Path)
  deriving DecidableEq, Repr

/-- A session; `β` are the actions of hooks and `α` their results. -/
structure Stage (β α : Type) where
  policy : Policy
  host : Host
  disk : Disk
  refusals : List Refusal := []
  /-- What the loading of projects remarks. -/
  projectRemarks : List (Path × Diagnostic) := []
  hooks : List (Hook β) := []
  /-- The work of the current step, in the order in which it was asked for. -/
  actors : List Actor := []
  /-- The numbers of the actors, the one that has waited longest first. -/
  turns : List Nat := []
  /-- Requests that were made inside a hook and are not started yet. -/
  queued : List Request := []
  /-- The results of the actions of hooks. -/
  results : List α := []

namespace Stage

variable {β α : Type}

/-- A session as settings ask for it, before the first request. -/
def create (settings : Settings) (style : Backend.Style) (disk : Disk) : Stage β α :=
  let store := Store.empty (.ofString settings.project.manifestFilename) style
  { policy := .ofSettings settings
    host := { store := store.emitAll (store.backend.announce.map .log) }
    disk }

/-- The answer to a call of the backend. -/
def answer (s : Stage β α) (point : Point) (p : Path) : Except SubscriptionError Unit :=
  match s.refusals.find? fun r => r.point = point && r.path = p with
  | some r => .error (.pathFailed p.spelling r.reason)
  | none => .ok ()

/-- The world as the session has it at this moment.  The system answers for its own backends, the
script for any other. -/
def world (s : Stage β α) : World :=
  let native := World.native s.host.store.backend.style s.disk
  let answered :=
    match s.host.store.backend.style with
    | .external _ =>
      { native with
        openRoot := s.answer .openRoot
        watchDirectory := s.answer .watchDirectory }
    | _ => native
  { answered with
    projectRemarks := fun root => (s.projectRemarks.filter (·.1 = root)).map (·.2) }

/-- Starts one request. -/
def start (s : Stage β α) (request : Host → Host × Actor) : Stage β α :=
  let (host, actor) := request s.host
  { s with host, actors := s.actors ++ [actor], turns := s.turns ++ [s.actors.length] }

/-- Starts the requests that were made inside a hook. -/
def startQueued (s : Stage β α) : Stage β α :=
  s.queued.foldl
    (fun s request =>
      match request with
      | .watch root => s.start (Actor.watch root)
      | .refresh path => s.start (Actor.refresh s.policy path))
    { s with queued := [] }

/-- Runs the hooks of one call, in the order in which they were given, and takes them away. -/
def hook (act : β → Stage β α → Stage β α × α) (s : Stage β α) (effect : Effect) : Stage β α :=
  match Point.ofEffect? effect with
  | none => s
  | some (point, path) =>
    let (sitting, others) := s.hooks.partition fun h => h.point = point && h.path = path
    let acted := (sitting.flatMap (·.actions)).foldl
      (fun s action =>
        let (s, result) := act action s
        { s with results := s.results ++ [result] })
      { s with hooks := others }
    if point = .declare && !sitting.isEmpty then acted.startQueued else acted

/-- Runs the hooks of the calls that were made since the store was `old`. -/
def react (act : β → Stage β α → Stage β α × α) (old : Store) (s : Stage β α) : Stage β α :=
  if s.hooks.isEmpty then s else (s.host.store.since old).foldl (hook act) s

/-- Starts one request and runs the hooks of the calls it makes at once. -/
def launch (act : β → Stage β α → Stage β α × α) (request : Host → Host × Actor)
    (s : Stage β α) : Stage β α :=
  react act s.host.store (s.start request)

/-- The actor that goes on next, with its number. -/
def nextActor? (s : Stage β α) : Option (Nat × Actor) :=
  s.turns.findSome? fun i =>
    (s.actors[i]?.filter fun actor => !actor.isIdle s.host.roots).map (i, ·)

/-- Lets the actors that can go on do so in turn, until none can. -/
def play (act : β → Stage β α → Stage β α × α) : Nat → Stage β α → Stage β α
  | 0, s => s
  | fuel + 1, s =>
    match s.nextActor? with
    | none => s
    | some (i, actor) =>
      let (host, actor) := actor.step s.policy s.world [] s.host
      let actors := s.actors.set i actor
      let turns := s.turns.erase i ++ [i]
      play act fuel (react act s.host.store { s with host, actors, turns })

def answers (s : Stage β α) : List Answer :=
  s.actors.filterMap fun
    | .ended answer => some answer
    | .running _ => none

/-- The notices since the last step, the oldest first. -/
def notices (s : Stage β α) : List Notice :=
  s.host.store.trace.reverse.filterMap fun
    | .notice n => some n
    | _ => none

/-- Ready for the next step: nothing under way, nothing recorded. -/
def clear (s : Stage β α) : Stage β α :=
  { s with
    host := s.host.update fun store => { store with trace := [] }
    actors := []
    turns := []
    queued := []
    results := [] }

end Stage

end ProjectIndex.Session
