import ProjectIndex.CommandLine.Grid
import ProjectIndex.CommandLine.Help
import ProjectIndex.Disk.Listing
import ProjectIndex.Log.Filter
import ProjectIndex.Log.Journal
import ProjectIndex.Session.Feed
import ProjectIndex.Settings.File

/-!
# Runs of the program

A run reads its settings, decides which lines of the log are shown, and carries out its command.
Results go to the output; the log, remarks and errors are messages.
-/

namespace ProjectIndex.CommandLine

/-- What a run left behind. -/
structure Outcome where
  code : Nat := 0
  output : List String := []
  messages : List String := []
  deriving DecidableEq, Repr

/-- A session without a script. -/
abbrev Stage := Session.Stage Empty Unit

namespace Stage

/-- There are no scripted actions. -/
def idle (action : Empty) (_ : Stage) : Stage × Unit :=
  nomatch action

/-- More steps than the work on a disk can take. -/
def enough (d : Disk) : Nat :=
  100 * (d.listing.length + 1)

/-- Watches a root and waits for the end of its first crawl. -/
def watch (root : Path) (s : Stage) : Stage × Except IndexError Unit :=
  let done := (s.launch idle (Session.Actor.watch root)).play idle (enough s.disk)
  match done.answers.getLast? with
  | some (.watched result) => ({ done with actors := [] }, result)
  | _ => (done, .ok ())

/-- The lines of the log so far that a filter shows. -/
def shown (filter : Log.Filter) (subscribers : Nat) (s : Stage) : List String :=
  ((s.host.store.trace.reverse.filterMap (Log.ofEffect? subscribers)).filter filter.shows).map
    Log.Line.render

end Stage

/-- What a run finds around it. -/
structure Surroundings where
  disk : Disk
  /-- The variables of the environment. -/
  environment : List (String × String)
  /-- The time that a crawl takes, as it is shown. -/
  elapsed : String

/-- What a run has before its command starts. -/
structure Setup where
  surroundings : Surroundings
  settings : Settings
  filter : Log.Filter
  /-- What was said meanwhile. -/
  messages : List String

namespace Setup

/-- The settings of a run, and what is wrong with them: flawed settings are not used at all. -/
def readSettings (d : Disk) (environment : List (String × String)) (file : Option Spelling) :
    Settings × List String :=
  let loaded :=
    match file with
    | some file => Settings.loadFrom d file environment
    | none => Settings.load d environment
  match loaded with
  | .ok settings => (settings, [])
  | .error e => ({}, ("Configuration error: " ++ e.message) :: e.details d.currentPath)

/-- Prepares a run. -/
def create (surroundings : Surroundings) (file : Option Spelling) : Setup :=
  let (settings, complaints) := readSettings surroundings.disk surroundings.environment file
  let directives := (surroundings.environment.lookup "RUST_LOG").getD settings.logging.directives
  let (filter, ignored) := Log.Filter.parse directives
  { surroundings, settings, filter, messages := complaints ++ ignored }

def disk (s : Setup) : Disk :=
  s.surroundings.disk

def session (s : Setup) : Stage :=
  Session.Stage.create s.settings s.settings.watch.backend.style s.disk

/-- The run failed after some messages. -/
def failed (s : Setup) (messages : List String) (reason : String) : Outcome :=
  { code := 1, messages := s.messages ++ messages ++ ["Error: " ++ reason] }

end Setup

/-- A path as it is shown below a root. -/
def relative (root p : Path) : String :=
  match p.relativeTo root with
  | none => p.display
  | some s => if s.bytes.isEmpty then "." else s.display

/-- The grid of the manifests that were found. -/
def manifestGrid (root : Path) (found : List Definition) : Grid where
  header := ["Directory", "Name", "Version", "Type", "Deps", "Hash"]
  rows := found.map fun d =>
    [relative root d.directory,
     d.manifest.name.getD "-",
     d.manifest.version.getD "-",
     (d.manifest.moduleType.map ModuleType.word).getD "-",
     toString d.manifest.dependencies.size,
     String.ofList (d.hash.toList.take 12)]

/-- What a scan prints about an index, with the time it took. -/
def report (root : Path) (listFiles : Bool) (elapsed : String) (ix : Index) : List String :=
  let files := if listFiles then ix.filesBelow root else []
  ["Indexed " ++ toString (ix.countBelow root) ++ " files in " ++ toString ix.directoryCount ++
    " directories (" ++ elapsed ++ ")"] ++
  files.map (fun p => "  " ++ relative root p) ++
  (if ix.manifestList.isEmpty then ["No manifests found"]
   else (manifestGrid root ix.manifestList).lines)

/-- Crawls a directory once and says what was found.  Errors in manifests do not make a scan fail.
-/
def scan (s : Setup) (dir : Spelling) (listFiles : Bool) : Outcome :=
  match s.disk.absolute dir with
  | .error cause => s.failed [] cause.message
  | .ok root =>
    let (stage, answer) := Stage.watch root s.session
    let shown := Stage.shown s.filter 0 stage
    let success (found : List Diagnostic) : Outcome :=
      let left := { stage.clear with host := stage.clear.host.unwatchAll }
      { output := report root listFiles s.surroundings.elapsed stage.host.store.index
        messages := s.messages ++ shown ++ found.map Diagnostic.line ++
          Stage.shown s.filter 0 left }
    match answer with
    | .ok () => success []
    | .error (.diagnostics _ found) => success found
    | .error e => s.failed shown e.message

def showConfig (s : Setup) : Outcome :=
  let head := ["Current Configuration:", String.ofList (List.replicate 50 '=')]
  { output := head ++ (s.settings.written "default").splitOn "\n", messages := s.messages }

/-- A run that goes on until somebody interrupts it. -/
structure Watching where
  setup : Setup
  stage : Stage
  outcome : Outcome

/-- A run: over, or watching. -/
inductive Run where
  | ended (outcome : Outcome)
  | watching (watching : Watching)

/-- Watches a directory.  Any error ends the run. -/
def watch (s : Setup) (dir : Spelling) : Run :=
  match s.disk.absolute dir with
  | .error cause => .ended (s.failed [] cause.message)
  | .ok root =>
    let (stage, answer) := Stage.watch root s.session
    let shown := Stage.shown s.filter 0 stage
    match answer with
    | .error e => .ended (s.failed shown e.message)
    | .ok () =>
      let line := "Watching " ++ root.display ++ " (" ++
        toString (stage.host.store.index.countBelow root) ++ " files, " ++
        stage.host.store.backend.name ++ " backend). Press Ctrl-C to stop."
      .watching ⟨s, stage.clear, { output := [line], messages := s.messages ++ shown }⟩

namespace Watching

/-- The disk is another one now, and the system reports some paths of it.  The changes of the index
are printed. -/
def notice (w : Watching) (disk : Disk) (paths : List Path) : Watching × List Notice :=
  let enough := Stage.enough w.stage.disk + Stage.enough disk
  let stage := { w.stage with disk }.refreshAll Stage.idle enough paths
  let outcome :=
    { w.outcome with
      output := w.outcome.output ++ stage.notices.map Notice.line
      messages := w.outcome.messages ++ Stage.shown w.setup.filter 1 stage }
  ({ w with stage := stage.clear, outcome }, stage.notices)

def edit (w : Watching) (edits : List Disk.Edit) : Watching × List Notice :=
  let d := w.stage.disk
  w.notice (d.applyAll edits) (edits.flatMap (Session.Stage.touched d.currentPath))

/-- The disk turns out to be another one. -/
def update (w : Watching) (disk : Disk) : Watching × List Notice :=
  w.notice disk (w.stage.disk.differences disk)

/-- The run is interrupted. -/
def interrupt (w : Watching) : Outcome :=
  let line : Log.Line := ⟨.info, .watchCommand, "[watcher] interrupted"⟩
  let host := (w.stage.host.log line).unwatchAll
  { w.outcome with
    messages := w.outcome.messages ++ Stage.shown w.setup.filter 1 { w.stage with host } }

end Watching

/-- What is printed where there is nothing to run. -/
def refuse (r : Refusal) : Outcome :=
  let output :=
    match r with
    | .displayHelp topic full => (Page.ofTopic full topic).lines
    | .displayVersion => [versionLine]
    | _ => []
  { code := r.exitCode, output }

/-- Starts the program. -/
def start (surroundings : Surroundings) (args : List Name) : Run :=
  match parse args with
  | .error refusal => .ended (refuse refusal)
  | .ok arguments =>
    let setup := Setup.create surroundings arguments.config
    match arguments.command with
    | .scan dir listFiles => .ended (scan setup dir listFiles)
    | .watch dir => watch setup dir
    | .config => .ended (showConfig setup)

end ProjectIndex.CommandLine
