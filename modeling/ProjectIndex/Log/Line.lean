/-!
# Log lines

What the program says about its own work.  Every line has a level and a source; a filter decides by
these which lines are shown.
-/

namespace ProjectIndex.Log

inductive Level where
  | error
  | warn
  | info
  | debug
  | trace
  deriving DecidableEq, Repr, Inhabited

namespace Level

/-- The word in front of a line. -/
def title : Level → String
  | .error => "ERROR"
  | .warn => "WARN"
  | .info => "INFO"
  | .debug => "DEBUG"
  | .trace => "TRACE"

/-- How much is shown at a level: each level shows itself and everything more important. -/
def rank : Level → Nat
  | .error => 1
  | .warn => 2
  | .info => 3
  | .debug => 4
  | .trace => 5

end Level

/-- The part of the program that speaks. -/
inductive Source where
  | crawler
  | index
  | projects
  | events
  | facade
  | watches
  | backend
  | manifests
  | watchCommand
  deriving DecidableEq, Repr, Inhabited

/-- The name by which a filter selects a source. -/
def Source.target : Source → String
  | .crawler => "projfs::crawler"
  | .index => "projfs::index"
  | .projects => "projfs::project"
  | .events => "projfs::events"
  | .facade => "projfs::memory_fs"
  | .watches => "projfs::watcher::orchestrator"
  | .backend => "projfs::watcher::backend"
  | .manifests => "projfs::manifest"
  | .watchCommand => "projfs::cli::commands::watch"

structure Line where
  level : Level
  source : Source
  text : String
  deriving DecidableEq, Repr, Inhabited

namespace Line

/-- A line about something that happened in a component. -/
def event (level : Level) (source : Source) (component name details : String) : Line :=
  ⟨level, source, "[" ++ component ++ "] " ++ name ++ ": " ++ details⟩

/-- A character of a line.  What a terminal could take for a command is spelt out. -/
def spell (c : Char) : String :=
  let digits (n : Nat) : String := String.ofList (Nat.toDigits 16 n)
  match c.toNat with
  | 0x07 => "\\x07"
  | 0x08 => "\\x08"
  | 0x0c => "\\x0c"
  | 0x1b => "\\x1b"
  | 0x7f => "\\x7f"
  | n => if 0x80 ≤ n && n ≤ 0x9f then "\\u\x7b" ++ digits n ++ "\x7d" else c.toString

def render (l : Line) : String :=
  l.level.title ++ " " ++ String.join (l.text.toList.map spell)

end Line

end ProjectIndex.Log
