import ProjectIndex.Store.Effect
import ProjectIndex.Text.Quoted

/-!
# The journal of effects

What the log says about effects: some of them are lines already, and the channels say whether
anybody listens.
-/

namespace ProjectIndex

def Path.describe (p : Path) : String :=
  "IndexPath(" ++ Quoted.bytes p.spelling.bytes ++ ")"

def Kind.title : Kind → String
  | .file => "File"
  | .directory => "Directory"
  | .unknown => "Unknown"

def Status.describe (s : Status) : String :=
  "Stats \x7b size: " ++ toString s.size ++ ", mtime: " ++ toString s.mtime ++ ", kind: " ++
    s.kind.title ++ " \x7d"

/-- One line about a notice. -/
def Notice.describe : Notice → String
  | .new p => "NewFile \x7b path: " ++ p.describe ++ " \x7d"
  | .deleted p => "DeletedFile \x7b path: " ++ p.describe ++ " \x7d"
  | .changed p old now =>
    "ChangedFile \x7b path: " ++ p.describe ++ ", old_stats: " ++ old.describe ++
      ", new_stats: " ++ now.describe ++ " \x7d"

namespace Log

/-- What the log says about an effect while so many subscribers listen to notices.  Nobody listens
to summaries. -/
def ofEffect? (subscribers : Nat) : Effect → Option Line
  | .log line => some line
  | .notice n =>
    some <|
      if subscribers = 0 then
        .event .debug .events "events" "dropped" ("no subscribers for " ++ n.describe)
      else .event .debug .events "events" "sent" ("to " ++ toString subscribers ++ " subscribers")
  | .broadcast s =>
    some (.event .debug .projects "manifest" "broadcast" ("no workers for id " ++ toString s.id))
  | _ => none

end Log

end ProjectIndex
