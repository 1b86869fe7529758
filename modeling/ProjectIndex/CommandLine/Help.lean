import ProjectIndex.CommandLine.Arguments

/-!
# Help

The pages that say how the program is called.  A page says what its subject does, how it is written,
and what each of its parts is for, every part on a line of its own with its text below.
-/

namespace ProjectIndex.CommandLine

/-- The parts of one kind. -/
structure Section where
  title : String
  /-- The parts with what they are for. -/
  entries : List (String × String)
  /-- The parts stand apart. -/
  spaced : Bool := false

structure Page where
  about : String
  usage : String
  sections : List Section

namespace Page

def sectionLines (s : Section) : List String :=
  let entries := s.entries.map fun (name, text) => ["  " ++ name, "          " ++ text]
  let placed := if s.spaced then entries.intersperse [""] else entries
  ["", s.title ++ ":"] ++ placed.flatten

def lines (p : Page) : List String :=
  [p.about, "", "Usage: " ++ p.usage] ++ p.sections.flatMap sectionLines

def configEntry : String × String :=
  ("-c, --config <CONFIG>", "Path to custom settings.toml file")

def helpEntry (text : String) : String × String :=
  ("-h, --help", text)

def scan : Page where
  about := "Crawl a directory once and summarize what was indexed"
  usage := "projfs scan [OPTIONS] [DIR]"
  sections :=
    [{ title := "Arguments", entries := [("[DIR]", "Directory to crawl [default: .]")] },
     { title := "Options"
       entries :=
         [configEntry, ("    --files", "Also list every indexed file"), helpEntry "Print help"] }]

def watch : Page where
  about := "Watch a directory and print file events until interrupted"
  usage := "projfs watch [OPTIONS] [DIR]"
  sections :=
    [{ title := "Arguments", entries := [("[DIR]", "Directory to watch [default: .]")] },
     { title := "Options", entries := [configEntry, helpEntry "Print help"] }]

def config : Page where
  about := "Display active settings"
  usage := "projfs config [OPTIONS]"
  sections := [{ title := "Options", entries := [configEntry, helpEntry "Print help"] }]

def help : Page where
  about := "Print this message or the help of the given subcommand(s)"
  usage := "projfs help [COMMAND]..."
  sections :=
    [{ title := "Arguments", entries := [("[COMMAND]...", "Print help for the subcommand(s)")] }]

/-- The page of the program, in full or in short. -/
def top (full : Bool) : Page where
  about :=
    if full then "Crawl project directories, track package manifests and follow file changes."
    else "In-memory project tree index"
  usage := "projfs [OPTIONS] <COMMAND>"
  sections :=
    [{ title := "Commands"
       entries :=
         [("scan", scan.about), ("watch", watch.about), ("config", config.about),
          ("help", help.about)] },
     { title := "Options"
       spaced := full
       entries :=
         [configEntry,
          helpEntry (if full then "Print help (see a summary with '-h')"
            else "Print help (see more with '--help')"),
          ("-V, --version", "Print version")] }]

/-- The page about a topic. -/
def ofTopic (full : Bool) : Topic → Page
  | .level .top => top full
  | .level .scan => scan
  | .level .watch => watch
  | .level .config => config
  | .help => help

end Page

def versionLine : String := "projfs 0.1.0"

end ProjectIndex.CommandLine
