import ProjectIndex.Diagnostic
import ProjectIndex.SystemError

/-!
# Errors

Why a request failed.  Each error names its cause; the wording is in `message`.
-/

namespace ProjectIndex

/-- Why an access to the disk failed: an error number of the system, or a name the system would not
even be asked about. -/
inductive DiskError where
  | system (code : Int)
  | nulByte
  /-- Nothing was named at all. -/
  | emptyPath
  deriving DecidableEq, Repr, Inhabited

namespace DiskError

def notFound : DiskError := .system 2

def notADirectory : DiskError := .system 20

def isADirectory : DiskError := .system 21

def nameTooLong : DiskError := .system 36

def tooManyLinks : DiskError := .system 40

def isNotFound (e : DiskError) : Bool :=
  e == notFound

def message : DiskError → String
  | .system code => SystemError.text code ++ " (os error " ++ toString code ++ ")"
  | .nulByte => "file name contained an unexpected NUL byte"
  | .emptyPath => "cannot make an empty path absolute"

end DiskError

/-- Why the watcher of the operating system failed. -/
inductive SubscriptionError where
  | initFailed (reason : String)
  | pathFailed (path : Spelling) (reason : String)
  | eventFailed (details : String)
  deriving DecidableEq, Repr, Inhabited

def SubscriptionError.message : SubscriptionError → String
  | .initFailed reason => "Failed to initialize watcher: " ++ reason
  | .pathFailed path reason => "Cannot watch path " ++ path.display ++ ": " ++ reason
  | .eventFailed details => "File system event error: " ++ details

/-- What is wrong with a glob pattern. -/
inductive PatternFlaw where
  | wildcards
  | recursiveWildcards
  | range
  deriving DecidableEq, Repr, Inhabited

def PatternFlaw.message : PatternFlaw → String
  | .wildcards => "wildcards are either regular `*` or recursive `**`"
  | .recursiveWildcards => "recursive wildcards must form a single path component"
  | .range => "invalid range pattern"

/-- Why a request of the index failed. -/
inductive IndexError where
  | notFound (path : Spelling)
  | notADirectory (path : Spelling)
  | io (path : Spelling) (cause : DiskError)
  /-- The work was done, but with errors among the diagnostics. -/
  | diagnostics (root : Spelling) (found : List Diagnostic)
  /-- The crawl that this request had joined failed. -/
  | watchFailed (root : Spelling)
  /-- A failure, and what had been found before it. -/
  | aborted (source : IndexError) (found : List Diagnostic)
  | watch (cause : SubscriptionError)
  | pattern (position : Nat) (flaw : PatternFlaw)
  deriving DecidableEq, Repr, Inhabited

namespace IndexError

/-- Attaches what was found before the failure; nothing found leaves the error as it is. -/
def withDiagnostics (e : IndexError) (found : List Diagnostic) : IndexError :=
  if found.isEmpty then e else .aborted e found

/-- The diagnostics that an error carries itself. -/
def found : IndexError → List Diagnostic
  | .diagnostics _ ds => ds
  | .aborted _ ds => ds
  | _ => []

/-- The failure behind an error is that a path is gone. -/
def isNotFound : IndexError → Bool
  | .notFound _ => true
  | .io _ cause => cause.isNotFound
  | .aborted source _ => source.isNotFound
  | _ => false

def message : IndexError → String
  | .notFound path => "Path not found in index: " ++ path.display
  | .notADirectory path => "Not a directory: " ++ path.display
  | .io path cause => "IO error at " ++ path.display ++ ": " ++ cause.message
  | .diagnostics root ds =>
    "Crawl of " ++ root.display ++ " produced " ++ toString ds.length ++ " diagnostic(s)"
  | .watchFailed root =>
    "Watch of " ++ root.display ++ " failed while another request was waiting on it"
  | .aborted source ds =>
    source.message ++ " (" ++ toString ds.length ++ " diagnostic(s) collected before the failure)"
  | .watch cause => cause.message
  | .pattern position flaw =>
    "Invalid glob pattern: Pattern syntax error near position " ++ toString position ++ ": " ++
      flaw.message

end IndexError

end ProjectIndex
