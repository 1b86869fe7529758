import ProjectIndex.Path.Basic

/-!
# Diagnostics

Remarks that a crawl or a refresh collects on its way.  They are not the way errors are reported:
each request owns one list, and everything it does appends to it.
-/

namespace ProjectIndex

inductive Severity where
  | warning
  | error
  deriving DecidableEq, Repr, Inhabited

def Severity.word : Severity → String
  | .warning => "warning"
  | .error => "error"

structure Diagnostic where
  severity : Severity
  /-- A short machine-readable origin such as `manifest/parse`. -/
  category : String
  path : Spelling
  message : String
  deriving DecidableEq, Repr, Inhabited

namespace Diagnostic

def isError (d : Diagnostic) : Bool :=
  d.severity == .error

def line (d : Diagnostic) : String :=
  d.severity.word ++ "[" ++ d.category ++ "] " ++ d.path.display ++ ": " ++ d.message

/-- Sorts by path, keeping the order of what shares one. -/
def sort (ds : List Diagnostic) : List Diagnostic :=
  ds.mergeSort fun a b => (a.path.compareComponents b.path).isLE

end Diagnostic

end ProjectIndex
