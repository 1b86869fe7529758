import ProjectIndex.Diagnostic
import ProjectIndex.Store.Basic

/-!
# The store of one request

A watch or a refresh works on the common store and collects remarks of its own.
-/

namespace ProjectIndex

/-- The store together with the remarks of one request, in the order in which they were made. -/
structure Scope where
  store : Store
  remarks : List Diagnostic := []

namespace Scope

def update (s : Scope) (f : Store → Store) : Scope :=
  { s with store := f s.store }

def log (s : Scope) (line : Log.Line) : Scope :=
  s.update (·.log line)

def remark (s : Scope) (d : Diagnostic) : Scope :=
  { s with remarks := s.remarks ++ [d] }

def remarkAll (s : Scope) (ds : List Diagnostic) : Scope :=
  { s with remarks := s.remarks ++ ds }

end Scope

end ProjectIndex
