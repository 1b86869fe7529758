import ProjectIndex.Watch.Call

/-!
# Jobs

One work under way, of any kind: a watch or a refresh, a crawl that somebody asked for directly, or
the declaration of a manifest.
-/

namespace ProjectIndex.Session

open Watch (Host)

inductive Job where
  | call (call : Watch.Call)
  | crawl (ctx : Crawl.Context) (task : Crawl.Task) (remarks : List Diagnostic)
  | declaration (generation : Generation) (declaration : Declaration) (remarks : List Diagnostic)

/-- What a job ended with. -/
inductive Answer where
  | watched (result : Except IndexError Unit)
  | refreshed (result : Except IndexError Bool)
  | crawled (result : Except IndexError Bool) (remarks : List Diagnostic)
  | declared (result : Except IndexError (Option Definition)) (remarks : List Diagnostic)

/-- A job that waits or has ended. -/
inductive Actor where
  | running (job : Job)
  | ended (answer : Answer)

namespace Actor

/-- A watch or a refresh. -/
def ofCall : Host × Watch.Progress → Host × Actor
  | (h, .waiting call) => (h, .running (.call call))
  | (h, .finished (.watched r)) => (h, .ended (.watched r))
  | (h, .finished (.refreshed r)) => (h, .ended (.refreshed r))

/-- A crawl in a context. -/
def ofCrawl (ctx : Crawl.Context) (roots : Watch.Roots) : Scope × Crawl.Progress → Host × Actor
  | (s, .waiting task) => (⟨s.store, roots⟩, .running (.crawl ctx task s.remarks))
  | (s, .finished r) => (⟨s.store, roots⟩, .ended (.crawled r s.remarks))

/-- The declaration of a manifest in a generation. -/
def ofDeclaration (g : Generation) (roots : Watch.Roots) :
    Scope × Declaration.Progress → Host × Actor
  | (s, .waiting d) => (⟨s.store, roots⟩, .running (.declaration g d s.remarks))
  | (s, .finished r) => (⟨s.store, roots⟩, .ended (.declared r s.remarks))

def watch (root : Path) (h : Host) : Host × Actor :=
  ofCall (h.watch root)

def refresh (policy : Policy) (path : Path) (h : Host) : Host × Actor :=
  ofCall (h.refresh policy path)

def crawl (ctx : Crawl.Context) (start : Scope → Scope × Crawl.Progress) (h : Host) :
    Host × Actor :=
  ofCrawl ctx h.roots (start { store := h.store })

def declare (policy : Policy) (g : Generation) (r : Declaration.Request) (h : Host) :
    Host × Actor :=
  ofDeclaration g h.roots (Declaration.begin policy g r { store := h.store })

/-- The actor cannot go on: it has ended, or waits for another one. -/
def isIdle (roots : Watch.Roots) : Actor → Bool
  | .running (.call call) => call.isBlocked roots
  | .running _ => false
  | .ended _ => true

/-- The end of one wait. -/
def step (policy : Policy) (world : World) (schedule : List Nat) (actor : Actor) (h : Host) :
    Host × Actor :=
  match actor with
  | .running (.call call) => ofCall (call.step policy world schedule h)
  | .running (.crawl ctx task remarks) =>
    ofCrawl ctx h.roots (task.step ctx world schedule ⟨h.store, remarks⟩)
  | .running (.declaration g d remarks) =>
    ofDeclaration g h.roots (d.step policy world g ⟨h.store, remarks⟩)
  | .ended answer => (h, .ended answer)

end Actor

end ProjectIndex.Session
