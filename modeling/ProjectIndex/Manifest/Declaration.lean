import ProjectIndex.Json.Reader
import ProjectIndex.Manifest.Normalise
import ProjectIndex.Policy
import ProjectIndex.Sha256
import ProjectIndex.Store.Scope
import ProjectIndex.World

/-!
# Declaring a manifest

A manifest is read, installed in the index under its directory, made part of its project and sent to
the workers.  The work waits three times: for the contents of the file, for the project that the
manifest itself declares, and for the workers to take the summary.  `Declaration` is the wait,
`Declaration.step` what happens when it is over.

Taking a number and installing the manifest happen between two waits.  A manifest that cannot be
read or is not valid leaves what was installed before, and its remarks are the only sign of it.
-/

namespace ProjectIndex

/-- What a declaration waits for. -/
inductive Declaration where
  /-- The contents of the file. -/
  | reading (path directory : Path)
  /-- The project that an installed manifest declares. -/
  | declaring (definition : Definition)
  /-- The workers, to which the summary was sent. -/
  | publishing (definition : Definition)

namespace Declaration

/-- What is asked for: the manifest at a path, for a directory, with contents that the caller may
have at hand. -/
structure Request where
  path : Path
  directory : Path
  contents : Option (List UInt8) := none

/-- The manifest at a path, for the directory it is in. -/
def Request.ofPath (path : Path) (contents : Option (List UInt8)) : Request :=
  ⟨path, path.parent.getD path, contents⟩

/-- A declaration that waits, or its end: the installed definition, if one was installed. -/
inductive Progress where
  | waiting (declaration : Declaration)
  | finished (result : Except IndexError (Option Definition))

def line (name details : String) : Log.Line :=
  .event .debug .manifests "manifest" name details

/-- Makes a manifest part of its project and sends it to the workers. -/
def publish (d : Definition) (s : Scope) : Scope × Progress :=
  let owned :=
    match s.store.projects.find? d.path with
    | some project =>
      s.update fun store =>
        { store with projects := store.projects.associate project d.id }.emit
          (.project .associate d.directory)
    | none => s.log (line "unowned" d.path.display)
  (owned.update (·.emit (.broadcast d.summary)), .waiting (.publishing d))

/-- Takes the next number and installs a manifest under it, unless the generation is cancelled. -/
def takeNumber (g : Generation) (r : Request) (m : Manifest) (hash : String) (s : Store) :
    Store × Option Definition :=
  let d : Definition := ⟨s.nextManifest, r.path, r.directory, m, hash⟩
  let (index, installed) := s.index.setManifest d (s.isLive g)
  let taken := { s with index, nextManifest := s.nextManifest + 1 }
  if installed then
    (taken.log (line "declared" (r.path.display ++ " as " ++ toString d.id)), some d)
  else (taken, none)

/-- Installs the manifest that some bytes hold. -/
def install (policy : Policy) (g : Generation) (r : Request) (bytes : List UInt8) (s : Scope) :
    Scope × Progress :=
  match Json.parse bytes with
  | .error fault =>
    (s.remark ⟨.error, "manifest/parse", r.path.spelling, fault.message bytes⟩,
      .finished (.ok none))
  | .ok value =>
    let own := !policy.layout.isDependency r.path
    let outcome := Manifest.normalise ⟨policy.configField, r.path.spelling, own⟩ value
    let s := s.remarkAll outcome.remarks
    match outcome.manifest with
    | none =>
      (s.log ⟨.warn, .manifests, "[manifest] invalid manifest " ++ r.path.display⟩,
        .finished (.ok none))
    | some m =>
      match takeNumber g r m (Sha256.hex bytes) s.store with
      | (store, none) => ({ s with store }, .finished (.ok none))
      | (store, some d) =>
        let s := { s with store }
        if own && m.projectConfig.isSome then
          (s.update (·.askProject d.directory), .waiting (.declaring d))
        else publish d s

/-- Starts a declaration. -/
def begin (policy : Policy) (g : Generation) (r : Request) (s : Scope) : Scope × Progress :=
  if !policy.layout.isOfInterest r.path then
    (s.log (line "skipped" r.path.display), .finished (.ok none))
  else
    match r.contents with
    | some bytes => install policy g r bytes s
    | none => (s, .waiting (.reading r.path r.directory))

/-- The end of one wait. -/
def step (policy : Policy) (world : World) (g : Generation) (declaration : Declaration)
    (s : Scope) : Scope × Progress :=
  match declaration with
  | .reading path directory =>
    match world.contents path with
    | .ok bytes => install policy g ⟨path, directory, none⟩ bytes s
    | .error cause =>
      if cause.isNotFound then (s.log (line "vanished" path.display), .finished (.ok none))
      else (s, .finished (.error (.io path.spelling cause)))
  | .declaring d =>
    publish d ((s.remarkAll (world.projectRemarks d.directory)).update
      (·.projectDeclared d.directory))
  | .publishing d => (s, .finished (.ok (some d)))

end Declaration

end ProjectIndex
