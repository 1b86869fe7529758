import ProjectIndex.Manifest.Layout
import ProjectIndex.Settings.Basic
import ProjectIndex.Status

/-!
# What a crawl takes in

The naming rules of a crawl: which entries are left out, which come first, and which files declare a
project.
-/

namespace ProjectIndex

structure Policy where
  denylist : List Name
  /-- Names that come first, in this order. -/
  priority : List Name
  layout : Layout
  configDir : Name
  configNames : List Name
  /-- Recognised extensions, in lower case and without a leading dot. -/
  extensions : List Name
  /-- The manifest field that makes a directory the root of a project. -/
  configField : String
  deriving DecidableEq, Repr

namespace Policy

def lowerByte (b : UInt8) : UInt8 :=
  if 0x41 ≤ b && b ≤ 0x5A then b + 0x20 else b

/-- An extension as it is compared: leading dots dropped, basic letters in lower case. -/
def foldExtension (e : Name) : Name :=
  (e.dropWhile (· == 0x2E)).map lowerByte

def ofSettings (s : Settings) : Policy where
  denylist := s.crawl.denylist.map .ofString
  priority := s.crawl.priority.map .ofString
  layout := ⟨.ofString s.project.manifestFilename, .ofString s.project.dependencyDir⟩
  configDir := .ofString s.project.configDir
  configNames := s.project.configFilenames.map .ofString
  extensions := s.crawl.extensions.map fun e => foldExtension (.ofString e)
  configField := s.project.embeddedConfigField

/-- The file has a recognised extension. -/
def recognises (extensions : List Name) (p : Path) : Bool :=
  match p.extension with
  | none => false
  | some e => extensions.contains (e.map lowerByte)

def isDenied (policy : Policy) (p : Path) : Bool :=
  p.basename.any policy.denylist.contains

/-- The place of a path among the names that come first. -/
def rank? (policy : Policy) (p : Path) : Option Nat := do
  policy.priority.idxOf? (← p.basename)

/-- The project root that a configuration file declares: the directory it is in, or the one above if
that is the configuration directory.  Third-party packages declare nothing. -/
def projectRoot? (policy : Policy) (p : Path) : Option Path := do
  let name ← p.basename
  if !policy.configNames.contains name then none
  else if policy.layout.isDependency p then none
  else
    let parent ← p.parent
    if parent.basename == some policy.configDir then parent.parent else some parent

/-- The file is indexed whatever its extension. -/
def alwaysTakes (policy : Policy) (p : Path) : Bool :=
  p.basename.any fun name => name == policy.layout.manifestName || policy.configNames.contains name

/-- The entry is left out. -/
def ignores (policy : Policy) (p : Path) (kind : Kind) : Bool :=
  policy.isDenied p ||
    (kind == .file && !policy.alwaysTakes p && !recognises policy.extensions p)

/-- Splits children into those that come first, in their order, and the others. -/
def arrange (policy : Policy) (children : List Path) : List Path × List Path :=
  let (first, rest) := children.partition fun c => (policy.rank? c).isSome
  (first.mergeSort fun a b => (policy.rank? a).getD 0 ≤ (policy.rank? b).getD 0, rest)

end Policy

end ProjectIndex
