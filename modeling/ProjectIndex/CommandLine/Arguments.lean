import ProjectIndex.Path.Basic

/-!
# Arguments of the command line

`scan`, `watch` and `config` are the commands; `-c` names a settings file and may stand before or
after the command.  Arguments are read from left to right.  A value that was read is taken over when
the next argument comes, or at the end, so an error in the meantime wins over a wrong value.  What
belongs to a command is settled before what stands in front of it.
-/

namespace ProjectIndex.CommandLine

inductive Command where
  | scan (dir : Spelling) (listFiles : Bool)
  | watch (dir : Spelling)
  | config
  deriving DecidableEq, Repr

structure Arguments where
  /-- The settings file. -/
  config : Option Spelling
  command : Command
  deriving DecidableEq, Repr

/-- Where an argument is read: in front of a command, or after one. -/
inductive Level where
  | top
  | scan
  | watch
  | config
  deriving DecidableEq, Repr

/-- What help is asked about. -/
inductive Topic where
  | level (level : Level)
  /-- The asking itself. -/
  | help
  deriving DecidableEq, Repr

/-- Why there is nothing to run. -/
inductive Refusal where
  /-- Help was asked for, in full or in short. -/
  | displayHelp (topic : Topic) (full : Bool)
  | displayVersion
  /-- Nothing at all was asked for. -/
  | nothingAsked
  | missingCommand
  | unknownCommand
  | unknownArgument
  | invalidValue
  | tooManyValues
  | argumentConflict
  deriving DecidableEq, Repr

def Refusal.exitCode : Refusal → Nat
  | .displayHelp _ _ => 0
  | .displayVersion => 0
  | _ => 2

namespace Level

def named : List (String × Level) :=
  [("scan", .scan), ("watch", .watch), ("config", .config)]

def ofName? (arg : Name) : Option Level :=
  (named.find? fun entry => Name.ofString entry.1 = arg).map (·.2)

def takesDir : Level → Bool
  | .scan => true
  | .watch => true
  | _ => false

end Level

/-- The things that have a value. -/
inductive Slot where
  | config
  | dir
  deriving DecidableEq, Repr

/-- What was read at one level. -/
structure Reading where
  config : Option Name := none
  dir : Option Name := none
  files : Bool := false
  /-- A value that is not taken over yet; `none` if it is still to come. -/
  pending : Option (Slot × Option Name) := none
  /-- A directory was given. -/
  placed : Bool := false
  /-- After `--` nothing is an option. -/
  trailing : Bool := false

namespace Reading

/-- Takes a value over.  Values may not be empty, and none may be given twice. -/
def take (r : Reading) (slot : Slot) (value : Name) : Except Refusal Reading :=
  let given := match slot with
    | .config => r.config
    | .dir => r.dir
  if given.isSome then .error .argumentConflict
  else if value.isEmpty then .error .invalidValue
  else
    match slot with
    | .config => .ok { r with config := some value }
    | .dir => .ok { r with dir := some value }

/-- Takes over the value that was read last. -/
def settle (r : Reading) : Except Refusal Reading :=
  match r.pending with
  | none => .ok r
  | some (_, none) => .error .invalidValue
  | some (slot, some value) => { r with pending := none }.take slot value

def awaits (r : Reading) : Bool :=
  match r.pending with
  | some (_, none) => true
  | _ => false

/-- The settings file follows, or is part of the argument. -/
def configOption (r : Reading) (attached : Option Name) : Except Refusal Reading := do
  let r ← r.settle
  match attached with
  | some value => r.take .config value
  | none => return { r with pending := some (.config, none) }

/-- An argument that starts with two dashes. -/
def long (level : Level) (r : Reading) (arg : Name) : Except Refusal Reading :=
  let body := arg.drop 2
  let name := body.takeWhile (· != 0x3D)
  let attached := if body.contains 0x3D then some (body.drop (name.length + 1)) else none
  let flag (done : Reading → Except Refusal Reading) : Except Refusal Reading :=
    if attached.isSome then .error .tooManyValues else do done (← r.settle)
  if name = Name.ofString "config" then r.configOption attached
  else if name = Name.ofString "help" then
    flag fun _ => .error (.displayHelp (.level level) true)
  else if name = Name.ofString "version" && level = .top then flag fun _ => .error .displayVersion
  else if name = Name.ofString "files" && level = .scan then
    flag fun r => if r.files then .error .argumentConflict else .ok { r with files := true }
  else .error .unknownArgument

/-- An argument that starts with one dash. -/
def short (level : Level) (r : Reading) (arg : Name) : Except Refusal Reading :=
  match arg.drop 1 with
  | 0x63 :: rest =>
    r.configOption <|
      match rest with
      | [] => none
      | 0x3D :: value => some value
      | value => some value
  | 0x68 :: _ => do
    let _ ← r.settle
    .error (.displayHelp (.level level) false)
  | 0x56 :: _ =>
    if level = .top then do
      let _ ← r.settle
      .error .displayVersion
    else .error .unknownArgument
  | _ => .error .unknownArgument

/-- An argument that is no option. -/
def plain (level : Level) (r : Reading) (arg : Name) : Except Refusal Reading :=
  if level = .top then
    let isName := (Level.ofName? arg).isSome || arg = Name.ofString "help"
    .error (if r.trailing && isName then .unknownArgument else .unknownCommand)
  else if level.takesDir && !r.placed then do
    let r ← r.settle
    return { r with pending := some (.dir, some arg), placed := true }
  else .error .unknownArgument

/-- One argument at a level. -/
def next (level : Level) (r : Reading) (arg : Name) : Except Refusal Reading :=
  if r.trailing then r.plain level arg
  else if arg = Name.ofString "--" then .ok { r with trailing := true }
  else if (Name.ofString "--").isPrefixOf arg then r.long level arg
  else if arg.head? = some 0x2D && 1 < arg.length then r.short level arg
  else if r.awaits then .ok { r with pending := some (.config, some arg) }
  else r.plain level arg

end Reading

/-- Help about a command, if there is one of that name. -/
def help : List Name → Refusal
  | [] => .displayHelp (.level .top) true
  | [arg] =>
    if arg = Name.ofString "help" then .displayHelp .help true
    else
      match Level.ofName? arg with
      | some level => .displayHelp (.level level) true
      | none => .unknownCommand
  | _ => .unknownCommand

/-- The arguments in front of a command, the command, and what follows it. -/
def split : Reading → List Name → Except Refusal (Reading × Option (Level × List Name))
  | r, [] => .ok (r, none)
  | r, arg :: rest =>
    if !r.trailing && !r.awaits && arg = Name.ofString "help" then .error (help rest)
    else
      match if r.trailing || r.awaits then none else Level.ofName? arg with
      | some level => .ok (r, some (level, rest))
      | none => do split (← r.next .top arg) rest

/-- The command of a level. -/
def command (level : Level) (r : Reading) : Command :=
  let dir : Spelling := ⟨r.dir.getD Spelling.dot⟩
  match level with
  | .scan => .scan dir r.files
  | .watch => .watch dir
  | _ => .config

/-- Reads the arguments of the program. -/
def parse (args : List Name) : Except Refusal Arguments := do
  match ← split {} args with
  | (top, none) =>
    let top ← top.settle
    .error (if top.config.isSome then .missingCommand else .nothingAsked)
  | (top, some (level, rest)) =>
    let own ← rest.foldlM (fun (r : Reading) arg => r.next level arg) ({} : Reading)
    let own ← own.settle
    let top ← top.settle
    return ⟨((own.config <|> top.config).map fun n => ⟨n⟩), command level own⟩

end ProjectIndex.CommandLine
