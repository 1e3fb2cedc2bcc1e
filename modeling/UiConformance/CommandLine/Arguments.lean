import UiConformance.Settings.Basic

/-!
# Command line arguments

The arguments of the program, read from left to right. Options may be given in long form or by a
letter, with the value attached or as the next argument, and letters may be joined; a separate value
may not look like an option. Everything after two dashes is no option. An option may be given once;
only the lists of disabled rules add up. The first fault counts, and so does a request for help that
comes before it.
-/

namespace UiConformance.CommandLine

inductive ValueOption
  | select
  | mode
  | format
  | maxElements
  | jobs
  | config
  | disable
  deriving DecidableEq, Repr

inductive Flag
  | showPasses
  | listRules
  | verbose
  | noColor
  | help
  | version
  deriving DecidableEq, Repr

inductive Switch
  | flag (f : Flag)
  | option (o : ValueOption)
  deriving DecidableEq, Repr

def longNames : List (String × Switch) :=
  [("select", .option .select), ("mode", .option .mode), ("format", .option .format),
   ("max-elements", .option .maxElements), ("jobs", .option .jobs), ("config", .option .config),
   ("disable", .option .disable), ("show-passes", .flag .showPasses),
   ("list-rules", .flag .listRules), ("verbose", .flag .verbose), ("no-color", .flag .noColor),
   ("help", .flag .help), ("version", .flag .version)]

def letters : List (Char × Switch) :=
  [('s', .option .select), ('m', .option .mode), ('f', .option .format), ('j', .option .jobs),
   ('c', .option .config), ('v', .flag .verbose), ('h', .flag .help), ('V', .flag .version)]

structure Arguments where
  snapshot : String
  select : String := ""
  overrides : Overrides := {}
  config : Option String := none
  showPasses : Bool := false
  listRules : Bool := false
  verbose : Bool := false
  noColor : Bool := false
  deriving DecidableEq, Repr

inductive UsageError
  | unknownOption (argument : String)
  | missingValue (argument : String)
  | unexpectedValue (argument : String)
  | repeated (argument : String)
  | invalidValue (argument value : String)
  | unexpectedArgument (argument : String)
  | missingSnapshot
  deriving DecidableEq, Repr

def UsageError.message : UsageError → String
  | unknownOption a => s!"unexpected argument '{a}' found"
  | missingValue a => s!"a value is required for '{a}' but none was supplied"
  | unexpectedValue a => s!"unexpected value for '{a}' found; no more were expected"
  | repeated a => s!"the argument '{a}' cannot be used multiple times"
  | invalidValue a value => s!"invalid value '{value}' for '{a}'"
  | unexpectedArgument a => s!"unexpected argument '{a}' found"
  | missingSnapshot => "the following required arguments were not provided: <SNAPSHOT>"

/-- Why reading the arguments ends early. -/
inductive Stop
  | usage (e : UsageError)
  | help
  | version
  deriving DecidableEq, Repr

/-! ## What was given -/

/-- The switches and values read so far. -/
structure Given where
  snapshot : Option String := none
  select : Option String := none
  mode : Option WalkMode := none
  format : Option OutputFormat := none
  maxElements : Option Int := none
  jobs : Option Nat := none
  config : Option String := none
  disabled : List String := []
  flags : List Flag := []
  /-- An option whose value comes next, and how it was written. -/
  pending : Option (ValueOption × String) := none
  /-- Nothing that follows is an option. -/
  onlyValues : Bool := false

namespace Given

def raise (g : Given) (f : Flag) (argument : String) : Except Stop Given :=
  match f with
  | .help => .error .help
  | .version => .error .version
  | f =>
    if g.flags.contains f then .error (.usage (.repeated argument))
    else .ok { g with flags := f :: g.flags }

/-- The value of an option that may be given once. -/
def once {α : Type} (old : Option α) (new : Option α) (argument value : String) :
    Except Stop (Option α) :=
  if old.isSome then .error (.usage (.repeated argument))
  else if new.isNone then .error (.usage (.invalidValue argument value))
  else .ok new

def choice {α : Type} (choices : List (String × α)) (value : String) : Option α :=
  (choices.find? fun c => c.1 == value).map (·.2)

def readPath (value : String) : Option String := if value.isEmpty then none else some value

def put (g : Given) (o : ValueOption) (argument value : String) : Except Stop Given :=
  match o with
  | .select => return { g with select := ← once g.select (some value) argument value }
  | .mode => return { g with mode := ← once g.mode (choice WalkMode.choices value) argument value }
  | .format =>
    return { g with format := ← once g.format (choice OutputFormat.choices value) argument value }
  | .maxElements =>
    let number := (Text.readInt32 value.toList).map Int32.toInt
    return { g with maxElements := ← once g.maxElements number argument value }
  | .jobs => return { g with jobs := ← once g.jobs (Text.readWord64 value.toList) argument value }
  | .config => return { g with config := ← once g.config (readPath value) argument value }
  | .disable =>
    let rules := (value.toList.splitOn ',').map String.ofList
    return { g with disabled := g.disabled ++ rules }

def putSnapshot (g : Given) (argument : String) : Except Stop Given :=
  if g.snapshot.isSome then .error (.usage (.unexpectedArgument argument))
  else
    match readPath argument with
    | none => .error (.usage (.invalidValue "<SNAPSHOT>" argument))
    | some path => .ok { g with snapshot := some path }

/-- Letters after one dash. The first that takes a value has it in what follows, if anything does. -/
def readLetters (g : Given) : List Char → Except Stop Given
  | [] => .ok g
  | c :: cs =>
    let argument := String.ofList ['-', c]
    match letters.find? fun l => l.1 == c with
    | none => .error (.usage (.unknownOption argument))
    | some (_, .flag f) => do (← g.raise f argument).readLetters cs
    | some (_, .option o) =>
      match cs with
      | [] => .ok { g with pending := some (o, argument) }
      | '=' :: value => g.put o argument (String.ofList value)
      | value => g.put o argument (String.ofList value)

/-- A name after two dashes, with its value behind an equals sign if there is one. -/
def readLong (g : Given) (cs : List Char) : Except Stop Given :=
  let (name, value) := cs.span (· != '=')
  let argument := "--" ++ String.ofList name
  match longNames.find? fun l => l.1.toList == name, value with
  | none, _ => .error (.usage (.unknownOption argument))
  | some (_, .flag f), [] => g.raise f argument
  | some (_, .flag _), _ => .error (.usage (.unexpectedValue argument))
  | some (_, .option o), [] => .ok { g with pending := some (o, argument) }
  | some (_, .option o), _ :: value => g.put o argument (String.ofList value)

def read (g : Given) (argument : String) : Except Stop Given :=
  match g.onlyValues, argument.toList, g.pending with
  | false, '-' :: _ :: _, some (_, option) => .error (.usage (.missingValue option))
  | false, ['-', '-'], none => .ok { g with onlyValues := true }
  | false, '-' :: '-' :: cs, none => g.readLong cs
  | false, '-' :: c :: cs, none => g.readLetters (c :: cs)
  | false, _, some (o, option) => { g with pending := none }.put o option argument
  | _, _, _ => g.putSnapshot argument

def finish (g : Given) : Except Stop Arguments :=
  match g.pending, g.snapshot with
  | some (_, option), _ => .error (.usage (.missingValue option))
  | none, none => .error (.usage .missingSnapshot)
  | none, some snapshot => .ok
    { snapshot
      select := g.select.getD ""
      overrides := {
        format := g.format
        mode := g.mode
        maxElements := g.maxElements
        jobs := g.jobs
        disabled := g.disabled }
      config := g.config
      showPasses := g.flags.contains .showPasses
      listRules := g.flags.contains .listRules
      verbose := g.flags.contains .verbose
      noColor := g.flags.contains .noColor }

end Given

def Arguments.ofList (args : List String) : Except Stop Arguments := do
  (← args.foldlM Given.read {}).finish

end UiConformance.CommandLine
