import UiConformance.CommandLine.Arguments
import UiConformance.Report.Json
import UiConformance.Report.Sarif
import UiConformance.Report.Text
import UiConformance.Scan
import UiConformance.Settings.Load
import UiConformance.Snapshot.Load

/-!
# Running the program

From arguments to what is printed and the code the program exits with: that of the report, or zero
where the rules are only listed; two for wrong arguments; three where there is nothing to report
because something could not be loaded or found.
-/

namespace UiConformance.CommandLine

/-- How the documents of a run are read. -/
structure Parsers where
  settings : Settings.Parser := Settings.parse
  snapshot : SnapshotTree.Parser := SnapshotTree.parse

structure Environment (m : Type → Type) where
  files : Files m
  /-- Nanoseconds since some moment. -/
  clock : m Nat
  /-- The output goes to a terminal that can show colour. -/
  terminal : Bool := false
  parsers : Parsers := {}

structure Output where
  code : Nat
  stdout : String := ""
  stderr : String := ""
  deriving DecidableEq, Repr

/-- Why a run has no result. -/
inductive Failure
  /-- Settings could not be loaded, from a path that was given or from the default files. -/
  | settings (path : Option String) (e : SettingsError)
  | overrides (e : SettingsFault)
  | registry (e : RegistryError)
  | snapshot (path : String) (e : SnapshotError)
  | noMatch (selector : String)
  | counter (e : CounterError)
  | walk (e : WalkError)

def Failure.message : Failure → String
  | settings path e =>
    let place := match path with
      | some path => "config " ++ path
      | none => "default config"
    s!"Failed to load {place}: {e.messageWithCause SettingsFault.message}"
  | overrides e => e.message
  | registry e => e.message
  | snapshot path e =>
    s!"Failed to load snapshot {path}: {e.messageWithCause SnapshotFault.message}"
  | noMatch selector => s!"No element matches selector '{selector}'"
  | counter e => e.message
  | walk e => e.message

open Text in
/-- What the program ends with where there is no result. -/
def Failure.output (colour : Bool) (e : Failure) : Output where
  code := 3
  stderr := Painter.ofTerminal colour [Look.bold, Look.red] "error" ++ s!": {e.message}\n"

def tool : Sarif.Tool := ⟨"a11y-scan", "0.1.0"⟩

/-! ## Settings and rules -/

variable {m : Type → Type} [Monad m]

/-- The settings of a run. Those of a file must be usable by themselves. -/
def loadSettings (env : Environment m) (a : Arguments) : m (Except Failure Settings) := do
  let loaded ← match a.config with
    | some path => Settings.load env.files path env.parsers.settings
    | none => Settings.loadDefault env.files env.parsers.settings
  return do
    let s := (← loaded.mapError (.settings a.config)).override a.overrides
    s.check.mapError .overrides
    return s

/-- Whether looks are shown, given whether the output is a terminal. -/
def showsColour (terminal noColor : Bool) (s : Settings) : Bool :=
  match s.output.color with
  | .always => !noColor
  | .never => false
  | .auto => terminal && !noColor

open Text in
/-- What the list of rules says of one. -/
def ruleEntry (paint : Painter) (s : Settings) (i : RuleInfo) : String :=
  let id := if s.reports i.id then paint [Look.cyan] i.id
    else paint [Look.dimmed] (i.id ++ " (disabled)")
  s!"{id}  [{i.standard}]\n    {i.description}\n" ++
    if i.condition.isEmpty then "" else s!"    applies to: {i.condition}\n"

def listRules (colour : Bool) (scan : Scan) : String :=
  String.join (scan.rules.map fun r => ruleEntry (.ofTerminal colour) scan.settings r.info)

/-! ## Scanning -/

def showReport (colour : Bool) (a : Arguments) (s : Settings) (r : Report) : String :=
  match s.output.format with
  | .text =>
    let style : TextStyle :=
      { colour := !a.noColor && s.output.color != .never, passes := a.showPasses }
    style.show r (.ofTerminal colour)
  | .json => r.document.pretty
  | .sarif => (Sarif.document tool r).pretty

def scanSnapshot (scan : Scan) (a : Arguments) (t : SnapshotTree) : Except Failure Report := do
  match t.select a.select with
  | none => throw (.noMatch a.select)
  | some h =>
    let walker ← (scan.walker t.platform).mapError .counter
    let tree ← (walker.walk h).1.mapError .walk
    return .ofScan a.snapshot tree scan.settings

def loadSnapshot (env : Environment m) (a : Arguments) : m (Except SnapshotError SnapshotTree) :=
  SnapshotTree.load env.files a.snapshot env.parsers.snapshot

/-- A run with settings that are in order: the code and what is printed. -/
def scanWith (env : Environment m) (a : Arguments) (s : Settings) :
    m (Except Failure (Nat × String)) := do
  let colour := showsColour env.terminal a.noColor s
  match Scan.ofRegistrations s Builtin.registrations .notices with
  | .error e => return .error (.registry e)
  | .ok scan =>
    if a.listRules then return .ok (0, listRules colour scan)
    else
      match ← loadSnapshot env a with
      | .error e => return .error (.snapshot a.snapshot e)
      | .ok t =>
        let start ← env.clock
        match scanSnapshot scan a t with
        | .error e => return .error e
        | .ok report =>
          let elapsed := (← env.clock) - start
          let report := { report with
            duration := ⟨elapsed / 1000000000, elapsed % 1000000000⟩ }
          return .ok (report.exitCode, showReport colour a s report)

/-- A run with arguments that are in order. What the settings say about colour holds for complaints
too, once they are loaded. -/
def execute (env : Environment m) (a : Arguments) : m Output := do
  match ← loadSettings env a with
  | .error e => return e.output (showsColour env.terminal a.noColor {})
  | .ok s =>
    match ← scanWith env a s with
    | .error e => return e.output (showsColour env.terminal a.noColor s)
    | .ok (code, stdout) => return { code, stdout }

/-! ## The whole program -/

def usage : String := "Usage: a11y-scan [OPTIONS] <SNAPSHOT>\n"

def helpLines : List String :=
  ["Accessibility conformance scanner",
   "",
   usage,
   "Arguments:",
   "  <SNAPSHOT>  Snapshot of the element tree (YAML or JSON)",
   "",
   "Options:",
   "  -s, --select <SELECT>              Element to scan: #AutomationId or child indices such as 0/2",
   "  -m, --mode <MODE>                  Walk mode [possible values: live, test]",
   "  -f, --format <FORMAT>              Output format [possible values: text, json, sarif]",
   "      --max-elements <MAX_ELEMENTS>  Maximum number of elements visited",
   "  -j, --jobs <JOBS>                  Number of parallel jobs (0 = auto)",
   "  -c, --config <CONFIG>              Configuration file path",
   "      --disable <DISABLE>            Disable specific rules (comma-separated)",
   "      --show-passes                  List passing results too (text format)",
   "      --list-rules                   List available rules and exit",
   "  -v, --verbose                      Enable verbose output",
   "      --no-color                     Disable colored output",
   "  -h, --help                         Print help",
   "  -V, --version                      Print version"]

def helpText : String := String.join (helpLines.map (· ++ "\n"))

def run (env : Environment m) (args : List String) : m Output := do
  match Arguments.ofList args with
  | .error .help => return { code := 0, stdout := helpText }
  | .error .version => return { code := 0, stdout := s!"{tool.name} {tool.version}\n" }
  | .error (.usage e) => return { code := 2, stderr := s!"error: {e.message}\n\n{usage}" }
  | .ok a => execute env a

end UiConformance.CommandLine
