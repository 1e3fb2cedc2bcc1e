import UiConformance.Counter
import UiConformance.Walk.State

/-!
# Settings

What a user may choose about a scan: how the work is done, how much of the tree is visited, how the
result is written, and which rules are reported. Choices made on the command line override those of
a file. Disabling a rule wins over enabling it.
-/

namespace UiConformance

structure EngineSettings where
  /-- Properties are read, and rules evaluated, in parallel. -/
  parallel : Bool := true
  /-- The number of workers; zero leaves it to the machine. -/
  jobs : Nat := 0
  deriving DecidableEq, Repr

structure ScanSettings where
  maxElements : Int := 20000
  siblingContext : Bool := true
  mode : WalkMode := .test
  deriving DecidableEq, Repr

inductive OutputFormat
  | text
  | json
  | sarif
  deriving DecidableEq, Repr

/-- When a text report is coloured. -/
inductive ColorChoice
  | auto
  | always
  | never
  deriving DecidableEq, Repr

structure OutputSettings where
  format : OutputFormat := .text
  color : ColorChoice := .auto
  deriving DecidableEq, Repr

structure RuleSettings where
  disabled : List String := []
  /-- The rules to report; all of them where the list is empty. -/
  enabled : List String := []
  deriving DecidableEq, Repr

structure Settings where
  engine : EngineSettings := {}
  scan : ScanSettings := {}
  output : OutputSettings := {}
  rules : RuleSettings := {}
  deriving DecidableEq, Repr

/-! ## Names -/

namespace OutputFormat

def choices : List (String × OutputFormat) := [("text", text), ("json", json), ("sarif", sarif)]

def name : OutputFormat → String
  | text => "text"
  | json => "json"
  | sarif => "sarif"

end OutputFormat

/-- A text that names no output format. -/
structure UnknownOutputFormat where
  text : String
  deriving DecidableEq, Repr

def UnknownOutputFormat.message (e : UnknownOutputFormat) : String :=
  "Unknown output format: " ++ e.text

/-- Reads the name of a format, whatever the case of its letters. -/
def OutputFormat.ofText (s : String) : Except UnknownOutputFormat OutputFormat :=
  let lower := String.ofList (s.toList.map Char.toLower)
  match choices.find? fun c => c.1 == lower with
  | some c => .ok c.2
  | none => .error ⟨s⟩

namespace ColorChoice

def choices : List (String × ColorChoice) := [("auto", auto), ("always", always), ("never", never)]

def name : ColorChoice → String
  | auto => "auto"
  | always => "always"
  | never => "never"

end ColorChoice

def WalkMode.choices : List (String × WalkMode) := [("live", live), ("test", test)]

/-! ## Operations -/

/-- Choices that override others where they are made. -/
structure Overrides where
  format : Option OutputFormat := none
  mode : Option WalkMode := none
  maxElements : Option Int := none
  jobs : Option Nat := none
  /-- Rules that are disabled besides the others. -/
  disabled : List String := []
  deriving DecidableEq, Repr

/-- What makes settings unusable. -/
inductive SettingsFault
  | unknownFormat (extension : String)
  | maxElements (n : Int)
  deriving DecidableEq, Repr

def SettingsFault.message : SettingsFault → String
  | unknownFormat extension => "Invalid configuration: Unknown config file format: " ++ extension
  | maxElements n =>
    s!"Invalid configuration: scan.max_elements must be between 1 and {Text.int32Max - 1}, got {n}"

namespace Settings

def override (s : Settings) (o : Overrides) : Settings where
  engine := { s.engine with jobs := o.jobs.getD s.engine.jobs }
  scan := { s.scan with
    maxElements := o.maxElements.getD s.scan.maxElements
    mode := o.mode.getD s.scan.mode }
  output := { s.output with format := o.format.getD s.output.format }
  rules := { s.rules with disabled := s.rules.disabled ++ o.disabled }

/-- The bound on elements must lie below the largest 32-bit word and allow at least one. -/
def check (s : Settings) : Except SettingsFault Unit :=
  let n := s.scan.maxElements
  if n < 1 || Text.int32Max ≤ n then .error (.maxElements n) else .ok ()

/-- Results of the rule belong in reports. -/
def reports (s : Settings) (rule : String) : Bool :=
  !s.rules.disabled.contains rule && (s.rules.enabled.isEmpty || s.rules.enabled.contains rule)

def walkOptions (s : Settings) : WalkOptions where
  mode := s.scan.mode
  siblingContext := s.scan.siblingContext
  parallel := s.engine.parallel

/-- The number of workers asked for. -/
def workers? (s : Settings) : Option Nat := if s.engine.jobs = 0 then none else some s.engine.jobs

end Settings

end UiConformance
