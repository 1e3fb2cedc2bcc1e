import UiConformance.Rule.Run

/-!
# Scan results

The outcome of rules on elements. A rule result starts as a pass and can only become more severe;
what holds rule results has the most severe status among them.
-/

namespace UiConformance

structure RuleResult where
  ruleId : String
  description : String
  howToFix : String := ""
  standard : String := ""
  status : ScanStatus := .pass
  messages : List String := []
  deriving DecidableEq, Repr

namespace RuleResult

def ofInfo (i : RuleInfo) : RuleResult where
  ruleId := i.id
  description := i.description
  howToFix := i.howToFix
  standard := i.standard

/-- Raises the status where the new one is more severe, and keeps a message that says something. -/
def setStatus (r : RuleResult) (s : ScanStatus) (message : String) : RuleResult :=
  { r with
    status := max r.status s
    messages := if message.isEmpty then r.messages else r.messages ++ [message] }

end RuleResult

/-- What a scan result is about. -/
structure ScanMeta where
  elementId : Int := 0
  controlType : ControlType := ⟨0⟩
  property : PropertyId := .none
  deriving DecidableEq, Repr

structure ScanResult where
  description : String
  about : ScanMeta
  items : List RuleResult := []
  deriving DecidableEq, Repr

namespace ScanResult

def add (r : ScanResult) (item : RuleResult) : ScanResult :=
  { r with items := r.items ++ [item] }

def status (r : ScanResult) : ScanStatus := .aggregate (r.items.map RuleResult.status)

/-- The single rule result of a run. A run that does not apply has no result. -/
def ruleResultOf (run : RunResult) : RuleResult :=
  let fresh : RuleResult := match run.info with
    | some i => .ofInfo i
    | none => { ruleId := run.ruleId, description := "" }
  let status := ScanStatus.ofCode run.code
  let start := if status = .noResult then { fresh with status := .noResult } else fresh
  start.setStatus status (run.errorMessage.getD "")

/-- Adapts one run of a rule on an element. -/
def ofRun (run : RunResult) (e : Element) : ScanResult :=
  let item := ruleResultOf run
  let property := match run.info with
    | some i => i.property
    | none => .none
  { description := item.description
    about := ⟨e.id, e.controlType, property⟩
    items := [item] }

end ScanResult

/-- The results gathered for one element. -/
structure ScanResults where
  items : List ScanResult := []
  deriving DecidableEq, Repr

namespace ScanResults

instance : Inhabited ScanResults := ⟨{}⟩

def add (r : ScanResults) (item : ScanResult) : ScanResults := ⟨r.items ++ [item]⟩

def clear (_ : ScanResults) : ScanResults := {}

def status (r : ScanResults) : ScanStatus := .aggregate (r.items.map ScanResult.status)

end ScanResults

end UiConformance
