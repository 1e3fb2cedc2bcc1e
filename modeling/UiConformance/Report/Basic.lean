import UiConformance.Settings.Basic
import UiConformance.Walk.Walker

/-!
# Reports

What a scan found, one finding for each rule that had a result on an element, ordered by element and
then by rule. Rules that the settings do not report are left out, and the status is that of what is
left.
-/

namespace UiConformance

/-- One rule's outcome on one element. -/
structure Finding where
  ruleId : String
  status : ScanStatus
  description : String
  howToFix : String
  standard : String
  messages : List String := []
  elementId : Int := 0
  controlType : ControlType := .button
  elementName : Option String := none
  property : PropertyId := .none
  deriving DecidableEq, Repr

namespace Finding

/-- A short name of the element. -/
def label (f : Finding) : String :=
  match f.elementName with
  | some name => s!"#{f.elementId} {f.controlType.text} \"{name}\""
  | none => s!"#{f.elementId} {f.controlType.text}"

def isIssue (f : Finding) : Bool := f.status.isIssue

def ofResult (e : Element) (about : ScanMeta) (r : RuleResult) : Finding where
  ruleId := r.ruleId
  status := r.status
  description := r.description
  howToFix := r.howToFix
  standard := r.standard
  messages := r.messages
  elementId := about.elementId
  controlType := about.controlType
  elementName := e.name?
  property := about.property

end Finding

structure Duration where
  seconds : Nat := 0
  nanoseconds : Nat := 0
  deriving DecidableEq, Repr

namespace Duration

def milliseconds (d : Duration) : Nat := d.seconds * 1000 + d.nanoseconds / 1000000

/-- The seconds with two places. Whole seconds among the nanoseconds count as seconds. -/
def text (d : Duration) : String :=
  let whole := d.seconds + d.nanoseconds / 1000000000
  Decimal.fixedText 2 (whole.toFloat + (d.nanoseconds % 1000000000).toFloat / 1000000000)

end Duration

structure Report where
  /-- Where the scanned tree came from. -/
  source : String
  mode : WalkMode := .test
  /-- The number of elements scanned. -/
  elements : Nat := 0
  truncated : Bool := false
  /-- The number of elements whose properties could not be read. -/
  unpopulated : Nat := 0
  duration : Duration := {}
  status : ScanStatus := .noResult
  findings : List Finding := []
  deriving DecidableEq, Repr

namespace Report

/-- The findings of one element that settings let through. -/
def findingsOf (s : Settings) (e : Element) (results : ScanResults) : List Finding :=
  results.items.flatMap fun r =>
    (r.items.filter fun i => i.status != .noResult && s.reports i.ruleId).map (.ofResult e r.about)

/-- The findings of a scan in the order in which the elements were added. -/
def collect (s : Settings) (scan : ScanTree) : List Finding :=
  scan.tree.elements.flatMap fun e => findingsOf s e (scan.results.getD e.index {})

/-- By ascending element, otherwise in the order given. -/
def sorted (fs : List Finding) : List Finding :=
  fs.mergeSort fun f g => decide (f.elementId ≤ g.elementId)

def ofScan (source : String) (scan : ScanTree) (s : Settings) : Report :=
  let findings := sorted (collect s scan)
  { source
    mode := scan.mode
    elements := scan.tree.size
    truncated := scan.truncated
    unpopulated := scan.unpopulated
    status := .aggregate (findings.map Finding.status)
    findings }

def issues (r : Report) : List Finding := r.findings.filter Finding.isIssue

def count (r : Report) (s : ScanStatus) : Nat := r.findings.countP fun f => f.status == s

def exitCode (r : Report) : Nat :=
  match r.status with
  | .fail | .notSupported => 2
  | .uncertain => 1
  | .noResult | .pass => 0

end Report

end UiConformance
