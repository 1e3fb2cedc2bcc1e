/-!
# Scan statuses

The outcome of a rule, an element or a whole scan, in ascending severity. Every aggregate is the
most severe status it contains, so it does not depend on the order in which results arrive.
-/

namespace UiConformance

/-- The verdict of one rule on one element. -/
inductive EvaluationCode
  | notApplicable
  | pass
  | error
  | open
  | note
  | warning
  | ruleExecutionError
  deriving DecidableEq, Repr

def EvaluationCode.text : EvaluationCode → String
  | notApplicable => "not-applicable"
  | pass => "pass"
  | error => "error"
  | «open» => "open"
  | note => "note"
  | warning => "warning"
  | ruleExecutionError => "rule-execution-error"

def EvaluationCode.all : List EvaluationCode :=
  [notApplicable, pass, error, «open», note, warning, ruleExecutionError]

def EvaluationCode.ofText? (s : String) : Option EvaluationCode :=
  all.find? fun c => c.text == s

inductive ScanStatus
  | noResult
  | pass
  | uncertain
  | fail
  | notSupported
  deriving DecidableEq, Repr

/-- An ordinal that no status has. -/
structure UnmappedOrdinal where
  ordinal : Int
  deriving DecidableEq, Repr

def UnmappedOrdinal.message (e : UnmappedOrdinal) : String :=
  s!"Unmapped scan status ordinal {e.ordinal}: expected 0 (NoResult) through 4 (ScanNotSupported)"

/-- The level by which other tools know a status. -/
inductive ReportLevel
  | none
  | note
  | warning
  | error
  deriving DecidableEq, Repr

def ReportLevel.text : ReportLevel → String
  | none => "none"
  | note => "note"
  | warning => "warning"
  | error => "error"

namespace ScanStatus

def all : List ScanStatus := [noResult, pass, uncertain, fail, notSupported]

/-- The severity, from zero. -/
def ordinal : ScanStatus → Nat
  | noResult => 0
  | pass => 1
  | uncertain => 2
  | fail => 3
  | notSupported => 4

def ofOrdinal : Int → Except UnmappedOrdinal ScanStatus
  | 0 => .ok noResult
  | 1 => .ok pass
  | 2 => .ok uncertain
  | 3 => .ok fail
  | 4 => .ok notSupported
  | n => .error ⟨n⟩

def name : ScanStatus → String
  | noResult => "NoResult"
  | pass => "Pass"
  | uncertain => "Uncertain"
  | fail => "Fail"
  | notSupported => "ScanNotSupported"

/-- What a user reads. -/
def label : ScanStatus → String
  | noResult => "No result"
  | pass => "Pass"
  | uncertain => "Needs review"
  | fail => "Failed"
  | notSupported => "Not supported"

def ofCode : EvaluationCode → ScanStatus
  | .notApplicable => noResult
  | .pass => pass
  | .open | .warning | .note => uncertain
  | .error => fail
  | .ruleExecutionError => notSupported

def level : ScanStatus → ReportLevel
  | noResult | pass => .none
  | uncertain => .warning
  | fail => .error
  | notSupported => .note

instance : LE ScanStatus := ⟨fun a b => a.ordinal ≤ b.ordinal⟩
instance : LT ScanStatus := ⟨fun a b => a.ordinal < b.ordinal⟩
instance : DecidableRel (α := ScanStatus) (· ≤ ·) :=
  fun a b => inferInstanceAs (Decidable (a.ordinal ≤ b.ordinal))
instance : DecidableRel (α := ScanStatus) (· < ·) :=
  fun a b => inferInstanceAs (Decidable (a.ordinal < b.ordinal))

instance : Max ScanStatus := ⟨fun a b => if a ≤ b then b else a⟩

/-- Worse than a pass. -/
def isIssue (s : ScanStatus) : Bool := pass < s

/-- The most severe status, and no result where there is none. -/
def aggregate (ss : List ScanStatus) : ScanStatus := ss.foldl max noResult

/-! ## Facts -/

theorem ordinal_inj {a b : ScanStatus} : a.ordinal = b.ordinal ↔ a = b := by
  cases a <;> cases b <;> decide

theorem ordinal_max (a b : ScanStatus) : (max a b).ordinal = max a.ordinal b.ordinal := by
  cases a <;> cases b <;> decide

end ScanStatus

end UiConformance
