import UiConformance.Rule.Basic

/-!
# Running a rule

One rule against one element. Where the rule does not apply, its body is not run. A body that fails
or panics gives a result of its own and exactly one failure; nothing of it reaches other rules.
-/

namespace UiConformance

structure RunResult where
  ruleId : String
  /-- Absent when the rule is not registered. -/
  info : Option RuleInfo
  elementId : Int
  code : EvaluationCode
  errorMessage : Option String := none
  deriving DecidableEq, Repr

/-- A rule that failed while evaluating an element. -/
structure RuleFailure where
  ruleId : String
  elementId : Int
  message : String
  deriving DecidableEq, Repr

def RuleFailure.text (f : RuleFailure) : String :=
  s!"Rule '{f.ruleId}' failed on element {f.elementId}: {f.message}"

/-- What a failed body leaves to be said; nothing where it gave a verdict. -/
def Outcome.complaint? : Outcome → Option String
  | .code _ => none
  | .error e => some e.message
  | .panicked (some text) => some ("Rule panicked: " ++ text)
  | .panicked none => some "Rule panicked"

def Outcome.verdict : Outcome → EvaluationCode
  | .code c => c
  | _ => .ruleExecutionError

namespace Rule

def result (r : Rule) (e : Element) (code : EvaluationCode) (message : Option String) : RunResult :=
  ⟨r.id, some r.info, e.id, code, message⟩

def run (r : Rule) (e : Element) : RunResult × Option RuleFailure :=
  if r.appliesTo e then
    let outcome := r.evaluate e
    (r.result e outcome.verdict outcome.complaint?,
      outcome.complaint?.map fun message => ⟨r.id, e.id, message⟩)
  else (r.result e .notApplicable none, none)

end Rule

/-- The result for an identifier that no rule has. -/
def RunResult.unregistered (id : String) (e : Element) : RunResult :=
  ⟨id, none, e.id, .ruleExecutionError, some s!"Rule '{id}' is not registered"⟩

def runEach (rules : List Rule) (e : Element) : List RunResult × List RuleFailure :=
  let runs := rules.map fun r => r.run e
  (runs.map (·.1), runs.filterMap (·.2))

end UiConformance
