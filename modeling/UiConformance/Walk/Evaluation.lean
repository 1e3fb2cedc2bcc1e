import UiConformance.Result
import UiConformance.Rule.Provider

/-!
# Evaluation

Every rule against every element of a populated tree. The results of an element do not depend on
those of others, so the elements may be visited in any order; only the order in which failures are
heard follows it.
-/

namespace UiConformance

/-- The results of the rules that apply to an element, in the order of the rules. -/
def resultsOf (rules : List Rule) (e : Element) : ScanResults × List RuleFailure :=
  let (runs, failures) := runEach rules e
  (⟨(runs.filter fun r => r.code ≠ .notApplicable).map fun r => .ofRun r e⟩, failures)

structure Evaluation where
  results : Array ScanResults
  failures : List RuleFailure := []

namespace Evaluation

def visit (rules : List Rule) (t : ElementTree) (v : Evaluation) (i : Nat) : Evaluation :=
  match t.element? i with
  | none => v
  | some e =>
    let (results, failures) := resultsOf rules e
    { results := v.results.setIfInBounds i results, failures := v.failures ++ failures }

/-- No element has results. -/
def blank (t : ElementTree) : Evaluation := { results := Array.replicate t.size {} }

def run (rules : List Rule) (t : ElementTree) (order : List Nat) : Evaluation :=
  order.foldl (visit rules t) (blank t)

end Evaluation

end UiConformance
