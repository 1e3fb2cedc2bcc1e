/-!
# Walk states

What a walk is asked to do and how far it has come.
-/

namespace UiConformance

inductive WalkMode
  /-- The tree is built and populated. -/
  | live
  /-- Every rule is evaluated against every element as well. -/
  | test
  deriving DecidableEq, Repr

def WalkMode.text : WalkMode → String
  | live => "live"
  | test => "test"

inductive WalkState
  | idle
  | ancestryResolved
  | treeBuilt
  | propertiesPopulated
  | rulesEvaluated
  deriving DecidableEq, Repr

def WalkState.text : WalkState → String
  | idle => "Idle"
  | ancestryResolved => "AncestryResolved"
  | treeBuilt => "TreeBuilt"
  | propertiesPopulated => "PropertiesPopulated"
  | rulesEvaluated => "RulesEvaluated"

structure WalkOptions where
  mode : WalkMode := .test
  /-- The siblings of the selected element are included as leaves. -/
  siblingContext : Bool := true
  /-- Properties are read, and rules evaluated, in parallel. -/
  parallel : Bool := true
  deriving DecidableEq, Repr

def WalkOptions.text (o : WalkOptions) : String :=
  let mode := match o.mode with | .live => "Live" | .test => "Test"
  s!"WalkOptions \x7b mode: {mode}, sibling_context: {o.siblingContext}, parallel: {o.parallel} \x7d"

end UiConformance
