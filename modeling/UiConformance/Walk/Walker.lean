import UiConformance.Walk.Ancestry
import UiConformance.Walk.Descent
import UiConformance.Walk.Evaluation
import UiConformance.Walk.Population
import UiConformance.Walk.Siblings

/-!
# Walks

A walk builds the tree around a selected element, reads what its elements are, and in test mode
evaluates every rule against every element. The budget belongs to the walker and is shared by all
its walks until it is reset. A schedule says in which order the parallel phases visit the elements.
-/

namespace UiConformance

inductive WalkError
  /-- Test mode without rules to run. -/
  | noRunner
  | counter (e : CounterError)
  deriving DecidableEq, Repr

def WalkError.message : WalkError → String
  | noRunner => "Test mode requires a rule runner"
  | counter e => e.message

structure ScanTree where
  tree : ElementTree
  /-- The results of each element, by its position. -/
  results : Array ScanResults
  selected : Nat
  /-- The root-most ancestor reached, or the selected element where it has none. -/
  topMost : Nat
  mode : WalkMode
  state : WalkState
  truncated : Bool
  /-- The number of elements whose properties could not be read. -/
  unpopulated : Nat

def ScanTree.status (s : ScanTree) : ScanStatus :=
  .aggregate (s.results.toList.map ScanResults.status)

/-- What a walk tells besides its outcome. -/
structure Journal where
  notices : Array Notice := #[]
  /-- The failures that the caller's listener heard of. -/
  heard : List RuleFailure := []

/-- The orders in which the parallel phases visit a given number of elements. -/
structure Schedule where
  read : Nat → List Nat
  evaluate : Nat → List Nat

namespace Schedule

/-- Every phase visits every element once. -/
def Fair (s : Schedule) : Prop :=
  ∀ n, (s.read n).Perm (List.range n) ∧ (s.evaluate n).Perm (List.range n)

/-- The elements in the order in which they were added. -/
def inOrder : Schedule := ⟨List.range, List.range⟩

end Schedule

structure Walker (H : Type) where
  platform : Platform H
  options : WalkOptions
  counter : Counter
  runner : Option Runner := none
  state : WalkState := .idle
  /-- The handles read so far, the latest first. -/
  past : List H := []

namespace Walker

variable {H : Type} [DecidableEq H]

def resetCounter (w : Walker H) : Walker H := { w with counter := w.counter.reset }

/-- The rules to evaluate, where the mode asks for them. -/
def runnerNeeded (w : Walker H) : Except WalkError (Option Runner) :=
  match w.options.mode, w.runner with
  | .test, none => .error .noRunner
  | .test, some r => .ok (some r)
  | .live, _ => .ok none

/-- The selected element with its ancestors above it, the position of the topmost, and the draft
that the rest of the shape is added to. -/
def startDraft (selected : H) (ancestors : List H) (counter : Counter) (notices : Array Notice) :
    Nat × Draft H :=
  let (topMost, outline) := Outline.addAncestors ancestors 0 (-1) (Outline.add {} selected 0)
  (topMost, { outline, counter, notices })

def evaluate (s : Schedule) (options : WalkOptions) (t : ElementTree) :
    Option Runner → Array ScanResults × Option Runner × Journal
  | none => ((Evaluation.blank t).results, none, {})
  | some r =>
    let (provider, built) := r.provider.materializeAll
    let (rules, provider, more) := provider.allRules
    let order := if options.parallel then s.evaluate t.size else List.range t.size
    let v := Evaluation.run rules t order
    (v.results, some { r with provider },
      { notices := built ++ more ++ r.noticesOf v.failures, heard := r.heardOf v.failures })

/-- Walks under a schedule: the outcome, the walker after it, and what it told. -/
def walkUnder (s : Schedule) (w : Walker H) (selected : H) :
    Except WalkError ScanTree × Walker H × Journal :=
  match w.runnerNeeded with
  | .error e => (.error e, w, {})
  | .ok runner =>
    let (ancestors, climbed) := ancestry w.platform selected
    let depth := min ancestors.length Text.int32Max
    match w.counter.tryAdd depth with
    | .error e => (.error (.counter e), { w with state := .idle }, { notices := climbed })
    | .ok (counted, counter) =>
      let uncounted := if counted then #[] else #[Notice.ancestorsOverLimit depth]
      let (topMost, draft) := startDraft selected ancestors counter (climbed ++ uncounted)
      let draft := draft.note (.transition .idle .ancestryResolved)
      let draft := draft.addSubtree w.platform 0
      let draft := if w.options.siblingContext then draft.addSiblings w.platform 0 else draft
      let draft := draft.note (.transition .ancestryResolved .treeBuilt)
      let order := if w.options.parallel then some (s.read draft.outline.size) else none
      let filled := draft.outline.populate w.platform w.past order
      let populated := #[Notice.transition .treeBuilt .propertiesPopulated]
      let (results, ran, journal) := evaluate s w.options filled.tree runner
      let evaluated := if ran.isSome then #[Notice.transition .propertiesPopulated .rulesEvaluated] else #[]
      let state : WalkState := if ran.isSome then .rulesEvaluated else .propertiesPopulated
      let truncated := draft.counter.exceeded
      let cut := if truncated then #[Notice.truncated draft.counter.count draft.counter.attempts] else #[]
      let scan : ScanTree :=
        { tree := filled.tree, results, selected := 0, topMost, mode := w.options.mode, state,
          truncated, unpopulated := filled.unpopulated }
      let after : Walker H :=
        { w with counter := draft.counter, runner := ran <|> w.runner, state, past := filled.past }
      let notices := draft.notices ++ filled.notices ++ populated ++ journal.notices ++ evaluated ++ cut
      (.ok scan, after, { journal with notices })

def walk (w : Walker H) (selected : H) : Except WalkError ScanTree × Walker H × Journal :=
  w.walkUnder .inOrder selected

def text (w : Walker H) : String :=
  let c := w.counter
  let counter := s!"upper_bound: {c.bound}, attempts: {c.attempts}, count: {c.count}"
  s!"TreeWalker \x7b counter: BoundedCounter \x7b {counter} \x7d, " ++
    s!"options: {w.options.text}, state: {w.state.text} \x7d"

end Walker

end UiConformance
