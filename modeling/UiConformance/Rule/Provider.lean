import UiConformance.Journal
import UiConformance.Rule.Registry

/-!
# Rule provider

Builds registered rules on demand, each at most once, and shares what it built. The instances are
kept in the order in which they were built, so the list also tells how often each rule was built.
-/

namespace UiConformance

/-- A rule that was built; the serial number tells instances apart. -/
structure RuleInstance where
  key : String
  serial : Nat
  rule : Rule

structure Provider where
  registry : Registry
  instances : List RuleInstance := []
  materialized : Bool := false

namespace Provider

def ofRegistry (g : Registry) : Provider := { registry := g }

def constructed (p : Provider) : Nat := p.instances.length

def timesBuilt (p : Provider) (id : String) : Nat :=
  p.instances.countP fun i => i.key == id

def instance? (p : Provider) (id : String) : Option RuleInstance :=
  p.instances.find? fun i => i.key == id

/-- The shared instance, built on the first request; nothing for an unknown identifier. -/
def get (p : Provider) (id : String) : Option RuleInstance × Provider × Array Notice :=
  match p.instance? id with
  | some i => (some i, p, #[])
  | none =>
    match p.registry.registration? id with
    | none => (none, p, #[])
    | some r =>
      let i : RuleInstance := ⟨id, p.constructed, r.build r.metadata⟩
      (some i, { p with instances := p.instances ++ [i] }, #[.constructing id])

def getEach : List String → Provider → List RuleInstance × Provider × Array Notice
  | [], p => ([], p, #[])
  | id :: ids, p =>
    let (i, p, notices) := p.get id
    let (is, p, more) := getEach ids p
    (i.toList ++ is, p, notices ++ more)

/-- Builds every registered rule, the first time it is asked to. -/
def materializeAll (p : Provider) : Provider × Array Notice :=
  if p.materialized then (p, #[])
  else
    let (_, p, notices) := getEach p.registry.ids p
    ({ p with materialized := true }, notices.push (.materialized p.constructed))

/-- The instances of all rules in the order of registration. -/
def all (p : Provider) : List RuleInstance × Provider × Array Notice :=
  let (p, notices) := p.materializeAll
  let (is, p, more) := getEach p.registry.ids p
  (is, p, notices ++ more)

def allRules (p : Provider) : List Rule × Provider × Array Notice :=
  let (is, p, notices) := p.all
  (is.map (·.rule), p, notices)

def text (p : Provider) : String :=
  s!"RuleProvider \x7b registered: {p.registry.size}, constructed: {p.constructed} \x7d"

end Provider

/-- Who hears of rule failures: the journal's notices, or a listener of the caller's. -/
inductive Reporter
  | notices
  | listener
  deriving DecidableEq, Repr

structure Runner where
  provider : Provider
  reporter : Reporter := .notices

/-- What comes of running rules: besides the outcome the instances that ran, the failures, what was
told and heard of it, and the runner afterwards. -/
structure RuleRun (α : Type) where
  outcome : α
  ran : List RuleInstance
  failures : List RuleFailure
  notices : Array Notice
  heard : List RuleFailure
  after : Runner

namespace Runner

/-- What the notices say of failures. -/
def noticesOf (r : Runner) (failures : List RuleFailure) : Array Notice :=
  match r.reporter with
  | .notices => (failures.map Notice.ruleFailed).toArray
  | .listener => #[]

/-- What a listener of the caller's hears. -/
def heardOf (r : Runner) (failures : List RuleFailure) : List RuleFailure :=
  match r.reporter with
  | .notices => []
  | .listener => failures

/-- Reports the failures of a run, for which the provider had told what it built. -/
def report {α : Type} (r : Runner) (p : Provider) (built : Array Notice) (ran : List RuleInstance)
    (outcome : α) (failures : List RuleFailure) : RuleRun α :=
  { outcome, ran, failures
    notices := built ++ r.noticesOf failures
    heard := r.heardOf failures
    after := { r with provider := p } }

def runOne (r : Runner) (id : String) (e : Element) : RuleRun RunResult :=
  match r.provider.get id with
  | (some i, p, built) =>
    let (result, failure) := i.rule.run e
    r.report p built [i] result failure.toList
  | (none, p, built) => r.report p built [] (.unregistered id e) []

/-- Every registered rule: one result per rule, in the order of registration. -/
def runEvery (r : Runner) (e : Element) : RuleRun (List RunResult) :=
  let (is, p, built) := r.provider.all
  let (results, failures) := runEach (is.map (·.rule)) e
  r.report p built is results failures

def runRule (r : Runner) (id : String) (e : Element) : RunResult × List RuleFailure × Runner :=
  let run := r.runOne id e
  (run.outcome, run.failures, run.after)

def runAll (r : Runner) (e : Element) : List RunResult × List RuleFailure × Runner :=
  let run := r.runEvery e
  (run.outcome, run.failures, run.after)

def text (r : Runner) : String :=
  s!"RuleRunner \x7b provider: {r.provider.text} \x7d"

end Runner

end UiConformance
