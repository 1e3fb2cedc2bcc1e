import UiConformance.CommandLine.Run
import UiConformance.Proofs.History
import UiConformance.Proofs.Verdict

/-!
# Exit codes

A run ends with the code of a complaint exactly where there is something to complain about: the
settings cannot be read or leave no usable bound on elements, by themselves or after the command
line overrode it, or the snapshot cannot be read or has no selected element. Whatever comes after
that cannot fail, and the code is that of the report. Nothing is assumed of how the text of a
document is read.
-/

namespace UiConformance

/-! ## Settings -/

namespace Settings

/-- The bound on elements is one that can be used. -/
def InRange (s : Settings) : Prop :=
  1 ≤ s.scan.maxElements ∧ s.scan.maxElements ≤ Text.int32Max - 1

variable {s : Settings}

/-- The settings that a run starts from, before they are checked. -/
def written (files : Files Id) (parse : Parser) : Option String → Except SettingsError Settings
  | some path => loadDocument files path .unknownFormat parse
  | none =>
    match firstExisting files (defaultPaths files.home) with
    | some path => loadDocument files path .unknownFormat parse
    | none => .ok {}

end Settings

/-! ## Scans -/

/-- Walkers of the scan are there for every platform, and none of their walks fails. -/
def Scan.Walks (scan : Scan) : Prop :=
  ∀ {H : Type} [DecidableEq H] (P : Platform H), ∃ w, scan.walker P = .ok w ∧
    ∀ order selected, ∃ tree, (w.walkUnder order selected).1 = .ok tree

theorem Report.exitCode_le (r : Report) : r.exitCode ≤ 2 := by
  unfold exitCode
  cases r.status <;> decide

/-! ## Runs -/

namespace CommandLine

def Environment.written (env : Environment Id) (a : Arguments) : Except SettingsError Settings :=
  Settings.written env.files env.parsers.settings a.config

/-- What there may be to complain about, whether or not something else comes before it. -/
inductive Complaint (env : Environment Id) (a : Arguments) : Failure → Prop
  | unread {e : SettingsError} : env.written a = .error e →
      Complaint env a (.settings a.config e)
  /-- By themselves, even where the command line overrides the bound. -/
  | unusable {s : Settings} : env.written a = .ok s → ¬ s.InRange →
      Complaint env a (.settings a.config (.invalid (.maxElements s.scan.maxElements)))
  | overridden {s : Settings} : env.written a = .ok s →
      ¬ (s.override a.overrides).InRange →
      Complaint env a
        (.overrides (.maxElements (s.override a.overrides).scan.maxElements))
  | snapshot {e : SnapshotError} : a.listRules = false →
      loadSnapshot env a = .error e → Complaint env a (.snapshot a.snapshot e)
  | noMatch {t : SnapshotTree} : a.listRules = false →
      loadSnapshot env a = .ok t → t.select a.select = none →
      Complaint env a (.noMatch a.select)

variable {env : Environment Id} {a : Arguments} {s : Settings} {scan : Scan}

/-! ### Settings -/

/-- The element that the arguments select, and the tree of the walk around it. -/
structure Examined (env : Environment Id) (a : Arguments) (scan : Scan) (t : SnapshotTree)
    (h : SnapshotHandle) (tree : ScanTree) : Prop where
  snapshot : loadSnapshot env a = .ok t
  selected : t.select a.select = some h
  walked : ∃ w, scan.walker t.platform = .ok w ∧ (w.walk h).1 = .ok tree

/-- A run with nothing to complain about: the settings `s` it works with, the scan they make, and
the code it ends with. -/
structure Answers (env : Environment Id) (a : Arguments) (s : Settings) (scan : Scan) : Prop where
  settings : ∃ own, env.written a = .ok own ∧ own.InRange ∧
    s = own.override a.overrides
  inRange : s.InRange
  made : Scan.ofRegistrations s Builtin.registrations .notices = .ok scan
  walks : scan.Walks
  listed : a.listRules = true → (execute env a).code = 0
  reported : a.listRules = false → ∃ t h tree, Examined env a scan t h tree ∧
    (execute env a).code = (Report.ofScan a.snapshot tree s).exitCode

theorem Answers.code_le (h : Answers env a s scan) : (execute env a).code ≤ 2 := by
  cases hl : a.listRules with
  | true =>
    rw [h.listed hl]
    exact Nat.zero_le 2
  | false =>
    obtain ⟨t, e, tree, -, hcode⟩ := h.reported hl
    rw [hcode]
    exact Report.exitCode_le _

/-- The code of a run says whether there was something to complain about, and else what was found. -/
structure Tells (env : Environment Id) (a : Arguments) : Prop where
  failed_iff : (execute env a).code = 3 ↔ ∃ e, Complaint env a e
  told : (execute env a).code = 3 → ∃ e colour, Complaint env a e ∧
    execute env a = e.output colour
  answers : (execute env a).code ≠ 3 → ∃ s scan, Answers env a s scan
  code_le : (execute env a).code ≠ 3 → (execute env a).code ≤ 2
  /-- The check of settings lets pass what a counter accepts. -/
  checks : ∀ s : Settings, s.check = .ok () ↔ ∃ c, Counter.ofBound s.scan.maxElements = .ok c

end CommandLine

end UiConformance
