import UiConformance.Report.Basic
import UiConformance.Text.Paint

/-!
# Text reports

A report for a reader: a block for each finding shown, tallies, and the status. Passes are shown
only where they are asked for. A style without colour asks for no look; what becomes of a look that
is asked for is up to the painter.
-/

namespace UiConformance

open Text

structure TextStyle where
  colour : Bool := true
  /-- Passes are shown too. -/
  passes : Bool := false
  /-- Every issue says how to fix it. -/
  help : Bool := true
  deriving DecidableEq, Repr

def ScanStatus.look : ScanStatus → Look
  | fail => [Look.bold, Look.red]
  | uncertain => [Look.bold, Look.yellow]
  | notSupported => [Look.magenta]
  | pass => [Look.green]
  | noResult => [Look.dimmed]

/-- A number of things. -/
def quantity (n : Nat) (one many : String) : String := s!"{n} {if n = 1 then one else many}"

/-- What is counted at the end of a report, and how it is called. -/
structure Tally where
  status : ScanStatus
  one : String
  many : String
  look : Look

def Tally.all : List Tally :=
  [⟨.fail, "failure", "failures", [Look.red]⟩,
   ⟨.uncertain, "needs review", "need review", [Look.yellow]⟩,
   ⟨.notSupported, "not supported", "not supported", [Look.magenta]⟩,
   ⟨.pass, "pass", "passes", [Look.green]⟩]

namespace Report

def shownFindings (passes : Bool) (r : Report) : List Finding :=
  r.findings.filter fun f => f.isIssue || passes

/-- The tallies that are not zero. -/
def tallies (r : Report) : List (Tally × Nat) :=
  (Tally.all.map fun t => (t, r.count t.status)).filter fun p => p.2 != 0

end Report

namespace TextStyle

variable (style : TextStyle) (paint : Painter)

def status (s : ScanStatus) : String :=
  if style.colour then paint s.look s.label else paint [] s.label

def painted (look : Look) (s : String) : String :=
  if style.colour then paint look s else s

/-! ## Findings -/

def headline (f : Finding) : String :=
  let status := style.status paint f.status
  let id := style.painted paint [Look.cyan] f.ruleId
  s!"  {status} [{id}] {f.label}: {f.description}\n"

def helpLine (f : Finding) : String :=
  let help := style.painted paint [Look.blue] "help:"
  s!"      {help} {f.howToFix} ({f.standard})\n"

/-- A line for the finding, a line for each message, and the help for an issue. -/
def block (f : Finding) : String :=
  style.headline paint f ++ String.join (f.messages.map fun m => s!"      {m}\n") ++
    if style.help && f.isIssue then style.helpLine paint f else ""

/-! ## Reports -/

def header (r : Report) : String :=
  let source := if style.colour then paint [Look.underlined] r.source else r.source
  s!"{source} ({r.mode.text} mode)\n"

def summary (r : Report) : String :=
  let counts := r.tallies.map fun p =>
    style.painted paint p.1.look (quantity p.2 p.1.one p.1.many)
  "\n" ++ quantity r.elements "element" "elements" ++ " scanned" ++
    (if counts.isEmpty then "" else ": " ++ ", ".intercalate counts) ++ "\n"

def notices (r : Report) : String :=
  (if r.truncated then
    style.painted paint [Look.yellow] "Element limit reached; the tree was truncated\n" else "") ++
  if r.unpopulated = 0 then ""
  else "Properties unavailable for " ++ quantity r.unpopulated "element" "elements" ++ "\n"

def conclusion (r : Report) : String :=
  let status := style.status paint r.status
  s!"Status: {status}\nFinished in {r.duration.text}s\n"

end TextStyle

def TextStyle.showFinding (style : TextStyle) (f : Finding) (paint : Painter := .ofTerminal true) :
    String :=
  style.block paint f

def TextStyle.show (style : TextStyle) (r : Report) (paint : Painter := .ofTerminal true) :
    String :=
  style.header paint r ++
    String.join ((r.shownFindings style.passes).map fun f => style.showFinding f paint) ++
    style.summary paint r ++ style.notices paint r ++ style.conclusion paint r

end UiConformance
