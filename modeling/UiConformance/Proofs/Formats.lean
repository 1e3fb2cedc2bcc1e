import Mathlib.Algebra.GroupWithZero.Nat
import Mathlib.Data.List.Forall2
import UiConformance.Proofs.ByteOrder
import UiConformance.Proofs.Findings
import UiConformance.Report.Sarif
import UiConformance.Report.Text

/-!
# What the formats of a report say

A finding above a pass is an issue. The interchange format has one result for each issue and one
rule for each identifier among them, the text has one block for each issue, and the exit code tells
the worst of them. The tallies of the text count every finding once.
-/

namespace UiConformance

/-! ## Places in a document -/

namespace Json.Document

inductive Step
  | member (name : String)
  | item (index : Nat)
  deriving DecidableEq, Repr

def step? : Document → Step → Option Document
  | d, .member name => d.member? name
  | .list ds, .item i => ds[i]?
  | _, .item _ => none

def at? (d : Document) (steps : List Step) : Option Document := steps.foldlM step? d

end Json.Document

open Json (Document)
open Json.Document (Step)

/-! ## The interchange format -/

namespace Sarif

/-- The result tells the issue and its element. -/
structure Reports (source : String) (f : Finding) (d : Document) : Prop where
  ruleId : d.at? [.member "ruleId"] = some (.text f.ruleId)
  level : d.at? [.member "level"] = some (.text f.status.level.text)
  message : d.at? [.member "message", .member "text"] =
    some (.text (": ".intercalate (f.description :: f.messages)))
  element : d.at? [.member "locations", .item 0, .member "logicalLocations", .item 0,
    .member "name"] = some (.text f.label)
  place : d.at? [.member "locations", .item 0, .member "logicalLocations", .item 0,
    .member "fullyQualifiedName"] = some (.text (source ++ "#" ++ toString f.elementId))

/-- The entry tells of the rule what its issue says. -/
structure Introduces (f : Finding) (d : Document) : Prop where
  id : d.at? [.member "id"] = some (.text f.ruleId)
  description : d.at? [.member "shortDescription", .member "text"] = some (.text f.description)
  help : d.at? [.member "help", .member "text"] = some (.text f.howToFix)
  standard : d.at? [.member "properties", .member "tags"] = some (.list [.text f.standard])

theorem reports_resultDocument (source : String) (f : Finding) :
    Reports source f (resultDocument source f) where
  ruleId := rfl
  level := rfl
  message := rfl
  element := rfl
  place := rfl

theorem introduces_ruleDocument (f : Finding) : Introduces f (ruleDocument f) where
  id := rfl
  description := rfl
  help := rfl
  standard := rfl

def resultsPlace : List Step := [.member "runs", .item 0, .member "results"]

def rulesPlace : List Step :=
  [.member "runs", .item 0, .member "tool", .member "driver", .member "rules"]

theorem at?_resultsPlace (tool : Tool) (r : Report) :
    (document tool r).at? resultsPlace = some (.list (r.issues.map (resultDocument r.source))) :=
  rfl

theorem at?_rulesPlace (tool : Tool) (r : Report) :
    (document tool r).at? rulesPlace = some (.list ((rules r.issues).values.map ruleDocument)) :=
  rfl

section Rules

variable {issues : List Finding} {f : Finding} {id : String}

theorem get?_rules (issues : List Finding) (id : String) :
    (rules issues).get? id = issues.find? fun f => f.ruleId == id := by
  have hfold : ∀ m : OrderedMap String Finding,
      (issues.foldl (fun m f => if (m.get? f.ruleId).isSome then m else m.insert f.ruleId f)
        m).get? id = (m.get? id).or (issues.find? fun f => f.ruleId == id) := by
    -- a rule that is there already keeps its issue, so the map at the start comes first
    induction issues with
    | nil => simp
    | cons f issues ih =>
      intro m
      rw [List.foldl_cons, ih, List.find?_cons]
      by_cases hid : f.ruleId = id
      · subst hid
        cases hm : m.get? f.ruleId <;> simp [hm]
      · have hbeq : (f.ruleId == id) = false := beq_eq_false_iff_ne.mpr hid
        by_cases hm : (m.get? f.ruleId).isSome = true <;> simp [hm, hid, hbeq]
  exact hfold .empty

theorem mem_entries_rules : (id, f) ∈ (rules issues).entries ↔
    issues.find? (fun g => g.ruleId == id) = some f := by
  rw [← OrderedMap.get?_eq_some_iff, get?_rules]

theorem ruleId_of_mem_entries (h : (id, f) ∈ (rules issues).entries) : f.ruleId = id := by
  simpa using List.find?_some (mem_entries_rules.mp h)

theorem find?_of_mem_values (h : f ∈ (rules issues).values) :
    issues.find? (fun g => g.ruleId == f.ruleId) = some f := by
  obtain ⟨⟨id, f⟩, he, rfl⟩ := List.mem_map.mp h
  obtain rfl := ruleId_of_mem_entries he
  exact mem_entries_rules.mp he

theorem mem_ruleIds_iff : id ∈ (rules issues).values.map Finding.ruleId ↔
    id ∈ issues.map Finding.ruleId := by
  constructor
  · intro h
    obtain ⟨f, hf, rfl⟩ := List.mem_map.mp h
    exact List.mem_map_of_mem (List.mem_of_find?_eq_some (find?_of_mem_values hf))
  · intro h
    obtain ⟨g, hg, rfl⟩ := List.mem_map.mp h
    obtain ⟨f, hf⟩ : ∃ f, issues.find? (fun f => f.ruleId == g.ruleId) = some f :=
      Option.isSome_iff_exists.mp (List.find?_isSome.mpr ⟨g, hg, beq_self_eq_true _⟩)
    have he := mem_entries_rules.mpr hf
    exact List.mem_map.mpr ⟨f, List.mem_map_of_mem he, ruleId_of_mem_entries he⟩

theorem pairwise_rules (issues : List Finding) :
    ((rules issues).values.map fun f => Text.bytes f.ruleId).Pairwise (· < ·) := by
  rw [OrderedMap.values, List.map_map, List.pairwise_map]
  refine (rules issues).ascending.imp_of_mem fun {e e'} he he' hlt => ?_
  rw [← ruleId_of_mem_entries he, ← ruleId_of_mem_entries he'] at hlt
  exact Text.bytes_lt_iff.mpr hlt

end Rules

end Sarif

/-! ## The text -/

open Text (Look Painter)

/-- How a text with a look is printed. -/
abbrev Ink := Look → String → String

def TextStyle.ink (style : TextStyle) (paint : Painter) : Ink :=
  fun look s => if style.colour then paint look s else s

/-- A number with the word for so many. -/
def counted (n : Nat) (one many : String) : String :=
  toString n ++ " " ++ if n = 1 then one else many

def unlines (lines : List String) : String := String.join (lines.map (· ++ "\n"))

theorem unlines_cons (a : String) (as : List String) :
    unlines (a :: as) = a ++ "\n" ++ unlines as := by
  rw [unlines, List.map_cons, String.join_cons]
  rfl

theorem unlines_append (as bs : List String) : unlines (as ++ bs) = unlines as ++ unlines bs := by
  rw [unlines, List.map_append, String.join_append]
  rfl

theorem unlines_flatten (ass : List (List String)) :
    unlines ass.flatten = String.join (ass.map unlines) := by
  induction ass with
  | nil => rfl
  | cons as ass ih => rw [List.flatten_cons, unlines_append, ih, List.map_cons, String.join_cons]

namespace Finding

/-- The status and the rule, the element, and what the rule is about. -/
def headLine (ink : Ink) (f : Finding) : String :=
  "  " ++ ink f.status.look f.status.label ++ " [" ++ ink [Look.cyan] f.ruleId ++ "] " ++
    ("#" ++ toString f.elementId ++ " " ++ f.controlType.text ++
      (f.elementName.map fun name => " \"" ++ name ++ "\"").getD "") ++ ": " ++ f.description

def helpLine (ink : Ink) (f : Finding) : String :=
  "      " ++ ink [Look.blue] "help:" ++ " " ++ f.howToFix ++ " (" ++ f.standard ++ ")"

/-- The lines tell the finding, and nothing else. -/
structure Told (ink : Ink) (help : Bool) (f : Finding) (lines : List String) : Prop where
  head : lines.head? = some (f.headLine ink)
  messages : lines.tail.take f.messages.length = f.messages.map ("      " ++ ·)
  help : lines.tail.drop f.messages.length =
    if help = true ∧ .pass < f.status then [f.helpLine ink] else []

end Finding

/-- The text tells the report: what was scanned, a block of lines for each finding shown, the
elements and the tallies, what is amiss with the tree, and the status. -/
structure Report.Printed (ink : Ink) (passes help : Bool) (r : Report) (text : String)
    (blocks : List (List String)) (counts : List String) : Prop where
  told : List.Forall₂ (Finding.Told ink help) (if passes then r.findings else r.issues) blocks
  tallied : List.Forall₂ (fun p count => count = ink p.1.look (counted p.2 p.1.one p.1.many))
    r.tallies counts
  text : text = ink [Look.underlined] r.source ++ " (" ++ r.mode.text ++ " mode)\n" ++
    unlines blocks.flatten ++
    ("\n" ++ counted r.elements "element" "elements" ++ " scanned" ++
      (if counts = [] then "" else ": " ++ ", ".intercalate counts) ++ "\n") ++
    ((if r.truncated = true then
        ink [Look.yellow] "Element limit reached; the tree was truncated\n" else "") ++
      if r.unpopulated = 0 then ""
      else "Properties unavailable for " ++ counted r.unpopulated "element" "elements" ++ "\n") ++
    ("Status: " ++ ink r.status.look r.status.label ++ "\nFinished in " ++ r.duration.text ++ "s\n")

section Printing

variable {paint : Painter} (hbare : ∀ s, paint [] s = s) (style : TextStyle)

theorem quantity_eq (n : Nat) (one many : String) : quantity n one many = counted n one many := by
  simp [quantity, counted, toString]

include hbare

theorem TextStyle.status_eq (s : ScanStatus) :
    style.status paint s = style.ink paint s.look s.label := by
  unfold status ink
  rw [hbare]

theorem TextStyle.headline_eq (f : Finding) :
    style.headline paint f = f.headLine (style.ink paint) ++ "\n" := by
  have hlabel : f.label = "#" ++ toString f.elementId ++ " " ++ f.controlType.text ++
      (f.elementName.map fun name => " \"" ++ name ++ "\"").getD "" := by
    unfold Finding.label
    cases f.elementName with
    | none => simp [toString]
    | some name => simp [toString, String.append_assoc]
  unfold headline Finding.headLine
  rw [status_eq hbare, hlabel]
  simp [toString, String.append_assoc, painted, ink]

/-- A block is lines that tell its finding. -/
theorem TextStyle.exists_told (f : Finding) :
    ∃ lines, f.Told (style.ink paint) style.help lines ∧
      style.showFinding f paint = unlines lines := by
  refine ⟨f.headLine (style.ink paint) :: (f.messages.map ("      " ++ ·) ++
    if style.help = true ∧ .pass < f.status then [f.helpLine (style.ink paint)] else []),
    ⟨rfl, by simp, by simp⟩, ?_⟩
  have hmessages : String.join (f.messages.map fun m => s!"      {m}\n") =
      unlines (f.messages.map ("      " ++ ·)) := by
    rw [unlines, List.map_map]
    rfl
  have hissue : (style.help && f.isIssue) = true ↔ style.help = true ∧ .pass < f.status := by
    rw [Bool.and_eq_true]
    exact and_congr_right fun _ => decide_eq_true_iff
  have hhelp : (if style.help && f.isIssue then style.helpLine paint f else "") =
      unlines
        (if style.help = true ∧ .pass < f.status then [f.helpLine (style.ink paint)] else []) := by
    simp only [hissue]
    split
    · simp [unlines, helpLine, Finding.helpLine, toString, String.append_assoc, painted, ink]
    · rfl
  rw [showFinding, block, headline_eq hbare, hmessages, hhelp, String.append_assoc,
    ← unlines_append, unlines_cons]

theorem TextStyle.exists_printed (r : Report) : ∃ blocks counts,
    r.Printed (style.ink paint) style.passes style.help (style.show r paint) blocks counts := by
  choose lines htold hlines using style.exists_told hbare
  have hshown : r.shownFindings style.passes = if style.passes then r.findings else r.issues := by
    unfold Report.shownFindings Report.issues
    cases style.passes <;> simp
  have hblocks :
      String.join ((r.shownFindings style.passes).map fun f => style.showFinding f paint) =
      unlines ((r.shownFindings style.passes).map lines).flatten := by
    rw [unlines_flatten, List.map_map]
    exact congrArg String.join (List.map_congr_left fun f _ => hlines f)
  refine ⟨(r.shownFindings style.passes).map lines,
    r.tallies.map fun p => style.ink paint p.1.look (counted p.2 p.1.one p.1.many), ?_, ?_, ?_⟩
  · rw [← hshown, List.forall₂_map_right_iff, List.forall₂_same]
    exact fun f _ => htold f
  · rw [List.forall₂_map_right_iff, List.forall₂_same]
    exact fun p _ => rfl
  · rw [← hblocks]
    simp only [TextStyle.show, header, summary, notices, conclusion, status_eq hbare, quantity_eq,
      List.isEmpty_iff, painted, toString]
    rfl

end Printing

namespace Report

variable {r : Report}

/-- The statuses that findings have, each with the words for one and for many of them. -/
def statusWords : List (ScanStatus × String × String) :=
  [(.fail, "failure", "failures"), (.uncertain, "needs review", "need review"),
   (.notSupported, "not supported", "not supported"), (.pass, "pass", "passes")]

/-- The tallies are of the statuses that some finding has. -/
theorem tallies_eq (r : Report) :
    r.tallies.map (fun p => ((p.1.status, p.1.one, p.1.many), p.2)) =
      (statusWords.map fun w => (w, r.findings.countP fun f => f.status == w.1)).filter
        fun p => p.2 != 0 := by
  rw [tallies, List.filter_map, List.map_map]
  show _ = ((Tally.all.map fun t => (t.status, t.one, t.many)).map _).filter _
  rw [List.map_map, List.filter_map]
  rfl

/-- A report without missing statuses counts each of its findings in one tally. -/
theorem sum_tallies (h : ∀ f ∈ r.findings, f.status ≠ .noResult) :
    (r.tallies.map Prod.snd).sum = r.findings.length := by
  have hfilter : (r.tallies.map Prod.snd).sum = (Tally.all.map fun t => r.count t.status).sum := by
    unfold tallies
    induction Tally.all with
    | nil => rfl
    | cons t ts ih => by_cases hn : r.count t.status = 0 <;> simp [hn, ih]
  rw [hfilter]
  -- each finding has exactly one of the four statuses that are counted
  show r.count .fail + (r.count .uncertain + (r.count .notSupported + (r.count .pass + 0))) = _
  unfold count
  generalize r.findings = fs at h
  induction fs with
  | nil => rfl
  | cons f fs ih =>
    obtain ⟨hf, hfs⟩ := List.forall_mem_cons.mp h
    have ih := ih hfs
    simp only [List.countP_cons, List.length_cons]
    cases hs : f.status <;> simp_all <;> omega

/-! ## The exit code -/

section Worst

variable (hr : r.status = .aggregate (r.findings.map Finding.status))

include hr

theorem status_le_iff {b : ScanStatus} : r.status ≤ b ↔ ∀ f ∈ r.findings, f.status ≤ b := by
  rw [hr, ScanStatus.aggregate_le_iff, List.forall_mem_map]

theorem status_le_pass_iff : r.status ≤ .pass ↔ r.issues = [] := by
  rw [status_le_iff hr, issues, List.filter_eq_nil_iff]
  refine forall₂_congr fun f _ => ?_
  show _ ↔ ¬ decide (_ < _) = true
  rw [decide_eq_true_eq]
  exact Nat.not_lt.symm

theorem status_le_uncertain_iff :
    r.status ≤ .uncertain ↔ ∀ f ∈ r.issues, f.status = .uncertain := by
  simp only [status_le_iff hr, issues, List.mem_filter, and_imp]
  refine forall₂_congr fun f _ => ?_
  show _ ↔ (f.status.isIssue = true → _)
  generalize f.status = s
  cases s <;> decide

end Worst

/-! ## Agreement -/

/-- The formats and the exit code tell of the same findings. -/
structure Agrees (r : Report) (tool : Sarif.Tool) (style : TextStyle) (paint : Painter) : Prop where
  issues : r.issues = r.findings.filter fun f => decide (.pass < f.status)
  results : ∃ ds, (Sarif.document tool r).at? Sarif.resultsPlace = some (.list ds) ∧
    List.Forall₂ (Sarif.Reports r.source) r.issues ds
  /-- One rule for each identifier, told of by the first of its issues. -/
  rules : ∃ firsts ds, (Sarif.document tool r).at? Sarif.rulesPlace = some (.list ds) ∧
    List.Forall₂ Sarif.Introduces firsts ds ∧
    (firsts.map fun f => Text.bytes f.ruleId).Pairwise (· < ·) ∧
    (∀ id, id ∈ firsts.map Finding.ruleId ↔ id ∈ r.issues.map Finding.ruleId) ∧
    ∀ f ∈ firsts, r.issues.find? (fun g => g.ruleId == f.ruleId) = some f
  text : ∃ blocks counts,
    r.Printed (style.ink paint) style.passes style.help (style.show r paint) blocks counts
  /-- A tally that is not printed counts none. -/
  tallies : r.tallies.map (fun p => ((p.1.status, p.1.one, p.1.many), p.2)) =
    (statusWords.map fun w => (w, r.findings.countP fun f => f.status == w.1)).filter
      fun p => p.2 != 0
  counted : (r.tallies.map Prod.snd).sum = r.findings.length
  exitCode_zero : r.exitCode = 0 ↔ r.issues = []
  exitCode_one : r.exitCode = 1 ↔ r.issues ≠ [] ∧ ∀ f ∈ r.issues, f.status = .uncertain
  exitCode_two : r.exitCode = 2 ↔ ∃ f ∈ r.findings, f.status = .fail ∨ f.status = .notSupported

theorem agrees_ofScan (source : String) (scan : ScanTree) (s : Settings) (duration : Duration)
    (tool : Sarif.Tool) (style : TextStyle) {paint : Painter} (hbare : ∀ s, paint [] s = s) :
    ({ ofScan source scan s with duration } : Report).Agrees tool style paint := by
  generalize hr : ({ ofScan source scan s with duration } : Report) = r
  have hstatus : r.status = .aggregate (r.findings.map Finding.status) := by
    rw [← hr]
    rfl
  have hshown : ∀ f ∈ r.findings, f.status ≠ .noResult := by
    intro f hf
    rw [← hr] at hf
    have hf : f ∈ (ofScan source scan s).findings := hf
    exact (shown_of_mem_findings hf).1
  obtain ⟨h2, h1, h0⟩ := exitCode_iff r
  refine
    { issues := rfl
      results := ⟨_, Sarif.at?_resultsPlace tool r, ?_⟩
      rules := ⟨_, _, Sarif.at?_rulesPlace tool r, ?_, Sarif.pairwise_rules _,
        fun id => Sarif.mem_ruleIds_iff, fun f => Sarif.find?_of_mem_values⟩
      text := style.exists_printed hbare r
      tallies := tallies_eq r
      counted := sum_tallies hshown
      exitCode_zero := h0.trans (status_le_pass_iff hstatus)
      exitCode_one := ?_
      exitCode_two := ?_ }
  · rw [List.forall₂_map_right_iff, List.forall₂_same]
    exact fun f _ => Sarif.reports_resultDocument r.source f
  · rw [List.forall₂_map_right_iff, List.forall₂_same]
    exact fun f _ => Sarif.introduces_ruleDocument f
  · rw [h1, status_le_uncertain_iff hstatus, status_le_pass_iff hstatus, and_comm]
  · rw [h2, status_le_iff hstatus]
    push Not
    refine exists_congr fun f => and_congr_right fun _ => ?_
    generalize f.status = s
    cases s <;> decide

/-- A scan of a button, cut short, on which one rule failed, one panicked and one had a pass. -/
def mixedScan : ScanTree where
  tree := ⟨#[{ ElementNode.withProperty { id := 0 } .name (.text "OK") with
    controlType := .button }]⟩
  results := #[⟨[⟨"Several rules", { controlType := .button },
    [⟨"a", "Name", "Name it", "S1", .fail, []⟩,
     ⟨"b", "Role", "Repair the rule", "S2", .notSupported, ["Rule panicked", "Again"]⟩,
     ⟨"c", "Place", "Nothing to do", "S3", .pass, []⟩,
     ⟨"d", "Size", "Nothing to do", "S4", .noResult, []⟩]⟩]⟩]
  selected := 0
  topMost := 0
  mode := .test
  state := .rulesEvaluated
  truncated := true
  unpopulated := 1

theorem agrees_ofScan_mixed :
    let r := ofScan "window.yaml" mixedScan {}
    let style : TextStyle := { help := false }
    (∀ s, Painter.ofTerminal true [] s = s) ∧ r.Agrees ⟨"tool", "1"⟩ style (.ofTerminal true) ∧
      style.show r (.ofTerminal true) =
        "\x1b[4mwindow.yaml\x1b[0m (test mode)\n" ++
        "  \x1b[1;31mFailed\x1b[0m [\x1b[36ma\x1b[0m] #0 Button \"OK\": Name\n" ++
        "  \x1b[35mNot supported\x1b[0m [\x1b[36mb\x1b[0m] #0 Button \"OK\": Role\n" ++
        "      Rule panicked\n      Again\n" ++
        "\n1 element scanned: \x1b[31m1 failure\x1b[0m, " ++
          "\x1b[35m1 not supported\x1b[0m, \x1b[32m1 pass\x1b[0m\n" ++
        "\x1b[33mElement limit reached; the tree was truncated\n\x1b[0m" ++
        "Properties unavailable for 1 element\n" ++
        ("Status: \x1b[35mNot supported\x1b[0m\nFinished in " ++ r.duration.text ++ "s\n") := by
  intro r style
  have hbare : ∀ s, Painter.ofTerminal true [] s = s := fun _ => rfl
  have hsorted : sorted (collect {} mixedScan) = collect {} mixedScan :=
    List.mergeSort_of_pairwise (by decide +kernel)
  have hr : r = { source := "window.yaml", elements := 1, truncated := true, unpopulated := 1,
                  status := .notSupported, findings := collect {} mixedScan } := by
    unfold r ofScan
    rw [hsorted]
    rfl
  refine ⟨hbare, agrees_ofScan "window.yaml" mixedScan {} {} ⟨"tool", "1"⟩ style hbare, ?_⟩
  rw [hr]
  unfold TextStyle.show
  -- the duration is no closed text, all before it is
  refine congrArg₂ (· ++ ·) ?_ ?_
  · decide +kernel
  · have hstatus : "Status: " ++ style.status (.ofTerminal true) .notSupported ++ "\nFinished in " =
        "Status: \x1b[35mNot supported\x1b[0m\nFinished in " := by decide +kernel
    rw [← hstatus]
    rfl

end Report

end UiConformance
