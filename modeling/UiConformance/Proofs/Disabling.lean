import UiConformance.Proofs.Findings

/-!
# Disabling rules

Rules that are disabled besides others leave a report without their findings. What else the report
says of the scan stays, and its status and exit code can only become milder. It matters which rules
are disabled, not in which order or how often they are named.
-/

namespace UiConformance

/-! ## Settings -/

namespace Settings

variable {s : Settings} {o : Overrides} {id : String}

theorem reports_iff : s.reports id = true ↔
    id ∉ s.rules.disabled ∧ (s.rules.enabled = [] ∨ id ∈ s.rules.enabled) := by
  simp [reports]

theorem reports_override (s : Settings) (o : Overrides) (id : String) :
    (s.override o).reports id = (s.reports id && decide (id ∉ o.disabled)) := by
  rw [Bool.eq_iff_iff, Bool.and_eq_true, decide_eq_true_eq, reports_iff, reports_iff]
  show id ∉ s.rules.disabled ++ o.disabled ∧ _ ↔ _
  rw [List.mem_append, not_or, and_right_comm]
  rfl

end Settings

/-! ## Reports -/

/-- Some rule result of the scan is of the rule. -/
def ScanTree.Mentions (scan : ScanTree) (id : String) : Prop :=
  ∃ results ∈ scan.results, ∃ r ∈ results.items, ∃ i ∈ r.items, i.ruleId = id

namespace Report

variable {source : String} {scan : ScanTree} {s s' : Settings} {o o' : Overrides}

theorem findingsOf_override (s : Settings) (o : Overrides) (e : Element) (results : ScanResults) :
    findingsOf (s.override o) e results =
      (findingsOf s e results).filter fun f => decide (f.ruleId ∉ o.disabled) := by
  unfold findingsOf
  rw [List.filter_flatMap]
  congr 1
  funext r
  rw [List.filter_map, List.filter_filter]
  congr 1
  refine List.filter_congr fun i _ => ?_
  rw [Settings.reports_override, ← Bool.and_assoc, Bool.and_comm]
  rfl

theorem findings_override (source : String) (scan : ScanTree) (s : Settings) (o : Overrides) :
    (ofScan source scan (s.override o)).findings =
      (ofScan source scan s).findings.filter fun f => decide (f.ruleId ∉ o.disabled) := by
  show sortOn Finding.elementId (collect (s.override o) scan) = _
  refine Eq.trans ?_ (filter_sortOn_eq _ _).symm
  rw [collect, collect, List.filter_flatMap]
  simp only [findingsOf_override]

theorem status_ofScan_le_of_subset
    (h : (ofScan source scan s').findings ⊆ (ofScan source scan s).findings) :
    (ofScan source scan s').status ≤ (ofScan source scan s).status := by
  show ScanStatus.aggregate ((ofScan source scan s').findings.map _) ≤ _
  rw [ScanStatus.aggregate_le_iff, List.forall_mem_map]
  exact fun f hf => (status_ofScan source scan s).1 f (h hf)

theorem exitCode_le_of_status_le {r r' : Report} (h : r'.status ≤ r.status) :
    r'.exitCode ≤ r.exitCode := by
  unfold exitCode
  revert h
  cases r.status <;> cases r'.status <;> decide

/-- Settings that agree on the rules of a scan give one report. -/
theorem ofScan_congr (h : ∀ id, scan.Mentions id → s.reports id = s'.reports id) :
    ofScan source scan s = ofScan source scan s' := by
  have hcollect : collect s scan = collect s' scan := by
    unfold collect findingsOf
    refine List.flatMap_congr fun e _ => List.flatMap_congr fun r hr => ?_
    congr 1
    refine List.filter_congr fun i hi => ?_
    rw [h i.ruleId]
    refine ⟨scan.results.getD e.index {}, ?_, r, hr, i, hi, rfl⟩
    -- an element without a place among the results has none
    by_cases he : e.index < scan.results.size
    · rw [Array.getD, dif_pos he]
      exact Array.getElem_mem he
    · rw [Array.getD, dif_neg he] at hr
      cases hr
  unfold ofScan
  rw [hcollect]

/-- Where it is known which rules were evaluated, only these matter. -/
theorem ofScan_congr_of_evaluatedBy {rules : List Rule} (hresults : scan.EvaluatedBy rules)
    (h : ∀ r ∈ rules, s.reports r.id = s'.reports r.id) :
    ofScan source scan s = ofScan source scan s' := by
  have hcollect : collect s scan = collect s' scan := by
    rw [collect_eq hresults, collect_eq hresults]
    unfold findingsAt
    rw [List.filter_congr h]
  unfold ofScan
  rw [hcollect]

/-- What becomes of a report when rules are disabled besides others. -/
structure Narrows (source : String) (scan : ScanTree) (s : Settings) (o : Overrides)
    (report narrowed : Report) : Prop where
  findings : narrowed.findings = report.findings.filter fun f => decide (f.ruleId ∉ o.disabled)
  others : narrowed = { report with findings := narrowed.findings, status := narrowed.status }
  status_le : narrowed.status ≤ report.status
  exitCode_le : narrowed.exitCode ≤ report.exitCode
  /-- Only the disabled rules that the scan mentions matter, not how they are listed. -/
  unmentioned : ∀ o' : Overrides,
    (∀ id, scan.Mentions id → (id ∈ o'.disabled ↔ id ∈ o.disabled)) →
      ofScan source scan (s.override o') = narrowed
  /-- No more do those matter that no rule has. -/
  unregistered : ∀ rules, scan.EvaluatedBy rules → ∀ o' : Overrides,
    (∀ r ∈ rules, (r.id ∈ o'.disabled ↔ r.id ∈ o.disabled)) →
      ofScan source scan (s.override o') = narrowed
  /-- A disabled rule is left out, whether it is enabled too or not. -/
  leftOut : ∀ id ∈ s.rules.disabled ++ o.disabled, ∀ f ∈ narrowed.findings, f.ruleId ≠ id

theorem narrows_override (source : String) (scan : ScanTree) (s : Settings) (o : Overrides) :
    Narrows source scan s o (ofScan source scan s) (ofScan source scan (s.override o)) := by
  have hfindings := findings_override source scan s o
  have hstatus : (ofScan source scan (s.override o)).status ≤ (ofScan source scan s).status :=
    status_ofScan_le_of_subset (hfindings ▸ List.filter_subset_self _)
  exact
    { findings := hfindings
      others := rfl
      status_le := hstatus
      exitCode_le := exitCode_le_of_status_le hstatus
      unmentioned := fun o' h => ofScan_congr fun id hid => by
        simp only [Settings.reports_override, h id hid]
      unregistered := fun rules hresults o' h => ofScan_congr_of_evaluatedBy hresults fun r hr => by
        simp only [Settings.reports_override, h r hr]
      leftOut := fun id hid f hf heq => by
        have hreports := (shown_of_mem_findings hf).2
        rw [heq, Settings.reports_iff] at hreports
        exact hreports.1 hid }

end Report

end UiConformance
