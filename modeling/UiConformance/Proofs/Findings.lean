import UiConformance.Proofs.Evaluation
import UiConformance.Proofs.Severity
import UiConformance.Proofs.StableSort
import UiConformance.Report.Basic

/-!
# The findings of a report

`r.findingOn? e` is what a report has to say of a rule on an element: nothing where the rule does
not apply or says so itself, otherwise one finding with the status of the outcome. The report of a
walk in test mode is exact: its findings are those of the reported rules on the elements, in
ascending order of the elements and for each in the order of registration, and its status is the
most severe one among them.
-/

namespace UiConformance

/-! ## One rule on one element -/

/-- How severe an outcome is. A body that fails or panics could not be evaluated. -/
def Outcome.status : Outcome → ScanStatus
  | .code c => .ofCode c
  | .error _ | .panicked _ => .notSupported

/-- The text of the failure, unless it is empty. -/
def Outcome.messages (o : Outcome) : List String := o.complaint?.toList.filter fun m => m != ""

/-- What a report says of a rule on an element. -/
def Rule.findingOn? (r : Rule) (e : Element) : Option Finding :=
  if (r.condition.all fun c => c.appliesTo e) = true ∧ r.evaluate e ≠ .code .notApplicable then
    some
      { ruleId := r.id
        status := (r.evaluate e).status
        description := r.info.description
        howToFix := r.info.howToFix
        standard := r.info.standard
        messages := (r.evaluate e).messages
        elementId := e.id
        controlType := e.controlType
        elementName := e.name?
        property := r.info.property }
  else none

namespace Outcome

variable {o : Outcome}

theorem verdict_eq_notApplicable_iff : o.verdict = .notApplicable ↔ o = .code .notApplicable := by
  cases o <;> simp [verdict]

theorem ofCode_verdict (o : Outcome) : ScanStatus.ofCode o.verdict = o.status := by
  cases o <;> rfl

theorem status_ne_noResult (h : o ≠ .code .notApplicable) : o.status ≠ .noResult := by
  cases o with
  | code c => cases c <;> first | exact absurd rfl h | decide
  | error e => nofun
  | panicked t => nofun

end Outcome

namespace Rule

variable {r : Rule} {e : Element} {f : Finding}

theorem appliesTo_eq (r : Rule) (e : Element) :
    r.appliesTo e = r.condition.all fun c => c.appliesTo e := by
  unfold appliesTo
  cases r.condition <;> rfl

theorem run_fst (r : Rule) (e : Element) : (r.run e).1 =
    if r.appliesTo e then r.result e (r.evaluate e).verdict (r.evaluate e).complaint?
    else r.result e .notApplicable none := by
  unfold run
  split <;> rfl

/-- A rule has nothing to say exactly where its run does not apply. -/
theorem findingOn?_eq_none_iff : r.findingOn? e = none ↔ (r.run e).1.code = .notApplicable := by
  rw [run_fst, appliesTo_eq]
  unfold findingOn?
  by_cases ha : (r.condition.all fun c => c.appliesTo e) = true
  · simp [ha, result, Outcome.verdict_eq_notApplicable_iff]
  · simp [ha, result]

theorem code_run_ne (h : r.findingOn? e = some f) : (r.run e).1.code ≠ .notApplicable := by
  intro hcode
  rw [findingOn?_eq_none_iff.mpr hcode] at h
  cases h

theorem findingOn?_eq_some (h : r.findingOn? e = some f) :
    f.ruleId = r.id ∧ f.elementId = e.id ∧ f.status ≠ .noResult := by
  unfold findingOn? at h
  split at h
  · next ha =>
    cases h
    exact ⟨rfl, rfl, Outcome.status_ne_noResult ha.2⟩
  · cases h

/-- What a rule may say of an element is bounded by how severe its outcome is where it applies. -/
theorem findingOn?_le_iff {b : ScanStatus} : (∀ f, r.findingOn? e = some f → f.status ≤ b) ↔
    ((r.condition.all fun c => c.appliesTo e) = true → (r.evaluate e).status ≤ b) := by
  unfold findingOn?
  by_cases ha : (r.condition.all fun c => c.appliesTo e) = true
  · by_cases hn : r.evaluate e = .code .notApplicable
    · rw [hn]
      exact iff_of_true (by simp) fun _ => ScanStatus.noResult_le b
    · simp [ha, hn]
  · simp [ha]

/-- A run that applies has a single result, which is what the report says. -/
theorem ofRun_run (h : r.findingOn? e = some f) :
    ∃ item, (ScanResult.ofRun (r.run e).1 e).items = [item] ∧ item.ruleId = r.id ∧
      item.status = f.status ∧
      Finding.ofResult e (ScanResult.ofRun (r.run e).1 e).about item = f := by
  unfold findingOn? at h
  split at h
  · next ha =>
    have happlies : r.appliesTo e = true := by rw [appliesTo_eq]; exact ha.1
    have hstatus := Outcome.status_ne_noResult ha.2
    have hmax : max .pass (r.evaluate e).status = (r.evaluate e).status := by
      revert hstatus
      cases (r.evaluate e).status <;> decide
    have hmessages : (if ((r.evaluate e).complaint?.getD "").isEmpty then []
        else [] ++ [(r.evaluate e).complaint?.getD ""]) = (r.evaluate e).messages := by
      unfold Outcome.messages
      cases (r.evaluate e).complaint? with
      | none => rfl
      | some m => by_cases hm : m = "" <;> simp [hm]
    refine ⟨_, rfl, ?_⟩
    rw [run_fst, if_pos happlies]
    simp only [ScanResult.ofRun, ScanResult.ruleResultOf, result, Outcome.ofCode_verdict,
      if_neg hstatus, RuleResult.setStatus, RuleResult.ofInfo, hmax, hmessages]
    exact ⟨rfl, congrArg Finding.status (Option.some.inj h), Option.some.inj h⟩
  · cases h

end Rule

/-! ## All rules on one element -/

section Element

variable {rules : List Rule} {e : Element}

theorem items_resultsOf_of_none {r : Rule} (h : r.findingOn? e = none) :
    (resultsOf (r :: rules) e).1.items = (resultsOf rules e).1.items := by
  have hcode := Rule.findingOn?_eq_none_iff.mp h
  show (((r.run e).1 :: _).filter _).map _ = _
  rw [List.filter_cons_of_neg (by simp [hcode])]
  rfl

theorem items_resultsOf_of_some {r : Rule} {f : Finding} (h : r.findingOn? e = some f) :
    (resultsOf (r :: rules) e).1.items = .ofRun (r.run e).1 e :: (resultsOf rules e).1.items := by
  have hcode := Rule.code_run_ne h
  show (((r.run e).1 :: _).filter _).map _ = _
  rw [List.filter_cons_of_pos (by simp [hcode])]
  rfl

variable (rules e)

theorem findingsOf_resultsOf (s : Settings) : Report.findingsOf s e (resultsOf rules e).1 =
    (rules.filter fun r => s.reports r.id).filterMap fun r => r.findingOn? e := by
  unfold Report.findingsOf
  induction rules with
  | nil => rfl
  | cons r rules ih =>
    cases hf : r.findingOn? e with
    | none =>
      rw [items_resultsOf_of_none hf, ih, List.filter_cons]
      split
      · rw [List.filterMap_cons, hf]
      · rfl
    | some f =>
      obtain ⟨item, hitems, hid, hstatus, hfinding⟩ := Rule.ofRun_run hf
      have hne := (Rule.findingOn?_eq_some hf).2.2
      rw [items_resultsOf_of_some hf, List.flatMap_cons, ih, hitems]
      by_cases hr : s.reports r.id = true
      · have hitem : (item.status != .noResult && s.reports item.ruleId) = true := by
          simp [hstatus, hne, hid, hr]
        rw [List.filter_cons, if_pos hitem, List.filter_nil, List.map_singleton, hfinding,
          List.filter_cons, if_pos hr, List.filterMap_cons, hf]
        rfl
      · have hitem : ¬ (item.status != .noResult && s.reports item.ruleId) = true := by
          simp [hid, hr]
        rw [List.filter_cons, if_neg hitem, List.filter_cons, if_neg hr]
        rfl

theorem status_resultsOf_le_iff {b : ScanStatus} : (resultsOf rules e).1.status ≤ b ↔
    ∀ r ∈ rules, ∀ f, r.findingOn? e = some f → f.status ≤ b := by
  unfold ScanResults.status
  rw [ScanStatus.aggregate_le_iff, List.forall_mem_map]
  induction rules with
  | nil => exact ⟨fun _ => nofun, fun _ => nofun⟩
  | cons r rules ih =>
    rw [List.forall_mem_cons]
    cases hf : r.findingOn? e with
    | none =>
      rw [items_resultsOf_of_none hf, ih]
      exact (and_iff_right nofun).symm
    | some f =>
      obtain ⟨item, hitems, -, hstatus, -⟩ := Rule.ofRun_run hf
      rw [items_resultsOf_of_some hf, List.forall_mem_cons, ih, ScanResult.status, hitems,
        ScanStatus.aggregate_le_iff, List.map_singleton, List.forall_mem_singleton, hstatus]
      exact and_congr_left' ⟨fun h f' hf' => Option.some.inj hf' ▸ h, fun h => h f rfl⟩

end Element

/-! ## Reports -/

namespace Report

/-- What the reported rules say of an element. -/
def findingsAt (s : Settings) (rules : List Rule) (e : Element) : List Finding :=
  (rules.filter fun r => s.reports r.id).filterMap fun r => r.findingOn? e

/-- A report says of each element, by ascending identifier, what the reported rules say of it, and
its status is the most severe one among its findings. -/
structure Exact (report : Report) (scan : ScanTree) (rules : List Rule) (s : Settings) : Prop where
  findings : ∃ es : List Element, es.Perm scan.tree.elements ∧
    es.Pairwise (fun e f => e.id < f.id) ∧ report.findings = es.flatMap (findingsAt s rules)
  nodup : (report.findings.map fun f => (f.elementId, f.ruleId)).Nodup
  status_ne : ∀ f ∈ report.findings, f.status ≠ .noResult
  le_status : ∀ f ∈ report.findings, f.status ≤ report.status
  status_mem : report.findings ≠ [] → ∃ f ∈ report.findings, f.status = report.status
  status_nil : report.findings = [] → report.status = .noResult
  le_scan : report.status ≤ scan.status
  eq_scan : (∀ r ∈ rules, s.reports r.id = true) → report.status = scan.status

variable {s : Settings} {rules : List Rule} {e : Element} {f : Finding} {scan : ScanTree}
  {b : ScanStatus} {source : String}

theorem mem_findingsAt_iff : f ∈ findingsAt s rules e ↔
    ∃ r ∈ rules, s.reports r.id = true ∧ r.findingOn? e = some f := by
  simp only [findingsAt, List.mem_filterMap, List.mem_filter, and_assoc]

theorem elementId_findingsAt (h : f ∈ findingsAt s rules e) : f.elementId = e.id := by
  obtain ⟨r, -, -, hf⟩ := mem_findingsAt_iff.mp h
  exact (Rule.findingOn?_eq_some hf).2.1

/-- No rule has two findings on an element. -/
theorem pairwise_findingsAt (h : rules.Pairwise fun q r => q.id ≠ r.id) (s : Settings)
    (e : Element) : (findingsAt s rules e).Pairwise fun f g => f.ruleId ≠ g.ruleId := by
  rw [findingsAt, List.pairwise_filterMap]
  apply (h.filter _).imp
  intro q r hne f hf g hg
  rwa [(Rule.findingOn?_eq_some hf).1, (Rule.findingOn?_eq_some hg).1]

/-- Every finding has a status and is of a rule that is reported. -/
theorem shown_of_mem_findings (h : f ∈ (ofScan source scan s).findings) :
    f.status ≠ .noResult ∧ s.reports f.ruleId = true := by
  have hf : f ∈ collect s scan := (sortOn_perm Finding.elementId _).mem_iff.mp h
  obtain ⟨e, -, hf⟩ := List.mem_flatMap.mp hf
  obtain ⟨r, -, hf⟩ := List.mem_flatMap.mp hf
  obtain ⟨i, hi, rfl⟩ := List.mem_map.mp hf
  have hi := (List.mem_filter.mp hi).2
  rw [Bool.and_eq_true, bne_iff_ne] at hi
  exact hi

/-- The status of a report bounds its findings, and is that of one of them if there are any. -/
theorem status_ofScan (source : String) (scan : ScanTree) (s : Settings) :
    (∀ f ∈ (ofScan source scan s).findings, f.status ≤ (ofScan source scan s).status) ∧
      ((ofScan source scan s).findings ≠ [] →
        ∃ f ∈ (ofScan source scan s).findings, f.status = (ofScan source scan s).status) ∧
      ((ofScan source scan s).findings = [] → (ofScan source scan s).status = .noResult) := by
  have hstatus : (ofScan source scan s).status =
    .aggregate ((ofScan source scan s).findings.map Finding.status) := rfl
  rw [hstatus]
  refine ⟨fun f hf => ScanStatus.le_aggregate (List.mem_map_of_mem hf), fun hne => ?_, fun he => ?_⟩
  · exact List.mem_map.mp (ScanStatus.aggregate_mem fun h => hne (List.map_eq_nil_iff.mp h))
  · rw [he]
    rfl

theorem exitCode_iff (r : Report) : (r.exitCode = 2 ↔ ¬ r.status ≤ .uncertain) ∧
    (r.exitCode = 1 ↔ r.status ≤ .uncertain ∧ ¬ r.status ≤ .pass) ∧
    (r.exitCode = 0 ↔ r.status ≤ .pass) := by
  unfold Report.exitCode
  cases r.status <;> decide

section Results

variable (hresults : scan.EvaluatedBy rules)

include hresults

theorem getD_results (he : e ∈ scan.tree.elements) :
    scan.results.getD e.index {} = (resultsOf rules e).1 := by
  rw [Array.getD_eq_getD_getElem?,
    hresults.getElem?_results (ElementTree.mem_elements_iff.mp he)]
  rfl

theorem collect_eq (s : Settings) :
    collect s scan = scan.tree.elements.flatMap (findingsAt s rules) := by
  rw [collect, List.flatMap_def, List.flatMap_def]
  congr 1
  apply List.map_congr_left
  intro e he
  rw [getD_results hresults he, findingsOf_resultsOf]
  rfl

theorem findings_ofScan (source : String) (s : Settings) : (ofScan source scan s).findings =
    (sortOn Element.id scan.tree.elements).flatMap (findingsAt s rules) := by
  show sortOn Finding.elementId (collect s scan) = _
  rw [collect_eq hresults, sortOn_flatMap]
  exact fun e _ f hf => elementId_findingsAt hf

theorem mem_findings_ofScan : f ∈ (ofScan source scan s).findings ↔
    ∃ e ∈ scan.tree.elements, ∃ r ∈ rules, s.reports r.id = true ∧ r.findingOn? e = some f := by
  simp only [findings_ofScan hresults, List.mem_flatMap, (sortOn_perm _ _).mem_iff,
    mem_findingsAt_iff]

theorem status_ofScan_le_iff : (ofScan source scan s).status ≤ b ↔ ∀ e ∈ scan.tree.elements,
    ∀ r ∈ rules, s.reports r.id = true → ∀ f, r.findingOn? e = some f → f.status ≤ b := by
  show ScanStatus.aggregate ((ofScan source scan s).findings.map _) ≤ b ↔ _
  rw [ScanStatus.aggregate_le_iff, List.forall_mem_map]
  simp only [mem_findings_ofScan hresults]
  constructor
  · intro h e he r hr hs f hf
    exact h f ⟨e, he, r, hr, hs, hf⟩
  · rintro h f ⟨e, he, r, hr, hs, hf⟩
    exact h e he r hr hs f hf

theorem status_scan_le_iff : scan.status ≤ b ↔ ∀ e ∈ scan.tree.elements,
    ∀ r ∈ rules, ∀ f, r.findingOn? e = some f → f.status ≤ b := by
  rw [ScanTree.status, hresults, ScanStatus.aggregate_le_iff, List.map_map, List.forall_mem_map]
  simp only [Function.comp, status_resultsOf_le_iff]

end Results

/-- Where no two elements and no two rules share an identifier, no two findings are of the same
rule on the same element. -/
theorem nodup_findings {es : List Element} (hes : es.Pairwise fun e f => e.id < f.id)
    (hrules : rules.Pairwise fun q r => q.id ≠ r.id) (s : Settings) :
    ((es.flatMap (findingsAt s rules)).map fun f => (f.elementId, f.ruleId)).Nodup := by
  rw [List.Nodup, List.pairwise_map, List.pairwise_flatMap]
  constructor
  · intro e _
    exact (pairwise_findingsAt hrules s e).imp fun hne heq => hne (Prod.ext_iff.mp heq).2
  · refine hes.imp fun {e e'} hlt f hf g hg heq => ?_
    have hid : f.elementId = g.elementId := (Prod.ext_iff.mp heq).1
    rw [elementId_findingsAt hf, elementId_findingsAt hg] at hid
    omega

end Report

/-! ## Walks -/

namespace Report

variable {H : Type} [DecidableEq H] {w after : Walker H} {runner : Runner} {order : Schedule}
  {selected : H} {scan : ScanTree} {journal : Journal} {rs : List Registration} {g : Registry}

/-- The report of a walk in test mode loses and invents nothing. -/
theorem exact_ofScan (hg : Registry.ofList rs = .ok g) (hid : ∀ r ∈ rs, r.rule.id = r.id)
    (hp : runner.provider.Reached g) (hr : w.runner = some runner) (hm : w.options.mode = .test)
    (hs : order.Fair) (h : w.walkUnder order selected = (.ok scan, after, journal))
    (source : String) (s : Settings) :
    (ofScan source scan s).Exact scan (rs.map Registration.rule) s := by
  obtain ⟨rfl, -, hnodup⟩ := Registry.ofList_eq_ok_iff.mp hg
  have hdistinct : (Registry.of rs).Distinct := hnodup
  have hresults := Walker.evaluatedBy_walkUnder hdistinct hp hm hr hs h
  have hnumbered := Walker.numbered_walkUnder (Walker.runnerNeeded_test hm hr) h
  have hrules : (rs.map Registration.rule).Pairwise fun q r => q.id ≠ r.id := by
    rw [List.pairwise_map]
    refine (List.pairwise_map.mp hnodup).imp_of_mem fun {q r} hq hr hne => ?_
    rwa [hid q hq, hid r hr]
  have hsorted : (sortOn Element.id scan.tree.elements).Pairwise fun e f => e.id < f.id := by
    have hne := hnumbered.pairwise_elements.perm (sortOn_perm Element.id _).symm fun h => h.symm
    exact (pairwise_sortOn Element.id _).imp₂ (fun e f hle hne => by omega) hne
  have hfindings := findings_ofScan hresults source s
  obtain ⟨hle, hmem, hnil⟩ := status_ofScan source scan s
  refine
    { findings := ⟨_, sortOn_perm _ _, hsorted, hfindings⟩
      nodup := hfindings ▸ nodup_findings hsorted hrules s
      status_ne := ?_
      le_status := hle
      status_mem := hmem
      status_nil := hnil
      le_scan := ?_
      eq_scan := ?_ }
  · intro f hf
    obtain ⟨e, -, r, -, -, hfound⟩ := (mem_findings_ofScan hresults).mp hf
    exact (Rule.findingOn?_eq_some hfound).2.2
  · rw [status_ofScan_le_iff hresults]
    intro e he r hr _
    exact (status_scan_le_iff hresults).mp (ScanStatus.le_refl _) e he r hr
  · intro hall
    apply ScanStatus.eq_of_forall_le_iff
    intro b
    rw [status_ofScan_le_iff hresults, status_scan_le_iff hresults]
    constructor
    · exact fun h e he r hr => h e he r hr (hall r hr)
    · exact fun h e he r hr _ => h e he r hr

/-- A rule that panics on every element, and one that applies to the element walked from only. -/
def mixedRegistrations : List Registration :=
  [⟨⟨"panic", "Stops on every element", "Repair the rule", "none", .none⟩,
      fun m => .ofMetadata m none fun _ => .panicked (some "stopped")⟩,
   ⟨⟨"first", "Looks at the first element", "Nothing to do", "none", .name⟩,
      fun m => .ofMetadata m none fun e => .code (if e.index = 0 then .pass else .notApplicable)⟩]

/-- The walk in a loop of siblings, in test mode. -/
def loopingTest : Walker Int :=
  { Walker.looping with
    options := { mode := .test, parallel := false }
    runner := some { provider := .ofRegistry (.of mixedRegistrations) } }

theorem exact_ofScan_looping :
    ∃ scan after journal, loopingTest.walkUnder .inOrder 1 = (.ok scan, after, journal) ∧
      scan.tree.size = 4 ∧ scan.status = .notSupported ∧
      (ofScan "loop" scan {}).Exact scan (mixedRegistrations.map Registration.rule) {} := by
  have h : ∃ scan after journal, loopingTest.walkUnder .inOrder 1 = (.ok scan, after, journal) ∧
      scan.tree.size = 4 ∧ scan.status = .notSupported := ⟨_, _, _, rfl, rfl, rfl⟩
  obtain ⟨scan, after, journal, hw, hsize, hstatus⟩ := h
  exact ⟨scan, after, journal, hw, hsize, hstatus,
    exact_ofScan rfl (by decide) .fresh rfl rfl (fun n => ⟨.refl _, .refl _⟩) hw "loop" {}⟩

end Report

end UiConformance
