import UiConformance.Proofs.Providers

/-!
# Isolation of rules

What one rule makes of an element depends on that rule and the element. A body that fails or panics
is told of in the rule's own result and heard of exactly once; the results of the other rules are
what they would be with any other body in its place.
-/

namespace UiConformance

/-! ## One run -/

/-- The outcome of a body is a failure with this message. -/
inductive Outcome.FailsWith : Outcome → String → Prop
  | error (e : RuleError) : FailsWith (.error e) e.message
  | text (t : String) : FailsWith (.panicked (some t)) ("Rule panicked: " ++ t)
  | silent : FailsWith (.panicked none) "Rule panicked"

/-- The rule applies to the element and its body fails on it with this message. -/
def Rule.FailsOn (r : Rule) (e : Element) (message : String) : Prop :=
  r.appliesTo e = true ∧ (r.evaluate e).FailsWith message

/-- The failure that a result tells of. -/
def RunResult.failure? (x : RunResult) : Option RuleFailure :=
  x.errorMessage.map fun message => ⟨x.ruleId, x.elementId, message⟩

variable {o : Outcome} {r : Rule} {e : Element} {m : String}

theorem Outcome.complaint?_eq_some_iff : o.complaint? = some m ↔ o.FailsWith m := by
  constructor
  · intro h
    match o with
    | .code c => cases h
    | .error e =>
      obtain rfl := Option.some.inj h
      exact .error e
    | .panicked (some t) =>
      obtain rfl := Option.some.inj h
      exact .text t
    | .panicked none =>
      obtain rfl := Option.some.inj h
      exact .silent
  · intro h
    cases h <;> rfl

theorem Outcome.FailsWith.verdict (h : o.FailsWith m) : o.verdict = .ruleExecutionError := by
  cases h <;> rfl

namespace Rule

theorem run_of_applies (h : r.appliesTo e = true) : r.run e =
    (r.result e (r.evaluate e).verdict (r.evaluate e).complaint?,
      (r.evaluate e).complaint?.map fun message => ⟨r.id, e.id, message⟩) := if_pos h

theorem run_of_not_applies (h : r.appliesTo e = false) :
    r.run e = (r.result e .notApplicable none, none) :=
  if_neg (Bool.not_eq_true _ ▸ h)

/-- The result of a rule has a message exactly where its body failed. -/
theorem errorMessage_run_eq_some_iff : (r.run e).1.errorMessage = some m ↔ r.FailsOn e m := by
  unfold FailsOn
  cases ha : r.appliesTo e with
  | true =>
    rw [run_of_applies ha, ← Outcome.complaint?_eq_some_iff]
    exact (and_iff_right rfl).symm
  | false =>
    rw [run_of_not_applies ha]
    simp [result]

theorem code_run (h : r.FailsOn e m) : (r.run e).1.code = .ruleExecutionError := by
  rw [run_of_applies h.1]
  exact h.2.verdict

/-- What is heard of a rule is what its result tells of. -/
theorem run_snd (r : Rule) (e : Element) : (r.run e).2 = (r.run e).1.failure? := by
  cases ha : r.appliesTo e with
  | true => rw [run_of_applies ha]; rfl
  | false => rw [run_of_not_applies ha]; rfl

end Rule

/-! ## Replaced bodies -/

namespace Registration

def withBody (x : Registration) (body : Element → Outcome) : Registration :=
  { x with build := fun m => { x.build m with evaluate := body } }

variable {rs : List Registration} {i j : Nat} {body : Element → Outcome}

theorem run_withBody {x : Registration} (h : x.rule.appliesTo e = false) :
    (x.withBody body).rule.run e = x.rule.run e := by
  have hbody : (x.withBody body).rule.appliesTo e = false := h
  rw [Rule.run_of_not_applies h, Rule.run_of_not_applies hbody]
  rfl

theorem metadata_modify (rs : List Registration) (i : Nat) (body : Element → Outcome) :
    (rs.modify i (·.withBody body)).map metadata = rs.map metadata := by
  apply List.ext_getElem?
  intro j
  rw [List.getElem?_map, List.getElem?_map, List.getElem?_modify]
  cases rs[j]? with
  | none => simp
  | some x => by_cases hij : i = j <;> simp [hij, withBody]

/-- Whether registrations are valid is a matter of their metadata. -/
theorem ofList_modify (h : Registry.ofList rs = .ok (.of rs)) (i : Nat) (body : Element → Outcome) :
    Registry.ofList (rs.modify i (·.withBody body)) = .ok (.of (rs.modify i (·.withBody body))) := by
  have hmeta := metadata_modify rs i body
  obtain ⟨-, hcomplete, hdistinct⟩ := Registry.ofList_eq_ok_iff.mp h
  refine Registry.ofList_eq_ok_iff.mpr ⟨rfl, ?_, ?_⟩
  · have hall : ∀ d ∈ rs.map metadata, d.missing = [] := by
      intro d hd
      obtain ⟨x, hx, rfl⟩ := List.mem_map.mp hd
      exact hcomplete x hx
    intro x hx
    refine hall x.metadata ?_
    rw [← hmeta]
    exact List.mem_map_of_mem hx
  · have hids (l : List Registration) : l.map id = (l.map metadata).map RuleMetadata.id := by
      rw [List.map_map]
      rfl
    rw [hids, hmeta, ← hids]
    exact hdistinct

end Registration

/-! ## Reports -/

/-- The failure that is told of. -/
def Notice.failure? : Notice → Option RuleFailure
  | .ruleFailed f => some f
  | _ => none

/-- The failures that are told of, in that order. -/
def reported (notices : Array Notice) : List RuleFailure := notices.toList.filterMap Notice.failure?

@[simp] theorem reported_append (a b : Array Notice) :
    reported (a ++ b) = reported a ++ reported b := by
  rw [reported, Array.toList_append, List.filterMap_append]
  rfl

@[simp] theorem reported_ruleFailed (fs : List RuleFailure) :
    reported (fs.map Notice.ruleFailed).toArray = fs := by
  rw [reported, List.filterMap_map]
  exact List.filterMap_some

namespace Provider

variable (p : Provider)

/-- Building tells of no failure. -/
theorem reported_get (id : String) : reported (p.get id).2.2 = [] := by
  rcases p.get_cases id with ⟨_, -, -, he⟩ | ⟨-, he⟩ | ⟨_, -, -, he⟩ <;> rw [he] <;> rfl

theorem reported_getEach (ids : List String) : reported (getEach ids p).2.2 = [] := by
  induction ids generalizing p with
  | nil => rfl
  | cons id ids ih => rw [getEach_cons_notices, reported_append, reported_get, ih, List.nil_append]

theorem reported_all : reported p.all.2.2 = [] := by
  have hmaterialize : reported p.materializeAll.2 = [] := by
    unfold materializeAll
    split
    · rfl
    · show reported ((getEach p.registry.ids p).2.2.push _) = []
      rw [← Array.append_singleton, reported_append, reported_getEach]
      rfl
  show reported (p.materializeAll.2 ++ (getEach _ p.materializeAll.1).2.2) = []
  rw [reported_append, hmaterialize, reported_getEach, List.nil_append]

end Provider

/-- What a reporter receives of a run. -/
def RuleRun.received {α : Type} (run : RuleRun α) : Reporter → List RuleFailure
  | .notices => reported run.notices
  | .listener => run.heard

/-! ## Runners -/

namespace Runner

variable {q : Runner} {rs : List Registration}

/-- The reporter of the runner receives the failures, and the other one nothing. -/
theorem received_report {α : Type} {p : Provider} {built : Array Notice} {ran : List RuleInstance}
    {outcome : α} {failures : List RuleFailure} (hb : reported built = []) (x : Reporter) :
    (q.report p built ran outcome failures).received x =
      if x = q.reporter then failures else [] := by
  cases x <;> cases hq : q.reporter <;>
    simp [report, RuleRun.received, noticesOf, heardOf, hq, hb]

/-- One run is by the shared instance, or by none where there is no such rule. -/
theorem runOne_cases (q : Runner) (id : String) (e : Element) :
    (∃ i, (q.provider.get id).1 = some i ∧ q.runOne id e =
        q.report (q.provider.get id).2.1 (q.provider.get id).2.2 [i] (i.rule.run e).1
          (i.rule.run e).2.toList) ∨
      (q.provider.get id).1 = none ∧ q.runOne id e =
        q.report (q.provider.get id).2.1 (q.provider.get id).2.2 [] (.unregistered id e) [] := by
  unfold runOne
  match q.provider.get id with
  | (some i, _, _) => exact .inl ⟨i, rfl, rfl⟩
  | (none, _, _) => exact .inr ⟨rfl, rfl⟩

theorem after_runOne (q : Runner) (id : String) (e : Element) :
    (q.runOne id e).after = { q with provider := (q.provider.get id).2.1 } := by
  rcases q.runOne_cases id e with ⟨i, -, he⟩ | ⟨-, he⟩ <;> rw [he] <;> rfl

theorem received_runOne (q : Runner) (id : String) (e : Element) (x : Reporter) :
    (q.runOne id e).received x = if x = q.reporter then (q.runOne id e).failures else [] := by
  rcases q.runOne_cases id e with ⟨i, -, he⟩ | ⟨-, he⟩ <;>
    rw [he, received_report (q.provider.reported_get id)] <;> rfl

theorem received_runEvery (q : Runner) (e : Element) (x : Reporter) :
    (q.runEvery e).received x = if x = q.reporter then (q.runEvery e).failures else [] :=
  received_report q.provider.reported_all x

/-- One run gives the result and the failure of the rule with the identifier. -/
theorem Runs.runRule_cases (h : q.Runs rs) (id : String) (e : Element) :
    (∃ x ∈ rs, x.id = id ∧ (q.runRule id e).1 = (x.rule.run e).1 ∧
        (q.runRule id e).2.1 = (x.rule.run e).2.toList) ∨
      id ∉ rs.map Registration.id ∧ (q.runRule id e).1 = .unregistered id e ∧
        (q.runRule id e).2.1 = [] := by
  have hrule := (h.reached.sound.get id).2
  unfold runRule
  rcases q.runOne_cases id e with ⟨i, hi, he⟩ | ⟨hi, he⟩ <;> rw [he]
  · rw [hi] at hrule
    obtain ⟨x, hx, hxi⟩ := Option.map_eq_some_iff.mp hrule.symm
    obtain ⟨hmem, hid⟩ := Registry.registration?_eq_some hx
    refine .inl ⟨x, hmem, hid, ?_, ?_⟩ <;> rw [hxi] <;> rfl
  · rw [hi] at hrule
    have hnone := Registry.registration?_eq_none_iff.mp (Option.map_eq_none_iff.mp hrule.symm)
    exact .inr ⟨hnone, rfl, rfl⟩

theorem Runs.runRule_eq (h : q.Runs rs) {x : Registration} (hx : x ∈ rs) (e : Element) :
    (q.runRule x.id e).1 = (x.rule.run e).1 ∧
      (q.runRule x.id e).2.1 = (x.rule.run e).2.toList := by
  rcases h.runRule_cases x.id e with ⟨y, hy, hid, hresult, hfailure⟩ | ⟨hnot, -⟩
  · obtain rfl := List.inj_on_of_nodup_map h.distinct hy hx hid
    exact ⟨hresult, hfailure⟩
  · exact absurd (List.mem_map_of_mem hx) hnot

theorem Runs.runAll_eq (h : q.Runs rs) (e : Element) :
    (q.runAll e).1 = rs.map (fun x => (x.rule.run e).1) ∧
      (q.runAll e).2.1 = rs.filterMap fun x => (x.rule.run e).2 := by
  have hrules := (h.reached.sound.allRules h.distinct).2
  have hruns : (q.runAll e).1 = (runEach q.provider.allRules.1 e).1 ∧
      (q.runAll e).2.1 = (runEach q.provider.allRules.1 e).2 := ⟨rfl, rfl⟩
  rw [hruns.1, hruns.2, hrules]
  simp only [runEach, List.map_map, List.filterMap_map]
  exact ⟨rfl, rfl⟩

theorem Runs.runAll (h : q.Runs rs) (e : Element) : (q.runAll e).2.2.Runs rs :=
  ⟨h.valid, h.reached.allRules⟩

theorem Runs.runRule (h : q.Runs rs) (id : String) (e : Element) :
    (q.runRule id e).2.2.Runs rs := by
  show (q.runOne id e).after.Runs rs
  rw [after_runOne]
  exact ⟨h.valid, .get id h.reached⟩

/-- Rules that fail are told of in their own results and nowhere else. -/
structure Isolates (q : Runner) (rs : List Registration) (e : Element) : Prop where
  /-- There is one result for each registration, which any runner of them gives by itself. -/
  results : ∀ q' : Runner, q'.Runs rs → (q.runAll e).1 = rs.map fun x => (q'.runRule x.id e).1
  /-- Any other body may be in the place of one. -/
  replaceable : ∀ i body,
    Registry.ofList (rs.modify i (·.withBody body)) = .ok (.of (rs.modify i (·.withBody body)))
  /-- Then the results of all other rules are the same. -/
  replaced : ∀ i body (q' : Runner), q'.Runs (rs.modify i (·.withBody body)) →
    (∀ j ≠ i, (q'.runAll e).1[j]? = (q.runAll e).1[j]?) ∧
      ∀ id, (∀ x, rs[i]? = some x → x.id ≠ id) → (q'.runRule id e).1 = (q.runRule id e).1
  /-- The body of a rule that does not apply is not run: any other gives the same. -/
  skipped : ∀ i x body, rs[i]? = some x → x.rule.appliesTo e = false →
    ∀ q' : Runner, q'.Runs (rs.modify i (·.withBody body)) →
      (q'.runAll e).1 = (q.runAll e).1 ∧ (q'.runAll e).2.1 = (q.runAll e).2.1
  /-- A result is an execution error with a message where the body failed with it, or where there
  is no such rule. -/
  message : ∀ id m, ((q.runRule id e).1.code = .ruleExecutionError ∧
      (q.runRule id e).1.errorMessage = some m) ↔
    (∃ x ∈ rs, x.id = id ∧ x.rule.FailsOn e m) ∨
      id ∉ rs.map Registration.id ∧ m = s!"Rule '{id}' is not registered"
  code : ∀ id m, (q.runRule id e).1.errorMessage = some m →
    (q.runRule id e).1.code = .ruleExecutionError
  /-- The failures that are heard of are those that the results tell of, in their order. -/
  heard : (q.runAll e).2.1 = (q.runAll e).1.filterMap RunResult.failure?
  heardRule : ∀ id, (q.runRule id e).2.1 =
    if id ∈ rs.map Registration.id then (q.runRule id e).1.failure?.toList else []
  /-- The reporter of the runner receives each of them once, and the other one nothing. -/
  received : ∀ x, (q.runEvery e).received x =
    if x = q.reporter then (q.runAll e).1.filterMap RunResult.failure? else []
  receivedRule : ∀ id x, (q.runOne id e).received x =
    if x = q.reporter ∧ id ∈ rs.map Registration.id then (q.runRule id e).1.failure?.toList else []
  /-- After a run the runner is one of the same registrations. -/
  kept : (q.runAll e).2.2.Runs rs ∧ ∀ id, (q.runRule id e).2.2.Runs rs

namespace Runs

theorem getElem?_runAll (h : q.Runs rs) (e : Element) (j : Nat) :
    (q.runAll e).1[j]? = rs[j]?.map fun x => (x.rule.run e).1 := by
  rw [(h.runAll_eq e).1, List.getElem?_map]

theorem errorMessage_runRule_iff (h : q.Runs rs) (id : String) (e : Element) (m : String) :
    (q.runRule id e).1.errorMessage = some m ↔ (∃ x ∈ rs, x.id = id ∧ x.rule.FailsOn e m) ∨
      id ∉ rs.map Registration.id ∧ m = s!"Rule '{id}' is not registered" := by
  rcases h.runRule_cases id e with ⟨x, hx, rfl, hresult, -⟩ | ⟨hnot, hresult, -⟩
  · rw [hresult, Rule.errorMessage_run_eq_some_iff]
    constructor
    · exact fun hfails => .inl ⟨x, hx, rfl, hfails⟩
    · rintro (⟨y, hy, hid, hfails⟩ | ⟨hnot, -⟩)
      · obtain rfl := List.inj_on_of_nodup_map h.distinct hy hx hid
        exact hfails
      · exact absurd (List.mem_map_of_mem hx) hnot
  · rw [hresult]
    constructor
    · intro hm
      obtain rfl := Option.some.inj hm
      exact .inr ⟨hnot, rfl⟩
    · rintro (⟨x, hx, rfl, -⟩ | ⟨-, rfl⟩)
      · exact absurd (List.mem_map_of_mem hx) hnot
      · rfl

theorem code_runRule (h : q.Runs rs) {id : String} (hm : (q.runRule id e).1.errorMessage = some m) :
    (q.runRule id e).1.code = .ruleExecutionError := by
  rcases h.runRule_cases id e with ⟨x, hx, rfl, hresult, -⟩ | ⟨hnot, hresult, -⟩
  · rw [hresult] at hm ⊢
    exact Rule.code_run (Rule.errorMessage_run_eq_some_iff.mp hm)
  · rw [hresult]
    rfl

theorem heard_runAll (h : q.Runs rs) (e : Element) :
    (q.runAll e).2.1 = (q.runAll e).1.filterMap RunResult.failure? := by
  rw [(h.runAll_eq e).1, (h.runAll_eq e).2, List.filterMap_map]
  exact List.filterMap_congr fun x _ => Rule.run_snd x.rule e

theorem heard_runRule (h : q.Runs rs) (id : String) (e : Element) : (q.runRule id e).2.1 =
    if id ∈ rs.map Registration.id then (q.runRule id e).1.failure?.toList else [] := by
  rcases h.runRule_cases id e with ⟨x, hx, rfl, hresult, hfailure⟩ | ⟨hnot, -, hfailure⟩
  · rw [if_pos (List.mem_map_of_mem hx), hresult, hfailure, Rule.run_snd]
  · rw [if_neg hnot, hfailure]

theorem runRule_withBody (h : q.Runs rs) {i : Nat} {body : Element → Outcome} {q' : Runner}
    (h' : q'.Runs (rs.modify i (·.withBody body))) {id : String}
    (hid : ∀ x, rs[i]? = some x → x.id ≠ id) (e : Element) :
    (q'.runRule id e).1 = (q.runRule id e).1 := by
  have hids : (rs.modify i (·.withBody body)).map Registration.id = rs.map Registration.id := by
    have hmeta := Registration.metadata_modify rs i body
    have hfields := congrArg (List.map RuleMetadata.id) hmeta
    rwa [List.map_map, List.map_map] at hfields
  rcases h'.runRule_cases id e with ⟨x, hx, hxid, hresult, -⟩ | ⟨hnot, hresult, -⟩
  · obtain ⟨j, hj⟩ := List.mem_iff_getElem?.mp hx
    have hold : rs[j]? = some x := by
      by_cases hij : i = j
      · subst hij
        rw [List.getElem?_modify_eq] at hj
        obtain ⟨y, hy, rfl⟩ := Option.map_eq_some_iff.mp hj
        exact absurd hxid (hid y hy)
      · rwa [List.getElem?_modify_ne _ _ hij] at hj
    have hmem := List.mem_of_getElem? hold
    subst hxid
    rw [hresult, (h.runRule_eq hmem e).1]
  · rcases h.runRule_cases id e with ⟨y, hy, rfl, -, -⟩ | ⟨-, hresult', -⟩
    · rw [hids] at hnot
      exact absurd (List.mem_map_of_mem hy) hnot
    · rw [hresult, hresult']

theorem isolates (h : q.Runs rs) (e : Element) : q.Isolates rs e where
  results q' h' := by
    rw [(h.runAll_eq e).1]
    exact List.map_congr_left fun x hx => (h'.runRule_eq hx e).1.symm
  replaceable := Registration.ofList_modify h.valid
  replaced i body q' h' := by
    refine ⟨fun j hj => ?_, fun id hid => h.runRule_withBody h' hid e⟩
    rw [h'.getElem?_runAll, h.getElem?_runAll, List.getElem?_modify_ne _ _ (Ne.symm hj)]
  skipped i x body hx hskip q' h' := by
    have hsame : (rs.modify i (·.withBody body)).map (fun y => y.rule.run e) =
        rs.map fun y => y.rule.run e := by
      apply List.ext_getElem?
      intro j
      rw [List.getElem?_map, List.getElem?_map]
      by_cases hij : i = j
      · subst hij
        rw [List.getElem?_modify_eq, hx]
        exact congrArg some (Registration.run_withBody hskip)
      · rw [List.getElem?_modify_ne _ _ hij]
    constructor
    · have hfirst := congrArg (List.map Prod.fst) hsame
      rw [List.map_map, List.map_map] at hfirst
      rw [(h'.runAll_eq e).1, (h.runAll_eq e).1]
      exact hfirst
    · have hsecond := congrArg (List.filterMap Prod.snd) hsame
      rw [List.filterMap_map, List.filterMap_map] at hsecond
      rw [(h'.runAll_eq e).2, (h.runAll_eq e).2]
      exact hsecond
  message id m := by
    rw [← h.errorMessage_runRule_iff id e m]
    exact and_iff_right_of_imp h.code_runRule
  code _ _ hm := h.code_runRule hm
  heard := h.heard_runAll e
  heardRule id := h.heard_runRule id e
  received x := by
    rw [received_runEvery, ← h.heard_runAll e]
    rfl
  receivedRule id x := by
    have hfailures : (q.runOne id e).failures = _ := h.heard_runRule id e
    rw [received_runOne, hfailures, ite_and]
  kept := ⟨h.runAll e, fun id => h.runRule id e⟩

end Runs

/-- Rules that end in every way there is, one of them with the code of a failure. -/
def frailRegistrations : List Registration :=
  [⟨⟨"breaks", "Ends with an error", "Repair the rule", "none", .none⟩,
      fun m => .ofMetadata m none fun _ => .error (.failed "broken")⟩,
   ⟨⟨"passes", "Ends with a pass", "Nothing to do", "none", .name⟩,
      fun m => .ofMetadata m none fun _ => .code .pass⟩,
   ⟨⟨"stops", "Panics with a text", "Repair the rule", "none", .none⟩,
      fun m => .ofMetadata m none fun _ => .panicked (some "stopped")⟩,
   ⟨⟨"sleeps", "Applies to hyperlinks", "Nothing to do", "none", .none⟩,
      fun m => .ofMetadata m (some (.controlTypeIs .hyperlink)) fun _ => .panicked none⟩,
   ⟨⟨"owns up", "Gives the code of a failure", "Nothing to do", "none", .none⟩,
      fun m => .ofMetadata m none fun _ => .code .ruleExecutionError⟩,
   ⟨⟨"vanishes", "Panics without a text", "Repair the rule", "none", .none⟩,
      fun m => .ofMetadata m none fun _ => .panicked none⟩]

theorem isolates_frail :
    let e : Element := ⟨⟨#[{ id := 0 }]⟩, 0, by decide⟩
    let q : Runner := { provider := .ofRegistry (.of frailRegistrations) }
    q.Isolates frailRegistrations e ∧ (q.runAll e).2.1 =
      [⟨"breaks", 0, "broken"⟩, ⟨"stops", 0, "Rule panicked: stopped"⟩,
        ⟨"vanishes", 0, "Rule panicked"⟩] :=
  ⟨Runs.isolates ⟨rfl, .fresh⟩ _, by decide⟩

end Runner

end UiConformance
