import UiConformance.Proofs.Isolation

/-!
# Sharing of rules

A provider and its runner may be asked for single rules, for all of them, or to run them, any number
of times. What they built after a history of such requests is settled by the identifiers that were
asked for: `Provider.Holds` says so of the instances and of what was told, each request keeps it, and
the instances that were ever handed out are among those that the provider still has.
-/

namespace UiConformance

/-- The rule whose construction is told of. -/
def Notice.built? : Notice → Option String
  | .constructing id => some id
  | _ => none

/-- The rules whose construction is told of, in that order. -/
def constructions (notices : Array Notice) : List String := notices.toList.filterMap Notice.built?

@[simp] theorem constructions_empty : constructions #[] = [] := rfl

@[simp] theorem constructions_append (a b : Array Notice) :
    constructions (a ++ b) = constructions a ++ constructions b := by
  rw [constructions, Array.toList_append, List.filterMap_append]
  rfl

@[simp] theorem constructions_noticesOf (q : Runner) (fs : List RuleFailure) :
    constructions (q.noticesOf fs) = [] := by
  unfold Runner.noticesOf
  cases q.reporter with
  | notices => simp [constructions, List.filterMap_map, Function.comp_def, Notice.built?]
  | listener => rfl

@[simp] theorem constructions_push_materialized (a : Array Notice) (n : Nat) :
    constructions (a.push (.materialized n)) = constructions a := by
  rw [constructions, Array.toList_push, List.filterMap_append]
  exact List.append_nil _

/-! ## Instances -/

namespace Provider

/-- The identifiers of what was built, in that order. -/
def keys (p : Provider) : List String := p.instances.map (·.key)

/-- The instances behind all rules. -/
def allInstances (p : Provider) : List RuleInstance := p.all.1

variable {g : Registry} {p : Provider} {id : String} {i : RuleInstance}

theorem prefix_instances_get (p : Provider) (id : String) :
    p.instances <+: (p.get id).2.1.instances := by
  rcases p.get_cases id with ⟨i, -, -, he⟩ | ⟨-, he⟩ | ⟨r, -, -, he⟩
  · simp [he]
  · simp [he]
  · rw [he]
    exact List.prefix_append _ _

theorem prefix_instances_getEach (ids : List String) (p : Provider) :
    p.instances <+: (getEach ids p).2.1.instances := by
  induction ids generalizing p with
  | nil => exact List.prefix_rfl
  | cons id ids ih => exact (p.prefix_instances_get id).trans (ih _)

theorem prefix_instances_materializeAll (p : Provider) :
    p.instances <+: p.materializeAll.1.instances := by
  unfold materializeAll
  split
  · exact List.prefix_rfl
  · exact prefix_instances_getEach p.registry.ids p

theorem prefix_instances_allRules (p : Provider) : p.instances <+: p.allRules.2.1.instances :=
  p.prefix_instances_materializeAll.trans (prefix_instances_getEach _ _)

/-- What is handed out is kept under its identifier. -/
theorem mem_instances_get (h : (p.get id).1 = some i) :
    i ∈ (p.get id).2.1.instances ∧ i.key = id := by
  rcases p.get_cases id with ⟨j, hj, rfl, he⟩ | ⟨-, he⟩ | ⟨r, -, -, he⟩
  · rw [he] at h ⊢
    obtain rfl := Option.some.inj h
    exact ⟨hj, rfl⟩
  · rw [he] at h
    cases h
  · rw [he] at h ⊢
    obtain rfl := Option.some.inj h
    exact ⟨List.mem_append_right _ List.mem_cons_self, rfl⟩

theorem mem_instances_getEach {ids : List String} (h : i ∈ (getEach ids p).1) :
    i ∈ (getEach ids p).2.1.instances := by
  induction ids generalizing p with
  | nil => cases h
  | cons id ids ih =>
    obtain ⟨he, hp⟩ := getEach_cons id ids p
    rw [he] at h
    rw [hp]
    rcases List.mem_append.mp h with hi | hi
    · exact (prefix_instances_getEach ids _).subset
        (mem_instances_get (Option.mem_toList.mp hi)).1
    · exact ih hi

theorem mem_instances_allInstances (h : i ∈ p.allInstances) : i ∈ p.allRules.2.1.instances :=
  mem_instances_getEach h

/-! ## What was built -/

/-- Asked for these identifiers, the provider has built the registered ones among them, each once,
and told of it. -/
structure Holds (g : Registry) (asked : String → Bool) (log : List String) (p : Provider) :
    Prop where
  sound : p.Sound g
  numbered : p.instances.map (·.serial) = List.range p.instances.length
  distinct : p.keys.Nodup
  mem_keys : ∀ id, id ∈ p.keys ↔ id ∈ g.ids ∧ asked id = true
  complete : p.materialized = true → ∀ id ∈ g.ids, asked id = true
  logged : log = p.keys

theorem holds_ofRegistry (g : Registry) : (ofRegistry g).Holds g (fun _ => false) [] where
  sound := Reached.fresh.sound
  numbered := rfl
  distinct := List.nodup_nil
  mem_keys _ := by simp [keys, ofRegistry]
  complete h := by cases h
  logged := rfl

namespace Holds

variable {asked asked' : String → Bool} {log : List String}

/-- Only registered identifiers count. -/
theorem congr (h : p.Holds g asked log) (heq : ∀ id ∈ g.ids, asked id = asked' id) :
    p.Holds g asked' log where
  sound := h.sound
  numbered := h.numbered
  distinct := h.distinct
  mem_keys id := by
    rw [h.mem_keys]
    exact and_congr_right fun hid => by rw [heq id hid]
  complete hm id hid := heq id hid ▸ h.complete hm id hid
  logged := h.logged

/-- One request builds its rule, unless it was asked for before or is not registered. -/
theorem get (h : p.Holds g asked log) (id : String) :
    (p.get id).2.1.Holds g (fun j => asked j || id == j)
      (log ++ constructions (p.get id).2.2) := by
  have hsound := (h.sound.get id).1
  rcases p.get_cases id with ⟨i, hi, rfl, he⟩ | ⟨hr, he⟩ | ⟨r, hr, hnew, he⟩
  · have hkey := ((h.mem_keys i.key).mp (List.mem_map_of_mem hi)).2
    rw [he, constructions_empty, List.append_nil]
    refine h.congr fun j _ => ?_
    by_cases hj : i.key = j
    · rw [← hj, hkey, Bool.true_or]
    · rw [beq_false_of_ne hj, Bool.or_false]
  · rw [h.sound.registry, Registry.registration?_eq_none_iff] at hr
    rw [he, constructions_empty, List.append_nil]
    refine h.congr fun j hj => ?_
    rw [beq_false_of_ne (ne_of_mem_of_not_mem hj hr).symm, Bool.or_false]
  · have hid : id ∈ g.ids := by
      rw [← Registry.registration?_isSome_iff, ← h.sound.registry, hr]
      rfl
    have hnot : id ∉ p.keys := fun hmem => by
      obtain ⟨i, hi, hkey⟩ := List.mem_map.mp hmem
      exact hnew i hi hkey
    have hkeys : (p.get id).2.1.keys = p.keys ++ [id] := by
      rw [he]
      exact List.map_append
    refine
      { sound := hsound
        numbered := ?_
        distinct := ?_
        mem_keys := fun j => ?_
        complete := fun hm j hj => ?_
        logged := ?_ }
    · rw [he, List.map_append, h.numbered, List.length_append]
      exact List.range_succ.symm
    · rw [hkeys, ← List.concat_eq_append, List.nodup_concat]
      exact ⟨hnot, h.distinct⟩
    · rw [hkeys, List.mem_append, h.mem_keys, List.mem_singleton, Bool.or_eq_true, beq_iff_eq]
      constructor
      · rintro (⟨hj, ha⟩ | rfl)
        · exact ⟨hj, .inl ha⟩
        · exact ⟨hid, .inr rfl⟩
      · rintro ⟨hj, ha | rfl⟩
        · exact .inl ⟨hj, ha⟩
        · exact .inr rfl
    · rw [he] at hm
      rw [h.complete hm j hj, Bool.true_or]
    · rw [hkeys, h.logged, he]
      rfl

theorem getEach (h : p.Holds g asked log) (ids : List String) :
    (Provider.getEach ids p).2.1.Holds g (fun j => asked j || ids.contains j)
      (log ++ constructions (Provider.getEach ids p).2.2) := by
  induction ids generalizing p asked log with
  | nil =>
    rw [Provider.getEach, constructions_empty, List.append_nil]
    exact h.congr fun j _ => (Bool.or_false _).symm
  | cons id ids ih =>
    rw [(getEach_cons id ids p).2, getEach_cons_notices, constructions_append, ← List.append_assoc]
    refine (ih (h.get id)).congr fun j _ => ?_
    rw [List.contains_cons, Bool.or_assoc, Bool.beq_comm]

theorem materializeAll (h : p.Holds g asked log) :
    p.materializeAll.1.Holds g (fun _ => true) (log ++ constructions p.materializeAll.2) := by
  unfold Provider.materializeAll
  split
  case isTrue hm =>
    rw [constructions_empty, List.append_nil]
    exact h.congr (h.complete hm)
  case isFalse =>
    have hall : (Provider.getEach p.registry.ids p).2.1.Holds g (fun _ => true)
        (log ++ constructions (Provider.getEach p.registry.ids p).2.2) :=
      (h.getEach p.registry.ids).congr fun id hid => by
        rw [h.sound.registry, List.contains_iff_mem.mpr hid, Bool.or_true]
    exact
      { sound := ⟨hall.sound.registry, hall.sound.built⟩
        numbered := hall.numbered
        distinct := hall.distinct
        mem_keys := hall.mem_keys
        complete := fun _ _ _ => rfl
        logged := by
          rw [constructions_push_materialized]
          exact hall.logged }

theorem allRules (h : p.Holds g asked log) :
    p.allRules.2.1.Holds g (fun _ => true) (log ++ constructions p.allRules.2.2) := by
  have hall := h.materializeAll.getEach p.materializeAll.1.registry.ids
  rw [List.append_assoc, ← constructions_append] at hall
  exact hall.congr fun _ _ => Bool.true_or _

theorem count_keys (h : p.Holds g asked log) (hid : id ∈ g.ids) :
    p.keys.count id = if asked id = true then 1 else 0 := by
  rw [h.distinct.count]
  simp only [h.mem_keys, hid, true_and]

theorem timesBuilt_eq (h : p.Holds g asked log) (hid : id ∈ g.ids) :
    p.timesBuilt id = if asked id = true then 1 else 0 := by
  rw [← h.count_keys hid, timesBuilt, keys, List.count, List.countP_map]
  rfl

theorem constructed_eq (h : p.Holds g asked log) (hg : g.Distinct) :
    p.constructed = g.registrations.countP fun x => asked x.id := by
  have hperm : p.keys.Perm (g.ids.filter asked) := by
    refine (List.perm_ext_iff_of_nodup h.distinct (List.Nodup.filter asked hg)).mpr fun id => ?_
    rw [h.mem_keys, List.mem_filter]
    rfl
  have hlength := hperm.length_eq
  rw [keys, List.length_map, ← List.countP_eq_length_filter, Registry.ids, List.countP_map] at hlength
  exact hlength

/-- An instance that is there is the answer to every request for its identifier. -/
theorem get_eq_of_mem (h : p.Holds g asked log) (hi : i ∈ p.instances) :
    p.get i.key = (some i, p, #[]) := by
  rcases p.get_cases i.key with ⟨j, hj, hkey, he⟩ | ⟨hr, he⟩ | ⟨r, -, hnew, -⟩
  · rw [he, List.inj_on_of_nodup_map h.distinct hj hi hkey]
  · have hmem := ((h.mem_keys i.key).mp (List.mem_map_of_mem hi)).1
    rw [h.sound.registry, Registry.registration?_eq_none_iff] at hr
    exact absurd hmem hr
  · exact absurd rfl (hnew i hi)

theorem get_eq_of_not_mem (h : p.Holds g asked log) (hid : id ∉ g.ids) :
    p.get id = (none, p, #[]) := by
  rcases p.get_cases id with ⟨i, hi, rfl, -⟩ | ⟨-, he⟩ | ⟨r, hr, -, -⟩
  · exact absurd ((h.mem_keys i.key).mp (List.mem_map_of_mem hi)).1 hid
  · exact he
  · rw [← Registry.registration?_eq_none_iff, ← h.sound.registry, hr] at hid
    cases hid

theorem eq_of_serial_eq (h : p.Holds g asked log) {j : RuleInstance} (hi : i ∈ p.instances)
    (hj : j ∈ p.instances) (heq : i.serial = j.serial) : i = j := by
  have hnodup : (p.instances.map (·.serial)).Nodup := by
    rw [h.numbered]
    exact List.nodup_range
  exact List.inj_on_of_nodup_map hnodup hi hj heq

end Holds

/-- A registered rule is handed out under its identifier. -/
theorem Sound.exists_get (h : p.Sound g) (hg : g.Distinct) {x : Registration}
    (hx : x ∈ g.registrations) :
    ∃ i, (p.get x.id).1 = some i ∧ i.key = x.id ∧ i.rule = x.rule := by
  have hrule := (h.get x.id).2
  rw [Registry.registration?_id hg hx] at hrule
  obtain ⟨i, hi, hir⟩ := Option.map_eq_some_iff.mp hrule
  exact ⟨i, hi, (mem_instances_get hi).2, hir⟩

theorem Sound.map_getEach (h : p.Sound g) (hg : g.Distinct) {xs : List Registration}
    (hxs : ∀ x ∈ xs, x ∈ g.registrations) :
    (Provider.getEach (xs.map Registration.id) p).1.map (fun i => (i.key, i.rule)) =
      xs.map fun x => (x.id, x.rule) := by
  induction xs generalizing p with
  | nil => rfl
  | cons x xs ih =>
    rw [List.forall_mem_cons] at hxs
    obtain ⟨i, hi, hkey, hrule⟩ := h.exists_get hg hxs.1
    rw [List.map_cons, (getEach_cons _ _ p).1, hi, List.map_append, ih (h.get x.id).1 hxs.2,
      List.map_cons, ← hkey, ← hrule]
    rfl

/-- All instances are those of the registrations in their order. -/
theorem Sound.map_allInstances (h : p.Sound g) (hg : g.Distinct) :
    p.allInstances.map (fun i => (i.key, i.rule)) =
      g.registrations.map fun x => (x.id, x.rule) := by
  show (Provider.getEach p.materializeAll.1.registry.ids p.materializeAll.1).1.map _ = _
  rw [h.materializeAll.registry]
  exact h.materializeAll.map_getEach hg fun _ hx => hx

end Provider

/-! ## Histories -/

namespace Runner

inductive Request
  | get (id : String)
  | materializeAll
  | allRules
  | runRule (id : String) (e : Element)
  | runAll (e : Element)

/-- Whether the request needs the rule. -/
def Request.asksFor (id : String) : Request → Bool
  | .get j | .runRule j _ => j == id
  | .materializeAll | .allRules | .runAll _ => true

/-- The instances that a request hands out or runs, with the runner after it and what is told. -/
def serve (q : Runner) : Request → List RuleInstance × Runner × Array Notice
  | .get id =>
    let (i, p, notices) := q.provider.get id
    (i.toList, { q with provider := p }, notices)
  | .materializeAll =>
    let (p, notices) := q.provider.materializeAll
    ([], { q with provider := p }, notices)
  | .allRules =>
    let (is, p, notices) := q.provider.all
    (is, { q with provider := p }, notices)
  | .runRule id e =>
    let run := q.runOne id e
    (run.ran, run.after, run.notices)
  | .runAll e =>
    let run := q.runEvery e
    (run.ran, run.after, run.notices)

/-- A history of requests, with all that was handed out or run and all that was told. -/
def serveEach (q : Runner) : List Request → List RuleInstance × Runner × Array Notice
  | [] => ([], q, #[])
  | r :: rs =>
    let (is, q, notices) := q.serve r
    let (js, q, more) := q.serveEach rs
    (is ++ js, q, notices ++ more)

def handedOut (q : Runner) (rs : List Request) : List RuleInstance := (q.serveEach rs).1

def after (q : Runner) (rs : List Request) : Runner := (q.serveEach rs).2.1

def told (q : Runner) (rs : List Request) : Array Notice := (q.serveEach rs).2.2

variable {g : Registry} {q : Runner} {asked : String → Bool} {log : List String}

theorem constructions_report {α : Type} (q : Runner) (p : Provider) (built : Array Notice)
    (ran : List RuleInstance) (outcome : α) (fs : List RuleFailure) :
    constructions (q.report p built ran outcome fs).notices = constructions built := by
  show constructions (built ++ q.noticesOf fs) = _
  rw [constructions_append, constructions_noticesOf, List.append_nil]

/-- A run of one rule builds what a request for it builds. -/
theorem constructions_runOne (q : Runner) (id : String) (e : Element) :
    constructions (q.runOne id e).notices = constructions (q.provider.get id).2.2 := by
  rcases q.runOne_cases id e with ⟨i, -, he⟩ | ⟨-, he⟩ <;> rw [he, constructions_report]

theorem ran_runOne (q : Runner) (id : String) (e : Element) :
    (q.runOne id e).ran = (q.provider.get id).1.toList := by
  rcases q.runOne_cases id e with ⟨i, hi, he⟩ | ⟨hi, he⟩ <;> rw [he, hi] <;> rfl

theorem constructions_runEvery (q : Runner) (e : Element) :
    constructions (q.runEvery e).notices = constructions q.provider.allRules.2.2 :=
  q.constructions_report _ _ _ _ _

theorem holds_serve (h : q.provider.Holds g asked log) (r : Request) :
    (q.serve r).2.1.provider.Holds g (fun j => asked j || r.asksFor j)
      (log ++ constructions (q.serve r).2.2) := by
  cases r with
  | get id => exact h.get id
  | materializeAll => exact h.materializeAll.congr fun _ _ => (Bool.or_true _).symm
  | allRules => exact h.allRules.congr fun _ _ => (Bool.or_true _).symm
  | runRule id e =>
    rw [serve, constructions_runOne, after_runOne]
    exact h.get id
  | runAll e =>
    rw [serve, constructions_runEvery]
    exact h.allRules.congr fun _ _ => (Bool.or_true _).symm

theorem prefix_instances_serve (q : Runner) (r : Request) :
    q.provider.instances <+: (q.serve r).2.1.provider.instances := by
  cases r with
  | get id => exact q.provider.prefix_instances_get id
  | materializeAll => exact q.provider.prefix_instances_materializeAll
  | allRules => exact q.provider.prefix_instances_allRules
  | runRule id e =>
    rw [serve, after_runOne]
    exact q.provider.prefix_instances_get id
  | runAll e => exact q.provider.prefix_instances_allRules

theorem mem_instances_serve {r : Request} {i : RuleInstance} (h : i ∈ (q.serve r).1) :
    i ∈ (q.serve r).2.1.provider.instances := by
  cases r with
  | get id => exact (Provider.mem_instances_get (Option.mem_toList.mp h)).1
  | materializeAll => cases h
  | allRules => exact Provider.mem_instances_allInstances h
  | runRule id e =>
    rw [serve, ran_runOne] at h
    rw [serve, after_runOne]
    exact (Provider.mem_instances_get (Option.mem_toList.mp h)).1
  | runAll e => exact Provider.mem_instances_allInstances h

theorem holds_after (h : q.provider.Holds g asked log) (rs : List Request) :
    (q.after rs).provider.Holds g (fun j => asked j || rs.any (·.asksFor j))
      (log ++ constructions (q.told rs)) := by
  induction rs generalizing q asked log with
  | nil =>
    rw [told, serveEach, constructions_empty, List.append_nil]
    exact h.congr fun _ _ => (Bool.or_false _).symm
  | cons r rs ih =>
    have hrest := ih (holds_serve h r)
    rw [List.append_assoc, ← constructions_append] at hrest
    refine hrest.congr fun j _ => ?_
    rw [List.any_cons, Bool.or_assoc]

theorem prefix_instances_after (q : Runner) (rs : List Request) :
    q.provider.instances <+: (q.after rs).provider.instances := by
  induction rs generalizing q with
  | nil => exact List.prefix_rfl
  | cons r rs ih => exact (q.prefix_instances_serve r).trans (ih _)

/-- What was ever handed out is still there. -/
theorem mem_instances_after {rs : List Request} {i : RuleInstance} (h : i ∈ q.handedOut rs) :
    i ∈ (q.after rs).provider.instances := by
  induction rs generalizing q with
  | nil => cases h
  | cons r rs ih =>
    rcases List.mem_append.mp h with hi | hi
    · exact ((q.serve r).2.1.prefix_instances_after rs).subset (mem_instances_serve hi)
    · exact ih hi

/-- A history of requests has built each rule it needed once, and shares what it built. -/
structure Shares (q : Runner) (rs : List Registration) (history : List Request) : Prop where
  /-- A rule is built where the history needs it, and no other time. -/
  built : ∀ x ∈ rs, (constructions (q.told history)).count x.id =
    if history.any (·.asksFor x.id) then 1 else 0
  timesBuilt : ∀ x ∈ rs, (q.after history).provider.timesBuilt x.id =
    if history.any (·.asksFor x.id) then 1 else 0
  onlyRegistered : ∀ id ∈ constructions (q.told history), id ∈ rs.map Registration.id
  constructed : (q.after history).provider.constructed =
    rs.countP fun x => history.any (·.asksFor x.id)
  /-- One identifier, one instance. -/
  shared : ∀ i ∈ q.handedOut history, ∀ j ∈ q.handedOut history, i.key = j.key → i = j
  /-- An instance is known by its serial number. -/
  serial : ∀ i ∈ q.handedOut history, ∀ j ∈ q.handedOut history, i.serial = j.serial → i = j
  /-- The next request for what was handed out gets it again, and builds nothing. -/
  again : ∀ i ∈ q.handedOut history,
    (q.after history).provider.get i.key = (some i, (q.after history).provider, #[])
  get : ∀ x ∈ rs, ∃ i, ((q.after history).provider.get x.id).1 = some i ∧ i.key = x.id ∧
    i.rule = x.rule
  unknown : ∀ id ∉ rs.map Registration.id,
    (q.after history).provider.get id = (none, (q.after history).provider, #[]) ∧
      ∀ e, (q.after history).runRule id e = (.unregistered id e, [], q.after history)
  /-- There is one instance for each registration, in their order. -/
  all : (q.after history).provider.allInstances.map (fun i => (i.key, i.rule)) =
    rs.map fun x => (x.id, x.rule)
  allRules : (q.after history).provider.allRules.1 =
    (q.after history).provider.allInstances.map (·.rule)

/-- Every history of requests to a new provider of valid registrations shares the rules. -/
theorem shares {rs : List Registration} (h : Registry.ofList rs = .ok g) (reporter : Reporter)
    (history : List Request) :
    ({ provider := .ofRegistry g, reporter } : Runner).Shares rs history := by
  obtain ⟨rfl, -, hdistinct⟩ := Registry.ofList_eq_ok_iff.mp h
  have hg : (Registry.of rs).Distinct := hdistinct
  generalize hq : ({ provider := .ofRegistry (.of rs), reporter } : Runner) = q
  have hfresh : q.provider.Holds (.of rs) (fun _ => false) [] := by
    rw [← hq]
    exact Provider.holds_ofRegistry _
  have hafter := holds_after hfresh history
  simp only [Bool.false_or, List.nil_append] at hafter
  have hkept : ∀ i ∈ q.handedOut history, i ∈ (q.after history).provider.instances :=
    fun i hi => mem_instances_after hi
  exact
    { built := fun x hx => by
        rw [hafter.logged]
        exact hafter.count_keys (List.mem_map_of_mem hx)
      timesBuilt := fun x hx => hafter.timesBuilt_eq (List.mem_map_of_mem hx)
      onlyRegistered := fun id hid => by
        rw [hafter.logged] at hid
        exact ((hafter.mem_keys id).mp hid).1
      constructed := hafter.constructed_eq hg
      shared := fun i hi j hj hkey =>
        List.inj_on_of_nodup_map hafter.distinct (hkept i hi) (hkept j hj) hkey
      serial := fun i hi j hj => hafter.eq_of_serial_eq (hkept i hi) (hkept j hj)
      again := fun i hi => hafter.get_eq_of_mem (hkept i hi)
      get := fun x hx => hafter.sound.exists_get hg hx
      unknown := fun id hid => by
        have hnone := hafter.get_eq_of_not_mem hid
        refine ⟨hnone, fun e => ?_⟩
        rw [runRule, runOne, hnone]
        rfl
      all := hafter.sound.map_allInstances hg
      allRules := rfl }

/-- Single requests, one of them for a rule that is not registered, before and after a request for
all rules. -/
theorem shares_frail :
    let q : Runner := { provider := .ofRegistry (.of frailRegistrations) }
    let history : List Request := [.get "stops", .get "absent", .allRules, .get "breaks"]
    q.Shares frailRegistrations history ∧
      constructions (q.told history) =
        ["stops", "breaks", "passes", "sleeps", "owns up", "vanishes"] ∧
      (q.handedOut history).map (·.serial) = [0, 1, 2, 0, 3, 4, 5, 1] :=
  ⟨shares rfl .notices _, by decide +kernel, by decide +kernel⟩

end Runner

end UiConformance
