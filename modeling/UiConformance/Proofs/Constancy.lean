import UiConformance.Condition

/-!
# Conditions with and without an element

`constant?` folds a condition and `evaluate` runs it, each with a short circuit of its own. They
agree: without an element, evaluation gives the constant where there is one and complains where
there is none; with an element, a constant is what it gives as well. Evaluation against an element
never complains, and its value is what the condition says of the element.
-/

namespace UiConformance.Condition

variable {c p l r : Condition} {v : Bool}

/-! ## Constants -/

theorem constant?_and : (and l r).constant? = some v ↔
    (l.constant? = some false ∧ v = false) ∨ (l.constant? = some true ∧ r.constant? = some v) := by
  simp only [constant?]
  rcases l.constant? with _ | _ | _ <;> simp [eq_comm]

theorem constant?_or : (or l r).constant? = some v ↔
    (l.constant? = some true ∧ v = true) ∨ (l.constant? = some false ∧ r.constant? = some v) := by
  simp only [constant?]
  rcases l.constant? with _ | _ | _ <;> simp [eq_comm]

theorem constant?_and_eq_none : (and l r).constant? = none ↔
    l.constant? = none ∨ (l.constant? = some true ∧ r.constant? = none) := by
  simp only [constant?]
  rcases l.constant? with _ | _ | _ <;> simp

theorem constant?_or_eq_none : (or l r).constant? = none ↔
    l.constant? = none ∨ (l.constant? = some false ∧ r.constant? = none) := by
  simp only [constant?]
  rcases l.constant? with _ | _ | _ <;> simp

theorem constant?_withChild : (withChild p c).constant? = (and p c).constant? := rfl

/-! ## Without an element -/

/-- How a parent with a child condition is evaluated where not both are constants. -/
theorem evaluate_withChild (h : p.constant? = none ∨ c.constant? = none) (e : Option Element) :
    (withChild p c).evaluate e =
      match p.evaluate e with
      | .error m => .error m
      | .ok false => .ok false
      | .ok true =>
        match require (withChild p c) e with
        | .error m => .error m
        | .ok e => firstPassing (fun k => c.evaluate (some k)) e.children := by
  rw [evaluate]
  split
  · next hp hc => simp [hp, hc] at h
  · rfl

theorem evaluate_of_constant? (h : c.constant? = some v) (e : Option Element) :
    c.evaluate e = .ok v := by
  induction c generalizing v with
  | always | never =>
    cases h
    rfl
  | controlTypeIs t => cases h
  | patternIs p => cases h
  | and l r ihl ihr =>
    rcases constant?_and.mp h with ⟨hl, rfl⟩ | ⟨hl, hr⟩
    · rw [evaluate, ihl hl]
    · rw [evaluate, ihl hl]
      exact ihr hr
  | or l r ihl ihr =>
    rcases constant?_or.mp h with ⟨hl, rfl⟩ | ⟨hl, hr⟩
    · rw [evaluate, ihl hl]
    · rw [evaluate, ihl hl]
      exact ihr hr
  | not c ih =>
    obtain ⟨u, hc, rfl⟩ := Option.map_eq_some_iff.mp h
    rw [evaluate, ih hc]
    rfl
  | withChild p c ihp ihc =>
    rw [constant?_withChild] at h
    rcases constant?_and.mp h with ⟨hp, rfl⟩ | ⟨hp, hc⟩
    · cases hc : c.constant? with
      | some w =>
        rw [evaluate, hp, hc]
        rfl
      | none => rw [evaluate_withChild (.inr hc), ihp hp]
    · rw [evaluate, hp, hc]
      rfl

/-- What is no constant complains where there is no element. -/
theorem exists_error_of_constant?_eq_none (h : c.constant? = none) :
    ∃ m, c.evaluate none = .error m := by
  induction c with
  | always | never => cases h
  | controlTypeIs t => exact ⟨_, rfl⟩
  | patternIs p => exact ⟨_, rfl⟩
  | and l r ihl ihr =>
    rcases constant?_and_eq_none.mp h with hl | ⟨hl, hr⟩
    · obtain ⟨m, hm⟩ := ihl hl
      exact ⟨m, by rw [evaluate, hm]⟩
    · obtain ⟨m, hm⟩ := ihr hr
      exact ⟨m, by rw [evaluate, evaluate_of_constant? hl]; exact hm⟩
  | or l r ihl ihr =>
    rcases constant?_or_eq_none.mp h with hl | ⟨hl, hr⟩
    · obtain ⟨m, hm⟩ := ihl hl
      exact ⟨m, by rw [evaluate, hm]⟩
    · obtain ⟨m, hm⟩ := ihr hr
      exact ⟨m, by rw [evaluate, evaluate_of_constant? hl]; exact hm⟩
  | not c ih =>
    obtain ⟨m, hm⟩ := ih (Option.map_eq_none_iff.mp h)
    exact ⟨m, by rw [evaluate, hm]; rfl⟩
  | withChild p c ihp ihc =>
    rw [constant?_withChild] at h
    rcases constant?_and_eq_none.mp h with hp | ⟨hp, hc⟩
    · obtain ⟨m, hm⟩ := ihp hp
      exact ⟨m, by rw [evaluate_withChild (.inl hp), hm]⟩
    · -- The parent holds, so that only the element is missing.
      refine ⟨⟨withChild p c⟩, ?_⟩
      rw [evaluate_withChild (.inr hc), evaluate_of_constant? hp]
      rfl

/-- Without an element, evaluation gives the constant or complains that there is none; a constant
is the value on every element of every tree. -/
theorem evaluate_none_iff_constant (c : Condition) (v : Bool) :
    (c.evaluate none = .ok v ↔ c.constant? = some v) ∧
      ((∃ m, c.evaluate none = .error m) ↔ c.constant? = none) ∧
      (c.constant? = some v → ∀ e : Element, c.evaluate (some e) = .ok v) := by
  refine ⟨⟨fun h => ?_, fun h => evaluate_of_constant? h none⟩,
    ⟨fun ⟨m, h⟩ => ?_, exists_error_of_constant?_eq_none⟩,
    fun h e => evaluate_of_constant? h (some e)⟩
  · cases hc : c.constant? with
    | some w =>
      rw [evaluate_of_constant? hc] at h
      cases h
      rfl
    | none =>
      obtain ⟨m, hm⟩ := exists_error_of_constant?_eq_none hc
      rw [hm] at h
      cases h
  · cases hc : c.constant? with
    | none => rfl
    | some w =>
      rw [evaluate_of_constant? hc] at h
      cases h

/-- The left operand settles a conjunction whose right operand asks for an element. -/
theorem evaluate_none_iff_constant_conjunction :
    (never &&& controlTypeIs .button).constant? = some false ∧
      ∀ e : Element, (never &&& controlTypeIs .button).evaluate (some e) = .ok false :=
  ⟨rfl, (evaluate_none_iff_constant (never &&& controlTypeIs .button) false).2.2 rfl⟩

/-! ## With an element -/

theorem firstPassing_ok {α ε : Type} (q : α → Bool) (as : List α) :
    firstPassing (ε := ε) (fun a => .ok (q a)) as = .ok (as.any q) := by
  induction as with
  | nil => rfl
  | cons a as ih =>
    rw [firstPassing, List.any_cons]
    cases q a with
    | true => rfl
    | false => exact ih

theorem evaluate_some (c : Condition) (e : Element) : c.evaluate (some e) = .ok (c.holds e) := by
  induction c generalizing e with
  | always | never => rfl
  | controlTypeIs t => rfl
  | patternIs p => rfl
  | and l r ihl ihr =>
    rw [evaluate, ihl, ihr, holds]
    cases l.holds e <;> rfl
  | or l r ihl ihr =>
    rw [evaluate, ihl, ihr, holds]
    cases l.holds e <;> rfl
  | not c ih =>
    rw [evaluate, ih, holds]
    rfl
  | withChild p c ihp ihc =>
    rw [evaluate, holds]
    split
    · rfl
    · rw [ihp]
      simp only [ihc, require, firstPassing_ok]
      cases p.holds e <;> rfl

theorem appliesTo_eq_holds (c : Condition) (e : Element) : c.appliesTo e = c.holds e := by
  rw [appliesTo, evaluate_some]

theorem holds_of_constant? (h : c.constant? = some v) (e : Element) : c.holds e = v := by
  have he := evaluate_of_constant? h (some e)
  rw [evaluate_some] at he
  exact Except.ok.inj he

/-- What a parent with a child condition says: the constant that it is, or else that the parent
condition holds and the other holds of a child. -/
theorem holds_withChild (p c : Condition) (e : Element) :
    (withChild p c).holds e =
      if p.constant?.isSome ∧ c.constant?.isSome then
        p.constant? == some true && c.constant? == some true
      else p.holds e && e.children.any fun k => c.holds k := by
  rw [holds]
  cases p.constant? with
  | none => simp
  | some v =>
    cases c.constant? with
    | none => simp
    | some w => simp

end UiConformance.Condition
