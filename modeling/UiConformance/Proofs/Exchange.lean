import UiConformance.Proofs.Constancy

/-!
# Exchanged operands

A conjunction or a disjunction says the same of an element with its operands exchanged. Below `/`
the order matters: whether a part of `p / q` is a constant is found out from the left, so that an
exchange may make it one or stop it from being one, and where both parts are the constant true no
child is needed. An exchange makes no difference to any element as long as each `/` reduces to true
before and after it or neither before nor after. A `/` of which this fails is changed on the elements
without children and on no others.
-/

namespace UiConformance.Condition

/-- The second condition is the first with the operands of any number of conjunctions and
disjunctions exchanged, at any depth. Between each `p / q` and what it becomes `kept` holds. -/
inductive Exchanged (kept : Condition → Condition → Prop) : Condition → Condition → Prop
  | refl (c : Condition) : Exchanged kept c c
  | and {l l' r r' : Condition} :
      Exchanged kept l l' → Exchanged kept r r' → Exchanged kept (and l r) (and l' r')
  | andExchange {l l' r r' : Condition} :
      Exchanged kept l l' → Exchanged kept r r' → Exchanged kept (and l r) (and r' l')
  | or {l l' r r' : Condition} :
      Exchanged kept l l' → Exchanged kept r r' → Exchanged kept (or l r) (or l' r')
  | orExchange {l l' r r' : Condition} :
      Exchanged kept l l' → Exchanged kept r r' → Exchanged kept (or l r) (or r' l')
  | not {c c' : Condition} : Exchanged kept c c' → Exchanged kept (not c) (not c')
  | withChild {p p' q q' : Condition} :
      Exchanged kept p p' → Exchanged kept q q' → kept (withChild p q) (withChild p' q') →
        Exchanged kept (withChild p q) (withChild p' q')

def ReducesAlike (c d : Condition) : Prop := c.constant? = some true ↔ d.constant? = some true

instance (c d : Condition) : Decidable (ReducesAlike c d) := inferInstanceAs (Decidable (_ ↔ _))

variable {c d p p' q q' : Condition}

theorem constant?_withChild_eq_true :
    (withChild p q).constant? = some true ↔ p.constant? = some true ∧ q.constant? = some true := by
  rw [constant?_withChild, constant?_and]
  simp

theorem parts_of_reduces (h : (withChild p q).constant? = some true) (e : Element) :
    (p.holds e && e.children.any fun k => q.holds k) = !e.children.isEmpty := by
  obtain ⟨hp, hq⟩ := constant?_withChild_eq_true.mp h
  rw [holds_of_constant? hp, Bool.true_and]
  simp only [holds_of_constant? hq]
  cases e.children <;> rfl

/-- `p / q` holds where it reduces to true and where its parts hold of the element and a child. -/
theorem holds_withChild_eq_or (p q : Condition) (e : Element) :
    (withChild p q).holds e =
      ((withChild p q).constant? == some true ||
        (p.holds e && e.children.any fun k => q.holds k)) := by
  rw [holds_withChild]
  split
  · next h =>
    obtain ⟨⟨v, hv⟩, ⟨w, hw⟩⟩ := h.imp Option.isSome_iff_exists.mp Option.isSome_iff_exists.mp
    -- Unless both constants are true, one of them rules the parts out as well.
    simp only [constant?, hv, hw, holds_of_constant? hv, holds_of_constant? hw]
    cases v <;> cases w <;> simp
  · next h =>
    have hne : (withChild p q).constant? ≠ some true := by
      intro ht
      obtain ⟨hp, hq⟩ := constant?_withChild_eq_true.mp ht
      exact h ⟨by rw [hp]; rfl, by rw [hq]; rfl⟩
    rw [beq_eq_false_iff_ne.mpr hne, Bool.false_or]

/-- Exchanges that keep every `/` reducing alike make no difference. -/
theorem Exchanged.holds_eq (h : Exchanged ReducesAlike c d) (e : Element) :
    c.holds e = d.holds e := by
  induction h generalizing e with
  | refl c => rfl
  | and _ _ ihl ihr => rw [holds, holds, ihl, ihr]
  | andExchange _ _ ihl ihr => rw [holds, holds, ihl, ihr, Bool.and_comm]
  | or _ _ ihl ihr => rw [holds, holds, ihl, ihr]
  | orExchange _ _ ihl ihr => rw [holds, holds, ihl, ihr, Bool.or_comm]
  | not _ ih => rw [holds, holds, ih]
  | withChild _ _ hk ihp ihq =>
    have hr := Bool.eq_iff_iff.mpr (beq_iff_eq.trans (hk.trans beq_iff_eq.symm))
    simp only [holds_withChild_eq_or, hr, ihp, ihq]

theorem reduces_of_not_alike (h : ¬ ReducesAlike c d) :
    c.constant? = some true ∨ d.constant? = some true := by
  by_cases hc : c.constant? = some true
  · exact .inl hc
  · by_cases hd : d.constant? = some true
    · exact .inr hd
    · exact absurd ⟨fun ht => absurd ht hc, fun ht => absurd ht hd⟩ h

/-- Where one `/` reduces to true and another with parts that say the same does not, they differ on
the elements without children. -/
theorem holds_withChild_eq_iff (hp : ∀ e : Element, p.holds e = p'.holds e)
    (hq : ∀ e : Element, q.holds e = q'.holds e)
    (hk : ¬ ReducesAlike (withChild p q) (withChild p' q')) (e : Element) :
    (withChild p q).holds e = (withChild p' q').holds e ↔ e.children ≠ [] := by
  have hsame : (p'.holds e && e.children.any fun k => q'.holds k) =
      (p.holds e && e.children.any fun k => q.holds k) := by
    simp only [hp, hq]
  -- The one that reduces has constant parts, and the parts of the other say the same.
  have hparts : (p.holds e && e.children.any fun k => q.holds k) = !e.children.isEmpty := by
    rcases reduces_of_not_alike hk with h | h
    · exact parts_of_reduces h e
    · rw [← hsame]
      exact parts_of_reduces h e
  have hne : ((withChild p q).constant? == some true) ≠
      ((withChild p' q').constant? == some true) := fun heq =>
    hk (beq_iff_eq.symm.trans ((Bool.eq_iff_iff.mp heq).trans beq_iff_eq))
  rw [holds_withChild_eq_or, holds_withChild_eq_or, hsame, hparts]
  cases e.children with
  | nil => simpa using hne
  | cons k ks => simp

/-- Exchanging operands makes no difference to any element where every `/` keeps reducing alike. A
`/` that does not is told apart from what it becomes by exactly the elements without children. -/
theorem appliesTo_exchanged :
    (∀ c d : Condition, Exchanged ReducesAlike c d →
      ∀ e : Element, c.appliesTo e = d.appliesTo e) ∧
    (∀ p q p' q' : Condition, Exchanged ReducesAlike p p' → Exchanged ReducesAlike q q' →
      ¬ ReducesAlike (withChild p q) (withChild p' q') →
      ∀ e : Element, (withChild p q).appliesTo e = (withChild p' q').appliesTo e ↔
        e.children ≠ []) := by
  constructor
  · intro c d h e
    rw [appliesTo_eq_holds, appliesTo_eq_holds, h.holds_eq e]
  · intro p q p' q' hp hq hk e
    rw [appliesTo_eq_holds, appliesTo_eq_holds]
    exact holds_withChild_eq_iff hp.holds_eq hq.holds_eq hk e

def parentOfOne : Element where
  tree := (({} : ElementTree).push { id := 0, controlType := .button }).pushChild 0 { id := 1 }
  index := 0
  inside := by decide

theorem appliesTo_exchanged_parentOfOne :
    (~~~((never &&& controlTypeIs .button) / controlTypeIs .edit)).appliesTo parentOfOne =
        (~~~((controlTypeIs .button &&& never) / controlTypeIs .edit)).appliesTo parentOfOne ∧
      ((always ||| controlTypeIs .edit) / always).appliesTo parentOfOne =
        ((controlTypeIs .edit ||| always) / always).appliesTo parentOfOne :=
  ⟨appliesTo_exchanged.1 _ _
      (.not (.withChild (.andExchange (.refl _) (.refl _)) (.refl _) (by decide))) parentOfOne,
    (appliesTo_exchanged.2 (always ||| controlTypeIs .edit) always (controlTypeIs .edit ||| always)
      always (.orExchange (.refl _) (.refl _)) (.refl _) (by decide) parentOfOne).mpr
        fun h => absurd (congrArg List.length h) (by decide)⟩

def single : Element := ⟨({} : ElementTree).push { id := 0 }, 0, by decide⟩

/-- With the constant on the left the `/` reduces to true and needs no child; with the constant on
the right it asks for one. -/
theorem appliesTo_single_ne_of_exchanged :
    Exchanged (fun _ _ => True) ((always ||| controlTypeIs .button) / always)
        ((controlTypeIs .button ||| always) / always) ∧
      ((always ||| controlTypeIs .button) / always).appliesTo single = true ∧
      ((controlTypeIs .button ||| always) / always).appliesTo single = false :=
  ⟨.withChild (.orExchange (.refl _) (.refl _)) (.refl _) trivial, by decide, by decide⟩

end UiConformance.Condition
