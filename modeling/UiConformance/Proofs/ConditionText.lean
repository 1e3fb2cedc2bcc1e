import UiConformance.Proofs.Brackets
import UiConformance.Proofs.IdentifierText
import UiConformance.Rule.Basic

/-!
# The text of conditions

The text of a condition determines the condition. Outside brackets, a text shows no operator that
binds less tightly than the outermost one, so it tells which operator that is. The right operand
of an operator is bracketed unless it binds more tightly; so the last such operator outside
brackets is the outermost one, and the text comes apart there into the two operands.
-/

namespace UiConformance

namespace Condition

open Text

/-! ## The shape of conditions -/

/-- The binary operators. -/
inductive Connective
  | or
  | and
  | withChild

namespace Connective

def join : Connective → Condition → Condition → Condition
  | or => .or
  | and => .and
  | withChild => .withChild

def symbol : Connective → Char
  | or => '|'
  | and => '&'
  | withChild => '/'

/-- How tightly the operator binds. -/
def level : Connective → Nat
  | or => 1
  | and => 2
  | withChild => 3

variable {o o' : Connective}

theorem level_inj (h : o.level = o'.level) : o = o' := by
  cases o <;> cases o' <;> first | rfl | cases h

theorem symbol_ne (h : o.level ≠ o'.level) : o.symbol ≠ o'.symbol := by
  cases o <;> cases o' <;> first | exact absurd rfl h | decide

theorem level_lt (o : Connective) : o.level < 4 := by
  cases o <;> decide

@[simp] theorem balance_symbol (o : Connective) : balance [o.symbol] = 0 := by
  cases o <;> rfl

end Connective

/-- Induction with one case for all binary operators. -/
@[elab_as_elim]
theorem connectiveInduction {motive : Condition → Prop} (always : motive always)
    (never : motive never) (controlTypeIs : ∀ t, motive (controlTypeIs t))
    (patternIs : ∀ p, motive (patternIs p)) (not : ∀ c, motive c → motive (not c))
    (join : ∀ (o : Connective) l r, motive l → motive r → motive (o.join l r)) :
    ∀ c, motive c
  | .always => always
  | .never => never
  | .controlTypeIs t => controlTypeIs t
  | .patternIs p => patternIs p
  | .not c => not c (connectiveInduction always never controlTypeIs patternIs not join c)
  | .and l r => join .and l r
    (connectiveInduction always never controlTypeIs patternIs not join l)
    (connectiveInduction always never controlTypeIs patternIs not join r)
  | .or l r => join .or l r
    (connectiveInduction always never controlTypeIs patternIs not join l)
    (connectiveInduction always never controlTypeIs patternIs not join r)
  | .withChild l r => join .withChild l r
    (connectiveInduction always never controlTypeIs patternIs not join l)
    (connectiveInduction always never controlTypeIs patternIs not join r)

variable {c d l r : Condition} {o o' : Connective} {k : Nat}

theorem precedence_join : (o.join l r).precedence = o.level := by
  cases o <;> rfl

/-! ## The shape of texts -/

def chars (c : Condition) : List Char := c.text.toList

/-- A condition as an operand, bracketed where it binds less tightly than asked for. -/
def operand (k : Nat) (c : Condition) : List Char :=
  if c.precedence < k then bracketed c.chars else c.chars

theorem toList_parenthesized (c : Condition) (k : Nat) :
    (parenthesized (c.precedence < k) c.text).toList = operand k c := by
  by_cases h : c.precedence < k
  · simp [parenthesized, operand, h, bracketed, chars]
  · simp [parenthesized, operand, h, chars]

theorem chars_join (o : Connective) (l r : Condition) : (o.join l r).chars =
    (operand o.level l ++ [' ']) ++ o.symbol :: (' ' :: operand (o.level + 1) r) := by
  cases o <;> simp only [Connective.join, Connective.symbol, Connective.level, chars, text,
    String.toList_append, toList_parenthesized, List.append_assoc] <;> rfl

theorem chars_not (c : Condition) : (not c).chars = '!' :: operand 4 c := by
  simp [chars, text, toList_parenthesized]

theorem chars_patternIs (p : PatternId) :
    (patternIs p).chars = "PatternIs".toList ++ bracketed p.text.toList := by
  simp [chars, text, bracketed]

/-! ## What is outside the brackets -/

theorem not_mem_text {kind : IdentifierKind} (i : Identifier kind) {c : Char}
    (h1 : c.isAlphanum = false) (h2 : c ≠ '-') : c ∉ i.text.toList := by
  intro h
  rcases Identifier.mem_text h with h | h
  · rw [h1] at h
    cases h
  · exact h2 h

theorem nested_text {kind : IdentifierKind} (i : Identifier kind) : Nested i.text.toList :=
  nested_of_not_mem (not_mem_text i rfl (by decide)) (not_mem_text i rfl (by decide))

theorem nested_operand (h : Nested c.chars) (k : Nat) : Nested (operand k c) := by
  unfold operand
  split
  · exact h.bracketed
  · exact h

/-- The brackets of a text match. -/
theorem nested_chars (c : Condition) : Nested c.chars := by
  induction c using connectiveInduction with
  | always => exact nested_of_not_mem (by decide) (by decide)
  | never => exact nested_of_not_mem (by decide) (by decide)
  | controlTypeIs t => exact nested_text t
  | patternIs p =>
    rw [chars_patternIs]
    exact (nested_of_not_mem (by decide) (by decide)).append (nested_text p).bracketed
  | not c ih =>
    rw [chars_not]
    exact (nested_of_not_mem (s := ['!']) (by decide) (by decide)).append (nested_operand ih 4)
  | join o l r ihl ihr =>
    have hjoint : Nested [' ', o.symbol, ' '] := by
      cases o <;> exact nested_of_not_mem (by decide) (by decide)
    have := ((nested_operand ihl o.level).append hjoint).append (nested_operand ihr (o.level + 1))
    rw [chars_join]
    simpa using this

theorem sealed_operand (h : o.level < c.precedence → Sealed o.symbol c.chars)
    (hk : o.level < k) : Sealed o.symbol (operand k c) := by
  unfold operand
  split
  · exact (nested_chars c).sealed_bracketed o.balance_symbol
  · exact h (by omega)

/-- Outside brackets, a text shows no operator that binds less tightly than the outermost. -/
theorem sealed_chars (o : Connective) (c : Condition) (h : o.level < c.precedence) :
    Sealed o.symbol c.chars := by
  induction c using connectiveInduction with
  | always => exact sealed_of_not_mem (by cases o <;> decide)
  | never => exact sealed_of_not_mem (by cases o <;> decide)
  | controlTypeIs t =>
    exact sealed_of_not_mem (not_mem_text t (by cases o <;> rfl) (by cases o <;> decide))
  | patternIs p =>
    rw [chars_patternIs]
    exact (sealed_of_not_mem (by cases o <;> decide)).append rfl
      ((nested_text p).sealed_bracketed o.balance_symbol)
  | not c ih =>
    rw [chars_not]
    exact (sealed_operand ih o.level_lt).cons (by cases o <;> decide) rfl
  | join o' l r ihl ihr =>
    rw [precedence_join] at h
    have hne : o.symbol ≠ o'.symbol := Connective.symbol_ne (by omega)
    have hspace : o.symbol ≠ ' ' := by cases o <;> decide
    have hl := sealed_operand ihl h
    have hr := sealed_operand ihr (k := o'.level + 1) (by omega)
    rw [chars_join]
    refine (hl.append (nested_operand (nested_chars l) _).closed ?_).append ?_ ?_
    · exact sealed_of_not_mem (by simpa using hspace)
    · rw [balance_append, (nested_operand (nested_chars l) _).closed]
      rfl
    · exact (hr.cons hspace rfl).cons hne o'.balance_symbol

theorem not_sealed_join : ¬ Sealed o.symbol (o.join l r).chars := by
  rw [chars_join]
  apply not_sealed
  rw [balance_append, (nested_operand (nested_chars l) _).closed]
  rfl

/-! ## Reading a text back -/

/-- A condition is built by a binary operator or binds as tightly as possible. -/
theorem exists_join_or (c : Condition) :
    (∃ o l r, c = Connective.join o l r) ∨ c.precedence = 4 := by
  cases c with
  | and l r => exact .inl ⟨.and, l, r, rfl⟩
  | or l r => exact .inl ⟨.or, l, r, rfl⟩
  | withChild l r => exact .inl ⟨.withChild, l, r, rfl⟩
  | _ => exact .inr rfl

theorem precedence_le (h : c.chars = d.chars) : d.precedence ≤ c.precedence := by
  rcases exists_join_or c with ⟨o, l, r, rfl⟩ | hc
  · rw [precedence_join]
    by_contra hlt
    have := sealed_chars o d (by omega)
    rw [← h] at this
    exact not_sealed_join this
  · rcases exists_join_or d with ⟨o, l, r, rfl⟩ | hd
    · have := o.level_lt
      rw [precedence_join]
      omega
    · omega

/-- Texts tell how tightly the outermost operator binds. -/
theorem precedence_eq (h : c.chars = d.chars) : c.precedence = d.precedence :=
  Nat.le_antisymm (precedence_le h.symm) (precedence_le h)

/-- What binds as tightly as possible does not open with a bracket. -/
theorem chars_ne_bracketed_of_eq (h : c.precedence = 4) (s : List Char) :
    c.chars ≠ bracketed s := by
  intro he
  cases c with
  | always | never => cases he
  | controlTypeIs t =>
    have : '(' ∈ (controlTypeIs t).chars := by rw [he]; exact List.mem_cons_self
    exact not_mem_text t rfl (by decide) this
  | patternIs p =>
    rw [chars_patternIs] at he
    cases he
  | not c =>
    rw [chars_not] at he
    cases he
  | and l r | or l r | withChild l r => cases h

/-- Brackets around a whole text are those of an operand. -/
theorem chars_ne_bracketed (c d : Condition) : c.chars ≠ bracketed d.chars := by
  rcases exists_join_or c with ⟨o, l, r, rfl⟩ | hc
  · intro he
    have := (nested_chars d).sealed_bracketed o.balance_symbol
    rw [← he] at this
    exact not_sealed_join this
  · exact chars_ne_bracketed_of_eq hc d.chars

theorem chars_eq_of_operand_eq (h : operand k c = operand k d) : c.chars = d.chars := by
  unfold operand at h
  split at h <;> split at h
  · exact List.append_cancel_right (List.tail_eq_of_cons_eq h)
  · exact absurd h.symm (chars_ne_bracketed d c)
  · exact absurd h (chars_ne_bracketed c d)
  · exact h

theorem exists_join_eq (h : (o.join l r).chars = d.chars) :
    ∃ l' r', d = o.join l' r' ∧ l.chars = l'.chars ∧ r.chars = r'.chars := by
  have hp := precedence_eq h
  rw [precedence_join] at hp
  rcases exists_join_or d with ⟨o', l', r', rfl⟩ | hd
  · rw [precedence_join] at hp
    obtain rfl := Connective.level_inj hp
    rw [chars_join, chars_join] at h
    have hsealed : ∀ c, Sealed o.symbol (' ' :: operand (o.level + 1) c) := by
      intro c
      exact (sealed_operand (sealed_chars o c) (Nat.lt_succ_self _)).cons
        (by cases o <;> decide) rfl
    have hbalance : ∀ c, balance (' ' :: operand (o.level + 1) c) = 0 := by
      intro c
      rw [balance_cons, (nested_operand (nested_chars c) _).closed]
      rfl
    obtain ⟨hl, hr⟩ := eq_of_sealed h o.balance_symbol
      ((hbalance r).trans (hbalance r').symm) (hsealed r) (hsealed r')
    exact ⟨l', r', rfl, chars_eq_of_operand_eq (List.append_cancel_right hl),
      chars_eq_of_operand_eq (List.tail_eq_of_cons_eq hr)⟩
  · have := o.level_lt
    omega

theorem exists_not_eq (h : (not c).chars = d.chars) : ∃ d', d = not d' ∧ c.chars = d'.chars := by
  have hp := precedence_eq h
  rw [chars_not] at h
  cases d with
  | not d =>
    rw [chars_not] at h
    exact ⟨d, rfl, chars_eq_of_operand_eq (List.tail_eq_of_cons_eq h)⟩
  | always | never => cases h
  | controlTypeIs t =>
    have : '!' ∈ (controlTypeIs t).chars := by rw [← h]; exact List.mem_cons_self
    exact absurd this (not_mem_text t rfl (by decide))
  | patternIs p =>
    rw [chars_patternIs] at h
    cases h
  | and l r | or l r | withChild l r => cases hp

/-- A text without operators is that of a constant, a control type or a pattern. -/
theorem leaf_of_chars_eq (hj : ∀ o l r, c ≠ Connective.join o l r) (hn : ∀ c', c ≠ not c')
    (h : c.chars = d.chars) : d = always ∨ d = never ∨ (∃ t, d = controlTypeIs t) ∨
      ∃ p, d = patternIs p := by
  cases d using connectiveInduction with
  | always => exact .inl rfl
  | never => exact .inr (.inl rfl)
  | controlTypeIs t => exact .inr (.inr (.inl ⟨t, rfl⟩))
  | patternIs p => exact .inr (.inr (.inr ⟨p, rfl⟩))
  | not d =>
    obtain ⟨c', rfl, -⟩ := exists_not_eq h.symm
    exact absurd rfl (hn c')
  | join o l r =>
    obtain ⟨l', r', rfl, -⟩ := exists_join_eq h.symm
    exact absurd rfl (hj o l' r')

/-- No control type is written as a constant is. -/
theorem chars_controlTypeIs_ne (t : ControlType) :
    (controlTypeIs t).chars ≠ always.chars ∧ (controlTypeIs t).chars ≠ never.chars :=
  ⟨fun h => Identifier.text_ne (s := "True") (by decide) (by decide) (String.toList_inj.mp h),
    fun h => Identifier.text_ne (s := "False") (by decide) (by decide) (String.toList_inj.mp h)⟩

theorem chars_patternIs_ne_controlTypeIs (p : PatternId) (t : ControlType) :
    (patternIs p).chars ≠ (controlTypeIs t).chars := by
  intro h
  have : '(' ∈ (controlTypeIs t).chars := by
    rw [← h, chars_patternIs]
    exact List.mem_append_right _ List.mem_cons_self
  exact not_mem_text t rfl (by decide) this

theorem chars_patternIs_inj {p q : PatternId} (h : (patternIs p).chars = (patternIs q).chars) :
    p = q := by
  rw [chars_patternIs, chars_patternIs] at h
  have := List.tail_eq_of_cons_eq (List.append_cancel_left h)
  exact Identifier.text_inj (String.toList_inj.mp (List.append_cancel_right this))

theorem chars_inj (h : c.chars = d.chars) : c = d := by
  induction c using connectiveInduction generalizing d with
  | always =>
    rcases leaf_of_chars_eq (by rintro ⟨⟩ <;> nofun) (by nofun) h with
      rfl | rfl | ⟨t, rfl⟩ | ⟨p, rfl⟩
    · rfl
    · cases h
    · exact absurd h.symm (chars_controlTypeIs_ne t).1
    · cases (chars_patternIs p ▸ h)
  | never =>
    rcases leaf_of_chars_eq (by rintro ⟨⟩ <;> nofun) (by nofun) h with
      rfl | rfl | ⟨t, rfl⟩ | ⟨p, rfl⟩
    · cases h
    · rfl
    · exact absurd h.symm (chars_controlTypeIs_ne t).2
    · cases (chars_patternIs p ▸ h)
  | controlTypeIs t =>
    rcases leaf_of_chars_eq (by rintro ⟨⟩ <;> nofun) (by nofun) h with
      rfl | rfl | ⟨t', rfl⟩ | ⟨p, rfl⟩
    · exact absurd h (chars_controlTypeIs_ne t).1
    · exact absurd h (chars_controlTypeIs_ne t).2
    · rw [Identifier.text_inj (String.toList_inj.mp h)]
    · exact absurd h.symm (chars_patternIs_ne_controlTypeIs p t)
  | patternIs p =>
    rcases leaf_of_chars_eq (by rintro ⟨⟩ <;> nofun) (by nofun) h with
      rfl | rfl | ⟨t, rfl⟩ | ⟨q, rfl⟩
    · cases (chars_patternIs p ▸ h)
    · cases (chars_patternIs p ▸ h)
    · exact absurd h (chars_patternIs_ne_controlTypeIs p t)
    · rw [chars_patternIs_inj h]
  | not c ih =>
    obtain ⟨d, rfl, hc⟩ := exists_not_eq h
    rw [ih hc]
  | join o l r ihl ihr =>
    obtain ⟨l', r', rfl, hl, hr⟩ := exists_join_eq h
    rw [ihl hl, ihr hr]

theorem chars_ne_nil (c : Condition) : c.chars ≠ [] := by
  cases c using connectiveInduction with
  | always | never => nofun
  | controlTypeIs t =>
    exact fun h => Identifier.text_ne (s := "") (by decide) (by decide) (String.toList_inj.mp h)
  | patternIs p =>
    rw [chars_patternIs]
    nofun
  | not c =>
    rw [chars_not]
    nofun
  | join o l r =>
    rw [chars_join]
    exact List.append_ne_nil_of_right_ne_nil _ nofun

theorem text_inj (h : c.text = d.text) : c = d := chars_inj (congrArg String.toList h)

theorem text_ne_empty (c : Condition) : c.text ≠ "" := by
  intro h
  apply chars_ne_nil c
  rw [chars, h]
  rfl

/-- A text is that of one condition only; and what reports know of a rule tells whether the rule
has a condition, and which. -/
theorem text_eq_text_iff (c d : Condition) :
    (c.text = d.text ↔ c = d) ∧ ∀ (m n : RuleMetadata) (x y : Option Condition),
      (RuleInfo.ofMetadata m x).condition = (RuleInfo.ofMetadata n y).condition ↔ x = y := by
  refine ⟨⟨text_inj, congrArg text⟩, ?_⟩
  intro m n x y
  constructor
  · intro h
    cases x with
    | none =>
      cases y with
      | none => rfl
      | some d => exact absurd h.symm (text_ne_empty d)
    | some c =>
      cases y with
      | none => exact absurd h (text_ne_empty c)
      | some d => exact congrArg some (text_inj h)
  · rintro rfl
    rfl

/-- Only the grouping to the right is written out. -/
example :
    (always &&& never &&& always).text = "True & False & True" ∧
      (always &&& (never &&& always)).text = "True & (False & True)" := by decide

end Condition

end UiConformance
