import Mathlib.Data.List.Nodup
import UiConformance.Identifier

/-!
# The text of identifiers

A decimal numeral reads back as its number, and no well-known name is a numeral. So the text of an
identifier, a name of the table or a numeral, determines the identifier. It consists of letters,
digits and the minus sign.
-/

namespace UiConformance

/-! ## Decimal numerals -/

namespace Text

theorem toList_toString_natCast (n : Nat) : (toString (n : Int)).toList = Nat.toDigits 10 n :=
  Nat.toList_repr

theorem toList_toString_negSucc (n : Nat) :
    (toString (Int.negSucc n)).toList = '-' :: Nat.toDigits 10 (n + 1) := by
  show ("-" ++ (n + 1).repr).toList = _
  rw [String.toList_append, Nat.toList_repr]
  rfl

theorem isDigit_of_mem_toDigits {n : Nat} {c : Char} (h : c ∈ Nat.toDigits 10 n) :
    c.isDigit = true :=
  Nat.isDigit_of_mem_toDigits (by decide) (by decide) h

/-- A number is written with digits and a minus sign. -/
theorem mem_toString {n : Int} {c : Char} (h : c ∈ (toString n).toList) :
    c.isDigit = true ∨ c = '-' := by
  cases n with
  | ofNat n =>
    rw [Int.ofNat_eq_natCast, toList_toString_natCast] at h
    exact .inl (isDigit_of_mem_toDigits h)
  | negSucc n =>
    rw [toList_toString_negSucc] at h
    rcases List.mem_cons.mp h with rfl | h
    · exact .inr rfl
    · exact .inl (isDigit_of_mem_toDigits h)

theorem readInt_toDigits (n : Nat) : readInt (Nat.toDigits 10 n) = some (n : Int) := by
  have hdigit : ∀ c cs, Nat.toDigits 10 n = c :: cs → c.isDigit = true := by
    intro c cs h
    exact isDigit_of_mem_toDigits (n := n) (h ▸ List.mem_cons_self)
  unfold readInt
  split
  · next h => exact absurd (hdigit _ _ h) (by decide)
  · next h => exact absurd (hdigit _ _ h) (by decide)
  · rw [readNat_toDigits]
    rfl

/-- The decimal text of a whole number reads back as the number. -/
theorem readInt_toString (n : Int) : readInt (toString n).toList = some n := by
  cases n with
  | ofNat n =>
    rw [Int.ofNat_eq_natCast, toList_toString_natCast]
    exact readInt_toDigits n
  | negSucc n =>
    rw [toList_toString_negSucc, readInt, readNat_toDigits]
    rfl

theorem toString_int_inj {m n : Int} (h : toString m = toString n) : m = n := by
  have := readInt_toString m
  rw [h, readInt_toString n] at this
  exact (Option.some.inj this).symm

end Text

/-! ## Names -/

namespace IdentifierKind

variable {kind : IdentifierKind} {e f : Int32 × String}

theorem nodup_names (kind : IdentifierKind) : (kind.names.map (·.2)).Nodup := by
  cases kind <;> decide +kernel

theorem eq_of_name_eq (he : e ∈ kind.names) (hf : f ∈ kind.names) (h : e.2 = f.2) : e = f :=
  List.inj_on_of_nodup_map kind.nodup_names he hf h

/-- No well-known name reads as a number. -/
theorem readInt_name (he : e ∈ kind.names) : Text.readInt e.2.toList = none := by
  revert e
  cases kind <;> decide +kernel

theorem isAlpha_of_mem_name (he : e ∈ kind.names) : ∀ c ∈ e.2.toList, c.isAlpha = true := by
  have hall : (kind.names.all fun e => e.2.toList.all Char.isAlpha) = true := by
    cases kind <;> decide +kernel
  exact List.all_eq_true.mp (List.all_eq_true.mp hall e he)

end IdentifierKind

/-! ## Identifiers -/

namespace Identifier

variable {kind : IdentifierKind} {i j : Identifier kind}

/-- The text is a well-known name or a numeral. -/
theorem text_cases (i : Identifier kind) :
    (i.code, i.text) ∈ kind.names ∨ i.text = toString i.code.toInt := by
  unfold text name?
  cases h : kind.names.find? fun e => decide (e.1 = i.code) with
  | none => exact .inr rfl
  | some e =>
    have hcode : e.1 = i.code := by simpa using List.find?_some h
    refine .inl ?_
    rw [← hcode]
    exact List.mem_of_find?_eq_some h

theorem text_inj (h : i.text = j.text) : i = j := by
  have hcode : i.code = j.code := by
    rcases i.text_cases with hi | hi <;> rcases j.text_cases with hj | hj
    · exact congrArg Prod.fst (IdentifierKind.eq_of_name_eq hi hj h)
    · have := IdentifierKind.readInt_name hi
      rw [h, hj, Text.readInt_toString] at this
      cases this
    · have := IdentifierKind.readInt_name hj
      rw [← h, hi, Text.readInt_toString] at this
      cases this
    · rw [hi, hj] at h
      exact Int32.toInt_inj.mp (Text.toString_int_inj h)
  cases i
  cases j
  exact congrArg mk hcode

theorem mem_text {c : Char} (h : c ∈ i.text.toList) : c.isAlphanum = true ∨ c = '-' := by
  rcases i.text_cases with hi | hi
  · exact .inl (by simp [Char.isAlphanum, IdentifierKind.isAlpha_of_mem_name hi c h])
  · rw [hi] at h
    rcases Text.mem_toString h with h | h
    · exact .inl (by simp [Char.isAlphanum, h])
    · exact .inr h

/-- A text that is neither a well-known name nor a number is that of no identifier. -/
theorem text_ne {s : String} (h1 : s ∉ kind.names.map (·.2)) (h2 : Text.readInt s.toList = none) :
    i.text ≠ s := by
  rintro rfl
  rcases i.text_cases with hi | hi
  · exact h1 (List.mem_map.mpr ⟨_, hi, rfl⟩)
  · rw [hi, Text.readInt_toString] at h2
    cases h2

end Identifier

end UiConformance
