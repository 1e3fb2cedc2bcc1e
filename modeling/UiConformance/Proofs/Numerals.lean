import Mathlib
import UiConformance.Text.Blank
import UiConformance.Text.Numeral

/-!
# Blanks and numerals

What trimming and the readers of numbers are about, described on its own: a text with blanks around
it, and the decimal numerals with and without a sign. Trimming takes away all the blanks around a
text, and each reader accepts its numerals and nothing else.
-/

namespace UiConformance.Text

variable {core cs ds : List Char} {n : Nat}

/-! ## Blanks -/

/-- The text is the core with blanks before and after it. -/
def Padded (core cs : List Char) : Prop :=
  ∃ before after : List Char, cs = before ++ core ++ after ∧
    (∀ c ∈ before, isBlank c = true) ∧ ∀ c ∈ after, isBlank c = true

theorem padded_trim (cs : List Char) : Padded (trim cs) cs := by
  have hafter : cs.dropWhile isBlank =
      trim cs ++ ((cs.dropWhile isBlank).reverse.takeWhile isBlank).reverse := by
    rw [trim, ← List.reverse_append, List.takeWhile_append_dropWhile, List.reverse_reverse]
  refine ⟨cs.takeWhile isBlank, ((cs.dropWhile isBlank).reverse.takeWhile isBlank).reverse,
    ?_, fun c hc => List.mem_takeWhile_imp hc, fun c hc => ?_⟩
  · rw [List.append_assoc, ← hafter, List.takeWhile_append_dropWhile]
  · exact List.mem_takeWhile_imp (List.mem_reverse.mp hc)

theorem dropWhile_isBlank (h : ∀ c ∈ cs, isBlank c = false) : cs.dropWhile isBlank = cs := by
  refine List.dropWhile_eq_self_iff.mpr fun hl => ?_
  rw [h _ (List.getElem_mem hl)]
  exact Bool.false_ne_true

/-- A text without blanks is what trimming leaves of it with blanks around. -/
theorem trim_of_padded (h : Padded core cs) (hcore : ∀ c ∈ core, isBlank c = false) :
    trim cs = core := by
  obtain ⟨before, after, rfl, hbefore, hafter⟩ := h
  rw [trim, List.append_assoc, List.dropWhile_append_of_pos hbefore]
  cases core with
  | nil =>
    rw [List.nil_append, List.dropWhile_eq_nil_iff.mpr hafter]
    rfl
  | cons c core =>
    have hfirst : ¬isBlank c = true := by simp [hcore c List.mem_cons_self]
    rw [List.cons_append, List.dropWhile_cons_of_neg hfirst, ← List.cons_append,
      List.reverse_append,
      List.dropWhile_append_of_pos fun d hd => hafter d (List.mem_reverse.mp hd),
      dropWhile_isBlank fun d hd => hcore d (List.mem_reverse.mp hd), List.reverse_reverse]

theorem isBlank_of_isAlphanum {c : Char} (h : c.isAlphanum = true) : isBlank c = false := by
  have hc : 48 ≤ c.toNat ∧ c.toNat ≤ 122 := by
    simp only [Char.isAlphanum, Char.isAlpha, Char.isUpper, Char.isLower, Char.isDigit,
      Bool.or_eq_true, Bool.and_eq_true, decide_eq_true_eq, ge_iff_le, UInt32.le_iff_toNat_le,
      Char.reduceVal, UInt32.reduceToNat] at h
    simp only [Char.toNat]
    omega
  simp [isBlank, blankRanges]
  omega

/-! ## Numerals -/

/-- At least one ASCII digit; the number they are in decimal. -/
structure Digits (ds : List Char) (n : Nat) : Prop where
  ne_nil : ds ≠ []
  isDigit : ∀ d ∈ ds, d.isDigit = true
  value : Nat.ofDigitChars 10 ds 0 = n

/-- A decimal numeral of a whole number, with or without a sign. -/
inductive Numeral : List Char → Int → Prop
  | unsigned {ds : List Char} {n : Nat} : Digits ds n → Numeral ds n
  | plus {ds : List Char} {n : Nat} : Digits ds n → Numeral ('+' :: ds) n
  | minus {ds : List Char} {n : Nat} : Digits ds n → Numeral ('-' :: ds) (-n)

/-- A decimal numeral without a minus sign of a 64-bit word. -/
inductive WordNumeral : List Char → Nat → Prop
  | unsigned {ds : List Char} {n : Nat} : Digits ds n → n < word64Size → WordNumeral ds n
  | plus {ds : List Char} {n : Nat} : Digits ds n → n < word64Size → WordNumeral ('+' :: ds) n

theorem digits_toDigits (n : Nat) : Digits (Nat.toDigits 10 n) n where
  ne_nil := Nat.toDigits_ne_nil
  isDigit _ hc := Nat.isDigit_of_mem_toDigits (by decide) (by decide) hc
  value := Nat.ofDigitChars_toDigits (by decide) (by decide)

theorem readNat_eq_some_iff : readNat ds = some n ↔ Digits ds n := by
  unfold readNat
  constructor
  · intro h
    split at h
    · next hds => exact ⟨hds.1, List.all_eq_true.mp hds.2, Option.some.inj h⟩
    · cases h
  · intro h
    rw [if_pos ⟨h.ne_nil, List.all_eq_true.mpr h.isDigit⟩, h.value]

theorem Digits.ne_cons (h : Digits cs n) {c : Char} (hc : c.isDigit = false) : cs ≠ c :: ds := by
  rintro rfl
  rw [h.isDigit c List.mem_cons_self] at hc
  cases hc

theorem readInt_eq_some_iff {i : Int} : readInt cs = some i ↔ Numeral cs i := by
  constructor
  · intro h
    unfold readInt at h
    split at h <;>
      simp only [Option.map_eq_some_iff, bind, Option.bind_eq_some_iff, pure, Option.some.injEq,
        readNat_eq_some_iff] at h <;>
      obtain ⟨_, ⟨n, hn, rfl⟩, rfl⟩ := h
    · exact .minus hn
    · exact .plus hn
    · exact .unsigned hn
  · intro h
    cases h with
    | unsigned h =>
      rw [readInt, readNat_eq_some_iff.mpr h]
      · rfl
      · intro ds e
        exact h.ne_cons (by decide) e
      · intro ds e
        exact h.ne_cons (by decide) e
    | plus h => rw [readInt, readNat_eq_some_iff.mpr h]; rfl
    | minus h => rw [readInt, readNat_eq_some_iff.mpr h]; rfl

/-- A signed word is read from the numerals of its value. -/
theorem readInt32_eq_some_iff {w : Int32} : readInt32 cs = some w ↔ Numeral cs w.toInt := by
  simp only [readInt32, bind, Option.bind_eq_some_iff, readInt_eq_some_iff]
  have hmax : int32Max = 2147483647 := rfl
  constructor
  · rintro ⟨i, hi, h⟩
    split at h
    · next hrange =>
      obtain rfl := Option.some.inj h
      rwa [Int32.toInt_ofInt_of_le (by omega) (by omega)]
    · cases h
  · intro h
    have hlow := Int32.le_toInt w
    have hhigh := Int32.toInt_lt w
    refine ⟨w.toInt, h, ?_⟩
    rw [if_pos (by omega), Int32.ofInt_toInt]

theorem readWord64_eq_some_iff : readWord64 cs = some n ↔ WordNumeral cs n := by
  simp only [readWord64, bind, Option.bind_eq_some_iff, readNat_eq_some_iff]
  constructor
  · rintro ⟨m, hm, h⟩
    split at h
    · next hlt =>
      obtain rfl := Option.some.inj h
      split at hm
      · exact .plus hm hlt
      · exact .unsigned hm hlt
    · cases h
  · intro h
    cases h with
    | unsigned h hlt =>
      refine ⟨n, ?_, if_pos hlt⟩
      split
      · exact absurd rfl (h.ne_cons (by decide))
      · exact h
    | plus h hlt => exact ⟨n, h, if_pos hlt⟩

theorem WordNumeral.lt (h : WordNumeral cs n) : n < word64Size := by
  cases h <;> assumption

theorem wordNumeral_toDigits {n : Nat} (h : n < word64Size) : WordNumeral (Nat.toDigits 10 n) n :=
  .unsigned (digits_toDigits n) h

end UiConformance.Text
