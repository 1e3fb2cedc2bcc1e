import Mathlib
import UiConformance.Proofs.Descriptions
import UiConformance.Proofs.IdentifierText
import UiConformance.Proofs.Numerals

/-!
# Identifiers read and written

`Denotes cs i` says, without the reader, which identifier a text stands for: a numeral its number,
and a well-known name, in any case of its letters, the number of the name. No text stands for two.
Reading takes the blanks away, accepts exactly the texts that stand for an identifier, and gives
back every identifier from its own text.
-/

namespace UiConformance

theorem isDigit_of_isAlpha {c : Char} (h : c.isAlpha = true) : c.isDigit = false := by
  simp only [Char.isAlpha, Char.isUpper, Char.isLower, Bool.or_eq_true, Bool.and_eq_true,
    decide_eq_true_eq, ge_iff_le, UInt32.le_iff_toNat_le, Char.reduceVal, UInt32.reduceToNat] at h
  simp only [Char.isDigit, Bool.and_eq_false_iff, decide_eq_false_iff_not, ge_iff_le,
    UInt32.le_iff_toNat_le, Char.reduceVal, UInt32.reduceToNat]
  omega

namespace Text.Numeral

variable {cs : List Char} {n : Int}

theorem exists_digit (h : Numeral cs n) : ∃ c ∈ cs, c.isDigit = true := by
  have hdigit : ∀ {ds : List Char} {m : Nat}, Digits ds m → ∃ c ∈ ds, c.isDigit = true := by
    intro ds m hds
    obtain ⟨c, hc⟩ := List.exists_mem_of_ne_nil ds hds.ne_nil
    exact ⟨c, hc, hds.isDigit c hc⟩
  cases h with
  | unsigned h => exact hdigit h
  | plus h =>
    obtain ⟨c, hc, hd⟩ := hdigit h
    exact ⟨c, List.mem_cons_of_mem _ hc, hd⟩
  | minus h =>
    obtain ⟨c, hc, hd⟩ := hdigit h
    exact ⟨c, List.mem_cons_of_mem _ hc, hd⟩

theorem isBlank (h : Numeral cs n) : ∀ c ∈ cs, Text.isBlank c = false := by
  have hdigit : ∀ {ds : List Char} {m : Nat}, Digits ds m → ∀ c ∈ ds, Text.isBlank c = false := by
    intro ds m hds c hc
    exact isBlank_of_isAlphanum (by simp [Char.isAlphanum, hds.isDigit c hc])
  cases h with
  | unsigned h => exact hdigit h
  | plus h => exact List.forall_mem_cons.mpr ⟨by decide, hdigit h⟩
  | minus h => exact List.forall_mem_cons.mpr ⟨by decide, hdigit h⟩

end Text.Numeral

/-! ## Names -/

namespace IdentifierKind

variable {kind : IdentifierKind} {e f : Int32 × String}

/-- No two well-known names of a kind differ in the case of their letters alone. -/
theorem nodup_lower_names (kind : IdentifierKind) :
    (kind.names.map fun e => e.2.toList.map Char.toLower).Nodup := by
  cases kind <;> decide +kernel

theorem eq_of_lower_eq (he : e ∈ kind.names) (hf : f ∈ kind.names)
    (h : e.2.toList.map Char.toLower = f.2.toList.map Char.toLower) : e = f :=
  List.inj_on_of_nodup_map kind.nodup_lower_names he hf h

end IdentifierKind

namespace Identifier

variable {kind : IdentifierKind} {cs : List Char} {s : String} {i j : Identifier kind}

theorem sameLetters_iff {as bs : List Char} :
    sameLetters as bs = true ↔ as.map Char.toLower = bs.map Char.toLower := beq_iff_eq

/-- What is the same letters as a well-known name consists of letters. -/
theorem isAlpha_of_sameLetters {e : Int32 × String} (he : e ∈ kind.names)
    (h : sameLetters e.2.toList cs = true) : ∀ c ∈ cs, c.isAlpha = true := by
  intro c hc
  have hmem : c.toLower ∈ e.2.toList.map Char.toLower := by
    rw [sameLetters_iff.mp h]
    exact List.mem_map_of_mem hc
  obtain ⟨d, hd, hcd⟩ := List.mem_map.mp hmem
  rw [← Char.isLower_toLower_eq_isAlpha, ← hcd, Char.isLower_toLower_eq_isAlpha]
  exact IdentifierKind.isAlpha_of_mem_name he d hd

/-! ## What a text stands for -/

/-- The text, without blanks around it, stands for the identifier. -/
inductive Denotes : List Char → Identifier kind → Prop
  | number {cs : List Char} {i : Identifier kind} : Text.Numeral cs i.code.toInt → Denotes cs i
  | name {cs : List Char} {e : Int32 × String} :
      e ∈ kind.names → sameLetters e.2.toList cs = true → Denotes cs ⟨e.1⟩

theorem Denotes.isBlank (h : Denotes cs i) : ∀ c ∈ cs, Text.isBlank c = false := by
  cases h with
  | number h => exact h.isBlank
  | name he h =>
    intro c hc
    exact Text.isBlank_of_isAlphanum (by simp [Char.isAlphanum, isAlpha_of_sameLetters he h c hc])

/-- No name is a numeral. -/
theorem readInt32_eq_none {e : Int32 × String} (he : e ∈ kind.names)
    (h : sameLetters e.2.toList cs = true) : Text.readInt32 cs = none := by
  refine Option.eq_none_iff_forall_ne_some.mpr fun w hw => ?_
  obtain ⟨c, hc, hdigit⟩ := (Text.readInt32_eq_some_iff.mp hw).exists_digit
  rw [isDigit_of_isAlpha (isAlpha_of_sameLetters he h c hc)] at hdigit
  cases hdigit

theorem ofTrimmed?_eq_some_iff : ofTrimmed? cs = some i ↔ Denotes cs i := by
  constructor
  · intro h
    unfold ofTrimmed? at h
    split at h
    · next code hcode =>
      obtain rfl := Option.some.inj h
      exact .number (Text.readInt32_eq_some_iff.mp hcode)
    · obtain ⟨e, he, rfl⟩ := Option.map_eq_some_iff.mp h
      have hsame : sameLetters e.2.toList cs = true := by simpa using List.find?_some he
      exact .name (List.mem_of_find?_eq_some he) hsame
  · intro h
    unfold ofTrimmed?
    cases h with
    | number h => rw [Text.readInt32_eq_some_iff.mpr h]
    | @name e he h =>
      rw [readInt32_eq_none he h]
      -- The first entry that fits is `e`, since no other one does.
      obtain ⟨f, hf⟩ : ∃ f, kind.names.find? (fun f => sameLetters f.2.toList cs) = some f :=
        Option.isSome_iff_exists.mp (List.find?_isSome.mpr ⟨e, he, h⟩)
      have hsame : sameLetters f.2.toList cs = true := by simpa using List.find?_some hf
      obtain rfl : f = e := IdentifierKind.eq_of_lower_eq (List.mem_of_find?_eq_some hf) he
        ((sameLetters_iff.mp hsame).trans (sameLetters_iff.mp h).symm)
      simp only [hf, Option.map_some]

/-- The texts read are those that stand for an identifier once the blanks are taken away. -/
theorem ofText?_eq_some_iff :
    ofText? s = some i ↔ ∃ core, Text.Padded core s.toList ∧ Denotes core i := by
  unfold ofText?
  rw [ofTrimmed?_eq_some_iff]
  constructor
  · intro h
    exact ⟨_, Text.padded_trim _, h⟩
  · rintro ⟨core, hpad, h⟩
    rwa [Text.trim_of_padded hpad h.isBlank]

theorem denotes_text (i : Identifier kind) : Denotes i.text.toList i := by
  rcases i.text_cases with h | h
  · exact .name h (sameLetters_iff.mpr rfl)
  · refine .number ?_
    rw [h]
    exact Text.readInt_eq_some_iff.mp (Text.readInt_toString _)

theorem ofText_eq_error_iff {e : UnknownIdentifier} :
    ofText s = (.error e : Except _ (Identifier kind)) ↔
      e = ⟨kind, s⟩ ∧ (ofText? s : Option (Identifier kind)) = none := by
  unfold ofText
  cases (ofText? s : Option (Identifier kind)) with
  | none => simp [eq_comm]
  | some j => simp

/-- Every identifier is read back from its text, and what is read is what the text stands for. -/
structure RoundTrips (kind : IdentifierKind) : Prop where
  text : ∀ i : Identifier kind, ofText i.text = .ok i
  accepts : ∀ (s : String) (i : Identifier kind),
    ofText s = .ok i ↔ ∃ core, Text.Padded core s.toList ∧ Denotes core i
  /-- Any other text is complained about as it was given. -/
  refuses : ∀ (s : String) (e : UnknownIdentifier),
    ofText s = (.error e : Except _ (Identifier kind)) ↔
      e = ⟨kind, s⟩ ∧ ¬∃ core, ∃ i : Identifier kind, Text.Padded core s.toList ∧ Denotes core i

theorem roundTrips_ofText (kind : IdentifierKind) : RoundTrips kind where
  text i := ofText_eq_ok_iff.mpr (ofText?_eq_some_iff.mpr
    ⟨_, ⟨[], [], by simp, by simp, by simp⟩, denotes_text i⟩)
  accepts s i := ofText_eq_ok_iff.trans ofText?_eq_some_iff
  refuses s e := by
    rw [ofText_eq_error_iff, Option.eq_none_iff_forall_ne_some]
    refine and_congr_right fun _ => ⟨?_, ?_⟩
    · rintro h ⟨core, i, hi⟩
      exact h i (ofText?_eq_some_iff.mpr ⟨core, hi⟩)
    · intro h i hi
      obtain ⟨core, hcore⟩ := ofText?_eq_some_iff.mp hi
      exact h ⟨core, i, hcore⟩

example : (ofText " bUTTON\t" : Except _ ControlType) = .ok ControlType.button := by decide +kernel

end Identifier

end UiConformance
