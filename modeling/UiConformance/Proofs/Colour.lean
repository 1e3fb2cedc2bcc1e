import UiConformance.Proofs.IdentifierText
import UiConformance.Report.Text

/-!
# Colour

Colour puts terminal sequences into a text report and changes nothing else. `stripped` takes the
sequences out of a text, and `Strips s t` says that this leaves `t` of `s` whatever follows, so that
it holds of texts put together once it holds of their parts. A style asks for looks in some branches
only; each of these is shown to leave the text that the plain branch has. Where the texts of a
report bring no escape character of their own, the report in colour strips to the plain one.

Nothing is assumed of a painter but that it marks texts: one with a look comes between a sequence of
codes and the one that ends it, or as it is.
-/

namespace UiConformance

open Decimal (Layout fixedText positionalText zeros)

namespace Text

/-! ## Taking sequences out -/

/-- The character that begins a sequence. -/
def escape : Char := '\x1b'

/-- What follows the sequence that a text begins with: an escape, a bracket, and all up to the
next `m`. -/
def afterSequence? : List Char → Option (List Char)
  | '\x1b' :: '[' :: cs => (cs.dropWhile (· != 'm')).tail?
  | _ => none

theorem length_afterSequence? {cs rest : List Char} (h : afterSequence? cs = some rest) :
    rest.length < cs.length := by
  unfold afterSequence? at h
  split at h
  · next cs =>
    have hdrop := (List.dropWhile_sublist (l := cs) (· != 'm')).length_le
    cases hcs : cs.dropWhile (· != 'm') with
    | nil => simp [hcs] at h
    | cons c ds =>
      rw [hcs] at h hdrop
      obtain rfl : ds = rest := Option.some.inj h
      simp only [List.length_cons] at hdrop ⊢
      omega
  · cases h

def strippedChars : List Char → List Char
  | [] => []
  | c :: cs =>
    match h : afterSequence? (c :: cs) with
    | some rest =>
      have := length_afterSequence? h
      strippedChars rest
    | none => c :: strippedChars cs
termination_by cs => cs.length
decreasing_by
  · exact this
  · exact Nat.lt_succ_self _

/-- The text without the sequences in it. -/
def stripped (s : String) : String := .ofList (strippedChars s.toList)

example : stripped "\x1b[1;31mno\x1b[0m [0m" = "no [0m" := by decide +kernel

theorem strippedChars_cons {c : Char} {cs : List Char} (h : c ≠ escape) :
    strippedChars (c :: cs) = c :: strippedChars cs := by
  have hnone : afterSequence? (c :: cs) = none := by
    unfold afterSequence?
    split
    · next heq => exact absurd (List.cons.inj heq).1 h
    · rfl
  rw [strippedChars]
  split
  · next hsome => cases hnone.symm.trans hsome
  · rfl

theorem strippedChars_append {cs ds : List Char} (h : escape ∉ cs) :
    strippedChars (cs ++ ds) = cs ++ strippedChars ds := by
  induction cs with
  | nil => rfl
  | cons c cs ih =>
    have hc : c ≠ escape := fun e => h (e ▸ List.mem_cons_self)
    have hcs : escape ∉ cs := fun hm => h (List.mem_cons_of_mem c hm)
    rw [List.cons_append, strippedChars_cons hc, ih hcs, List.cons_append]

/-- The codes of a sequence. -/
def Codes (cs : List Char) : Prop := ∀ c ∈ cs, c.isDigit = true ∨ c = ';'

theorem afterSequence?_sequence {codes : List Char} (h : Codes codes) (cs : List Char) :
    afterSequence? ('\x1b' :: '[' :: (codes ++ 'm' :: cs)) = some cs := by
  have hcodes : ∀ c ∈ codes, (c != 'm') = true := by
    intro c hc
    rcases h c hc with hd | rfl
    · exact bne_iff_ne.mpr fun e => by simp [e] at hd
    · rfl
  show ((codes ++ 'm' :: cs).dropWhile (· != 'm')).tail? = some cs
  rw [List.dropWhile_append_of_pos hcodes]
  rfl

theorem strippedChars_sequence {codes : List Char} (h : Codes codes) (cs : List Char) :
    strippedChars ('\x1b' :: '[' :: (codes ++ 'm' :: cs)) = strippedChars cs := by
  have hsome := afterSequence?_sequence h cs
  rw [strippedChars]
  split
  · next rest hrest => exact congrArg strippedChars (Option.some.inj (hrest.symm.trans hsome))
  · next hnone => cases hnone.symm.trans hsome

/-! ## Texts without an escape -/

/-- A text that brings no sequences of its own. -/
def Unescaped (s : String) : Prop := escape ∉ s.toList

instance (s : String) : Decidable (Unescaped s) := inferInstanceAs (Decidable (_ ∉ _))

@[simp] theorem unescaped_append {s t : String} :
    Unescaped (s ++ t) ↔ Unescaped s ∧ Unescaped t := by
  simp [Unescaped]

/-- Digits, a point and a minus sign are all that numbers are written with. -/
theorem unescaped_of_numeral {s : String}
    (h : ∀ c ∈ s.toList, c.isDigit = true ∨ c = '.' ∨ c = '-') : Unescaped s := fun hs => by
  rcases h _ hs with h | h | h <;> exact absurd h (by decide)

@[simp] theorem unescaped_repr_int (n : Int) : Unescaped n.repr :=
  unescaped_of_numeral fun _ hc => (mem_toString hc).imp_right .inr

@[simp] theorem unescaped_repr_nat (n : Nat) : Unescaped n.repr :=
  unescaped_repr_int n

/-! ## What stripping leaves -/

/-- Stripped, `s` is `t`, and what follows it is stripped by itself. -/
def Strips (s t : String) : Prop :=
  ∀ cs, strippedChars (s.toList ++ cs) = t.toList ++ strippedChars cs

namespace Strips

variable {s t s' t' : String}

theorem stripped_eq (h : Strips s t) : stripped s = t := by
  have hchars := h []
  rw [List.append_nil, strippedChars, List.append_nil] at hchars
  rw [stripped, hchars, String.ofList_toList]

theorem text (s : String) (h : Unescaped s := by decide) : Strips s s :=
  fun _ => strippedChars_append h

theorem append (h : Strips s t) (h' : Strips s' t') : Strips (s ++ s') (t ++ t') := fun cs => by
  rw [String.toList_append, String.toList_append, List.append_assoc, h, h', List.append_assoc]

section

variable {α : Type} {as : List α} {f g : α → String}

theorem join (h : ∀ a ∈ as, Strips (f a) (g a)) :
    Strips (String.join (as.map f)) (String.join (as.map g)) := by
  induction as with
  | nil => exact text ""
  | cons a as ih =>
    obtain ⟨ha, has⟩ := List.forall_mem_cons.mp h
    rw [List.map_cons, List.map_cons, String.join_cons, String.join_cons]
    exact ha.append (ih has)

theorem intercalate {sep : String} (hsep : Unescaped sep) (h : ∀ a ∈ as, Strips (f a) (g a)) :
    Strips (sep.intercalate (as.map f)) (sep.intercalate (as.map g)) := by
  induction as with
  | nil => exact text ""
  | cons a as ih =>
    obtain ⟨ha, has⟩ := List.forall_mem_cons.mp h
    cases as with
    | nil => simpa using ha
    | cons b as =>
      have hrest := ih has
      rw [List.map_cons, List.map_cons, List.map_cons, List.map_cons, String.intercalate_cons_cons,
        String.intercalate_cons_cons]
      exact (ha.append (text sep hsep)).append hrest

end

end Strips

/-! ## Painters -/

/-- What a text may become that is given a look. -/
inductive Marked (s : String) : String → Prop
  | off : Marked s s
  | on (codes : String) : Codes codes.toList →
      Marked s ("\x1b[" ++ codes ++ "m" ++ s ++ "\x1b[0m")

theorem Marked.strips {s t : String} (h : Marked s t) (hs : Unescaped s) : Strips t s := by
  cases h with
  | off => exact .text s hs
  | on codes hcodes =>
    intro cs
    have hend : Codes ['0'] := fun c hc => .inl (List.mem_singleton.mp hc ▸ rfl)
    have hchars : ("\x1b[" ++ codes ++ "m" ++ s ++ "\x1b[0m").toList ++ cs =
        '\x1b' :: '[' :: (codes.toList ++ 'm' :: (s.toList ++
          '\x1b' :: '[' :: (['0'] ++ 'm' :: cs))) := by
      simp [String.toList_append]
    rw [hchars, strippedChars_sequence hcodes, strippedChars_append hs, strippedChars_sequence hend]

namespace Painter

/-- A painter marks the texts that have a look, and leaves the others as they are. -/
structure Marks (paint : Painter) : Prop where
  bare : ∀ s, paint [] s = s
  marked : ∀ look s, Unescaped s → Marked s (paint look s)

theorem codes_codes (look : Look) : Codes look.codes := by
  induction look with
  | nil => exact fun _ hc => by simp [Look.codes] at hc
  | cons n ns ih =>
    have hn : Codes (Nat.toDigits 10 n) := fun _ hc => .inl (isDigit_of_mem_toDigits hc)
    unfold Look.codes at ih ⊢
    cases ns with
    | nil => simpa using hn
    | cons m ms =>
      rw [List.map_cons, List.map_cons, List.intercalate_cons_cons]
      have hseparator : Codes [';'] := fun c hc => .inr (List.mem_singleton.mp hc)
      exact List.forall_mem_append.mpr ⟨List.forall_mem_append.mpr ⟨hn, hseparator⟩, ih⟩

theorem resume_eq_self (look : Look) {cs : List Char} (h : escape ∉ cs) :
    look.resume cs = cs := by
  fun_induction Look.resume look cs with
  | case1 cs ih => exact absurd List.mem_cons_self h
  | case2 c cs _ ih => rw [ih fun hm => h (List.mem_cons_of_mem c hm)]
  | case3 => rfl

theorem marks_ofTerminal (colour : Bool) : (ofTerminal colour).Marks where
  bare s := by simp [ofTerminal]
  marked look s hs := by
    unfold ofTerminal
    split
    · have hon := Marked.on (s := s) (String.ofList look.codes) (by simpa using codes_codes look)
      have htext : String.ofList (look.sequence ++ look.resume s.toList ++ Look.ending) =
          "\x1b[" ++ String.ofList look.codes ++ "m" ++ s ++ "\x1b[0m" := by
        have hending : Look.ending = "\x1b[0m".toList := by decide
        rw [resume_eq_self look hs, hending, Look.sequence]
        simp [← String.toList_inj, String.toList_append]
      rwa [htext]
    · exact .off

end Painter

end Text

/-! ## What a report is written with -/

namespace Decimal

open Text

/-- A decimal of ASCII digits is written with these and a point. -/
theorem mem_positionalText {ds : List Char} (hds : ∀ c ∈ ds, c.isDigit = true) (exponent : Int)
    {c : Char} (h : c ∈ (positionalText "" ds exponent).toList) : c.isDigit = true ∨ c = '.' := by
  have hzeros : ∀ n, ∀ c ∈ zeros n, c.isDigit = true := fun n c hc => by
    rw [List.eq_of_mem_replicate hc]
    rfl
  unfold positionalText at h
  split at h
  · simp only [String.toList_append, String.toList_ofList, List.append_assoc, List.mem_append] at h
    rcases h with h | h | h
    · exact .inl (hds c h)
    · exact .inl (hzeros _ c h)
    · simp at h
  · have hall : ∀ c ∈ zeros ((-exponent).toNat + 1 - ds.length) ++ ds, c.isDigit = true :=
      List.forall_mem_append.mpr ⟨hzeros _, hds⟩
    simp only [String.toList_ofList, List.mem_append, List.mem_cons] at h
    rcases h with h | h | h
    · exact .inl (hall c (List.mem_of_mem_take h))
    · exact .inr h
    · exact .inl (hall c (List.mem_of_mem_drop h))

theorem unescaped_fixedText (places : Nat) (x : Float) : Unescaped (fixedText places x) := by
  unfold fixedText
  cases Binary64.ofFloat x with
  | nan => exact (by decide : Unescaped Layout.plain.nan)
  | infinite negative => exact (by decide : ∀ b, Unescaped (Layout.plain.infinite b)) negative
  | finite negative m q =>
    exact unescaped_of_numeral fun c hc =>
      (mem_positionalText (fun _ hd => isDigit_of_mem_toDigits hd) _ hc).imp_right .inl

end Decimal

open Text

@[simp] theorem Duration.unescaped_text (d : Duration) : Unescaped d.text :=
  Decimal.unescaped_fixedText 2 _

@[simp] theorem Identifier.unescaped_text {kind : IdentifierKind} (i : Identifier kind) :
    Unescaped i.text := fun h => by
  rcases Identifier.mem_text h with h | h <;> exact absurd h (by decide)

@[simp] theorem ScanStatus.unescaped_label (s : ScanStatus) : Unescaped s.label := by
  cases s <;> decide

@[simp] theorem WalkMode.unescaped_text (m : WalkMode) : Unescaped m.text := by
  cases m <;> decide

theorem unescaped_quantity (n : Nat) {one many : String} (h1 : Unescaped one)
    (h2 : Unescaped many) : Unescaped (quantity n one many) := by
  unfold quantity
  split
  · simp +decide [toString, h1]
  · simp +decide [toString, h2]

/-- No text that the finding was given brings a sequence. -/
structure Finding.Unescaped (f : Finding) : Prop where
  ruleId : Text.Unescaped f.ruleId
  description : Text.Unescaped f.description
  howToFix : Text.Unescaped f.howToFix
  standard : Text.Unescaped f.standard
  messages : ∀ m ∈ f.messages, Text.Unescaped m
  elementName : ∀ name ∈ f.elementName, Text.Unescaped name

/-- No text that the report was given brings a sequence. -/
structure Report.Unescaped (r : Report) : Prop where
  source : Text.Unescaped r.source
  findings : ∀ f ∈ r.findings, f.Unescaped

/-! ## Reports -/

theorem Finding.Unescaped.label {f : Finding} (h : f.Unescaped) : Text.Unescaped f.label := by
  unfold Finding.label
  cases hname : f.elementName with
  | none => simp +decide [toString]
  | some name => simp +decide [toString, h.elementName name hname]

theorem Tally.unescaped_names : ∀ t ∈ all, Unescaped t.one ∧ Unescaped t.many := by decide

theorem Report.mem_tallies {r : Report} {p : Tally × Nat} (h : p ∈ r.tallies) :
    p.1 ∈ Tally.all := by
  obtain ⟨t, ht, rfl⟩ := List.mem_map.mp (List.mem_of_mem_filter h)
  exact ht

namespace TextStyle

/-- The style without colour. -/
def plain (style : TextStyle) : TextStyle := { style with colour := false }

variable (style : TextStyle) {paint : Painter} {r : Report} {f : Finding}

section

variable (hp : paint.Marks)

include hp

/-- The branch with a look leaves the label that the plain branch shows. -/
theorem strips_status (s : ScanStatus) :
    Strips (style.status paint s) (style.plain.status paint s) := by
  have hplain : style.plain.status paint s = s.label := hp.bare s.label
  rw [hplain]
  unfold status
  split
  · exact (hp.marked s.look s.label s.unescaped_label).strips s.unescaped_label
  · rw [hp.bare]
    exact .text s.label s.unescaped_label

theorem strips_painted (look : Look) {s : String} (hs : Unescaped s) :
    Strips (style.painted paint look s) (style.plain.painted paint look s) := by
  show Strips _ s
  unfold painted
  split
  · exact (hp.marked look s hs).strips hs
  · exact .text s hs

theorem strips_header (hr : r.Unescaped) :
    Strips (style.header paint r) (style.plain.header paint r) := by
  have hsource : Strips (if style.colour then paint [Look.underlined] r.source else r.source)
      r.source := strips_painted style hp [Look.underlined] hr.source
  have hmode := Strips.text r.mode.text r.mode.unescaped_text
  exact ((hsource.append (.text " (")).append hmode).append (.text " mode)\n")

theorem strips_headline (hf : f.Unescaped) :
    Strips (style.headline paint f) (style.plain.headline paint f) := by
  have hstatus := (Strips.text "  ").append (strips_status style hp f.status)
  have hid := (hstatus.append (.text " [")).append
    (strips_painted style hp [Look.cyan] hf.ruleId)
  have hlabel := (hid.append (.text "] ")).append (.text f.label hf.label)
  exact ((hlabel.append (.text ": ")).append (.text f.description hf.description)).append
    (.text "\n")

theorem strips_helpLine (hf : f.Unescaped) :
    Strips (style.helpLine paint f) (style.plain.helpLine paint f) := by
  have hhelp := (Strips.text "      ").append
    (strips_painted style hp [Look.blue] (by decide : Unescaped "help:"))
  have hfix := (hhelp.append (.text " ")).append (.text f.howToFix hf.howToFix)
  exact ((hfix.append (.text " (")).append (.text f.standard hf.standard)).append (.text ")\n")

theorem strips_block (hf : f.Unescaped) :
    Strips (style.block paint f) (style.plain.block paint f) := by
  have hmessages : ∀ m ∈ f.messages, Strips s!"      {m}\n" s!"      {m}\n" := fun m hm =>
    ((Strips.text "      ").append (.text m (hf.messages m hm))).append (.text "\n")
  refine ((strips_headline style hp hf).append (.join hmessages)).append ?_
  show Strips _ (if style.help && f.isIssue then style.plain.helpLine paint f else "")
  split
  · exact strips_helpLine style hp hf
  · exact .text ""

theorem strips_summary (r : Report) :
    Strips (style.summary paint r) (style.plain.summary paint r) := by
  have hcount : ∀ p ∈ r.tallies,
      Strips (style.painted paint p.1.look (quantity p.2 p.1.one p.1.many))
        (style.plain.painted paint p.1.look (quantity p.2 p.1.one p.1.many)) := fun p hmem => by
    obtain ⟨hone, hmany⟩ := Tally.unescaped_names p.1 (Report.mem_tallies hmem)
    exact strips_painted style hp p.1.look (unescaped_quantity p.2 hone hmany)
  have helements : Unescaped (quantity r.elements "element" "elements") :=
    unescaped_quantity r.elements (by decide) (by decide)
  unfold summary
  simp only [List.isEmpty_map]
  refine Strips.append (.append ?_ ?_) (.text "\n")
  · exact .text _ (by simp +decide [helements])
  · split
    · exact .text ""
    · exact (Strips.text ": ").append (.intercalate (by decide) hcount)

theorem strips_notices (r : Report) :
    Strips (style.notices paint r) (style.plain.notices paint r) := by
  have helements : Unescaped (quantity r.unpopulated "element" "elements") :=
    unescaped_quantity r.unpopulated (by decide) (by decide)
  unfold notices
  refine Strips.append ?_ (.text _ ?_)
  · split
    · exact strips_painted style hp [Look.yellow] (by decide)
    · exact .text ""
  · split
    · decide
    · simp +decide [helements]

theorem strips_conclusion (r : Report) :
    Strips (style.conclusion paint r) (style.plain.conclusion paint r) := by
  have hstatus := (Strips.text "Status: ").append (strips_status style hp r.status)
  have hduration := (hstatus.append (.text "\nFinished in ")).append
    (.text r.duration.text r.duration.unescaped_text)
  exact hduration.append (.text "s\n")

theorem strips_show (hr : r.Unescaped) :
    Strips (style.show r paint) (style.plain.show r paint) := by
  have hblocks : ∀ f ∈ r.shownFindings style.passes,
      Strips (style.showFinding f paint) (style.plain.showFinding f paint) := fun f hf =>
    strips_block style hp (hr.findings f (List.mem_of_mem_filter hf))
  exact ((((strips_header style hp hr).append (.join hblocks)).append
    (strips_summary style hp r)).append (strips_notices style hp r)).append
    (strips_conclusion style hp r)

end

/-- Without its sequences, what a style shows is what the style without colour shows, whatever
painter marks the texts. -/
theorem stripped_show (hp : paint.Marks) (hr : r.Unescaped) (hf : f.Unescaped) :
    stripped (style.show r paint) = style.plain.show r paint ∧
      stripped (style.showFinding f paint) = style.plain.showFinding f paint :=
  ⟨(strips_show style hp hr).stripped_eq, (strips_block style hp hf).stripped_eq⟩

end TextStyle

/-- A finding whose texts look like sequences and have no escape. -/
def Finding.bracketed : Finding where
  ruleId := "m"
  status := .fail
  description := "[31mred"
  howToFix := "Drop [0m"
  standard := "[m"
  messages := ["[1;4m", ""]
  elementId := -1
  controlType := ⟨-7⟩
  elementName := some "m["

def Report.bracketed : Report where
  source := "[4m"
  elements := 2
  truncated := true
  unpopulated := 1
  status := .fail
  findings := [.bracketed]

theorem TextStyle.stripped_show_bracketed :
    (Painter.ofTerminal true).Marks ∧ Report.bracketed.Unescaped ∧ Finding.bracketed.Unescaped ∧
      ({} : TextStyle).showFinding .bracketed (.ofTerminal true) =
        "  \x1b[1;31mFailed\x1b[0m [\x1b[36mm\x1b[0m] #-1 -7 \"m[\": [31mred\n" ++
          "      [1;4m\n      \n      \x1b[34mhelp:\x1b[0m Drop [0m ([m)\n" ∧
      stripped (({} : TextStyle).showFinding .bracketed (.ofTerminal true)) =
        "  Failed [m] #-1 -7 \"m[\": [31mred\n" ++
          "      [1;4m\n      \n      help: Drop [0m ([m)\n" ∧
      stripped (({} : TextStyle).show .bracketed (.ofTerminal true)) =
        ({ colour := false } : TextStyle).show .bracketed (.ofTerminal true) := by
  have hp := Painter.marks_ofTerminal true
  have hf : Finding.bracketed.Unescaped :=
    ⟨by decide, by decide, by decide, by decide, by decide, by decide⟩
  have hr : Report.bracketed.Unescaped := ⟨by decide, List.forall_mem_singleton.mpr hf⟩
  obtain ⟨hshow, hfinding⟩ := TextStyle.stripped_show {} hp hr hf
  refine ⟨hp, hr, hf, by decide +kernel, ?_, hshow⟩
  rw [hfinding]
  decide +kernel

end UiConformance
