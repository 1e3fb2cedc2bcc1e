import UiConformance.Proofs.Budget
import UiConformance.Proofs.Outline
import UiConformance.Walk.Descent

/-!
# What a descent admits

`Descends P b n p c as k` is the recursion behind the explicit stack: under a budget `b`, where the
next position is `n`, the elements that follow from the cursor `c` below the element at `p` are
attached as `as`, and `k` requests are refused. An element is admitted, then all that is below it,
then its next sibling; a refused request ends its list of siblings. The relation mentions neither
drafts nor stacks, so facts about what is admitted are inductions on it.

`descends_run` says that a run of the stack machine is such a recursion.
-/

namespace UiConformance

/-! ## Sequences of steps -/

section

variable {σ : Type}

theorem runSteps_none {step? : σ → Option σ} {s : σ} (h : step? s = none) (n : Nat) :
    runSteps step? n s = s := by
  cases n with
  | zero => rfl
  | succ n => rw [runSteps, h]

theorem runSteps_some {step? : σ → Option σ} {s t : σ} (h : step? s = some t) (n : Nat) :
    runSteps step? (n + 1) s = runSteps step? n t := by
  rw [runSteps, h]

/-- `t` comes from `s` by zero or more steps. -/
inductive Reaches (step? : σ → Option σ) : σ → σ → Prop
  | refl (s : σ) : Reaches step? s s
  | head {s t u : σ} : step? s = some t → Reaches step? t u → Reaches step? s u

theorem Reaches.trans {step? : σ → Option σ} {s t u : σ} (h : Reaches step? s t)
    (h' : Reaches step? t u) : Reaches step? s u := by
  induction h with
  | refl s => exact h'
  | head he _ ih => exact .head he (ih h')

/-- A run ends in the state that steps lead to and from which there is none. -/
theorem Reaches.runSteps_eq {step? : σ → Option σ} (measure : σ → Nat)
    (lowers : ∀ s t, step? s = some t → measure t < measure s) {s t : σ}
    (h : Reaches step? s t) (ht : step? t = none) :
    ∀ {n : Nat}, measure s ≤ n → runSteps step? n s = t := by
  induction h with
  | refl s => exact fun {n} _ => runSteps_none ht n
  | @head s s' t he _ ih =>
    intro n hn
    have hlt := lowers s s' he
    obtain ⟨n, rfl⟩ : ∃ m, n = m + 1 := ⟨n - 1, by omega⟩
    rw [runSteps_some he]
    exact ih ht (by omega)

end

variable {H : Type}

/-! ## The recursion -/

inductive Descends (P : Platform H) :
    Nat → Nat → Nat → Option H → List (Nat × H) → Nat → Prop
  | done (b n p : Nat) : Descends P b n p none [] 0
  | refused (n p : Nat) (h : H) : Descends P 0 n p (some h) [] 1
  | admitted {b n p : Nat} {h : H} {as bs : List (Nat × H)} {k l : Nat} :
      Descends P b (n + 1) n (P.reach? .firstChild h) as k →
      Descends P (b - as.length) (n + 1 + as.length) p (P.reach? .nextSibling h) bs l →
      Descends P (b + 1) n p (some h) ((p, h) :: (as ++ bs)) (k + l)

namespace Descends

variable {P : Platform H} {b n p : Nat} {c : Option H} {as : List (Nat × H)} {k : Nat}

theorem length_le (h : Descends P b n p c as k) : as.length ≤ b := by
  induction h with
  | done => exact Nat.zero_le _
  | refused => exact Nat.le_refl _
  | admitted _ _ ih1 ih2 => rw [List.length_cons, List.length_append]; omega

/-- Where a request is refused, the budget is used up. -/
theorem length_eq (h : Descends P b n p c as k) (hk : 0 < k) : as.length = b := by
  induction h with
  | done => omega
  | refused => rfl
  | @admitted b n p h as bs k l h1 h2 ih1 ih2 =>
    have := h1.length_le
    have := h2.length_le
    rw [List.length_cons, List.length_append]
    rcases Nat.eq_zero_or_pos k with hk0 | hk0
    · have := ih2 (by omega); omega
    · have := ih1 hk0; omega

/-- Everything is attached below the start or below what was attached before. -/
theorem parent_mem (h : Descends P b n p c as k) : ∀ a ∈ as, a.1 = p ∨ n ≤ a.1 := by
  induction h with
  | done => intro a ha; cases ha
  | refused => intro a ha; cases ha
  | admitted _ _ ih1 ih2 =>
    intro a ha
    rcases List.mem_cons.mp ha with rfl | ha
    · exact .inl rfl
    rcases List.mem_append.mp ha with ha | ha
    · rcases ih1 a ha with e | e <;> right <;> omega
    · rcases ih2 a ha with e | e
      · exact .inl e
      · right; omega

theorem fits (h : Descends P b n p c as k) (hp : p < n) : Outline.Fits n as := by
  induction h with
  | done => trivial
  | refused => trivial
  | admitted _ _ ih1 ih2 =>
    exact ⟨hp, Outline.fits_append.mpr ⟨ih1 (by omega), ih2 (by omega)⟩⟩

/-- A larger budget admits the same elements first, and exactly these where the smaller one was
enough. -/
theorem isPrefix_of_le {b' : Nat} {bs : List (Nat × H)} {l : Nat} (h : Descends P b n p c as k)
    (h' : Descends P b' n p c bs l) (hb : b ≤ b') :
    as <+: bs ∧ (k = 0 → as = bs ∧ l = 0) := by
  induction h generalizing b' bs l with
  | done =>
    cases h'
    exact ⟨List.prefix_rfl, fun _ => ⟨rfl, rfl⟩⟩
  | refused => exact ⟨List.nil_prefix, fun h => by cases h⟩
  | @admitted b n p h as₁ as₂ k₁ k₂ h₁ h₂ ih₁ ih₂ =>
    cases h' with
    | refused => omega
    | @admitted b' _ _ _ bs₁ bs₂ l₁ l₂ h₁' h₂' =>
      obtain ⟨hp, he⟩ := ih₁ h₁' (by omega)
      rcases Nat.eq_zero_or_pos k₁ with hk | hk
      · obtain ⟨rfl, rfl⟩ := he hk
        obtain ⟨hp₂, he₂⟩ := ih₂ h₂' (by omega)
        refine ⟨List.cons_prefix_cons.mpr ⟨rfl, (List.prefix_append_right_inj _).mpr hp₂⟩, ?_⟩
        intro hk'
        obtain ⟨rfl, rfl⟩ := he₂ (by omega)
        exact ⟨rfl, rfl⟩
      · -- The first part used the budget up, so nothing follows it.
        have hlen := h₁.length_eq hk
        obtain rfl : as₂ = [] := List.eq_nil_of_length_eq_zero (by have := h₂.length_le; omega)
        refine ⟨List.cons_prefix_cons.mpr ⟨rfl, ?_⟩, fun hk' => by omega⟩
        rw [List.append_nil]
        exact hp.trans (List.prefix_append _ _)

end Descends

/-! ## Runs of the stack machine -/

/-- `e` comes from `d` by the attachments `as` and so many refused requests. -/
structure Draft.GrownBy (d e : Draft H) (as : List (Nat × H)) (refused : Nat) : Prop where
  outline : e.outline = d.outline.attachAll d.nextId as
  nextId : e.nextId = d.nextId + as.length
  counter : e.counter = d.counter.spend (as.length + refused)

theorem Draft.GrownBy.trans {d e f : Draft H} {as bs : List (Nat × H)} {k l : Nat}
    (h : d.GrownBy e as k) (h' : e.GrownBy f bs l) : d.GrownBy f (as ++ bs) (k + l) := by
  obtain ⟨ho, hn, hc⟩ := h
  refine ⟨?_, ?_, ?_⟩
  · rw [h'.outline, ho, hn, Outline.attachAll_append]
  · rw [h'.nextId, hn, List.length_append]; omega
  · rw [h'.counter, hc, ← Counter.spend_add, List.length_append]; congr 1; omega

theorem Draft.GrownBy.size_eq {d e : Draft H} {as : List (Nat × H)} {k : Nat}
    (h : d.GrownBy e as k) : e.outline.size = d.outline.size + as.length := by
  rw [h.outline, Outline.size_attachAll]

/-- Of the budget there remains what the admitted elements leave. -/
theorem Draft.GrownBy.remaining_eq {P : Platform H} {d e : Draft H} {n p : Nat} {c : Option H}
    {as : List (Nat × H)} {k : Nat} (h : d.GrownBy e as k)
    (hd : Descends P d.counter.remaining n p c as k) :
    e.counter.remaining = d.counter.remaining - as.length := by
  have hlen := hd.length_le
  have hk := hd.length_eq
  rw [h.counter, Counter.remaining_spend]
  rcases Nat.eq_zero_or_pos k with hk0 | hk0
  · omega
  · have := hk hk0
    omega

/-- `e` comes from `d` by the recursion from the cursor `c` below the element at `p`. -/
def Draft.Admits (P : Platform H) (d : Draft H) (p : Nat) (c : Option H) (e : Draft H) : Prop :=
  ∃ as k, Descends P d.counter.remaining d.outline.size p c as k ∧ d.GrownBy e as k

namespace Draft.Admits

variable {P : Platform H} {d d₁ d₂ e : Draft H} {p : Nat} {h : H}

theorem done (P : Platform H) (d : Draft H) (p : Nat) : d.Admits P p none d :=
  ⟨[], 0, .done _ _ _, rfl, (Int.add_zero _).symm, rfl⟩

theorem refused (hr : d.counter.remaining = 0) (hg : d.GrownBy e [] 1) :
    d.Admits P p (some h) e := by
  refine ⟨[], 1, ?_, hg⟩
  rw [hr]
  exact .refused _ _ _

/-- An element, what is below it and what comes after it. -/
theorem admitted (hr : 0 < d.counter.remaining) (hg : d.GrownBy d₁ [(p, h)] 0)
    (hbelow : d₁.Admits P d.outline.size (P.reach? .firstChild h) d₂)
    (hafter : d₂.Admits P p (P.reach? .nextSibling h) e) : d.Admits P p (some h) e := by
  obtain ⟨as, k, h₁, hg₁⟩ := hbelow
  obtain ⟨bs, l, h₂, hg₂⟩ := hafter
  have hb₂ := hg₁.remaining_eq h₁
  have hb₁ : d₁.counter.remaining = d.counter.remaining - 1 := by
    rw [hg.counter, Counter.remaining_spend]
    rfl
  refine ⟨(p, h) :: (as ++ bs), k + l, ?_, ?_⟩
  · rw [hg.size_eq] at h₁
    rw [hb₂, hg₁.size_eq, hg.size_eq] at h₂
    obtain ⟨b, hb⟩ : ∃ b, d.counter.remaining = b + 1 := ⟨d.counter.remaining - 1, by omega⟩
    rw [hb₁, hb] at h₁ h₂
    rw [hb]
    exact .admitted h₁ h₂
  · have := hg.trans (hg₁.trans hg₂)
    rwa [Nat.zero_add] at this

theorem remaining_le {c : Option H} (h : d.Admits P p c e) :
    e.counter.remaining ≤ d.counter.remaining := by
  obtain ⟨as, k, hd, hg⟩ := h
  rw [hg.remaining_eq hd]
  omega

end Draft.Admits

namespace Descent

open Draft

variable {P : Platform H}

theorem step?_refused {d : Draft H} (hr : d.counter.remaining = 0) (p : Nat) (h : H)
    (rest : List (Frame H)) :
    ∃ e, step? P ⟨d, ⟨p, some h⟩ :: rest⟩ = some ⟨e, rest⟩ ∧ d.GrownBy e [] 1 := by
  have hf : d.counter.tryIncrement.1 = false := by
    rw [Counter.tryIncrement_fst, hr]; rfl
  refine ⟨{ d with counter := d.counter.tryIncrement.2 }, ?_, rfl, (Int.add_zero _).symm, rfl⟩
  simp only [step?, Draft.tryIncrement, hf]

theorem step?_admitted {d : Draft H} (hr : 0 < d.counter.remaining) (p : Nat) (h : H)
    (rest : List (Frame H)) :
    ∃ e, step? P ⟨d, ⟨p, some h⟩ :: rest⟩ =
        some ⟨e, ⟨d.outline.size, P.reach? .firstChild h⟩ ::
          ⟨p, P.reach? .nextSibling h⟩ :: rest⟩ ∧
      d.GrownBy e [(p, h)] 0 := by
  have ht : d.counter.tryIncrement.1 = true := by
    rw [Counter.tryIncrement_fst]; exact decide_eq_true hr
  let d₁ : Draft H := { d with counter := d.counter.tryIncrement.2 }
  let d₂ := (d₁.ask P .nextSibling h).2
  let d₃ := (d₂.ask P .firstChild h).2
  have ho : d₃.outline = d.outline := (outline_ask ..).trans (outline_ask ..)
  have hi : d₃.nextId = d.nextId := (nextId_ask ..).trans (nextId_ask ..)
  have hc : d₃.counter = d₁.counter := (counter_ask ..).trans (counter_ask ..)
  refine ⟨(d₃.add h).2.link p (d₃.add h).1, ?_, ?_, ?_, hc⟩
  · simp only [step?, Draft.tryIncrement, ht]
    rw [ask_fst, ask_fst, ← show d₃.outline.size = d.outline.size by rw [ho]]
    rfl
  · show (d₃.outline.add h d₃.nextId).link p d₃.outline.size = _
    rw [ho, hi]; rfl
  · show d₃.nextId + 1 = _
    rw [hi]; rfl

/-- The machine deals with one frame as the recursion does, whatever is below it on the stack. -/
theorem reaches_pop (d : Draft H) (p : Nat) (c : Option H) (rest : List (Frame H)) :
    ∃ e, d.Admits P p c e ∧ Reaches (step? P) ⟨d, ⟨p, c⟩ :: rest⟩ ⟨e, rest⟩ := by
  induction hb : d.counter.remaining using Nat.strongRecOn generalizing d p c rest with
  | ind b ih =>
  cases c with
  | none => exact ⟨d, .done P d p, .head rfl (.refl _)⟩
  | some h =>
  rcases Nat.eq_zero_or_pos d.counter.remaining with hr | hr
  · obtain ⟨e, hs, hg⟩ := step?_refused (P := P) hr p h rest
    exact ⟨e, .refused hr hg, .head hs (.refl _)⟩
  obtain ⟨d₁, hs, hg⟩ := step?_admitted (P := P) hr p h rest
  have hb₁ : d₁.counter.remaining = d.counter.remaining - 1 := by
    rw [hg.counter, Counter.remaining_spend]
    rfl
  obtain ⟨d₂, hbelow, hr₁⟩ := ih d₁.counter.remaining (by omega) d₁ d.outline.size
    (P.reach? .firstChild h) (⟨p, P.reach? .nextSibling h⟩ :: rest) rfl
  have hb₂ := hbelow.remaining_le
  obtain ⟨e, hafter, hr₂⟩ := ih d₂.counter.remaining (by omega) d₂ p (P.reach? .nextSibling h)
    rest rfl
  exact ⟨e, .admitted hr hg hbelow hafter, .head hs (hr₁.trans hr₂)⟩

/-- A run from one open element is the recursion from its first child. -/
theorem descends_run (d : Draft H) (p : Nat) (c : Option H) :
    d.Admits P p c (run P ⟨d, [⟨p, c⟩]⟩).draft := by
  obtain ⟨e, h, hr⟩ := reaches_pop (P := P) d p c []
  have := hr.runSteps_eq measure (fun s t hs => by have := measure_step? hs; omega) rfl
    (Nat.le_refl _)
  rw [run, this]
  exact h

end Descent

end UiConformance
