import Mathlib.Data.List.Basic

/-!
# Scanners and residual languages

A scanner reads symbols one at a time until it stops at the end of a word or meets a
bad symbol. When the words that may follow a state are known (its residual language),
and one step takes the residual language apart, the scanner stops exactly at the end of
a word, and a bad symbol is one that no word goes on with.
-/

set_option autoImplicit false

namespace TinyServer.Lib

universe u v

/-- What one symbol does. -/
inductive Verdict (σ : Type u) where
  | more (s : σ)
  | stop
  | bad

variable {σ : Type u} {β : Type v} (step : σ → β → Verdict σ)

/-- How many symbols are consumed, and the verdict on them. A bad symbol is not
consumed. -/
def scan : σ → List β → Nat × Verdict σ
  | s, [] => (0, .more s)
  | s, b :: bs =>
      match step s b with
      | .more s' => ((scan s' bs).1 + 1, (scan s' bs).2)
      | .stop => (1, .stop)
      | .bad => (0, .bad)

/-- `L s` is the residual language of the states `s` of `I`. -/
structure Residual (I : σ → Prop) (L : σ → List β → Prop) : Prop where
  keep : ∀ {s s' b}, I s → step s b = .more s' → I s'
  nil : ∀ {s}, I s → ¬ L s []
  more : ∀ {s s' b}, I s → step s b = .more s' → ∀ t, L s (b :: t) ↔ L s' t
  stop : ∀ {s b}, I s → step s b = .stop → ∀ t, L s (b :: t) ↔ t = []
  bad : ∀ {s b}, I s → step s b = .bad → ∀ t, ¬ L s (b :: t)

variable {step} {I : σ → Prop} {L : σ → List β → Prop}

/-- The scanner stops after `k` symbols exactly when these are a word. -/
theorem Residual.stop_iff (h : Residual step I L) (bs : List β) : ∀ {s : σ} (k : Nat), I s →
    ((scan step s bs).2 = .stop ∧ (scan step s bs).1 = k ↔
      k ≤ bs.length ∧ L s (bs.take k)) := by
  induction bs with
  | nil =>
      intro s k hs
      constructor
      · exact fun hstop => nomatch hstop.1
      · rintro ⟨-, hL⟩
        rw [List.take_nil] at hL
        exact absurd hL (h.nil hs)
  | cons b bs ih =>
      intro s k hs
      cases k with
      | zero =>
          constructor
          · intro hstop
            rw [scan] at hstop
            split at hstop
            · exact absurd hstop.2 (Nat.succ_ne_zero _)
            · exact absurd hstop.2 (Nat.succ_ne_zero _)
            · cases hstop.1
          · rintro ⟨-, hL⟩
            exact absurd hL (h.nil hs)
      | succ k =>
          rw [scan, List.take_succ_cons, List.length_cons]
          split
          · rename_i s' hst
            rw [h.more hs hst, Nat.succ_inj, ih k (h.keep hs hst), Nat.succ_le_succ_iff]
          · rename_i hst
            rw [h.stop hs hst, Nat.succ_le_succ_iff]
            constructor
            · rintro ⟨-, hk⟩
              cases hk
              exact ⟨Nat.zero_le _, List.take_zero⟩
            · rintro ⟨hk, hnil⟩
              have hlen := congrArg List.length hnil
              rw [List.length_take, List.length_nil] at hlen
              refine ⟨rfl, ?_⟩
              omega
          · rename_i hst
            constructor
            · exact fun hbad => nomatch hbad.1
            · rintro ⟨-, hL⟩
              exact absurd hL (h.bad hs hst _)

/-- Nothing goes on after a bad symbol. -/
theorem Residual.not_of_bad (h : Residual step I L) (bs : List β) : ∀ {s : σ}, I s →
    (scan step s bs).2 = .bad → (scan step s bs).1 < bs.length ∧
      ∀ t, ¬ L s (bs.take ((scan step s bs).1 + 1) ++ t) := by
  induction bs with
  | nil => exact fun _ hbad => nomatch hbad
  | cons b bs ih =>
      intro s hs hbad
      rw [scan] at hbad ⊢
      split at hbad
      · rename_i s' hst
        obtain ⟨hlt, hno⟩ := ih (h.keep hs hst) hbad
        refine ⟨Nat.succ_lt_succ hlt, ?_⟩
        intro t hL
        rw [List.take_succ_cons, List.cons_append, h.more hs hst] at hL
        exact hno t hL
      · cases hbad
      · rename_i hst
        refine ⟨Nat.zero_lt_succ _, ?_⟩
        intro t
        exact h.bad hs hst _

end TinyServer.Lib
