import Mathlib.Data.List.Basic

/-!
# Runs of a step function

A system takes one action at a time; `step s a` is `none` where the action is not
enabled. Every list of actions is a run, which ends at the first action that is
not enabled. The two rules: an invariant that good steps keep holds along every
good run, and a property whose first violation is exactly a bad step holds along
a run if and only if the run is good.
-/

set_option autoImplicit false

namespace TinyServer.Lib

universe u v

variable {σ : Type u} {α : Type v} (step : σ → α → Option σ)

/-- The states a run passes through, the first one included. -/
def runStates : σ → List α → List σ
  | s, [] => [s]
  | s, a :: as =>
      s :: match step s a with
        | none => []
        | some s' => runStates s' as

/-- Every action the run takes meets `good` in the state before it. -/
def AllSteps (good : σ → α → Prop) : σ → List α → Prop
  | _, [] => True
  | s, a :: as =>
      match step s a with
      | none => True
      | some s' => good s a ∧ AllSteps good s' as

/-- Good runs can be recognised by running them. -/
instance AllSteps.decidable {good : σ → α → Prop} [∀ s a, Decidable (good s a)] :
    ∀ (s : σ) (as : List α), Decidable (AllSteps step good s as)
  | _, [] => isTrue trivial
  | s, a :: as =>
      match hs : step s a with
      | none => isTrue (by rw [AllSteps, hs]; trivial)
      | some s' =>
          have : Decidable (AllSteps step good s' as) := AllSteps.decidable s' as
          decidable_of_iff (good s a ∧ AllSteps step good s' as) (by rw [AllSteps, hs])

/-- The state in which a run of enabled actions ends. -/
def runTo : σ → List α → Option σ
  | s, [] => some s
  | s, a :: as => (step s a).bind fun s' => runTo s' as

variable {step}

/-- What is reached after a first step is reached. -/
theorem runStates_cons_subset {s s' : σ} {a : α} {as : List α} (h : step s a = some s') :
    ∀ t ∈ runStates step s' as, t ∈ runStates step s (a :: as) := by
  intro t ht
  rw [runStates, h]
  exact List.mem_cons_of_mem s ht

/-- A run reaches the state that it starts in. -/
theorem mem_runStates_self (s : σ) (as : List α) : s ∈ runStates step s as := by
  cases as with
  | nil => exact List.mem_singleton_self s
  | cons a as => exact List.mem_cons_self

/-- A run reaches the state that it ends in. -/
theorem runTo_mem {as : List α} : ∀ {s t : σ}, runTo step s as = some t → t ∈ runStates step s as := by
  induction as with
  | nil =>
      intro s t h
      rw [← Option.some.inj h]
      exact mem_runStates_self s []
  | cons a as ih =>
      intro s t h
      rw [runTo] at h
      obtain ⟨s', hst, ht⟩ := Option.bind_eq_some_iff.1 h
      exact runStates_cons_subset hst t (ih ht)

/-- Two runs, one after the other. -/
theorem runTo_append {as bs : List α} : ∀ {s t : σ}, runTo step s as = some t →
    runTo step s (as ++ bs) = runTo step t bs := by
  induction as with
  | nil =>
      intro s t h
      rw [← Option.some.inj h]
      rfl
  | cons a as ih =>
      intro s t h
      obtain ⟨s', hst, ht⟩ := Option.bind_eq_some_iff.1 h
      rw [List.cons_append, runTo, hst]
      exact ih ht

/-- A run that ends in a state with a decidable property reaches such a state. -/
theorem exists_of_run {p : σ → Prop} [DecidablePred p] {s : σ} {as : List α}
    (h : (runTo step s as).any (fun t => decide (p t)) = true) : ∃ t ∈ runStates step s as, p t := by
  obtain ⟨t, ht, hp⟩ := (Option.any_eq_true ..).1 h
  exact ⟨t, runTo_mem ht, of_decide_eq_true hp⟩

/-- The invariant rule. -/
theorem AllSteps.invariant {I : σ → Prop} {good : σ → α → Prop}
    (hstep : ∀ s a s', I s → good s a → step s a = some s' → I s') {as : List α} :
    ∀ {s : σ}, I s → AllSteps step good s as → ∀ t ∈ runStates step s as, I t := by
  induction as with
  | nil =>
      intro s hs _ t ht
      rw [List.mem_singleton.1 ht]
      exact hs
  | cons a as ih =>
      intro s hs hgood t ht
      rw [runStates, List.mem_cons] at ht
      rw [AllSteps] at hgood
      rcases ht with rfl | ht
      · exact hs
      · cases hst : step s a with
        | none =>
            rw [hst] at ht
            cases ht
        | some s' =>
            rw [hst] at ht hgood
            exact ih (hstep s a s' hs hgood.1 hst) hgood.2 t ht

/-- A run of one good step. -/
theorem AllSteps.one {good : σ → α → Prop} {s : σ} {a : α} {as : List α} (has : as = [a])
    (h : good s a) : AllSteps step good s as := by
  rw [has, AllSteps]
  cases step s a with
  | none => trivial
  | some s' => exact ⟨h, trivial⟩

/-- What is true of every step is true of the steps of a run. -/
theorem AllSteps.of_forall {good : σ → α → Prop} (h : ∀ s a, good s a) (as : List α) :
    ∀ s : σ, AllSteps step good s as := by
  induction as with
  | nil => exact fun _ => trivial
  | cons a as ih =>
      intro s
      rw [AllSteps]
      cases step s a with
      | none => trivial
      | some s' => exact ⟨h s a, ih s'⟩

/-- What good steps do in states with an invariant that they keep. -/
theorem AllSteps.mono_invariant {I : σ → Prop} {good good' : σ → α → Prop}
    (hstep : ∀ s a s', I s → good s a → step s a = some s' → good' s a ∧ I s') {as : List α} :
    ∀ {s : σ}, I s → AllSteps step good s as → AllSteps step good' s as := by
  induction as with
  | nil => exact fun _ _ => trivial
  | cons a as ih =>
      intro s hs hgood
      rw [AllSteps] at hgood ⊢
      cases hst : step s a with
      | none => trivial
      | some s' =>
          rw [hst] at hgood
          obtain ⟨hgood', hs'⟩ := hstep s a s' hs hgood.1 hst
          exact ⟨hgood', ih hs' hgood.2⟩

/-- Steps from states with an invariant are good. -/
theorem AllSteps.of_invariant {I : σ → Prop} {good : σ → α → Prop}
    (hstep : ∀ s a s', I s → step s a = some s' → good s a ∧ I s') {s : σ} (hs : I s)
    (as : List α) : AllSteps step good s as := by
  induction as generalizing s with
  | nil => exact trivial
  | cons a as ih =>
      rw [AllSteps]
      cases hst : step s a with
      | none => trivial
      | some s' =>
          obtain ⟨hgood, hs'⟩ := hstep s a s' hs hst
          exact ⟨hgood, ih hs'⟩

/-- A good run takes only good steps. -/
theorem AllSteps.step_good {good : σ → α → Prop} {as bs : List α} {a : α} : ∀ {s t t' : σ},
    AllSteps step good s (as ++ a :: bs) → runTo step s as = some t → step t a = some t' →
      good t a := by
  induction as with
  | nil =>
      intro s t t' h hrun hst
      rw [← Option.some.inj hrun] at hst ⊢
      rw [List.nil_append, AllSteps, hst] at h
      exact h.1
  | cons b as ih =>
      intro s t t' h hrun hst
      obtain ⟨s', hs', hrun'⟩ := Option.bind_eq_some_iff.1 hrun
      rw [List.cons_append, AllSteps, hs'] at h
      exact ih h.2 hrun' hst

/-- The rule of paid steps: where each step that counts uses up some of `left`, and what `left`
gains is paid, a run has no more of them than was left and paid. -/
theorem AllSteps.countP_le {I : σ → Prop} {good : σ → α → Prop} {counts : α → Bool}
    {left paid : σ → Nat}
    (hstep : ∀ s a s', I s → good s a → step s a = some s' →
      I s' ∧ (if counts a then 1 else 0) + left s' + paid s ≤ left s + paid s') {as : List α} :
    ∀ {s t : σ}, I s → AllSteps step good s as → runTo step s as = some t →
      as.countP counts + left t + paid s ≤ left s + paid t := by
  induction as with
  | nil =>
      intro s t _ _ hrun
      rw [← Option.some.inj hrun, List.countP_nil]
      omega
  | cons a as ih =>
      intro s t hs hgood hrun
      obtain ⟨s', hst, hrun⟩ := Option.bind_eq_some_iff.1 hrun
      rw [AllSteps, hst] at hgood
      obtain ⟨hs', hpaid⟩ := hstep s a s' hs hgood.1 hst
      have hrest := ih hs' hgood.2 hrun
      rw [List.countP_cons]
      omega

/-- Conditions that agree on the steps of a run are met by the same runs. -/
theorem AllSteps.congr {good good' : σ → α → Prop}
    (h : ∀ s a s', step s a = some s' → (good s a ↔ good' s a)) {as : List α} :
    ∀ {s : σ}, AllSteps step good s as ↔ AllSteps step good' s as := by
  induction as with
  | nil => exact Iff.rfl
  | cons a as ih =>
      intro s
      rw [AllSteps, AllSteps]
      cases hst : step s a with
      | none => exact Iff.rfl
      | some s' => exact and_congr (h s a s' hst) ih

/-- Two conditions on the steps of a run. -/
theorem AllSteps.and {good good' : σ → α → Prop} {as : List α} : ∀ {s : σ},
    AllSteps step good s as → AllSteps step good' s as →
      AllSteps step (fun s a => good s a ∧ good' s a) s as := by
  induction as with
  | nil => exact fun _ _ => trivial
  | cons a as ih =>
      intro s h h'
      rw [AllSteps] at h h' ⊢
      cases hst : step s a with
      | none => trivial
      | some s' =>
          rw [hst] at h h'
          exact ⟨⟨h.1, h'.1⟩, ih h.2 h'.2⟩

/-- The exact rule for the runs that meet `ok`: when every bad step leads out of `P`, the
good runs are the runs inside `P`. -/
theorem forall_runStates_iff_within {I P : σ → Prop} {ok good : σ → α → Prop}
    (hIP : ∀ s, I s → P s)
    (hstep : ∀ s a s', I s → ok s a → good s a → step s a = some s' → I s')
    (hbad : ∀ s a s', I s → ok s a → ¬ good s a → step s a = some s' → ¬ P s') {s : σ} (hs : I s)
    {as : List α} (hok : AllSteps step ok s as) :
    (∀ t ∈ runStates step s as, P t) ↔ AllSteps step good s as := by
  constructor
  · induction as generalizing s with
    | nil => exact fun _ => trivial
    | cons a as ih =>
        intro h
        rw [AllSteps] at hok ⊢
        cases hst : step s a with
        | none => trivial
        | some s' =>
            rw [hst] at hok
            have hmem : ∀ t ∈ runStates step s' as, t ∈ runStates step s (a :: as) :=
              runStates_cons_subset hst
            have hg : good s a := by
              by_contra hn
              exact hbad s a s' hs hok.1 hn hst (h s' (hmem s' (mem_runStates_self s' as)))
            exact ⟨hg, ih (hstep s a s' hs hok.1 hg hst) hok.2 fun t ht => h t (hmem t ht)⟩
  · intro hgood t ht
    have hkeep : ∀ s a s', I s → ok s a ∧ good s a → step s a = some s' → I s' :=
      fun s a s' hi h hst => hstep s a s' hi h.1 h.2 hst
    exact hIP t (AllSteps.invariant hkeep hs (hok.and hgood) t ht)

/-- The exact rule. -/
theorem forall_runStates_iff {I P : σ → Prop} {good : σ → α → Prop} (hIP : ∀ s, I s → P s)
    (hstep : ∀ s a s', I s → good s a → step s a = some s' → I s')
    (hbad : ∀ s a s', I s → ¬ good s a → step s a = some s' → ¬ P s') {s : σ} (hs : I s)
    (as : List α) : (∀ t ∈ runStates step s as, P t) ↔ AllSteps step good s as :=
  forall_runStates_iff_within hIP (fun s a s' hi _ => hstep s a s' hi)
    (fun s a s' hi _ => hbad s a s' hi) hs (.of_forall (fun _ _ => trivial) as s)

end TinyServer.Lib
