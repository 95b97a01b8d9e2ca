import Mathlib.Data.Nat.Init
import Mathlib.Logic.Function.Basic

/-!
# Handles with counted holders

A system opens and closes handles of several kinds. A handle sits in a place, which
records how many holders use it from outside; only handles of the kind `shared` have
holders. `Counted` says that no two places have the same handle, that every count is
exact, and that what a place has and what a holder holds is open. `Covered` says that
no open shared handle is without a place, apart from those that were lost.

Each operation on places, holders and open handles keeps both.
-/

set_option autoImplicit false

namespace TinyServer.Lib

universe u v w

variable {ι : Type u} {κ : Type v} {τ : Type w}

/-- The count of a handle is that of its holders, it has one place, and it is open where it has
one. -/
structure Counted (tag : ι → τ) (shared : τ) (place : ι → Option (κ × Nat)) (holders : κ → Nat)
    (opens : κ → Option τ) : Prop where
  once : ∀ i j k n m, place i = some (k, n) → place j = some (k, m) → i = j
  count : ∀ i k n, place i = some (k, n) → n = holders k
  isOpen : ∀ i k n, place i = some (k, n) → opens k = some (tag i)
  held : ∀ k, holders k ≠ 0 → opens k = some shared

/-- Every open shared handle has a place or is lost. -/
def Covered (shared : τ) (place : ι → Option (κ × Nat)) (opens : κ → Option τ)
    (lost : κ → Prop) : Prop :=
  ∀ k, opens k = some shared → (∃ i n, place i = some (k, n)) ∨ lost k

section Places

variable {tag : ι → τ} {shared : τ} {place place' : ι → Option (κ × Nat)} {holders : κ → Nat}
  {opens : κ → Option τ} {lost : κ → Prop}

/-- Handles move to other places, or places give theirs up. -/
theorem Counted.reindex (h : Counted tag shared place holders opens) (f : ι → ι)
    (hf : ∀ i p, place' i = some p → place (f i) = some p ∧ tag (f i) = tag i)
    (hinj : ∀ i j p q, place' i = some p → place' j = some q → f i = f j → i = j) :
    Counted tag shared place' holders opens where
  once i j k n m hi hj :=
    hinj i j _ _ hi hj (h.once _ _ k n m (hf i _ hi).1 (hf j _ hj).1)
  count i k n hi := h.count (f i) k n (hf i _ hi).1
  isOpen i k n hi := by
    rw [← (hf i _ hi).2]
    exact h.isOpen (f i) k n (hf i _ hi).1
  held := h.held

/-- Places that only give handles up. -/
theorem Counted.mono (h : Counted tag shared place holders opens)
    (hsub : ∀ i p, place' i = some p → place i = some p) :
    Counted tag shared place' holders opens :=
  h.reindex id (fun i p hi => ⟨hsub i p hi, rfl⟩) fun _ _ _ _ _ _ h => h

/-- Every handle keeps a place or was lost before. -/
theorem Covered.mono (h : Covered shared place opens lost)
    (hsub : ∀ i k n, place i = some (k, n) → opens k = some shared →
      (∃ j m, place' j = some (k, m)) ∨ lost k) : Covered shared place' opens lost := by
  intro k hk
  rcases h k hk with ⟨i, n, hi⟩ | hl
  · exact hsub i k n hi hk
  · exact Or.inr hl

end Places

section Moves

variable [DecidableEq ι] {tag : ι → τ} {shared : τ} {place : ι → Option (κ × Nat)}
  {holders : κ → Nat} {opens : κ → Option τ} {lost : κ → Prop} {i j : ι} {k : κ} {n : Nat}

/-- A handle moves to a free place of its kind. -/
theorem Counted.move (h : Counted tag shared place holders opens) (htag : tag j = tag i) :
    Counted tag shared (Function.update (Function.update place j (place i)) i none) holders
      opens := by
  refine h.reindex (Function.update id j i) ?_ ?_
  · intro a p ha
    by_cases hai : a = i
    · rw [hai, Function.update_self] at ha
      cases ha
    rw [Function.update_of_ne hai] at ha
    by_cases haj : a = j
    · rw [haj, Function.update_self] at ha
      rw [haj, Function.update_self]
      exact ⟨ha, htag.symm⟩
    · rw [Function.update_of_ne haj] at ha
      rw [Function.update_of_ne haj]
      exact ⟨ha, rfl⟩
  · intro a b p q ha hb hab
    have hne : ∀ {c : ι} {r : κ × Nat},
        Function.update (Function.update place j (place i)) i none c = some r → c ≠ i := by
      rintro c r hc rfl
      rw [Function.update_self] at hc
      cases hc
    by_cases haj : a = j <;> by_cases hbj : b = j
    · rw [haj, hbj]
    · rw [haj, Function.update_self, Function.update_of_ne hbj] at hab
      exact absurd hab.symm (hne hb)
    · rw [hbj, Function.update_self, Function.update_of_ne haj] at hab
      exact absurd hab (hne ha)
    · rw [Function.update_of_ne haj, Function.update_of_ne hbj] at hab
      exact hab

/-- A handle changes its place. -/
theorem Covered.move (h : Covered shared place opens lost) (hj : place j = none) :
    Covered shared (Function.update (Function.update place j (place i)) i none) opens lost := by
  refine h.mono fun a k' m ha _ => Or.inl ?_
  by_cases hai : a = i
  · have hne : j ≠ i := by
      rintro rfl
      rw [← hai, ha] at hj
      cases hj
    exact ⟨j, m, by rw [Function.update_of_ne hne, Function.update_self, ← hai, ha]⟩
  · refine ⟨a, m, ?_⟩
    rw [Function.update_of_ne hai, Function.update_of_ne, ha]
    rintro rfl
    rw [hj] at ha
    cases ha

/-- A place forgets its handle. -/
theorem Counted.lose (h : Counted tag shared place holders opens) :
    Counted tag shared (Function.update place i none) holders opens := by
  refine h.mono fun a p ha => ?_
  by_cases hai : a = i
  · rw [hai, Function.update_self] at ha
    cases ha
  · rw [Function.update_of_ne hai] at ha
    exact ha

/-- A place is given up, and its handle may be lost. -/
theorem Covered.lose (h : Covered shared place opens lost) (hi : place i = some (k, n)) :
    Covered shared (Function.update place i none) opens fun k' => lost k' ∨ k' = k := by
  intro k' hk'
  rcases h k' hk' with ⟨a, m, ha⟩ | hl
  · by_cases hai : a = i
    · rw [hai, hi] at ha
      cases ha
      exact Or.inr (Or.inr rfl)
    · exact Or.inl ⟨a, m, by rw [Function.update_of_ne hai, ha]⟩
  · exact Or.inr (Or.inl hl)

/-- A place with a handle of another kind is emptied. -/
theorem Covered.drop {other : τ} (h : Covered other place opens lost)
    (hc : Counted tag shared place holders opens) (htag : tag i ≠ other) :
    Covered other (Function.update place i none) opens lost := by
  refine h.mono fun a k' m ha hk' => Or.inl ⟨a, m, ?_⟩
  rw [Function.update_of_ne, ha]
  rintro rfl
  have hkind := hc.isOpen a k' m ha
  rw [hk'] at hkind
  exact htag (Option.some.inj hkind).symm

/-- The count of a place does not matter for what is covered. -/
theorem Covered.recount (h : Covered shared place opens lost) (hi : place i = some (k, n))
    (m : Nat) : Covered shared (Function.update place i (some (k, m))) opens lost := by
  refine h.mono fun a k' m' ha _ => Or.inl ?_
  by_cases hai : a = i
  · rw [hai, hi] at ha
    cases ha
    exact ⟨i, m, Function.update_self _ _ _⟩
  · exact ⟨a, m', by rw [Function.update_of_ne hai, ha]⟩

end Moves

section Operations

variable [DecidableEq ι] [DecidableEq κ] {tag : ι → τ} {shared : τ}
  {place : ι → Option (κ × Nat)} {holders : κ → Nat} {opens : κ → Option τ} {lost : κ → Prop}
  {i j : ι} {k : κ} {n : Nat}

/-- A new handle goes to a free place. -/
theorem Counted.insert (h : Counted tag shared place holders opens) (hk : opens k = none) :
    Counted tag shared (Function.update place i (some (k, 0))) holders
      (Function.update opens k (some (tag i))) := by
  have hnone : holders k = 0 := by
    by_contra hne
    have := h.held k hne
    rw [hk] at this
    cases this
  have hold : ∀ j k' m, place j = some (k', m) → k' ≠ k := by
    rintro j k' m hj rfl
    have := h.isOpen j k' m hj
    rw [hk] at this
    cases this
  constructor
  case once =>
    intro a b k' m m' ha hb
    by_cases hai : a = i <;> by_cases hbi : b = i
    · rw [hai, hbi]
    · rw [hai, Function.update_self] at ha
      rw [Function.update_of_ne hbi] at hb
      cases ha
      exact absurd rfl (hold b k m' hb)
    · rw [hbi, Function.update_self] at hb
      rw [Function.update_of_ne hai] at ha
      cases hb
      exact absurd rfl (hold a k m ha)
    · rw [Function.update_of_ne hai] at ha
      rw [Function.update_of_ne hbi] at hb
      exact h.once a b k' m m' ha hb
  case count =>
    intro a k' m ha
    by_cases hai : a = i
    · rw [hai, Function.update_self] at ha
      cases ha
      exact hnone.symm
    · rw [Function.update_of_ne hai] at ha
      exact h.count a k' m ha
  case isOpen =>
    intro a k' m ha
    by_cases hai : a = i
    · rw [hai, Function.update_self] at ha
      cases ha
      rw [Function.update_self, hai]
    · rw [Function.update_of_ne hai] at ha
      rw [Function.update_of_ne (hold a k' m ha)]
      exact h.isOpen a k' m ha
  case held =>
    intro k' hne
    by_cases hk' : k' = k
    · rw [hk'] at hne
      exact absurd hnone hne
    · rw [Function.update_of_ne hk']
      exact h.held k' hne

/-- A new handle gets a place. -/
theorem Covered.insert (h : Covered shared place opens lost) (hi : place i = none) (t : τ) :
    Covered shared (Function.update place i (some (k, 0))) (Function.update opens k (some t))
      lost := by
  intro k' hk'
  by_cases he : k' = k
  · rw [he]
    exact Or.inl ⟨i, 0, Function.update_self _ _ _⟩
  · rw [Function.update_of_ne he] at hk'
    rcases h k' hk' with ⟨a, m, ha⟩ | hl
    · refine Or.inl ⟨a, m, ?_⟩
      rw [Function.update_of_ne, ha]
      rintro rfl
      rw [hi] at ha
      cases ha
    · exact Or.inr hl

/-- A handle that nobody holds is closed and its place is free. -/
theorem Counted.close (h : Counted tag shared place holders opens) (hi : place i = some (k, 0)) :
    Counted tag shared (Function.update place i none) holders (Function.update opens k none) := by
  have hnone : holders k = 0 := (h.count i k 0 hi).symm
  have hold : ∀ j k' m, j ≠ i → place j = some (k', m) → k' ≠ k := by
    rintro j k' m hne hj rfl
    exact hne (h.once j i k' m 0 hj hi)
  constructor
  case once =>
    intro a b k' m m' ha hb
    by_cases hai : a = i
    · rw [hai, Function.update_self] at ha
      cases ha
    by_cases hbi : b = i
    · rw [hbi, Function.update_self] at hb
      cases hb
    rw [Function.update_of_ne hai] at ha
    rw [Function.update_of_ne hbi] at hb
    exact h.once a b k' m m' ha hb
  case count =>
    intro a k' m ha
    by_cases hai : a = i
    · rw [hai, Function.update_self] at ha
      cases ha
    · rw [Function.update_of_ne hai] at ha
      exact h.count a k' m ha
  case isOpen =>
    intro a k' m ha
    by_cases hai : a = i
    · rw [hai, Function.update_self] at ha
      cases ha
    · rw [Function.update_of_ne hai] at ha
      rw [Function.update_of_ne (hold a k' m hai ha)]
      exact h.isOpen a k' m ha
  case held =>
    intro k' hne
    by_cases hk' : k' = k
    · rw [hk'] at hne
      exact absurd hnone hne
    · rw [Function.update_of_ne hk']
      exact h.held k' hne

/-- A handle is closed, and its place given up. -/
theorem Covered.close (h : Covered shared place opens lost) (hi : place i = some (k, n)) :
    Covered shared (Function.update place i none) (Function.update opens k none) lost := by
  intro k' hk'
  by_cases he : k' = k
  · rw [he, Function.update_self] at hk'
    cases hk'
  · rw [Function.update_of_ne he] at hk'
    rcases h k' hk' with ⟨a, m, ha⟩ | hl
    · refine Or.inl ⟨a, m, ?_⟩
      rw [Function.update_of_ne, ha]
      rintro rfl
      rw [hi] at ha
      cases ha
      exact he rfl
    · exact Or.inr hl

/-- A new holder of a shared handle. -/
theorem Counted.hold (h : Counted tag shared place holders opens) (hi : place i = some (k, n))
    (htag : tag i = shared) :
    Counted tag shared (Function.update place i (some (k, n + 1)))
      (Function.update holders k (holders k + 1)) opens := by
  have hold : ∀ {a k' m}, Function.update place i (some (k, n + 1)) a = some (k', m) →
      ∃ m', place a = some (k', m') ∧ (a ≠ i → m' = m) := by
    intro a k' m ha
    by_cases hai : a = i
    · rw [hai, Function.update_self] at ha
      cases ha
      exact ⟨n, by rw [hai, hi], fun hne => absurd hai hne⟩
    · rw [Function.update_of_ne hai] at ha
      exact ⟨m, ha, fun _ => rfl⟩
  constructor
  case once =>
    intro a b k' m m' ha hb
    obtain ⟨x, hx, -⟩ := hold ha
    obtain ⟨y, hy, -⟩ := hold hb
    exact h.once a b k' x y hx hy
  case count =>
    intro a k' m ha
    by_cases hai : a = i
    · rw [hai, Function.update_self] at ha
      cases ha
      rw [Function.update_self, ← h.count i k n hi]
    · rw [Function.update_of_ne hai] at ha
      rw [Function.update_of_ne]
      · exact h.count a k' m ha
      · rintro rfl
        exact hai (h.once a i k' m n ha hi)
  case isOpen =>
    intro a k' m ha
    obtain ⟨x, hx, -⟩ := hold ha
    exact h.isOpen a k' x hx
  case held =>
    intro k' hne
    by_cases hk' : k' = k
    · rw [hk', ← htag]
      exact h.isOpen i k n hi
    · rw [Function.update_of_ne hk'] at hne
      exact h.held k' hne

/-- A holder of a handle gives it back. -/
theorem Counted.release (h : Counted tag shared place holders opens)
    (hi : place i = some (k, n)) :
    Counted tag shared (Function.update place i (some (k, n - 1)))
      (Function.update holders k (holders k - 1)) opens := by
  have hold : ∀ {a k' m}, Function.update place i (some (k, n - 1)) a = some (k', m) →
      ∃ m', place a = some (k', m') := by
    intro a k' m ha
    by_cases hai : a = i
    · rw [hai, Function.update_self] at ha
      cases ha
      exact ⟨n, by rw [hai, hi]⟩
    · rw [Function.update_of_ne hai] at ha
      exact ⟨m, ha⟩
  constructor
  case once =>
    intro a b k' m m' ha hb
    obtain ⟨x, hx⟩ := hold ha
    obtain ⟨y, hy⟩ := hold hb
    exact h.once a b k' x y hx hy
  case count =>
    intro a k' m ha
    by_cases hai : a = i
    · rw [hai, Function.update_self] at ha
      cases ha
      rw [Function.update_self, ← h.count i k n hi]
    · rw [Function.update_of_ne hai] at ha
      rw [Function.update_of_ne]
      · exact h.count a k' m ha
      · rintro rfl
        exact hai (h.once a i k' m n ha hi)
  case isOpen =>
    intro a k' m ha
    obtain ⟨x, hx⟩ := hold ha
    exact h.isOpen a k' x hx
  case held =>
    intro k' hne
    apply h.held k'
    by_cases hk' : k' = k
    · rw [hk', Function.update_self] at hne
      rw [hk']
      omega
    · rw [Function.update_of_ne hk'] at hne
      exact hne

omit [DecidableEq ι] in
/-- A holder gives back a handle that has no place. -/
theorem Counted.releaseLost (h : Counted tag shared place holders opens)
    (hno : ∀ i n, place i ≠ some (k, n)) :
    Counted tag shared place (Function.update holders k (holders k - 1)) opens where
  once := h.once
  count i k' m hi := by
    rw [Function.update_of_ne]
    · exact h.count i k' m hi
    · rintro rfl
      exact hno i m hi
  isOpen := h.isOpen
  held k' hne := by
    apply h.held k'
    by_cases hk' : k' = k
    · rw [hk', Function.update_self] at hne
      rw [hk']
      omega
    · rw [Function.update_of_ne hk'] at hne
      exact hne

end Operations

end TinyServer.Lib
