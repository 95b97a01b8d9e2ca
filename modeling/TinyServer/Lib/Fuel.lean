import Mathlib.Tactic.Ring
import Mathlib.Order.Basic

/-!
# Enough fuel

A function that recurses on fuel returns once the fuel exceeds a measure that every
turn lowers. The measures that occur are lexicographic: `lexWeight` packs three levels
into one number, the last of which stays below a bound.
-/

set_option autoImplicit false

namespace TinyServer.Lib

universe u v

variable {σ : Type u} {ρ : Type v}

/-- The fuel rule. A turn from a state of `I` returns, whatever the fuel left, or goes
round again from a state of `I` with a smaller measure. -/
theorem returns_of_measure {f : Nat → σ → Option ρ} {I : σ → Prop} {m : σ → Nat}
    (hturn : ∀ s, I s → (∃ r, ∀ n, f (n + 1) s = some r) ∨
      ∃ s', I s' ∧ m s' < m s ∧ ∀ n, f (n + 1) s = f n s') {s : σ} (hs : I s) :
    ∃ r, ∀ n, m s < n → f n s = some r := by
  induction hm : m s using Nat.strong_induction_on generalizing s with
  | _ k ih =>
      rcases hturn s hs with ⟨r, hr⟩ | ⟨s', hs', hlt, heq⟩
      · refine ⟨r, ?_⟩
        intro n hn
        cases n with
        | zero => exact absurd hn (Nat.not_lt_zero k)
        | succ n => exact hr n
      · rw [hm] at hlt
        obtain ⟨r, hr⟩ := ih (m s') hlt hs' rfl
        refine ⟨r, ?_⟩
        intro n hn
        cases n with
        | zero => exact absurd hn (Nat.not_lt_zero k)
        | succ n =>
            rw [heq n]
            exact hr n (by omega)

/-- Three levels, the highest first: the second stays below `ranks`, the third below
`room`. -/
def lexWeight (ranks room high mid low : Nat) : Nat := (high * ranks + mid) * room + low

variable {ranks room a a' b b' c c' : Nat}

/-- The last count goes down. -/
theorem lexWeight_low (h : c < c') : lexWeight ranks room a b c < lexWeight ranks room a b c' :=
  Nat.add_lt_add_left h _

/-- The rank goes down, whatever the last count does. -/
theorem lexWeight_mid (h : b < b') (hc : c < room) :
    lexWeight ranks room a b c < lexWeight ranks room a b' c' := by
  have hle : (a * ranks + b + 1) * room ≤ (a * ranks + b') * room :=
    Nat.mul_le_mul_right room (by omega)
  unfold lexWeight
  calc (a * ranks + b) * room + c < (a * ranks + b) * room + room := Nat.add_lt_add_left hc _
    _ = (a * ranks + b + 1) * room := by ring
    _ ≤ (a * ranks + b') * room := hle
    _ ≤ (a * ranks + b') * room + c' := Nat.le_add_right _ _

/-- The first count goes down, whatever the others do. -/
theorem lexWeight_high (h : a < a') (hb : b < ranks) (hc : c < room) :
    lexWeight ranks room a b c < lexWeight ranks room a' b' c' := by
  have hmid : a * ranks + b + 1 ≤ a' * ranks + b' := by
    have hle : (a + 1) * ranks ≤ a' * ranks := Nat.mul_le_mul_right ranks h
    have heq : (a + 1) * ranks = a * ranks + ranks := by ring
    omega
  have hle : (a * ranks + b + 1) * room ≤ (a' * ranks + b') * room :=
    Nat.mul_le_mul_right room hmid
  unfold lexWeight
  calc (a * ranks + b) * room + c < (a * ranks + b) * room + room := Nat.add_lt_add_left hc _
    _ = (a * ranks + b + 1) * room := by ring
    _ ≤ (a' * ranks + b') * room := hle
    _ ≤ (a' * ranks + b') * room + c' := Nat.le_add_right _ _

end TinyServer.Lib
