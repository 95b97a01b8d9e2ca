import Mathlib.Data.Nat.Bitwise

/-!
# Rounding up to an alignment

`alignUp a n` is the least multiple of `a` that is not below `n`. On machine words the
rounding by a mask computes it, or 0 where it does not fit the word (`roundUp_toNat`).
-/

set_option autoImplicit false

namespace TinyServer.Lib

/-- The least multiple of `a` from `n` on. -/
def alignUp (a n : Nat) : Nat := (n + a - 1) / a * a

variable {a n m : Nat}

/-- It is a multiple of the alignment. -/
theorem dvd_alignUp (a n : Nat) : a ∣ alignUp a n := Nat.dvd_mul_left a _

/-- It is no less than the number. -/
theorem le_alignUp (h : 0 < a) (n : Nat) : n ≤ alignUp a n := by
  have hmod := Nat.div_add_mod (n + a - 1) a
  have hlt := Nat.mod_lt (n + a - 1) h
  rw [alignUp, Nat.mul_comm]
  omega

/-- The mask of an alignment clears the bits below it. -/
theorem toNat_and_not_sub_one {w k : Nat} (x : BitVec w) {y : BitVec w} (hy : y.toNat = 2 ^ k) :
    (x &&& ~~~(y - 1)).toNat = x.toNat / 2 ^ k * 2 ^ k := by
  have hk : k < w := (Nat.pow_lt_pow_iff_right (by decide)).1 (hy ▸ y.isLt)
  have hone : (1 : BitVec w).toNat = 1 := BitVec.toNat_one (Nat.zero_lt_of_lt hk)
  have hmask : (y - 1).toNat = 2 ^ k - 1 := by
    have hle : (1 : BitVec w) ≤ y := by
      rw [BitVec.le_def, hone, hy]
      exact Nat.one_le_two_pow
    rw [BitVec.toNat_sub_of_le hle, hone, hy]
  refine Nat.eq_of_testBit_eq fun i => ?_
  rw [BitVec.testBit_toNat, BitVec.getLsbD_and, BitVec.getLsbD_not, ← BitVec.testBit_toNat,
    ← BitVec.testBit_toNat, hmask, Nat.testBit_two_pow_sub_one, Nat.testBit_mul_two_pow,
    Nat.testBit_div_two_pow]
  by_cases hi : k ≤ i
  · have hsub : i - k + k = i := Nat.sub_add_cancel hi
    by_cases hiw : i < w
    · simp [hi, hiw, Nat.not_lt.2 hi, hsub]
    · have hbit : x.toNat.testBit i = false :=
        Nat.testBit_lt_two_pow (x.isLt.trans_le (Nat.pow_le_pow_right Nat.two_pos (Nat.not_lt.1 hiw)))
      simp [hi, hiw, hsub, hbit]
  · simp [hi, Nat.not_le.1 hi]

/-- One less than a sum, in wrapping arithmetic. -/
theorem toNat_add_sub_one {w : Nat} (x : BitVec w) {y : BitVec w} (hw : 0 < w) (hy : 0 < y.toNat) :
    (x + y - 1).toNat = (x.toNat + y.toNat - 1) % 2 ^ w := by
  have hone : (1 : BitVec w).toNat = 1 := BitVec.toNat_one hw
  have hpos := Nat.two_pow_pos w
  rw [BitVec.toNat_sub, BitVec.toNat_add, hone, Nat.add_mod_mod]
  have hsum : 2 ^ w - 1 + (x.toNat + y.toNat) = x.toNat + y.toNat - 1 + 2 ^ w := by omega
  rw [hsum, Nat.add_mod_right]

/-- Rounding up by a mask, in wrapping arithmetic. -/
theorem roundUp_toNat {w k : Nat} (x : BitVec w) {y : BitVec w} (hy : y.toNat = 2 ^ k) :
    ((x + y - 1) &&& ~~~(y - 1)).toNat
      = if alignUp (2 ^ k) x.toNat < 2 ^ w then alignUp (2 ^ k) x.toNat else 0 := by
  have hpos := Nat.two_pow_pos k
  have hlt : 2 ^ k < 2 ^ w := hy ▸ y.isLt
  have hk : k < w := (Nat.pow_lt_pow_iff_right (by decide)).1 hlt
  rw [toNat_and_not_sub_one _ hy, toNat_add_sub_one x (Nat.zero_lt_of_lt hk) (by omega), hy]
  have hx := x.isLt
  by_cases hover : x.toNat + 2 ^ k - 1 < 2 ^ w
  · have hle : alignUp (2 ^ k) x.toNat ≤ x.toNat + 2 ^ k - 1 := Nat.div_mul_le_self _ _
    rw [Nat.mod_eq_of_lt hover, if_pos (Nat.lt_of_le_of_lt hle hover), alignUp]
  · -- The sum wraps to less than one multiple.
    have hdvd : 2 ^ w = 2 ^ (w - k) * 2 ^ k := by
      rw [← Nat.pow_add, Nat.sub_add_cancel hk.le]
    have hlarge : 2 ^ w ≤ alignUp (2 ^ k) x.toNat := by
      have hquot : 2 ^ (w - k) ≤ (x.toNat + 2 ^ k - 1) / 2 ^ k := by
        rw [Nat.le_div_iff_mul_le hpos, ← hdvd]
        omega
      rw [alignUp]
      conv_lhs => rw [hdvd]
      exact Nat.mul_le_mul_right _ hquot
    rw [if_neg (Nat.not_lt.2 hlarge), Nat.mod_eq_sub_mod (Nat.not_lt.1 hover),
      Nat.mod_eq_of_lt (by omega), Nat.div_eq_of_lt (by omega), Nat.zero_mul]

end TinyServer.Lib
