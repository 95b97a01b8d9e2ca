import Mathlib.Data.List.Basic

/-!
# Bytes through a buffer

A writer has a buffer with an offset; what went out followed by what is still in
the buffer is what was produced. Sending part of the rest keeps the sum.
-/

set_option autoImplicit false

namespace TinyServer.Lib

universe u

variable {α : Type u}

/-- Sending `n` items of the rest of a buffer. -/
theorem sent_append_rest (sent buf : List α) (off n : Nat) :
    (sent ++ (buf.drop off).take n) ++ buf.drop (off + n) = sent ++ buf.drop off := by
  rw [List.append_assoc, ← List.drop_drop, List.take_append_drop]

/-- Sending `n` items of the rests of two buffers, the first one first. -/
theorem sent_append_rest₂ (sent a b : List α) (i j n : Nat) :
    (sent ++ (a.drop i ++ b.drop j).take n) ++
        (a.drop (i + min n (a.drop i).length) ++ b.drop (j + (n - (a.drop i).length))) =
      sent ++ (a.drop i ++ b.drop j) := by
  rw [List.append_assoc, ← List.drop_drop, ← List.drop_drop]
  congr 1
  have hdrop : (a.drop i).drop (min n (a.drop i).length) = (a.drop i).drop n := by
    rcases Nat.le_total n (a.drop i).length with h | h
    · rw [Nat.min_eq_left h]
    · rw [Nat.min_eq_right h, List.drop_length, List.drop_eq_nil_of_le h]
  rw [hdrop, ← List.drop_append, List.take_append_drop]

end TinyServer.Lib
