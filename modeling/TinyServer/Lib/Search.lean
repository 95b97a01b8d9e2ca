import Mathlib.Data.List.DropRight

/-!
# First occurrences and trimming in lists

Splitting a list at the first occurrence of an element (`List.idxOf?`), and
trimming both ends of a list by a predicate.
-/

set_option autoImplicit false

namespace TinyServer.Lib

universe u

variable {α : Type u}

section FirstOccurrence

variable [BEq α] [LawfulBEq α]

/-- The first of its kind is found. -/
theorem idxOf?_append_cons {a b : List α} {c : α} (h : c ∉ a) :
    (a ++ c :: b).idxOf? c = some a.length := by
  induction a with
  | nil => simp [List.idxOf?_cons]
  | cons x a ih =>
      simp only [List.mem_cons, not_or] at h
      have hx : (x == c) = false := by simpa using fun e : x = c => h.1 e.symm
      simp [List.idxOf?_cons, hx, ih h.2]

/-- A first occurrence splits the list there. -/
theorem idxOf?_eq_some_split {l : List α} {c : α} {i : Nat} (h : l.idxOf? c = some i) :
    ∃ a b, l = a ++ c :: b ∧ c ∉ a ∧ a.length = i := by
  induction l generalizing i with
  | nil => simp at h
  | cons x l ih =>
      rw [List.idxOf?_cons] at h
      by_cases hx : x = c
      · subst hx
        simp only [beq_self_eq_true, if_true, Option.some.injEq] at h
        exact ⟨[], l, rfl, by simp, h⟩
      · have hx' : (x == c) = false := by simpa using hx
        simp only [hx', Bool.false_eq_true, if_false, Option.map_eq_some_iff] at h
        obtain ⟨j, hj, rfl⟩ := h
        obtain ⟨a, b, rfl, hc, rfl⟩ := ih hj
        exact ⟨x :: a, b, rfl, by simpa using ⟨Ne.symm hx, hc⟩, rfl⟩

/-- Two splits of one list at the first occurrence of `c` are the same split. -/
theorem split_unique {a b a' b' : List α} {c : α} (h : a ++ c :: b = a' ++ c :: b')
    (ha : c ∉ a) (ha' : c ∉ a') : a = a' ∧ b = b' := by
  have hlen : a.length = a'.length := by
    have e := idxOf?_append_cons (b := b) ha
    rw [h, idxOf?_append_cons ha'] at e
    exact (Option.some.inj e).symm
  obtain ⟨h1, h2⟩ := List.append_inj h hlen
  exact ⟨h1, (List.cons.inj h2).2⟩

end FirstOccurrence

section Trim

variable {p : α → Bool}

/-- Drop the elements of `p` from both ends. -/
def trim (p : α → Bool) (l : List α) : List α := (l.dropWhile p).rdropWhile p

theorem rdropWhile_append_of_all {l m : List α} (h : m.all p = true) :
    (l ++ m).rdropWhile p = l.rdropWhile p := by
  induction m using List.reverseRecOn with
  | nil => simp
  | append_singleton m x ih =>
      simp only [List.all_append, List.all_cons, List.all_nil, Bool.and_true,
        Bool.and_eq_true] at h
      rw [← List.append_assoc, List.rdropWhile_concat_pos _ _ _ h.2, ih h.1]

/-- What trimming removes on the right belongs to `p`. -/
theorem exists_rdropWhile_append (p : α → Bool) (l : List α) :
    ∃ t, l = l.rdropWhile p ++ t ∧ t.all p = true :=
  ⟨l.rtakeWhile p, List.rdropWhile_append_rtakeWhile.symm, by
    rw [List.all_eq_true]
    exact fun x hx => List.mem_rtakeWhile_imp hx⟩

/-- Trimming splits a list into removed front, result and removed back. -/
theorem exists_trim_split (p : α → Bool) (l : List α) :
    ∃ t, l = l.takeWhile p ++ trim p l ++ t ∧ t.all p = true := by
  obtain ⟨t, ht, hp⟩ := exists_rdropWhile_append p (l.dropWhile p)
  refine ⟨t, ?_, hp⟩
  rw [List.append_assoc, trim, ← ht, List.takeWhile_append_dropWhile]

/-- What is trimmed has nothing left to trim. -/
theorem trim_trim (l : List α) : trim p (trim p l) = trim p l := by
  have hhead : (trim p l).dropWhile p = trim p l := by
    unfold trim
    rcases hd : (l.dropWhile p).rdropWhile p with _ | ⟨x, xs⟩
    · rfl
    · have hpre : x :: xs <+: l.dropWhile p := hd ▸ List.rdropWhile_prefix p _
      obtain ⟨t, ht⟩ := hpre
      have hx : (l.dropWhile p).head? = some x := by rw [← ht]; rfl
      have := List.head?_dropWhile_not p l
      rw [hx] at this
      exact List.dropWhile_cons_of_neg (by simpa using this)
  calc trim p (trim p l) = ((trim p l).dropWhile p).rdropWhile p := rfl
    _ = (trim p l).rdropWhile p := by rw [hhead]
    _ = trim p l := by unfold trim; exact List.rdropWhile_idempotent p _

theorem dropWhile_append_of_all {l m : List α} (h : l.all p = true) :
    (l ++ m).dropWhile p = m.dropWhile p :=
  List.dropWhile_append_of_pos (List.all_eq_true.1 h)

/-- The first element of a trimmed list is outside `p`. -/
theorem head_of_trim_eq {x : α} {v : List α} (h : trim p (x :: v) = x :: v) : p x = false := by
  by_contra hx
  have hx' : p x = true := by simpa using hx
  have e : trim p (x :: v) = trim p v := by
    unfold trim
    rw [List.dropWhile_cons_of_pos hx']
  have hlen : (trim p v).length ≤ v.length :=
    le_trans (List.rdropWhile_prefix p _).length_le (List.dropWhile_suffix p).length_le
  rw [← e, h, List.length_cons] at hlen
  omega

/-- A trimmed list is recovered from any padding by `p`. -/
theorem trim_pad {a v b : List α} (ha : a.all p = true) (hb : b.all p = true)
    (hv : trim p v = v) : trim p (a ++ v ++ b) = v := by
  have h1 : (a ++ v ++ b).dropWhile p = (v ++ b).dropWhile p := by
    rw [List.append_assoc]
    exact dropWhile_append_of_all ha
  unfold trim
  rw [h1]
  rcases v with _ | ⟨x, v⟩
  · have : b.dropWhile p = [] := by
      rw [List.dropWhile_eq_nil_iff]
      exact List.all_eq_true.1 hb
    simp [this]
  · have hx : ¬ p x = true := by simp [head_of_trim_eq hv]
    have hd : (x :: v).dropWhile p = x :: v := List.dropWhile_cons_of_neg hx
    have hr : (x :: v).rdropWhile p = x :: v := by
      have hv' := hv
      rw [trim, hd] at hv'
      exact hv'
    rw [List.cons_append, List.dropWhile_cons_of_neg hx, ← List.cons_append,
      rdropWhile_append_of_all hb, hr]

/-- The padding in front of a value. -/
theorem takeWhile_pad {a b : List α} {x : α} {v : List α} (ha : a.all p = true)
    (hx : p x = false) : (a ++ (x :: v) ++ b).takeWhile p = a := by
  rw [List.append_assoc, List.takeWhile_append_of_pos (List.all_eq_true.1 ha), List.cons_append,
    List.takeWhile_cons_of_neg (by simp [hx]), List.append_nil]

end Trim

end TinyServer.Lib
