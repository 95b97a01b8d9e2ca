import Mathlib.Data.List.TakeWhile

/-!
# Segments of a list

A list cut at every occurrence of a separator. `pieces` are the cuts that are not
empty, in order: leading, trailing and repeated separators do not count. A scanner
that skips separators and takes the next run of other elements lists the pieces
(`pieces_dropWhile`, `pieces_takeWhile`).
-/

set_option autoImplicit false

namespace TinyServer.Lib

universe u

variable {α : Type u} [DecidableEq α] {sep : α}

/-- The non-empty cuts of `l` at `sep`. -/
def pieces (sep : α) (l : List α) : List (List α) := (l.splitOn sep).filter (· ≠ [])

theorem pieces_nil : pieces sep [] = [] := rfl

/-- A separator in front does not count. -/
theorem pieces_sep_cons (l : List α) : pieces sep (sep :: l) = pieces sep l := by
  have h := List.splitOn_append_cons_self_of_not_mem (List.not_mem_nil (a := sep)) l
  unfold pieces
  rw [List.nil_append] at h
  rw [h, List.filter_cons_of_neg (by simp)]

/-- Separators in front make no pieces. -/
theorem pieces_dropWhile (l : List α) : pieces sep (l.dropWhile (· == sep)) = pieces sep l := by
  induction l with
  | nil => rfl
  | cons x l ih =>
      by_cases hx : x = sep
      · rw [List.dropWhile_cons_of_pos (by simpa using hx), ih, hx, pieces_sep_cons]
      · rw [List.dropWhile_cons_of_neg (by simpa using hx)]

theorem not_mem_takeWhile_ne (l : List α) : sep ∉ l.takeWhile (· != sep) := by
  intro h
  induction l with
  | nil => cases h
  | cons x l ih =>
      by_cases hx : x = sep
      · rw [List.takeWhile_cons_of_neg (by simpa using hx)] at h
        cases h
      · rw [List.takeWhile_cons_of_pos (by simpa using hx)] at h
        rcases List.mem_cons.1 h with h | h
        · exact hx h.symm
        · exact ih h

/-- The first run of other elements is the first piece. -/
theorem pieces_takeWhile {x : α} (l : List α) (hx : x ≠ sep) :
    pieces sep (x :: l) = (x :: l).takeWhile (· != sep) ::
      pieces sep ((x :: l).dropWhile (· != sep)) := by
  have hseg : sep ∉ (x :: l).takeWhile (· != sep) := not_mem_takeWhile_ne (x :: l)
  have hne : (x :: l).takeWhile (· != sep) ≠ [] := by
    rw [List.takeWhile_cons_of_pos (by simpa using hx)]
    exact List.cons_ne_nil _ _
  have hsplit := List.takeWhile_append_dropWhile (p := (· != sep)) (l := x :: l)
  generalize (x :: l).takeWhile (· != sep) = seg at hseg hne hsplit
  generalize hrest : (x :: l).dropWhile (· != sep) = rest at hsplit
  rw [← hsplit]
  cases rest with
  | nil =>
      unfold pieces
      rw [List.append_nil, List.splitOn_eq_singleton hseg, List.filter_cons_of_pos (by simpa using hne)]
      rfl
  | cons y rest =>
      -- The run ends at a separator.
      have hy : y = sep := by
        have h := List.head?_dropWhile_not (· != sep) (x :: l)
        rw [hrest] at h
        simpa using h
      rw [hy, pieces_sep_cons]
      unfold pieces
      rw [List.splitOn_append_cons_self_of_not_mem hseg,
        List.filter_cons_of_pos (by simpa using hne)]

/-- Without pieces there are only separators. -/
theorem eq_sep_of_pieces_nil {l : List α} (h : pieces sep l = []) : ∀ x ∈ l, x = sep := by
  induction l with
  | nil => exact nofun
  | cons y l ih =>
      intro x hx
      by_cases hy : y = sep
      · rw [hy, pieces_sep_cons] at h
        rcases List.mem_cons.1 hx with rfl | hx
        · exact hy
        · exact ih h x hx
      · rw [pieces_takeWhile l hy] at h
        cases h

/-- A cut has no separator, and its elements are elements of the list. -/
theorem mem_splitOn (l : List α) : ∀ s ∈ l.splitOn sep, sep ∉ s ∧ ∀ x ∈ s, x ∈ l := by
  induction l with
  | nil =>
      intro s hs
      rw [List.splitOn_nil, List.mem_singleton] at hs
      rw [hs]
      exact ⟨List.not_mem_nil, fun _ h => h⟩
  | cons x l ih =>
      intro s hs
      rw [List.splitOn_cons_eq_if_modifyHead] at hs
      split at hs
      · rcases List.mem_cons.1 hs with rfl | hs
        · exact ⟨List.not_mem_nil, nofun⟩
        · exact ⟨(ih s hs).1, fun y hy => List.mem_cons_of_mem x ((ih s hs).2 y hy)⟩
      · rename_i hx
        cases hcuts : l.splitOn sep with
        | nil => exact absurd hcuts (List.splitOn_ne_nil sep l)
        | cons cut cuts =>
            rw [hcuts] at hs ih
            rcases List.mem_cons.1 hs with rfl | hs
            · obtain ⟨hsep, hmem⟩ := ih cut List.mem_cons_self
              constructor
              · intro h
                rcases List.mem_cons.1 h with h | h
                · exact hx (by simp [h])
                · exact hsep h
              · intro y hy
                rcases List.mem_cons.1 hy with rfl | hy
                · exact List.mem_cons_self
                · exact List.mem_cons_of_mem x (hmem y hy)
            · obtain ⟨hsep, hmem⟩ := ih s (List.mem_cons_of_mem cut hs)
              exact ⟨hsep, fun y hy => List.mem_cons_of_mem x (hmem y hy)⟩

/-- A piece is not empty and has no separator. -/
theorem mem_pieces {l s : List α} (h : s ∈ pieces sep l) :
    s ≠ [] ∧ sep ∉ s ∧ ∀ x ∈ s, x ∈ l := by
  obtain ⟨hs, hne⟩ := List.mem_filter.1 h
  exact ⟨by simpa using hne, mem_splitOn l s hs⟩

/-- Without a separator there is one piece. -/
theorem pieces_of_not_mem {l : List α} (hne : l ≠ []) (h : sep ∉ l) : pieces sep l = [l] := by
  rw [pieces, List.splitOn_eq_singleton h, List.filter_cons_of_pos (by simpa using hne)]
  rfl

/-- The pieces of the first run, and those of the rest. -/
theorem pieces_span (l : List α) : pieces sep l =
    pieces sep (l.takeWhile (· != sep)) ++ pieces sep (l.dropWhile (· != sep)) := by
  cases l with
  | nil => rfl
  | cons x l =>
      by_cases hx : x = sep
      · rw [List.takeWhile_cons_of_neg (by simpa using hx), List.dropWhile_cons_of_neg (by simpa using hx)]
        rfl
      · have hne : (x :: l).takeWhile (· != sep) ≠ [] := by
          rw [List.takeWhile_cons_of_pos (by simpa using hx)]
          exact List.cons_ne_nil _ _
        rw [pieces_takeWhile l hx, pieces_of_not_mem hne (not_mem_takeWhile_ne (x :: l))]
        rfl

/-- The pieces before a separator and those after it. -/
theorem pieces_append (l r : List α) : pieces sep (l ++ sep :: r) = pieces sep l ++ pieces sep r := by
  rw [pieces, List.splitOn_append_cons_self, List.filter_append]
  rfl

/-- What follows takes no piece away. -/
theorem pieces_length_le (n : Nat) : ∀ {l : List α} (r : List α), l.length ≤ n →
    (pieces sep l).length ≤ (pieces sep (l ++ r)).length := by
  induction n with
  | zero =>
      intro l r hn
      rw [List.length_eq_zero_iff.1 (Nat.le_zero.1 hn)]
      exact Nat.zero_le _
  | succ n ih =>
      intro l r hn
      cases l with
      | nil => exact Nat.zero_le _
      | cons x l =>
          by_cases hx : x = sep
          · rw [hx, List.cons_append, pieces_sep_cons, pieces_sep_cons]
            exact ih r (Nat.le_of_succ_le_succ hn)
          · have hdrop : ∀ m, (x :: m).dropWhile (· != sep) = m.dropWhile (· != sep) :=
              fun m => List.dropWhile_cons_of_pos (by simpa using hx)
            rw [List.cons_append, pieces_takeWhile l hx, pieces_takeWhile _ hx, List.length_cons,
              List.length_cons, hdrop, hdrop, List.dropWhile_append]
            apply Nat.succ_le_succ
            split
            · rename_i hend
              rw [List.isEmpty_iff.1 hend]
              exact Nat.zero_le _
            · have hlen := (List.dropWhile_suffix (l := l) (· != sep)).length_le
              exact ih r (hlen.trans (Nat.le_of_succ_le_succ hn))

/-- The pieces make up what is no separator. -/
theorem flatten_pieces (l : List α) : (pieces sep l).flatten = l.filter (· ≠ sep) := by
  have hfilter : ∀ ls : List (List α), (ls.filter (· ≠ [])).flatten = ls.flatten := by
    intro ls
    induction ls with
    | nil => rfl
    | cons s ls ih =>
        by_cases hs : s = []
        · rw [List.filter_cons_of_neg (by simpa using hs), ih, hs]
          rfl
        · rw [List.filter_cons_of_pos (by simpa using hs), List.flatten_cons, List.flatten_cons, ih]
  rw [pieces, hfilter]
  induction l with
  | nil => rfl
  | cons x l ih =>
      rw [List.splitOn_cons_eq_if_modifyHead]
      by_cases hx : x = sep
      · rw [if_pos (by simpa using hx), List.flatten_cons, List.nil_append, ih,
          List.filter_cons_of_neg (by simpa using hx)]
      · rw [if_neg (by simpa using hx), List.filter_cons_of_pos (by simpa using hx), ← ih]
        cases hcuts : l.splitOn sep with
        | nil => exact absurd hcuts (List.splitOn_ne_nil sep l)
        | cons s ls => rfl

omit [DecidableEq α] in
/-- One more piece at the end. -/
theorem intercalate_concat {ls : List (List α)} (s : List α) (h : ls ≠ []) :
    [sep].intercalate (ls ++ [s]) = [sep].intercalate ls ++ sep :: s := by
  induction ls with
  | nil => exact absurd rfl h
  | cons l ls ih =>
      cases ls with
      | nil => simp
      | cons l' ls =>
          rw [List.cons_append, List.cons_append, List.intercalate_cons_cons, ← List.cons_append,
            ih (List.cons_ne_nil _ _), List.intercalate_cons_cons]
          simp

/-- Cutting what was joined gives the parts back. -/
theorem pieces_intercalate {ls : List (List α)} (hls : ls ≠ []) (h : ∀ l ∈ ls, l ≠ [] ∧ sep ∉ l) :
    pieces sep ([sep].intercalate ls) = ls := by
  unfold pieces
  rw [List.splitOn_intercalate sep (fun l hl => (h l hl).2) hls, List.filter_eq_self]
  intro l hl
  simpa using (h l hl).1

end TinyServer.Lib
