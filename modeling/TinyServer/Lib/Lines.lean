import Mathlib.Data.List.Basic

/-!
# Two readers of lines

One reader ends a line at every `lf` and drops a `cr` before it, the other ends a
line only at `cr lf`. They read the same lines when every `lf` follows a `cr`.
-/

set_option autoImplicit false

namespace TinyServer.Lib

universe u

variable {α : Type u}

section Readers

variable [DecidableEq α] (cr lf : α)

/-- The lines of the reader that ends a line at every `lf`; `line` is what the
current line has so far, and the last line is the one the input ends in. -/
def readLf (line : List α) : List α → List (List α)
  | [] => [line]
  | c :: s =>
      if c = lf then
        (if line.getLast? = some cr then line.dropLast else line) :: readLf [] s
      else readLf (line ++ [c]) s

/-- The lines of the reader that ends a line only at `cr lf`. -/
def readCrlf (line : List α) : List α → List (List α)
  | [] => [line]
  | c :: s =>
      if c = lf ∧ line.getLast? = some cr then line.dropLast :: readCrlf [] s
      else readCrlf (line ++ [c]) s

end Readers

variable (cr lf : α)

/-- Every `lf` follows a `cr` directly. -/
def LfAfterCr (s : List α) : Prop := ∀ a b, s = a ++ lf :: b → a.getLast? = some cr

/-- Every `cr` stands directly before an `lf`. -/
def CrBeforeLf (s : List α) : Prop := ∀ a b, s = a ++ cr :: b → b.head? = some lf

variable {cr lf}

theorem LfAfterCr.nil : LfAfterCr cr lf ([] : List α) := by
  intro a b h
  rcases List.append_eq_nil_iff.1 h.symm with ⟨-, h⟩
  cases h

theorem CrBeforeLf.nil : CrBeforeLf cr lf ([] : List α) := by
  intro a b h
  rcases List.append_eq_nil_iff.1 h.symm with ⟨-, h⟩
  cases h

/-- The property of two texts is that of both together. -/
theorem LfAfterCr.append {s t : List α} (hs : LfAfterCr cr lf s) (ht : LfAfterCr cr lf t) :
    LfAfterCr cr lf (s ++ t) := by
  intro a b h
  rcases List.append_eq_append_iff.1 h with ⟨m, rfl, hm⟩ | ⟨m, hs', hm⟩
  · -- The `lf` stands in the second part, so it is not its first item.
    have hlast := ht m b hm
    cases m with
    | nil => cases hlast
    | cons x m => rw [List.getLast?_append, hlast, Option.some_or]
  · cases m with
    | nil =>
        have hlast := ht [] b (by simpa using hm.symm)
        cases hlast
    | cons x m =>
        obtain ⟨rfl, rfl⟩ := List.cons.inj hm
        exact hs a m hs'

/-- The property of two texts is that of both together. -/
theorem CrBeforeLf.append {s t : List α} (hs : CrBeforeLf cr lf s) (ht : CrBeforeLf cr lf t) :
    CrBeforeLf cr lf (s ++ t) := by
  intro a b h
  rcases List.append_eq_append_iff.1 h with ⟨m, rfl, hm⟩ | ⟨m, hs', hm⟩
  · exact ht m b hm
  · cases m with
    | nil => exact ht [] b (by simpa using hm.symm)
    | cons x m =>
        obtain ⟨rfl, rfl⟩ := List.cons.inj hm
        have hhead := hs a m hs'
        show (m ++ t).head? = some lf
        rw [List.head?_append, hhead, Option.some_or]

/-- A line and its end. -/
theorem LfAfterCr.line {l : List α} (hne : cr ≠ lf) (hl : lf ∉ l) :
    LfAfterCr cr lf (l ++ [cr, lf]) := by
  intro a b h
  rcases List.append_eq_append_iff.1 h with ⟨m, rfl, hm⟩ | ⟨m, rfl, hm⟩
  · cases m with
    | nil => exact absurd (List.cons.inj hm).1 hne
    | cons x m =>
        obtain ⟨rfl, hrest⟩ := List.cons.inj hm
        cases m with
        | nil => rw [List.getLast?_append, List.getLast?_singleton, Option.some_or]
        | cons y m =>
            have hlen := congrArg List.length (List.cons.inj hrest).2
            simp at hlen
  · cases m with
    | nil => exact absurd (List.cons.inj hm).1.symm hne
    | cons x m =>
        rw [(List.cons.inj hm).1] at hl
        exact absurd (List.mem_append_right a List.mem_cons_self) hl

/-- A line with its end has the property. -/
theorem CrBeforeLf.line {l : List α} (hne : cr ≠ lf) (hl : cr ∉ l) :
    CrBeforeLf cr lf (l ++ [cr, lf]) := by
  intro a b h
  rcases List.append_eq_append_iff.1 h with ⟨m, rfl, hm⟩ | ⟨m, rfl, hm⟩
  · cases m with
    | nil => rw [← (List.cons.inj hm).2, List.head?_cons]
    | cons x m =>
        have hrest : [lf] = m ++ cr :: b := (List.cons.inj hm).2
        cases m with
        | nil => exact absurd (List.cons.inj hrest).1.symm hne
        | cons y m =>
            have hlen := congrArg List.length (List.cons.inj hrest).2
            simp at hlen
  · cases m with
    | nil => rw [(List.cons.inj hm).2, List.head?_cons]
    | cons x m =>
        rw [(List.cons.inj hm).1] at hl
        exact absurd (List.mem_append_right a List.mem_cons_self) hl

section Agree

variable [DecidableEq α]

/-- Where every `lf` follows a `cr` the two readers agree. -/
theorem readCrlf_eq_readLf (hne : cr ≠ lf) {s : List α} : ∀ {line : List α},
    (∀ a b, line ++ s = a ++ lf :: b → lf ∈ line ∨ a.getLast? = some cr) → lf ∉ line →
      readCrlf cr lf line s = readLf cr lf line s := by
  induction s with
  | nil => exact fun _ _ => rfl
  | cons c s ih =>
      intro line h hline
      rw [readCrlf, readLf]
      by_cases hc : c = lf
      · subst hc
        have hlast : line.getLast? = some cr := (h line s rfl).resolve_left hline
        rw [if_pos ⟨rfl, hlast⟩, if_pos rfl, if_pos hlast]
        congr 1
        refine ih ?_ List.not_mem_nil
        intro a b hs
        -- The `lf` of the rest has its `cr` in the rest: the line just read ended in `lf`.
        have hbig : line ++ c :: s = (line ++ c :: a) ++ c :: b := by
          rw [List.nil_append] at hs
          rw [hs, List.append_assoc, List.cons_append]
        have hcr := (h _ _ hbig).resolve_left hline
        cases a with
        | nil =>
            rw [List.getLast?_append, List.getLast?_singleton, Option.some_or] at hcr
            exact absurd (Option.some.inj hcr).symm hne
        | cons x a =>
            rw [List.getLast?_append, List.getLast?_cons_cons] at hcr
            right
            cases hx : (x :: a).getLast? with
            | none => simp at hx
            | some y =>
                rw [hx, Option.some_or] at hcr
                exact hcr
      · rw [if_neg (fun h => hc h.1), if_neg hc]
        refine ih ?_ ?_
        · intro a b hs
          rw [List.append_assoc, List.singleton_append] at hs
          rcases h a b hs with hl | hl
          · exact absurd hl hline
          · exact Or.inr hl
        · rw [List.mem_append, List.mem_singleton]
          rintro (hm | hm)
          · exact hline hm
          · exact hc hm.symm

/-- A text without lone carriage returns has the same lines for both readers. -/
theorem LfAfterCr.read (hne : cr ≠ lf) {s : List α} (h : LfAfterCr cr lf s) :
    readCrlf cr lf [] s = readLf cr lf [] s :=
  readCrlf_eq_readLf hne (fun a b hs => Or.inr (h a b hs)) List.not_mem_nil

end Agree

end TinyServer.Lib
