import Mathlib.Data.List.TakeWhile
import TinyServer.Lib.Handles

/-!
# Ledgers of resources

Threads take resources from the system, use them and give them back, and a ledger lists this
in order. The system does not hand out what is still taken (`Fresh`). A ledger is safe if only
what is taken is used or given back (`Safe`). A program keeps its resources in places, and its
books are in order (`Books`) if the places have exactly what is taken: taking into an empty
place, using from a place and giving up a place keep them so. When no place has a resource,
each one that was ever taken was given back once, and was not used after that (`Lifetime`).
-/

set_option autoImplicit false

namespace TinyServer.Lib

universe u v

variable {ι : Type u} {ρ : Type v}

/-- A line of the ledger: a resource is taken, used or given back. -/
inductive Entry (ρ : Type v)
  | take (r : ρ)
  | use (r : ρ)
  | give (r : ρ)
  deriving DecidableEq, Repr

section Ledger

variable [DecidableEq ρ] {log as bs : List (Entry ρ)} {e : Entry ρ} {r : ρ}

namespace Entry

/-- What is taken after an entry. -/
def after (held : ρ → Option Unit) : Entry ρ → ρ → Option Unit
  | .take r => Function.update held r (some ())
  | .use _ => held
  | .give r => Function.update held r none

/-- The system does not hand out what is still taken. -/
def Fresh (held : ρ → Option Unit) : Entry ρ → Prop
  | .take r => held r = none
  | _ => True

/-- What is used or given back is taken. -/
def Safe (held : ρ → Option Unit) : Entry ρ → Prop
  | .take _ => True
  | .use r | .give r => held r = some ()

instance (held : ρ → Option Unit) (e : Entry ρ) : Decidable (e.Fresh held) :=
  match e with
  | .take r => inferInstanceAs (Decidable (held r = none))
  | .use _ | .give _ => isTrue trivial

end Entry

/-- What is taken after the log. -/
def takenAfter (held : ρ → Option Unit) (log : List (Entry ρ)) : ρ → Option Unit :=
  log.foldl Entry.after held

/-- Each resource of the log is free when it is taken. -/
def FreshFrom : (ρ → Option Unit) → List (Entry ρ) → Prop
  | _, [] => True
  | held, e :: log => e.Fresh held ∧ FreshFrom (e.after held) log

/-- Each resource of the log is there when it is used or given back. -/
def SafeFrom : (ρ → Option Unit) → List (Entry ρ) → Prop
  | _, [] => True
  | held, e :: log => e.Safe held ∧ SafeFrom (e.after held) log

instance FreshFrom.decidable : ∀ (held : ρ → Option Unit) (log : List (Entry ρ)),
    Decidable (FreshFrom held log)
  | _, [] => isTrue trivial
  | held, e :: log =>
      have : Decidable (FreshFrom (e.after held) log) := FreshFrom.decidable _ log
      inferInstanceAs (Decidable (e.Fresh held ∧ FreshFrom (e.after held) log))

/-- What is taken in the end, where nothing was at first. -/
def taken (log : List (Entry ρ)) : ρ → Option Unit := takenAfter (fun _ => none) log

/-- The system hands out only what is free. -/
def Fresh (log : List (Entry ρ)) : Prop := FreshFrom (fun _ => none) log

/-- Only what is taken is used and given back. -/
def Safe (log : List (Entry ρ)) : Prop := SafeFrom (fun _ => none) log

instance (log : List (Entry ρ)) : Decidable (Fresh log) := FreshFrom.decidable _ log

/-! ## Ledgers one after the other -/

/-- A log is fresh if its parts are, the second after the first. -/
theorem freshFrom_append : ∀ {held : ρ → Option Unit},
    FreshFrom held (as ++ bs) ↔ FreshFrom held as ∧ FreshFrom (takenAfter held as) bs := by
  induction as with
  | nil => simp [FreshFrom, takenAfter]
  | cons e as ih =>
      intro held
      simp only [List.cons_append, FreshFrom, ih, and_assoc]
      rfl

/-- A log is safe if its parts are, the second after the first. -/
theorem safeFrom_append : ∀ {held : ρ → Option Unit},
    SafeFrom held (as ++ bs) ↔ SafeFrom held as ∧ SafeFrom (takenAfter held as) bs := by
  induction as with
  | nil => simp [SafeFrom, takenAfter]
  | cons e as ih =>
      intro held
      simp only [List.cons_append, SafeFrom, ih, and_assoc]
      rfl

/-- The same for one more entry. -/
theorem fresh_concat : Fresh (log ++ [e]) ↔ Fresh log ∧ e.Fresh (taken log) := by
  unfold Fresh
  rw [freshFrom_append]
  exact and_congr_right fun _ => and_iff_left trivial

/-- The same for one more entry. -/
theorem safe_concat : Safe (log ++ [e]) ↔ Safe log ∧ e.Safe (taken log) := by
  unfold Safe
  rw [safeFrom_append]
  exact and_congr_right fun _ => and_iff_left trivial

/-- What is taken after one more entry. -/
theorem taken_concat : taken (log ++ [e]) = e.after (taken log) := by
  unfold taken takenAfter
  rw [List.foldl_append]
  rfl

/-! ## The life of a resource -/

/-- After `r` was taken it is given back, and is not used again before it is taken again. -/
def Lifetime (r : ρ) (log : List (Entry ρ)) : Prop :=
  ∃ cs ds, log = cs ++ .give r :: ds ∧ (∀ e ∈ cs, e ≠ .take r ∧ e ≠ .give r) ∧
    ∀ e ∈ ds.takeWhile (· ≠ .take r), e ≠ .use r ∧ e ≠ .give r

/-- What is not taken is not used. -/
theorem unused_of_free : ∀ {held : ρ → Option Unit}, SafeFrom held log → held r = none →
    ∀ e ∈ log.takeWhile (· ≠ .take r), e ≠ .use r ∧ e ≠ .give r := by
  induction log with
  | nil => simp
  | cons x log ih =>
      intro held hsafe hfree e he
      obtain ⟨hx, hsafe⟩ := hsafe
      by_cases hstop : x = .take r
      · rw [List.takeWhile_cons_of_neg (by simpa using hstop)] at he
        cases he
      rw [List.takeWhile_cons_of_pos (by simpa using hstop)] at he
      have hne : x ≠ .use r ∧ x ≠ .give r := by
        constructor
        · rintro rfl
          exact absurd (hfree.symm.trans hx) (by simp)
        · rintro rfl
          exact absurd (hfree.symm.trans hx) (by simp)
      have hnext : x.after held r = none := by
        cases x with
        | take s =>
            have hs : r ≠ s := fun h => hstop (congrArg Entry.take h.symm)
            exact (Function.update_of_ne hs _ _).trans hfree
        | use s => exact hfree
        | give s =>
            have hs : r ≠ s := fun h => hne.2 (congrArg Entry.give h.symm)
            exact (Function.update_of_ne hs _ _).trans hfree
      rcases List.mem_cons.1 he with rfl | he
      · exact hne
      · exact ih hsafe hnext e he

/-- What is taken, and not in the end, is given back once. -/
theorem lifetime_of_taken : ∀ {held : ρ → Option Unit}, SafeFrom held log → FreshFrom held log →
    held r = some () → takenAfter held log r = none → Lifetime r log := by
  induction log with
  | nil =>
      intro held _ _ htaken hfree
      exact absurd (htaken.symm.trans hfree) (by simp)
  | cons x log ih =>
      intro held hsafe hfresh htaken hfree
      obtain ⟨-, hsafe⟩ := hsafe
      obtain ⟨hx, hfresh⟩ := hfresh
      by_cases hgive : x = .give r
      · subst hgive
        exact ⟨[], log, rfl, by simp, unused_of_free hsafe (Function.update_self _ _ _)⟩
      have htake : x ≠ .take r := by
        rintro rfl
        exact absurd (htaken.symm.trans hx) (by simp)
      have hnext : x.after held r = some () := by
        cases x with
        | take s =>
            have hs : r ≠ s := fun h => htake (congrArg Entry.take h.symm)
            exact (Function.update_of_ne hs _ _).trans htaken
        | use s => exact htaken
        | give s =>
            have hs : r ≠ s := fun h => hgive (congrArg Entry.give h.symm)
            exact (Function.update_of_ne hs _ _).trans htaken
      obtain ⟨cs, ds, rfl, hcs, hds⟩ := ih hsafe hfresh hnext hfree
      refine ⟨x :: cs, ds, rfl, fun e he => ?_, hds⟩
      rcases List.mem_cons.1 he with rfl | he
      · exact ⟨htake, hgive⟩
      · exact hcs e he

/-- From where a resource is taken it is used while it is there, and given back at most once. -/
theorem Safe.lifetime (hsafe : Safe log) (hfresh : Fresh log) (hfree : taken log r = none)
    (hsplit : log = as ++ .take r :: bs) : Lifetime r bs := by
  subst hsplit
  obtain ⟨-, -, hsafe⟩ := safeFrom_append.1 hsafe
  obtain ⟨-, -, hfresh⟩ := freshFrom_append.1 hfresh
  refine lifetime_of_taken hsafe hfresh (Function.update_self _ _ _) ?_
  unfold taken takenAfter at hfree
  rw [List.foldl_append] at hfree
  exact hfree

end Ledger

/-! ## Books -/

/-- The places as holders of handles. -/
def placed (place : ι → Option ρ) (i : ι) : Option (ρ × Nat) := (place i).map (·, 0)

/-- The places have what is taken, each resource in one place. -/
structure Kept [DecidableEq ρ] (place : ι → Option ρ) (log : List (Entry ρ)) : Prop where
  safe : Safe log
  counted : Counted (fun _ => ()) () (placed place) (fun _ => 0) (taken log)
  covered : Covered () (placed place) (taken log) fun _ => False

/-- The books are in order as long as the system is. -/
def Books [DecidableEq ρ] (place : ι → Option ρ) (log : List (Entry ρ)) : Prop :=
  Fresh log → Kept place log

section Books

variable [DecidableEq ι] [DecidableEq ρ] {place : ι → Option ρ} {log as bs : List (Entry ρ)} {i : ι}
  {r : ρ}

omit [DecidableEq ρ] in
/-- What the places hold after one of them changed. -/
theorem placed_update (i : ι) (p : Option ρ) :
    placed (Function.update place i p) = Function.update (placed place) i (p.map (·, 0)) := by
  funext j
  by_cases hj : j = i
  · subst hj
    simp [placed]
  · simp [placed, hj]

omit [DecidableEq ι] in
/-- Nothing is taken, and no place has anything. -/
theorem Books.start : Books (fun _ : ι => (none : Option ρ)) [] := by
  intro _
  refine ⟨trivial, ⟨?_, ?_, ?_, ?_⟩, ?_⟩
  · intro i j k n m h
    cases h
  · intro i k n h
    cases h
  · intro i k n h
    cases h
  · intro k h
    exact absurd rfl h
  · intro k h
    cases h

/-- A resource is taken into an empty place. -/
theorem Books.take (h : Books place log) (hi : place i = none) (r : ρ) :
    Books (Function.update place i (some r)) (log ++ [.take r]) := by
  intro hfresh
  obtain ⟨hfresh, hnew⟩ := fresh_concat.1 hfresh
  obtain ⟨hsafe, hcounted, hcovered⟩ := h hfresh
  have hempty : placed place i = none := by rw [placed, hi]; rfl
  refine ⟨safe_concat.2 ⟨hsafe, trivial⟩, ?_, ?_⟩
  · rw [placed_update, taken_concat]
    exact hcounted.insert hnew
  · rw [placed_update, taken_concat]
    exact hcovered.insert hempty ()

omit [DecidableEq ι] in
/-- What a place has is taken. -/
theorem Kept.taken (h : Kept place log) (hi : place i = some r) : taken log r = some () := by
  apply h.counted.isOpen i r 0
  rw [placed, hi]
  rfl

omit [DecidableEq ι] in
/-- What a place has is used. -/
theorem Books.use (h : Books place log) (hi : place i = some r) :
    Books place (log ++ [.use r]) := by
  intro hfresh
  have hk := h (fresh_concat.1 hfresh).1
  refine ⟨safe_concat.2 ⟨hk.safe, hk.taken hi⟩, ?_, ?_⟩
  · rw [taken_concat]
    exact hk.counted
  · rw [taken_concat]
    exact hk.covered

/-- What a place has is given back. -/
theorem Books.give (h : Books place log) (hi : place i = some r) :
    Books (Function.update place i none) (log ++ [.give r]) := by
  intro hfresh
  have hk := h (fresh_concat.1 hfresh).1
  have hplace : placed place i = some (r, 0) := by rw [placed, hi]; rfl
  refine ⟨safe_concat.2 ⟨hk.safe, hk.taken hi⟩, ?_, ?_⟩
  · rw [placed_update, taken_concat]
    exact hk.counted.close hplace
  · rw [placed_update, taken_concat]
    exact hk.covered.close hplace

omit [DecidableEq ι] in
/-- Where no place has a resource, none is taken. -/
theorem Kept.free (h : Kept place log) (hnone : ∀ i, place i = none) (r : ρ) : Lib.taken log r = none := by
  cases ht : Lib.taken log r with
  | none => rfl
  | some u =>
      rcases h.covered r ht with ⟨i, n, hi⟩ | hlost
      · rw [placed, hnone i] at hi
        cases hi
      · exact hlost.elim

omit [DecidableEq ι] in
/-- Each resource that was taken was given back once. -/
theorem Kept.lifetimes (h : Kept place log) (hfresh : Fresh log) (hnone : ∀ i, place i = none) :
    ∀ as r bs, log = as ++ .take r :: bs → Lifetime r bs := by
  intro as r bs hsplit
  exact h.safe.lifetime hfresh (h.free hnone r) hsplit

end Books

end TinyServer.Lib
