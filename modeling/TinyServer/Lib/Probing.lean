import Mathlib.Data.Fintype.Basic
import Mathlib.Logic.Function.Basic

/-!
# Open addressing with linear probing

A table of `n` slots. A key has a slot where its probe starts, and the probe goes from one
slot to the next, around the end. An empty slot ends a probe, a tombstone does not. `Chained`
is what makes the probes find everything: no empty slot stands between the start of a live
key and its own slot. Under it the table is a finite map: `find` gives exactly what is live
(`Chained.find_iff`), and `free` finds a slot for a new key that keeps the table chained
(`Chained.insert`), unless every slot is live (`free_eq_none`).
-/

set_option autoImplicit false

namespace TinyServer.Lib.Probing

universe u v

/-- A place of a table with open addressing. -/
inductive Slot (κ : Type u) (ν : Type v) where
  | empty
  | tombstone
  | live (key : κ) (val : ν)

namespace Slot

variable {κ : Type u} {ν : Type v}

/-- The slot holds no key. -/
def IsFree (s : Slot κ ν) : Prop := ∀ k x, s ≠ live k x

end Slot

variable {κ : Type u} {ν : Type v} {n : Nat}

/-! ## Positions -/

/-- The slot `d` places behind `s`, around the end. -/
def seat (s : Fin n) (d : Nat) : Fin n := ⟨(s.val + d) % n, Nat.mod_lt _ s.pos⟩

/-- The place after `i`, around the end. -/
def next (i : Fin n) : Fin n := seat i 1

theorem seat_zero (s : Fin n) : seat s 0 = s := by
  apply Fin.ext
  exact Nat.mod_eq_of_lt s.isLt

/-- The seats follow one another. -/
theorem next_seat (s : Fin n) (d : Nat) : next (seat s d) = seat s (d + 1) := by
  apply Fin.ext
  show ((s.val + d) % n + 1) % n = (s.val + (d + 1)) % n
  rw [Nat.mod_add_mod, Nat.add_assoc]

/-- The number of a seat, around the end. -/
theorem seat_val (s : Fin n) {d : Nat} (hd : d < n) :
    (seat s d).val = if s.val + d < n then s.val + d else s.val + d - n := by
  have hs := s.isLt
  show (s.val + d) % n = _
  split
  · exact Nat.mod_eq_of_lt ‹_›
  · rw [Nat.mod_eq_sub_mod (by omega)]
    exact Nat.mod_eq_of_lt (by omega)

/-- The first `n` seats differ. -/
theorem seat_inj {s : Fin n} {d d' : Nat} (hd : d < n) (hd' : d' < n) (h : seat s d = seat s d') :
    d = d' := by
  have hs := s.isLt
  have hval := congrArg Fin.val h
  rw [seat_val s hd, seat_val s hd'] at hval
  split at hval
  · split at hval
    · omega
    · omega
  · split at hval
    · omega
    · omega

/-- Every slot is behind every other one. -/
theorem exists_seat (s i : Fin n) : ∃ d < n, seat s d = i := by
  have hs := s.isLt
  have hi := i.isLt
  by_cases hle : s.val ≤ i.val
  · refine ⟨i.val - s.val, by omega, Fin.ext ?_⟩
    rw [seat_val s (by omega), if_pos (by omega)]
    omega
  · refine ⟨i.val + n - s.val, by omega, Fin.ext ?_⟩
    rw [seat_val s (by omega), if_neg (by omega)]
    omega

/-! ## The two probes -/

/-- The probe for a key. -/
def find [DecidableEq κ] (t : Fin n → Slot κ ν) (key : κ) : Nat → Fin n → Option (Fin n × ν)
  | 0, _ => none
  | m + 1, i =>
      match t i with
      | .empty => none
      | .tombstone => find t key m (next i)
      | .live k x => if k = key then some (i, x) else find t key m (next i)

/-- The probe for a place: the first empty slot, or else the first tombstone. -/
def free (t : Fin n → Slot κ ν) : Nat → Fin n → Option (Fin n) → Option (Fin n)
  | 0, _, reuse => reuse
  | m + 1, i, reuse =>
      match t i with
      | .empty => some i
      | .tombstone => free t m (next i) (reuse.orElse fun _ => some i)
      | .live _ _ => free t m (next i) reuse

/-- No probe of a live key ends before its slot, and no key is live twice. -/
structure Chained (start : κ → Fin n) (t : Fin n → Slot κ ν) : Prop where
  chain : ∀ k x d, d < n → t (seat (start k) d) = .live k x →
    ∀ d' < d, t (seat (start k) d') ≠ .empty
  once : ∀ i j k x y, t i = .live k x → t j = .live k y → i = j

variable {start : κ → Fin n} {t : Fin n → Slot κ ν}

/-- What is found is at the place where it is found. -/
theorem find_live [DecidableEq κ] {key : κ} {x : ν} (m : Nat) : ∀ i j : Fin n,
    find t key m i = some (j, x) → t j = .live key x := by
  induction m with
  | zero => exact fun _ _ h => nomatch h
  | succ m ih =>
      intro i j h
      rw [find] at h
      cases hi : t i with
      | empty =>
          rw [hi] at h
          cases h
      | tombstone =>
          rw [hi] at h
          exact ih _ _ h
      | live k y =>
          rw [hi] at h
          dsimp only at h
          split at h
          · rename_i hk
            cases h
            rw [hi, hk]
          · exact ih _ _ h

/-- The probe from the place `d` reaches a live key at the place `d + m`. -/
theorem Chained.find_seat [DecidableEq κ] (h : Chained start t) {key : κ} {x : ν} {e : Nat} (he : e < n)
    (hlive : t (seat (start key) e) = .live key x) : ∀ m d : Nat, d ≤ e → e < d + m →
      find t key m (seat (start key) d) = some (seat (start key) e, x) := by
  intro m
  induction m with
  | zero =>
      intro d hd hm
      omega
  | succ m ih =>
      intro d hd hm
      rw [find]
      rcases Nat.eq_or_lt_of_le hd with rfl | hlt
      · rw [hlive]
        exact if_pos rfl
      · have hrest := ih (d + 1) hlt (by omega)
        rw [← next_seat] at hrest
        cases hslot : t (seat (start key) d) with
        | empty => exact absurd hslot (h.chain key x e he hlive d hlt)
        | tombstone => exact hrest
        | live k y =>
            -- Another key, as this one stands at `e`.
            have hne : k ≠ key := by
              rintro rfl
              exact Nat.ne_of_lt hlt (seat_inj (hlt.trans he) he (h.once _ _ _ _ _ hslot hlive))
            dsimp only
            rw [if_neg hne]
            exact hrest

/-- A whole probe finds exactly the live key. -/
theorem Chained.find_iff [DecidableEq κ] (h : Chained start t) {key : κ} {i : Fin n} {x : ν} :
    find t key n (start key) = some (i, x) ↔ t i = .live key x := by
  constructor
  · exact find_live n _ _
  · intro hlive
    obtain ⟨e, he, rfl⟩ := exists_seat (start key) i
    have hfind := h.find_seat he hlive n 0 (Nat.zero_le _) (by omega)
    rwa [seat_zero] at hfind

/-- What the probe for a place has seen before it stands at `d`: no empty slot, and the
first tombstone. -/
structure Seen (t : Fin n → Slot κ ν) (s : Fin n) (d : Nat) (reuse : Option (Fin n)) : Prop where
  full : ∀ d' < d, t (seat s d') ≠ .empty
  kept : ∀ r, reuse = some r → ∃ e < d, r = seat s e ∧ (t r).IsFree
  live : reuse = none → ∀ d' < d, ¬ (t (seat s d')).IsFree

/-- Before the first place nothing has been seen. -/
theorem Seen.none (t : Fin n → Slot κ ν) (s : Fin n) : Seen t s 0 none :=
  ⟨nofun, nofun, fun _ => nofun⟩

/-- The place that is found is free, and no empty slot stands before it; with no place found
every slot that was seen is live. -/
theorem free_spec {s : Fin n} (m : Nat) : ∀ {d : Nat} {reuse : Option (Fin n)}, d + m = n →
    Seen t s d reuse →
      (free t m (seat s d) reuse = none ∧ ∀ d' < n, ¬ (t (seat s d')).IsFree) ∨
      ∃ e < n, free t m (seat s d) reuse = some (seat s e) ∧ (t (seat s e)).IsFree ∧
        ∀ d' < e, t (seat s d') ≠ .empty := by
  induction m with
  | zero =>
      intro d reuse hm hseen
      obtain rfl : d = n := hm
      rw [free]
      cases reuse with
      | none => exact .inl ⟨rfl, hseen.live rfl⟩
      | some r =>
          obtain ⟨e, he, rfl, hfree⟩ := hseen.kept r rfl
          exact .inr ⟨e, he, rfl, hfree, fun d' hd' => hseen.full d' (hd'.trans he)⟩
  | succ m ih =>
      intro d reuse hm hseen
      rw [free]
      cases hslot : t (seat s d) with
      | empty =>
          refine .inr ⟨d, by omega, rfl, ?_, hseen.full⟩
          rw [hslot]
          exact fun _ _ => nofun
      | tombstone =>
          dsimp only
          rw [next_seat]
          apply ih (by omega)
          have hfree : (t (seat s d)).IsFree := by
            rw [hslot]
            exact fun _ _ => nofun
          constructor
          · intro d' hd'
            rcases Nat.lt_succ_iff_lt_or_eq.1 hd' with hlt | rfl
            · exact hseen.full d' hlt
            · rw [hslot]
              exact nofun
          · intro r hr
            cases reuse with
            | none =>
                obtain rfl := Option.some.inj hr
                exact ⟨d, Nat.lt_succ_self d, rfl, hfree⟩
            | some r' =>
                obtain ⟨e, he, hseat, hr'⟩ := hseen.kept r hr
                exact ⟨e, he.trans (Nat.lt_succ_self d), hseat, hr'⟩
          · intro hnone
            cases reuse with
            | none => cases hnone
            | some r' => cases hnone
      | live k x =>
          dsimp only
          rw [next_seat]
          apply ih (by omega)
          have hne : ¬ (t (seat s d)).IsFree := fun hfree => hfree k x hslot
          constructor
          · intro d' hd'
            rcases Nat.lt_succ_iff_lt_or_eq.1 hd' with hlt | rfl
            · exact hseen.full d' hlt
            · rw [hslot]
              exact nofun
          · intro r hr
            obtain ⟨e, he, hseat, hr'⟩ := hseen.kept r hr
            exact ⟨e, he.trans (Nat.lt_succ_self d), hseat, hr'⟩
          · intro hnone d' hd'
            rcases Nat.lt_succ_iff_lt_or_eq.1 hd' with hlt | rfl
            · exact hseen.live hnone d' hlt
            · exact hne

/-- No place is found exactly where every slot is live. -/
theorem free_eq_none {s : Fin n} : free t n s none = none ↔ ∀ i, ¬ (t i).IsFree := by
  have hspec := free_spec n (Nat.zero_add n) (Seen.none t s)
  rw [seat_zero] at hspec
  constructor
  · intro hnone i
    rcases hspec with ⟨-, hall⟩ | ⟨e, -, hsome, -⟩
    · obtain ⟨d, hd, rfl⟩ := exists_seat s i
      exact hall d hd
    · rw [hsome] at hnone
      cases hnone
  · intro hall
    rcases hspec with ⟨hnone, -⟩ | ⟨e, -, -, hfree, -⟩
    · exact hnone
    · exact absurd hfree (hall _)

/-- The place that is found holds no key. -/
theorem free_isFree {s i : Fin n} (h : free t n s none = some i) : (t i).IsFree := by
  have hspec := free_spec n (Nat.zero_add n) (Seen.none t s)
  rw [seat_zero, h] at hspec
  rcases hspec with ⟨hnone, -⟩ | ⟨e, -, hsome, hfree, -⟩
  · cases hnone
  · rwa [Option.some.inj hsome]

/-! ## The operations -/

/-- A table without entries. -/
theorem Chained.empty (h : ∀ i, (t i).IsFree) : Chained start t :=
  ⟨fun k x _ _ hlive => absurd hlive (h _ k x), fun i _ k x _ hlive => absurd hlive (h i k x)⟩

/-- A key that is not in the table goes to the place that is found for it. -/
theorem Chained.insert (h : Chained start t) {key : κ} {x : ν} {i : Fin n}
    (hmiss : ∀ j y, t j ≠ .live key y) (hfree : free t n (start key) none = some i) :
    Chained start (Function.update t i (.live key x)) := by
  have hspec := free_spec n (Nat.zero_add n) (Seen.none t (start key))
  rw [seat_zero, hfree] at hspec
  rcases hspec with ⟨hnone, -⟩ | ⟨e, he, hsome, -, hfull⟩
  · cases hnone
  obtain rfl := Option.some.inj hsome
  have hkeep : ∀ j, t j ≠ .empty → Function.update t (seat (start key) e) (.live key x) j ≠ .empty := by
    intro j hj
    rw [Function.update_apply]
    split
    · exact nofun
    · exact hj
  constructor
  · intro k y d hd hlive d' hd'
    apply hkeep
    rw [Function.update_apply] at hlive
    split at hlive
    · rename_i hseat
      cases hlive
      rw [seat_inj hd he hseat] at hd'
      exact hfull d' hd'
    · exact h.chain k y d hd hlive d' hd'
  · intro a b k y z ha hb
    rw [Function.update_apply] at ha hb
    split at ha
    · rename_i hai
      cases ha
      split at hb
      · rename_i hbi
        rw [hai, hbi]
      · exact absurd hb (hmiss b z)
    · split at hb
      · cases hb
        exact absurd ha (hmiss a y)
      · exact h.once a b k y z ha hb

/-- A live slot gets another value for its key, or a tombstone. -/
theorem Chained.update (h : Chained start t) {i : Fin n} {key : κ} {x : ν} (hi : t i = .live key x)
    {s : Slot κ ν} (hs : s = .tombstone ∨ ∃ y, s = .live key y) :
    Chained start (Function.update t i s) := by
  -- Every key that is live afterwards was live before.
  have hback : ∀ {j k y}, Function.update t i s j = .live k y → ∃ z, t j = .live k z := by
    intro j k y hj
    rw [Function.update_apply] at hj
    split at hj
    · rename_i hji
      rcases hs with rfl | ⟨z, rfl⟩
      · cases hj
      · cases hj
        exact ⟨x, hji ▸ hi⟩
    · exact ⟨y, hj⟩
  constructor
  · intro k y d hd hlive d' hd'
    obtain ⟨z, hz⟩ := hback hlive
    rw [Function.update_apply]
    split
    · rcases hs with rfl | ⟨z, rfl⟩
      · exact nofun
      · exact nofun
    · exact h.chain k z d hd hz d' hd'
  · intro a b k y z ha hb
    obtain ⟨y', hy⟩ := hback ha
    obtain ⟨z', hz⟩ := hback hb
    exact h.once a b k y' z' hy hz

end TinyServer.Lib.Probing
