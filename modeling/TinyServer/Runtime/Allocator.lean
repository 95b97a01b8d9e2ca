import TinyServer.Lib.Align
import TinyServer.Lib.Run

/-!
# The bump allocator (`allocator.c`)

Addresses and sizes are `uint64_t`, and every step of `bump_alloc` wraps. In a buffer whose
end does not wrap an allocation succeeds exactly where the aligned block fits
(`bumpAlloc_spec`), and over any sequence of calls the blocks given out since the last reset
are apart (`bumpAlloc_runs`).
-/

set_option autoImplicit false

namespace TinyServer.Runtime

open TinyServer.Lib

/-- `bump`; `mem` is an address, and 0 the null pointer. -/
structure Bump where
  offset : UInt64
  size : UInt64
  mem : UInt64
  deriving DecidableEq, Repr

/-- `bump_bind`. -/
def bumpBind (mem size : UInt64) : Bump := ⟨0, size, mem⟩

/-- `bump_alloc`, with the allocator that it leaves. -/
def bumpAlloc (b : Bump) (size alignment : UInt64) : Option UInt64 × Bump :=
  -- no buffer, or an alignment that is not a power of two
  if b.mem = 0 ∨ alignment = 0 ∨ alignment &&& (alignment - 1) ≠ 0 then (none, b)
  else
    let base := b.mem
    let current := base + b.offset
    let aligned := (current + alignment - 1) &&& ~~~(alignment - 1)
    -- rounding wrapped around
    if aligned < current then (none, b)
    else
      let offset := aligned - base
      if b.size < offset then (none, b)
      else if b.size - offset < size then (none, b)
      else (some aligned, { b with offset := offset + size })

/-- `bump_reset`. -/
def bumpReset (b : Bump) : Bump := { b with offset := 0 }

/-! ## One allocation -/

namespace Bump

/-- The buffer does not reach the end of the address space, and no more than the buffer is
taken. -/
structure Ok (b : Bump) : Prop where
  bound : b.mem.toNat + b.size.toNat < 2 ^ 64
  fits : b.offset ≤ b.size

/-- Where the free part of the buffer begins. -/
def current (b : Bump) : Nat := b.mem.toNat + b.offset.toNat

/-- The end of the buffer. -/
def limit (b : Bump) : Nat := b.mem.toNat + b.size.toNat

/-- A block of this size and alignment fits what is left, in true arithmetic. -/
structure Fits (b : Bump) (size alignment : UInt64) : Prop where
  bound : b.mem ≠ 0
  power : alignment.toNat.isPowerOfTwo
  room : alignUp alignment.toNat b.current + size.toNat ≤ b.limit

end Bump

/-- The check on an alignment. -/
theorem alignment_iff (alignment : UInt64) :
    ¬ (alignment = 0 ∨ alignment &&& (alignment - 1) ≠ 0) ↔ alignment.toNat.isPowerOfTwo := by
  rw [not_or, not_not, ← Nat.ne_zero_and_sub_one_eq_zero_iff_isPowerOfTwo]
  have hzero : alignment = 0 ↔ alignment.toNat = 0 := by
    rw [← UInt64.toNat_inj]
    rfl
  rw [hzero]
  refine and_congr_right fun hne => ?_
  rw [← UInt64.toNat_inj, UInt64.toNat_and]
  have hone : (1 : UInt64) ≤ alignment := by
    rw [UInt64.le_iff_toNat_le]
    exact Nat.one_le_iff_ne_zero.2 hne
  rw [UInt64.toNat_sub_of_le _ _ hone]
  rfl

/-- An allocation gives out the aligned block where it fits, and leaves the allocator as it
is where it does not. -/
theorem bumpAlloc_spec {b : Bump} (hok : b.Ok) (size alignment : UInt64) :
    (bumpAlloc b size alignment = (none, b) ∧ ¬ b.Fits size alignment) ∨
      ∃ addr b', bumpAlloc b size alignment = (some addr, b') ∧ b.Fits size alignment ∧
        addr.toNat = alignUp alignment.toNat b.current ∧ b'.mem = b.mem ∧ b'.size = b.size ∧
          b'.current = addr.toNat + size.toNat := by
  obtain ⟨hbound, hfits⟩ := hok
  rw [UInt64.le_iff_toNat_le] at hfits
  -- The checks on the arguments.
  by_cases hbad : b.mem = 0 ∨ alignment = 0 ∨ alignment &&& (alignment - 1) ≠ 0
  · refine .inl ⟨by rw [bumpAlloc, if_pos hbad], ?_⟩
    rintro ⟨hmem, hpow, -⟩
    exact hbad.elim hmem ((alignment_iff alignment).2 hpow)
  obtain ⟨hmem, halign⟩ := not_or.1 hbad
  have hpow := (alignment_iff alignment).1 halign
  obtain ⟨k, hk⟩ := id hpow
  have hbase : 0 < b.mem.toNat := by
    refine Nat.pos_of_ne_zero fun hzero => hmem ?_
    exact UInt64.toNat_inj.1 hzero
  have hcurrent : (b.mem + b.offset).toNat = b.current := by
    rw [UInt64.toNat_add, Bump.current]
    exact Nat.mod_eq_of_lt (by omega)
  have hup := le_alignUp (hk ▸ Nat.two_pow_pos k : 0 < alignment.toNat) b.current
  -- The mask rounds up to the next multiple, or wraps past 2^64.
  have haligned : ((b.mem + b.offset + alignment - 1) &&& ~~~(alignment - 1)).toNat
      = if alignUp alignment.toNat b.current < 2 ^ 64 then alignUp alignment.toNat b.current else 0 := by
    have hround := roundUp_toNat (b.mem + b.offset).toBitVec (y := alignment.toBitVec) hk
    have hvalue : (b.mem + b.offset).toBitVec.toNat = b.current := hcurrent
    rw [hvalue, ← hk] at hround
    exact hround
  rw [bumpAlloc, if_neg hbad]
  dsimp only
  generalize (b.mem + b.offset + alignment - 1) &&& ~~~(alignment - 1) = aligned at haligned
  have hroom : ¬ alignUp alignment.toNat b.current + size.toNat ≤ b.limit → ¬ b.Fits size alignment :=
    fun hno hf => hno hf.room
  have hcur : b.current = b.mem.toNat + b.offset.toNat := rfl
  have hlimit : b.limit = b.mem.toNat + b.size.toNat := rfl
  by_cases hwrap : alignUp alignment.toNat b.current < 2 ^ 64
  · rw [if_pos hwrap] at haligned
    have hnot : ¬ aligned < b.mem + b.offset := by
      rw [UInt64.lt_iff_toNat_lt, haligned, hcurrent]
      exact Nat.not_lt.2 hup
    have hoffset : (aligned - b.mem).toNat = aligned.toNat - b.mem.toNat := by
      refine UInt64.toNat_sub_of_le _ _ ?_
      rw [UInt64.le_iff_toNat_le, haligned]
      omega
    rw [if_neg hnot]
    -- The rounded address is past the end of the arena.
    by_cases hpast : b.size < aligned - b.mem
    · rw [if_pos hpast]
      rw [UInt64.lt_iff_toNat_lt, hoffset, haligned] at hpast
      exact .inl ⟨rfl, hroom (by omega)⟩
    · have hpast' := hpast
      rw [UInt64.lt_iff_toNat_lt, hoffset, haligned] at hpast'
      have hleft : (b.size - (aligned - b.mem)).toNat = b.size.toNat - (aligned - b.mem).toNat :=
        UInt64.toNat_sub_of_le _ _ (UInt64.not_lt.1 hpast)
      rw [if_neg hpast]
      -- It is within, but what is left is too small.
      by_cases hlarge : b.size - (aligned - b.mem) < size
      · rw [if_pos hlarge]
        rw [UInt64.lt_iff_toNat_lt, hleft, hoffset, haligned] at hlarge
        exact .inl ⟨rfl, hroom (by omega)⟩
      -- The block fits.
      · rw [if_neg hlarge]
        rw [UInt64.lt_iff_toNat_lt, hleft, hoffset, haligned] at hlarge
        refine .inr ⟨_, _, rfl, ⟨hmem, hpow, by omega⟩, haligned, rfl, rfl, ?_⟩
        show b.mem.toNat + (aligned - b.mem + size).toNat = _
        rw [UInt64.toNat_add, hoffset, haligned, Nat.mod_eq_of_lt (by omega)]
        omega
  · -- The rounding wraps to 0, which is below every address of the buffer.
    rw [if_neg hwrap] at haligned
    have hlow : aligned < b.mem + b.offset := by
      rw [UInt64.lt_iff_toNat_lt, haligned, hcurrent, Bump.current]
      omega
    rw [if_pos hlow]
    exact .inl ⟨rfl, hroom (by omega)⟩

/-! ## Sequences of calls -/

/-- A block that was given out. -/
structure Block where
  addr : UInt64
  size : UInt64
  alignment : UInt64
  deriving DecidableEq, Repr

/-- An allocator, with the blocks that it gave out since the last reset. -/
structure Allocating where
  bump : Bump
  given : List Block
  deriving DecidableEq, Repr

/-- A call of the allocator. -/
inductive BumpCall where
  | alloc (size alignment : UInt64)
  | reset
  deriving DecidableEq, Repr

namespace Allocating

/-- The allocator after `bump_bind`. -/
def start (mem size : UInt64) : Allocating := ⟨bumpBind mem size, []⟩

/-- A call and the block that it hands out. -/
def step (s : Allocating) : BumpCall → Option Allocating
  | .alloc size alignment =>
      match bumpAlloc s.bump size alignment with
      | (some addr, b) => some ⟨b, s.given ++ [⟨addr, size, alignment⟩]⟩
      | (none, b) => some { s with bump := b }
  | .reset => some ⟨bumpReset s.bump, []⟩

end Allocating

/-- The block lies in the buffer from `mem` to `limit`, at its alignment. -/
structure Block.In (x : Block) (mem limit : Nat) : Prop where
  aligned : x.alignment.toNat ∣ x.addr.toNat
  above : mem ≤ x.addr.toNat
  below : x.addr.toNat + x.size.toNat ≤ limit

/-- No byte is in both blocks. -/
def Block.Apart (x y : Block) : Prop :=
  ∀ i, ¬ ((x.addr.toNat ≤ i ∧ i < x.addr.toNat + x.size.toNat) ∧
    (y.addr.toNat ≤ i ∧ i < y.addr.toNat + y.size.toNat))

/-- What holds between two calls, for a buffer of `size` bytes at `mem`. -/
structure Allocating.Inv (mem size : UInt64) (s : Allocating) : Prop where
  bound : s.bump.mem = mem
  room : s.bump.size = size
  ok : s.bump.Ok
  inside : ∀ x ∈ s.given, x.In mem.toNat s.bump.current
  apart : s.given.Pairwise Block.Apart

section Runs

variable {mem size : UInt64} {s s' : Allocating}

/-- A new arena has handed out nothing. -/
theorem Allocating.start_inv (hend : mem.toNat + size.toNat < 2 ^ 64) :
    (Allocating.start mem size).Inv mem size :=
  ⟨rfl, rfl, ⟨hend, UInt64.zero_le⟩, nofun, .nil⟩

theorem Block.In.mono {x : Block} {a b c : Nat} (h : x.In a b) (hle : b ≤ c) : x.In a c :=
  ⟨h.aligned, h.above, h.below.trans hle⟩

/-- The step lemma. -/
theorem Allocating.Inv.step {call : BumpCall} (h : s.Inv mem size) (hstep : s.step call = some s') :
    s'.Inv mem size := by
  cases call with
  | reset =>
      cases hstep
      exact ⟨h.bound, h.room, ⟨h.ok.bound, UInt64.zero_le⟩, nofun, .nil⟩
  | alloc n alignment =>
      rw [Allocating.step] at hstep
      rcases bumpAlloc_spec h.ok n alignment with ⟨heq, -⟩ | ⟨addr, b, heq, hfits, haddr, hmem, hsize, hcur⟩
      · rw [heq] at hstep
        cases hstep
        exact h
      · rw [heq] at hstep
        cases hstep
        have hup := le_alignUp (Nat.pos_of_isPowerOfTwo hfits.power) s.bump.current
        have hroom := hfits.room
        have hlimit : s.bump.limit = s.bump.mem.toNat + s.bump.size.toNat := rfl
        have hcurrent : b.current = b.mem.toNat + b.offset.toNat := rfl
        have hbase : s.bump.current = s.bump.mem.toNat + s.bump.offset.toNat := rfl
        rw [hmem] at hcurrent
        refine ⟨hmem.trans h.bound, hsize.trans h.room, ⟨?_, ?_⟩, ?_, ?_⟩
        · rw [hmem, hsize]
          exact h.ok.bound
        · have hle : b.offset.toNat ≤ b.size.toNat := by
            rw [hsize]
            omega
          exact UInt64.le_iff_toNat_le.2 hle
        · have hgrown : s.bump.current ≤ b.current := by omega
          intro x hx
          rcases List.mem_append.1 hx with hx | hx
          · exact (h.inside x hx).mono hgrown
          · obtain rfl := List.mem_singleton.1 hx
            rw [← h.bound]
            refine ⟨?_, ?_, hcur.ge⟩
            · dsimp only
              rw [haddr]
              exact dvd_alignUp _ _
            · dsimp only
              omega
        · refine List.pairwise_append.2 ⟨h.apart, List.pairwise_singleton _ _, fun x hx y hy => ?_⟩
          -- The older blocks end where the free part began.
          obtain rfl := List.mem_singleton.1 hy
          have hbelow := (h.inside x hx).below
          rintro i ⟨⟨-, hi⟩, ⟨hi', -⟩⟩
          dsimp only at hi'
          omega

end Runs

/-- In a buffer whose end does not wrap, after any sequence of calls: the blocks since the
last reset are aligned, in the buffer and apart, and the next allocation succeeds exactly
where its block fits; otherwise it changes nothing. -/
theorem bumpAlloc_runs (mem size : UInt64) (hend : mem.toNat + size.toNat < 2 ^ 64)
    (calls : List BumpCall) :
    ∀ s ∈ runStates Allocating.step (Allocating.start mem size) calls,
      (∀ x ∈ s.given, x.In mem.toNat (mem.toNat + size.toNat)) ∧
      s.given.Pairwise Block.Apart ∧
      ∀ n alignment : UInt64,
        ((bumpAlloc s.bump n alignment).1 ≠ none ↔ s.bump.Fits n alignment) ∧
        ((bumpAlloc s.bump n alignment).1 = none → (bumpAlloc s.bump n alignment).2 = s.bump) := by
  intro s hs
  have hall : AllSteps Allocating.step (fun _ _ => True) (Allocating.start mem size) calls :=
    .of_forall (fun _ _ => trivial) calls _
  have hinv : s.Inv mem size :=
    hall.invariant (fun _ _ _ hi _ hstep => hi.step hstep) (Allocating.start_inv hend) s hs
  have hfits := hinv.ok.fits
  rw [UInt64.le_iff_toNat_le] at hfits
  refine ⟨fun x hx => (hinv.inside x hx).mono ?_, hinv.apart, fun n alignment => ?_⟩
  · rw [Bump.current, hinv.bound, ← hinv.room]
    omega
  · rcases bumpAlloc_spec hinv.ok n alignment with ⟨heq, hno⟩ | ⟨addr, b, heq, hyes, -⟩
    · rw [heq]
      exact ⟨⟨fun h => absurd rfl h, fun h => absurd h hno⟩, fun _ => rfl⟩
    · rw [heq]
      exact ⟨⟨fun _ => hyes, fun _ => nofun⟩, nofun⟩

theorem bumpAlloc_runs_two :
    ∃ s ∈ runStates Allocating.step (Allocating.start 4096 64) [.alloc 3 1, .alloc 8 16],
      s.given.length = 2 ∧ (∀ x ∈ s.given, x.In 4096 4160) ∧ s.given.Pairwise Block.Apart := by
  have hrun : (runTo Allocating.step (Allocating.start 4096 64) [.alloc 3 1, .alloc 8 16]).any
      (fun s => decide (s.given.length = 2)) = true := by decide
  obtain ⟨s, hs, hlen⟩ := exists_of_run hrun
  obtain ⟨hin, hapart, -⟩ := bumpAlloc_runs 4096 64 (by decide) _ s hs
  exact ⟨s, hs, hlen, hin, hapart⟩

end TinyServer.Runtime
