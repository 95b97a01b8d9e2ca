import Mathlib.Tactic.Ring
import TinyServer.Runtime.Allocator

/-!
# The pools of the runtime (`tiny_runtime_init`)

All memory of the connections is mapped once. `tiny_size_mul` refuses a size that does not fit
`size_t`, and each slot of each worker gets its part of the pool of arenas. These parts do not
overlap, so no two connections are ever given the same byte, whatever their handlers allocate
and in whatever order (`arenas_runs`).
-/

set_option autoImplicit false

namespace TinyServer.Runtime

open TinyServer.Lib

/-- The greatest `size_t`. -/
def SIZE_MAX : Nat := 2 ^ 64 - 1

/-- `tiny_size_mul`. -/
def tinySizeMul (a b : UInt64) : Option UInt64 :=
  if a ≠ 0 ∧ UInt64.ofNat SIZE_MAX / a < b then none else some (a * b)

/-- The product is given where it fits. -/
theorem tinySizeMul_iff {a b p : UInt64} :
    tinySizeMul a b = some p ↔ a.toNat * b.toNat ≤ SIZE_MAX ∧ p.toNat = a.toNat * b.toNat := by
  have hmax : (UInt64.ofNat SIZE_MAX).toNat = SIZE_MAX := by decide
  have hlt : SIZE_MAX < 2 ^ 64 := by decide
  have hguard : (a ≠ 0 ∧ UInt64.ofNat SIZE_MAX / a < b) ↔ ¬ a.toNat * b.toNat ≤ SIZE_MAX := by
    rw [UInt64.lt_iff_toNat_lt, UInt64.toNat_div, hmax]
    by_cases ha : a = 0
    · simp [ha]
    · have hpos : 0 < a.toNat := Nat.pos_of_ne_zero fun h => ha (UInt64.toNat_inj.1 h)
      rw [Nat.div_lt_iff_lt_mul hpos, Nat.not_le, Nat.mul_comm b.toNat]
      exact and_iff_right ha
  unfold tinySizeMul
  by_cases hfit : a.toNat * b.toNat ≤ SIZE_MAX
  · rw [if_neg fun h => hguard.1 h hfit, Option.some.injEq]
    have hvalue : (a * b).toNat = a.toNat * b.toNat := by
      rw [UInt64.toNat_mul]
      exact Nat.mod_eq_of_lt (by omega)
    rw [← UInt64.toNat_inj, hvalue]
    exact ⟨fun h => ⟨hfit, h.symm⟩, fun h => h.2.symm⟩
  · rw [if_pos (hguard.2 hfit)]
    exact ⟨nofun, fun h => absurd h.1 hfit⟩

/-- The sizes of `config.h` and of the records, as `size_t`. -/
structure Config where
  workers : UInt64
  connsPerWorker : UInt64
  queueSize : UInt64
  bumpSize : UInt64
  slotBytes : UInt64
  workerBytes : UInt64
  connectionBytes : UInt64
  eventsMax : UInt64
  eventBytes : UInt64
  workers_pos : 1 ≤ workers.toNat
  conns_pos : 1 ≤ connsPerWorker.toNat

/-- The sizes that `tiny_runtime_init` computes. -/
structure PoolSizes where
  slots : UInt64
  bump : UInt64
  workers : UInt64
  queue : UInt64
  deriving DecidableEq, Repr

/-- The sizes of the four pools. -/
def Config.poolSizes (cfg : Config) : Option PoolSizes := do
  let nslots ← tinySizeMul cfg.workers cfg.connsPerWorker
  let slots ← tinySizeMul nslots cfg.slotBytes
  let bump ← tinySizeMul nslots cfg.bumpSize
  let workers ← tinySizeMul cfg.workers cfg.workerBytes
  let queue ← tinySizeMul cfg.queueSize cfg.connectionBytes
  some ⟨slots, bump, workers, queue⟩

/-- The index of the slot `si` of the worker `wi` in the pool. -/
def Config.slotIndex (cfg : Config) (wi si : UInt64) : UInt64 := wi * cfg.connsPerWorker + si

/-- The arena of a slot, in the pool at `pool`. -/
def Config.arena (cfg : Config) (pool wi si : UInt64) : Bump :=
  bumpBind (pool + cfg.slotIndex wi si * cfg.bumpSize) cfg.bumpSize

/-! ## The parts of the pool -/

/-- A slot of a worker. -/
structure Config.Slot (cfg : Config) where
  worker : UInt64
  slot : UInt64
  worker_lt : worker < cfg.workers
  slot_lt : slot < cfg.connsPerWorker
  deriving DecidableEq

section Parts

variable {cfg : Config} {sizes : PoolSizes} {pool : UInt64}

/-- The index in true arithmetic. -/
def Config.Slot.index (k : cfg.Slot) : Nat :=
  k.worker.toNat * cfg.connsPerWorker.toNat + k.slot.toNat

/-- A slot's index lies within the pool. -/
theorem Config.Slot.index_lt (k : cfg.Slot) :
    k.index < cfg.workers.toNat * cfg.connsPerWorker.toNat := by
  have hw : k.worker.toNat + 1 ≤ cfg.workers.toNat := UInt64.lt_iff_toNat_lt.1 k.worker_lt
  have hs : k.slot.toNat < cfg.connsPerWorker.toNat := UInt64.lt_iff_toNat_lt.1 k.slot_lt
  have hmul := Nat.mul_le_mul_right cfg.connsPerWorker.toNat hw
  rw [Nat.add_mul, Nat.one_mul] at hmul
  unfold Config.Slot.index
  omega

/-- Different slots of the workers have different indices. -/
theorem Config.Slot.index_inj {k l : cfg.Slot} (h : k.index = l.index) : k = l := by
  have hk : k.slot.toNat < cfg.connsPerWorker.toNat := UInt64.lt_iff_toNat_lt.1 k.slot_lt
  have hl : l.slot.toNat < cfg.connsPerWorker.toNat := UInt64.lt_iff_toNat_lt.1 l.slot_lt
  have hpos : 0 < cfg.connsPerWorker.toNat := cfg.conns_pos
  unfold Config.Slot.index at h
  have hquot := congrArg (· / cfg.connsPerWorker.toNat) h
  have hrem := congrArg (· % cfg.connsPerWorker.toNat) h
  simp only [Nat.mul_comm _ cfg.connsPerWorker.toNat, Nat.mul_add_div hpos, Nat.div_eq_of_lt hk,
    Nat.div_eq_of_lt hl, Nat.mul_add_mod, Nat.mod_eq_of_lt hk, Nat.mod_eq_of_lt hl, Nat.add_zero] at hquot hrem
  cases k
  cases l
  simp only [UInt64.toNat_inj] at hquot hrem
  simp only [hquot, hrem]

/-- What the sizes are, in true arithmetic. -/
theorem Config.poolSizes_bump (h : cfg.poolSizes = some sizes) :
    cfg.workers.toNat * cfg.connsPerWorker.toNat < 2 ^ 64 ∧
      sizes.bump.toNat = cfg.workers.toNat * cfg.connsPerWorker.toNat * cfg.bumpSize.toNat := by
  unfold Config.poolSizes at h
  obtain ⟨nslots, hn, h⟩ := Option.bind_eq_some_iff.1 h
  obtain ⟨slots, hs, h⟩ := Option.bind_eq_some_iff.1 h
  obtain ⟨bump, hb, h⟩ := Option.bind_eq_some_iff.1 h
  obtain ⟨workers, hw, h⟩ := Option.bind_eq_some_iff.1 h
  obtain ⟨queue, hq, h⟩ := Option.bind_eq_some_iff.1 h
  cases h
  obtain ⟨hfit, hslots⟩ := tinySizeMul_iff.1 hn
  have hbump := (tinySizeMul_iff.1 hb).2
  rw [hslots] at hbump
  have hlt : SIZE_MAX < 2 ^ 64 := by decide
  exact ⟨hfit.trans_lt hlt, hbump⟩

/-- The part of a slot ends in the pool. -/
theorem Config.Slot.part_le (h : cfg.poolSizes = some sizes) (k : cfg.Slot) :
    k.index * cfg.bumpSize.toNat + cfg.bumpSize.toNat ≤ sizes.bump.toNat := by
  rw [(Config.poolSizes_bump h).2, ← Nat.succ_mul]
  exact Nat.mul_le_mul_right _ k.index_lt

/-- Where the arena of a slot is. -/
theorem Config.arena_at (h : cfg.poolSizes = some sizes)
    (hend : pool.toNat + sizes.bump.toNat < 2 ^ 64) (k : cfg.Slot) :
    (cfg.arena pool k.worker k.slot).mem.toNat = pool.toNat + k.index * cfg.bumpSize.toNat := by
  have hpart := k.part_le h
  have hlt := k.index_lt
  have hfit := (Config.poolSizes_bump h).1
  have hindex : (cfg.slotIndex k.worker k.slot).toNat = k.index := by
    have hmul : k.worker.toNat * cfg.connsPerWorker.toNat ≤ k.index := Nat.le_add_right _ _
    show (k.worker * cfg.connsPerWorker + k.slot).toNat = _
    rw [UInt64.toNat_add, UInt64.toNat_mul, Nat.mod_eq_of_lt (by omega : _ * _ < 2 ^ 64)]
    exact Nat.mod_eq_of_lt (by unfold Config.Slot.index at *; omega)
  show (pool + cfg.slotIndex k.worker k.slot * cfg.bumpSize).toNat = _
  rw [UInt64.toNat_add, UInt64.toNat_mul, hindex, Nat.mod_eq_of_lt (by omega : _ * _ < 2 ^ 64)]
  exact Nat.mod_eq_of_lt (by omega)

end Parts

/-! ## All connections at once -/

/-- The arenas of all slots, each with the blocks that it gave out. -/
abbrev Arenas (cfg : Config) : Type := cfg.Slot → Allocating

/-- The arenas as `tiny_runtime_init` binds them. -/
def Arenas.start (cfg : Config) (pool : UInt64) : Arenas cfg :=
  fun k => ⟨cfg.arena pool k.worker k.slot, []⟩

/-- A call of the handler of the slot `k`. -/
def Arenas.step {cfg : Config} (s : Arenas cfg) (c : cfg.Slot × BumpCall) : Option (Arenas cfg) :=
  ((s c.1).step c.2).map (Function.update s c.1)

section Arenas

variable {cfg : Config} {sizes : PoolSizes} {pool : UInt64}

/-- Every arena keeps to its part of the pool. -/
theorem arenas_inv (h : cfg.poolSizes = some sizes)
    (hend : pool.toNat + sizes.bump.toNat < 2 ^ 64) (calls : List (cfg.Slot × BumpCall)) :
    ∀ s ∈ runStates Arenas.step (Arenas.start cfg pool) calls, ∀ k : cfg.Slot,
      (s k).Inv (cfg.arena pool k.worker k.slot).mem cfg.bumpSize := by
  have hall : AllSteps Arenas.step (fun _ _ => True) (Arenas.start cfg pool) calls :=
    .of_forall (fun _ _ => trivial) calls _
  refine hall.invariant (I := fun s : Arenas cfg => ∀ k : cfg.Slot,
    (s k).Inv (cfg.arena pool k.worker k.slot).mem cfg.bumpSize) ?_ ?_
  · rintro s ⟨k, call⟩ s' hs - hstep l
    obtain ⟨a, ha, rfl⟩ := Option.map_eq_some_iff.1 hstep
    by_cases hl : l = k
    · subst hl
      rw [Function.update_self]
      exact (hs l).step ha
    · rw [Function.update_of_ne hl]
      exact hs l
  · intro k
    apply Allocating.start_inv
    have hat := Config.arena_at h hend k
    have hpart := k.part_le h
    have hmem : (pool + cfg.slotIndex k.worker k.slot * cfg.bumpSize).toNat = _ := hat
    omega

/-- Whatever the handlers of all slots allocate, in whatever order: each block that is in use
lies in the pool, and two blocks have no byte in common, whether they are of one connection
or of two. -/
theorem arenas_runs (h : cfg.poolSizes = some sizes)
    (hend : pool.toNat + sizes.bump.toNat < 2 ^ 64) (calls : List (cfg.Slot × BumpCall)) :
    ∀ s ∈ runStates Arenas.step (Arenas.start cfg pool) calls,
      (∀ k, (s k).given.Pairwise Block.Apart ∧
        ∀ x ∈ (s k).given, x.In pool.toNat (pool.toNat + sizes.bump.toNat)) ∧
      ∀ k l, k ≠ l → ∀ x ∈ (s k).given, ∀ y ∈ (s l).given, x.Apart y := by
  intro s hs
  have hinv := arenas_inv h hend calls s hs
  -- the blocks of a slot are in its part
  have hin : ∀ k, ∀ x ∈ (s k).given, x.In (pool.toNat + k.index * cfg.bumpSize.toNat)
      (pool.toNat + k.index * cfg.bumpSize.toNat + cfg.bumpSize.toNat) := by
    intro k x hx
    have hk := hinv k
    have hfits := UInt64.le_iff_toNat_le.1 hk.ok.fits
    rw [hk.room] at hfits
    rw [← Config.arena_at h hend k]
    refine (hk.inside x hx).mono ?_
    unfold Bump.current
    rw [hk.bound]
    omega
  refine ⟨fun k => ⟨(hinv k).apart, fun x hx => ?_⟩, fun k l hkl x hx y hy => ?_⟩
  · have hpart := k.part_le h
    obtain ⟨haligned, habove, hbelow⟩ := hin k x hx
    exact ⟨haligned, by omega, by omega⟩
  · -- one of the two parts ends before the other begins
    obtain ⟨-, hx₁, hx₂⟩ := hin k x hx
    obtain ⟨-, hy₁, hy₂⟩ := hin l y hy
    have hne : k.index ≠ l.index := fun he => hkl (Config.Slot.index_inj he)
    rintro i ⟨⟨h₁, h₂⟩, h₃, h₄⟩
    rcases Nat.lt_or_gt_of_ne hne with hlt | hlt
    · have hmul := Nat.mul_le_mul_right cfg.bumpSize.toNat (Nat.succ_le_of_lt hlt)
      rw [Nat.succ_mul] at hmul
      omega
    · have hmul := Nat.mul_le_mul_right cfg.bumpSize.toNat (Nat.succ_le_of_lt hlt)
      rw [Nat.succ_mul] at hmul
      omega

end Arenas

/-- The sizes of `config.h`; a record of a connection in the queue takes 32 bytes. -/
def tinyConfig (slotBytes workerBytes eventBytes : UInt64) : Config where
  workers := 6
  connsPerWorker := 128
  queueSize := 1024
  bumpSize := 12288
  slotBytes := slotBytes
  workerBytes := workerBytes
  connectionBytes := 32
  eventsMax := 128
  eventBytes := eventBytes
  workers_pos := by decide
  conns_pos := by decide

/-- The last slot of the first worker, and the first of the second. -/
def lastSlot : (tinyConfig 8192 128 12).Slot := ⟨0, 127, by decide, by decide⟩

/-- The first slot of the second worker. -/
def nextSlot : (tinyConfig 8192 128 12).Slot := ⟨1, 0, by decide, by decide⟩

/-- Their parts of the pool are next to each other. -/
theorem arenas_runs_two :
    ∃ s ∈ runStates Arenas.step (Arenas.start (tinyConfig 8192 128 12) 4096)
        [(lastSlot, .alloc 12288 16), (nextSlot, .alloc 4096 16)],
      ∃ x ∈ (s lastSlot).given, ∃ y ∈ (s nextSlot).given, x.Apart y := by
  have hsizes : (tinyConfig 8192 128 12).poolSizes = some ⟨6291456, 9437184, 768, 32768⟩ := by
    decide
  obtain ⟨s, hs, hlast, hnext⟩ := exists_of_run
    (p := fun s : Arenas (tinyConfig 8192 128 12) =>
      (s lastSlot).given.length = 1 ∧ (s nextSlot).given.length = 1)
    (show (runTo Arenas.step (Arenas.start (tinyConfig 8192 128 12) 4096)
      [(lastSlot, .alloc 12288 16), (nextSlot, .alloc 4096 16)]).any _ = true by decide)
  obtain ⟨x, hx⟩ := List.exists_mem_of_length_pos (by omega : 0 < (s lastSlot).given.length)
  obtain ⟨y, hy⟩ := List.exists_mem_of_length_pos (by omega : 0 < (s nextSlot).given.length)
  exact ⟨s, hs, x, hx, y, hy,
    (arenas_runs hsizes (by decide) _ s hs).2 lastSlot nextSlot (by decide) x hx y hy⟩

end TinyServer.Runtime
