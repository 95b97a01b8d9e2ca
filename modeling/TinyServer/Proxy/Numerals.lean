import TinyServer.Proxy.ChunkGrammar
import TinyServer.Proxy.Rewrite
import TinyServer.Routing.ConfigLoad

/-!
# The numeral readers

`parse_content_length`, `parse_u64`, the digits of `chunk_feed` and `parse_port_token` read
a number digit by digit, each with its own check against overflow. The loops on machine
words (`decimalBits`, `chunkBits`, `portBits`) compute what the loops on numbers do, so that
no step wraps, and a string of digits is accepted exactly where its value is in the range of
the reader (`numerals_exact`).
-/

set_option autoImplicit false

namespace TinyServer.Proxy

open TinyServer.Http TinyServer.Routing

/-! ## The loops on machine words -/

/-- The loop of `parse_content_length` in 32 bits, and of `parse_u64` in 64 bits. -/
def decimalBits (w : Nat) : List UInt8 → BitVec w → Option (BitVec w)
  | [], v => some v
  | c :: p, v =>
      if c < 0x30 ∨ 0x39 < c then none
      else
        let d := BitVec.ofNat w (c.toNat - 0x30)
        if (BitVec.allOnes w - d) / 10 < v then none else decimalBits w p (v * 10 + d)

/-- The digits of a chunk size in `chunk_feed`. -/
def chunkBits : List UInt8 → BitVec 64 → Option (BitVec 64)
  | [], v => some v
  | c :: p, v =>
      match hexVal c with
      | none => none
      | some h =>
          if BitVec.allOnes 64 >>> 4 < v then none else chunkBits p (v <<< 4 ||| BitVec.ofNat 64 h)

/-- The loop of `parse_port_token` and what comes after it. -/
def portBits : List UInt8 → BitVec 64 → Option (BitVec 16)
  | [], v => if v = 0 then none else some (v.setWidth 16)
  | c :: s, v =>
      if !isDigit c then none
      else
        let v := v * 10 + BitVec.ofNat 64 (c.toNat - 0x30)
        if 65535 < v then none else portBits s v

/-- The size that `chunk_feed` has after the digits `p`. -/
def chunkDigits (p : List UInt8) : Option Nat :=
  let r := chunkFeed .start p
  if r.2.1 = .more ∧ r.2.2.sawDigit then some r.2.2.size else none

/-! ## No step wraps -/

theorem digit_le {c : UInt8} (h : ¬ (c < 0x30 ∨ 0x39 < c)) : c.toNat - 0x30 ≤ 9 := by
  have hle := UInt8.le_iff_toNat_le.1 (UInt8.not_lt.1 (not_or.1 h).2)
  have h39 : (0x39 : UInt8).toNat = 57 := rfl
  omega

/-- A small number is itself in a word. -/
theorem ofNat_small {w d : Nat} (hw : 4 ≤ w) (hd : d ≤ 15) : (BitVec.ofNat w d).toNat = d := by
  have hpow := Nat.pow_le_pow_right Nat.two_pos hw
  rw [BitVec.toNat_ofNat]
  exact Nat.mod_eq_of_lt (by omega)

/-- The decimal loop in machine words is the one over numbers. -/
theorem decimalBits_toNat {w : Nat} (hw : 4 ≤ w) (p : List UInt8) : ∀ v : BitVec w,
    (decimalBits w p v).map BitVec.toNat = decimalDigits (2 ^ w - 1) p v.toNat := by
  induction p with
  | nil => exact fun _ => rfl
  | cons c p ih =>
      intro v
      rw [decimalBits, decimalDigits]
      by_cases hc : c < 0x30 ∨ 0x39 < c
      · rw [if_pos hc, if_pos hc]
        rfl
      rw [if_neg hc, if_neg hc]
      dsimp only
      have hdigit := digit_le hc
      have hten : (10 : BitVec w).toNat = 10 := @ofNat_small w 10 hw (by decide)
      have hd : (BitVec.ofNat w (c.toNat - 0x30)).toNat = c.toNat - 0x30 :=
        ofNat_small hw (by omega)
      generalize BitVec.ofNat w (c.toNat - 0x30) = d at hd
      have hpow := Nat.pow_le_pow_right Nat.two_pos hw
      -- The largest word is larger than the digit.
      have hcheck : (BitVec.allOnes w - d) / 10 < v ↔ (2 ^ w - 1 - (c.toNat - 0x30)) / 10 < v.toNat := by
        have hle : d ≤ BitVec.allOnes w := by
          rw [BitVec.le_def, BitVec.toNat_allOnes, hd]
          omega
        rw [BitVec.lt_def, BitVec.toNat_udiv, hten, BitVec.toNat_sub_of_le hle,
          BitVec.toNat_allOnes, hd]
      by_cases hover : (2 ^ w - 1 - (c.toNat - 0x30)) / 10 < v.toNat
      · rw [if_pos (hcheck.2 hover), if_pos hover]
        rfl
      · rw [if_neg (mt hcheck.1 hover), if_neg hover, ih]
        congr 1
        rw [BitVec.toNat_add_of_lt, BitVec.toNat_mul_of_lt, hten, hd]
        · rw [hten]
          omega
        · rw [BitVec.toNat_mul_of_lt, hten, hd]
          · omega
          · rw [hten]
            omega

/-- A shifted size with a digit in its low bits. -/
theorem chunkShift_toNat {v : BitVec 64} {h : Nat} (hv : v.toNat ≤ CHUNK_SIZE_MAX) (hh : h < 16) :
    (v <<< 4 ||| BitVec.ofNat 64 h).toNat = v.toNat * 16 + h := by
  have hmax : CHUNK_SIZE_MAX = 2 ^ 60 - 1 := rfl
  have hshift : (v <<< 4).toNat = v.toNat <<< 4 := by
    rw [BitVec.toNat_shiftLeft, Nat.shiftLeft_eq]
    exact Nat.mod_eq_of_lt (by omega)
  rw [BitVec.toNat_or, hshift, ofNat_small (by decide) (by omega),
    ← Nat.shiftLeft_add_eq_or_of_lt (by omega : h < 2 ^ 4), Nat.shiftLeft_eq]

/-- So is the hex loop of a chunk size. -/
theorem chunkBits_toNat (p : List UInt8) : ∀ v : BitVec 64, HexDigits p →
    (chunkBits p v).map BitVec.toNat
      = if hexFrom v.toNat p < 2 ^ 64 then some (hexFrom v.toNat p) else none := by
  induction p with
  | nil =>
      intro v _
      rw [hexFrom, if_pos v.isLt]
      rfl
  | cons c p ih =>
      intro v hp
      obtain ⟨h, hc⟩ := Option.isSome_iff_exists.1 (hp c List.mem_cons_self)
      have hh := hexVal_lt hc
      have hmax : CHUNK_SIZE_MAX = 2 ^ 60 - 1 := rfl
      have hcheck : BitVec.allOnes 64 >>> 4 < v ↔ CHUNK_SIZE_MAX < v.toNat := by
        rw [BitVec.lt_def]
        rfl
      rw [chunkBits, hexFrom, hc]
      dsimp only [Option.getD_some]
      by_cases hover : CHUNK_SIZE_MAX < v.toNat
      · have hge := hexFrom_ge p (v.toNat * 16 + h)
        rw [if_pos (hcheck.2 hover), if_neg (by omega)]
        rfl
      · have hp' : HexDigits p := fun d hd => hp d (List.mem_cons_of_mem c hd)
        rw [if_neg (mt hcheck.1 hover), ih _ hp', chunkShift_toNat (Nat.not_lt.1 hover) hh]

/-- So is the loop of a port. -/
theorem portBits_toNat (s : List UInt8) : ∀ v : BitVec 64, v.toNat ≤ 65535 →
    (portBits s v).map BitVec.toNat = portLoop s v.toNat := by
  induction s with
  | nil =>
      intro v hv
      have hzero : v = 0 ↔ v.toNat = 0 := by
        rw [← BitVec.toNat_inj]
        rfl
      rw [portBits, portLoop]
      by_cases h : v = 0
      · rw [if_pos h, if_pos (hzero.1 h)]
        rfl
      · rw [if_neg h, if_neg (mt hzero.2 h), Option.map_some, BitVec.toNat_setWidth,
          Nat.mod_eq_of_lt (by omega)]
  | cons c s ih =>
      intro v hv
      rw [portBits, portLoop]
      by_cases hc : isDigit c = true
      · have hdigit := digit_le (isDigit_iff.1 hc)
        have hten : (10 : BitVec 64).toNat = 10 := rfl
        have hd : (BitVec.ofNat 64 (c.toNat - 0x30)).toNat = c.toNat - 0x30 :=
          ofNat_small (by decide) (by omega)
        have hmul : (v * 10).toNat = v.toNat * 10 := by
          rw [BitVec.toNat_mul_of_lt, hten]
          rw [hten]
          omega
        have hnext : (v * 10 + BitVec.ofNat 64 (c.toNat - 0x30)).toNat
            = v.toNat * 10 + (c.toNat - 0x30) := by
          rw [BitVec.toNat_add_of_lt, hmul, hd]
          rw [hmul, hd]
          omega
        have hcheck : (65535 : BitVec 64) < v * 10 + BitVec.ofNat 64 (c.toNat - 0x30) ↔
            65535 < v.toNat * 10 + (c.toNat - 0x30) := by
          rw [BitVec.lt_def, hnext]
          rfl
        have hyes : ¬ (!isDigit c) = true := by simpa using hc
        rw [if_neg hyes, if_neg hyes]
        dsimp only
        by_cases hover : 65535 < v.toNat * 10 + (c.toNat - 0x30)
        · rw [if_pos (hcheck.2 hover), if_pos hover]
          rfl
        · rw [if_neg (mt hcheck.1 hover), if_neg hover, ih _ (by omega), hnext]
      · have hno : (!isDigit c) = true := by simpa using hc
        rw [if_pos hno, if_pos hno]
        rfl

/-! ## What the readers accept -/

/-- On strings of digits, `read` accepts the non-empty ones with a value in the range, and
returns the value. -/
def ReadsExactly (read : List UInt8 → Option Nat) (digit : UInt8 → Bool) (value : List UInt8 → Nat)
    (range : Nat → Prop) : Prop :=
  ∀ p, p.all digit = true → ∀ n, read p = some n ↔ p ≠ [] ∧ range (value p) ∧ n = value p

/-- `parse_u64` accepts the numerals below 2^64. -/
theorem parseU64_iff {p : List UInt8} {n : Nat} : parseU64 p = some n ↔
    p ≠ [] ∧ p.all isDigit = true ∧ decimal p < 2 ^ 64 ∧ n = decimal p := by
  have hmax : decimal p ≤ UINT64_MAX ↔ decimal p < 2 ^ 64 := by
    rw [UINT64_MAX]
    omega
  rw [parseU64, ← hmax]
  by_cases hnil : p = []
  · rw [hnil]
    simp
  · rw [if_neg (mt List.length_eq_zero_iff.1 hnil), decimalDigits_iff (by decide) p 0 n (Nat.zero_le _)]
    exact ⟨fun h => ⟨hnil, h⟩, fun h => h.2⟩

/-- The loop of a port accepts the numerals of ports. -/
theorem portLoop_iff {s : List UInt8} (hs : s.all isDigit = true) : ∀ {v n : Nat}, v ≤ 65535 →
    (portLoop s v = some n ↔ (1 ≤ decimalFrom v s ∧ decimalFrom v s ≤ 65535) ∧ n = decimalFrom v s) := by
  induction s with
  | nil =>
      intro v n hv
      have hvalue : decimalFrom v [] = v := rfl
      rw [portLoop, hvalue]
      split
      · rename_i hzero
        constructor
        · rintro ⟨⟩
        · rintro ⟨⟨hpos, -⟩, -⟩
          omega
      · rename_i hpos
        rw [Option.some_inj]
        constructor
        · rintro rfl
          exact ⟨⟨by omega, hv⟩, rfl⟩
        · exact fun h => h.2.symm
  | cons c s ih =>
      intro v n hv
      rw [List.all_cons, Bool.and_eq_true] at hs
      have hstep : decimalFrom v (c :: s) = decimalFrom (v * 10 + (c.toNat - 0x30)) s := rfl
      have hyes : ¬ (!isDigit c) = true := by simpa using hs.1
      rw [portLoop, if_neg hyes, hstep]
      dsimp only
      by_cases hover : 65535 < v * 10 + (c.toNat - 0x30)
      · -- The value only grows.
        have hge := le_decimalFrom s (v * 10 + (c.toNat - 0x30))
        rw [if_pos hover]
        constructor
        · rintro ⟨⟩
        · rintro ⟨⟨-, hle⟩, -⟩
          omega
      · rw [if_neg hover]
        exact ih hs.2 (by omega)

/-- `chunk_feed` takes the digits of a size that fits, and stops where it gets too large. -/
theorem scanChunks_digits (p : List UInt8) : ∀ sc : ChunkScan, HexDigits p → sc.state = .size →
    sc.size < 2 ^ 64 →
      (hexFrom sc.size p < 2 ^ 64 → scanChunks sc p = (p.length, .more,
        { sc with size := hexFrom sc.size p, sawDigit := sc.sawDigit || !p.isEmpty })) ∧
      (2 ^ 64 ≤ hexFrom sc.size p → (scanChunks sc p).2.1 = .bad) := by
  induction p with
  | nil =>
      intro sc _ _ hsize
      refine ⟨fun _ => ?_, fun hle => absurd hsize (Nat.not_lt.2 hle)⟩
      rw [scanChunks, hexFrom]
      simp
  | cons c p ih =>
      intro sc hp hstate hsize
      obtain ⟨h, hc⟩ := Option.isSome_iff_exists.1 (hp c List.mem_cons_self)
      have hp' : HexDigits p := fun d hd => hp d (List.mem_cons_of_mem c hd)
      have hh := hexVal_lt hc
      have hmax : CHUNK_SIZE_MAX = 2 ^ 60 - 1 := rfl
      rw [scanChunks, chunkByte, hstate, hexFrom, hc]
      dsimp only [Option.getD_some]
      by_cases hover : CHUNK_SIZE_MAX < sc.size
      · rw [if_pos hover]
        have hge := hexFrom_ge p (sc.size * 16 + h)
        exact ⟨fun hlt => absurd hlt (by omega), fun _ => rfl⟩
      · rw [if_neg hover]
        have hnext := ih ⟨.size, true, sc.size * 16 + h⟩ hp' rfl (by dsimp only; omega)
        refine ⟨fun hlt => ?_, hnext.2⟩
        dsimp only
        rw [hnext.1 hlt]
        simp

/-- A chunk size is accepted if it is below 2^64. -/
theorem chunkDigits_iff {p : List UInt8} (hp : HexDigits p) {n : Nat} :
    chunkDigits p = some n ↔ p ≠ [] ∧ hexFrom 0 p < 2 ^ 64 ∧ n = hexFrom 0 p := by
  obtain ⟨hfits, hlarge⟩ := scanChunks_digits p .start hp rfl (by decide)
  rw [chunkDigits, chunkFeed_eq_scanChunks ChunkScan.start_valid]
  by_cases hlt : hexFrom 0 p < 2 ^ 64
  · rw [hfits hlt]
    cases p with
    | nil => simp [ChunkScan.start]
    | cons c p => simpa [ChunkScan.start, eq_comm] using fun _ : n = hexFrom 0 (c :: p) => hlt
  · have hbad := hlarge (Nat.not_lt.1 hlt)
    rw [hbad, if_neg (by simp)]
    exact ⟨nofun, fun h => absurd h.2.1 hlt⟩

/-- Every reader accepts exactly the numbers in its range, and the words that it computes
with hold the numbers themselves. -/
theorem numerals_exact :
    ReadsExactly parseContentLength isDigit decimal (· < 2 ^ 32) ∧
      ReadsExactly parseU64 isDigit decimal (· < 2 ^ 64) ∧
      ReadsExactly chunkDigits (fun c => (hexVal c).isSome) (hexFrom 0) (· < 2 ^ 64) ∧
      ReadsExactly parsePortToken isDigit decimal (fun v => 1 ≤ v ∧ v ≤ 65535) ∧
      ∀ p : List UInt8,
        (decimalBits 32 p 0).map BitVec.toNat = decimalDigits UINT32_MAX p 0 ∧
        (decimalBits 64 p 0).map BitVec.toNat = decimalDigits UINT64_MAX p 0 ∧
        (portBits p 0).map BitVec.toNat = portLoop p 0 ∧
        (p ≠ [] → p.all (fun c => (hexVal c).isSome) = true →
          (chunkBits p 0).map BitVec.toNat = chunkDigits p) := by
  have hhex : ∀ {p : List UInt8}, p.all (fun c => (hexVal c).isSome) = true → HexDigits p :=
    fun hp c hc => List.all_eq_true.1 hp c hc
  refine ⟨fun p hp n => ?_, fun p hp n => ?_, fun p hp n => chunkDigits_iff (hhex hp), fun p hp n => ?_,
    fun p => ⟨decimalBits_toNat (by decide) p 0, decimalBits_toNat (by decide) p 0,
      portBits_toNat p 0 (Nat.zero_le _), fun hne hp => ?_⟩⟩
  · rw [parseContentLength_iff, and_congr_right_iff]
    exact fun _ => and_iff_right hp
  · rw [parseU64_iff, and_congr_right_iff]
    exact fun _ => and_iff_right hp
  · rw [parsePortToken]
    by_cases hnil : p = []
    · rw [if_pos hnil]
      exact ⟨by rintro ⟨⟩, fun h => absurd hnil h.1⟩
    · rw [if_neg hnil, portLoop_iff hp (Nat.zero_le _)]
      exact ⟨fun h => ⟨hnil, h⟩, fun h => h.2⟩
  · refine (chunkBits_toNat p 0 (hhex hp)).trans (Option.ext fun n => ?_)
    rw [chunkDigits_iff (hhex hp)]
    have hzero : (0 : BitVec 64).toNat = 0 := rfl
    rw [hzero]
    by_cases hlt : hexFrom 0 p < 2 ^ 64
    · rw [if_pos hlt, Option.some_inj]
      exact ⟨fun h => ⟨hne, hlt, h.symm⟩, fun h => h.2.2.symm⟩
    · rw [if_neg hlt]
      exact ⟨by rintro ⟨⟩, fun h => absurd h.2.1 hlt⟩

end TinyServer.Proxy
