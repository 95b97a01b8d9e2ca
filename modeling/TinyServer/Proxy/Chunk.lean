import TinyServer.Http.Chars

/-!
# The chunked scanner (`chunk_feed`)

`chunk_feed` forwards bytes unchanged and only finds the end of a chunked body.
`chunkFeed` is the C loop, which takes the data of a chunk in one go;
`scanChunks` looks at one byte at a time. They agree (`chunkFeed_eq_scanChunks`),
and scanning can stop and go on at any byte (`scanChunks_append`), so the place
where the upstream's reads are cut does not matter.
-/

set_option autoImplicit false

namespace TinyServer.Proxy

open TinyServer.Http

/-- The states of the chunk decoder. -/
inductive ChunkState where
  | size
  | ext
  | sizeLf
  | data
  | dataCr
  | dataLf
  | trail
  | trailCr
  | skip
  | skipCr
  deriving DecidableEq, Repr

/-- The three fields of `proxy_conn` that `chunk_feed` reads and writes. -/
structure ChunkScan where
  state : ChunkState
  sawDigit : Bool
  size : Nat
  deriving DecidableEq, Repr

/-- The decoder before the first byte. -/
def ChunkScan.start : ChunkScan := ⟨.size, false, 0⟩

/-- `hex_val`. -/
def hexVal (c : UInt8) : Option Nat :=
  if 0x30 ≤ c ∧ c ≤ 0x39 then some (c.toNat - 0x30)
  else if 0x61 ≤ c ∧ c ≤ 0x66 then some (c.toNat - 0x61 + 10)
  else if 0x41 ≤ c ∧ c ≤ 0x46 then some (c.toNat - 0x41 + 10)
  else none

/-- `UINT64_MAX >> 4`. -/
def CHUNK_SIZE_MAX : Nat := 0xFFFFFFFFFFFFFFF

/-- `';'`, before a chunk extension. -/
abbrev SEMICOLON : UInt8 := 0x3B

/-- What the decoder says of the bytes it was fed. -/
inductive ChunkStatus where
  | more
  | done
  | bad
  deriving DecidableEq, Repr

/-- What one byte does: the cases of `chunk_feed`, with the data of a chunk taken
one byte at a time. A bad byte is not consumed. -/
def chunkByte (sc : ChunkScan) (c : UInt8) : ChunkStatus × ChunkScan :=
  match sc.state with
  | .size =>
      match hexVal c with
      | some h =>
          -- `chunk_size > (UINT64_MAX >> 4)`: the next digit would shift a bit out
          if CHUNK_SIZE_MAX < sc.size then (.bad, sc)
          else (.more, { sc with size := sc.size * 16 + h, sawDigit := true })
      | none =>
          if c = SEMICOLON then
            if !sc.sawDigit then (.bad, sc) else (.more, { sc with state := .ext })
          else if c = CR then
            if !sc.sawDigit then (.bad, sc) else (.more, { sc with state := .sizeLf })
          else (.bad, sc)
  | .ext =>
      if c = LF then (.bad, sc)
      else if c = CR then (.more, { sc with state := .sizeLf })
      else (.more, sc)
  | .sizeLf =>
      if c ≠ LF then (.bad, sc)
      else (.more, { sc with state := if sc.size = 0 then .trail else .data })
  | .data =>
      -- one byte of the data; `chunkLoop` takes as many at once as there are
      (.more, { sc with
        size := sc.size - 1
        state := if sc.size - 1 = 0 then .dataCr else .data })
  | .dataCr => if c ≠ CR then (.bad, sc) else (.more, { sc with state := .dataLf })
  -- the state before the next size, with no digit seen
  | .dataLf => if c ≠ LF then (.bad, sc) else (.more, ⟨.size, false, 0⟩)
  -- the first byte of a trailer line; a lone CRLF ends the body
  | .trail => (.more, { sc with state := if c = CR then .trailCr else .skip })
  | .trailCr => if c ≠ LF then (.bad, sc) else (.done, sc)
  | .skip => (.more, { sc with state := if c = CR then .skipCr else .skip })
  | .skipCr => if c ≠ LF then (.bad, sc) else (.more, { sc with state := .trail })

/-- The loop of `chunk_feed` over the bytes left, `i` of them consumed before.
Returns how many are consumed. In `CH_DATA` a turn consumes all the data of the
chunk that is there, which may be nothing, so two turns a byte bound the loop. -/
def chunkLoop : Nat → Nat → ChunkScan → List UInt8 → Nat × ChunkStatus × ChunkScan
  | 0, i, sc, _ => (i, .more, sc)
  | _ + 1, i, sc, [] => (i, .more, sc)
  | n + 1, i, sc, c :: s =>
      if sc.state = .data then
        let left := min (c :: s).length sc.size
        chunkLoop n (i + left)
          { sc with
            size := sc.size - left
            state := if sc.size - left = 0 then .dataCr else .data }
          ((c :: s).drop left)
      else
        match chunkByte sc c with
        | (.bad, sc) => (i, .bad, sc)
        | (.done, sc) => (i + 1, .done, sc)
        | (.more, sc) => chunkLoop n (i + 1) sc s

/-- `chunk_feed`: how many bytes were taken, the result and the decoder after them. -/
def chunkFeed (sc : ChunkScan) (s : List UInt8) : Nat × ChunkStatus × ChunkScan :=
  chunkLoop (2 * s.length + 1) 0 sc s

/-! ## Byte by byte -/

/-- One byte at a time, until the end of the body or a bad byte. -/
def scanChunks : ChunkScan → List UInt8 → Nat × ChunkStatus × ChunkScan
  | sc, [] => (0, .more, sc)
  | sc, c :: s =>
      match chunkByte sc c with
      | (.bad, sc) => (0, .bad, sc)
      | (.done, sc) => (1, .done, sc)
      | (.more, sc) =>
          let r := scanChunks sc s
          (r.1 + 1, r.2)

/-- No more is taken than there is. -/
theorem scanChunks_le (s : List UInt8) : ∀ sc : ChunkScan, (scanChunks sc s).1 ≤ s.length := by
  induction s with
  | nil => exact fun _ => le_rfl
  | cons c s ih =>
      intro sc
      rw [scanChunks]
      split
      · exact Nat.zero_le _
      · exact Nat.succ_le_succ (Nat.zero_le _)
      · exact Nat.succ_le_succ (ih _)

/-- Without an end and without a bad byte everything is consumed. -/
theorem scanChunks_more (s : List UInt8) : ∀ sc : ChunkScan,
    (scanChunks sc s).2.1 = .more → (scanChunks sc s).1 = s.length := by
  induction s with
  | nil => exact fun _ _ => rfl
  | cons c s ih =>
      intro sc h
      rw [scanChunks] at h ⊢
      split at h
      · cases h
      · cases h
      · exact congrArg Nat.succ (ih _ h)

/-- Scanning on after a part without an end is scanning the whole. -/
theorem scanChunks_append (s t : List UInt8) : ∀ sc : ChunkScan,
    (scanChunks sc s).2.1 = .more →
      scanChunks sc (s ++ t) =
        (s.length + (scanChunks (scanChunks sc s).2.2 t).1,
          (scanChunks (scanChunks sc s).2.2 t).2) := by
  induction s with
  | nil =>
      intro sc _
      simp [scanChunks]
  | cons c s ih =>
      intro sc h
      rw [scanChunks] at h ⊢
      rw [List.cons_append, scanChunks]
      split at h
      · cases h
      · cases h
      · rw [ih _ h]
        simp only [List.length_cons, Prod.mk.injEq, and_true]
        omega

/-- An end or a bad byte stays where it is when more bytes follow. -/
theorem scanChunks_append_of_ne (s t : List UInt8) : ∀ sc : ChunkScan,
    (scanChunks sc s).2.1 ≠ .more → scanChunks sc (s ++ t) = scanChunks sc s := by
  induction s with
  | nil => exact fun _ h => absurd rfl h
  | cons c s ih =>
      intro sc h
      rw [scanChunks] at h ⊢
      rw [List.cons_append, scanChunks]
      split at h
      · rfl
      · rfl
      · rw [ih _ h]

/-- Scanning the data of a chunk. -/
theorem scanChunks_data (s : List UInt8) : ∀ sc : ChunkScan, sc.state = .data →
    0 < sc.size → s.length ≤ sc.size → s ≠ [] →
      scanChunks sc s = (s.length, .more,
        { sc with
          size := sc.size - s.length
          state := if sc.size - s.length = 0 then .dataCr else .data }) := by
  induction s with
  | nil => exact fun _ _ _ _ h => absurd rfl h
  | cons c s ih =>
      intro sc hd hpos hlen _
      rw [List.length_cons] at hlen
      rw [scanChunks, chunkByte, hd]
      simp only
      cases s with
      | nil => simp [scanChunks]
      | cons c' s =>
          rw [List.length_cons] at hlen
          have hne : ¬ sc.size - 1 = 0 := by omega
          rw [ih _ (by simp [hne]) (by simp only; omega) (by simp only [List.length_cons]; omega)
            (List.cons_ne_nil _ _)]
          have e : sc.size - 1 - (s.length + 1) = sc.size - (s.length + 1 + 1) := by omega
          simp only [List.length_cons, e]

/-- The loop inside chunk data always has data to consume. -/
def ChunkScan.Valid (sc : ChunkScan) : Prop := sc.state = .data → 0 < sc.size

/-- Chunk data starts with bytes to take. -/
theorem chunkByte_valid (sc : ChunkScan) (c : UInt8) : (chunkByte sc c).2.Valid := by
  unfold ChunkScan.Valid
  unfold chunkByte
  cases hs : sc.state with
  | size => grind
  | ext => grind
  | sizeLf => grind
  | data => grind
  | dataCr => grind
  | dataLf => grind
  | trail => grind
  | trailCr => grind
  | skip => grind
  | skipCr => grind

/-- The loop takes the data of a chunk in one turn, as the scanner does byte by byte. -/
theorem chunkLoop_eq_scanChunks (n : Nat) : ∀ (i : Nat) (sc : ChunkScan) (s : List UInt8),
    sc.Valid → s.length < n →
      chunkLoop n i sc s = (i + (scanChunks sc s).1, (scanChunks sc s).2) := by
  induction n with
  | zero => exact fun _ _ _ _ h => absurd h (Nat.not_lt_zero _)
  | succ n ih =>
      intro i sc s hv hn
      cases s with
      | nil => rfl
      | cons c s =>
          rw [List.length_cons] at hn
          rw [chunkLoop]
          by_cases hd : sc.state = .data
          · -- The data taken in one turn is scanned byte by byte, then the rest.
            have hpos := hv hd
            rw [if_pos hd]
            set left := min (c :: s).length sc.size with hleft
            have hl1 : left ≤ (c :: s).length := Nat.min_le_left _ _
            have hl2 : left ≤ sc.size := Nat.min_le_right _ _
            have hl3 : 0 < left := by
              rw [hleft, List.length_cons]
              omega
            have htake : ((c :: s).take left).length = left := List.length_take_of_le hl1
            have hne : (c :: s).take left ≠ [] := by
              intro e
              rw [e] at htake
              simp only [List.length_nil] at htake
              omega
            have hdata := scanChunks_data ((c :: s).take left) sc hd hpos (htake.trans_le hl2)
              hne
            rw [htake] at hdata
            have hsplit := scanChunks_append ((c :: s).take left) ((c :: s).drop left) sc
              (by rw [hdata])
            rw [List.take_append_drop, hdata, htake] at hsplit
            have hv' : ChunkScan.Valid { sc with
                size := sc.size - left
                state := if sc.size - left = 0 then .dataCr else .data } := by
              intro hst
              simp only at hst ⊢
              split at hst
              · cases hst
              · omega
            rw [ih _ _ _ hv' (by rw [List.length_drop, List.length_cons]; omega), hsplit]
            simp only [Prod.mk.injEq, and_true]
            omega
          -- Any other byte is scanned alone.
          · rw [if_neg hd, scanChunks]
            have hv' := chunkByte_valid sc c
            split
            · rfl
            · rfl
            · rename_i sc' hb
              rw [hb] at hv'
              rw [ih _ _ _ hv' (by omega)]
              simp only [Prod.mk.injEq, and_true]
              omega

/-- `chunk_feed` scans byte by byte. -/
theorem chunkFeed_eq_scanChunks {sc : ChunkScan} (h : sc.Valid) (s : List UInt8) :
    chunkFeed sc s = scanChunks sc s := by
  unfold chunkFeed
  rw [chunkLoop_eq_scanChunks _ 0 sc s h (by omega), Nat.zero_add]

/-- The scanner leaves a decoder that is valid. -/
theorem scanChunks_valid (s : List UInt8) : ∀ {sc : ChunkScan}, sc.Valid →
    (scanChunks sc s).2.2.Valid := by
  induction s with
  | nil => exact fun h => h
  | cons c s ih =>
      intro sc h
      have hb := chunkByte_valid sc c
      rw [scanChunks]
      split
      · rename_i e
        rw [e] at hb
        exact hb
      · rename_i e
        rw [e] at hb
        exact hb
      · rename_i e
        rw [e] at hb
        exact ih hb

theorem ChunkScan.start_valid : ChunkScan.start.Valid := nofun

end TinyServer.Proxy
