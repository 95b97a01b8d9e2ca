import TinyServer.Lib.Scan
import TinyServer.Proxy.Chunk

/-!
# Chunked bodies

The grammar of chunked bodies, and the residual language of every state of the scanner:
what may still follow for the bytes read so far to become a body. One byte takes the
residual language apart (`chunkByte_residual`), so `chunk_feed` finds the end of exactly
the bodies of the grammar, however the stream is cut (`chunkFeed_exact`).
-/

set_option autoImplicit false

namespace TinyServer.Proxy

open TinyServer.Http TinyServer.Lib

/-! ## The grammar -/

/-- The value of hex digits read after a value `n`. -/
def hexFrom (n : Nat) : List UInt8 → Nat
  | [] => n
  | c :: ds => hexFrom (n * 16 + (hexVal c).getD 0) ds

/-- A string of hex digits. -/
def HexDigits (ds : List UInt8) : Prop := ∀ c ∈ ds, (hexVal c).isSome

/-- An optional chunk extension. -/
def ChunkExt (e : List UInt8) : Prop := e = [] ∨ ∃ t, e = SEMICOLON :: t ∧ CR ∉ t ∧ LF ∉ t

/-- A size line for `n` bytes. -/
def SizeLine (n : Nat) (l : List UInt8) : Prop :=
  ∃ ds e, l = ds ++ e ++ CRLF ∧ ds ≠ [] ∧ HexDigits ds ∧ hexFrom 0 ds = n ∧ n < 2 ^ 64 ∧
    ChunkExt e

/-- Trailer lines and the empty line after them. -/
inductive Trailers : List UInt8 → Prop
  | last : Trailers CRLF
  | line {l t : List UInt8} (hl : l ≠ []) (hcr : CR ∉ l) (ht : Trailers t) :
      Trailers (l ++ CRLF ++ t)

/-- The `chunked-body` of a response: chunks that are not empty, the last chunk and the trailers. -/
inductive ChunkedBody : List UInt8 → Prop
  | last {l t : List UInt8} (hl : SizeLine 0 l) (ht : Trailers t) : ChunkedBody (l ++ t)
  | chunk {l data s : List UInt8} (hl : SizeLine data.length l) (hdata : data ≠ [])
      (hs : ChunkedBody s) : ChunkedBody (l ++ data ++ CRLF ++ s)

/-- What may follow a size line for `n` bytes. -/
def AfterSize (n : Nat) (t : List UInt8) : Prop :=
  (n = 0 ∧ Trailers t) ∨
    (n ≠ 0 ∧ ∃ data s, data.length = n ∧ t = data ++ CRLF ++ s ∧ ChunkedBody s)

/-- A chunked body begins with a size line. -/
theorem chunkedBody_iff (t : List UInt8) :
    ChunkedBody t ↔ ∃ n l u, SizeLine n l ∧ t = l ++ u ∧ AfterSize n u := by
  constructor
  · intro h
    cases h with
    | last hl ht => exact ⟨0, _, _, hl, rfl, Or.inl ⟨rfl, ht⟩⟩
    | chunk hl hdata hs =>
        refine ⟨_, _, _, hl, by rw [List.append_assoc, List.append_assoc], Or.inr ⟨?_, ?_⟩⟩
        · exact fun hn => hdata (List.length_eq_zero_iff.1 hn)
        · exact ⟨_, _, rfl, (List.append_assoc _ _ _).symm, hs⟩
  · rintro ⟨n, l, u, hl, rfl, ⟨rfl, ht⟩ | ⟨hn, data, s, rfl, rfl, hs⟩⟩
    · exact .last hl ht
    · have hdata : data ≠ [] := fun h => hn (by rw [h]; rfl)
      have hbody := ChunkedBody.chunk hl hdata hs
      rw [List.append_assoc, List.append_assoc, ← List.append_assoc data] at hbody
      exact hbody

/-- The trailers are lines up to an empty one. -/
theorem trailers_iff (t : List UInt8) :
    Trailers t ↔ t = CRLF ∨ ∃ l u, t = l ++ CRLF ++ u ∧ l ≠ [] ∧ CR ∉ l ∧ Trailers u := by
  constructor
  · intro h
    cases h with
    | last => exact Or.inl rfl
    | line hl hcr ht => exact Or.inr ⟨_, _, rfl, hl, hcr, ht⟩
  · rintro (rfl | ⟨l, u, rfl, hl, hcr, ht⟩)
    · exact .last
    · exact .line hl hcr ht

/-! ## Residual languages -/

/-- What may follow in the state `sc`. -/
def ChunkRest (sc : ChunkScan) (t : List UInt8) : Prop :=
  match sc.state with
  | .size => ∃ ds e u, t = ds ++ e ++ CRLF ++ u ∧ (sc.sawDigit = true ∨ ds ≠ []) ∧
      HexDigits ds ∧ hexFrom sc.size ds < 2 ^ 64 ∧ ChunkExt e ∧ AfterSize (hexFrom sc.size ds) u
  | .ext => ∃ e u, t = e ++ CRLF ++ u ∧ CR ∉ e ∧ LF ∉ e ∧ AfterSize sc.size u
  | .sizeLf => ∃ u, t = LF :: u ∧ AfterSize sc.size u
  | .data => ∃ data s, data.length = sc.size ∧ t = data ++ CRLF ++ s ∧ ChunkedBody s
  | .dataCr => ∃ s, t = CRLF ++ s ∧ ChunkedBody s
  | .dataLf => ∃ s, t = LF :: s ∧ ChunkedBody s
  | .trail => Trailers t
  | .trailCr => t = [LF]
  | .skip => ∃ l u, t = l ++ CRLF ++ u ∧ CR ∉ l ∧ Trailers u
  | .skipCr => ∃ u, t = LF :: u ∧ Trailers u

/-- What follows the start is a chunked body. -/
theorem chunkRest_start (t : List UInt8) : ChunkRest .start t ↔ ChunkedBody t := by
  rw [chunkedBody_iff]
  constructor
  · rintro ⟨ds, e, u, rfl, hne, hds, hlt, he, hu⟩
    refine ⟨_, ds ++ e ++ CRLF, u, ⟨ds, e, rfl, ?_, hds, rfl, hlt, he⟩, rfl, hu⟩
    exact hne.resolve_left nofun
  · rintro ⟨n, l, u, ⟨ds, e, rfl, hne, hds, rfl, hlt, he⟩, rfl, hu⟩
    exact ⟨ds, e, u, rfl, Or.inr hne, hds, hlt, he, hu⟩

/-- What the scanner keeps: the size fits, and inside data there is data left. -/
structure ChunkOk (sc : ChunkScan) : Prop where
  size : sc.size < 2 ^ 64
  valid : sc.Valid

/-- What one byte does, without the state in which it stops. -/
def chunkStep (sc : ChunkScan) (c : UInt8) : Verdict ChunkScan :=
  match chunkByte sc c with
  | (.more, sc') => .more sc'
  | (.done, _) => .stop
  | (.bad, _) => .bad

/-! ## One byte -/

/-- Hex digits do not make a size smaller. -/
theorem hexFrom_ge (ds : List UInt8) : ∀ n, n ≤ hexFrom n ds := by
  induction ds with
  | nil => exact fun n => le_rfl
  | cons c ds ih =>
      intro n
      rw [hexFrom]
      have := ih (n * 16 + (hexVal c).getD 0)
      omega

theorem hexVal_lt {c : UInt8} {h : Nat} (hc : hexVal c = some h) : h < 16 := by
  unfold hexVal at hc
  split at hc
  · rename_i hr
    have h1 := UInt8.le_iff_toNat_le.1 hr.1
    have h2 := UInt8.le_iff_toNat_le.1 hr.2
    cases hc
    simp at h1 h2 ⊢
    omega
  split at hc
  · rename_i hr
    have h1 := UInt8.le_iff_toNat_le.1 hr.1
    have h2 := UInt8.le_iff_toNat_le.1 hr.2
    cases hc
    simp at h1 h2 ⊢
    omega
  split at hc
  · rename_i hr
    have h1 := UInt8.le_iff_toNat_le.1 hr.1
    have h2 := UInt8.le_iff_toNat_le.1 hr.2
    cases hc
    simp at h1 h2 ⊢
    omega
  · cases hc

/-- The bytes of a size line after its digits do not start with a digit. -/
theorem chunkExt_head {e u : List UInt8} {c : UInt8} {t : List UInt8} (he : ChunkExt e)
    (h : c :: t = e ++ CRLF ++ u) :
    (c = CR ∧ e = [] ∧ t = LF :: u) ∨
      (c = SEMICOLON ∧ ∃ e', e = SEMICOLON :: e' ∧ t = e' ++ CRLF ++ u ∧ CR ∉ e' ∧ LF ∉ e') := by
  rcases he with rfl | ⟨e', rfl, hcr, hlf⟩
  · left
    cases h
    exact ⟨rfl, rfl, rfl⟩
  · right
    obtain ⟨hc, ht⟩ := List.cons.inj h
    exact ⟨hc, e', rfl, ht, hcr, hlf⟩

/-- A digit in front of the rest of a size line. -/
theorem chunkRest_digit {sc : ChunkScan} {c : UInt8} {h : Nat} (hs : sc.state = .size)
    (hc : hexVal c = some h) (t : List UInt8) : ChunkRest sc (c :: t) ↔
      ChunkRest { sc with size := sc.size * 16 + h, sawDigit := true } t := by
  unfold ChunkRest
  rw [hs]
  constructor
  · rintro ⟨ds, e, u, heq, hne, hds, hlt, he, hu⟩
    cases ds with
    | nil =>
        rcases chunkExt_head he heq with ⟨rfl, -, -⟩ | ⟨rfl, -⟩
        · exact nomatch (show hexVal CR = none by decide).symm.trans hc
        · exact nomatch (show hexVal SEMICOLON = none by decide).symm.trans hc
    | cons d ds =>
        obtain ⟨rfl, ht⟩ := List.cons.inj heq
        have hfrom : hexFrom sc.size (c :: ds) = hexFrom (sc.size * 16 + h) ds := by
          rw [hexFrom, hc]
          rfl
        rw [hfrom] at hlt hu
        exact ⟨ds, e, u, ht, Or.inl rfl, fun d hd => hds d (List.mem_cons_of_mem _ hd), hlt, he, hu⟩
  · rintro ⟨ds, e, u, rfl, -, hds, hlt, he, hu⟩
    have hfrom : hexFrom sc.size (c :: ds) = hexFrom (sc.size * 16 + h) ds := by
      rw [hexFrom, hc]
      rfl
    refine ⟨c :: ds, e, u, rfl, Or.inr (List.cons_ne_nil _ _), ?_, ?_, he, ?_⟩
    · intro d hd
      rcases List.mem_cons.1 hd with rfl | hd
      · rw [hc]
        rfl
      · exact hds d hd
    · rw [hfrom]
      exact hlt
    · rw [hfrom]
      exact hu

/-- What follows the digits of a size line when the next byte is not one. -/
theorem chunkRest_digits_end {sc : ChunkScan} {c : UInt8} (hs : sc.state = .size)
    (hsize : sc.size < 2 ^ 64) (hc : hexVal c = none) (t : List UInt8) :
    ChunkRest sc (c :: t) ↔ sc.sawDigit = true ∧
      ((c = CR ∧ ∃ u, t = LF :: u ∧ AfterSize sc.size u) ∨
        (c = SEMICOLON ∧
          ∃ e u, t = e ++ CRLF ++ u ∧ CR ∉ e ∧ LF ∉ e ∧ AfterSize sc.size u)) := by
  unfold ChunkRest
  rw [hs]
  constructor
  · rintro ⟨ds, e, u, heq, hne, hds, hlt, he, hu⟩
    cases ds with
    | nil =>
        refine ⟨hne.resolve_right fun h => h rfl, ?_⟩
        rcases chunkExt_head he heq with ⟨rfl, -, rfl⟩ | ⟨rfl, e', -, rfl, hcr, hlf⟩
        · exact Or.inl ⟨rfl, u, rfl, hu⟩
        · exact Or.inr ⟨rfl, e', u, rfl, hcr, hlf, hu⟩
    | cons d ds =>
        obtain ⟨rfl, -⟩ := List.cons.inj heq
        have hd := hds c List.mem_cons_self
        rw [hc] at hd
        cases hd
  · rintro ⟨hsaw, ⟨rfl, u, rfl, hu⟩ | ⟨rfl, e, u, rfl, hcr, hlf, hu⟩⟩
    · exact ⟨[], [], u, rfl, Or.inl hsaw, nofun, hsize, Or.inl rfl, hu⟩
    · exact ⟨[], SEMICOLON :: e, u, rfl, Or.inl hsaw, nofun, hsize, Or.inr ⟨e, rfl, hcr, hlf⟩, hu⟩

/-- A size that would overflow is the size of no chunk. -/
theorem not_chunkRest_overflow {sc : ChunkScan} {c : UInt8} {h : Nat} (hs : sc.state = .size)
    (hc : hexVal c = some h) (hmax : CHUNK_SIZE_MAX < sc.size) (t : List UInt8) :
    ¬ ChunkRest sc (c :: t) := by
  rw [chunkRest_digit hs hc]
  unfold ChunkRest
  simp only [hs]
  rintro ⟨ds, e, u, -, -, -, hlt, -, -⟩
  have hge := hexFrom_ge ds (sc.size * 16 + h)
  unfold CHUNK_SIZE_MAX at hmax
  omega

/-- A byte of a size line, or its end. -/
theorem chunkStep_size {sc : ChunkScan} (hok : ChunkOk sc) (hs : sc.state = .size) (c : UInt8)
    (t : List UInt8) :
    match chunkStep sc c with
    | .more sc' => sc'.size < 2 ^ 64 ∧ (ChunkRest sc (c :: t) ↔ ChunkRest sc' t)
    | .stop => False
    | .bad => ¬ ChunkRest sc (c :: t) := by
  unfold chunkStep chunkByte
  rw [hs]
  simp only
  cases hc : hexVal c with
  | some h =>
      simp only
      by_cases hmax : CHUNK_SIZE_MAX < sc.size
      · rw [if_pos hmax]
        exact not_chunkRest_overflow hs hc hmax t
      · rw [if_neg hmax]
        have hh := hexVal_lt hc
        have hrest := chunkRest_digit hs hc t
        rw [hs] at hrest
        refine ⟨?_, hrest⟩
        show sc.size * 16 + h < 2 ^ 64
        unfold CHUNK_SIZE_MAX at hmax
        omega
  | none =>
      have hend := chunkRest_digits_end hs hok.size hc t
      have hne : SEMICOLON ≠ CR := by decide
      simp only
      by_cases hsemi : c = SEMICOLON
      · rw [if_pos hsemi]
        have hcr : c ≠ CR := by
          rw [hsemi]
          decide
        cases hsaw : sc.sawDigit with
        | false =>
            simp [hend, hsaw]
        | true =>
            refine ⟨hok.size, ?_⟩
            rw [hend]
            simp [hsaw, hsemi, hne, ChunkRest]
      · rw [if_neg hsemi]
        by_cases hcr : c = CR
        · rw [if_pos hcr]
          cases hsaw : sc.sawDigit with
          | false => simp [hend, hsaw]
          | true =>
              refine ⟨hok.size, ?_⟩
              rw [hend]
              simp [hsaw, hcr, hne.symm, ChunkRest]
        · rw [if_neg hcr]
          simp [hend, hsemi, hcr]

/-- The first byte of a line without CR and its line end. -/
theorem line_cons {l u t : List UInt8} {c : UInt8} (hl : CR ∉ l) (h : c :: t = l ++ CRLF ++ u) :
    (c = CR ∧ l = [] ∧ t = LF :: u) ∨
      (c ≠ CR ∧ ∃ l', l = c :: l' ∧ CR ∉ l' ∧ t = l' ++ CRLF ++ u) := by
  cases l with
  | nil =>
      obtain ⟨hc, ht⟩ := List.cons.inj h
      exact Or.inl ⟨hc, rfl, ht⟩
  | cons d l =>
      obtain ⟨rfl, ht⟩ := List.cons.inj h
      refine Or.inr ⟨?_, l, rfl, fun hmem => hl (List.mem_cons_of_mem _ hmem), ht⟩
      rintro rfl
      exact hl List.mem_cons_self

theorem not_mem_cons {x c : UInt8} {l : List UInt8} (hc : c ≠ x) (hl : x ∉ l) : x ∉ c :: l := by
  intro h
  rcases List.mem_cons.1 h with h | h
  · exact hc h.symm
  · exact hl h

/-- What one byte does to the residual language. -/
def Derives (sc : ChunkScan) (c : UInt8) (t : List UInt8) : Prop :=
  match chunkStep sc c with
  | .more sc' => sc'.size < 2 ^ 64 ∧ (ChunkRest sc (c :: t) ↔ ChunkRest sc' t)
  | .stop => ChunkRest sc (c :: t) ↔ t = []
  | .bad => ¬ ChunkRest sc (c :: t)

section States

variable {sc : ChunkScan} (c : UInt8) (t : List UInt8)

/-- The decoder follows the grammar in a size line. -/
theorem size_derives (hok : ChunkOk sc) (hs : sc.state = .size) : Derives sc c t := by
  have h := chunkStep_size hok hs c t
  unfold Derives
  split at h
  · exact h
  · exact h.elim
  · exact h

/-- In a chunk extension. -/
theorem ext_derives (hok : ChunkOk sc) (hs : sc.state = .ext) : Derives sc c t := by
  have hrest : ChunkRest sc (c :: t) ↔
      ∃ e u, c :: t = e ++ CRLF ++ u ∧ CR ∉ e ∧ LF ∉ e ∧ AfterSize sc.size u := by
    unfold ChunkRest
    rw [hs]
  unfold Derives chunkStep chunkByte
  rw [hs]
  simp only
  by_cases hlf : c = LF
  · rw [if_pos hlf, hrest]
    rintro ⟨e, u, heq, hcr, hmem, -⟩
    rcases line_cons hcr heq with ⟨hc, -, -⟩ | ⟨-, e', rfl, -, -⟩
    · exact absurd (hc.symm.trans hlf) (by decide)
    · rw [hlf] at hmem
      exact hmem List.mem_cons_self
  rw [if_neg hlf]
  by_cases hcr : c = CR
  · rw [if_pos hcr]
    refine ⟨hok.size, ?_⟩
    rw [hrest]
    unfold ChunkRest
    constructor
    · rintro ⟨e, u, heq, hmem, -, hu⟩
      rcases line_cons hmem heq with ⟨-, -, ht⟩ | ⟨hne, -⟩
      · exact ⟨u, ht, hu⟩
      · exact absurd hcr hne
    · rintro ⟨u, rfl, hu⟩
      exact ⟨[], u, by rw [hcr]; rfl, nofun, nofun, hu⟩
  · rw [if_neg hcr]
    refine ⟨hok.size, ?_⟩
    rw [hrest]
    unfold ChunkRest
    rw [hs]
    constructor
    · rintro ⟨e, u, heq, hmemcr, hmemlf, hu⟩
      rcases line_cons hmemcr heq with ⟨hc, -⟩ | ⟨-, e', rfl, he', ht⟩
      · exact absurd hc hcr
      · exact ⟨e', u, ht, he', fun h => hmemlf (List.mem_cons_of_mem _ h), hu⟩
    · rintro ⟨e, u, rfl, hmemcr, hmemlf, hu⟩
      exact ⟨c :: e, u, rfl, not_mem_cons hcr hmemcr, not_mem_cons hlf hmemlf, hu⟩

/-- The states that wait for one certain byte. -/
theorem expected_iff {P : List UInt8 → Prop} (x : UInt8) :
    (∃ u, c :: t = x :: u ∧ P u) ↔ c = x ∧ P t := by
  constructor
  · rintro ⟨u, heq, hu⟩
    obtain ⟨hc, rfl⟩ := List.cons.inj heq
    exact ⟨hc, hu⟩
  · rintro ⟨rfl, ht⟩
    exact ⟨t, rfl, ht⟩

/-- At the end of a size line. -/
theorem sizeLf_derives (hok : ChunkOk sc) (hs : sc.state = .sizeLf) : Derives sc c t := by
  have hrest : ChunkRest sc (c :: t) ↔ c = LF ∧ AfterSize sc.size t := by
    unfold ChunkRest
    rw [hs]
    exact expected_iff c t LF
  unfold Derives chunkStep chunkByte
  rw [hs]
  simp only
  by_cases hlf : c = LF
  · rw [if_neg (not_not.2 hlf)]
    refine ⟨hok.size, ?_⟩
    rw [hrest]
    unfold ChunkRest AfterSize
    by_cases hz : sc.size = 0
    · simp [hlf, hz]
    · simp [hlf, hz]
  · rw [if_pos hlf]
    exact fun h => hlf (hrest.1 h).1

/-- In the data of a chunk. -/
theorem data_derives (hok : ChunkOk sc) (hs : sc.state = .data) : Derives sc c t := by
  have hpos := hok.valid hs
  have hsize := hok.size
  unfold Derives chunkStep chunkByte
  rw [hs]
  simp only
  refine ⟨by omega, ?_⟩
  -- The data left loses its first byte.
  have hrest : ChunkRest sc (c :: t) ↔
      ∃ data s, data.length = sc.size - 1 ∧ t = data ++ CRLF ++ s ∧ ChunkedBody s := by
    unfold ChunkRest
    rw [hs]
    constructor
    · rintro ⟨data, s, hlen, heq, hbody⟩
      cases data with
      | nil => exact absurd hlen (by simp; omega)
      | cons d data =>
          rw [List.length_cons] at hlen
          exact ⟨data, s, by omega, (List.cons.inj heq).2, hbody⟩
    · rintro ⟨data, s, hlen, rfl, hbody⟩
      refine ⟨c :: data, s, ?_, rfl, hbody⟩
      rw [List.length_cons]
      omega
  rw [hrest]
  unfold ChunkRest
  by_cases hone : sc.size - 1 = 0
  · simp only [hone, if_true]
    constructor
    · rintro ⟨data, s, hlen, rfl, hbody⟩
      rw [List.length_eq_zero_iff.1 hlen]
      exact ⟨s, rfl, hbody⟩
    · rintro ⟨s, rfl, hbody⟩
      exact ⟨[], s, rfl, rfl, hbody⟩
  · simp only [hone, if_false]

/-- After the data of a chunk. -/
theorem dataCr_derives (hok : ChunkOk sc) (hs : sc.state = .dataCr) : Derives sc c t := by
  have hrest : ChunkRest sc (c :: t) ↔ c = CR ∧ ∃ s, t = LF :: s ∧ ChunkedBody s := by
    unfold ChunkRest
    rw [hs]
    constructor
    · rintro ⟨s, heq, hbody⟩
      obtain ⟨hc, rfl⟩ := List.cons.inj heq
      exact ⟨hc, s, rfl, hbody⟩
    · rintro ⟨rfl, s, rfl, hbody⟩
      exact ⟨s, rfl, hbody⟩
  unfold Derives chunkStep chunkByte
  rw [hs]
  simp only
  by_cases hcr : c = CR
  · rw [if_neg (not_not.2 hcr)]
    refine ⟨hok.size, ?_⟩
    rw [hrest]
    simp [hcr, ChunkRest]
  · rw [if_pos hcr]
    exact fun h => hcr (hrest.1 h).1

/-- At the end of a chunk. -/
theorem dataLf_derives (hs : sc.state = .dataLf) : Derives sc c t := by
  have hrest : ChunkRest sc (c :: t) ↔ c = LF ∧ ChunkedBody t := by
    unfold ChunkRest
    rw [hs]
    exact expected_iff c t LF
  unfold Derives chunkStep chunkByte
  rw [hs]
  simp only
  by_cases hlf : c = LF
  · rw [if_neg (not_not.2 hlf)]
    refine ⟨by decide, ?_⟩
    rw [hrest]
    have hstart := chunkRest_start t
    unfold ChunkScan.start at hstart
    rw [hstart]
    exact and_iff_right hlf
  · rw [if_pos hlf]
    exact fun h => hlf (hrest.1 h).1

/-- In the trailers. -/
theorem trail_derives (hok : ChunkOk sc) (hs : sc.state = .trail) : Derives sc c t := by
  have hrest : ChunkRest sc (c :: t) ↔ Trailers (c :: t) := by
    unfold ChunkRest
    rw [hs]
  unfold Derives chunkStep chunkByte
  rw [hs]
  refine ⟨hok.size, ?_⟩
  rw [hrest, trailers_iff]
  unfold ChunkRest
  by_cases hcr : c = CR
  · simp only [hcr, if_true]
    constructor
    · rintro (h | ⟨l, u, heq, hne, hmem, hu⟩)
      · exact (List.cons.inj h).2
      · rcases line_cons hmem heq with ⟨-, hnil, -⟩ | ⟨h, -⟩
        · exact absurd hnil hne
        · exact absurd rfl h
    · rintro rfl
      exact Or.inl rfl
  · simp only [hcr, if_false]
    constructor
    · rintro (h | ⟨l, u, heq, hne, hmem, hu⟩)
      · exact absurd (List.cons.inj h).1 hcr
      · rcases line_cons hmem heq with ⟨hc, -⟩ | ⟨-, l', rfl, hl', ht⟩
        · exact absurd hc hcr
        · exact ⟨l', u, ht, hl', hu⟩
    · rintro ⟨l, u, rfl, hmem, hu⟩
      exact Or.inr ⟨c :: l, u, rfl, List.cons_ne_nil c l, not_mem_cons hcr hmem, hu⟩

/-- At the end of the trailers. -/
theorem trailCr_derives (hs : sc.state = .trailCr) : Derives sc c t := by
  have hrest : ChunkRest sc (c :: t) ↔ c = LF ∧ t = [] := by
    unfold ChunkRest
    rw [hs]
    exact List.cons_eq_cons
  unfold Derives chunkStep chunkByte
  rw [hs]
  simp only
  by_cases hlf : c = LF
  · rw [if_neg (not_not.2 hlf)]
    rw [hrest]
    exact and_iff_right hlf
  · rw [if_pos hlf]
    exact fun h => hlf (hrest.1 h).1

/-- In a trailer line. -/
theorem skip_derives (hok : ChunkOk sc) (hs : sc.state = .skip) : Derives sc c t := by
  have hrest : ChunkRest sc (c :: t) ↔
      ∃ l u, c :: t = l ++ CRLF ++ u ∧ CR ∉ l ∧ Trailers u := by
    unfold ChunkRest
    rw [hs]
  unfold Derives chunkStep chunkByte
  rw [hs]
  refine ⟨hok.size, ?_⟩
  rw [hrest]
  unfold ChunkRest
  by_cases hcr : c = CR
  · simp only [hcr, if_true]
    constructor
    · rintro ⟨l, u, heq, hmem, hu⟩
      rcases line_cons hmem heq with ⟨-, -, ht⟩ | ⟨h, -⟩
      · exact ⟨u, ht, hu⟩
      · exact absurd rfl h
    · rintro ⟨u, rfl, hu⟩
      exact ⟨[], u, rfl, nofun, hu⟩
  · simp only [hcr, if_false]
    constructor
    · rintro ⟨l, u, heq, hmem, hu⟩
      rcases line_cons hmem heq with ⟨hc, -⟩ | ⟨-, l', rfl, hl', ht⟩
      · exact absurd hc hcr
      · exact ⟨l', u, ht, hl', hu⟩
    · rintro ⟨l, u, rfl, hmem, hu⟩
      exact ⟨c :: l, u, rfl, not_mem_cons hcr hmem, hu⟩

/-- At the end of a trailer line. -/
theorem skipCr_derives (hok : ChunkOk sc) (hs : sc.state = .skipCr) : Derives sc c t := by
  have hrest : ChunkRest sc (c :: t) ↔ c = LF ∧ Trailers t := by
    unfold ChunkRest
    rw [hs]
    exact expected_iff c t LF
  unfold Derives chunkStep chunkByte
  rw [hs]
  simp only
  by_cases hlf : c = LF
  · rw [if_neg (not_not.2 hlf)]
    refine ⟨hok.size, ?_⟩
    rw [hrest]
    exact and_iff_right hlf
  · rw [if_pos hlf]
    exact fun h => hlf (hrest.1 h).1

/-- In every state the decoder follows the grammar. -/
theorem derives (hok : ChunkOk sc) : Derives sc c t := by
  cases hs : sc.state with
  | size => exact size_derives c t hok hs
  | ext => exact ext_derives c t hok hs
  | sizeLf => exact sizeLf_derives c t hok hs
  | data => exact data_derives c t hok hs
  | dataCr => exact dataCr_derives c t hok hs
  | dataLf => exact dataLf_derives c t hs
  | trail => exact trail_derives c t hok hs
  | trailCr => exact trailCr_derives c t hs
  | skip => exact skip_derives c t hok hs
  | skipCr => exact skipCr_derives c t hok hs

end States

/-! ## The scanner -/

/-- No state is left without a byte to come. -/
theorem not_chunkRest_nil (sc : ChunkScan) : ¬ ChunkRest sc [] := by
  unfold ChunkRest
  cases hs : sc.state with
  | size =>
      rintro ⟨ds, e, u, heq, -⟩
      simp at heq
  | ext =>
      rintro ⟨e, u, heq, -⟩
      simp at heq
  | sizeLf =>
      rintro ⟨u, heq, -⟩
      cases heq
  | data =>
      rintro ⟨data, s, -, heq, -⟩
      simp at heq
  | dataCr =>
      rintro ⟨s, heq, -⟩
      cases heq
  | dataLf =>
      rintro ⟨s, heq, -⟩
      cases heq
  | trail =>
      intro h
      rcases (trailers_iff []).1 h with heq | ⟨l, u, heq, -⟩
      · cases heq
      · simp at heq
  | trailCr => rintro ⟨⟩
  | skip =>
      rintro ⟨l, u, heq, -⟩
      simp at heq
  | skipCr =>
      rintro ⟨u, heq, -⟩
      cases heq

/-- The residual languages are those of the scanner. -/
theorem chunkByte_residual : Residual chunkStep ChunkOk ChunkRest := by
  constructor
  case keep =>
    intro sc sc' c hok hst
    have hd := derives c [] hok
    unfold Derives at hd
    rw [hst] at hd
    refine ⟨hd.1, ?_⟩
    have hv := chunkByte_valid sc c
    unfold chunkStep at hst
    split at hst
    · rename_i heq
      cases hst
      rw [heq] at hv
      exact hv
    · cases hst
    · cases hst
  case nil => exact fun _ => not_chunkRest_nil _
  case more =>
    intro sc sc' c hok hst t
    have hd := derives c t hok
    unfold Derives at hd
    rw [hst] at hd
    exact hd.2
  case stop =>
    intro sc c hok hst t
    have hd := derives c t hok
    unfold Derives at hd
    rw [hst] at hd
    exact hd
  case bad =>
    intro sc c hok hst t
    have hd := derives c t hok
    unfold Derives at hd
    rw [hst] at hd
    exact hd

/-- The verdict on the bytes of a stream. -/
def verdict (r : ChunkStatus × ChunkScan) : Verdict ChunkScan :=
  match r.1 with
  | .more => .more r.2
  | .done => .stop
  | .bad => .bad

/-- The decoder is the scanner of its steps. -/
theorem scan_chunkStep (s : List UInt8) : ∀ sc : ChunkScan,
    scan chunkStep sc s = ((scanChunks sc s).1, verdict (scanChunks sc s).2) := by
  induction s with
  | nil => exact fun _ => rfl
  | cons c s ih =>
      intro sc
      rw [scan, scanChunks]
      rcases hb : chunkByte sc c with ⟨v, sc'⟩
      cases v with
      | more =>
          have hstep : chunkStep sc c = .more sc' := by
            unfold chunkStep
            rw [hb]
          simp only [hstep, ih]
      | done =>
          have hstep : chunkStep sc c = .stop := by
            unfold chunkStep
            rw [hb]
          simp only [hstep, verdict]
      | bad =>
          have hstep : chunkStep sc c = .bad := by
            unfold chunkStep
            rw [hb]
          simp only [hstep, verdict]

theorem verdict_stop (r : ChunkStatus × ChunkScan) : verdict r = .stop ↔ r.1 = .done := by
  obtain ⟨v, sc⟩ := r
  cases v <;> simp [verdict]

theorem verdict_bad (r : ChunkStatus × ChunkScan) : verdict r = .bad ↔ r.1 = .bad := by
  obtain ⟨v, sc⟩ := r
  cases v <;> simp [verdict]

/-! ## Successive calls -/

/-- Calls of `chunk_feed` on the pieces of a stream, until one of them ends the body or
finds a bad byte. The count is that of all the calls. -/
def chunkFeeds : ChunkScan → List (List UInt8) → Nat × ChunkStatus × ChunkScan
  | sc, [] => (0, .more, sc)
  | sc, s :: ss =>
      let r := chunkFeed sc s
      match r.2.1 with
      | .more => (r.1 + (chunkFeeds r.2.2 ss).1, (chunkFeeds r.2.2 ss).2)
      | _ => r

/-- The pieces count as one stream. -/
theorem chunkFeeds_eq (ss : List (List UInt8)) : ∀ {sc : ChunkScan}, sc.Valid →
    chunkFeeds sc ss = scanChunks sc ss.flatten := by
  induction ss with
  | nil => exact fun _ => rfl
  | cons s ss ih =>
      intro sc hv
      rw [chunkFeeds, chunkFeed_eq_scanChunks hv, List.flatten_cons]
      cases hst : (scanChunks sc s).2.1 with
      | more =>
          rw [ih (scanChunks_valid s hv), scanChunks_append s _ sc hst, scanChunks_more s sc hst]
      | done => rw [scanChunks_append_of_ne s _ sc (by rw [hst]; exact nofun)]
      | bad => rw [scanChunks_append_of_ne s _ sc (by rw [hst]; exact nofun)]

/-- `chunk_feed` on the pieces of a stream: the result is that of one call on the whole,
the end is reported after `k` bytes exactly when these are a chunked body, and after a
bad byte no chunked body is possible. -/
theorem chunkFeed_exact (ss : List (List UInt8)) :
    chunkFeeds .start ss = chunkFeed .start ss.flatten ∧
    (∀ k, (chunkFeeds .start ss).2.1 = .done ∧ (chunkFeeds .start ss).1 = k ↔
      k ≤ ss.flatten.length ∧ ChunkedBody (ss.flatten.take k)) ∧
    ((chunkFeeds .start ss).2.1 = .bad → (chunkFeeds .start ss).1 < ss.flatten.length ∧
      ∀ t, ¬ ChunkedBody (ss.flatten.take ((chunkFeeds .start ss).1 + 1) ++ t)) := by
  have hok : ChunkOk .start := ⟨by decide, ChunkScan.start_valid⟩
  rw [chunkFeed_eq_scanChunks ChunkScan.start_valid, chunkFeeds_eq ss ChunkScan.start_valid]
  have hscan := scan_chunkStep ss.flatten .start
  refine ⟨rfl, ?_, ?_⟩
  · intro k
    have hstop := chunkByte_residual.stop_iff ss.flatten k hok
    rw [hscan, verdict_stop, chunkRest_start] at hstop
    exact hstop
  · intro hbad
    have hno := chunkByte_residual.not_of_bad ss.flatten hok
    rw [hscan, verdict_bad] at hno
    obtain ⟨hlt, hno⟩ := hno hbad
    refine ⟨hlt, ?_⟩
    intro t
    rw [← chunkRest_start]
    exact hno t

/-- A body in three pieces, cut inside a size line and inside a line end. -/
example : chunkFeeds .start [cstr "3;a=b\r", cstr "\nabc\r", cstr "\n0\r\n\r\nHTTP"] =
    (17, .done, ⟨.trailCr, true, 0⟩) := by decide

end TinyServer.Proxy
