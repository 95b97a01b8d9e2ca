import TinyServer.Http.Scanners

/-!
# The parser accepts exactly the well-formed heads

`runFields` succeeds exactly under the cross-header rules
(`runFields_ok_iff`), and `FieldsResult` says what it stores. With the scanner
lemmas this gives `parse_render` and `exists_head_of_parse`: `parse` accepts a
buffer, or answers `HTTP_PARSE_UNSUPPORTED`, exactly when the buffer starts with
the rendering of a head that meets the rules, without or with a
`Transfer-Encoding` line.
-/

set_option autoImplicit false

namespace TinyServer.Http

open TinyServer.Lib

/-! ## One header -/

/-- `handle_header` by the kind of the name. -/
theorem handleHeader_eq (name : List UInt8) (off : Nat) (val : List UInt8) (req : HttpRequest)
    (seen : Seen) :
    handleHeader name off val req seen =
      match fieldKind name with
      | .host =>
          if seen.host then .error .bad
          else if !validateHost val then .error .bad
          else .ok ({ req with host := ⟨u16 off, u16 val.length⟩ }, { seen with host := true })
      | .contentLength =>
          if seen.contentLength then .error .bad
          else
            match parseContentLength val with
            | none => .error .bad
            | some v =>
                .ok ({ req with
                  contentLength := v, flags := { req.flags with contentLength := true } },
                  { seen with contentLength := true })
      | .transferEncoding =>
          .ok ({ req with flags := { req.flags with transferEncoding := true } }, seen)
      | .connection => .ok ({ req with flags := parseConnection val req.flags }, seen)
      | .other => .ok (req, seen) := by
  unfold handleHeader fieldKind
  by_cases h1 : name.length = 4 ∧ asciiIeq name (cstr "host")
  · simp only [if_pos h1]
  by_cases h2 : name.length = 14 ∧ asciiIeq name (cstr "content-length")
  · rewrite [if_neg h1, if_neg h1, if_pos h2, if_pos h2]
    rfl
  by_cases h3 : name.length = 17 ∧ asciiIeq name (cstr "transfer-encoding")
  · simp only [if_neg h1, if_neg h2, if_pos h3]
  by_cases h4 : name.length = 10 ∧ asciiIeq name (cstr "connection")
  · simp only [if_neg h1, if_neg h2, if_neg h3, if_pos h4]
  · simp only [if_neg h1, if_neg h2, if_neg h3, if_neg h4]

/-! ## The Connection list -/

/-- The elements of a comma-separated list, trimmed. -/
def listElements (v : List UInt8) : List (List UInt8) := (v.splitOn COMMA).map trimOws

/-- The list `v` names the token `tok`, whatever the letter case. -/
def hasToken (v tok : List UInt8) : Prop := ∃ e ∈ listElements v, e.map asciiLower = tok

instance (v tok : List UInt8) : Decidable (hasToken v tok) := by
  unfold hasToken
  infer_instance

/-- The elements of a list before and after a comma. -/
theorem listElements_append_comma {a b : List UInt8} (h : COMMA ∉ a) :
    listElements (a ++ COMMA :: b) = trimOws a :: listElements b := by
  unfold listElements
  rw [List.splitOn_eq_splitOnP, List.splitOnP_append_cons_of_forall_mem _ _ (by simp),
    ← List.splitOn_eq_splitOnP]
  · rfl
  · intro x hx
    simpa using ne_of_mem_of_not_mem hx h

theorem listElements_of_not_mem {a : List UInt8} (h : COMMA ∉ a) :
    listElements a = [trimOws a] := by
  unfold listElements
  rw [List.splitOn_eq_singleton h]
  rfl

/-- `ascii_ieq` compares with a lower-case text. -/
theorem asciiIeq_iff {a lit : List UInt8} (hlow : lit.map asciiLower = lit)
    (hlen : a.length = lit.length) : asciiIeq a lit = true ↔ a.map asciiLower = lit := by
  rw [asciiIeq_take hlow, ← hlen, List.take_length]

/-- One list element sets the flag of the token it spells. -/
theorem connectionToken_eq (tok : List UInt8) (flags : HttpFlags) :
    connectionToken tok flags = { flags with
      connectionClose := flags.connectionClose || tok.map asciiLower == cstr "close"
      connectionKeepAlive :=
        flags.connectionKeepAlive || tok.map asciiLower == cstr "keep-alive" } := by
  have hclose : tok.length = 5 ∧ asciiIeq tok (cstr "close") = true ↔
      tok.map asciiLower = cstr "close" := by
    constructor
    · rintro ⟨hl, h⟩
      exact (asciiIeq_iff (by decide) (by rw [hl]; decide)).1 h
    · intro h
      have hl : tok.length = 5 := by
        have := congrArg List.length h
        rw [List.length_map] at this
        rw [this]; decide
      exact ⟨hl, (asciiIeq_iff (by decide) (by rw [hl]; decide)).2 h⟩
  have hkeep : tok.length = 10 ∧ asciiIeq tok (cstr "keep-alive") = true ↔
      tok.map asciiLower = cstr "keep-alive" := by
    constructor
    · rintro ⟨hl, h⟩
      exact (asciiIeq_iff (by decide) (by rw [hl]; decide)).1 h
    · intro h
      have hl : tok.length = 10 := by
        have := congrArg List.length h
        rw [List.length_map] at this
        rw [this]; decide
      exact ⟨hl, (asciiIeq_iff (by decide) (by rw [hl]; decide)).2 h⟩
  have hne : cstr "close" ≠ cstr "keep-alive" := by decide
  unfold connectionToken
  by_cases h1 : tok.map asciiLower = cstr "close"
  · rw [if_pos (hclose.2 h1), h1]
    simp [hne]
  · rw [if_neg (mt hclose.1 h1)]
    by_cases h2 : tok.map asciiLower = cstr "keep-alive"
    · rw [if_pos (hkeep.2 h2), h2]
      simp [hne.symm]
    · rw [if_neg (mt hkeep.1 h2)]
      have e1 : (tok.map asciiLower == cstr "close") = false := by simpa using h1
      have e2 : (tok.map asciiLower == cstr "keep-alive") = false := by simpa using h2
      rw [e1, e2]
      simp

/-- A token is in a list if it is before or after a comma. -/
theorem hasToken_append_comma {a b tok : List UInt8} (h : COMMA ∉ a) :
    hasToken (a ++ COMMA :: b) tok ↔ (trimOws a).map asciiLower = tok ∨ hasToken b tok := by
  simp [hasToken, listElements_append_comma h]

theorem hasToken_of_not_mem {a tok : List UInt8} (h : COMMA ∉ a) :
    hasToken a tok ↔ (trimOws a).map asciiLower = tok := by
  simp [hasToken, listElements_of_not_mem h]

theorem hasToken_nil {tok : List UInt8} (h : tok ≠ []) : ¬ hasToken [] tok := by
  rw [hasToken_of_not_mem (by simp)]
  exact fun e => h e.symm

/-- The loop of `parse_connection` sets each flag whose token is in the list. -/
theorem connectionTokens_eq (n : Nat) : ∀ (p : List UInt8) (flags : HttpFlags), p.length ≤ n →
    connectionTokens n p flags = { flags with
      connectionClose := flags.connectionClose || decide (hasToken p (cstr "close"))
      connectionKeepAlive :=
        flags.connectionKeepAlive || decide (hasToken p (cstr "keep-alive")) } := by
  have hclose : cstr "close" ≠ [] := by decide
  have hkeep : cstr "keep-alive" ≠ [] := by decide
  induction n with
  | zero =>
      intro p flags hp
      have : p = [] := List.length_eq_zero_iff.1 (by omega)
      subst this
      simp [connectionTokens, hasToken_nil hclose, hasToken_nil hkeep]
  | succ n ih =>
      intro p flags hp
      by_cases hnil : p = []
      · subst hnil
        simp [connectionTokens, hasToken_nil hclose, hasToken_nil hkeep]
      rw [connectionTokens, if_neg hnil]
      cases hm : memchr p COMMA with
      | none =>
          have hc : COMMA ∉ p := memchr_eq_none.1 hm
          simp only [connectionToken_eq, hasToken_of_not_mem hc, beq_eq_decide]
      | some comma =>
          obtain ⟨a, b, rfl, hc, rfl⟩ := memchr_eq_some hm
          have hdrop : (a ++ COMMA :: b).drop (a.length + 1) = b := by
            rw [← List.drop_drop, List.drop_left]
            rfl
          have hb : b.length ≤ n := by
            simp only [List.length_append, List.length_cons] at hp
            omega
          simp only [hdrop, List.take_left, ih b _ hb, connectionToken_eq,
            hasToken_append_comma hc, beq_eq_decide, Bool.decide_or, Bool.or_assoc]

/-- `parse_connection` sets each flag exactly when the list names its token. -/
theorem parseConnection_eq (p : List UInt8) (flags : HttpFlags) :
    parseConnection p flags = { flags with
      connectionClose := flags.connectionClose || decide (hasToken p (cstr "close"))
      connectionKeepAlive :=
        flags.connectionKeepAlive || decide (hasToken p (cstr "keep-alive")) } :=
  connectionTokens_eq p.length p flags le_rfl

/-! ## The cross-header rules -/

/-- Number of header lines of a kind. -/
def countKind (k : FieldKind) (fs : List HeaderField) : Nat := (fs.filter (·.kind = k)).length

@[simp] theorem countKind_nil (k : FieldKind) : countKind k [] = 0 := rfl

theorem countKind_cons (k : FieldKind) (f : HeaderField) (fs : List HeaderField) :
    countKind k (f :: fs) = (if f.kind = k then 1 else 0) + countKind k fs := by
  unfold countKind
  by_cases h : f.kind = k
  · simp [h, Nat.add_comm]
  · simp [h]

/-- A field of a kind is counted. -/
theorem countKind_pos {k : FieldKind} {fs : List HeaderField} :
    0 < countKind k fs ↔ ∃ f ∈ fs, f.kind = k := by
  simp [countKind, List.length_pos_iff_exists_mem]

theorem countKind_eq_zero {k : FieldKind} {fs : List HeaderField} :
    countKind k fs = 0 ↔ ∀ f ∈ fs, f.kind ≠ k := by
  simp [countKind, List.filter_eq_nil_iff]

/-- The rules for Host and Content-Length lines, with `seen` counting as lines
already read. -/
structure FieldsOk (fs : List HeaderField) (seen : Seen) : Prop where
  host_once : countKind .host fs + seen.host.toNat ≤ 1
  host_valid : ∀ f ∈ fs, f.kind = .host → validateHost f.value = true
  length_once : countKind .contentLength fs + seen.contentLength.toNat ≤ 1
  length_valid : ∀ f ∈ fs, f.kind = .contentLength → (parseContentLength f.value).isSome = true

/-- What the header lines `fs`, starting at offset `off`, turn `req` and `seen` into. -/
structure FieldsResult (off : Nat) (fs : List HeaderField) (req req' : HttpRequest)
    (seen seen' : Seen) : Prop where
  seen_host : seen'.host = (seen.host || decide (0 < countKind .host fs))
  transferEncoding : req'.flags.transferEncoding =
    (req.flags.transferEncoding || decide (0 < countKind .transferEncoding fs))
  contentLength : req'.flags.contentLength =
    (req.flags.contentLength || decide (0 < countKind .contentLength fs))
  close : req'.flags.connectionClose = true ↔ req.flags.connectionClose = true ∨
    ∃ f ∈ fs, f.kind = .connection ∧ hasToken f.value (cstr "close")
  keepAlive : req'.flags.connectionKeepAlive = true ↔ req.flags.connectionKeepAlive = true ∨
    ∃ f ∈ fs, f.kind = .connection ∧ hasToken f.value (cstr "keep-alive")
  length_value : ∀ f ∈ fs, f.kind = .contentLength →
    parseContentLength f.value = some req'.contentLength
  length_absent : countKind .contentLength fs = 0 → req'.contentLength = req.contentLength
  host_value : ∀ pre f post, fs = pre ++ f :: post → f.kind = .host →
    req'.host = ⟨u16 (f.valueOff (off + (renderFields pre).length)), u16 f.value.length⟩
  host_absent : countKind .host fs = 0 → req'.host = req.host
  same : req'.target = req.target ∧ req'.path = req.path ∧ req'.query = req.query ∧
    req'.headerBlock = req.headerBlock ∧ req'.method = req.method ∧
      req'.minorVersion = req.minorVersion

theorem FieldsResult.nil (off : Nat) (req : HttpRequest) (seen : Seen) :
    FieldsResult off [] req req seen seen where
  seen_host := by simp
  transferEncoding := by simp
  contentLength := by simp
  close := by simp
  keepAlive := by simp
  length_value := by simp
  length_absent := fun _ => rfl
  host_value := by simp
  host_absent := fun _ => rfl
  same := ⟨rfl, rfl, rfl, rfl, rfl, rfl⟩

/-- `handle_header` succeeds exactly under the rules for its one line. -/
theorem handleHeader_ok_iff (f : HeaderField) (off : Nat) (req : HttpRequest) (seen : Seen) :
    (∃ r, handleHeader f.name off f.value req seen = .ok r) ↔ FieldsOk [f] seen := by
  have hone : ∀ k, countKind k [f] = if f.kind = k then 1 else 0 := fun k => by
    simp [countKind_cons]
  have key : ∀ k, fieldKind f.name = k → f.kind = k := fun k h => h
  rw [handleHeader_eq]
  cases hk : fieldKind f.name with
  -- The first `Host` sets the flag, so a second one is refused.
  | host =>
      have := key _ hk
      constructor
      · rintro ⟨r, h⟩
        simp only at h
        split at h
        · cases h
        split at h
        · cases h
        rename_i hs hv
        refine ⟨by simp [hone, this, hs], by simpa [this] using hv, ?_, by simp [this]⟩
        simpa [hone, this] using Bool.toNat_le seen.contentLength
      · rintro ⟨h1, h2, -, -⟩
        have hs : seen.host = false := by
          rw [hone, if_pos this] at h1
          cases hs : seen.host <;> simp [hs] at h1 ⊢
        simp [hs, h2 f (by simp) this]
  -- Likewise for `Content-Length`.
  | contentLength =>
      have := key _ hk
      constructor
      · rintro ⟨r, h⟩
        simp only at h
        split at h
        · cases h
        rename_i hs
        refine ⟨by simpa [hone, this] using Bool.toNat_le seen.host, by simp [this],
          by simp [hone, this, hs], ?_⟩
        intro g hg _
        rw [List.mem_singleton.1 hg]
        cases hp : parseContentLength f.value with
        | none =>
            rw [hp] at h
            cases h
        | some v => rfl
      · rintro ⟨-, -, h1, h2⟩
        have hs : seen.contentLength = false := by
          rw [hone, if_pos this] at h1
          cases hs : seen.contentLength <;> simp [hs] at h1 ⊢
        obtain ⟨v, hv⟩ := Option.isSome_iff_exists.1 (h2 f (by simp) this)
        simp [hs, hv]
  -- The other kinds are never refused.
  | transferEncoding =>
      have := key _ hk
      refine ⟨fun _ => ?_, fun _ => ⟨_, rfl⟩⟩
      constructor <;> simp [hone, this, Bool.toNat_le]
  | connection =>
      have := key _ hk
      refine ⟨fun _ => ?_, fun _ => ⟨_, rfl⟩⟩
      constructor <;> simp [hone, this, Bool.toNat_le]
  | other =>
      have := key _ hk
      refine ⟨fun _ => ?_, fun _ => ⟨_, rfl⟩⟩
      constructor <;> simp [hone, this, Bool.toNat_le]

/-- What one header line stores. -/
theorem handleHeader_result {f : HeaderField} {off : Nat} {req req' : HttpRequest}
    {seen seen' : Seen}
    (h : handleHeader f.name (f.valueOff off) f.value req seen = .ok (req', seen')) :
    FieldsResult off [f] req req' seen seen' ∧
      seen'.contentLength = (seen.contentLength || decide (f.kind = .contentLength)) := by
  have hone : ∀ k, countKind k [f] = if f.kind = k then 1 else 0 := fun k => by
    simp [countKind_cons]
  -- A list of one field splits in one way.
  have hsplit : ∀ {pre : List HeaderField} {g : HeaderField} {post : List HeaderField},
      [f] = pre ++ g :: post → pre = [] ∧ g = f := by
    intro pre g post e
    cases pre with
    | nil => exact ⟨rfl, (List.cons.inj e).1.symm⟩
    | cons a pre => simp at e
  rw [handleHeader_eq] at h
  cases hk : fieldKind f.name with
  | host =>
      have hf : f.kind = .host := hk
      simp only [hk] at h
      split at h
      · cases h
      split at h
      · cases h
      cases h
      refine ⟨?_, by simp [hf]⟩
      constructor <;> simp [hone, hf]
      intro pre g post e hg
      obtain ⟨rfl, rfl⟩ := hsplit e
      simp
  | contentLength =>
      have hf : f.kind = .contentLength := hk
      simp only [hk] at h
      split at h
      · cases h
      split at h
      · cases h
      rename_i v hv
      cases h
      refine ⟨?_, by simp [hf]⟩
      constructor <;> simp [hone, hf, hv]
      intro pre g post e hg
      obtain ⟨rfl, rfl⟩ := hsplit e
      simp [hf] at hg
  | transferEncoding =>
      have hf : f.kind = .transferEncoding := hk
      simp only [hk] at h
      cases h
      refine ⟨?_, by simp [hf]⟩
      constructor <;> simp [hone, hf]
      intro pre g post e hg
      obtain ⟨rfl, rfl⟩ := hsplit e
      simp [hf] at hg
  | connection =>
      have hf : f.kind = .connection := hk
      simp only [hk, parseConnection_eq] at h
      cases h
      refine ⟨?_, by simp [hf]⟩
      constructor <;> simp [hone, hf]
      intro pre g post e hg
      obtain ⟨rfl, rfl⟩ := hsplit e
      simp [hf] at hg
  -- A field of another kind leaves the request as it is.
  | other =>
      have hf : f.kind = .other := hk
      simp only [hk] at h
      cases h
      have hhost : ∀ pre g post, [f] = pre ++ g :: post → g.kind = .host →
          req.host =
            ⟨u16 (g.valueOff (off + (renderFields pre).length)), u16 g.value.length⟩ := by
        intro pre g post e hg
        obtain ⟨rfl, rfl⟩ := hsplit e
        simp [hf] at hg
      refine ⟨?_, by simp [hf]⟩
      constructor <;> first | exact hhost | simp [hone, hf]

/-- The results of two blocks compose, when the second holds no second Host or
Content-Length line. -/
theorem FieldsResult.cons {off : Nat} {f : HeaderField} {fs : List HeaderField}
    {req req₁ req₂ : HttpRequest} {seen seen₁ seen₂ : Seen}
    (h1 : FieldsResult off [f] req req₁ seen seen₁)
    (h2 : FieldsResult (off + f.render.length) fs req₁ req₂ seen₁ seen₂)
    (hhost : f.kind = .host → countKind .host fs = 0)
    (hlen : f.kind = .contentLength → countKind .contentLength fs = 0) :
    FieldsResult off (f :: fs) req req₂ seen seen₂ := by
  have hone : ∀ k, countKind k [f] = if f.kind = k then 1 else 0 := fun k => by
    simp [countKind_cons]
  constructor
  · rw [h2.seen_host, h1.seen_host, hone, countKind_cons]
    by_cases hf : f.kind = .host <;> simp [hf, Nat.add_comm 1]
  · rw [h2.transferEncoding, h1.transferEncoding, hone, countKind_cons]
    by_cases hf : f.kind = .transferEncoding <;> simp [hf, Nat.add_comm 1]
  · rw [h2.contentLength, h1.contentLength, hone, countKind_cons]
    by_cases hf : f.kind = .contentLength <;> simp [hf, Nat.add_comm 1]
  · rw [h2.close, h1.close]
    simp [or_assoc]
  · rw [h2.keepAlive, h1.keepAlive]
    simp [or_assoc]
  · intro g hg hk
    rcases List.mem_cons.1 hg with rfl | hg
    · rw [h2.length_absent (hlen hk)]
      exact h1.length_value g (by simp) hk
    · exact h2.length_value g hg hk
  · intro h0
    rw [countKind_cons] at h0
    rw [h2.length_absent (by omega), h1.length_absent (by rw [hone]; omega)]
  · intro pre g post e hg
    cases pre with
    | nil =>
        obtain ⟨rfl, rfl⟩ := List.cons.inj e
        rw [h2.host_absent (hhost hg)]
        exact h1.host_value [] f [] rfl hg
    | cons a pre =>
        obtain ⟨rfl, rfl⟩ := List.cons.inj e
        have := h2.host_value pre g post rfl hg
        rw [renderFields_cons, List.length_append, ← Nat.add_assoc]
        exact this
  · intro h0
    rw [countKind_cons] at h0
    rw [h2.host_absent (by omega), h1.host_absent (by rw [hone]; omega)]
  · obtain ⟨a1, a2, a3, a4, a5, a6⟩ := h1.same
    obtain ⟨b1, b2, b3, b4, b5, b6⟩ := h2.same
    exact ⟨b1.trans a1, b2.trans a2, b3.trans a3, b4.trans a4, b5.trans a5, b6.trans a6⟩

/-- The rules for some fields are those for the first and for the rest. -/
theorem FieldsOk.cons_iff {f : HeaderField} {fs : List HeaderField} {seen seen₁ : Seen}
    (hh : seen₁.host = (seen.host || decide (f.kind = .host)))
    (hl : seen₁.contentLength = (seen.contentLength || decide (f.kind = .contentLength))) :
    FieldsOk (f :: fs) seen ↔ FieldsOk [f] seen ∧ FieldsOk fs seen₁ := by
  have hone : ∀ k, countKind k [f] = if f.kind = k then 1 else 0 := fun k => by
    simp [countKind_cons]
  constructor
  · rintro ⟨h1, h2, h3, h4⟩
    rw [countKind_cons] at h1 h3
    refine ⟨⟨?_, ?_, ?_, ?_⟩, ?_, ?_, ?_, ?_⟩
    · rw [hone]; omega
    · exact fun g hg => h2 g (by simp [List.mem_singleton.1 hg])
    · rw [hone]; omega
    · exact fun g hg => h4 g (by simp [List.mem_singleton.1 hg])
    · rw [hh]
      by_cases hf : f.kind = .host
      · simp only [if_pos hf] at h1
        simp [hf]; omega
      · simp only [if_neg hf] at h1
        simp [hf]; omega
    · exact fun g hg => h2 g (by simp [hg])
    · rw [hl]
      by_cases hf : f.kind = .contentLength
      · simp only [if_pos hf] at h3
        simp [hf]; omega
      · simp only [if_neg hf] at h3
        simp [hf]; omega
    · exact fun g hg => h4 g (by simp [hg])
  · rintro ⟨⟨a1, a2, a3, a4⟩, b1, b2, b3, b4⟩
    rw [hone] at a1 a3
    rw [hh] at b1
    rw [hl] at b3
    refine ⟨?_, ?_, ?_, ?_⟩
    · rw [countKind_cons]
      by_cases hf : f.kind = .host
      · simp [hf] at b1 a1 ⊢; simp [b1, a1]
      · simp [hf] at b1 ⊢; exact b1
    · intro g hg
      rcases List.mem_cons.1 hg with rfl | hg
      · exact a2 g (by simp)
      · exact b2 g hg
    · rw [countKind_cons]
      by_cases hf : f.kind = .contentLength
      · simp [hf] at b3 a3 ⊢; simp [b3, a3]
      · simp [hf] at b3 ⊢; exact b3
    · intro g hg
      rcases List.mem_cons.1 hg with rfl | hg
      · exact a4 g (by simp)
      · exact b4 g hg

/-- The header block is accepted exactly under the rules. -/
theorem runFields_ok_iff (fs : List HeaderField) : ∀ (off : Nat) (req : HttpRequest) (seen : Seen),
    (∃ r, runFields off fs req seen = .ok r) ↔ FieldsOk fs seen := by
  induction fs with
  | nil =>
      intro off req seen
      refine ⟨fun _ => ?_, fun _ => ⟨_, rfl⟩⟩
      constructor <;> simp [Bool.toNat_le]
  | cons f fs ih =>
      intro off req seen
      cases hh : handleHeader f.name (f.valueOff off) f.value req seen with
      | error e =>
          have hno : ¬ FieldsOk [f] seen := by
            rw [← handleHeader_ok_iff f (f.valueOff off) req seen, hh]
            rintro ⟨r, h⟩
            cases h
          constructor
          · rintro ⟨r, h⟩
            rw [runFields, hh] at h
            cases h
          · intro h
            have hsplit : FieldsOk [f] seen ∧ FieldsOk fs
                ⟨seen.host || decide (f.kind = .host),
                  seen.contentLength || decide (f.kind = .contentLength)⟩ :=
              (FieldsOk.cons_iff rfl rfl).1 h
            exact absurd hsplit.1 hno
      | ok r =>
          obtain ⟨req₁, seen₁⟩ := r
          obtain ⟨hres, hlen⟩ := handleHeader_result hh
          have hhost := hres.seen_host
          have hone : countKind .host [f] = if f.kind = .host then 1 else 0 := by
            simp [countKind_cons]
          have hd : decide (0 < countKind .host [f]) = decide (f.kind = .host) := by
            rw [hone]
            by_cases hf : f.kind = .host <;> simp [hf]
          rw [hd] at hhost
          rw [FieldsOk.cons_iff hhost hlen, ← ih (off + f.render.length) req₁ seen₁,
            ← handleHeader_ok_iff f (f.valueOff off) req seen, runFields, hh]
          simp

/-- What the fields leave in the record. -/
theorem runFields_result (fs : List HeaderField) : ∀ {off : Nat} {req req' : HttpRequest}
    {seen seen' : Seen}, runFields off fs req seen = .ok (req', seen') →
      FieldsResult off fs req req' seen seen' := by
  induction fs with
  | nil =>
      intro off req req' seen seen' h
      cases h
      exact .nil off req seen
  | cons f fs ih =>
      intro off req req' seen seen' h
      rw [runFields] at h
      cases hh : handleHeader f.name (f.valueOff off) f.value req seen with
      | error e =>
          rw [hh] at h
          cases h
      | ok r =>
          obtain ⟨req₁, seen₁⟩ := r
          rw [hh] at h
          obtain ⟨hres, hlen⟩ := handleHeader_result hh
          have hok := (runFields_ok_iff fs (off + f.render.length) req₁ seen₁).1 ⟨_, h⟩
          refine hres.cons (ih h) ?_ ?_
          · intro hk
            have h1 := hok.host_once
            have h2 : seen₁.host = true := by
              rw [hres.seen_host]
              simp [countKind_cons, hk]
            rw [h2] at h1
            simpa using h1
          · intro hk
            have h1 := hok.length_once
            have h2 : seen₁.contentLength = true := by simp [hlen, hk]
            rw [h2] at h1
            simpa using h1

/-! ## Whole heads -/

namespace Head

/-- The offset of the first header line. -/
def blockOff (h : Head) : Nat := h.requestLine.length + 2

/-- The record after the request line. -/
def lineRequest (h : Head) : HttpRequest :=
  { lineSlices h .zero with headerBlock := ⟨u16 h.blockOff, 0⟩ }

theorem cr_not_mem_requestLine (h : Head) : CR ∉ h.requestLine := by
  have h1 := not_mem_of_all_isTchar h.method_tchar (d := CR) (by decide)
  have h2 := h.target.cr_not_mem
  have h3 : CR ∉ version h.minor := by
    match h.minor with
    | 0 => decide
    | 1 => decide
  have h4 : CR ≠ SP := by decide
  simp [requestLine, h1, h2, h3, h4]

theorem render_length (h : Head) :
    h.render.length = h.blockOff + (renderFields h.fields).length + 2 := by
  simp [render, blockOff]
  omega

/-- The parts of a head with what follows it. -/
theorem render_append (h : Head) (tail : List UInt8) :
    h.render ++ tail = h.requestLine ++ (CRLF ++ (renderFields h.fields ++ (CRLF ++ tail))) := by
  simp [render]

theorem lineSlices_headerBlock (h : Head) (req : HttpRequest) :
    (lineSlices h req).headerBlock = req.headerBlock := by
  unfold lineSlices targetSlices
  split
  · rfl
  · split <;> rfl

/-- The request line sets no flag. -/
theorem lineSlices_flags (h : Head) (req : HttpRequest) :
    (lineSlices h req).flags = req.flags := by
  unfold lineSlices targetSlices
  split
  · rfl
  · split <;> rfl

theorem lineRequest_flags (h : Head) : h.lineRequest.flags = HttpRequest.zero.flags :=
  h.lineSlices_flags .zero

end Head

theorem length_le_renderFields (fs : List HeaderField) : fs.length ≤ (renderFields fs).length := by
  induction fs with
  | nil => simp
  | cons f fs ih =>
      rw [renderFields_cons, List.length_append, f.render_length, List.length_cons]
      omega

/-- `parse` on a rendered head, whatever follows it. -/
theorem parse_render (h : Head) (tail : List UInt8) :
    parse (h.render ++ tail) .zero =
      match runFields h.blockOff h.fields h.lineRequest ⟨false, false⟩ with
      | .error e => .error e
      | .ok (req, seen) =>
          parseFinish (h.blockOff + (renderFields h.fields).length) req seen := by
  have hfind : findCrlf (h.render ++ tail) = .ok h.requestLine.length := by
    rw [h.render_append]
    exact findCrlf_append h.cr_not_mem_requestLine
  have htake : (h.render ++ tail).take h.requestLine.length = h.requestLine := by
    rw [h.render_append, List.take_left]
  have hoff : h.requestLine.length + 2 = h.blockOff := rfl
  have hdrop : (h.render ++ tail).drop h.blockOff = renderFields h.fields ++ (CRLF ++ tail) := by
    rw [h.render_append, ← List.append_assoc]
    exact List.drop_left' (by simp [Head.blockOff])
  have hfuel : h.fields.length < (renderFields h.fields ++ (CRLF ++ tail)).length + 1 := by
    have := length_le_renderFields h.fields
    rw [List.length_append]
    omega
  have hreq : ({ lineSlices h .zero with
      headerBlock := { (lineSlices h .zero).headerBlock with off := u16 h.blockOff } } :
        HttpRequest) = h.lineRequest := by
    rw [h.lineSlices_headerBlock]
    rfl
  unfold parse
  simp only [hfind, htake, parseRequestLine_requestLine, hoff, hdrop, hreq,
    parseHeaders_render h.fields tail _ _ _ _ hfuel]
  cases runFields h.blockOff h.fields h.lineRequest ⟨false, false⟩ <;> rfl

/-- What `parse` stores for a head it accepts. -/
structure HeadResult (h : Head) (req : HttpRequest) : Prop where
  fields : ∃ r seen, FieldsResult h.blockOff h.fields h.lineRequest r ⟨false, false⟩ seen ∧
    req = { r with
      headerBlock := ⟨u16 h.blockOff,
        u16 (h.blockOff + (renderFields h.fields).length - u16 h.blockOff)⟩
      headerBytes := u16 h.render.length }

/-- The fields of a head that keeps the rules are accepted. -/
theorem FieldsOk.of_rules {h : Head} (hr : h.Rules) : FieldsOk h.fields ⟨false, false⟩ :=
  ⟨hr.host_once, hr.host_valid, hr.length_once, hr.length_valid⟩

/-- The end of `parse` for a head whose header block was accepted. -/
theorem parseFinish_head {h : Head} {r : HttpRequest} {seen : Seen}
    (hres : FieldsResult h.blockOff h.fields h.lineRequest r ⟨false, false⟩ seen) :
    parseFinish (h.blockOff + (renderFields h.fields).length) r seen =
      if 0 < h.count .transferEncoding ∧ 0 < h.count .contentLength then .error .bad
      else if h.minor = 1 ∧ h.count .host = 0 then .error .bad
      else if 0 < h.count .transferEncoding then .error .unsupported
      else .ok { r with
        headerBlock := ⟨u16 h.blockOff,
          u16 (h.blockOff + (renderFields h.fields).length - u16 h.blockOff)⟩
        headerBytes := u16 h.render.length } := by
  have hte : r.flags.transferEncoding = decide (0 < h.count .transferEncoding) := by
    rw [hres.transferEncoding, h.lineRequest_flags]
    rfl
  have hcl : r.flags.contentLength = decide (0 < h.count .contentLength) := by
    rw [hres.contentLength, h.lineRequest_flags]
    rfl
  have hhost : seen.host = decide (0 < h.count .host) := by
    rw [hres.seen_host]
    rfl
  have hminor : r.minorVersion = h.minor.val := by
    rw [hres.same.2.2.2.2.2]
    rfl
  have hblock : r.headerBlock = ⟨u16 h.blockOff, 0⟩ := by
    rw [hres.same.2.2.2.1]
    rfl
  have hm : (r.minorVersion = 1 ∧ seen.host = false) ↔ (h.minor = 1 ∧ h.count .host = 0) := by
    rw [hminor, hhost]
    constructor
    · rintro ⟨h1, h2⟩
      exact ⟨Fin.ext h1, by simpa using h2⟩
    · rintro ⟨h1, h2⟩
      exact ⟨by rw [h1]; rfl, by simp [h2]⟩
  have hb : (r.flags.transferEncoding && r.flags.contentLength) = true ↔
      (0 < h.count .transferEncoding ∧ 0 < h.count .contentLength) := by
    rw [hte, hcl]
    simp
  have ht : r.flags.transferEncoding = true ↔ 0 < h.count .transferEncoding := by
    rw [hte]
    simp
  unfold parseFinish
  simp only [hb, hm, ht, hblock, h.render_length]

/-- A head that meets the rules and has no Transfer-Encoding line is accepted,
whatever follows it. -/
theorem parse_render_ok {h : Head} (hr : h.Rules) (ht : h.count .transferEncoding = 0)
    (tail : List UInt8) :
    ∃ req, parse (h.render ++ tail) .zero = .ok req ∧ HeadResult h req := by
  obtain ⟨⟨r, seen⟩, hrun⟩ := (runFields_ok_iff h.fields h.blockOff h.lineRequest
    ⟨false, false⟩).2 (.of_rules hr)
  have hres := runFields_result h.fields hrun
  refine ⟨_, ?_, ⟨r, seen, hres, rfl⟩⟩
  have h1 : ¬ (0 < h.count .transferEncoding ∧ 0 < h.count .contentLength) := by omega
  have h2 : ¬ (h.minor = 1 ∧ h.count .host = 0) := fun ⟨hm, h0⟩ => by
    have := hr.host_present hm
    omega
  have h3 : ¬ 0 < h.count .transferEncoding := by omega
  rw [parse_render, hrun]
  simp only [parseFinish_head hres, if_neg h1, if_neg h2, if_neg h3]

/-- A head with a Transfer-Encoding field is not supported. -/
theorem parse_render_unsupported {h : Head} (hr : h.Rules) (ht : 0 < h.count .transferEncoding)
    (tail : List UInt8) : parse (h.render ++ tail) .zero = .error .unsupported := by
  obtain ⟨⟨r, seen⟩, hrun⟩ := (runFields_ok_iff h.fields h.blockOff h.lineRequest
    ⟨false, false⟩).2 (.of_rules hr)
  have hres := runFields_result h.fields hrun
  have h1 : ¬ (0 < h.count .transferEncoding ∧ 0 < h.count .contentLength) := by
    have := hr.transfer_alone ht
    omega
  have h2 : ¬ (h.minor = 1 ∧ h.count .host = 0) := fun ⟨hm, h0⟩ => by
    have := hr.host_present hm
    omega
  rw [parse_render, hrun]
  simp only [parseFinish_head hres, if_neg h1, if_neg h2, if_pos ht]

/-- A verdict other than BAD and INCOMPLETE is reached only on a rendered head
that meets the rules. -/
theorem exists_head_of_parse {buf : List UInt8} {r : Except ParseError HttpRequest}
    (h : parse buf .zero = r) (hbad : r ≠ .error .bad) (hinc : r ≠ .error .incomplete) :
    ∃ (hd : Head) (tail : List UInt8), (∀ f ∈ hd.fields, f.Canonical) ∧
      buf = hd.render ++ tail ∧ hd.Rules := by
  have horig := h
  unfold parse at h
  -- The request line: an error before its end is one of those that are excluded.
  cases hf : findCrlf buf with
  | error e =>
      rw [hf] at h
      subst h
      cases e with
      | bad => exact absurd rfl hbad
      | incomplete => exact absurd rfl hinc
      | unsupported => exact absurd hf (findCrlf_ne_unsupported buf)
  | ok eol =>
      rw [hf] at h
      obtain ⟨line, rest, rfl, hcr, rfl⟩ := findCrlf_ok hf
      have hdrop : (line ++ (CRLF ++ rest)).drop (line.length + 2) = rest := by
        rw [← List.append_assoc]
        exact List.drop_left' (by simp)
      simp only [List.take_left, hdrop] at h
      cases hl : parseRequestLine line .zero with
      | error e =>
          rw [hl, parseRequestLine_error hl] at h
          exact absurd h.symm hbad
      | ok req =>
          rw [hl] at h
          simp only at h
          -- The header lines, up to the empty one.
          cases hp : parseHeaders (rest.length + 1) (line.length + 2) rest
            { req with headerBlock := { req.headerBlock with off := u16 (line.length + 2) } }
            ⟨false, false⟩ with
          | error e =>
              rw [hp] at h
              subst h
              cases e with
              | bad => exact absurd rfl hbad
              | incomplete => exact absurd rfl hinc
              | unsupported => exact absurd hp (parseHeaders_ne_unsupported _ _ _ _ _)
          | ok res =>
              obtain ⟨off, req', seen'⟩ := res
              obtain ⟨fs, tail, hcan, rfl, -, -, -⟩ := exists_fields_of_parseHeaders hp
              obtain ⟨hd, rfl, rfl⟩ := exists_head_of_parseRequestLine hl hcr fs
              have hbuf : hd.requestLine ++ (CRLF ++ (renderFields hd.fields ++ (CRLF ++ tail))) =
                  hd.render ++ tail := (hd.render_append tail).symm
              -- The rules are read off the run of the fields, with the two checks at the end.
              refine ⟨hd, tail, hcan, hbuf, ?_⟩
              rw [hbuf, parse_render] at horig
              cases hrun : runFields hd.blockOff hd.fields hd.lineRequest ⟨false, false⟩ with
              | error e =>
                  rw [hrun, runFields_error hrun] at horig
                  exact absurd horig.symm hbad
              | ok res =>
                  obtain ⟨r₁, seen₁⟩ := res
                  have hok := (runFields_ok_iff hd.fields _ _ _).1 ⟨_, hrun⟩
                  rw [hrun] at horig
                  simp only [parseFinish_head (runFields_result hd.fields hrun)] at horig
                  split at horig
                  · exact absurd horig.symm hbad
                  split at horig
                  · exact absurd horig.symm hbad
                  rename_i h1 h2
                  exact ⟨hok.host_once, hok.host_valid, hok.length_once, hok.length_valid,
                    fun hm => by
                      by_contra h0
                      exact h2 ⟨hm, by omega⟩,
                    fun ht => by
                      by_contra h0
                      exact h1 ⟨ht, by omega⟩⟩

/-! ## The cap on the length -/

/-- A buffer that offsets of 16 bits reach is parsed as a whole. -/
theorem httpParseRequest_of_le {buf : List UInt8} (h : buf.length ≤ HTTP_PARSE_MAX_LEN) :
    httpParseRequest buf = parse buf .zero := by
  unfold httpParseRequest
  by_cases h0 : buf.length = 0
  · rw [if_pos h0, List.length_eq_zero_iff.1 h0]
    rfl
  · rw [if_neg h0, if_neg (by omega)]

/-- A longer buffer is parsed up to there, and is bad if no head ends by then. -/
theorem httpParseRequest_of_lt {buf : List UInt8} (h : HTTP_PARSE_MAX_LEN < buf.length) :
    httpParseRequest buf =
      match parse (buf.take HTTP_PARSE_MAX_LEN) .zero with
      | .error .incomplete => .error .bad
      | r => r := by
  unfold httpParseRequest
  rewrite [if_neg (by omega), if_pos h]
  rfl

end TinyServer.Http
