import TinyServer.Http.Slices

/-!
# A header by its name (`http_get_header`)

The lookup splits the header block a second time, by rules of its own: the next CR ends a
line, the first colon ends the name, two bytes are skipped behind the line. Over the lines
that the parser accepted it finds the first one of that name (`httpGetHeader_accepted`).
-/

set_option autoImplicit false

namespace TinyServer.Http

/-- The loop of `http_get_header`, with `off` for `p - buf` and `p` for the range `[p, end)`.
Each turn skips two bytes, so the length of the range bounds the number of turns. -/
def httpGetHeaderLoop (name : List UInt8) : Nat → Nat → List UInt8 → Option HttpSlice
  | 0, _, _ => none
  | n + 1, off, p =>
      if p = [] then none
      else
        match memchr p CR with
        | none => none
        | some cr =>
            match memchr (p.take cr) COLON with
            | none => none
            | some colon =>
                -- the first field of the name wins
                if colon = name.length ∧ asciiIeq p name then
                  let raw := (p.take cr).drop (colon + 1)
                  some ⟨u16 (off + (colon + 1) + (raw.takeWhile isOws).length),
                    u16 (trimOws raw).length⟩
                else httpGetHeaderLoop name n (off + (cr + 2)) (p.drop (cr + 2))

/-- `http_get_header`; `none` for the return value 0, else the slice behind `value`. -/
def httpGetHeader (buf : List UInt8) (req : HttpRequest) (name : List UInt8) : Option HttpSlice :=
  let p := req.headerBlock.bytes buf
  httpGetHeaderLoop name p.length req.headerBlock.off p

/-- The line has this name, up to letter case. -/
def HeaderField.Named (f : HeaderField) (name : List UInt8) : Prop :=
  f.name.map asciiLower = name.map asciiLower

instance (f : HeaderField) (name : List UInt8) : Decidable (f.Named name) :=
  inferInstanceAs (Decidable (_ = _))

/-! ## Over the lines of a head -/

/-- The test on the name, at the start of a line. -/
theorem HeaderField.named_iff (f : HeaderField) (name rest : List UInt8) :
    f.name.length = name.length ∧ asciiIeq (f.name ++ rest) name = true ↔ f.Named name := by
  rw [asciiIeq, beq_iff_eq, HeaderField.Named]
  constructor
  · rintro ⟨hlen, heq⟩
    rwa [← hlen, List.take_left] at heq
  · intro heq
    have hlen : f.name.length = name.length := by
      rw [← List.length_map asciiLower, heq, List.length_map]
    exact ⟨hlen, by rwa [← hlen, List.take_left]⟩

/-- One turn of the loop over a rendered line. -/
theorem httpGetHeaderLoop_cons (name : List UInt8) (n off : Nat) (f : HeaderField) (p : List UInt8) :
    httpGetHeaderLoop name (n + 1) off (f.render ++ p) =
      if f.Named name then some ⟨u16 (f.valueOff off), u16 f.value.length⟩
      else httpGetHeaderLoop name n (off + f.render.length) p := by
  have hline : f.render ++ p = f.line ++ CR :: (LF :: p) := by
    rw [HeaderField.render, List.append_assoc]
    rfl
  have hne : f.render ++ p ≠ [] := by
    rw [hline]
    exact List.append_ne_nil_of_right_ne_nil _ (List.cons_ne_nil _ _)
  have hcr : memchr (f.render ++ p) CR = some f.line.length := by
    rw [hline]
    exact memchr_append_cons f.cr_not_mem_line
  have htake : (f.render ++ p).take f.line.length = f.line := by
    rw [hline, List.take_left]
  have hcolon : memchr f.line COLON = some f.name.length := memchr_append_cons f.colon_not_mem_name
  have hraw : f.line.drop (f.name.length + 1) = f.raw := by
    rw [HeaderField.line, ← List.drop_drop, List.drop_left]
    rfl
  have hdrop : (f.render ++ p).drop (f.line.length + 2) = p := by
    rw [← f.render_length, List.drop_left]
  have hname : f.name.length = name.length ∧ asciiIeq (f.render ++ p) name = true ↔ f.Named name := by
    rw [hline, HeaderField.line, List.append_assoc]
    exact f.named_iff name _
  rw [httpGetHeaderLoop, if_neg hne, hcr]
  dsimp only
  rw [htake, hcolon]
  dsimp only
  rw [hraw, hdrop, f.trimOws_raw, f.render_length]
  by_cases hf : f.Named name
  · rw [if_pos (hname.2 hf), if_pos hf]
    rfl
  · rw [if_neg (mt hname.1 hf), if_neg hf]

/-- The loop stops at the first line of the name. -/
theorem httpGetHeaderLoop_render (name : List UInt8) (fs : List HeaderField) : ∀ n off : Nat,
    fs.length ≤ n →
      (httpGetHeaderLoop name n off (renderFields fs) = none ∧ ∀ f ∈ fs, ¬ f.Named name) ∨
      ∃ pre f post, fs = pre ++ f :: post ∧ (∀ g ∈ pre, ¬ g.Named name) ∧ f.Named name ∧
        httpGetHeaderLoop name n off (renderFields fs) =
          some ⟨u16 (f.valueOff (off + (renderFields pre).length)), u16 f.value.length⟩ := by
  induction fs with
  | nil =>
      intro n off _
      refine .inl ⟨?_, nofun⟩
      cases n with
      | zero => rfl
      | succ n => rfl
  | cons f fs ih =>
      intro n off hn
      rw [List.length_cons] at hn
      obtain ⟨m, rfl⟩ : ∃ m, n = m + 1 := ⟨n - 1, by omega⟩
      rw [renderFields_cons, httpGetHeaderLoop_cons]
      by_cases hf : f.Named name
      · rw [if_pos hf]
        exact .inr ⟨[], f, fs, rfl, nofun, hf, rfl⟩
      · rw [if_neg hf]
        rcases ih m (off + f.render.length) (by omega) with ⟨hnone, hall⟩ | ⟨pre, g, post, rfl, hpre, hg, hsome⟩
        · exact .inl ⟨hnone, List.forall_mem_cons.2 ⟨hf, hall⟩⟩
        · refine .inr ⟨f :: pre, g, post, rfl, List.forall_mem_cons.2 ⟨hf, hpre⟩, hg, ?_⟩
          rw [hsome, renderFields_cons, List.length_append, Nat.add_assoc]

/-! ## Over an accepted request -/

section Accepted

variable {buf : List UInt8} {req : HttpRequest} {hd : Head}

/-- The header block holds the lines of the fields. -/
theorem headerBlock_bytes (h : AcceptedHead buf req hd) :
    req.headerBlock.bytes buf = renderFields hd.fields := by
  obtain ⟨tail, rfl⟩ := h.starts
  have hpre : (hd.requestLine ++ CRLF).length = hd.blockOff := by
    rw [List.length_append]
    rfl
  rw [h.headerBlock_eq, HttpSlice.bytes, hd.render_append, ← List.append_assoc]
  dsimp only
  rw [← hpre, List.drop_left, List.take_left]

/-- The names that the parser knows, by the kind of the line. -/
theorem HeaderField.kind_host {f : HeaderField} (h : f.name.map asciiLower = cstr "host") :
    f.kind = .host := by
  have hlen : f.name.length = 4 := by
    rw [← List.length_map asciiLower, h]
    rfl
  rw [HeaderField.kind, fieldKind, if_pos ⟨hlen, (asciiIeq_iff (by decide) hlen).2 h⟩]

theorem HeaderField.kind_contentLength {f : HeaderField}
    (h : f.name.map asciiLower = cstr "content-length") : f.kind = .contentLength := by
  have hlen : f.name.length = 14 := by
    rw [← List.length_map asciiLower, h]
    rfl
  rw [HeaderField.kind, fieldKind, if_neg (fun hc => by omega),
    if_pos ⟨hlen, (asciiIeq_iff (by decide) hlen).2 h⟩]

/-- The slice of a value holds the value, also where that is empty. -/
theorem value_bytes (h : AcceptedHead buf req hd) {pre post : List HeaderField} {f : HeaderField}
    (hf : hd.fields = pre ++ f :: post) :
    HttpSlice.bytes ⟨u16 (f.valueOff (hd.blockOff + (renderFields pre).length)), u16 f.value.length⟩ buf
      = f.value := by
  obtain ⟨tail, rfl⟩ := h.starts
  by_cases hnil : f.value = []
  · rw [hnil]
    exact List.take_zero
  · exact bytes_value hf hnil tail h.short

/-- In an accepted request the lookup succeeds exactly for the names of its lines. It gives
the value of the first such line: for Host the slice that the parser stored, for
Content-Length the digits of the length. -/
theorem httpGetHeader_accepted (h : httpParseRequest buf = .ok req) : ∃ hd, AcceptedHead buf req hd ∧
    ∀ name : List UInt8,
      (httpGetHeader buf req name ≠ none ↔ ∃ f ∈ hd.fields, f.Named name) ∧
      ∀ s, httpGetHeader buf req name = some s →
        (∃ pre f post, hd.fields = pre ++ f :: post ∧ (∀ g ∈ pre, ¬ g.Named name) ∧ f.Named name ∧
          s = ⟨f.valueOff (hd.blockOff + (renderFields pre).length), f.value.length⟩ ∧
          s.bytes buf = trimOws f.raw) ∧
        (name.map asciiLower = cstr "host" → s = req.host) ∧
        (name.map asciiLower = cstr "content-length" → s.bytes buf ≠ [] ∧
          (s.bytes buf).all isDigit = true ∧ decimal (s.bytes buf) = req.contentLength) := by
  obtain ⟨hd, ha⟩ := exists_head_of_accept h
  refine ⟨hd, ha, fun name => ?_⟩
  have hlookup : httpGetHeader buf req name
      = httpGetHeaderLoop name (renderFields hd.fields).length hd.blockOff (renderFields hd.fields) := by
    rw [httpGetHeader, headerBlock_bytes ha, ha.headerBlock_eq]
  have hfuel := length_le_renderFields hd.fields
  rw [hlookup]
  rcases httpGetHeaderLoop_render name hd.fields _ hd.blockOff hfuel with
    ⟨hnone, hall⟩ | ⟨pre, f, post, hsplit, hpre, hf, hsome⟩
  · rw [hnone]
    exact ⟨⟨fun hne => absurd rfl hne, fun ⟨f, hmem, hf⟩ => absurd hf (hall f hmem)⟩, nofun⟩
  · have hmem : f ∈ hd.fields := by
      rw [hsplit]
      exact List.mem_append_right _ List.mem_cons_self
    have hin := Head.value_in hsplit
    have hshort := ha.short
    have hbytes := value_bytes ha hsplit
    rw [hsome]
    refine ⟨⟨fun _ => ⟨f, hmem, hf⟩, fun _ => nofun⟩, fun s hs => ?_⟩
    obtain rfl := Option.some.inj hs
    refine ⟨⟨pre, f, post, hsplit, hpre, hf, u16_slice (by omega), ?_⟩, fun hhost => ?_, fun hcl => ?_⟩
    · rw [hbytes, f.trimOws_raw]
    · obtain ⟨r, seen, hres, rfl⟩ := ha.result
      exact (hres.host_value pre f post hsplit (HeaderField.kind_host (hf.trans hhost))).symm
    · have hvalue := contentLength_value ha hmem (HeaderField.kind_contentLength (hf.trans hcl))
      obtain ⟨hne, hdigits, -, heq⟩ := parseContentLength_iff.1 hvalue
      rw [hbytes]
      exact ⟨hne, hdigits, heq.symm⟩

end Accepted

/-- A Host line, asked for in another letter case. -/
theorem httpGetHeader_accepted_host : ∃ req hd,
    AcceptedHead (cstr "GET / HTTP/1.1\r\nA:\r\nHost: x\r\n\r\n") req hd ∧
      (httpGetHeader (cstr "GET / HTTP/1.1\r\nA:\r\nHost: x\r\n\r\n") req (cstr "hOST") ≠ none ↔
        ∃ f ∈ hd.fields, f.Named (cstr "hOST")) := by
  have hok : httpParseRequest (cstr "GET / HTTP/1.1\r\nA:\r\nHost: x\r\n\r\n")
      = .ok ⟨⟨4, 1⟩, ⟨4, 1⟩, ⟨0, 0⟩, ⟨26, 1⟩, ⟨16, 13⟩, 0, 31, .get, 1,
        ⟨false, false, false, false⟩⟩ := by
    decide
  obtain ⟨hd, ha, hname⟩ := httpGetHeader_accepted hok
  exact ⟨_, hd, ha, (hname _).1⟩

end TinyServer.Http
