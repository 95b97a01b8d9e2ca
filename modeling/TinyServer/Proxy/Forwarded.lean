import TinyServer.Http.Accepted
import TinyServer.Lib.Lines
import TinyServer.Proxy.Rewrite

/-!
# The forwarded head

What `rewrite_request` makes of an accepted head: the request line, the lines that
are not hop-by-hop, and one Connection line. Whether every upstream reads the same
lines in it, and in the head it was made from, depends on the one region of a head
that no scanner looks at: the authority of an absolute-form target.
-/

set_option autoImplicit false

namespace TinyServer.Proxy

open TinyServer.Http TinyServer.Lib

/-! ## Rewriting a rendered head -/

/-- The line end that is found after a line is its own. -/
theorem findCrlf_line {l : List UInt8} (rest : List UInt8) (h : CR ∉ l) :
    findCrlf (l ++ (CRLF ++ rest)) = some l.length := by
  induction l with
  | nil => rfl
  | cons c l ih =>
      have hc : c ≠ CR := fun e => h (by rw [e]; exact List.mem_cons_self)
      have hl := ih fun hm => h (List.mem_cons_of_mem c hm)
      cases l with
      | nil =>
          rw [List.nil_append] at hl
          show (if c = CR ∧ CR = LF then some 0 else (findCrlf (CRLF ++ rest)).map (· + 1)) = _
          rw [if_neg (fun hh => hc hh.1), hl]
          rfl
      | cons d l =>
          rw [List.cons_append, List.cons_append, findCrlf, if_neg (fun hh => hc hh.1)]
          rw [List.cons_append] at hl
          rw [hl]
          rfl

/-- The lines of a request head that are forwarded. -/
def forwardedFields (fs : List HeaderField) : List HeaderField :=
  fs.filter fun f => !hopByHop f.name true

/-- What is appended is appended at the end. -/
theorem appendBytes_eq {dst s dst' : List UInt8} (h : appendBytes dst s = some dst') :
    dst' = dst ++ s := by
  unfold appendBytes at h
  split at h
  · cases h
  · exact (Option.some.inj h).symm

theorem not_crlf_prefix_line (f : HeaderField) (rest : List UInt8) :
    ¬ CRLF <+: f.line ++ rest := by
  intro hp
  obtain ⟨c, cs, hl⟩ := List.exists_cons_of_ne_nil f.line_ne_nil
  rw [hl, List.cons_append, List.cons_prefix_cons] at hp
  refine f.cr_not_mem_line ?_
  rw [hl, ← hp.1]
  exact List.mem_cons_self

/-- One turn of the header loop takes one line, which it drops or copies. -/
theorem rewriteLines_cons (f : HeaderField) (fs : List HeaderField) (n : Nat) (dst : List UInt8) :
    rewriteLines (n + 1) (renderFields (f :: fs) ++ CRLF) dst =
      if hopByHop f.name true then rewriteLines n (renderFields fs ++ CRLF) dst
      else (appendBytes dst f.render).bind (rewriteLines n (renderFields fs ++ CRLF)) := by
  have hshape : renderFields (f :: fs) ++ CRLF =
      f.line ++ (CRLF ++ (renderFields fs ++ CRLF)) := by
    simp [HeaderField.render]
  have hfind := findCrlf_line (renderFields fs ++ CRLF) f.cr_not_mem_line
  have hcolon : memchr f.line COLON = some f.name.length :=
    memchr_append_cons f.colon_not_mem_name
  have hname : (f.line ++ (CRLF ++ (renderFields fs ++ CRLF))).take f.name.length = f.name := by
    simp [HeaderField.line]
  have hdrop : (f.line ++ (CRLF ++ (renderFields fs ++ CRLF))).drop (f.line.length + 2) =
      renderFields fs ++ CRLF := by
    rw [← List.drop_drop, List.drop_left]
    rfl
  have htake : (f.line ++ (CRLF ++ (renderFields fs ++ CRLF))).take (f.line.length + 2) =
      f.render := by
    rw [List.take_length_add_append]
    rfl
  have hne : ¬ (f.line ++ (CRLF ++ (renderFields fs ++ CRLF)) = [] ∨
      CRLF <+: f.line ++ (CRLF ++ (renderFields fs ++ CRLF))) := by
    rintro (he | hp)
    · exact f.line_ne_nil (List.append_eq_nil_iff.1 he).1
    · exact not_crlf_prefix_line f _ hp
  rw [hshape, rewriteLines, if_neg hne, hfind]
  simp only [List.take_left, hcolon, hname, hdrop, htake]
  split
  · rfl
  · cases appendBytes dst f.render <;> rfl

theorem rewriteLines_nil (n : Nat) (dst : List UInt8) :
    rewriteLines (n + 1) (renderFields [] ++ CRLF) dst = some dst := by
  have hstop : renderFields [] ++ CRLF = [] ∨ CRLF <+: renderFields [] ++ CRLF :=
    Or.inr (List.prefix_refl CRLF)
  rw [rewriteLines, if_pos hstop]

/-- The header loop copies the lines that are not hop-by-hop. -/
theorem rewriteLines_render (fs : List HeaderField) : ∀ {n : Nat} {dst dst' : List UInt8},
    fs.length < n → rewriteLines n (renderFields fs ++ CRLF) dst = some dst' →
      dst' = dst ++ renderFields (forwardedFields fs) := by
  induction fs with
  | nil =>
      intro n dst dst' hn h
      cases n with
      | zero => cases hn
      | succ n =>
          rw [rewriteLines_nil] at h
          rw [← Option.some.inj h]
          exact (List.append_nil dst).symm
  | cons f fs ih =>
      intro n dst dst' hn h
      cases n with
      | zero => cases hn
      | succ n =>
          have hlt : fs.length < n := by
            rw [List.length_cons] at hn
            omega
          rw [rewriteLines_cons] at h
          by_cases hhop : hopByHop f.name true = true
          · rw [if_pos hhop] at h
            rw [ih hlt h]
            simp [forwardedFields, hhop]
          · rw [if_neg hhop] at h
            obtain ⟨dst₁, happ, h⟩ := Option.bind_eq_some_iff.1 h
            rw [ih hlt h, appendBytes_eq happ]
            simp [forwardedFields, hhop]

/-- What fits is appended. -/
theorem appendBytes_fits {dst s : List UInt8} (h : dst.length + s.length ≤ PROXY_HDR_MAX) :
    appendBytes dst s = some (dst ++ s) :=
  if_neg (by omega)

/-- Where the whole header block fits, the loop comes to its end. -/
theorem rewriteLines_fits (fs : List HeaderField) : ∀ {n : Nat} {dst : List UInt8},
    fs.length < n → dst.length + (renderFields fs).length ≤ PROXY_HDR_MAX →
      rewriteLines n (renderFields fs ++ CRLF) dst =
        some (dst ++ renderFields (forwardedFields fs)) := by
  induction fs with
  | nil =>
      intro n dst hn _
      cases n with
      | zero => cases hn
      | succ n =>
          rw [rewriteLines_nil]
          exact congrArg some (List.append_nil dst).symm
  | cons f fs ih =>
      intro n dst hn hfit
      cases n with
      | zero => cases hn
      | succ n =>
          have hlt : fs.length < n := by
            rw [List.length_cons] at hn
            omega
          rw [renderFields_cons, List.length_append] at hfit
          rw [rewriteLines_cons]
          by_cases hhop : hopByHop f.name true = true
          · rw [if_pos hhop, ih hlt (by omega)]
            simp [forwardedFields, hhop]
          · rw [if_neg hhop, appendBytes_fits (by omega), Option.bind_some,
              ih hlt (by rw [List.length_append]; omega)]
            simp [forwardedFields, hhop]

/-- Fewer fields are no longer. -/
theorem renderFields_filter_le (p : HeaderField → Bool) (fs : List HeaderField) :
    (renderFields (fs.filter p)).length ≤ (renderFields fs).length := by
  induction fs with
  | nil => exact le_rfl
  | cons f fs ih =>
      rw [List.filter_cons, renderFields_cons, List.length_append]
      split
      · rw [renderFields_cons, List.length_append]
        omega
      · omega

section Render

variable (hd : Head)

/-- `rewrite_request` on a rendered head, with the request line copied. -/
theorem rewriteRequest_eq : rewriteRequest hd.render =
    (appendBytes [] (hd.requestLine ++ CRLF)).bind fun dst =>
      (rewriteLines hd.render.length (renderFields hd.fields ++ CRLF) dst).bind fun dst =>
        appendBytes dst CONNECTION_KEEP := by
  have hshape : hd.render = hd.requestLine ++ (CRLF ++ (renderFields hd.fields ++ CRLF)) := by
    simp [Head.render]
  have hfind := findCrlf_line (renderFields hd.fields ++ CRLF) hd.cr_not_mem_requestLine
  have htake : (hd.requestLine ++ (CRLF ++ (renderFields hd.fields ++ CRLF))).take
      (hd.requestLine.length + 2) = hd.requestLine ++ CRLF := by
    rw [List.take_length_add_append]
    rfl
  have hdrop : (hd.requestLine ++ (CRLF ++ (renderFields hd.fields ++ CRLF))).drop
      (hd.requestLine.length + 2) = renderFields hd.fields ++ CRLF := by
    rw [← List.drop_drop, List.drop_left]
    rfl
  unfold rewriteRequest
  rw [hshape]
  simp only [hfind, htake, hdrop]
  cases appendBytes [] (hd.requestLine ++ CRLF) with
  | none => rfl
  | some dst =>
      simp only [Option.bind_some]
      cases rewriteLines (hd.requestLine ++ (CRLF ++ (renderFields hd.fields ++ CRLF))).length
        (renderFields hd.fields ++ CRLF) dst <;> rfl

theorem fields_lt_render : hd.fields.length < hd.render.length := by
  have := length_le_renderFields hd.fields
  have := hd.render_length
  omega

/-- The head `rewrite_request` makes of a rendered head. -/
theorem rewriteRequest_render {hd : Head} {hdr : List UInt8}
    (h : rewriteRequest hd.render = some hdr) :
    hdr = hd.requestLine ++ CRLF ++ renderFields (forwardedFields hd.fields) ++
      CONNECTION_KEEP := by
  rw [rewriteRequest_eq] at h
  obtain ⟨dst, happ, h⟩ := Option.bind_eq_some_iff.1 h
  obtain ⟨dst₁, hlines, h⟩ := Option.bind_eq_some_iff.1 h
  rw [appendBytes_eq h, rewriteLines_render hd.fields (fields_lt_render hd) hlines,
    appendBytes_eq happ, List.nil_append]

/-- A head with room for the Connection line behind it is rewritten. -/
theorem rewriteRequest_fits (hfit : hd.render.length + CONNECTION_KEEP.length ≤ PROXY_HDR_MAX) :
    rewriteRequest hd.render = some (hd.requestLine ++ CRLF ++
      renderFields (forwardedFields hd.fields) ++ CONNECTION_KEEP) := by
  have hlen := hd.render_length
  have hline : (hd.requestLine ++ CRLF).length = hd.blockOff := by
    rw [List.length_append]
    rfl
  have hsub : (renderFields (forwardedFields hd.fields)).length ≤
      (renderFields hd.fields).length := renderFields_filter_le _ _
  rw [rewriteRequest_eq, appendBytes_fits (by rw [hline, List.length_nil]; omega),
    Option.bind_some, List.nil_append,
    rewriteLines_fits hd.fields (fields_lt_render hd) (by rw [hline]; omega), Option.bind_some]
  apply appendBytes_fits
  rw [List.length_append, hline]
  omega

end Render

/-! ## Line ends -/

section LineEnds

variable {s : List UInt8}

/-- In the fields every line feed ends a line. -/
theorem renderFields_lf (fs : List HeaderField) : LfAfterCr CR LF (renderFields fs) := by
  induction fs with
  | nil => exact .nil
  | cons f fs ih =>
      rw [renderFields_cons]
      exact (LfAfterCr.line (by decide) f.lf_not_mem_line).append ih

/-- In the fields every carriage return ends a line. -/
theorem renderFields_cr (fs : List HeaderField) : CrBeforeLf CR LF (renderFields fs) := by
  induction fs with
  | nil => exact .nil
  | cons f fs ih =>
      rw [renderFields_cons]
      exact (CrBeforeLf.line (by decide) f.cr_not_mem_line).append ih

theorem crlf_lf : LfAfterCr CR LF CRLF := LfAfterCr.line (l := []) (by decide) List.not_mem_nil

theorem crlf_cr : CrBeforeLf CR LF CRLF := CrBeforeLf.line (l := []) (by decide) List.not_mem_nil

theorem connectionKeep_lf : LfAfterCr CR LF CONNECTION_KEEP := by
  have hline : CONNECTION_KEEP = (cstr "Connection: keep-alive" ++ [CR, LF]) ++ CRLF := by decide
  rw [hline]
  exact (LfAfterCr.line (by decide) (by decide)).append crlf_lf

/-- In a head every carriage return ends a line. -/
theorem render_cr (hd : Head) : CrBeforeLf CR LF hd.render :=
  ((CrBeforeLf.line (by decide) hd.cr_not_mem_requestLine).append (renderFields_cr _)).append
    crlf_cr

/-- So does every line feed, if the request line has none. -/
theorem render_lf {hd : Head} (h : LF ∉ hd.requestLine) : LfAfterCr CR LF hd.render :=
  ((LfAfterCr.line (by decide) h).append (renderFields_lf _)).append crlf_lf

end LineEnds

/-! ## The lines of a head -/

/-- A head cut into the parts of its request line and its header lines. -/
@[ext] structure HeadLines where
  method : List UInt8
  target : List UInt8
  minor : Fin 2
  fields : List HeaderField

namespace HeadLines

/-- The request line without its end. -/
def requestLine (c : HeadLines) : List UInt8 :=
  c.method ++ SP :: (c.target ++ SP :: Head.version c.minor)

/-- The bytes `s` are these lines. -/
structure Of (c : HeadLines) (s : List UInt8) : Prop where
  bytes : s = c.requestLine ++ CRLF ++ renderFields c.fields ++ CRLF
  method_ne : c.method ≠ []
  method_tchar : c.method.all isTchar = true
  target_sp : SP ∉ c.target
  target_cr : CR ∉ c.target
  canonical : ∀ f ∈ c.fields, f.Canonical

end HeadLines

/-- The lines of an accepted head. -/
def headLines (hd : Head) : HeadLines := ⟨hd.method, hd.target.bytes, hd.minor, hd.fields⟩

/-- The lines of a head, read back. -/
theorem headLines_of {hd : Head} (hcan : ∀ f ∈ hd.fields, f.Canonical) :
    (headLines hd).Of hd.render :=
  ⟨rfl, hd.method_ne, hd.method_tchar, hd.target.sp_not_mem, hd.target.cr_not_mem, hcan⟩

section Unique

/-- The white space around a value is determined by the line. -/
theorem raw_unique {f g : HeaderField} (hf : f.Canonical) (hg : g.Canonical)
    (h : f.raw = g.raw) : f.lead = g.lead ∧ f.value = g.value ∧ f.trail = g.trail := by
  have hvalue : f.value = g.value := by rw [← f.trimOws_raw, h, g.trimOws_raw]
  cases hv : f.value with
  | nil =>
      have hv' : g.value = [] := hvalue.symm.trans hv
      have hlead : f.lead = g.lead := by
        have hraw := h
        unfold HeaderField.raw at hraw
        rw [hv, hv', hf hv, hg hv', List.append_nil, List.append_nil, List.append_nil,
          List.append_nil] at hraw
        exact hraw
      exact ⟨hlead, hv'.symm, (hf hv).trans (hg hv').symm⟩
  | cons c v =>
      have hv' : g.value = c :: v := hvalue.symm.trans hv
      have hc : isOws c = false := head_of_trim_eq (by rw [← hv]; exact f.value_trimmed)
      have hraw : f.lead ++ (c :: v ++ f.trail) = g.lead ++ (c :: v ++ g.trail) := by
        have hraw := h
        unfold HeaderField.raw at hraw
        rw [hv, hv', List.append_assoc, List.append_assoc] at hraw
        exact hraw
      -- The leading white space ends where the value starts.
      have hlead : f.lead = g.lead := by
        have hf' := takeWhile_pad (b := f.trail) (v := v) f.lead_ows hc
        have hg' := takeWhile_pad (b := g.trail) (v := v) g.lead_ows hc
        rw [← hf', ← hg', List.append_assoc, List.append_assoc, hraw]
      rw [hlead, List.append_right_inj, List.append_right_inj] at hraw
      exact ⟨hlead, hv'.symm, hraw⟩

/-- A line is the line of one field. -/
theorem field_unique {f g : HeaderField} (hf : f.Canonical) (hg : g.Canonical)
    (h : f.line = g.line) : f = g := by
  obtain ⟨hname, hraw⟩ := split_unique h f.colon_not_mem_name g.colon_not_mem_name
  obtain ⟨hlead, hvalue, htrail⟩ := raw_unique hf hg hraw
  exact HeaderField.ext hname hlead hvalue htrail

/-- A block of lines is the block of one list of fields. -/
theorem fields_unique (fs : List HeaderField) : ∀ {gs : List HeaderField},
    (∀ f ∈ fs, f.Canonical) → (∀ g ∈ gs, g.Canonical) →
      renderFields fs ++ CRLF = renderFields gs ++ CRLF → fs = gs := by
  have hshape : ∀ (f : HeaderField) (fs : List HeaderField), renderFields (f :: fs) ++ CRLF =
      f.line ++ CR :: (LF :: (renderFields fs ++ CRLF)) := by
    intro f fs
    simp [HeaderField.render]
  induction fs with
  | nil =>
      intro gs _ _ h
      cases gs with
      | nil => rfl
      | cons g gs =>
          rw [hshape] at h
          refine absurd ?_ (not_crlf_prefix_line g (CR :: (LF :: (renderFields gs ++ CRLF))))
          rw [← h]
          exact List.prefix_refl CRLF
  | cons f fs ih =>
      intro gs hf hg h
      cases gs with
      | nil =>
          rw [hshape] at h
          refine absurd ?_ (not_crlf_prefix_line f (CR :: (LF :: (renderFields fs ++ CRLF))))
          rw [h]
          exact List.prefix_refl CRLF
      | cons g gs =>
          rw [hshape, hshape] at h
          obtain ⟨hline, hrest⟩ := split_unique h f.cr_not_mem_line g.cr_not_mem_line
          have hfs := ih (fun x hx => hf x (List.mem_cons_of_mem f hx))
            (fun x hx => hg x (List.mem_cons_of_mem g hx)) (List.cons.inj hrest).2
          rw [field_unique (hf f List.mem_cons_self) (hg g List.mem_cons_self) hline, hfs]

/-- There is no line end in the request line. -/
theorem HeadLines.cr_not_mem {c : HeadLines} {s : List UInt8} (h : c.Of s) :
    CR ∉ c.requestLine := by
  have hmethod := not_mem_of_all_isTchar h.method_tchar (d := CR) (by decide)
  have hversion : CR ∉ Head.version c.minor := by
    match c.minor with
    | 0 => decide
    | 1 => decide
  have hsp : CR ≠ SP := by decide
  simp [HeadLines.requestLine, hmethod, hversion, h.target_cr, hsp]

theorem version_inj {m n : Fin 2} (h : Head.version m = Head.version n) : m = n := by
  match m, n with
  | 0, 0 => rfl
  | 1, 1 => rfl
  | 0, 1 => exact absurd h (by decide)
  | 1, 0 => exact absurd h (by decide)

/-- Bytes are the lines of at most one head. -/
theorem HeadLines.unique {c d : HeadLines} {s : List UInt8} (hc : c.Of s) (hd : d.Of s) :
    c = d := by
  have hbytes : c.requestLine ++ CR :: (LF :: (renderFields c.fields ++ CRLF)) =
      d.requestLine ++ CR :: (LF :: (renderFields d.fields ++ CRLF)) := by
    have h := hc.bytes.symm.trans hd.bytes
    simpa using h
  obtain ⟨hline, hrest⟩ := split_unique hbytes (cr_not_mem hc) (cr_not_mem hd)
  have hfields := fields_unique c.fields hc.canonical hd.canonical (List.cons.inj hrest).2
  obtain ⟨hmethod, hrest⟩ := split_unique hline
    (not_mem_of_all_isTchar hc.method_tchar (by decide))
    (not_mem_of_all_isTchar hd.method_tchar (by decide))
  obtain ⟨htarget, hversion⟩ := split_unique hrest hc.target_sp hd.target_sp
  exact HeadLines.ext hmethod htarget (version_inj hversion) hfields

end Unique

/-! ## One reading -/

/-- The head of an accepted buffer has one reading: it is the lines of one head, with
line ends only where a line ends, and the head made of it reads the same to an upstream
that ends lines at LF and to one that ends them at CRLF. -/
structure OneReading (buf : List UInt8) (req : HttpRequest) : Prop where
  lines : ∃! c : HeadLines, c.Of (buf.take req.headerBytes)
  cr : CrBeforeLf CR LF (buf.take req.headerBytes)
  lf : LfAfterCr CR LF (buf.take req.headerBytes)
  target : ∀ c : HeadLines, c.Of (buf.take req.headerBytes) → c.target.all isTargetChar = true
  value : ∀ c : HeadLines, c.Of (buf.take req.headerBytes) →
    ∀ f ∈ c.fields, f.raw.all isFieldVchar = true
  host_once : ∀ c : HeadLines, c.Of (buf.take req.headerBytes) → countKind .host c.fields ≤ 1
  length_once : ∀ c : HeadLines, c.Of (buf.take req.headerBytes) →
    countKind .contentLength c.fields ≤ 1
  no_transfer : ∀ c : HeadLines, c.Of (buf.take req.headerBytes) →
    countKind .transferEncoding c.fields = 0
  forwarded : ∀ hdr, rewriteRequest (buf.take req.headerBytes) = some hdr →
    readCrlf CR LF [] hdr = readLf CR LF [] hdr

/-- The authority in the bytes of a request-target: none in origin form, and what stands
between the scheme and the next slash in absolute form. -/
def authorityOf (t : List UInt8) : List UInt8 :=
  if t.head? = some SLASH then []
  else (t.drop (if asciiIeq t (cstr "http://") then 7 else 8)).takeWhile (· != SLASH)

theorem isTargetChar_of_lower {c : UInt8} (h : isTargetChar (asciiLower c) = true) :
    isTargetChar c = true := by
  unfold asciiLower at h
  split at h
  · rename_i hup
    simp only [isTargetChar, Bool.and_eq_true, decide_eq_true_eq]
    have h1 : c.toNat ≤ 0x5A := hup.2
    have h2 : 0x41 ≤ c.toNat := hup.1
    constructor
    · exact UInt8.lt_iff_toNat_lt.2 (by show 0x20 < c.toNat; omega)
    · exact UInt8.lt_iff_toNat_lt.2 (by show c.toNat < 0x7F; omega)
  · exact h

theorem isFieldVchar_of_ows {s : List UInt8} (h : s.all isOws = true) :
    s.all isFieldVchar = true := by
  rw [List.all_eq_true] at h ⊢
  intro c hc
  have ho := h c hc
  simp only [isOws, Bool.or_eq_true, beq_iff_eq] at ho
  rcases ho with rfl | rfl <;> decide

/-- The length of a scheme, as the code finds it. -/
theorem scheme_length {sc : List UInt8} (h : isScheme sc) (rest : List UInt8) :
    sc.length = if asciiIeq (sc ++ rest) (cstr "http://") then 7 else 8 := by
  have hlen : sc.length = (sc.map asciiLower).length := (List.length_map asciiLower).symm
  rcases h with h | h
  · have h7 : sc.length = 7 := by rw [hlen, h]; rfl
    have hieq : asciiIeq (sc ++ rest) (cstr "http://") = true := by
      unfold asciiIeq
      rw [List.take_left' (by rw [h7]; rfl), h]
      rfl
    rw [if_pos hieq, h7]
  · have h8 : sc.length = 8 := by rw [hlen, h]; rfl
    have hieq : asciiIeq (sc ++ rest) (cstr "http://") ≠ true := by
      intro he
      unfold asciiIeq at he
      have h7 : ((cstr "http://").length : Nat) = 7 := rfl
      rw [h7, List.take_append_of_le_length (by omega), List.map_take, h] at he
      exact absurd he (by decide)
    rw [if_neg hieq, h8]

/-- The authority that is found is that of the target. -/
theorem authorityOf_bytes (t : Target) : authorityOf t.bytes = t.authority := by
  cases t with
  | origin path hslash hchars => exact if_pos hslash
  | absolute sc a path hs hdelim hslash hchars =>
      have hhead : (sc ++ a ++ path).head? ≠ some SLASH := by
        have hlower : (sc.map asciiLower).head? = some 0x68 := by
          rcases hs with h | h <;> rw [h] <;> rfl
        cases sc with
        | nil => cases hlower
        | cons c sc =>
            intro he
            have hslash : asciiLower SLASH = 0x68 := by
              rw [← Option.some.inj he]
              exact Option.some.inj hlower
            exact absurd hslash (by decide)
      have ha : ∀ c ∈ a, (c != SLASH) = true := by
        intro c hc
        simpa using (hdelim c hc).1
      show authorityOf (sc ++ a ++ path) = a
      unfold authorityOf
      rw [if_neg hhead, List.append_assoc, ← scheme_length hs, List.drop_left]
      rcases hslash with rfl | hslash
      · rw [List.append_nil]
        exact List.takeWhile_eq_self_iff.2 ha
      · cases path with
        | nil => cases hslash
        | cons c path =>
            rw [Option.some.inj hslash, List.takeWhile_append_of_pos ha]
            rw [List.takeWhile_cons_of_neg (by decide), List.append_nil]

section Accepted

variable {buf : List UInt8} {req : HttpRequest} {hd : Head}

/-- Only the authority of a target can have bytes that are no target characters. -/
theorem target_visible_iff (t : Target) :
    t.bytes.all isTargetChar = true ↔ t.authority.all isTargetChar = true := by
  cases t with
  | origin path hslash hchars => exact ⟨fun _ => rfl, fun _ => hchars⟩
  | absolute sc a path hs hdelim hslash hchars =>
      have hsc : sc.all isTargetChar = true := by
        rw [List.all_eq_true]
        intro c hc
        have hmem : asciiLower c ∈ sc.map asciiLower := List.mem_map_of_mem hc
        have hvis : ∀ d ∈ cstr "http://" ++ cstr "https://", isTargetChar d = true :=
          List.all_eq_true.1 (by decide)
        have hlow : isTargetChar (asciiLower c) = true := by
          apply hvis
          rcases hs with h | h <;> rw [h] at hmem
          · exact List.mem_append_left _ hmem
          · exact List.mem_append_right _ hmem
        exact isTargetChar_of_lower hlow
      show (sc ++ a ++ path).all isTargetChar = true ↔ _
      rw [List.all_append, List.all_append, hsc, hchars, Bool.true_and, Bool.and_true]
      rfl

/-- An accepted head has one reading exactly when the authority of its target, the
region no scanner looks at, has only visible bytes. -/
theorem oneReading_iff (h : httpParseRequest buf = .ok req) :
    OneReading buf req ↔ (authorityOf (req.target.bytes buf)).all isTargetChar = true := by
  obtain ⟨hd, hacc⟩ := exists_head_of_accept h
  have hhead := hacc.take_headerBytes
  have hof : (headLines hd).Of (buf.take req.headerBytes) := by
    rw [hhead]
    exact headLines_of hacc.canonical
  rw [target_bytes hacc, authorityOf_bytes, ← target_visible_iff]
  constructor
  · intro hone
    exact hone.target _ hof
  -- A visible authority leaves no line feed in the request line, so the lines are determined.
  · intro hvisible
    have heq : ∀ c : HeadLines, c.Of (buf.take req.headerBytes) → c = headLines hd :=
      fun c hc => HeadLines.unique hc hof
    have hlf : LF ∉ hd.requestLine := by
      have hmethod := not_mem_of_all_isTchar hd.method_tchar (d := LF) (by decide)
      have htarget : LF ∉ hd.target.bytes := fun hm =>
        absurd (List.all_eq_true.1 hvisible LF hm) (by decide)
      have hversion : LF ∉ Head.version hd.minor := by
        match hd.minor with
        | 0 => decide
        | 1 => decide
      have hsp : LF ≠ SP := by decide
      simp [Head.requestLine, hmethod, htarget, hversion, hsp]
    -- The clauses of one reading, over that one list of lines.
    constructor
    case lines => exact ⟨headLines hd, hof, heq⟩
    case cr =>
      rw [hhead]
      exact render_cr hd
    case lf =>
      rw [hhead]
      exact render_lf hlf
    case target =>
      intro c hc
      rw [heq c hc]
      exact hvisible
    case value =>
      intro c hc f _
      unfold HeaderField.raw
      rw [List.all_append, List.all_append, f.value_vchar, Bool.and_true,
        isFieldVchar_of_ows f.lead_ows, isFieldVchar_of_ows f.trail_ows]
      rfl
    case host_once =>
      intro c hc
      rw [heq c hc]
      exact hacc.rules.host_once
    case length_once =>
      intro c hc
      rw [heq c hc]
      exact hacc.rules.length_once
    case no_transfer =>
      intro c hc
      rw [heq c hc]
      exact hacc.no_transfer
    case forwarded =>
      intro hdr hrw
      rw [hhead] at hrw
      rw [rewriteRequest_render hrw]
      exact (((LfAfterCr.line (by decide) hlf).append (renderFields_lf _)).append
        connectionKeep_lf).read (by decide)

end Accepted

/-- A request with an absolute target. -/
theorem oneReading_iff_absolute :
    OneReading (cstr "GET http://a/ HTTP/1.1\r\nHost: x\r\n\r\n")
        ((httpParseRequest (cstr "GET http://a/ HTTP/1.1\r\nHost: x\r\n\r\n")).toOption.getD .zero) ↔
      (authorityOf (((httpParseRequest
        (cstr "GET http://a/ HTTP/1.1\r\nHost: x\r\n\r\n")).toOption.getD .zero).target.bytes
          (cstr "GET http://a/ HTTP/1.1\r\nHost: x\r\n\r\n"))).all isTargetChar = true :=
  oneReading_iff (by decide)

/-- A line end inside the authority: the forwarded head reads as two different heads. -/
theorem bareLf_forwarded :
    ∃ req, httpParseRequest (cstr "GET http://a\nb/ HTTP/1.1\r\nHost: x\r\n\r\n") = .ok req ∧
      ¬ OneReading (cstr "GET http://a\nb/ HTTP/1.1\r\nHost: x\r\n\r\n") req := by
  refine ⟨(httpParseRequest
    (cstr "GET http://a\nb/ HTTP/1.1\r\nHost: x\r\n\r\n")).toOption.getD .zero, by decide, ?_⟩
  intro h
  have hread := h.forwarded
    (cstr "GET http://a\nb/ HTTP/1.1\r\nHost: x\r\nConnection: keep-alive\r\n\r\n") (by decide)
  exact absurd hread (by decide)

end TinyServer.Proxy
