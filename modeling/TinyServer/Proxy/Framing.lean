import Mathlib.Data.List.Infix
import TinyServer.Proxy.Relay

/-!
# The framing of responses

What a client is owed does not depend on how reads and writes are cut: the bytes of
an upstream are informational heads, a final head, and a body that a `Frame` cuts
out of the rest (`answer`). `Framed` ties the counters of `proxy_conn` to a frame and
the bytes of the body so far; `note_body` keeps it.
-/

set_option autoImplicit false

namespace TinyServer.Proxy

open TinyServer.Http

/-! ## Frames -/

/-- How the end of the body of a response is found. -/
inductive Frame where
  | empty
  | length (n : Nat)
  | chunked
  | untilClose
  deriving DecidableEq, Repr

namespace Frame

/-- The part of the bytes after a head that is its body. -/
def cut : Frame → List UInt8 → List UInt8
  | empty, _ => []
  | length n, s => s.take n
  | chunked, s => s.take (scanChunks .start s).1
  | untilClose, s => s

/-- The body is complete; `closed` says that the upstream sends nothing more. -/
def Complete : Frame → List UInt8 → Prop → Prop
  | empty, _, _ => True
  | length n, s, _ => n ≤ s.length
  | chunked, s, _ => (scanChunks .start s).2.1 = .done
  | untilClose, _, closed => closed

/-- A body is the front of what was received. -/
theorem cut_prefix (f : Frame) (s : List UInt8) : f.cut s <+: s := by
  cases f with
  | empty => exact List.nil_prefix
  | length n => exact List.take_prefix _ _
  | chunked => exact List.take_prefix _ _
  | untilClose => exact List.prefix_refl _

theorem cut_nil (f : Frame) : f.cut [] = [] := List.prefix_nil.1 (f.cut_prefix [])

/-- More bytes only extend the body. -/
theorem cut_append_prefix (f : Frame) (s t : List UInt8) : f.cut s <+: f.cut (s ++ t) := by
  cases f with
  | empty => exact List.nil_prefix
  | length n => exact (List.prefix_append s t).take n
  | untilClose => exact List.prefix_append _ _
  | chunked =>
      have hle := scanChunks_le s .start
      by_cases hmore : (scanChunks .start s).2.1 = .more
      · have happ := scanChunks_append s t .start hmore
        have hall := scanChunks_more s .start hmore
        show s.take _ <+: (s ++ t).take _
        rw [happ, hall, List.take_length, List.take_add, List.take_left]
        exact List.prefix_append _ _
      · show s.take _ <+: (s ++ t).take _
        rw [scanChunks_append_of_ne s t .start hmore, List.take_append_of_le_length hle]

end Frame

/-! ## Response heads -/

/-- The header lines after a status line, as names and values, cut as the loop of
`rewrite_response` cuts them. -/
def responseFields : Nat → List UInt8 → List (List UInt8 × List UInt8)
  | 0, _ => []
  | n + 1, p =>
      -- the empty line
      if p.length < 2 ∨ CRLF <+: p then []
      else
        match findCrlf p with
        | none => []
        | some eol =>
            match memchr (p.take eol) COLON with
            | none => []
            | some colon =>
                (p.take colon, trimOws ((p.take eol).drop (colon + 1))) ::
                  responseFields n (p.drop (eol + 2))

/-- A Content-Length field. -/
def isContentLength (field : List UInt8 × List UInt8) : Bool :=
  decide (field.1.length = 14 ∧ ieq field.1 (cstr "content-length"))

/-- A Transfer-Encoding field. -/
def isTransferEncoding (field : List UInt8 × List UInt8) : Bool :=
  decide (field.1.length = 17 ∧ ieq field.1 (cstr "transfer-encoding"))

/-- The value of the first Content-Length. -/
def declaredLength (fields : List (List UInt8 × List UInt8)) : Option Nat :=
  (fields.find? isContentLength).bind fun f => parseU64 f.2

/-- The fields of a response head. -/
def headFields (src : List UInt8) : List (List UInt8 × List UInt8) :=
  match findCrlf src with
  | none => []
  | some eol => responseFields src.length (src.drop (eol + 2))

/-- The status of a response head. -/
def headStatus (src : List UInt8) : Nat :=
  match findCrlf src with
  | none => 0
  | some eol => (statusCode (src.take eol)).getD 0

/-- The frame of the body after the response head `src`, for a request `req`. -/
def responseFrame (req : HttpRequest) (src : List UInt8) : Frame :=
  if req.method = .head ∨ headStatus src = 204 ∨ headStatus src = 304 then .empty
  else if (headFields src).any isTransferEncoding then .chunked
  else
    match declaredLength (headFields src) with
    | some n => .length n
    | none => .untilClose

/-- What one line does to the framing. -/
theorem responseLine_framing {name v : List UInt8} {acc acc' : ResponseLines}
    (h : responseLine name v acc = some acc') :
    acc'.chunked = (acc.chunked || isTransferEncoding (name, v)) ∧
      acc'.contentLength = acc.contentLength.or
        (if isContentLength (name, v) then parseU64 v else none) ∧
      (isContentLength (name, v) = true → (parseU64 v).isSome = true) := by
  unfold responseLine at h
  by_cases hcl : name.length = 14 ∧ ieq name (cstr "content-length") = true
  · have hte : isTransferEncoding (name, v) = false :=
      decide_eq_false fun ht => by have := hcl.1.symm.trans ht.1; omega
    have hcl' : isContentLength (name, v) = true := decide_eq_true hcl
    rw [if_pos hcl] at h
    rw [hte, hcl', if_pos rfl, Bool.or_false]
    split at h
    · cases h
    · rename_i hnone
      obtain ⟨cl, hv, rfl⟩ := Option.map_eq_some_iff.1 h
      rw [Option.not_isSome_iff_eq_none.1 hnone, hv]
      exact ⟨rfl, rfl, fun _ => rfl⟩
  · have hcl' : isContentLength (name, v) = false := decide_eq_false hcl
    rw [if_neg hcl] at h
    rw [hcl', if_neg Bool.false_ne_true, Option.or_none]
    by_cases hte : name.length = 17 ∧ ieq name (cstr "transfer-encoding") = true
    · have hte' : isTransferEncoding (name, v) = true := decide_eq_true hte
      rw [if_pos hte] at h
      rw [hte', Bool.or_true]
      split at h
      · cases h
      · cases h
        exact ⟨rfl, rfl, nofun⟩
    · have hte' : isTransferEncoding (name, v) = false := decide_eq_false hte
      rw [if_neg hte] at h
      rw [hte', Bool.or_false]
      split at h
      · cases h
        exact ⟨rfl, rfl, nofun⟩
      · cases h
        exact ⟨rfl, rfl, nofun⟩

/-- What the header loop has seen of the framing. -/
theorem responseLines_framing (n : Nat) : ∀ {p : List UInt8} {acc acc' : ResponseLines},
    responseLines n p acc = some acc' →
      acc'.chunked = (acc.chunked || (responseFields n p).any isTransferEncoding) ∧
        acc'.contentLength = acc.contentLength.or (declaredLength (responseFields n p)) := by
  induction n with
  -- Both scans run over the same lines, with the same fuel.
  | zero =>
      intro p acc acc' h
      cases h
      exact ⟨(Bool.or_false _).symm, Option.or_none.symm⟩
  | succ n ih =>
      intro p acc acc' h
      rw [responseLines] at h
      rw [responseFields]
      split at h
      -- The empty line ends both.
      · rename_i hend
        cases h
        rw [if_pos hend]
        exact ⟨(Bool.or_false _).symm, Option.or_none.symm⟩
      rename_i hend
      rw [if_neg hend]
      rcases Option.eq_none_or_eq_some (findCrlf p) with heol | ⟨eol, heol⟩
      · rw [heol] at h
        cases h
      rw [heol] at h ⊢
      simp only at h ⊢
      rcases Option.eq_none_or_eq_some (memchr (p.take eol) COLON) with hcolon | ⟨colon, hcolon⟩
      · rw [hcolon] at h
        cases h
      rw [hcolon] at h
      rw [hcolon]
      simp only at h ⊢
      split at h
      · cases h
      rename_i acc₁ hline
      obtain ⟨hch, hcl, hval⟩ := responseLine_framing hline
      -- Whether the line is copied does not matter to the framing.
      obtain ⟨acc₂, hrest, hch₂, hcl₂⟩ : ∃ acc₂, responseLines n (p.drop (eol + 2)) acc₂ = some acc' ∧
          acc₂.chunked = acc₁.chunked ∧ acc₂.contentLength = acc₁.contentLength := by
        split at h
        · exact ⟨acc₁, h, rfl, rfl⟩
        split at h
        · cases h
        · exact ⟨_, h, rfl, rfl⟩
      obtain ⟨ih₁, ih₂⟩ := ih hrest
      -- The first `Content-Length` counts; an earlier line has set it, or this line does.
      refine ⟨?_, ?_⟩
      · rw [ih₁, hch₂, hch, List.any_cons, Bool.or_assoc]
      · rw [ih₂, hcl₂, hcl, Option.or_assoc]
        congr 1
        unfold declaredLength
        rw [List.find?_cons]
        cases hf : isContentLength (p.take colon, trimOws ((p.take eol).drop (colon + 1))) with
        | true =>
            obtain ⟨k, hk⟩ := Option.isSome_iff_exists.1 (hval hf)
            rw [if_pos rfl, hk]
            exact hk.symm
        | false => rw [if_neg Bool.false_ne_true, Option.none_or]

/-! ## Counting the body -/

/-- `px` has counted the bytes `rest` of a body with the given frame. -/
def Framed (px : ProxyConn) (rest : List UInt8) : Frame → Prop
  | .empty => px.flags.bodyDone = true
  | .length n =>
      px.flags.respChunked = false ∧ px.flags.respCl = true ∧ px.flags.respEof = false ∧
        px.respLeft = n - rest.length ∧ (px.flags.bodyDone = true ↔ n ≤ rest.length)
  | .chunked =>
      px.flags.respChunked = true ∧ px.flags.respCl = false ∧ px.flags.respEof = false ∧
        (px.flags.bodyDone = true → (scanChunks .start rest).2.1 = .done) ∧
        (px.flags.bodyDone = false → (scanChunks .start rest).2 = (.more, px.chunk))
  | .untilClose =>
      px.flags.respChunked = false ∧ px.flags.respCl = false ∧ px.flags.bodyDone = false

/-- What the count consists of. -/
def counters (px : ProxyConn) : (Bool × Bool × Bool × Bool) × Nat × ChunkScan :=
  ((px.flags.respCl, px.flags.respChunked, px.flags.respEof, px.flags.bodyDone), px.respLeft,
    px.chunk)

/-- The frame depends on the counters only. -/
theorem Framed.congr {px px' : ProxyConn} {rest : List UInt8} {f : Frame} (h : Framed px rest f)
    (hc : counters px' = counters px) : Framed px' rest f := by
  simp only [counters, Prod.mk.injEq] at hc
  obtain ⟨⟨h1, h2, h3, h4⟩, h5, h6⟩ := hc
  cases f with
  | empty => exact h4.trans h
  | length n =>
      unfold Framed
      rw [h1, h2, h3, h4, h5]
      exact h
  | chunked =>
      unfold Framed
      rw [h1, h2, h3, h4, h6]
      exact h
  | untilClose =>
      unfold Framed
      rw [h1, h2, h4]
      exact h

/-- A body that `px` counts as done is complete. -/
theorem Framed.complete {px : ProxyConn} {rest : List UInt8} {f : Frame} {closed : Prop}
    (h : Framed px rest f)
    (hend : px.flags.bodyDone = true ∨ (px.flags.respEof = true ∧ closed)) :
    f.Complete rest closed := by
  cases f with
  | empty => trivial
  | length n =>
      obtain ⟨-, -, heof, -, hdone⟩ := h
      rcases hend with hd | ⟨he, -⟩
      · exact hdone.1 hd
      · rw [heof] at he
        cases he
  | chunked =>
      obtain ⟨-, -, heof, hdone, -⟩ := h
      rcases hend with hd | ⟨he, -⟩
      · exact hdone hd
      · rw [heof] at he
        cases he
  | untilClose =>
      obtain ⟨-, -, hdone⟩ := h
      rcases hend with hd | ⟨-, hc⟩
      · rw [hdone] at hd
        cases hd
      · exact hc

/-- A declared length that is used up ends the body. -/
theorem Framed.endOfLength {px : ProxyConn} {rest : List UInt8} {f : Frame}
    (h : Framed px rest f) (hcl : px.flags.respCl = true) (hleft : px.respLeft = 0) :
    Framed { px with flags := { px.flags with bodyDone := true } } rest f := by
  cases f with
  | empty => rfl
  | length n =>
      obtain ⟨hch, -, heof, hl, -⟩ := h
      rw [hleft] at hl
      exact ⟨hch, hcl, heof, hleft.trans hl, ⟨fun _ => by omega, fun _ => rfl⟩⟩
  | chunked =>
      have hno := h.2.1
      rw [hcl] at hno
      cases hno
  | untilClose =>
      have hno := h.2.1
      rw [hcl] at hno
      cases hno

/-- A final head starts the count. -/
theorem rewriteResponse_framed {req : HttpRequest} {px px' : ProxyConn} {src : List UInt8}
    (h : rewriteResponse req px src = .final px') (hmethod : req.method ≠ .head) :
    Framed px' [] (responseFrame req src) ∧ (px'.flags.bodyDone = true →
      ∀ rest, Framed px' rest (responseFrame req src) ∧ (responseFrame req src).cut rest = []) := by
  obtain ⟨eol, code, hdr, acc, heol, hcode, -, -, hlines, hfin⟩ := rewriteResponse_final h
  obtain ⟨hboth, -, hpx⟩ := finishResponse_final hfin
  obtain ⟨hch, hcl⟩ := responseLines_framing _ hlines
  have hstatus : headStatus src = code := by
    unfold headStatus
    rw [heol]
    simp only
    rw [hcode]
    rfl
  have hfields : headFields src = responseFields src.length (src.drop (eol + 2)) := by
    unfold headFields
    rw [heol]
  rw [Bool.false_or, ← hfields] at hch
  rw [Option.none_or, ← hfields] at hcl
  unfold responseFrame
  rw [hstatus, ← hch, ← hcl]
  rw [hpx]
  -- 204 and 304 have no body, whatever their fields say.
  by_cases hno : code = 204 ∨ code = 304
  · rw [if_pos (Or.inr hno)]
    have hdone : decide ((code = 204 ∨ code = 304) ∨
        (acc.contentLength.isSome = true ∧ acc.contentLength.getD 0 = 0)) = true :=
      decide_eq_true (Or.inl hno)
    exact ⟨hdone, fun _ rest => ⟨hdone, rfl⟩⟩
  rw [if_neg (by rintro (h | h); exacts [hmethod h, hno h])]
  cases hchunk : acc.chunked with
  -- A response with both fields was refused, so there is no length here.
  | true =>
      rw [hchunk] at hboth
      have hnone : acc.contentLength.isSome = false := by
        cases hs : acc.contentLength.isSome with
        | true => exact absurd ⟨hs, rfl⟩ hboth
        | false => rfl
      rw [if_pos rfl]
      have hdone : decide ((code = 204 ∨ code = 304) ∨
          (acc.contentLength.isSome = true ∧ acc.contentLength.getD 0 = 0)) = false := by
        refine decide_eq_false ?_
        rintro (h | ⟨h, -⟩)
        · exact hno h
        · rw [hnone] at h
          cases h
      refine ⟨⟨rfl, hnone, ?_, ?_, fun _ => rfl⟩, fun h => ?_⟩
      · simp
      · intro h
        rw [hdone] at h
        cases h
      · rw [hdone] at h
        cases h
  | false =>
      rw [if_neg Bool.false_ne_true]
      cases hlen : acc.contentLength with
      -- Neither field: the body ends with the connection.
      | none =>
          have hdone : decide ((code = 204 ∨ code = 304) ∨
              ((none : Option Nat).isSome = true ∧ (none : Option Nat).getD 0 = 0)) = false := by
            refine decide_eq_false ?_
            rintro (h | ⟨h, -⟩)
            · exact hno h
            · cases h
          refine ⟨⟨rfl, rfl, hdone⟩, fun h => ?_⟩
          rw [hdone] at h
          cases h
      -- A declared length of 0 is a body that is complete at once.
      | some n =>
          have hdone : decide ((code = 204 ∨ code = 304) ∨
              ((some n).isSome = true ∧ (some n).getD 0 = 0)) = true ↔ n ≤ 0 := by
            rw [decide_eq_true_iff]
            constructor
            · rintro (h | ⟨-, h⟩)
              · exact absurd h hno
              · exact h.le
            · exact fun h => Or.inr ⟨rfl, Nat.le_zero.1 h⟩
          refine ⟨⟨rfl, rfl, by simp, rfl, hdone⟩, fun h rest => ?_⟩
          have hzero : n = 0 := Nat.le_zero.1 (hdone.1 h)
          subst hzero
          exact ⟨⟨rfl, rfl, by simp, (Nat.zero_sub _).symm, ⟨fun _ => Nat.zero_le _, fun _ => h⟩⟩, rfl⟩

/-- `note_body` counts what was read and cuts the buffer at the end of the body. -/
theorem noteBody_framed {px px' : ProxyConn} {rest : List UInt8} {f : Frame}
    (h : Framed px rest f) (hdone : px.flags.bodyDone = false)
    (hnote : noteBody px px.buf.length = some px') :
    Framed px' (rest ++ px.buf) f ∧ f.cut rest ++ px'.buf = f.cut (rest ++ px.buf) := by
  unfold noteBody at hnote
  by_cases hnil : px.buf.length = 0
  · rw [if_pos (Or.inl hnil)] at hnote
    rw [← Option.some.inj hnote, List.length_eq_zero_iff.1 hnil, List.append_nil]
    exact ⟨h, List.append_nil _⟩
  rw [if_neg (by rw [hdone]; rintro (h | h); exacts [hnil h, nomatch h])] at hnote
  cases f with
  -- An empty body is complete before its first byte, and nothing is noted then.
  | empty =>
      have ht : px.flags.bodyDone = true := h
      rw [hdone] at ht
      cases ht
  -- Until the connection closes, every byte belongs to the body.
  | untilClose =>
      obtain ⟨hch, hcl, -⟩ := h
      rw [hch, hcl, if_neg Bool.false_ne_true, if_neg Bool.false_ne_true] at hnote
      rw [← Option.some.inj hnote]
      exact ⟨⟨hch, hcl, hdone⟩, rfl⟩
  | length n =>
      obtain ⟨hch, hcl, heof, hleft, hiff⟩ := h
      rw [hch, hcl, if_neg Bool.false_ne_true, if_pos rfl] at hnote
      rw [← Option.some.inj hnote]
      have hlt : rest.length < n := by
        refine Nat.lt_of_not_le fun hle => ?_
        have := hiff.2 hle
        rw [hdone] at this
        cases this
      -- What is left of the length was more than 0, so the cut is at the length.
      simp only
      refine ⟨⟨hch, hcl, heof, ?_, ?_⟩, ?_⟩
      · show px.respLeft - min px.buf.length px.respLeft = n - (rest ++ px.buf).length
        rw [hleft, List.length_append]
        omega
      · rw [beq_iff_eq, hleft, List.length_append]
        omega
      · show rest.take n ++ px.buf.take _ = (rest ++ px.buf).take n
        rw [List.take_append, List.take_of_length_le hlt.le, hleft]
        congr 1
        rcases Nat.le_total px.buf.length (n - rest.length) with hle | hle
        · rw [List.take_of_length_le (by omega), List.take_of_length_le hle]
        · congr 1
          omega
  | chunked =>
      obtain ⟨hch, hcl, heof, -, hscan⟩ := h
      obtain ⟨hmore, hchunk⟩ := Prod.mk.inj (hscan hdone)
      have hvalid : px.chunk.Valid := by
        rw [← hchunk]
        exact scanChunks_valid rest ChunkScan.start_valid
      rw [hch, if_pos rfl] at hnote
      simp only [sub32_eq le_rfl, Nat.sub_self, List.drop_zero,
        chunkFeed_eq_scanChunks hvalid] at hnote
      -- The scan goes on where it stopped, so the two pieces are scanned as one text.
      have happ := scanChunks_append rest px.buf .start hmore
      have hall := scanChunks_more rest .start hmore
      rw [hchunk] at happ
      have hle := scanChunks_le px.buf px.chunk
      split at hnote
      · cases hnote
      rename_i hbad
      rw [← Option.some.inj hnote]
      refine ⟨⟨hch, hcl, heof, ?_, ?_⟩, ?_⟩
      · intro hd
        rw [happ]
        exact eq_of_beq hd
      -- After the last chunk the scan ends, and what follows is cut off.
      · intro hd
        rw [happ]
        cases hs : (scanChunks px.chunk px.buf).2.1 with
        | more => exact Prod.ext hs rfl
        | bad => exact absurd hs hbad
        | done =>
            simp only [hs] at hd
            cases hd
      · show rest.take _ ++ _ = (rest ++ px.buf).take _
        rw [happ, hall, List.take_length, List.take_length_add_append]
        congr 1
        simp only
        split
        · rw [Nat.zero_add]
        · exact (List.take_of_length_le (by omega)).symm

/-! ## Heads and the body after them -/

/-- The response that `rewrite_response` makes of a final head. -/
structure Response where
  head : List UInt8
  frame : Frame
  keep : Bool
  deriving DecidableEq, Repr

/-- The first final head of a stream, with what follows it; interim heads are skipped. -/
def answerLoop (req : HttpRequest) : Nat → List UInt8 → Option (Response × List UInt8)
  | 0, _ => none
  | n + 1, s =>
      match findHdrEnd s with
      | none => none
      | some i =>
          match rewriteResponse req .zero (s.take (i + 4)) with
          | .bad => none
          | .skip => answerLoop req n (s.drop (i + 4))
          | .final px => some (⟨px.hdr, responseFrame req (s.take (i + 4)), px.flags.clientKeep⟩,
              s.drop (i + 4))

/-- The response in the bytes of an upstream, without the informational heads before
it, and the bytes after its head. -/
def answer (req : HttpRequest) (s : List UInt8) : Option (Response × List UInt8) :=
  answerLoop req s.length s

/-- The loop does not depend on its fuel. -/
theorem answerLoop_eq {req : HttpRequest} (n : Nat) : ∀ {m : Nat} {s : List UInt8},
    s.length ≤ n → s.length ≤ m → answerLoop req n s = answerLoop req m s := by
  induction n with
  | zero =>
      intro m s hn _
      rw [List.length_eq_zero_iff.1 (Nat.le_zero.1 hn)]
      cases m with
      | zero => rfl
      | succ m => rfl
  | succ n ih =>
      intro m s hn hm
      cases m with
      | zero =>
          rw [List.length_eq_zero_iff.1 (Nat.le_zero.1 hm)]
          rfl
      | succ m =>
          rw [answerLoop, answerLoop]
          cases hend : findHdrEnd s with
          | none => rfl
          | some i =>
              have hle := findHdrEnd_lt hend
              have hlen : (s.drop (i + 4)).length ≤ n ∧ (s.drop (i + 4)).length ≤ m := by
                rw [List.length_drop]
                omega
              simp only
              rw [ih hlen.1 hlen.2]

/-- An informational head is left out. -/
theorem answer_skip {req : HttpRequest} {s : List UInt8} {i : Nat} (hend : findHdrEnd s = some i)
    (hskip : rewriteResponse req .zero (s.take (i + 4)) = .skip) (t : List UInt8) :
    answer req (s ++ t) = answer req (s.drop (i + 4) ++ t) := by
  have hle := findHdrEnd_lt hend
  have happ := findHdrEnd_append t hend
  unfold answer
  cases hn : (s ++ t).length with
  | zero =>
      rw [List.length_append] at hn
      omega
  | succ n =>
      rw [answerLoop, happ]
      simp only
      rw [List.take_append_of_le_length hle, hskip, List.drop_append_of_le_length hle]
      refine answerLoop_eq n ?_ le_rfl
      rw [List.length_append] at hn
      rw [List.length_append, List.length_drop]
      omega

/-- The first final head is the answer. -/
theorem answer_final {req : HttpRequest} {s : List UInt8} {i : Nat} {px : ProxyConn}
    (hend : findHdrEnd s = some i)
    (hfinal : rewriteResponse req .zero (s.take (i + 4)) = .final px) (t : List UInt8) :
    answer req (s ++ t) =
      some (⟨px.hdr, responseFrame req (s.take (i + 4)), px.flags.clientKeep⟩,
        s.drop (i + 4) ++ t) := by
  have hle := findHdrEnd_lt hend
  have happ := findHdrEnd_append t hend
  unfold answer
  cases hn : (s ++ t).length with
  | zero =>
      rw [List.length_append] at hn
      omega
  | succ n =>
      rw [answerLoop, happ]
      simp only
      rw [List.take_append_of_le_length hle, hfinal, List.drop_append_of_le_length hle]

/-- Which heads are informational does not depend on the slot. -/
theorem rewriteResponse_skip_zero {req : HttpRequest} {px : ProxyConn} {src : List UInt8}
    (h : rewriteResponse req px src = .skip) : rewriteResponse req .zero src = .skip := by
  unfold rewriteResponse at h ⊢
  cases heol : findCrlf src with
  | none =>
      rw [heol] at h
      cases h
  | some eol =>
      rw [heol] at h
      simp only at h ⊢
      cases hcode : statusCode (src.take eol) with
      | none =>
          rw [hcode] at h
          cases h
      | some code =>
          rw [hcode] at h
          simp only at h ⊢
          split at h
          · rename_i hinfo
            rw [if_pos hinfo]
            exact h
          · -- A head of any other status is final or bad.
            exfalso
            split at h
            · cases h
            split at h
            · cases h
            unfold finishResponse at h
            split at h
            · cases h
            simp only at h
            split at h <;> cases h

/-- Nor does the head made of a final one, as long as no head was accepted before. -/
theorem rewriteResponse_final_zero {req : HttpRequest} {px px' : ProxyConn} {src : List UInt8}
    (hkeep : px.flags.clientKeep = false) (h : rewriteResponse req px src = .final px') :
    ∃ px₀, rewriteResponse req .zero src = .final px₀ ∧ px₀.hdr = px'.hdr ∧
      px₀.flags.clientKeep = px'.flags.clientKeep := by
  obtain ⟨eol, code, hdr, acc, heol, hcode, hinfo, happ, hlines, hfin⟩ := rewriteResponse_final h
  obtain ⟨hboth, hhdr, hpx⟩ := finishResponse_final hfin
  have hclient : px'.flags.clientKeep = httpShouldKeepalive req := by
    rw [hpx]
    show (px.flags.clientKeep || httpShouldKeepalive req) = _
    rw [hkeep, Bool.false_or]
  have hzero : (ProxyConn.zero.flags.clientKeep || httpShouldKeepalive req) =
      px'.flags.clientKeep := by
    rw [hclient]
    rfl
  unfold rewriteResponse
  rw [heol]
  simp only [hcode, if_neg hinfo, happ, hlines]
  unfold finishResponse
  rw [if_neg hboth]
  simp only [hzero, hhdr]
  exact ⟨_, rfl, rfl, rfl⟩

end TinyServer.Proxy
