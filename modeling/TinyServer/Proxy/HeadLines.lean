import TinyServer.Http.Scanners
import TinyServer.Proxy.Framing

/-!
# The lines of a rewritten head

`rewrite_response` copies header lines one by one. A copied line is read back as the
field it was (`responseFields_line`), so the fields of the head made are those of the
head given, less the hop-by-hop ones, and one Connection field of its own
(`rewriteResponse_fields`).
-/

set_option autoImplicit false

namespace TinyServer.Proxy

open TinyServer.Http

/-- `l` is a header line with its CRLF, read as the field `f`. -/
structure HeaderLine (l : List UInt8) (f : List UInt8 × List UInt8) : Prop where
  nonempty : ¬ CRLF <+: l
  split : ∃ eol colon, findCrlf l = some eol ∧ l.length = eol + 2 ∧
    memchr (l.take eol) COLON = some colon ∧
    f = (l.take colon, trimOws ((l.take eol).drop (colon + 1)))

/-- A line end lies inside the text. -/
theorem findCrlf_le {p : List UInt8} : ∀ {i : Nat}, findCrlf p = some i → i + 2 ≤ p.length := by
  induction p with
  | nil => exact nofun
  | cons a p ih =>
      intro i h
      cases p with
      | nil => cases h
      | cons b p =>
          rw [findCrlf] at h
          split at h
          · rw [← Option.some.inj h]
            simp only [List.length_cons]
            omega
          · obtain ⟨j, hj, rfl⟩ := Option.map_eq_some_iff.1 h
            have := ih hj
            rw [List.length_cons]
            omega

/-- Only the bytes up to the end of the CRLF matter. -/
theorem findCrlf_take_append {p : List UInt8} (t : List UInt8) : ∀ {i : Nat},
    findCrlf p = some i → findCrlf (p.take (i + 2) ++ t) = some i := by
  induction p with
  | nil => exact nofun
  | cons a p ih =>
      intro i h
      cases p with
      | nil => cases h
      | cons b p =>
          rw [findCrlf] at h
          split at h
          · rename_i hab
            rw [← Option.some.inj h]
            exact if_pos hab
          · rename_i hab
            obtain ⟨j, hj, rfl⟩ := Option.map_eq_some_iff.1 h
            have hrest := ih hj
            show findCrlf (a :: ((b :: p).take (j + 2) ++ t)) = some (j + 1)
            rw [List.take_succ_cons, List.cons_append, findCrlf, if_neg hab,
              ← List.cons_append, ← List.take_succ_cons, hrest]
            rfl

/-- The line at the start of a range that the header loop goes on with. -/
theorem headerLine_take {p : List UInt8} {eol colon : Nat} (hstart : ¬ CRLF <+: p)
    (heol : findCrlf p = some eol) (hcolon : memchr (p.take eol) COLON = some colon) :
    HeaderLine (p.take (eol + 2))
      (p.take colon, trimOws ((p.take eol).drop (colon + 1))) := by
  have hle := findCrlf_le heol
  have hlt : colon < eol := by
    have h := memchr_lt hcolon
    rw [List.length_take] at h
    omega
  have htake : (p.take (eol + 2)).take eol = p.take eol := by
    rw [List.take_take]
    congr 1
    omega
  refine ⟨fun h => hstart (h.trans (List.take_prefix _ _)), eol, colon, ?_, ?_, ?_, ?_⟩
  · have h := findCrlf_take_append [] heol
    rw [List.append_nil] at h
    exact h
  · rw [List.length_take]
    omega
  · rw [htake]
    exact hcolon
  · rw [htake, List.take_take, Nat.min_eq_left (by omega)]

/-- A header line in front is the first field. -/
theorem responseFields_line {l t : List UInt8} {f : List UInt8 × List UInt8} (n : Nat)
    (h : HeaderLine l f) : responseFields (n + 1) (l ++ t) = f :: responseFields n t := by
  obtain ⟨eol, colon, heol, hlen, hcolon, rfl⟩ := h.split
  have hall : l.take (eol + 2) = l := List.take_of_length_le (by omega)
  have heol' : findCrlf (l ++ t) = some eol := by
    have hline := findCrlf_take_append t heol
    rw [hall] at hline
    exact hline
  have hcrlf : ¬ CRLF <+: l ++ t := by
    intro hp
    refine h.nonempty (List.prefix_of_prefix_length_le hp (List.prefix_append l t) ?_)
    show 2 ≤ l.length
    omega
  have hend : ¬ ((l ++ t).length < 2 ∨ CRLF <+: l ++ t) := by
    rw [List.length_append]
    rintro (h | h)
    · omega
    · exact hcrlf h
  have hlt : colon ≤ l.length := by
    have h := memchr_lt hcolon
    rw [List.length_take] at h
    omega
  have htake : (l ++ t).take eol = l.take eol := List.take_append_of_le_length (by omega)
  have hdrop : (l ++ t).drop (eol + 2) = t := by
    rw [← hlen, List.drop_left]
  rw [responseFields, if_neg hend, heol']
  simp only
  rw [htake, hcolon]
  simp only
  rw [List.take_append_of_le_length hlt, hdrop]

/-- The fields of some lines are read in order. -/
theorem responseFields_lines {ls : List (List UInt8)} {fs : List (List UInt8 × List UInt8)}
    (h : List.Forall₂ HeaderLine ls fs) (n : Nat) (t : List UInt8) :
    responseFields (ls.length + n) (ls.flatten ++ t) = fs ++ responseFields n t := by
  induction h with
  | nil => rw [List.length_nil, Nat.zero_add]; rfl
  | @cons l f ls fs hl _ ih =>
      rw [List.length_cons, List.flatten_cons, List.append_assoc,
        show ls.length + 1 + n = ls.length + n + 1 by omega, responseFields_line _ hl, ih]
      rfl

/-- Every line has a byte. -/
theorem lines_length_le {ls : List (List UInt8)} {fs : List (List UInt8 × List UInt8)}
    (h : List.Forall₂ HeaderLine ls fs) : ls.length ≤ ls.flatten.length := by
  induction h with
  | nil => exact Nat.zero_le _
  | cons hl _ ih =>
      obtain ⟨eol, colon, -, hlen, -, -⟩ := hl.split
      rw [List.length_cons, List.flatten_cons, List.length_append]
      omega

/-- The lines the header loop copies, as fields. -/
theorem responseLines_copied (n : Nat) : ∀ {p : List UInt8} {acc acc' : ResponseLines},
    responseLines n p acc = some acc' →
      ∃ ls, List.Forall₂ HeaderLine ls
          ((responseFields n p).filter fun f => !hopByHop f.1 false) ∧
        acc'.hdr = acc.hdr ++ ls.flatten := by
  induction n with
  | zero =>
      intro p acc acc' h
      cases h
      exact ⟨[], .nil, (List.append_nil _).symm⟩
  | succ n ih =>
      intro p acc acc' h
      rw [responseLines] at h
      rw [responseFields]
      split at h
      · rename_i hend
        cases h
        rw [if_pos hend]
        exact ⟨[], .nil, (List.append_nil _).symm⟩
      rename_i hend
      rw [if_neg hend]
      rcases Option.eq_none_or_eq_some (findCrlf p) with heol | ⟨eol, heol⟩
      · rw [heol] at h
        cases h
      rw [heol] at h ⊢
      simp only at h ⊢
      rcases Option.eq_none_or_eq_some (memchr (p.take eol) COLON) with hcolon | ⟨colon, hcolon⟩
      · rw [hcolon] at h
        cases h
      rw [hcolon] at h
      rw [hcolon]
      simp only at h ⊢
      split at h
      · cases h
      rename_i acc₁ hline
      have hhdr := responseLine_hdr hline
      split at h
      · rename_i hhop
        obtain ⟨ls, hls, hout⟩ := ih h
        rw [List.filter_cons_of_neg (by rw [hhop]; decide)]
        exact ⟨ls, hls, by rw [hout, hhdr]⟩
      rename_i hhop
      split at h
      · cases h
      rename_i hdr happ
      obtain ⟨ls, hls, hout⟩ := ih h
      rw [List.filter_cons_of_pos (by rw [Bool.eq_false_iff.2 hhop]; rfl)]
      refine ⟨p.take (eol + 2) :: ls, .cons ?_ hls, ?_⟩
      · exact headerLine_take (fun hp => hend (Or.inr hp)) heol hcolon
      · rw [hout]
        show hdr ++ ls.flatten = _
        rw [(appendBytes_some happ).1, hhdr, List.flatten_cons, List.append_assoc]

/-! ## The Connection field -/

/-- A Connection field. -/
def isConnection (field : List UInt8 × List UInt8) : Bool :=
  decide (field.1.length = 10 ∧ ieq field.1 (cstr "connection"))

/-- The values of the Connection fields of a head. -/
def connectionValues (head : List UInt8) : List (List UInt8) :=
  ((headFields head).filter isConnection).map (·.2)

/-- The value of the Connection line of an answer after which the client is kept, or
not. -/
def connectionValue (keep : Bool) : List UInt8 :=
  if keep then cstr "keep-alive" else cstr "close"

/-- The line that ends a head made by `rewrite_response`. -/
theorem connectionLine (keep : Bool) : ∃ l, HeaderLine l (cstr "Connection", connectionValue keep) ∧
    (if keep then CONNECTION_KEEP else CONNECTION_CLOSE) = l ++ CRLF := by
  cases keep with
  | true =>
      refine ⟨cstr "Connection: keep-alive" ++ CRLF, ⟨by decide, 22, 10, ?_⟩, by decide⟩
      exact ⟨by decide, by decide, by decide, by decide⟩
  | false =>
      refine ⟨cstr "Connection: close" ++ CRLF, ⟨by decide, 17, 10, ?_⟩, by decide⟩
      exact ⟨by decide, by decide, by decide, by decide⟩

theorem responseFields_crlf (n : Nat) : responseFields n CRLF = [] := by
  cases n with
  | zero => rfl
  | succ n => rfl

/-- A hop-by-hop filter leaves no Connection field. -/
theorem hopByHop_of_connection {f : List UInt8 × List UInt8} (h : isConnection f = true) :
    hopByHop f.1 false = true := by
  unfold hopByHop
  rw [if_pos (of_decide_eq_true h)]

/-- The fields of the head made: those given, less the hop-by-hop ones, and the
Connection field at the end. -/
theorem rewriteResponse_fields {req : HttpRequest} {px px' : ProxyConn} {src : List UInt8}
    (h : rewriteResponse req px src = .final px') :
    headFields px'.hdr = ((headFields src).filter fun f => !hopByHop f.1 false) ++
      [(cstr "Connection", connectionValue px'.flags.clientKeep)] := by
  obtain ⟨eol, code, hdr, acc, heol, -, -, happ, hlines, hfin⟩ := rewriteResponse_final h
  obtain ⟨-, hhdr, -⟩ := finishResponse_final hfin
  obtain ⟨ls, hls, hout⟩ := responseLines_copied _ hlines
  obtain ⟨l, hl, hconn⟩ := connectionLine px'.flags.clientKeep
  have hfirst : hdr = src.take (eol + 2) := by
    have h := (appendBytes_some happ).1
    rw [List.nil_append] at h
    exact h
  have hle := findCrlf_le heol
  have hall : px'.hdr = src.take (eol + 2) ++ (ls.flatten ++ (l ++ CRLF)) := by
    rw [(appendBytes_some hhdr).1, hconn, hout]
    show hdr ++ ls.flatten ++ (l ++ CRLF) = _
    rw [hfirst, List.append_assoc]
  have hlen : (src.take (eol + 2)).length = eol + 2 := by
    rw [List.length_take]
    omega
  have hrest : px'.hdr.drop (eol + 2) = ls.flatten ++ (l ++ CRLF) := by
    rw [hall, List.drop_append_of_le_length (by omega), List.drop_eq_nil_of_le (by omega),
      List.nil_append]
  have hcount : ls.length + 1 ≤ px'.hdr.length := by
    have hflat : ls.length ≤ ls.flatten.length := lines_length_le hls
    rw [hall, List.length_append, List.length_append, List.length_append]
    show _ ≤ _ + (_ + (l.length + 2))
    omega
  obtain ⟨n, hn⟩ : ∃ n, px'.hdr.length = ls.length + (n + 1) :=
    ⟨px'.hdr.length - (ls.length + 1), by omega⟩
  have hsrc : headFields src = responseFields src.length (src.drop (eol + 2)) := by
    unfold headFields
    rw [heol]
  have heol' : findCrlf px'.hdr = some eol := by
    rw [hall]
    exact findCrlf_take_append _ heol
  unfold headFields at hsrc ⊢
  rw [heol']
  simp only
  rw [hrest, hn, responseFields_lines hls, responseFields_line _ hl, responseFields_crlf, hsrc]

/-- The head made says that the client is kept exactly when it is. -/
theorem rewriteResponse_connection {req : HttpRequest} {px px' : ProxyConn} {src : List UInt8}
    (h : rewriteResponse req px src = .final px') :
    connectionValues px'.hdr = [connectionValue px'.flags.clientKeep] := by
  unfold connectionValues
  rw [rewriteResponse_fields h, List.filter_append, List.filter_filter]
  have hnone : (headFields src).filter (fun f => isConnection f && !hopByHop f.1 false) = [] := by
    refine List.filter_eq_nil_iff.2 fun f _ hf => ?_
    obtain ⟨hc, hh⟩ := Bool.and_eq_true_iff.1 hf
    rw [hopByHop_of_connection hc] at hh
    cases hh
  rw [hnone, List.nil_append]
  rfl

/-! ## The head of an answer -/

/-- An answer comes from a head that `rewrite_response` accepts. -/
theorem answerLoop_final {req : HttpRequest} {r : Response} {rest : List UInt8} (n : Nat) :
    ∀ {s : List UInt8}, answerLoop req n s = some (r, rest) →
      ∃ src px, rewriteResponse req .zero src = .final px ∧
        r = ⟨px.hdr, responseFrame req src, px.flags.clientKeep⟩ := by
  induction n with
  | zero => exact nofun
  | succ n ih =>
      intro s h
      rw [answerLoop] at h
      split at h
      · cases h
      split at h
      · cases h
      · exact ih h
      · rename_i hfinal
        cases h
        exact ⟨_, _, hfinal, rfl⟩

/-- Whether the client is kept is decided by the request alone, and the head says it. -/
theorem answer_keep {req : HttpRequest} {s : List UInt8} {r : Response} {rest : List UInt8}
    (h : answer req s = some (r, rest)) :
    r.keep = httpShouldKeepalive req ∧ connectionValues r.head = [connectionValue r.keep] := by
  obtain ⟨src, px, hfinal, rfl⟩ := answerLoop_final _ h
  refine ⟨?_, rewriteResponse_connection hfinal⟩
  obtain ⟨eol, code, hdr, acc, -, -, -, -, -, hfin⟩ := rewriteResponse_final hfinal
  have hpx := (finishResponse_final hfin).2.2
  show px.flags.clientKeep = _
  rw [hpx]
  rfl

end TinyServer.Proxy
