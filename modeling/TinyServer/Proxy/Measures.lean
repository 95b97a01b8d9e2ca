import TinyServer.Proxy.Says

/-!
# What a response says about its length

A response that is not relayed declares the length of its body in one Content-Length, and
nothing else in its head frames the body (`Measures`). A client finds the end of the body
there, whatever follows it (`Measures.frame`).
-/

set_option autoImplicit false

namespace TinyServer.Proxy

open TinyServer.Http

/-- The text is a head that declares a body of `n` bytes, whatever follows the text. -/
structure Measures (text : List UInt8) (n : Nat) : Prop where
  ends : findHdrEnd text = some (text.length - 4)
  status : ∀ body, headStatus (text ++ body) ≠ 204 ∧ headStatus (text ++ body) ≠ 304
  plain : ∀ body, (headFields (text ++ body)).any isTransferEncoding = false
  length : ∀ body, declaredLength (headFields (text ++ body)) = some n

/-- The body of the response is what its head declares. -/
theorem Measures.frame {text : List UInt8} {n : Nat} (h : Measures text n) (req : HttpRequest)
    (body : List UInt8) :
    responseFrame req (text ++ body) = if req.method = .head then .empty else .length n := by
  obtain ⟨h204, h304⟩ := h.status body
  unfold responseFrame
  by_cases hhead : req.method = .head
  · rw [if_pos hhead, if_pos (Or.inl hhead)]
  · have hno : ¬ (req.method = .head ∨ headStatus (text ++ body) = 204 ∨
        headStatus (text ++ body) = 304) := by
      rintro (h | h | h)
      · exact hhead h
      · exact h204 h
      · exact h304 h
    rw [if_neg hhead, if_neg hno, h.plain body, if_neg Bool.false_ne_true, h.length body]

/-! ## Where a head ends -/

section Ends

variable {l t : List UInt8}

/-- A head does not end at another character. -/
theorem not_headEnd_of_ne {c : UInt8} {p : List UInt8} (h : c ≠ CR) : ¬ (CRLF ++ CRLF) <+: c :: p :=
  fun hp => h (List.cons_prefix_cons.1 hp).1.symm

theorem findHdrEnd_cons_of_ne {c : UInt8} {p : List UInt8} (h : c ≠ CR) :
    findHdrEnd (c :: p) = (findHdrEnd p).map (· + 1) := by
  rw [findHdrEnd, if_neg (not_headEnd_of_ne h)]

/-- An empty line behind the first one. -/
theorem findHdrEnd_last (h : CR ∉ l) (body : List UInt8) :
    findHdrEnd (l ++ (CRLF ++ (CRLF ++ body))) = some l.length := by
  induction l with
  | nil =>
      have hnow : (CRLF ++ CRLF) <+: CRLF ++ (CRLF ++ body) := by
        rw [← List.append_assoc]
        exact List.prefix_append _ _
      exact if_pos hnow
  | cons c l ih =>
      rw [List.mem_cons, not_or] at h
      rw [List.cons_append, findHdrEnd_cons_of_ne (Ne.symm h.1), ih h.2]
      rfl

/-- A line in front. -/
theorem findHdrEnd_line (h : CR ∉ l) (ht : ¬ CRLF <+: t) :
    findHdrEnd (l ++ (CRLF ++ t)) = (findHdrEnd t).map (· + (l.length + 2)) := by
  induction l with
  | nil =>
      have hnot : ¬ (CRLF ++ CRLF) <+: CR :: LF :: t := by
        show ¬ (CRLF ++ CRLF) <+: CRLF ++ t
        rw [List.prefix_append_right_inj]
        exact ht
      have hlf : findHdrEnd (LF :: t) = (findHdrEnd t).map (· + 1) :=
        findHdrEnd_cons_of_ne (by decide)
      rw [List.nil_append, show CRLF ++ t = CR :: LF :: t from rfl, findHdrEnd, if_neg hnot, hlf,
        Option.map_map]
      rfl
  | cons c l ih =>
      rw [List.mem_cons, not_or] at h
      rw [List.cons_append, findHdrEnd_cons_of_ne (Ne.symm h.1), ih h.2, Option.map_map]
      rfl

end Ends

/-! ## Heads that are put together -/

section HeadOf

variable {first : List UInt8} {fs : List (List UInt8 × List UInt8)}

/-- A field line does not begin with a line end. -/
theorem fieldLine_start {f : List UInt8 × List UInt8} (h : OnLine f) (t : List UInt8) :
    ¬ CRLF <+: fieldLine f ++ t := by
  obtain ⟨c, cs, hname⟩ := List.exists_cons_of_ne_nil h.name
  unfold fieldLine
  rw [hname, List.cons_append, List.cons_append, List.cons_append, CRLF, List.cons_prefix_cons]
  rintro ⟨rfl, -⟩
  apply h.cr
  rw [hname]
  exact List.mem_cons_self

/-- The head ends behind its last line. -/
theorem findHdrEnd_headOf (hfirst : CR ∉ first) (h : ∀ f ∈ fs, OnLine f) :
    findHdrEnd (headOf first fs) = some ((headOf first fs).length - 4) := by
  induction fs generalizing first with
  | nil =>
      have hlast := findHdrEnd_last hfirst []
      rw [List.append_nil] at hlast
      refine hlast.trans (congrArg some ?_)
      simp [headOf, CRLF]
  | cons f fs ih =>
      have hf := h f List.mem_cons_self
      have hcr : CR ∉ f.1 ++ COLON :: f.2 := by
        intro hmem
        rcases List.mem_append.1 hmem with hmem | hmem
        · exact hf.cr hmem
        · rcases List.mem_cons.1 hmem with hmem | hmem
          · exact absurd hmem (by decide)
          · exact hf.value hmem
      have hrest := ih hcr fun g hg => h g (List.mem_cons_of_mem f hg)
      -- The first field is the first line of what is left.
      have htail : ((f :: fs).map fieldLine).flatten ++ CRLF = headOf (f.1 ++ COLON :: f.2) fs := by
        simp [headOf, fieldLine]
      have hsplit : headOf first (f :: fs) = first ++ (CRLF ++ headOf (f.1 ++ COLON :: f.2) fs) := by
        rw [← htail]
        rfl
      have hstart : ¬ CRLF <+: headOf (f.1 ++ COLON :: f.2) fs := by
        rw [← htail, List.map_cons, List.flatten_cons, List.append_assoc]
        exact fieldLine_start hf _
      have hlen : 4 ≤ (headOf (f.1 ++ COLON :: f.2) fs).length := by
        simp [headOf, CRLF]
        omega
      rw [hsplit, findHdrEnd_line hfirst hstart, hrest, Option.map_some]
      congr 1
      rw [List.length_append, List.length_append]
      have hcrlf : CRLF.length = 2 := rfl
      omega

/-- The status of a head is that of its first line, whatever follows the head. -/
theorem headStatus_headOf (hfirst : CR ∉ first) (body : List UInt8) :
    headStatus (headOf first fs ++ body) = (statusCode first).getD 0 := by
  unfold headStatus headOf
  rw [List.append_assoc, List.append_assoc, findCrlf_line _ hfirst]
  simp only [List.take_left]

/-- A head whose only framing field is the Content-Length. -/
theorem Measures.of_headOf {n : Nat} (hfirst : CR ∉ first) (h : ∀ f ∈ fs, OnLine f)
    (hstatus : (statusCode first).getD 0 ≠ 204 ∧ (statusCode first).getD 0 ≠ 304)
    (hplain : (fs.map fun f => (f.1, trimOws f.2)).any isTransferEncoding = false)
    (hlength : declaredLength (fs.map fun f => (f.1, trimOws f.2)) = some n) :
    Measures (headOf first fs) n := by
  refine ⟨findHdrEnd_headOf hfirst h, fun body => ?_, fun body => ?_, fun body => ?_⟩
  · rw [headStatus_headOf hfirst body]
    exact hstatus
  · rw [headFields_headOf hfirst h body]
    exact hplain
  · rw [headFields_headOf hfirst h body]
    exact hlength

end HeadOf

/-! ## A text that is given -/

/-- A check of a text that is given. -/
def measuresCheck (text : List UInt8) (n : Nat) : Bool :=
  match findCrlf text with
  | none => false
  | some eol =>
      endsInEmptyLine text.length (text.drop (eol + 2)) &&
        decide (findHdrEnd text = some (text.length - 4)) &&
        decide (headStatus text ≠ 204 ∧ headStatus text ≠ 304) &&
        decide ((headFields text).any isTransferEncoding = false) &&
        decide (declaredLength (headFields text) = some n)

/-- The check is enough for a text. -/
theorem Measures.of_check {text : List UInt8} {n : Nat} (h : measuresCheck text n = true) :
    Measures text n := by
  unfold measuresCheck at h
  cases heol : findCrlf text with
  | none =>
      rw [heol] at h
      cases h
  | some eol =>
      rw [heol] at h
      simp only [Bool.and_eq_true, decide_eq_true_eq] at h
      obtain ⟨⟨⟨⟨hempty, hends⟩, hstatus⟩, hplain⟩, hlength⟩ := h
      have hfields : ∀ body, headFields (text ++ body) = headFields text :=
        headFields_append heol hempty
      have hle := findCrlf_le heol
      refine ⟨hends, fun body => ?_, fun body => ?_, fun body => ?_⟩
      · have hsame : headStatus (text ++ body) = headStatus text := by
          unfold headStatus
          rw [findCrlf_append_some body heol, heol]
          simp only
          rw [List.take_append_of_le_length (by omega)]
        rw [hsame]
        exact hstatus
      · rw [hfields body]
        exact hplain
      · rw [hfields body]
        exact hlength

end TinyServer.Proxy
