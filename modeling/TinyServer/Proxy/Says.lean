import TinyServer.Proxy.Forwarded
import TinyServer.Proxy.HeadLines

/-!
# What a response says about its connection

A response that is kept or not says so in one Connection field of its head. What
follows the empty line of the head does not matter (`Says`).
-/

set_option autoImplicit false

namespace TinyServer.Proxy

open TinyServer.Http

/-- The text starts with a head whose one Connection field says whether the connection is
kept, whatever follows the text. -/
def Says (text : List UInt8) (keep : Bool) : Prop :=
  ∀ body, connectionValues (text ++ body) = [connectionValue keep]

/-- What a text says about the connection is in its head, so bytes after it change nothing. -/
theorem Says.append {text : List UInt8} {keep : Bool} (h : Says text keep) (s : List UInt8) :
    Says (text ++ s) keep := by
  intro body
  rw [List.append_assoc]
  exact h (s ++ body)

theorem responseFields_crlf_append (n : Nat) (body : List UInt8) :
    responseFields n (CRLF ++ body) = [] := by
  cases n with
  | zero => rfl
  | succ n => exact if_pos (Or.inr (List.prefix_append CRLF body))

/-- A name, a colon and a value on one line. -/
theorem headerLine_of {n v : List UInt8} (hne : n ≠ []) (hname : CR ∉ n)
    (hcolon : COLON ∉ n) (hvalue : CR ∉ v) :
    HeaderLine (n ++ COLON :: v ++ CRLF) (n, trimOws v) := by
  have hcr : CR ∉ n ++ COLON :: v := by
    intro h
    rcases List.mem_append.1 h with h | h
    · exact hname h
    · rcases List.mem_cons.1 h with h | h
      · exact absurd h (by decide)
      · exact hvalue h
  have heol := findCrlf_line [] hcr
  rw [List.append_nil] at heol
  have htake : (n ++ COLON :: v ++ CRLF).take (n ++ COLON :: v).length =
      n ++ COLON :: v := List.take_left
  refine ⟨?_, _, n.length, heol, List.length_append, ?_, ?_⟩
  · intro hp
    obtain ⟨c, cs, rfl⟩ := List.exists_cons_of_ne_nil hne
    rw [List.cons_append, List.cons_append, List.cons_prefix_cons] at hp
    exact hname (hp.1 ▸ List.mem_cons_self)
  · rw [htake]
    exact memchr_append_cons hcolon
  · rw [htake, List.append_assoc, List.take_left, ← List.drop_drop, List.drop_left]
    rfl

/-- The fields of a head are those of its lines. -/
theorem headFields_lines {first : List UInt8} (hfirst : CR ∉ first) {ls : List (List UInt8)}
    {fs : List (List UInt8 × List UInt8)} (h : List.Forall₂ HeaderLine ls fs)
    (body : List UInt8) : headFields (first ++ (CRLF ++ (ls.flatten ++ (CRLF ++ body)))) = fs := by
  have heol := findCrlf_line (ls.flatten ++ (CRLF ++ body)) hfirst
  have hdrop : (first ++ (CRLF ++ (ls.flatten ++ (CRLF ++ body)))).drop (first.length + 2) =
      ls.flatten ++ (CRLF ++ body) := by
    rw [← List.drop_drop, List.drop_left]
    rfl
  have hcount := lines_length_le h
  have hlen : ∃ n, (first ++ (CRLF ++ (ls.flatten ++ (CRLF ++ body)))).length = ls.length + n := by
    refine ⟨(first ++ (CRLF ++ (ls.flatten ++ (CRLF ++ body)))).length - ls.length, ?_⟩
    simp only [List.length_append]
    omega
  obtain ⟨n, hn⟩ := hlen
  unfold headFields
  rw [heol]
  simp only
  rw [hdrop, hn, responseFields_lines h, responseFields_crlf_append, List.append_nil]

/-! ## Heads that are put together -/

/-- A header line with the name and the value that are given. -/
def fieldLine (f : List UInt8 × List UInt8) : List UInt8 := f.1 ++ COLON :: f.2 ++ CRLF

/-- The name and the value stay on one line. -/
structure OnLine (f : List UInt8 × List UInt8) : Prop where
  name : f.1 ≠ []
  cr : CR ∉ f.1
  colon : COLON ∉ f.1
  value : CR ∉ f.2

/-- A head with the first line and the fields that are given. -/
def headOf (first : List UInt8) (fs : List (List UInt8 × List UInt8)) : List UInt8 :=
  first ++ (CRLF ++ ((fs.map fieldLine).flatten ++ CRLF))

section HeadOf

variable {first : List UInt8} {fs : List (List UInt8 × List UInt8)}

theorem fieldLines (h : ∀ f ∈ fs, OnLine f) :
    List.Forall₂ HeaderLine (fs.map fieldLine) (fs.map fun f => (f.1, trimOws f.2)) := by
  induction fs with
  | nil => exact .nil
  | cons f fs ih =>
      obtain ⟨hname, hcr, hcolon, hvalue⟩ := h f List.mem_cons_self
      exact .cons (headerLine_of hname hcr hcolon hvalue) (ih fun g hg => h g (List.mem_cons_of_mem f hg))

/-- The fields of a head written from single-line fields are those fields, trimmed. -/
theorem headFields_headOf (hfirst : CR ∉ first) (h : ∀ f ∈ fs, OnLine f) (body : List UInt8) :
    headFields (headOf first fs ++ body) = fs.map fun f => (f.1, trimOws f.2) := by
  unfold headOf
  simp only [List.append_assoc]
  exact headFields_lines hfirst (fieldLines h) body

/-- A head with one Connection line. -/
theorem Says.of_headOf {keep : Bool} (hfirst : CR ∉ first) (h : ∀ f ∈ fs, OnLine f)
    (hone : ((fs.map fun f => (f.1, trimOws f.2)).filter isConnection).map (·.2) =
      [connectionValue keep]) : Says (headOf first fs) keep := by
  intro body
  unfold connectionValues
  rw [headFields_headOf hfirst h body, hone]

end HeadOf

/-! ## A text that is given -/

/-- The lines of `p` end in an empty line. -/
def endsInEmptyLine : Nat → List UInt8 → Bool
  | 0, _ => false
  | n + 1, p =>
      if CRLF <+: p then true
      else
        match findCrlf p with
        | none => false
        | some eol =>
            match memchr (p.take eol) COLON with
            | none => false
            | some _ => endsInEmptyLine n (p.drop (eol + 2))

theorem findCrlf_append_some {p : List UInt8} {i : Nat} (body : List UInt8)
    (h : findCrlf p = some i) : findCrlf (p ++ body) = some i := by
  have hle := findCrlf_le h
  rw [← List.take_append_drop (i + 2) p, List.append_assoc]
  exact findCrlf_take_append _ h

/-- The scan stops at the empty line, so what follows the head is not read. -/
theorem responseFields_append {n : Nat} : ∀ {p : List UInt8}, endsInEmptyLine n p = true →
    ∀ (m : Nat) (body : List UInt8), n ≤ m → responseFields m (p ++ body) = responseFields n p := by
  induction n with
  | zero => exact fun h => by cases h
  | succ n ih =>
      intro p h m body hm
      obtain ⟨m, rfl⟩ : ∃ k, m = k + 1 := ⟨m - 1, by omega⟩
      rw [endsInEmptyLine] at h
      rw [responseFields, responseFields]
      by_cases hp : CRLF <+: p
      · rw [if_pos (Or.inr hp), if_pos (Or.inr (hp.trans (List.prefix_append p body)))]
      rw [if_neg hp] at h
      cases heol : findCrlf p with
      | none =>
          rw [heol] at h
          cases h
      | some eol =>
          rw [heol] at h
          have hle := findCrlf_le heol
          have hlen : ¬ (p.length < 2 ∨ CRLF <+: p) := by
            rintro (hshort | hcrlf)
            · omega
            · exact hp hcrlf
          have hlen' : ¬ ((p ++ body).length < 2 ∨ CRLF <+: p ++ body) := by
            rw [List.length_append]
            rintro (hshort | hcrlf)
            · omega
            · refine hp (List.prefix_of_prefix_length_le hcrlf (List.prefix_append p body) ?_)
              show 2 ≤ p.length
              omega
          have htake : (p ++ body).take eol = p.take eol :=
            List.take_append_of_le_length (by omega)
          rw [if_neg hlen, if_neg hlen', findCrlf_append_some body heol]
          simp only at h ⊢
          rw [htake]
          cases hcolon : memchr (p.take eol) COLON with
          | none => rw [hcolon] at h
          | some colon =>
              rw [hcolon] at h
              have hlt := memchr_lt hcolon
              rw [List.length_take] at hlt
              simp only at h ⊢
              rw [List.take_append_of_le_length (by omega), List.drop_append_of_le_length (by omega),
                ih h m body (by omega)]

/-- A check of a text that is given. -/
def saysCheck (text : List UInt8) (keep : Bool) : Bool :=
  match findCrlf text with
  | none => false
  | some eol =>
      endsInEmptyLine text.length (text.drop (eol + 2)) &&
        decide (connectionValues text = [connectionValue keep])

/-- What follows the empty line of a head adds no field. -/
theorem headFields_append {text : List UInt8} {eol : Nat} (heol : findCrlf text = some eol)
    (hends : endsInEmptyLine text.length (text.drop (eol + 2)) = true) (body : List UInt8) :
    headFields (text ++ body) = headFields text := by
  have hle := findCrlf_le heol
  unfold headFields
  rw [findCrlf_append_some body heol, heol]
  simp only
  rw [List.drop_append_of_le_length (by omega),
    responseFields_append hends _ body (by rw [List.length_append]; omega)]

/-- `saysCheck` decides what a text says, by running the client's own readers on it. -/
theorem Says.of_check {text : List UInt8} {keep : Bool} (h : saysCheck text keep = true) :
    Says text keep := by
  intro body
  unfold saysCheck at h
  cases heol : findCrlf text with
  | none =>
      rw [heol] at h
      cases h
  | some eol =>
      rw [heol] at h
      obtain ⟨hends, hvalues⟩ := Bool.and_eq_true_iff.1 h
      rw [← of_decide_eq_true hvalues]
      unfold connectionValues
      rw [headFields_append heol hends body]

end TinyServer.Proxy
