import TinyServer.Proxy.HeadLines
import TinyServer.Proxy.Reparsed

/-!
# A response head, rewritten again

`rewrite_response` reads the framing of a response while it drops and copies lines.
`HeadCut` is a head cut at its line ends, `foldLines` is the header loop on such lines, and
both are what the loop computes on the bytes. Since a dropped line never carries framing,
the head made has the framing of the head given (`rewriteResponse_again`).
-/

set_option autoImplicit false

namespace TinyServer.Proxy

open TinyServer.Http

/-! ## Lines -/

/-- A CRLF ends a line at its first occurrence. -/
theorem findCrlf_clean {l : List UInt8} (t : List UInt8) (h : ¬ CRLF <:+: l) :
    findCrlf (l ++ (CRLF ++ t)) = some l.length := by
  induction l with
  | nil => rfl
  | cons c l ih =>
      have hrest := ih fun hi => h (List.infix_cons hi)
      cases l with
      | nil =>
          have hne : ¬ (c = CR ∧ CR = LF) := fun hc => absurd hc.2 (by decide)
          show (if c = CR ∧ CR = LF then some 0 else (findCrlf (CRLF ++ t)).map (· + 1)) = _
          rw [if_neg hne]
          rfl
      | cons d l =>
          have hne : ¬ (c = CR ∧ d = LF) := by
            rintro ⟨rfl, rfl⟩
            exact h (List.prefix_append CRLF l).isInfix
          rw [List.cons_append, List.cons_append, findCrlf, if_neg hne]
          rw [List.cons_append] at hrest
          rw [hrest]
          rfl

/-- A line end that is found is the first. -/
theorem findCrlf_split {s : List UInt8} : ∀ {i : Nat}, findCrlf s = some i →
    ∃ l t, s = l ++ (CRLF ++ t) ∧ l.length = i ∧ ¬ CRLF <:+: l := by
  induction s with
  | nil =>
      intro _ h
      cases h
  | cons c s ih =>
      intro i h
      cases s with
      | nil => cases h
      | cons d s =>
          rw [findCrlf] at h
          split at h
          · rename_i hcd
            obtain ⟨rfl, rfl⟩ := hcd
            refine ⟨[], s, rfl, Option.some.inj h, ?_⟩
            rw [List.infix_nil]
            rintro ⟨⟩
          · rename_i hcd
            obtain ⟨j, hj, rfl⟩ := Option.map_eq_some_iff.1 h
            obtain ⟨l, t, hs, hlen, hclean⟩ := ih hj
            refine ⟨c :: l, t, ?_, ?_, ?_⟩
            · rw [List.cons_append, ← hs]
            · rw [List.length_cons, hlen]
            · intro hi
              rcases List.infix_cons_iff.1 hi with hp | hi
              · -- A CRLF at the front would be the one the search passed over.
                obtain ⟨u, hu⟩ := hp
                have hl : l = LF :: u := (List.cons.inj hu).2.symm
                rw [hl] at hs
                exact hcd ⟨(List.cons.inj hu).1.symm, (List.cons.inj hs).1⟩
              · exact hclean hi

/-- A line that the header loop goes on with. -/
structure IsLine (l : List UInt8) : Prop where
  ne_nil : l ≠ []
  clean : ¬ CRLF <:+: l

/-- What ends the header loop. -/
def EndsLines (rest : List UInt8) : Prop := rest.length < 2 ∨ CRLF <+: rest

/-- Lines with their line ends. -/
def block (ls : List (List UInt8)) : List UInt8 := ls.flatMap (· ++ CRLF)

theorem block_cons (l : List UInt8) (ls : List (List UInt8)) :
    block (l :: ls) = l ++ CRLF ++ block ls := List.flatMap_cons

theorem block_append (ls ms : List (List UInt8)) : block (ls ++ ms) = block ls ++ block ms :=
  List.flatMap_append

theorem length_le_block (ls : List (List UInt8)) : ls.length ≤ (block ls).length := by
  induction ls with
  | nil => exact le_rfl
  | cons l ls ih =>
      rw [block_cons, List.length_append, List.length_append, List.length_cons]
      show _ ≤ l.length + 2 + _
      omega

/-- Two characters behind a line are not its line end. -/
theorem IsLine.not_ends {l : List UInt8} (h : IsLine l) (t : List UInt8) :
    ¬ EndsLines (l ++ (CRLF ++ t)) := by
  rintro (hlen | hp)
  · rw [List.length_append, List.length_append] at hlen
    have htwo : CRLF.length = 2 := rfl
    omega
  · obtain ⟨c, m, rfl⟩ := List.exists_cons_of_ne_nil h.ne_nil
    cases m with
    | nil =>
        obtain ⟨u, hu⟩ := hp
        exact absurd (List.cons.inj (List.cons.inj hu).2).1 (by decide)
    | cons d m =>
        refine h.clean (List.prefix_of_prefix_length_le hp (List.prefix_append _ _) ?_).isInfix
        show 2 ≤ (c :: d :: m).length
        rw [List.length_cons, List.length_cons]
        omega

/-- Bytes are cut into lines in one way. -/
theorem block_unique (ls : List (List UInt8)) : ∀ {ms : List (List UInt8)} {r t : List UInt8},
    (∀ l ∈ ls, IsLine l) → (∀ m ∈ ms, IsLine m) → EndsLines r → EndsLines t →
      block ls ++ r = block ms ++ t → ls = ms := by
  have hcons : ∀ (l : List UInt8) (ls : List (List UInt8)) (r : List UInt8),
      block (l :: ls) ++ r = l ++ (CRLF ++ (block ls ++ r)) := by
    intro l ls r
    rw [block_cons, List.append_assoc, List.append_assoc]
  induction ls with
  | nil =>
      intro ms r t _ hms hr _ h
      cases ms with
      | nil => rfl
      | cons m ms =>
          rw [hcons] at h
          refine absurd ?_ ((hms m List.mem_cons_self).not_ends (block ms ++ t))
          rw [← h]
          exact hr
  | cons l ls ih =>
      intro ms r t hls hms hr ht h
      have hl := hls l List.mem_cons_self
      cases ms with
      | nil =>
          rw [hcons] at h
          refine absurd ?_ (hl.not_ends (block ls ++ r))
          rw [h]
          exact ht
      | cons m ms =>
          have hm := hms m List.mem_cons_self
          rw [hcons, hcons] at h
          have hlen : l.length = m.length := by
            have hfind := findCrlf_clean (block ls ++ r) hl.clean
            rw [h, findCrlf_clean _ hm.clean] at hfind
            exact (Option.some.inj hfind).symm
          obtain ⟨rfl, hrest⟩ := List.append_inj h hlen
          rw [ih (fun x hx => hls x (List.mem_cons_of_mem _ hx))
            (fun x hx => hms x (List.mem_cons_of_mem _ hx)) hr ht (List.append_cancel_left hrest)]

/-- The text of a header line before its colon. -/
def lineName (l : List UInt8) : List UInt8 := l.takeWhile (· != COLON)

/-- The value of a header line, without the white space around it. -/
def lineValue (l : List UInt8) : List UInt8 := trimOws (l.drop ((lineName l).length + 1))

/-- The name of a line ends at its first colon. -/
theorem memchr_colon {l : List UInt8} (h : COLON ∈ l) :
    memchr l COLON = some (lineName l).length ∧ l.take (lineName l).length = lineName l := by
  induction l with
  | nil => cases h
  | cons c l ih =>
      by_cases hc : c = COLON
      · subst hc
        exact ⟨rfl, rfl⟩
      · have hname : lineName (c :: l) = c :: lineName l := by
          apply List.takeWhile_cons_of_pos
          simpa using hc
        obtain ⟨hfind, htake⟩ := ih ((List.mem_cons.1 h).resolve_left fun e => hc e.symm)
        rw [hname]
        refine ⟨?_, ?_⟩
        · have hstep : memchr (c :: l) COLON = (memchr l COLON).map (· + 1) := by
            simp [memchr, List.idxOf?_cons, hc]
          rw [hstep, hfind]
          rfl
        · rw [List.length_cons, List.take_succ_cons, htake]

/-! ## The header loop on lines -/

/-- Whether a header line is copied. -/
def keptLine (l : List UInt8) : Bool := !hopByHop (lineName l) false

/-- The header loop of `rewrite_response`, line by line. -/
def foldLines : List (List UInt8) → ResponseLines → Option ResponseLines
  | [], acc => some acc
  | l :: ls, acc =>
      (responseLine (lineName l) (lineValue l) acc).bind fun acc =>
        if keptLine l then
          (appendBytes acc.hdr (l ++ CRLF)).bind fun hdr => foldLines ls { acc with hdr := hdr }
        else foldLines ls acc

/-- One turn of the loop takes one line. -/
theorem responseLines_cons {l : List UInt8} (hl : IsLine l) (hcolon : COLON ∈ l) (n : Nat)
    (t : List UInt8) (acc : ResponseLines) : responseLines (n + 1) (l ++ (CRLF ++ t)) acc =
      (responseLine (lineName l) (lineValue l) acc).bind fun acc =>
        if keptLine l then
          (appendBytes acc.hdr (l ++ CRLF)).bind fun hdr => responseLines n t { acc with hdr := hdr }
        else responseLines n t acc := by
  obtain ⟨hfind, htake⟩ := memchr_colon hcolon
  have hle : (lineName l).length ≤ l.length := (memchr_lt hfind).le
  have hname : (l ++ (CRLF ++ t)).take (lineName l).length = lineName l := by
    rw [List.take_append_of_le_length hle, htake]
  have hdrop : (l ++ (CRLF ++ t)).drop (l.length + 2) = t := by
    rw [← List.drop_drop, List.drop_left]
    rfl
  have hcopy : (l ++ (CRLF ++ t)).take (l.length + 2) = l ++ CRLF := by
    rw [List.take_length_add_append]
    rfl
  have hne : ¬ ((l ++ (CRLF ++ t)).length < 2 ∨ CRLF <+: l ++ (CRLF ++ t)) := hl.not_ends t
  rw [responseLines, if_neg hne, findCrlf_clean t hl.clean]
  simp only [List.take_left, hfind, hname, hdrop, hcopy]
  have hvalue : trimOws (l.drop ((lineName l).length + 1)) = lineValue l := rfl
  rw [hvalue]
  cases responseLine (lineName l) (lineValue l) acc with
  | none => rfl
  | some acc =>
      simp only [Option.bind_some]
      unfold keptLine
      cases hopByHop (lineName l) false with
      | true => rfl
      | false =>
          cases appendBytes acc.hdr (l ++ CRLF) <;> rfl

/-- The loop over the lines of a response takes them one by one. -/
theorem responseLines_block (ls : List (List UInt8)) : ∀ {n : Nat} {rest : List UInt8}
    (acc : ResponseLines), (∀ l ∈ ls, IsLine l ∧ COLON ∈ l) → EndsLines rest → ls.length < n →
      responseLines n (block ls ++ rest) acc = foldLines ls acc := by
  induction ls with
  | nil =>
      intro n rest acc _ hrest hn
      cases n with
      | zero => cases hn
      | succ n =>
          have hstop : rest.length < 2 ∨ CRLF <+: rest := hrest
          show responseLines (n + 1) rest acc = some acc
          rw [responseLines, if_pos hstop]
  | cons l ls ih =>
      intro n rest acc hls hrest hn
      cases n with
      | zero => cases hn
      | succ n =>
          obtain ⟨hl, hcolon⟩ := hls l List.mem_cons_self
          have hlt : ls.length < n := by
            rw [List.length_cons] at hn
            omega
          have hrec : ∀ acc, responseLines n (block ls ++ rest) acc = foldLines ls acc :=
            fun acc => ih acc (fun x hx => hls x (List.mem_cons_of_mem l hx)) hrest hlt
          rw [block_cons, List.append_assoc, List.append_assoc, responseLines_cons hl hcolon]
          simp only [hrec]
          rfl

/-- A loop that comes to its end has cut the bytes into lines. -/
theorem responseLines_cut (n : Nat) : ∀ {p : List UInt8} {acc acc' : ResponseLines},
    p.length < n → responseLines n p acc = some acc' →
      ∃ ls rest, p = block ls ++ rest ∧ EndsLines rest ∧ (∀ l ∈ ls, IsLine l ∧ COLON ∈ l) ∧
        foldLines ls acc = some acc' := by
  -- Each turn takes one line, and the rest is shorter by at least its CRLF.
  induction n with
  | zero => exact fun hn => absurd hn (Nat.not_lt_zero _)
  | succ n ih =>
      intro p acc acc' hn h
      -- The scan ends at an empty line, or where fewer than two bytes are left.
      by_cases hend : p.length < 2 ∨ CRLF <+: p
      · rw [responseLines, if_pos hend] at h
        exact ⟨[], p, rfl, hend, fun _ hl => absurd hl List.not_mem_nil, h⟩
      · have hfind : ∃ eol colon, findCrlf p = some eol ∧ memchr (p.take eol) COLON = some colon := by
          rw [responseLines, if_neg hend] at h
          split at h
          · cases h
          split at h
          · cases h
          exact ⟨_, _, ‹_›, ‹_›⟩
        obtain ⟨eol, colon, heol, hcolon⟩ := hfind
        obtain ⟨l, t, rfl, rfl, hclean⟩ := findCrlf_split heol
        rw [List.take_left] at hcolon
        have hmem : COLON ∈ l := by
          obtain ⟨a, b, rfl, -, -⟩ := memchr_eq_some hcolon
          exact List.mem_append_right a List.mem_cons_self
        have hl : IsLine l := by
          refine ⟨?_, hclean⟩
          rintro rfl
          cases hmem
        have hlt : t.length < n := by
          rw [List.length_append, List.length_append] at hn
          have htwo : CRLF.length = 2 := rfl
          omega
        rw [responseLines_cons hl hmem] at h
        obtain ⟨acc₁, hline, h⟩ := Option.bind_eq_some_iff.1 h
        -- The rest of the lines folds from what this line leaves.
        have hrest : ∀ acc₂, responseLines n t acc₂ = some acc' →
            (∀ ls, foldLines ls acc₂ = some acc' → foldLines (l :: ls) acc = some acc') →
              ∃ ls rest, l ++ (CRLF ++ t) = block ls ++ rest ∧ EndsLines rest ∧
                (∀ l ∈ ls, IsLine l ∧ COLON ∈ l) ∧ foldLines ls acc = some acc' := by
          intro acc₂ h₂ hstep
          obtain ⟨ls, rest, rfl, hr, hls, hfold⟩ := ih hlt h₂
          refine ⟨l :: ls, rest, ?_, hr, List.forall_mem_cons.2 ⟨⟨hl, hmem⟩, hls⟩, hstep ls hfold⟩
          rw [block_cons, List.append_assoc, List.append_assoc]
        split at h
        -- The line is copied to the rewritten head.
        · rename_i hkept
          obtain ⟨hdr, happ, h⟩ := Option.bind_eq_some_iff.1 h
          refine hrest _ h fun ls hfold => ?_
          rw [foldLines, hline, Option.bind_some, if_pos hkept, happ, Option.bind_some]
          exact hfold
        -- The line is dropped, so the head is as before.
        · rename_i hkept
          refine hrest _ h fun ls hfold => ?_
          rw [foldLines, hline, Option.bind_some, if_neg hkept]
          exact hfold

/-- What the header loop keeps of a line besides the upstream's wishes for the connection. -/
def framing (acc : ResponseLines) : List UInt8 × Option Nat × Bool :=
  (acc.hdr, acc.contentLength, acc.chunked)

/-- The loop reads no wishes of the upstream. -/
theorem responseLine_framing_eq {name v : List UInt8} {acc acc' acc₁ : ResponseLines}
    (h : responseLine name v acc = some acc') (hsame : framing acc₁ = framing acc) :
    ∃ acc₂, responseLine name v acc₁ = some acc₂ ∧ framing acc₂ = framing acc' := by
  simp only [framing, Prod.mk.injEq] at hsame
  obtain ⟨hhdr, hcl, hch⟩ := hsame
  unfold responseLine at h ⊢
  rw [hcl, hch]
  split at h
  · rename_i hname
    rw [if_pos hname]
    split at h
    · cases h
    · rename_i hnone
      rw [if_neg hnone]
      obtain ⟨cl, hv, rfl⟩ := Option.map_eq_some_iff.1 h
      exact ⟨_, Option.map_eq_some_iff.2 ⟨cl, hv, rfl⟩, by simp only [framing, hhdr]⟩
  rename_i hname
  rw [if_neg hname]
  split at h
  · rename_i hname
    rw [if_pos hname]
    split at h
    · cases h
    · rename_i hbad
      rw [if_neg hbad]
      cases h
      exact ⟨_, rfl, by simp only [framing, hhdr]⟩
  rename_i hname
  rw [if_neg hname]
  split at h
  · rename_i hname
    rw [if_pos hname]
    cases h
    exact ⟨_, rfl, by simp only [framing, hhdr]⟩
  · rename_i hname
    rw [if_neg hname]
    cases h
    exact ⟨acc₁, rfl, by simp only [framing, hhdr, hcl, hch]⟩

/-- A dropped line carries no framing. -/
theorem responseLine_dropped {name v : List UInt8} (h : hopByHop name false = true)
    (acc : ResponseLines) : ∃ acc', responseLine name v acc = some acc' ∧
      framing acc' = framing acc := by
  have hnames := (hopByHop_iff name false).1 h
  have hlen : ∀ n ∈ hopNames false, n.length ≠ 14 ∧ n.length ≠ 17 := by decide
  obtain ⟨h14, h17⟩ := hlen _ hnames
  rw [List.length_map] at h14 h17
  unfold responseLine
  rw [if_neg (fun hc => h14 hc.1), if_neg (fun hc => h17 hc.1)]
  split
  · exact ⟨_, rfl, rfl⟩
  · exact ⟨_, rfl, rfl⟩

/-- What is copied. -/
theorem foldLines_hdr (ls : List (List UInt8)) : ∀ {acc acc' : ResponseLines},
    foldLines ls acc = some acc' → acc'.hdr = acc.hdr ++ block (ls.filter keptLine) := by
  induction ls with
  | nil =>
      intro acc acc' h
      rw [← Option.some.inj h]
      exact (List.append_nil _).symm
  | cons l ls ih =>
      intro acc acc' h
      obtain ⟨acc₁, hline, h⟩ := Option.bind_eq_some_iff.1 h
      have hhdr := responseLine_hdr hline
      split at h
      · rename_i hkept
        obtain ⟨hdr, happ, h⟩ := Option.bind_eq_some_iff.1 h
        rw [List.filter_cons_of_pos hkept, block_cons, ih h]
        show hdr ++ _ = _
        rw [appendBytes_eq happ, hhdr, List.append_assoc]
      · rename_i hkept
        rw [List.filter_cons_of_neg hkept, ih h, hhdr]

/-- The lines that are copied have the framing of all lines. -/
theorem foldLines_kept (ls : List (List UInt8)) : ∀ {acc acc' acc₁ : ResponseLines},
    foldLines ls acc = some acc' → framing acc₁ = framing acc →
      ∃ acc₂, foldLines (ls.filter keptLine) acc₁ = some acc₂ ∧ framing acc₂ = framing acc' := by
  induction ls with
  | nil =>
      intro acc acc' acc₁ h hsame
      rw [← Option.some.inj h]
      exact ⟨acc₁, rfl, hsame⟩
  | cons l ls ih =>
      intro acc acc' acc₁ h hsame
      obtain ⟨acc₃, hline, h⟩ := Option.bind_eq_some_iff.1 h
      split at h
      · rename_i hkept
        obtain ⟨hdr, happ, h⟩ := Option.bind_eq_some_iff.1 h
        obtain ⟨acc₂, hline₂, hsame₂⟩ := responseLine_framing_eq hline hsame
        simp only [framing, Prod.mk.injEq] at hsame₂
        obtain ⟨hhdr, hcl, hch⟩ := hsame₂
        have hnext : framing { acc₂ with hdr := hdr } = framing { acc₃ with hdr := hdr } := by
          simp only [framing, hcl, hch]
        obtain ⟨acc₄, hfold, hsame₄⟩ := ih h hnext
        refine ⟨acc₄, ?_, hsame₄⟩
        rw [List.filter_cons_of_pos hkept, foldLines, hline₂, Option.bind_some, if_pos hkept, hhdr,
          happ, Option.bind_some]
        exact hfold
      · rename_i hkept
        have hhop : hopByHop (lineName l) false = true := by simpa [keptLine] using hkept
        obtain ⟨acc₄, hline₄, hsame₄⟩ := responseLine_dropped (v := lineValue l) hhop acc
        rw [hline] at hline₄
        rw [List.filter_cons_of_neg hkept]
        apply ih h
        rw [hsame, Option.some.inj hline₄, hsame₄]

/-- Lines, one part after the other. -/
theorem foldLines_append (ls ms : List (List UInt8)) : ∀ (acc : ResponseLines),
    foldLines (ls ++ ms) acc = (foldLines ls acc).bind (foldLines ms) := by
  induction ls with
  | nil => exact fun _ => rfl
  | cons l ls ih =>
      intro acc
      rw [List.cons_append, foldLines, foldLines]
      cases responseLine (lineName l) (lineValue l) acc with
      | none => rfl
      | some acc =>
          simp only [Option.bind_some, ih]
          split
          · cases appendBytes acc.hdr (l ++ CRLF) <;> rfl
          · rfl

/-! ## Heads -/

/-- A response head cut at its line ends. -/
@[ext] structure HeadCut where
  status : List UInt8
  lines : List (List UInt8)

namespace HeadCut

/-- The bytes `s` are the status line and the header lines `c`. -/
structure Of (c : HeadCut) (s : List UInt8) : Prop where
  bytes : ∃ rest, EndsLines rest ∧ s = c.status ++ (CRLF ++ (block c.lines ++ rest))
  status : ¬ CRLF <:+: c.status
  lines : ∀ l ∈ c.lines, IsLine l

/-- The lines of a head are its own. -/
theorem unique {c d : HeadCut} {s : List UInt8} (hc : c.Of s) (hd : d.Of s) : c = d := by
  obtain ⟨r, hr, hs⟩ := hc.bytes
  obtain ⟨t, ht, hs'⟩ := hd.bytes
  have hlen : c.status.length = d.status.length := by
    have hfind := findCrlf_clean (block c.lines ++ r) hc.status
    rw [← hs, hs', findCrlf_clean _ hd.status] at hfind
    exact (Option.some.inj hfind).symm
  obtain ⟨hstatus, hrest⟩ := List.append_inj (hs.symm.trans hs') hlen
  have hlines := block_unique c.lines hc.lines hd.lines hr ht (List.append_cancel_left hrest)
  exact HeadCut.ext hstatus hlines

end HeadCut

section Heads

variable {req : HttpRequest} {px px' : ProxyConn} {src : List UInt8}

/-- The start of the header loop. -/
def startLines (status : List UInt8) : ResponseLines := ⟨status ++ CRLF, none, false, false, false⟩

/-- `rewrite_response` on a head that is cut into lines. -/
theorem rewriteResponse_of {c : HeadCut} {code : Nat} {acc : ResponseLines} (hc : c.Of src)
    (hcolon : ∀ l ∈ c.lines, COLON ∈ l) (hcode : statusCode c.status = some code)
    (hfinal : ¬ (100 ≤ code ∧ code < 200)) (hfit : c.status.length + 2 ≤ PROXY_HDR_MAX)
    (hfold : foldLines c.lines (startLines c.status) = some acc) :
    rewriteResponse req px src = finishResponse req px code (src[7]? == some 0x30) acc := by
  obtain ⟨rest, hrest, rfl⟩ := hc.bytes
  have hfirst : (c.status ++ (CRLF ++ (block c.lines ++ rest))).take (c.status.length + 2) =
      c.status ++ CRLF := by
    rw [List.take_length_add_append]
    rfl
  have hdrop : (c.status ++ (CRLF ++ (block c.lines ++ rest))).drop (c.status.length + 2) =
      block c.lines ++ rest := by
    rw [← List.drop_drop, List.drop_left]
    rfl
  have happ : appendBytes [] (c.status ++ CRLF) = some (c.status ++ CRLF) := by
    apply appendBytes_fits
    rw [List.length_append]
    show 0 + (c.status.length + 2) ≤ _
    omega
  have hlen : c.lines.length < (c.status ++ (CRLF ++ (block c.lines ++ rest))).length := by
    have hblock := length_le_block c.lines
    have htwo : CRLF.length = 2 := rfl
    simp only [List.length_append]
    omega
  have hloop := responseLines_block c.lines (startLines c.status)
    (fun l hl => ⟨hc.lines l hl, hcolon l hl⟩) hrest hlen
  unfold rewriteResponse
  rw [findCrlf_clean _ hc.status]
  simp only [List.take_left, hcode, if_neg hfinal, hfirst, happ, hdrop]
  erw [hloop, hfold]

/-- A final head is cut into lines. -/
theorem rewriteResponse_cut (h : rewriteResponse req px src = .final px') :
    ∃ c code acc, HeadCut.Of c src ∧ (∀ l ∈ c.lines, COLON ∈ l) ∧
      statusCode c.status = some code ∧ ¬ (100 ≤ code ∧ code < 200) ∧
      c.status.length + 2 ≤ PROXY_HDR_MAX ∧
      foldLines c.lines (startLines c.status) = some acc ∧
      finishResponse req px code (src[7]? == some 0x30) acc = .final px' := by
  obtain ⟨eol, code, hdr, acc, heol, hcode, hfinal, happ, hlines, hfin⟩ := rewriteResponse_final h
  obtain ⟨status, t, rfl, rfl, hclean⟩ := findCrlf_split heol
  have hfirst : (status ++ (CRLF ++ t)).take (status.length + 2) = status ++ CRLF := by
    rw [List.take_length_add_append]
    rfl
  have hdrop : (status ++ (CRLF ++ t)).drop (status.length + 2) = t := by
    rw [← List.drop_drop, List.drop_left]
    rfl
  have hfit := (appendBytes_some happ).2 (Nat.zero_le _)
  have hhdr := appendBytes_eq happ
  rw [hfirst, List.nil_append] at hhdr
  subst hhdr
  rw [hdrop] at hlines
  have hlt : t.length < (status ++ (CRLF ++ t)).length := by
    have htwo : CRLF.length = 2 := rfl
    simp only [List.length_append]
    omega
  obtain ⟨ls, rest, rfl, hrest, hls, hfold⟩ := responseLines_cut _ hlt hlines
  rw [List.take_left] at hcode
  refine ⟨⟨status, ls⟩, code, acc, ⟨⟨rest, hrest, rfl⟩, hclean, fun l hl => (hls l hl).1⟩,
    fun l hl => (hls l hl).2, hcode, hfinal, ?_, hfold, hfin⟩
  rw [List.length_append] at hfit
  exact hfit

end Heads

/-! ## The result -/

/-- The Connection line of a head for a client that is kept, or not. -/
def connectionText (keep : Bool) : List UInt8 := cstr "Connection: " ++ connectionValue keep

theorem connectionText_eq (keep : Bool) :
    (if keep then CONNECTION_KEEP else CONNECTION_CLOSE) = connectionText keep ++ CRLF ++ CRLF := by
  cases keep <;> decide

theorem connectionText_name (keep : Bool) : lineName (connectionText keep) = cstr "Connection" := by
  cases keep <;> decide

/-- The Connection line is one line. -/
theorem connectionText_isLine (keep : Bool) :
    IsLine (connectionText keep) ∧ COLON ∈ connectionText keep := by
  have hclean : ∀ l : List UInt8, CR ∉ l → ¬ CRLF <:+: l := by
    rintro l h ⟨a, b, rfl⟩
    exact h (List.mem_append_left b (List.mem_append_right a List.mem_cons_self))
  cases keep with
  | true => exact ⟨⟨by decide, hclean _ (by decide)⟩, by decide⟩
  | false => exact ⟨⟨by decide, hclean _ (by decide)⟩, by decide⟩

/-- The head `hdr` has the lines of `src` whose names are not hop-by-hop, as they were, and
one Connection line. -/
structure KeepsLines (src hdr : List UInt8) (keep : Bool) : Prop where
  lines : ∃ c : HeadCut, c.Of src ∧ HeadCut.Of { c with
    lines := (c.lines.filter fun l => (lineName l).map asciiLower ∉ hopNames false) ++
      [connectionText keep] } hdr
  connection : ∀ c : HeadCut, c.Of hdr →
    c.lines.filter (fun l => (lineName l).map asciiLower = cstr "connection") =
      [connectionText keep]

/-- Two records of the status and the body framing of one response. -/
structure SameFraming (px px' : ProxyConn) : Prop where
  status : px'.status = px.status
  respCl : px'.flags.respCl = px.flags.respCl
  respLeft : px'.respLeft = px.respLeft
  respChunked : px'.flags.respChunked = px.flags.respChunked
  respEof : px'.flags.respEof = px.flags.respEof
  bodyDone : px'.flags.bodyDone = px.flags.bodyDone

section Again

variable {req : HttpRequest} {px px' : ProxyConn} {src : List UInt8}

/-- A line is kept unless its name is hop-by-hop. -/
theorem keptLine_eq : keptLine = fun l => decide ((lineName l).map asciiLower ∉ hopNames false) := by
  funext l
  have hiff := hopByHop_iff (lineName l) false
  unfold keptLine
  by_cases hop : hopByHop (lineName l) false = true
  · simp [hop, hiff.1 hop]
  · simp [hop, mt hiff.2 hop]

/-- The lines of the head made. -/
theorem rewriteResponse_keeps {c : HeadCut} {acc : ResponseLines} (hc : c.Of src)
    (hfold : foldLines c.lines (startLines c.status) = some acc)
    (happ : appendBytes acc.hdr (if px'.flags.clientKeep then CONNECTION_KEEP else
      CONNECTION_CLOSE) = some px'.hdr) :
    HeadCut.Of { c with
      lines := c.lines.filter keptLine ++ [connectionText px'.flags.clientKeep] } px'.hdr := by
  constructor
  case bytes =>
    refine ⟨CRLF, Or.inr (List.prefix_refl CRLF), ?_⟩
    rw [appendBytes_eq happ, foldLines_hdr _ hfold, connectionText_eq, block_append]
    simp [startLines, block]
  case status => exact hc.status
  case lines =>
    intro l hl
    rcases List.mem_append.1 hl with hl | hl
    · exact hc.lines l (List.mem_filter.1 hl).1
    · rw [List.mem_singleton.1 hl]
      exact (connectionText_isLine _).1

/-- The lines of the head made are read like those of the head given. -/
theorem foldLines_again {ls : List (List UInt8)} {acc₀ acc : ResponseLines} (keep : Bool)
    (h : foldLines ls acc₀ = some acc) :
    ∃ acc', foldLines (ls.filter keptLine ++ [connectionText keep]) acc₀ = some acc' ∧
      framing acc' = framing acc := by
  obtain ⟨acc₁, hkept, hsame⟩ := foldLines_kept ls h rfl
  have hhop : hopByHop (lineName (connectionText keep)) false = true := by
    rw [connectionText_name]
    decide
  obtain ⟨acc₂, hline, hsame₂⟩ :=
    responseLine_dropped (v := lineValue (connectionText keep)) hhop acc₁
  refine ⟨acc₂, ?_, hsame₂.trans hsame⟩
  have hdrop : ¬ keptLine (connectionText keep) = true := by
    unfold keptLine
    rw [hhop]
    decide
  rw [foldLines_append, hkept, Option.bind_some, foldLines, hline, Option.bind_some, if_neg hdrop]
  rfl

/-- The framing that is stored depends on the framing of the lines alone. -/
theorem finishResponse_again {px₂ : ProxyConn} {code : Nat} {old old' : Bool}
    {acc acc' : ResponseLines} (h : finishResponse req px code old acc = .final px')
    (hsame : framing acc' = framing acc) (hfit : px'.hdr.length ≤ PROXY_HDR_MAX)
    (hkeep : px₂.flags.clientKeep = true → px'.flags.clientKeep = true) :
    ∃ px₃, finishResponse req px₂ code old' acc' = .final px₃ ∧ SameFraming px' px₃ := by
  obtain ⟨hboth, happ, hpx⟩ := finishResponse_final h
  simp only [framing, Prod.mk.injEq] at hsame
  obtain ⟨hhdr, hcl, hch⟩ := hsame
  have hlen : acc.hdr.length + (if px'.flags.clientKeep then CONNECTION_KEEP
      else CONNECTION_CLOSE).length ≤ PROXY_HDR_MAX := by
    rw [← List.length_append, ← appendBytes_eq happ]
    exact hfit
  -- The second Connection line is no longer than the first.
  have hsecond : acc.hdr.length + (if px₂.flags.clientKeep || httpShouldKeepalive req
      then CONNECTION_KEEP else CONNECTION_CLOSE).length ≤ PROXY_HDR_MAX := by
    have hlong : CONNECTION_CLOSE.length ≤ CONNECTION_KEEP.length := by decide
    have hreq : httpShouldKeepalive req = true → px'.flags.clientKeep = true := by
      intro hr
      rw [hpx, hr]
      exact Bool.or_true _
    by_cases hk : (px₂.flags.clientKeep || httpShouldKeepalive req) = true
    · rcases Bool.or_eq_true_iff.1 hk with h₂ | h₂
      · rw [hkeep h₂] at hlen
        rw [hk]
        exact hlen
      · rw [hreq h₂] at hlen
        rw [hk]
        exact hlen
    · rw [if_neg hk]
      split at hlen
      · omega
      · exact hlen
  rw [← hhdr] at hsecond
  unfold finishResponse
  rw [hcl, hch, if_neg hboth]
  simp only [appendBytes_fits hsecond]
  refine ⟨_, rfl, ?_⟩
  rw [hpx]
  exact ⟨rfl, rfl, rfl, rfl, rfl, rfl⟩

/-- The head that is sent to the client keeps the lines of the upstream's head, and
`rewrite_response` reads the same response in it. -/
theorem rewriteResponse_again {px₂ : ProxyConn} (h : rewriteResponse req px src = .final px')
    (hkeep : px₂.flags.clientKeep = true → px'.flags.clientKeep = true) :
    KeepsLines src px'.hdr px'.flags.clientKeep ∧
      ∃ px₃, rewriteResponse req px₂ px'.hdr = .final px₃ ∧ SameFraming px' px₃ := by
  obtain ⟨c, code, acc, hc, hcolon, hcode, hfinal, hfit, hfold, hfin⟩ := rewriteResponse_cut h
  have hof := rewriteResponse_keeps hc hfold (finishResponse_final hfin).2.1
  obtain ⟨acc', hagain, hsame⟩ := foldLines_again px'.flags.clientKeep hfold
  refine ⟨⟨⟨c, hc, ?_⟩, ?_⟩, ?_⟩
  · rw [← keptLine_eq]
    exact hof
  · intro d hd
    have hnone : (c.lines.filter keptLine).filter
        (fun l => (lineName l).map asciiLower = cstr "connection") = [] := by
      apply List.filter_eq_nil_iff.2
      intro l hl hname
      have hkept := (List.mem_filter.1 hl).2
      rw [keptLine_eq] at hkept
      have hno := of_decide_eq_true hkept
      rw [of_decide_eq_true hname] at hno
      exact hno (by decide)
    have hlast : (lineName (connectionText px'.flags.clientKeep)).map asciiLower =
        cstr "connection" := by
      rw [connectionText_name]
      decide
    rw [HeadCut.unique hd hof, List.filter_append, hnone, List.nil_append,
      List.filter_singleton, hlast]
    rfl
  · have hcolon' : ∀ l ∈ c.lines.filter keptLine ++ [connectionText px'.flags.clientKeep],
        COLON ∈ l := by
      intro l hl
      rcases List.mem_append.1 hl with hl | hl
      · exact hcolon l (List.mem_filter.1 hl).1
      · rw [List.mem_singleton.1 hl]
        exact (connectionText_isLine _).2
    rw [rewriteResponse_of hof hcolon' hcode hfinal hfit hagain]
    exact finishResponse_again hfin hsame (rewriteResponse_hdr_le h) hkeep

end Again

/-- A head with a Content-Length and a Keep-Alive line. -/
def keepAliveHead : List UInt8 :=
  cstr "HTTP/1.1 200 OK\r\nContent-Length: 3\r\nKeep-Alive: 5\r\nX:y\r\n\r\n"

/-- What a final head stores. -/
def RewriteResult.conn : RewriteResult → ProxyConn
  | .final px => px
  | _ => .zero

/-- The slot after that head. -/
def keepAliveConn : ProxyConn := (rewriteResponse .zero .zero keepAliveHead).conn

/-- A head of HTTP/1.0 with keep-alive. -/
theorem rewriteResponse_again_keepAlive :
    KeepsLines keepAliveHead keepAliveConn.hdr keepAliveConn.flags.clientKeep ∧
      ∃ px₃, rewriteResponse .zero .zero keepAliveConn.hdr = .final px₃ ∧
        SameFraming keepAliveConn px₃ := by
  have h : rewriteResponse .zero .zero keepAliveHead = .final keepAliveConn := by decide
  exact rewriteResponse_again h (by decide)

end TinyServer.Proxy
