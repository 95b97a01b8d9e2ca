import Mathlib.Data.List.Forall2
import TinyServer.Static.Url

/-!
# What `percent_decode` and `normalize_path` accept

The converses of `percentDecode_decodes` and `normalizePath_joined`. Both passes are now
characterised: a path that decodes, and whose segments are plain, is served if it fits the
buffers, under one name only.
-/

set_option autoImplicit false

namespace TinyServer.Static

open TinyServer.Http TinyServer.Lib

/-! ## Decoding -/

section Decode

variable {inp url decoded : List UInt8} {inLen : UInt16} {outCap : Nat}

theorem Decodes.unique {d d' : List UInt8} (h : Decodes url d) (h' : Decodes url d') : d = d' := by
  induction h generalizing d' with
  | nil =>
      cases h'
      rfl
  | byte c hc hctl h ih =>
      cases h' with
      | byte _ _ _ h' => rw [ih h']
      | escape => exact absurd rfl hc
  | escape x y c hi lo hx hy hc hsep hctl h ih =>
      cases h' with
      | byte _ hc' => exact absurd rfl hc'
      | escape _ _ c' hi' lo' hx' hy' hc' _ _ h' =>
          rw [hx] at hx'
          rw [hy] at hy'
          cases hx'
          cases hy'
          rw [ih h', UInt8.toNat_inj.1 (hc.trans hc'.symm)]

theorem Decodes.append {a b da db : List UInt8} (ha : Decodes a da) (hb : Decodes b db) :
    Decodes (a ++ b) (da ++ db) := by
  induction ha with
  | nil => exact hb
  | byte c hc hctl _ ih => exact .byte c hc hctl ih
  | escape x y c hi lo hx hy hc hsep hctl _ ih => exact .escape x y c hi lo hx hy hc hsep hctl ih

theorem Decodes.length_le (h : Decodes url decoded) : decoded.length ≤ url.length := by
  induction h with
  | nil => exact le_rfl
  | byte c hc hctl _ ih => exact Nat.succ_le_succ ih
  | escape x y c hi lo hx hy hc hsep hctl _ ih =>
      simp only [List.length_cons]
      omega

/-- A decoded path ends with a slash when the path does: an escape is no slash. -/
theorem Decodes.getLast_slash (h : Decodes url decoded) :
    decoded.getLast? = some SLASH ↔ url.getLast? = some SLASH := by
  induction h with
  | nil => exact Iff.rfl
  | @byte url decoded c hc hctl h ih =>
      cases h with
      | nil => exact Iff.rfl
      | byte => simpa only [List.getLast?_cons_cons] using ih
      | escape => simpa only [List.getLast?_cons_cons] using ih
  | @escape url decoded x y c hi lo hx hy hc hsep hctl h ih =>
      cases h with
      | nil =>
          have hslash : hexVal SLASH = none := by decide
          simp only [List.getLast?_singleton, List.getLast?_cons_cons, Option.some.injEq]
          constructor
          · exact fun he => absurd he hsep.1
          · rintro rfl
            rw [hslash] at hy
            cases hy
      | byte => simpa only [List.getLast?_cons_cons] using ih
      | escape => simpa only [List.getLast?_cons_cons] using ih

/-- A byte that is no part of an escape stands for itself wherever it is. -/
theorem Decodes.split {c : UInt8} (hc : c ≠ PERCENT) (hhex : hexVal c = none) {v : List UInt8}
    (h : Decodes url decoded) : ∀ {u : List UInt8}, url = u ++ c :: v →
      ∃ du dv, decoded = du ++ c :: dv ∧ Decodes u du ∧ Decodes v dv := by
  induction h with
  | nil =>
      intro u hu
      cases u with
      | nil => cases hu
      | cons => cases hu
  | @byte url decoded b hb hctl h ih =>
      intro u hu
      cases u with
      | nil =>
          obtain ⟨rfl, rfl⟩ : b = c ∧ url = v := List.cons.inj hu
          exact ⟨[], decoded, rfl, .nil, h⟩
      | cons b' u =>
          obtain ⟨rfl, hrest⟩ : b = b' ∧ url = u ++ c :: v := List.cons.inj hu
          obtain ⟨du, dv, rfl, hdu, hdv⟩ := ih hrest
          exact ⟨b :: du, dv, rfl, .byte b hb hctl hdu, hdv⟩
  | @escape url decoded x y b hi lo hx hy hb hsep hctl h ih =>
      intro u hu
      -- The byte is neither the percent sign nor a digit of the escape.
      match u with
      | [] => exact absurd (List.cons.inj hu).1.symm hc
      | [_] =>
          obtain ⟨rfl, -⟩ : x = c ∧ y :: url = v := List.cons.inj (List.cons.inj hu).2
          rw [hhex] at hx
          cases hx
      | [_, _] =>
          obtain ⟨rfl, -⟩ : y = c ∧ url = v := List.cons.inj (List.cons.inj (List.cons.inj hu).2).2
          rw [hhex] at hy
          cases hy
      | p :: x' :: y' :: u =>
          obtain ⟨hp, hu₁⟩ := List.cons.inj hu
          obtain ⟨hx', hu₂⟩ := List.cons.inj hu₁
          obtain ⟨hy', hu₃⟩ := List.cons.inj hu₂
          subst hp hx' hy'
          obtain ⟨du, dv, rfl, hdu, hdv⟩ := ih hu₃
          exact ⟨b :: du, dv, rfl, .escape x y b hi lo hx hy hb hsep hctl hdu, hdv⟩

/-- Without a slash there is none in what a path decodes to. -/
theorem Decodes.slash_iff (h : Decodes url decoded) : SLASH ∈ decoded ↔ SLASH ∈ url := by
  have hslash : hexVal SLASH = none := by decide
  induction h with
  | nil => exact Iff.rfl
  | byte c hc hctl h ih => simp only [List.mem_cons, ih]
  | escape x y c hi lo hx hy hc hsep hctl h ih =>
      have hx' : SLASH ≠ x := by
        rintro rfl
        rw [hslash] at hx
        cases hx
      have hy' : SLASH ≠ y := by
        rintro rfl
        rw [hslash] at hy
        cases hy
      have hp : SLASH ≠ PERCENT := by decide
      simp only [List.mem_cons, ih, hsep.1.symm, hx', hy', hp, false_or]

theorem Decodes.ne_nil (h : Decodes url decoded) : decoded ≠ [] ↔ url ≠ [] := by
  cases h with
  | nil => exact Iff.rfl
  | byte => simp
  | escape => simp

/-- A path decodes piece by piece. -/
theorem Decodes.pieces (n : Nat) : ∀ {url decoded : List UInt8}, url.length ≤ n →
    Decodes url decoded → List.Forall₂ Decodes (pieces SLASH url) (pieces SLASH decoded) := by
  have hslash : hexVal SLASH = none := by decide
  have hone : ∀ {url decoded : List UInt8}, Decodes url decoded → SLASH ∉ url →
      List.Forall₂ Decodes (Lib.pieces SLASH url) (Lib.pieces SLASH decoded) := by
    intro url decoded h hno
    by_cases hne : url = []
    · subst hne
      cases h
      exact .nil
    · rw [pieces_of_not_mem hne hno, pieces_of_not_mem (h.ne_nil.2 hne) (mt h.slash_iff.1 hno)]
      exact .cons h .nil
  induction n with
  | zero =>
      intro url decoded hn h
      obtain rfl := List.length_eq_zero_iff.1 (Nat.le_zero.1 hn)
      exact hone h List.not_mem_nil
  | succ n ih =>
      intro url decoded hn h
      by_cases hmem : SLASH ∈ url
      · obtain ⟨u, v, rfl, hu⟩ := List.eq_append_cons_of_mem hmem
        obtain ⟨du, dv, rfl, hdu, hdv⟩ := h.split (by decide) hslash rfl
        rw [List.length_append, List.length_cons] at hn
        rw [pieces_append, pieces_append]
        exact List.rel_append (hone hdu hu) (ih (by omega) hdv)
      · exact hone h hmem

/-- A byte of the path as the loop reads it. -/
theorem byteAt_of_drop {k : Nat} {c : UInt8} {rest : List UInt8}
    (h : (inp.take inLen.toNat).drop k = c :: rest) :
    byteAt inp k = c ∧ k < inLen.toNat ∧ (inp.take inLen.toNat).drop (k + 1) = rest := by
  have hlt : k < (inp.take inLen.toNat).length := by
    by_contra hle
    rw [List.drop_of_length_le (Nat.le_of_not_lt hle)] at h
    cases h
  rw [List.drop_eq_getElem_cons hlt, List.getElem_take, List.cons.injEq] at h
  rw [List.length_take] at hlt
  refine ⟨?_, by omega, h.2⟩
  rw [byteAt, List.getD_eq_getElem?_getD, List.getElem?_eq_getElem (by omega), Option.getD_some]
  exact h.1

/-- The value of an escape in a byte. -/
theorem escape_eq {c : UInt8} {hi lo : Nat} (hhi : hi < 16) (hlo : lo < 16)
    (hc : c.toNat = 16 * hi + lo) : UInt8.ofNat (hi <<< 4 ||| lo) = c :=
  UInt8.toNat_inj.1 ((escape_toNat hhi hlo).trans hc.symm)

theorem decodeLoop_complete (hcap : 3 * outCap + 3 < 65536) (hmem : inLen.toNat ≤ inp.length)
    (hd : Decodes url decoded) : ∀ {n : Nat} {i : UInt16} {out : List UInt8},
      url = (inp.take inLen.toNat).drop i.toNat → i.toNat ≤ 3 * out.length →
        out.length + decoded.length < outCap → decoded.length < n →
          decodeLoop inp inLen outCap n i out = some (out ++ decoded) := by
  induction hd with
  | nil =>
      intro n i out hurl hi hroom hn
      obtain ⟨n, rfl⟩ := Nat.exists_eq_succ_of_ne_zero (Nat.ne_of_gt hn)
      have hend : inLen.toNat ≤ i.toNat := by
        have := List.drop_eq_nil_iff.1 hurl.symm
        rw [List.length_take] at this
        omega
      simp only [List.length_nil] at hroom
      rw [decodeLoop, if_neg (UInt16.not_lt.2 (UInt16.le_iff_toNat_le.2 hend)), if_neg (by omega),
        List.append_nil]
  | @byte url decoded c hc hctl h ih =>
      intro n i out hurl hi hroom hn
      obtain ⟨n, rfl⟩ := Nat.exists_eq_succ_of_ne_zero (Nat.ne_of_gt (Nat.zero_lt_of_lt hn))
      simp only [List.length_cons] at hroom hn
      obtain ⟨hbyte, hlt, hrest⟩ := byteAt_of_drop hurl.symm
      have hnext : (i + 1).toNat = i.toNat + 1 := add_toNat (by simp; omega)
      have hread : decodeByte inp inLen i = some (c, i) := by
        simp only [decodeByte, hbyte, if_neg hc]
      rw [decodeLoop, if_pos (UInt16.lt_iff_toNat_lt.2 hlt), hread]
      simp only [if_neg hctl]
      rw [if_neg (by omega), ih (by rw [hnext, hrest]) (by simp; omega) (by simp; omega) (by omega),
        List.append_assoc]
      rfl
  | @escape url decoded x y c hi lo hx hy hc hsep hctl h ih =>
      intro n i out hurl hi' hroom hn
      obtain ⟨n, rfl⟩ := Nat.exists_eq_succ_of_ne_zero (Nat.ne_of_gt (Nat.zero_lt_of_lt hn))
      simp only [List.length_cons] at hroom hn
      obtain ⟨hbyte, hlt, hrest⟩ := byteAt_of_drop hurl.symm
      obtain ⟨hbyte₁, -, hrest₁⟩ := byteAt_of_drop hrest
      obtain ⟨hbyte₂, hlt₂, hrest₂⟩ := byteAt_of_drop hrest₁
      have hskip : (i + 2).toNat = i.toNat + 2 := add_toNat (by simp; omega)
      have hnext : (i + 2 + 1).toNat = i.toNat + 3 := by
        rw [add_toNat (by rw [hskip]; simp; omega), hskip]
        rfl
      have hin : ¬ inLen ≤ i + 2 := by
        intro hle
        have : inLen.toNat ≤ (i + 2).toNat := hle
        omega
      have hread : decodeByte inp inLen i = some (c, i + 2) := by
        simp only [decodeByte, hbyte, if_pos, if_neg hin, hbyte₁, hbyte₂, hx, hy,
          escape_eq (hexVal_lt hx) (hexVal_lt hy) hc]
        rw [if_neg (not_or.2 hsep)]
      rw [decodeLoop, if_pos (UInt16.lt_iff_toNat_lt.2 hlt), hread]
      simp only [if_neg hctl]
      rw [if_neg (by omega), ih (by rw [hnext, hrest₂]) (by rw [hnext]; simp; omega)
        (by simp; omega) (by omega), List.append_assoc]
      rfl

/-- `percent_decode` accepts what decodes and fits. -/
theorem percentDecode_iff (hcap : 3 * outCap + 3 < 65536) (hmem : inLen.toNat ≤ inp.length) :
    percentDecode inp inLen outCap = some decoded ↔
      Decodes (inp.take inLen.toNat) decoded ∧ decoded ≠ [] ∧ decoded.length < outCap := by
  constructor
  · exact percentDecode_decodes hcap
  · rintro ⟨hd, hne, hshort⟩
    have hloop : decodeLoop inp inLen outCap (outCap + 1) 0 [] = some decoded :=
      decodeLoop_complete hcap hmem hd rfl (Nat.zero_le _) (by simpa using hshort) (by omega)
    simp [percentDecode, hloop, hne]

end Decode

/-! ## Normalizing -/

section Normalize

variable {allowDotfiles : Bool} {outCap : Nat}

theorem joined_starts (a b : List (List UInt8)) : joined a <+: joined (a ++ b) := by
  induction a with
  | nil => exact List.nil_prefix
  | cons s a ih =>
      cases a with
      | nil =>
          cases b with
          | nil => exact List.prefix_rfl
          | cons s' b =>
              simp only [joined, List.intercalate_singleton, List.cons_append, List.nil_append,
                List.intercalate_cons_cons, List.append_assoc]
              exact List.prefix_append s _
      | cons s' a =>
          simp only [joined, List.cons_append, List.intercalate_cons_cons] at ih ⊢
          exact (List.prefix_append_right_inj _).2 ih

/-- The loop joins plain segments. -/
theorem normalizeLoop_complete (n : Nat) : ∀ {p out : List UInt8} {done : List (List UInt8)},
    p.length ≤ n → (∀ s ∈ done ++ pieces SLASH p, PlainSegment allowDotfiles s) →
      out = joined done → (joined (done ++ pieces SLASH p)).length < outCap →
        normalizeLoop allowDotfiles outCap n p out = some (joined (done ++ pieces SLASH p)) := by
  induction n with
  | zero =>
      intro p out done hn hplain hout hshort
      rw [List.length_eq_zero_iff.1 (Nat.le_zero.1 hn), pieces_nil, List.append_nil, ← hout]
      rfl
  | succ n ih =>
      intro p out done hn hplain hout hshort
      rw [normalizeLoop]
      rw [← pieces_dropWhile] at hplain hshort ⊢
      have hsuffix : p.dropWhile (· == SLASH) <:+ p := List.dropWhile_suffix _
      generalize hq : p.dropWhile (· == SLASH) = q at hplain hshort hsuffix ⊢
      cases q with
      | nil => rw [pieces_nil, List.append_nil, ← hout]
      | cons c q =>
          have hc : c ≠ SLASH := by
            have hnot := List.head?_dropWhile_not (· == SLASH) p
            rw [hq] at hnot
            simpa using hnot
          have hhead : ((c :: q).takeWhile (· != SLASH)).head? = some c := by
            rw [List.takeWhile_cons_of_pos (by simpa using hc)]
            rfl
          have hrest : ((c :: q).dropWhile (· != SLASH)).length ≤ n := by
            rw [List.dropWhile_cons_of_pos (by simpa using hc)]
            have h1 := (List.dropWhile_suffix (l := q) (· != SLASH)).length_le
            have h2 := hsuffix.length_le
            rw [List.length_cons] at h2
            omega
          rw [pieces_takeWhile q hc] at hplain hshort ⊢
          simp only
          generalize (c :: q).takeWhile (· != SLASH) = seg at hplain hshort hhead ⊢
          generalize (c :: q).dropWhile (· != SLASH) = rest at hplain hshort hrest ⊢
          -- Each piece passes the checks, and the buffer holds what is there so far.
          have hseg : PlainSegment allowDotfiles seg := hplain seg (by simp)
          have hdone : ∀ s ∈ done, s ≠ [] := fun s hs =>
            (hplain s (List.mem_append_left _ hs)).nonempty
          -- What is there after this turn is part of the result.
          have hfits : (joined (done ++ [seg])).length < outCap := by
            have hle := (joined_starts (done ++ [seg]) (pieces SLASH rest)).length_le
            rw [List.append_assoc, List.singleton_append] at hle
            omega
          have hjoin := joined_concat hdone seg
          rw [← hout] at hjoin
          have hback : ¬ (seg.any fun c => c == BACKSLASH || c == 0) = true := by
            intro hany
            obtain ⟨d, hd, he⟩ := List.any_eq_true.1 hany
            have hd := hseg.bytes d hd
            simp [hd.2.1, hd.2.2.1] at he
          rw [if_neg hback, if_neg hseg.dot, if_neg hseg.dotdot,
            if_neg fun hfile => hseg.dotfile hfile.2 (hhead.trans (congrArg some hfile.1))]
          have hroom : ¬ (out ≠ [] ∧ outCap ≤ out.length + 1) := by
            rintro ⟨hne, hle⟩
            rw [if_neg hne] at hjoin
            have hlen := congrArg List.length hjoin
            simp only [List.length_append, List.length_singleton] at hlen
            have := List.length_pos_iff.2 hseg.nonempty
            omega
          have hroom' : ¬ outCap ≤ (if out = [] then out else out ++ [SLASH]).length + seg.length := by
            rw [← List.length_append, hjoin]
            omega
          rw [if_neg hroom, if_neg hroom', hjoin]
          have hnext : done ++ seg :: pieces SLASH rest = (done ++ [seg]) ++ pieces SLASH rest := by
            simp
          rw [hnext] at hplain hshort ⊢
          exact ih hrest hplain rfl hshort

/-- The segments of a path that begins with a slash. -/
theorem pathSegments_ne_nil {decoded : List UInt8} (hhead : decoded.head? = some SLASH) :
    pathSegments decoded ≠ [] := by
  intro h
  obtain ⟨hpieces, hindex⟩ := List.append_eq_nil_iff.1 h
  obtain ⟨p, hp⟩ : ∃ p, decoded = SLASH :: p := by
    cases decoded with
    | nil => cases hhead
    | cons c p => exact ⟨p, by rw [Option.some.inj hhead]⟩
  rw [hp] at hpieces hindex
  have hlast := eq_sep_of_pieces_nil hpieces _ (List.getLast_mem (List.cons_ne_nil SLASH p))
  rw [List.getLast?_eq_some_getLast (List.cons_ne_nil SLASH p), hlast, if_pos rfl] at hindex
  cases hindex

/-- `normalize_path` accepts the paths whose segments are plain and fit together. -/
theorem normalizePath_iff {decoded rel : List UInt8} (hctl : ∀ d ∈ decoded, ¬ (d < 0x20 ∨ d = DEL)) :
    normalizePath allowDotfiles decoded outCap = some rel ↔
      decoded.head? = some SLASH ∧ (∀ s ∈ pathSegments decoded, PlainSegment allowDotfiles s) ∧
        rel = joined (pathSegments decoded) ∧ rel.length < outCap := by
  constructor
  · intro h
    obtain ⟨hrel, -, hplain, hshort⟩ := normalizePath_joined hctl h
    refine ⟨?_, hplain, hrel, hshort⟩
    by_contra hhead
    rw [normalizePath, if_neg hhead] at h
    cases h
  · rintro ⟨hhead, hplain, hrel, hshort⟩
    cases decoded with
    | nil => cases hhead
    | cons c p =>
        have hc : c = SLASH := Option.some.inj hhead
        have hpieces : pieces SLASH (c :: p) = pieces SLASH p := by rw [hc, pieces_sep_cons]
        have hplain' : ∀ s ∈ [] ++ pieces SLASH p, PlainSegment allowDotfiles s := by
          intro s hs
          rw [List.nil_append, ← hpieces] at hs
          exact hplain s (List.mem_append_left _ hs)
        have hle : (joined (pieces SLASH (c :: p))).length ≤ rel.length := by
          rw [hrel]
          exact (joined_starts _ _).length_le
        have hfits : (joined ([] ++ pieces SLASH p)).length < outCap := by
          rw [List.nil_append, ← hpieces]
          omega
        have hloop : normalizeLoop allowDotfiles outCap (c :: p).length p [] = _ :=
          normalizeLoop_complete (c :: p).length (Nat.le_succ p.length) hplain' rfl hfits
        rw [List.nil_append, ← hpieces] at hloop
        rw [normalizePath, if_pos hhead, List.tail_cons, hloop]
        simp only
        have hsegs : ∀ s ∈ pieces SLASH (c :: p), s ≠ [] := fun s hs => (mem_pieces hs).1
        by_cases hlast : (c :: p).getLast? = some SLASH
        · have happ := joined_concat hsegs (cstr "index.html")
          rw [pathSegments, if_pos hlast] at hrel
          rw [if_pos (.inr hlast)]
          have hidx : joined (pieces SLASH (c :: p)) ++
              (if joined (pieces SLASH (c :: p)) = [] then cstr "index.html"
                else cstr "/index.html") = rel := by
            rw [hrel, ← happ]
            split
            · rfl
            · rw [List.append_assoc]
              rfl
          rw [← List.length_append, hidx, if_neg (by omega)]
        · rw [pathSegments, if_neg hlast, List.append_nil] at hrel
          have hne : joined (pieces SLASH (c :: p)) ≠ [] := by
            have hsome := pathSegments_ne_nil hhead
            rw [pathSegments, if_neg hlast, List.append_nil] at hsome
            exact joined_ne hsegs hsome
          rw [if_neg (not_or.2 ⟨hne, hlast⟩), ← hrel, if_neg (by omega)]

end Normalize

end TinyServer.Static
