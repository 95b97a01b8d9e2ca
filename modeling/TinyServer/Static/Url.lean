import TinyServer.Http.Chars
import TinyServer.Lib.Segments

/-!
# URL paths (`percent_decode`, `normalize_path`)

A request path becomes a path relative to the served directory in two passes. The
first decodes it; the second takes it apart at the slashes and puts the segments
together again. Both return `none` where the C functions return 0.

What the passes together guarantee is `NamesBeneath`: the result is made of the
segments of the decoded path, none of which leads upwards.
-/

set_option autoImplicit false

namespace TinyServer.Static

open TinyServer.Http TinyServer.Lib

/-- `'%'`. -/
abbrev PERCENT : UInt8 := 0x25

/-- `'\\'`. -/
abbrev BACKSLASH : UInt8 := 0x5C

/-- The control character 0x7F. -/
abbrev DEL : UInt8 := 0x7F

/-- The room for a path. -/
def STATIC_PATH_MAX : Nat := 4096

/-! ## Decoding -/

/-- `hex_val`. -/
def hexVal (c : UInt8) : Option Nat :=
  if 0x30 ≤ c ∧ c ≤ 0x39 then some (c.toNat - 0x30)
  else if 0x41 ≤ c ∧ c ≤ 0x46 then some (c.toNat - 0x41 + 10)
  else if 0x61 ≤ c ∧ c ≤ 0x66 then some (c.toNat - 0x61 + 10)
  else none

/-- `in[i]`, for the path and what is behind it in memory. -/
def byteAt (inp : List UInt8) (i : Nat) : UInt8 := inp.getD i 0

/-- The byte that the loop of `percent_decode` takes at `i`, and the index of the last
byte it is read from. The bound on an escape is compared in 16 bits. -/
def decodeByte (inp : List UInt8) (inLen i : UInt16) : Option (UInt8 × UInt16) :=
  let c := byteAt inp i.toNat
  if c = PERCENT then
    if inLen ≤ i + 2 then none
    else
      match hexVal (byteAt inp (i.toNat + 1)), hexVal (byteAt inp (i.toNat + 2)) with
      | some hi, some lo =>
          let c := UInt8.ofNat (hi <<< 4 ||| lo)
          if c = SLASH ∨ c = BACKSLASH then none else some (c, i + 2)
      | _, _ => none
  else some (c, i)

/-- The loop of `percent_decode`. A turn puts a byte into `out`, so `outCap` turns are
enough. -/
def decodeLoop (inp : List UInt8) (inLen : UInt16) (outCap : Nat) :
    Nat → UInt16 → List UInt8 → Option (List UInt8)
  | 0, _, _ => none
  | n + 1, i, out =>
      if i < inLen then
        match decodeByte inp inLen i with
        | none => none
        | some (c, j) =>
            if c < 0x20 ∨ c = DEL then none
            else if outCap ≤ out.length + 1 then none
            else decodeLoop inp inLen outCap n (j + 1) (out ++ [c])
      else if outCap ≤ out.length then none
      else some out

/-- `percent_decode`. -/
def percentDecode (inp : List UInt8) (inLen : UInt16) (outCap : Nat) : Option (List UInt8) :=
  (decodeLoop inp inLen outCap (outCap + 1) 0 []).filter (· ≠ [])

/-! ## Normalizing -/

/-- The outer loop of `normalize_path` over the bytes left: skip slashes, take a
segment, check it and append it. -/
def normalizeLoop (allowDotfiles : Bool) (outCap : Nat) :
    Nat → List UInt8 → List UInt8 → Option (List UInt8)
  | 0, _, out => some out
  | n + 1, p, out =>
      match p.dropWhile (· == SLASH) with
      | [] => some out
      | c :: p =>
          let seg := (c :: p).takeWhile (· != SLASH)
          if seg.any fun c => c == BACKSLASH || c == 0 then none
          else if seg = [DOT] then none
          else if seg = [DOT, DOT] then none
          else if c = DOT ∧ allowDotfiles = false then none
          else if out ≠ [] ∧ outCap ≤ out.length + 1 then none
          else
            let out := if out = [] then out else out ++ [SLASH]
            if outCap ≤ out.length + seg.length then none
            else normalizeLoop allowDotfiles outCap n ((c :: p).dropWhile (· != SLASH)) (out ++ seg)

/-- `normalize_path`. -/
def normalizePath (allowDotfiles : Bool) (inp : List UInt8) (outCap : Nat) :
    Option (List UInt8) :=
  if inp.head? = some SLASH then
    match normalizeLoop allowDotfiles outCap inp.length inp.tail [] with
    | none => none
    | some out =>
        if out = [] ∨ inp.getLast? = some SLASH then
          let idx := if out = [] then cstr "index.html" else cstr "/index.html"
          if outCap ≤ out.length + idx.length then none else some (out ++ idx)
        else if outCap ≤ out.length then none
        else some out
  else none

/-! ## What they are for -/

/-- One pass from left to right: a byte stands for itself, an escape for its value.
An escape is no separator, and nothing is a control byte. -/
inductive Decodes : List UInt8 → List UInt8 → Prop
  | nil : Decodes [] []
  | byte {url decoded : List UInt8} (c : UInt8) (hc : c ≠ PERCENT) (hctl : ¬ (c < 0x20 ∨ c = DEL))
      (h : Decodes url decoded) : Decodes (c :: url) (c :: decoded)
  | escape {url decoded : List UInt8} (x y c : UInt8) (hi lo : Nat) (hx : hexVal x = some hi)
      (hy : hexVal y = some lo) (hc : c.toNat = 16 * hi + lo) (hsep : c ≠ SLASH ∧ c ≠ BACKSLASH)
      (hctl : ¬ (c < 0x20 ∨ c = DEL)) (h : Decodes url decoded) :
      Decodes (PERCENT :: x :: y :: url) (c :: decoded)

/-- A segment that leads down, to an entry the policy allows. -/
structure PlainSegment (allowDotfiles : Bool) (s : List UInt8) : Prop where
  nonempty : s ≠ []
  dot : s ≠ [DOT]
  dotdot : s ≠ [DOT, DOT]
  bytes : ∀ c ∈ s, c ≠ SLASH ∧ c ≠ BACKSLASH ∧ c ≠ 0 ∧ ¬ (c < 0x20 ∨ c = DEL)
  dotfile : allowDotfiles = false → s.head? ≠ some DOT

/-- Where a path leads from the directory `dir`, both as lists of names. -/
def walk : List (List UInt8) → List (List UInt8) → List (List UInt8)
  | dir, [] => dir
  | dir, s :: ss =>
      if s = [] ∨ s = [DOT] then walk dir ss
      else if s = [DOT, DOT] then walk dir.dropLast ss
      else walk (dir ++ [s]) ss

/-- The segments of the served path. -/
def pathSegments (decoded : List UInt8) : List (List UInt8) :=
  pieces SLASH decoded ++
    if decoded.getLast? = some SLASH then [cstr "index.html"] else []

/-- `rel` is the path of `url` below the served directory. -/
structure NamesBeneath (allowDotfiles : Bool) (url decoded rel : List UInt8) : Prop where
  decodes : Decodes url decoded
  segments : pathSegments decoded ≠ []
  join : rel = [SLASH].intercalate (pathSegments decoded)
  plain : ∀ s ∈ pathSegments decoded, PlainSegment allowDotfiles s
  nonempty : rel ≠ []
  short : rel.length < STATIC_PATH_MAX
  beneath : ∀ dir, walk dir (rel.splitOn SLASH) = dir ++ pathSegments decoded

/-! ## The decoded path -/

section Decode

variable {inp : List UInt8} {inLen i : UInt16} {outCap : Nat}

theorem hexVal_lt {c : UInt8} {v : Nat} (h : hexVal c = some v) : v < 16 := by
  unfold hexVal at h
  simp only [UInt8.le_iff_toNat_le, UInt8.reduceToNat] at h
  split at h
  · rw [← Option.some.inj h]
    omega
  split at h
  · rw [← Option.some.inj h]
    omega
  split at h
  · rw [← Option.some.inj h]
    omega
  · cases h

/-- The two digits of an escape are its value. -/
theorem escape_toNat {hi lo : Nat} (hhi : hi < 16) (hlo : lo < 16) :
    (UInt8.ofNat (hi <<< 4 ||| lo)).toNat = 16 * hi + lo := by
  have h : hi <<< 4 ||| lo = hi * 16 + lo := by
    rw [← Nat.shiftLeft_add_eq_or_of_lt (by omega : lo < 2 ^ 4), Nat.shiftLeft_eq]
  rw [h, UInt8.toNat_ofNat']
  omega

theorem add_toNat {k : UInt16} (h : i.toNat + k.toNat < 65536) :
    (i + k).toNat = i.toNat + k.toNat := by
  rw [UInt16.toNat_add]
  exact Nat.mod_eq_of_lt h

/-- The bytes of the path from an index on. -/
theorem drop_eq_byteAt {k : Nat} (hk : k < inLen.toNat) (hne : byteAt inp k ≠ 0) :
    (inp.take inLen.toNat).drop k = byteAt inp k :: (inp.take inLen.toNat).drop (k + 1) := by
  have hlt : k < inp.length := by
    by_contra hle
    apply hne
    unfold byteAt
    rw [List.getD_eq_getElem?_getD, List.getElem?_eq_none (Nat.le_of_not_lt hle), Option.getD_none]
  rw [List.drop_eq_getElem_cons (by rw [List.length_take]; omega)]
  unfold byteAt
  rw [List.getElem_take, List.getD_eq_getElem?_getD, List.getElem?_eq_getElem hlt, Option.getD_some]

/-- What one turn takes from the path. -/
theorem decodeByte_decodes {c : UInt8} {j : UInt16} (h : decodeByte inp inLen i = some (c, j))
    (hi : i < inLen) (hwrap : i.toNat + 3 < 65536) (hctl : ¬ (c < 0x20 ∨ c = DEL)) :
    (j + 1).toNat ≤ i.toNat + 3 ∧ ∀ dec,
      Decodes ((inp.take inLen.toNat).drop (j + 1).toNat) dec →
        Decodes ((inp.take inLen.toNat).drop i.toNat) (c :: dec) := by
  have hi' : i.toNat < inLen.toNat := hi
  unfold decodeByte at h
  simp only at h
  split at h
  · rename_i hpercent
    split at h
    · cases h
    rename_i hroom
    have h2 : (i + 2).toNat = i.toNat + 2 := add_toNat (by simp; omega)
    have hroom' : i.toNat + 2 < inLen.toNat := by
      have : ¬ inLen.toNat ≤ (i + 2).toNat := hroom
      omega
    split at h
    · rename_i hi lo hx hy
      split at h
      · cases h
      rename_i hsep
      rw [not_or] at hsep
      cases h
      have h3 : (i + 2 + 1).toNat = i.toNat + 3 := by
        rw [add_toNat (by rw [h2]; simp; omega), h2]
        rfl
      rw [h3]
      refine ⟨le_rfl, fun dec hdec => ?_⟩
      -- A digit is not the NUL behind the end of memory.
      have hne : ∀ k v, hexVal (byteAt inp k) = some v → byteAt inp k ≠ 0 := by
        intro k v hv hzero
        rw [hzero] at hv
        cases hv
      rw [drop_eq_byteAt hi' (by rw [hpercent]; decide), hpercent,
        drop_eq_byteAt (by omega) (hne _ _ hx), drop_eq_byteAt (by omega) (hne _ _ hy)]
      exact .escape _ _ _ hi lo hx hy (escape_toNat (hexVal_lt hx) (hexVal_lt hy)) hsep hctl hdec
    · cases h
  · rename_i hpercent
    cases h
    have h1 : (i + 1).toNat = i.toNat + 1 := add_toNat (by simp; omega)
    rw [h1]
    refine ⟨by omega, fun dec hdec => ?_⟩
    have hne : byteAt inp i.toNat ≠ 0 := by
      intro hzero
      exact hctl (Or.inl (by rw [hzero]; decide))
    rw [drop_eq_byteAt hi' hne]
    exact .byte _ hpercent hctl hdec

/-- The 16 bits of the index are enough: a byte of `out` stands for at most three bytes
of the path, and `out` has room for fewer than `2 ^ 16 / 3`. -/
theorem decodeLoop_decodes (hcap : 3 * outCap + 3 < 65536) (n : Nat) :
    ∀ {i : UInt16} {out res : List UInt8}, i.toNat ≤ 3 * out.length → out.length ≤ outCap →
      decodeLoop inp inLen outCap n i out = some res →
        ∃ dec, res = out ++ dec ∧ Decodes ((inp.take inLen.toNat).drop i.toNat) dec ∧
          res.length < outCap := by
  induction n with
  | zero => exact fun _ _ h => nomatch h
  | succ n ih =>
      intro i out res hi hout h
      rw [decodeLoop] at h
      split at h
      · rename_i hlt
        split at h
        · cases h
        rename_i c j hbyte
        split at h
        · cases h
        rename_i hctl
        split at h
        · cases h
        rename_i hroom
        obtain ⟨hj, hdec⟩ := decodeByte_decodes hbyte hlt (by omega) hctl
        have hlen : (out ++ [c]).length = out.length + 1 := by simp
        obtain ⟨dec, hres, hd, hshort⟩ := ih (by omega) (by omega) h
        refine ⟨c :: dec, ?_, hdec dec hd, hshort⟩
        rw [hres, List.append_assoc]
        rfl
      · rename_i hend
        split at h
        · cases h
        · rename_i hshort
          rw [← Option.some.inj h]
          refine ⟨[], (List.append_nil _).symm, ?_, by omega⟩
          have hle : inLen.toNat ≤ i.toNat := Nat.le_of_not_lt hend
          rw [List.drop_of_length_le (by rw [List.length_take]; omega)]
          exact .nil

/-- `percent_decode` decodes the path once, from left to right. -/
theorem percentDecode_decodes (hcap : 3 * outCap + 3 < 65536) {decoded : List UInt8}
    (h : percentDecode inp inLen outCap = some decoded) :
    Decodes (inp.take inLen.toNat) decoded ∧ decoded ≠ [] ∧ decoded.length < outCap := by
  unfold percentDecode at h
  obtain ⟨hloop, hne⟩ := Option.filter_eq_some_iff.1 h
  obtain ⟨dec, hres, hdec, hshort⟩ := decodeLoop_decodes hcap _ (Nat.zero_le _) (Nat.zero_le _) hloop
  rw [List.nil_append] at hres
  rw [hres] at hne hshort ⊢
  exact ⟨hdec, by simpa using hne, hshort⟩

/-- A decoded path has no control byte. -/
theorem Decodes.no_control {url decoded : List UInt8} (h : Decodes url decoded) :
    ∀ c ∈ decoded, ¬ (c < 0x20 ∨ c = DEL) := by
  induction h with
  | nil => exact nofun
  | byte c hc hctl h ih =>
      intro d hd
      rcases List.mem_cons.1 hd with rfl | hd
      · exact hctl
      · exact ih d hd
  | escape x y c hi lo hx hy hc hsep hctl h ih =>
      intro d hd
      rcases List.mem_cons.1 hd with rfl | hd
      · exact hctl
      · exact ih d hd

end Decode

/-! ## The path below the directory -/

section Normalize

variable {allowDotfiles : Bool} {outCap : Nat}

/-- The path made of `segs`. -/
def joined (segs : List (List UInt8)) : List UInt8 := [SLASH].intercalate segs

theorem joined_ne {segs : List (List UInt8)} (h : ∀ s ∈ segs, s ≠ []) (hne : segs ≠ []) :
    joined segs ≠ [] := by
  cases segs with
  | nil => exact absurd rfl hne
  | cons s ss =>
      have hs := h s List.mem_cons_self
      cases ss with
      | nil => simpa [joined] using hs
      | cons s' ss =>
          unfold joined
          rw [List.intercalate_cons_cons]
          simp [hs]

/-- Putting one more segment at the end, with a slash before it unless it is the first. -/
theorem joined_concat {segs : List (List UInt8)} (h : ∀ s ∈ segs, s ≠ []) (seg : List UInt8) :
    (if joined segs = [] then joined segs else joined segs ++ [SLASH]) ++ seg =
      joined (segs ++ [seg]) := by
  by_cases hne : segs = []
  · rw [hne]
    simp [joined]
  · rw [if_neg (joined_ne h hne)]
    unfold joined
    rw [intercalate_concat seg hne, List.append_assoc]
    rfl

/-- What the checks on a segment leave of it, whose bytes are those of a decoded path. -/
theorem plainSegment_of_checks {c : UInt8} {seg : List UInt8} (hhead : seg.head? = some c)
    (hslash : SLASH ∉ seg) (hbytes : ∀ d ∈ seg, ¬ (d < 0x20 ∨ d = DEL))
    (hback : ¬ (seg.any fun c => c == BACKSLASH || c == 0) = true) (hdot : seg ≠ [DOT])
    (hdotdot : seg ≠ [DOT, DOT]) (hfile : ¬ (c = DOT ∧ allowDotfiles = false)) :
    PlainSegment allowDotfiles seg := by
  constructor
  case nonempty =>
    rintro rfl
    cases hhead
  case dot => exact hdot
  case dotdot => exact hdotdot
  case bytes =>
    intro d hd
    have hany : ¬ (d = BACKSLASH ∨ d = 0) := by
      intro h
      apply hback
      rw [List.any_eq_true]
      refine ⟨d, hd, ?_⟩
      simpa using h
    rw [not_or] at hany
    refine ⟨?_, hany.1, hany.2, hbytes d hd⟩
    rintro rfl
    exact hslash hd
  case dotfile =>
    intro hdis hd
    rw [hhead] at hd
    exact hfile ⟨Option.some.inj hd, hdis⟩

/-- Each turn appends the next piece of what is left. -/
theorem normalizeLoop_pieces (n : Nat) : ∀ {p out : List UInt8} {done : List (List UInt8)}
    {res : List UInt8}, p.length ≤ n → (∀ d ∈ p, ¬ (d < 0x20 ∨ d = DEL)) →
      (∀ s ∈ done, PlainSegment allowDotfiles s) → out = joined done → (out = [] ∨ out.length < outCap) →
      normalizeLoop allowDotfiles outCap n p out = some res →
        res = joined (done ++ pieces SLASH p) ∧
          (∀ s ∈ done ++ pieces SLASH p, PlainSegment allowDotfiles s) ∧
          (res = [] ∨ res.length < outCap) := by
  induction n with
  | zero =>
      intro p out done res hn hp hdone hout hlen h
      rw [List.length_eq_zero_iff.1 (Nat.le_zero.1 hn), pieces_nil, List.append_nil]
      rw [← Option.some.inj h]
      exact ⟨hout, hdone, hlen⟩
  -- One piece a turn; the rest is shorter, so the fuel is enough.
  | succ n ih =>
      intro p out done res hn hp hdone hout hlen h
      rw [normalizeLoop] at h
      rw [← pieces_dropWhile]
      have hsuffix : p.dropWhile (· == SLASH) <:+ p := List.dropWhile_suffix _
      generalize hq : p.dropWhile (· == SLASH) = q at h hsuffix
      cases q with
      -- Only slashes are left.
      | nil =>
          rw [pieces_nil, List.append_nil, ← Option.some.inj h]
          exact ⟨hout, hdone, hlen⟩
      | cons c q =>
          have hc : c ≠ SLASH := by
            have hnot := List.head?_dropWhile_not (· == SLASH) p
            rw [hq] at hnot
            simpa using hnot
          have hmem : ∀ d ∈ c :: q, ¬ (d < 0x20 ∨ d = DEL) := fun d hd =>
            hp d (hsuffix.subset hd)
          simp only at h
          have hslash : SLASH ∉ (c :: q).takeWhile (· != SLASH) := not_mem_takeWhile_ne (c :: q)
          have hhead : ((c :: q).takeWhile (· != SLASH)).head? = some c := by
            rw [List.takeWhile_cons_of_pos (by simpa using hc)]
            rfl
          have hsub : ∀ d ∈ (c :: q).takeWhile (· != SLASH), d ∈ c :: q := fun d hd =>
            (List.takeWhile_prefix _).subset hd
          have hrest : ((c :: q).dropWhile (· != SLASH)).length ≤ n := by
            rw [List.dropWhile_cons_of_pos (by simpa using hc)]
            have h1 := (List.dropWhile_suffix (l := q) (· != SLASH)).length_le
            have h2 := hsuffix.length_le
            rw [List.length_cons] at h2
            omega
          have hmem' : ∀ d ∈ (c :: q).dropWhile (· != SLASH), ¬ (d < 0x20 ∨ d = DEL) := fun d hd =>
            hmem d ((List.dropWhile_suffix _).subset hd)
          rw [pieces_takeWhile q hc]
          generalize (c :: q).takeWhile (· != SLASH) = seg at h hslash hhead hsub ⊢
          generalize (c :: q).dropWhile (· != SLASH) = rest at h hrest hmem' ⊢
          -- The checks on the piece, in the order of the source.
          split at h
          · cases h
          rename_i hback
          split at h
          · cases h
          rename_i hdot
          split at h
          · cases h
          rename_i hdotdot
          split at h
          · cases h
          rename_i hfile
          split at h
          · cases h
          rename_i hroom
          rw [hout, ← List.length_append,
            joined_concat (fun s hs => (hdone s hs).nonempty)] at h
          split at h
          · cases h
          rename_i hfits
          -- A piece that passes them is a plain segment.
          have hplain := plainSegment_of_checks hhead hslash (fun d hd => hmem d (hsub d hd)) hback
            hdot hdotdot hfile
          have hdone' : ∀ s ∈ done ++ [seg], PlainSegment allowDotfiles s := by
            intro s hs
            rcases List.mem_append.1 hs with hs | hs
            · exact hdone s hs
            · rw [List.mem_singleton.1 hs]
              exact hplain
          have hres := ih hrest hmem' hdone' rfl (Or.inr (Nat.lt_of_not_le hfits)) h
          rw [List.append_assoc] at hres
          exact hres

theorem indexHtml_plain : PlainSegment allowDotfiles (cstr "index.html") := by
  have hbytes : (cstr "index.html").all (fun c => decide (c ≠ SLASH ∧ c ≠ BACKSLASH ∧ c ≠ 0 ∧
      ¬ (c < 0x20 ∨ c = DEL))) = true := by decide
  exact ⟨by decide, by decide, by decide,
    fun c hc => of_decide_eq_true (List.all_eq_true.1 hbytes c hc), fun _ => by decide⟩

/-- `normalize_path` joins the segments of the path. -/
theorem normalizePath_joined {decoded rel : List UInt8} (hctl : ∀ d ∈ decoded, ¬ (d < 0x20 ∨ d = DEL))
    (h : normalizePath allowDotfiles decoded outCap = some rel) :
    rel = joined (pathSegments decoded) ∧ pathSegments decoded ≠ [] ∧
      (∀ s ∈ pathSegments decoded, PlainSegment allowDotfiles s) ∧ rel.length < outCap := by
  unfold normalizePath at h
  split at h
  swap
  · cases h
  rename_i hhead
  split at h
  · cases h
  rename_i out hloop
  cases decoded with
  | nil => cases hhead
  | cons c p =>
      have hc : c = SLASH := Option.some.inj hhead
      have hlen : p.length ≤ (c :: p).length := Nat.le_succ _
      have hplain₀ : ∀ s ∈ ([] : List (List UInt8)), PlainSegment allowDotfiles s := nofun
      obtain ⟨hout, hplain, hshort⟩ := normalizeLoop_pieces (c :: p).length hlen
        (fun d hd => hctl d (List.mem_cons_of_mem c hd)) hplain₀ rfl (Or.inl rfl) hloop
      have hpieces : pieces SLASH (c :: p) = pieces SLASH p := by rw [hc, pieces_sep_cons]
      rw [List.nil_append, ← hpieces] at hout hplain
      have hiff : out = [] ↔ pieces SLASH (c :: p) = [] := by
        rw [hout]
        refine ⟨fun h => ?_, fun h => by rw [h]; rfl⟩
        by_contra hne
        exact joined_ne (fun s hs => (hplain s hs).nonempty) hne h
      by_cases hlast : (c :: p).getLast? = some SLASH
      · have hsegs : pathSegments (c :: p) = pieces SLASH (c :: p) ++ [cstr "index.html"] := by
          unfold pathSegments
          rw [if_pos hlast]
        rw [if_pos (Or.inr hlast)] at h
        simp only at h
        -- The name of the index file, with a slash unless it comes first.
        have happ : out ++ (if out = [] then cstr "index.html" else cstr "/index.html") =
            joined (pathSegments (c :: p)) := by
          rw [hsegs, ← joined_concat (fun s hs => (hplain s hs).nonempty), ← hout]
          split
          · rfl
          · rw [List.append_assoc]
            rfl
        rw [← List.length_append, happ] at h
        split at h
        · cases h
        · rename_i hroom
          rw [← Option.some.inj h]
          refine ⟨rfl, ?_, ?_, Nat.lt_of_not_le hroom⟩
          · rw [hsegs]
            exact fun hnil => List.cons_ne_nil _ _ (List.append_eq_nil_iff.1 hnil).2
          · intro s hs
            rw [hsegs] at hs
            rcases List.mem_append.1 hs with hs | hs
            · exact hplain s hs
            · rw [List.mem_singleton.1 hs]
              exact indexHtml_plain
      -- The path does not end in a slash, so there is no index name.
      · have hsegs : pathSegments (c :: p) = pieces SLASH (c :: p) := by
          unfold pathSegments
          rw [if_neg hlast, List.append_nil]
        have hne : pieces SLASH (c :: p) ≠ [] := by
          intro hnil
          apply hlast
          have hmem := List.getLast_mem (List.cons_ne_nil c p)
          rw [List.getLast?_eq_some_getLast (List.cons_ne_nil c p),
            eq_sep_of_pieces_nil hnil _ hmem]
        rw [if_neg (by rw [not_or, hiff]; exact ⟨hne, hlast⟩)] at h
        split at h
        · cases h
        · rename_i hroom
          rw [← Option.some.inj h, hsegs]
          exact ⟨hout, hne, hplain, Nat.lt_of_not_le hroom⟩

/-- Plain segments lead down. -/
theorem walk_plain {segs : List (List UInt8)} (h : ∀ s ∈ segs, PlainSegment allowDotfiles s) :
    ∀ dir, walk dir segs = dir ++ segs := by
  induction segs with
  | nil => exact fun dir => (List.append_nil dir).symm
  | cons s ss ih =>
      intro dir
      have hs := h s List.mem_cons_self
      rw [walk, if_neg (by rw [not_or]; exact ⟨hs.nonempty, hs.dot⟩), if_neg hs.dotdot,
        ih fun s' hs' => h s' (List.mem_cons_of_mem s hs'), List.append_assoc]
      rfl

end Normalize

/-- Every path that passes both functions names something beneath the directory. -/
theorem urlPath_namesBeneath (inp : List UInt8) (inLen : UInt16) (allowDotfiles : Bool)
    {decoded rel : List UInt8} (hdecode : percentDecode inp inLen STATIC_PATH_MAX = some decoded)
    (hnorm : normalizePath allowDotfiles decoded STATIC_PATH_MAX = some rel) :
    NamesBeneath allowDotfiles (inp.take inLen.toNat) decoded rel := by
  obtain ⟨hdec, -, -⟩ := percentDecode_decodes (by decide) hdecode
  obtain ⟨hrel, hne, hplain, hshort⟩ := normalizePath_joined hdec.no_control hnorm
  have hparts : ∀ s ∈ pathSegments decoded, s ≠ [] := fun s hs => (hplain s hs).nonempty
  constructor
  case decodes => exact hdec
  case segments => exact hne
  case join => exact hrel
  case plain => exact hplain
  case nonempty =>
    rw [hrel]
    exact joined_ne hparts hne
  case short => exact hshort
  case beneath =>
    intro dir
    have hslash : ∀ s ∈ pathSegments decoded, SLASH ∉ s := fun s hs hmem =>
      ((hplain s hs).bytes SLASH hmem).1 rfl
    rw [hrel]
    unfold joined
    rw [List.splitOn_intercalate SLASH hslash hne]
    exact walk_plain hplain dir

/-- A path with an escape, a repeated slash and a slash at its end. -/
theorem urlPath_namesBeneath_dir :
    NamesBeneath false ((cstr "/a%20b//%2525/ HTTP/1.1").take 14) (cstr "/a b//%25/")
      (cstr "a b/%25/index.html") :=
  urlPath_namesBeneath (cstr "/a%20b//%2525/ HTTP/1.1") 14 false (by decide) (by decide)

end TinyServer.Static
