import TinyServer.Static.UrlExact

/-!
# Percent-encodings (`percent_decode`)

`percent_decode` inverts every encoding of a path that leaves its separators literal, and
accepts nothing else (`percentDecode_encodes`). The look-ahead test of an escape is made in
16 bits; the limit on the output ends the loop before the index could wrap, so that no read
leaves the path.
-/

set_option autoImplicit false

namespace TinyServer.Static

open TinyServer.Http

/-- `Encodes s e`: the bytes of `s` one after the other, each literal or escaped. A percent
sign is escaped, a separator literal. -/
inductive Encodes : List UInt8 → List UInt8 → Prop
  | nil : Encodes [] []
  | literal {s e : List UInt8} (c : UInt8) (hc : c ≠ PERCENT) (h : Encodes s e) :
      Encodes (c :: s) (c :: e)
  | escaped {s e : List UInt8} (c x y : UInt8) (hsep : c ≠ SLASH ∧ c ≠ BACKSLASH)
      (hx : hexVal x = some (c.toNat / 16)) (hy : hexVal y = some (c.toNat % 16)) (h : Encodes s e) :
      Encodes (c :: s) (PERCENT :: x :: y :: e)

/-- A byte that `percent_decode` lets through: `0x20` to `0xFF`, but not DEL. -/
def PathByte (c : UInt8) : Prop := 0x20 ≤ c ∧ c ≠ DEL

theorem pathByte_iff {c : UInt8} : PathByte c ↔ ¬ (c < 0x20 ∨ c = DEL) := by
  rw [PathByte, not_or, UInt8.not_lt]

theorem decodes_iff {s e : List UInt8} : Decodes e s ↔ Encodes s e ∧ ∀ c ∈ s, PathByte c := by
  constructor
  · intro h
    induction h with
    | nil => exact ⟨.nil, nofun⟩
    | byte c hc hctl h ih =>
        exact ⟨.literal c hc ih.1, List.forall_mem_cons.2 ⟨pathByte_iff.2 hctl, ih.2⟩⟩
    | escape x y c hi lo hx hy hc hsep hctl h ih =>
        have hdiv : c.toNat / 16 = hi := by have := hexVal_lt hy; omega
        have hmod : c.toNat % 16 = lo := by have := hexVal_lt hy; omega
        rw [← hdiv] at hx
        rw [← hmod] at hy
        exact ⟨.escaped c x y hsep hx hy ih.1, List.forall_mem_cons.2 ⟨pathByte_iff.2 hctl, ih.2⟩⟩
  · rintro ⟨h, hplain⟩
    induction h with
    | nil => exact .nil
    | literal c hc h ih =>
        obtain ⟨hctl, hrest⟩ := List.forall_mem_cons.1 hplain
        exact .byte c hc (pathByte_iff.1 hctl) (ih hrest)
    | escaped c x y hsep hx hy h ih =>
        obtain ⟨hctl, hrest⟩ := List.forall_mem_cons.1 hplain
        exact .escape x y c _ _ hx hy (by omega) hsep (pathByte_iff.1 hctl) (ih hrest)

theorem Encodes.length_le {s e : List UInt8} (h : Encodes s e) : e.length ≤ 3 * s.length := by
  induction h with
  | nil => exact le_rfl
  | literal c hc h ih =>
      simp only [List.length_cons]
      omega
  | escaped c x y hsep hx hy h ih =>
      simp only [List.length_cons]
      omega

/-! ## The reads -/

/-- Where the turn at `i` reads the path: the byte, and the two digits behind a percent
sign that passes the look-ahead test. -/
def byteReads (inp : List UInt8) (inLen i : UInt16) : List Nat :=
  if byteAt inp i.toNat = PERCENT ∧ ¬ inLen ≤ i + 2 then [i.toNat, i.toNat + 1, i.toNat + 2]
  else [i.toNat]

/-- Where the loop of `percent_decode` reads the path, in `n` turns. -/
def decodeReads (inp : List UInt8) (inLen : UInt16) (outCap : Nat) :
    Nat → UInt16 → List UInt8 → List Nat
  | 0, _, _ => []
  | n + 1, i, out =>
      if i < inLen then
        byteReads inp inLen i ++
          match decodeByte inp inLen i with
          | none => []
          | some (c, j) =>
              -- a control byte is refused once its escape has been read
              if c < 0x20 ∨ c = DEL then []
              else if outCap ≤ out.length + 1 then []
              else decodeReads inp inLen outCap n (j + 1) (out ++ [c])
      else []

section Reads

variable {inp : List UInt8} {inLen i : UInt16} {outCap : Nat}

theorem byteReads_lt (hi : i < inLen) (hwrap : i.toNat + 2 < 65536) :
    ∀ k ∈ byteReads inp inLen i, k < inLen.toNat := by
  have hlt : i.toNat < inLen.toNat := hi
  rw [byteReads]
  split
  · rename_i hroom
    have hskip : (i + 2).toNat = i.toNat + 2 := add_toNat hwrap
    have hin : i.toNat + 2 < inLen.toNat := by
      rw [← hskip]
      exact UInt16.lt_iff_toNat_lt.1 (UInt16.not_le.1 hroom.2)
    intro k hk
    simp only [List.mem_cons, List.not_mem_nil, or_false] at hk
    omega
  · intro k hk
    rw [List.mem_singleton.1 hk]
    exact hlt

/-- The index is at most three times the output, as long as the loop runs. -/
theorem decodeReads_lt (hcap : 3 * outCap + 3 < 65536) (n : Nat) : ∀ {i : UInt16} {out : List UInt8},
    i.toNat ≤ 3 * out.length → out.length ≤ outCap →
      ∀ k ∈ decodeReads inp inLen outCap n i out, k < inLen.toNat := by
  induction n with
  | zero => exact fun _ _ => nofun
  | succ n ih =>
      intro i out hi hout k hk
      rw [decodeReads] at hk
      split at hk
      · rename_i hlt
        rcases List.mem_append.1 hk with hk | hk
        · exact byteReads_lt hlt (by omega) k hk
        · split at hk
          · cases hk
          · rename_i c j hbyte
            split at hk
            · cases hk
            · rename_i hctl
              split at hk
              · cases hk
              · have hnext := (decodeByte_decodes hbyte hlt (by omega) hctl).1
                have hlen : (out ++ [c]).length = out.length + 1 := List.length_append
                exact ih (by omega) (by omega) k hk
      · cases hk

end Reads

/-- `percent_decode` gives back what was encoded, whatever the encoding; what it accepts is
an encoding of its answer; and it reads no byte outside the path, however long it runs. -/
theorem percentDecode_encodes :
    (∀ s e : List UInt8, s ≠ [] → s.length ≤ 4095 → (∀ c ∈ s, PathByte c) → Encodes s e →
      percentDecode e (UInt16.ofNat e.length) STATIC_PATH_MAX = some s) ∧
    ∀ (inp : List UInt8) (inLen : UInt16), inLen.toNat ≤ inp.length →
      (∀ s, percentDecode inp inLen STATIC_PATH_MAX = some s →
        s ≠ [] ∧ s.length ≤ 4095 ∧ (∀ c ∈ s, PathByte c) ∧ Encodes s (inp.take inLen.toNat)) ∧
      ∀ n, ∀ k ∈ decodeReads inp inLen STATIC_PATH_MAX n 0 [], k < inLen.toNat := by
  have hcap : 3 * STATIC_PATH_MAX + 3 < 65536 := by decide
  refine ⟨fun s e hne hlen hplain henc => ?_, fun inp inLen hmem => ⟨fun s hs => ?_, fun n => ?_⟩⟩
  · have hshort := henc.length_le
    have hlength : (UInt16.ofNat e.length).toNat = e.length := by
      rw [UInt16.toNat_ofNat']
      exact Nat.mod_eq_of_lt (by omega)
    apply (percentDecode_iff hcap hlength.le).2
    rw [hlength, List.take_length]
    exact ⟨decodes_iff.2 ⟨henc, hplain⟩, hne, Nat.lt_succ_of_le hlen⟩
  · obtain ⟨hdec, hne, hlen⟩ := (percentDecode_iff hcap hmem).1 hs
    obtain ⟨henc, hplain⟩ := decodes_iff.1 hdec
    exact ⟨hne, Nat.le_of_lt_succ hlen, hplain, henc⟩
  · apply decodeReads_lt hcap
    · exact Nat.zero_le _
    · exact Nat.zero_le _

/-- Two encodings of one path. -/
theorem percentDecode_encodes_space :
    percentDecode (cstr "/a%20b") 6 STATIC_PATH_MAX = some (cstr "/a b") ∧
      percentDecode (cstr "/%61 b") 6 STATIC_PATH_MAX = some (cstr "/a b") := by
  have hplain : ∀ c ∈ cstr "/a b", PathByte c := by
    intro c hc
    have hall : (cstr "/a b").all (fun c => 0x20 ≤ c && c != DEL) = true := by decide
    simpa [PathByte] using List.all_eq_true.1 hall c hc
  have hspace : Encodes (cstr "/a b") (cstr "/a%20b") :=
    .literal _ (by decide) (.literal _ (by decide) (.escaped 0x20 0x32 0x30 (by decide) rfl rfl
      (.literal _ (by decide) .nil)))
  have hletter : Encodes (cstr "/a b") (cstr "/%61 b") :=
    .literal _ (by decide) (.escaped 0x61 0x36 0x31 (by decide) rfl rfl (.literal _ (by decide)
      (.literal _ (by decide) .nil)))
  exact ⟨percentDecode_encodes.1 _ _ (by decide) (by decide) hplain hspace,
    percentDecode_encodes.1 _ _ (by decide) (by decide) hplain hletter⟩

end TinyServer.Static
