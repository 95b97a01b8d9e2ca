import TinyServer.Proxy.Measures
import TinyServer.Proxy.Numerals
import TinyServer.Static.Sent

/-!
# The lengths that `static.c` declares

A text that is armed has no body, and the head of a file declares the size of the file, so a
client knows where the response ends.
-/

set_option autoImplicit false

namespace TinyServer.Static

open TinyServer.Http TinyServer.Proxy

theorem trim_eq_self {v : List UInt8} (h : v.all isDigit = true) : Lib.trim isOws v = v := by
  have hno : ∀ c ∈ v, isOws c = false := by
    intro c hc
    apply isTchar_not_isOws
    simp [isTchar, List.all_eq_true.1 h c hc]
  unfold Lib.trim
  rw [List.dropWhile_eq_self_iff.2, List.rdropWhile_eq_self_iff.2]
  · intro hne
    rw [hno _ (List.getLast_mem hne)]
    exact Bool.false_ne_true
  · intro hlen
    rw [hno _ (List.getElem_mem hlen)]
    exact Bool.false_ne_true

/-- The number is read back from behind the space. -/
theorem parseU64_formatLld {n : Nat} (h : n < 2 ^ 64) :
    parseU64 (trimOws (SP :: formatLld n)) = some n := by
  obtain ⟨hne, hall, hvalue⟩ := formatLld_decimal (n := (n : Int)) (Int.natCast_nonneg n)
  have htrim : trimOws (SP :: formatLld n) = formatLld n := by
    have hpad := Lib.trim_pad (p := isOws) (a := [SP]) (b := []) (by decide) (by decide)
      (trim_eq_self hall)
    rwa [List.append_nil] at hpad
  rw [htrim, parseU64_iff, hvalue]
  exact ⟨hne, hall, h, rfl⟩

/-- The head of a 200 declares the size of the file. -/
theorem okHeader_measures {size : Nat} {mime : List UInt8} (keep : Bool) (hsize : size < 2 ^ 64)
    (hmime : CR ∉ mime) : Measures (okHeader size mime keep) size := by
  rw [okHeader_eq]
  refine .of_headOf (by decide) (okFields_onLine size keep hmime) (by decide) ?_ ?_
  · rfl
  · show parseU64 (trimOws (SP :: formatLld size)) = some size
    exact parseU64_formatLld hsize

theorem redirectHeader_measures {path query : List UInt8} (keep : Bool) (hpath : CR ∉ path)
    (hquery : CR ∉ query) : Measures (redirectHeader path query keep) 0 := by
  rw [redirectHeader_eq]
  refine .of_headOf (by decide) (redirectFields_onLine keep hpath hquery) (by decide) ?_ ?_
  · rfl
  · show parseU64 (trimOws (cstr " 0")) = some 0
    decide

/-- A text that is armed has no body. -/
theorem ArmedText.measures {text : List UInt8} {keep : Bool} (h : ArmedText text keep) :
    Measures text 0 := by
  cases h with
  | fixed _ _ h =>
      have hall : ∀ x ∈ FIXED_TEXTS, measuresCheck x.1 0 = true := by decide +kernel
      exact .of_check (hall (text, keep) h)
  | redirect path query _ hpath hquery => exact redirectHeader_measures keep hpath hquery

theorem FileHead.measures {hc : HttpConn} {n : Nat} (h : FileHead hc n) : Measures hc.outHdr n := by
  obtain ⟨mime, hmime, hhead⟩ := h.head
  rw [hhead]
  exact okHeader_measures hc.keep (h.small.trans (by decide)) hmime.2

end TinyServer.Static
