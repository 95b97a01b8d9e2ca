import TinyServer.Proxy.Says
import TinyServer.Static.Steps

/-!
# The answers of `static.c`

Every exit of `static_serve` and `static_begin_file` arms one response, whose head says
what `hc->keep` says, and keeps the connection only for a request that allows it
(`Armed`). The request and the bytes on the wire stay as they are.
-/

set_option autoImplicit false

namespace TinyServer.Static

open TinyServer.Http TinyServer.Net
open TinyServer.Proxy (Says saysCheck connectionValue isConnection headOf fieldLine OnLine)

/-- The status line of the text has the status. -/
def StatusLine (text : List UInt8) (status : Nat) : Prop :=
  text.take 12 = cstr "HTTP/1.1 " ++
    [status / 100, status / 10 % 10, status % 10].map fun d => UInt8.ofNat (48 + d)

instance (text : List UInt8) (status : Nat) : Decidable (StatusLine text status) := decEq _ _

/-- The statuses of the fixed responses of `static.c`. -/
def FIXED_STATUSES : List Nat := [301, 400, 403, 404, 405, 500]

/-! ## Texts -/

theorem cr_not_mem_formatLld (n : Int) : CR ∉ formatLld n := by
  unfold formatLld
  intro h
  rcases List.mem_append.1 h with h | h
  · split at h
    · exact absurd h (by decide)
    · exact absurd h List.not_mem_nil
  · split at h
    · exact absurd h (by decide)
    · obtain ⟨d, hd, he⟩ := List.mem_map.1 h
      have hlt := Nat.digits_lt_base (by decide) (List.mem_reverse.1 hd)
      interval_cases d <;> exact absurd he (by decide)

/-- The fields of a 200. -/
def okFields (size : Int) (mime : List UInt8) (keep : Bool) : List (List UInt8 × List UInt8) :=
  [(cstr "Content-Length", SP :: formatLld size), (cstr "Content-Type", SP :: mime),
    (cstr "Connection", SP :: connectionText keep)]

/-- The fields of a 301. -/
def redirectFields (path query : List UInt8) (keep : Bool) : List (List UInt8 × List UInt8) :=
  [(cstr "Location", SP :: (formatSlice path ++ cstr "/" ++
      if query = [] then [] else cstr "?" ++ formatSlice query)),
    (cstr "Content-Length", cstr " 0"), (cstr "Connection", SP :: connectionText keep)]

theorem okHeader_eq (size : Int) (mime : List UInt8) (keep : Bool) :
    okHeader size mime keep = headOf (cstr "HTTP/1.1 200 OK") (okFields size mime keep) := by
  have h₁ : cstr "HTTP/1.1 200 OK\r\nContent-Length: " =
      cstr "HTTP/1.1 200 OK" ++ (CRLF ++ (cstr "Content-Length" ++ [COLON, SP])) := rfl
  have h₂ : cstr "\r\nContent-Type: " = CRLF ++ (cstr "Content-Type" ++ [COLON, SP]) := rfl
  have h₃ : cstr "\r\nConnection: " = CRLF ++ (cstr "Connection" ++ [COLON, SP]) := rfl
  have h₄ : cstr "\r\n\r\n" = CRLF ++ CRLF := rfl
  unfold okHeader headOf okFields
  rw [h₁, h₂, h₃, h₄]
  simp only [fieldLine, List.map_cons, List.map_nil, List.flatten_cons, List.flatten_nil,
    List.append_assoc, List.cons_append, List.nil_append, List.append_nil]

theorem redirectHeader_eq (path query : List UInt8) (keep : Bool) :
    redirectHeader path query keep =
      headOf (cstr "HTTP/1.1 301 Moved Permanently") (redirectFields path query keep) := by
  have h₁ : cstr "HTTP/1.1 301 Moved Permanently\r\nLocation: " =
      cstr "HTTP/1.1 301 Moved Permanently" ++ (CRLF ++ (cstr "Location" ++ [COLON, SP])) := rfl
  have h₂ : cstr "\r\nContent-Length: 0\r\nConnection: " =
      CRLF ++ (cstr "Content-Length" ++ (COLON :: cstr " 0" ++
        (CRLF ++ (cstr "Connection" ++ [COLON, SP])))) := rfl
  have h₃ : cstr "\r\n\r\n" = CRLF ++ CRLF := rfl
  unfold redirectHeader headOf redirectFields
  rw [h₁, h₂, h₃]
  simp only [fieldLine, List.map_cons, List.map_nil, List.flatten_cons, List.flatten_nil,
    List.append_assoc, List.cons_append, List.nil_append, List.append_nil]

theorem onLine_of {name value : List UInt8} (hname : name ≠ [] ∧ CR ∉ name ∧ COLON ∉ name)
    (hvalue : CR ∉ value) : OnLine (name, SP :: value) := by
  refine ⟨hname.1, hname.2.1, hname.2.2, ?_⟩
  rw [List.mem_cons, not_or]
  exact ⟨by decide, hvalue⟩

theorem connectionText_onLine (keep : Bool) : OnLine (cstr "Connection", SP :: connectionText keep) := by
  cases keep with
  | true => exact ⟨by decide, by decide, by decide, by decide⟩
  | false => exact ⟨by decide, by decide, by decide, by decide⟩

theorem okFields_onLine (size : Int) {mime : List UInt8} (keep : Bool) (hmime : CR ∉ mime) :
    ∀ f ∈ okFields size mime keep, OnLine f := by
  intro f hf
  simp only [okFields, List.mem_cons, List.not_mem_nil, or_false] at hf
  rcases hf with rfl | rfl | rfl
  · exact onLine_of (by decide) (cr_not_mem_formatLld size)
  · exact onLine_of (by decide) hmime
  · exact connectionText_onLine keep

theorem redirectFields_onLine {path query : List UInt8} (keep : Bool) (hpath : CR ∉ path)
    (hquery : CR ∉ query) : ∀ f ∈ redirectFields path query keep, OnLine f := by
  have hslice : ∀ {s : List UInt8}, CR ∉ s → CR ∉ formatSlice s := fun hs hmem =>
    hs ((List.takeWhile_prefix _).subset hmem)
  have htail : CR ∉ (if query = [] then [] else cstr "?" ++ formatSlice query) := by
    split
    · exact List.not_mem_nil
    · rw [List.mem_append, not_or]
      exact ⟨by decide, hslice hquery⟩
  intro f hf
  simp only [redirectFields, List.mem_cons, List.not_mem_nil, or_false] at hf
  rcases hf with rfl | rfl | rfl
  · apply onLine_of (by decide)
    rw [List.mem_append, List.mem_append, not_or, not_or]
    exact ⟨⟨hslice hpath, by decide⟩, htail⟩
  · exact ⟨by decide, by decide, by decide, by decide⟩
  · exact connectionText_onLine keep

/-- Two fields of other names before the Connection field. -/
theorem one_connection {m n u v : List UInt8} (keep : Bool) (hm : m.length ≠ 10)
    (hn : n.length ≠ 10) :
    (([(m, u), (n, v), (cstr "Connection", SP :: connectionText keep)].map
      fun f => (f.1, trimOws f.2)).filter isConnection).map (·.2) = [connectionValue keep] := by
  have hno : ∀ {n v : List UInt8}, n.length ≠ 10 → ¬ isConnection (n, trimOws v) = true :=
    fun h hc => h (of_decide_eq_true hc).1
  rw [List.map_cons, List.map_cons, List.filter_cons_of_neg (hno hm),
    List.filter_cons_of_neg (hno hn)]
  cases keep with
  | true => decide
  | false => decide

theorem okHeader_says (size : Int) {mime : List UInt8} (keep : Bool) (hmime : CR ∉ mime) :
    Says (okHeader size mime keep) keep := by
  rw [okHeader_eq]
  apply Says.of_headOf (by decide) (okFields_onLine size keep hmime)
  exact one_connection keep (by decide) (by decide)

theorem redirectHeader_says {path query : List UInt8} (keep : Bool) (hpath : CR ∉ path)
    (hquery : CR ∉ query) : Says (redirectHeader path query keep) keep := by
  rw [redirectHeader_eq]
  apply Says.of_headOf (by decide) (redirectFields_onLine keep hpath hquery)
  exact one_connection keep (by decide) (by decide)

theorem redirectHeader_line (path query : List UInt8) (keep : Bool) :
    StatusLine (redirectHeader path query keep) 301 := by
  have hsplit : ∀ rest : List UInt8,
      (cstr "HTTP/1.1 301 Moved Permanently\r\nLocation: " ++ rest).take 12 =
        (cstr "HTTP/1.1 301 Moved Permanently\r\nLocation: ").take 12 :=
    fun rest => List.take_append_of_le_length (by decide)
  unfold StatusLine redirectHeader
  simp only [List.append_assoc]
  rw [hsplit]
  decide

/-- The fixed responses, with what they say of the connection. -/
def FIXED_TEXTS : List (List UInt8 × Bool) :=
  [(RESPONSE_400, false), (RESPONSE_403_CLOSE, false), (RESPONSE_403_KEEP, true),
    (RESPONSE_404_CLOSE, false), (RESPONSE_404_KEEP, true), (RESPONSE_405_CLOSE, false),
    (RESPONSE_405_KEEP, true), (RESPONSE_500, false)]

/-- A text that `static.c` arms: a fixed response or a redirect. -/
inductive ArmedText : List UInt8 → Bool → Prop
  | fixed (text : List UInt8) (keep : Bool) (h : (text, keep) ∈ FIXED_TEXTS) : ArmedText text keep
  | redirect (path query : List UInt8) (keep : Bool) (hpath : CR ∉ path) (hquery : CR ∉ query) :
      ArmedText (redirectHeader path query keep) keep

theorem ArmedText.says {text : List UInt8} {keep : Bool} (h : ArmedText text keep) :
    Says text keep := by
  cases h with
  | fixed _ _ h =>
      have hall : ∀ x ∈ FIXED_TEXTS, saysCheck x.1 x.2 = true := by decide +kernel
      exact .of_check (hall (text, keep) h)
  | redirect path query _ hpath hquery => exact redirectHeader_says keep hpath hquery

/-- The head of a file of `n` bytes is armed. -/
structure FileHead (hc : HttpConn) (n : Nat) : Prop where
  head : ∃ mime, FileCache.GoodMime mime ∧ hc.outHdr = okHeader n mime hc.keep
  size : hc.fileSize = n
  small : n < 2 ^ 63
  body : hc.sendBody = decide (hc.req.method = .get ∧ 0 < n)
  method : hc.req.method = .get ∨ hc.req.method = .head

theorem FileHead.says {hc : HttpConn} {n : Nat} (h : FileHead hc n) :
    Says hc.outHdr hc.keep := by
  obtain ⟨mime, hmime, hhead⟩ := h.head
  rw [hhead]
  exact okHeader_says _ _ hmime.2

/-- A response waits to be sent on `hc`. -/
inductive Pending (hc : HttpConn) : Prop
  | fixed (hphase : hc.phase = .writeFixed) (hoff : hc.fixedOff = 0) (hfile : hc.fileFd = none)
      (htext : ArmedText hc.fixed hc.keep) (hline : StatusLine hc.fixed hc.statusCode)
      (hstatus : hc.statusCode ∈ FIXED_STATUSES)
  | file (fd size : Nat) (hphase : hc.phase = .writeHdr) (hoff : hc.outHdrOff = 0)
      (hfile : hc.fileFd = some fd) (hhead : FileHead hc size) (hfrom : hc.fileOff = 0)

theorem Pending.phase {hc : HttpConn} (h : Pending hc) : hc.phase ≠ .read := by
  cases h with
  | fixed hphase =>
      rw [hphase]
      exact nofun
  | file fd size hphase =>
      rw [hphase]
      exact nofun

/-- The handler goes on with the same request: its bytes, and those on the wire, are as
they were. -/
structure SameRequest (h h' : Handler) : Prop where
  req : h'.hc.req = h.hc.req
  buf : h'.hc.buf = h.hc.buf
  headerCap : h'.hc.headerCap = h.hc.headerCap
  timeout : h'.hc.sendTimeoutMs = h.hc.sendTimeoutMs
  traffic : traffic h'.kernel.wire = traffic h.kernel.wire

/-- `h'` answers the request of `h` at the time `now`. -/
structure Armed (now : Nat) (h h' : Handler) : Prop where
  same : SameRequest h h'
  ready : Pending h'.hc
  keep : h'.hc.keep = true → httpShouldKeepalive h.hc.req = true
  due : h'.hc.deadlineMs = now + h.hc.sendTimeoutMs

theorem SameRequest.refl (h : Handler) : SameRequest h h := ⟨rfl, rfl, rfl, rfl, rfl⟩

theorem SameRequest.trans {h h' h'' : Handler} (a : SameRequest h h') (b : SameRequest h' h'') :
    SameRequest h h'' :=
  ⟨b.req.trans a.req, b.buf.trans a.buf, b.headerCap.trans a.headerCap,
    b.timeout.trans a.timeout, b.traffic.trans a.traffic⟩

theorem Aside.same {h h' : Handler} (a : Aside h h') : SameRequest h h' := by
  refine ⟨?_, ?_, ?_, ?_, a.traffic⟩
  · rw [a.hc]
  · rw [a.hc]
  · rw [a.hc]
  · rw [a.hc]

theorem Armed.after {now : Nat} {h h' h'' : Handler} (a : SameRequest h h') (b : Armed now h' h'') :
    Armed now h h'' := by
  refine ⟨a.trans b.same, b.ready, fun hkeep => ?_, ?_⟩
  · rw [← a.req]
    exact b.keep hkeep
  · rw [b.due, a.timeout]

/-! ## Arming -/

namespace Handler

section Arm

variable (h : Handler)

theorem releaseFile_traffic : traffic h.releaseFile.kernel.wire = traffic h.kernel.wire := by
  unfold releaseFile
  split
  · rfl
  split
  · rfl
  unfold staticCacheRelease
  split
  · rfl
  split
  · rfl
  split
  · rfl
  extract_lets uses
  split
  · rfl
  · rfl

theorem releaseFile_arena : h.releaseFile.arena = h.arena := by
  unfold releaseFile
  split
  · rfl
  split
  · rfl
  unfold staticCacheRelease
  split
  · rfl
  split
  · rfl
  split
  · rfl
  extract_lets uses
  split
  · rfl
  · rfl

theorem dropFile_hc : ∃ owned, h.dropFile.hc = { h.hc with
    fileFd := none, fileOwned := owned } := by
  unfold dropFile
  split
  · rename_i hnone
    refine ⟨h.hc.fileOwned, ?_⟩
    rw [← hnone]
  · refine ⟨true, ?_⟩
    show { h.releaseFile.hc with fileFd := none, fileOwned := true } = _
    rw [releaseFile_hc]

theorem dropFile_status : h.dropFile.hc.statusCode = h.hc.statusCode := by
  obtain ⟨owned, hdrop⟩ := dropFile_hc h
  rw [hdrop]

theorem dropFile_traffic : traffic h.dropFile.kernel.wire = traffic h.kernel.wire := by
  unfold dropFile
  split
  · rfl
  · exact releaseFile_traffic h

theorem armClose_status (resp : List UInt8) (status now : Nat) :
    (h.armClose resp status now).hc.statusCode = status :=
  dropFile_status _

variable (status now : Nat)

/-- A fixed response is armed. -/
theorem rearm_armed {hc : HttpConn} (hreq : hc.req = h.hc.req) (hbuf : hc.buf = h.hc.buf)
    (hcap : hc.headerCap = h.hc.headerCap) (htimeout : hc.sendTimeoutMs = h.hc.sendTimeoutMs)
    (hphase : hc.phase = .writeFixed) (hoff : hc.fixedOff = 0) (htext : ArmedText hc.fixed hc.keep)
    (hline : StatusLine hc.fixed hc.statusCode) (hstatus : hc.statusCode ∈ FIXED_STATUSES)
    (hkeep : hc.keep = true → httpShouldKeepalive h.hc.req = true)
    (hdue : hc.deadlineMs = now + h.hc.sendTimeoutMs) :
    Armed now h { h with hc := hc }.dropFile := by
  obtain ⟨owned, hdrop⟩ := dropFile_hc { h with hc := hc }
  refine ⟨⟨?_, ?_, ?_, ?_, dropFile_traffic _⟩, ?_, ?_, ?_⟩
  · rw [hdrop]
    exact hreq
  · rw [hdrop]
    exact hbuf
  · rw [hdrop]
    exact hcap
  · rw [hdrop]
    exact htimeout
  · rw [hdrop]
    exact .fixed hphase hoff rfl htext hline hstatus
  · rw [hdrop]
    exact hkeep
  · rw [hdrop]
    exact hdue

theorem armFixed_armed {closeResp : List UInt8} {keepResp : Option (List UInt8)} (allowKeep : Bool)
    (hstatus : status ∈ FIXED_STATUSES)
    (hclose : (closeResp, false) ∈ FIXED_TEXTS ∧ StatusLine closeResp status)
    (hkeep : ∀ resp, keepResp = some resp → (resp, true) ∈ FIXED_TEXTS ∧ StatusLine resp status) :
    Armed now h (h.armFixed closeResp keepResp allowKeep status now) := by
  unfold armFixed
  split
  · rename_i resp hallow
    obtain ⟨htext, hline⟩ := hkeep resp rfl
    refine rearm_armed h now rfl rfl rfl rfl rfl rfl (.fixed _ _ htext) hline hstatus (fun _ => ?_) rfl
    exact (Bool.and_eq_true_iff.1 hallow).2
  · exact rearm_armed h now rfl rfl rfl rfl rfl rfl (.fixed _ _ hclose.1) hclose.2 hstatus nofun rfl

theorem armClose_armed {resp : List UInt8} (hstatus : status ∈ FIXED_STATUSES)
    (hresp : (resp, false) ∈ FIXED_TEXTS ∧ StatusLine resp status) :
    Armed now h (h.armClose resp status now) :=
  armFixed_armed h status now false hstatus hresp nofun

theorem armKeepable_armed {closeResp keepResp : List UInt8} (hstatus : status ∈ FIXED_STATUSES)
    (hclose : (closeResp, false) ∈ FIXED_TEXTS ∧ StatusLine closeResp status)
    (hkeep : (keepResp, true) ∈ FIXED_TEXTS ∧ StatusLine keepResp status) :
    Armed now h (h.armKeepable closeResp keepResp status now) := by
  refine armFixed_armed h status now true hstatus hclose fun resp hresp => ?_
  rw [← Option.some.inj hresp]
  exact hkeep

theorem arm500_armed : Armed now h (h.armClose RESPONSE_500 500 now) :=
  armClose_armed h 500 now (by decide) ⟨by simp [FIXED_TEXTS], by decide⟩

theorem arm404_armed : Armed now h (h.armKeepable RESPONSE_404_CLOSE RESPONSE_404_KEEP 404 now) :=
  armKeepable_armed h 404 now (by decide) ⟨by simp [FIXED_TEXTS], by decide⟩
    ⟨by simp [FIXED_TEXTS], by decide⟩

theorem arm403_armed : Armed now h (h.armKeepable RESPONSE_403_CLOSE RESPONSE_403_KEEP 403 now) :=
  armKeepable_armed h 403 now (by decide) ⟨by simp [FIXED_TEXTS], by decide⟩
    ⟨by simp [FIXED_TEXTS], by decide⟩

theorem arm405_armed : Armed now h (h.armKeepable RESPONSE_405_CLOSE RESPONSE_405_KEEP 405 now) :=
  armKeepable_armed h 405 now (by decide) ⟨by simp [FIXED_TEXTS], by decide⟩
    ⟨by simp [FIXED_TEXTS], by decide⟩

theorem armOpenError_armed (r : OpenResult) : Armed now h (h.armOpenError r now) := by
  cases r with
  | notFound => exact arm404_armed h now
  | forbidden => exact arm403_armed h now
  | opened fd => exact arm500_armed h now
  | again => exact arm500_armed h now
  | failed => exact arm500_armed h now

theorem bumpAlloc_same {h' : Handler} {size : Nat} (hbump : h.bumpAlloc size = some h') :
    SameRequest h h' ∧ h'.hc = h.hc ∧ h'.cache = h.cache := by
  unfold bumpAlloc at hbump
  split at hbump
  · cases hbump
  · rw [← Option.some.inj hbump]
    exact ⟨⟨rfl, rfl, rfl, rfl, rfl⟩, rfl, rfl⟩

theorem close_same (fd : Nat) : SameRequest h (h.close fd) := ⟨rfl, rfl, rfl, rfl, rfl⟩

theorem armDirRedirect_armed {path : List UInt8} (hpath : CR ∉ path)
    (hquery : CR ∉ h.hc.req.query.bytes h.hc.buf) : Armed now h (h.armDirRedirect path now) := by
  unfold armDirRedirect
  extract_lets query need
  split
  · exact arm500_armed h now
  · rename_i h' hbump
    obtain ⟨hsame, hhc, -⟩ := bumpAlloc_same h hbump
    extract_lets keep src h₁ hdr
    have hsame₁ : SameRequest h h₁ := hsame.trans ⟨rfl, rfl, rfl, rfl, rfl⟩
    split
    · exact .after hsame₁ (arm500_armed h₁ now)
    · have hstatus : 301 ∈ FIXED_STATUSES := by decide
      refine .after hsame₁ (rearm_armed h₁ now rfl rfl rfl rfl rfl rfl ?_ ?_ hstatus (fun hkeep => ?_) rfl)
      · exact .redirect path _ keep hpath hquery
      · exact redirectHeader_line _ _ keep
      · rw [← hkeep]

theorem cork_same (on : Bool) : SameRequest h (h.cork on) := by
  unfold cork
  cases h.hc.fd with
  | none => exact ⟨rfl, rfl, rfl, rfl, rfl⟩
  | some fd => exact ⟨rfl, rfl, rfl, rfl, rfl⟩

theorem cork_armed {h' : Handler} (on : Bool) (ha : Armed now h h') : Armed now h (h'.cork on) := by
  refine ⟨ha.same.trans (cork_same h' on), ?_, ha.keep, ha.due⟩
  cases ha.ready with
  | fixed hphase hoff hfile htext hline hstatus =>
      exact .fixed hphase hoff hfile htext hline hstatus
  | file fd size hphase hoff hfile hhead hfrom =>
      exact .file fd size hphase hoff hfile ⟨hhead.head, hhead.size, hhead.small, hhead.body, hhead.method⟩ hfrom

theorem armRegular_armed (fd : Nat) {size : Int64} {mime : List UInt8} (owned : Bool)
    (hmethod : h.hc.req.method = .get ∨ h.hc.req.method = .head)
    (hgood : FileCache.GoodFile mime size) : Armed now h (h.armRegular fd size mime owned now) := by
  have hgiveUp : ∀ h' : Handler, Armed now h'
      ((if owned then h'.close fd else h').armClose RESPONSE_500 500 now) := by
    intro h'
    split
    · exact .after (close_same h' fd) (arm500_armed _ now)
    · exact arm500_armed h' now
  unfold armRegular
  split
  · exact hgiveUp h
  · rename_i h' hbump
    obtain ⟨hsame, hhc, -⟩ := bumpAlloc_same h hbump
    extract_lets keep src h₁ hdr
    have hsame₁ : SameRequest h h₁ := hsame.trans ⟨rfl, rfl, rfl, rfl, rfl⟩
    split
    · exact .after hsame₁ (hgiveUp h₁)
    · refine .after hsame₁ (cork_armed h₁ now true ⟨⟨rfl, rfl, rfl, rfl, rfl⟩, ?_, fun hkeep => ?_, rfl⟩)
      · have hsize : size.toInt = (size.toInt.toNat : Int) :=
          (Int.toNat_of_nonneg (Int64.le_iff_toInt_le.1 hgood.size)).symm
        have hpos : 0 < size ↔ 0 < size.toInt.toNat := by
          rw [Int64.lt_iff_toInt_lt, Int64.toInt_zero]
          omega
        have hsmall := size.toInt_lt
        refine .file fd size.toInt.toNat rfl rfl rfl ⟨⟨mime, hgood.mime, ?_⟩, rfl, by omega, ?_, ?_⟩ rfl
        · show okHeader size.toInt mime keep = okHeader (size.toInt.toNat : Int) mime keep
          rw [← hsize]
        · show decide (h'.hc.req.method = .get ∧ 0 < size) = decide (h'.hc.req.method = .get ∧ _)
          rw [decide_eq_decide, hpos]
        · show h'.hc.req.method = .get ∨ h'.hc.req.method = .head
          rw [hhc]
          exact hmethod
      · rw [← hkeep]

theorem armRegular_cached (c : FileCache) (fd : Nat) {size : Int64} {mime : List UInt8}
    (owned : Bool) (hmethod : h.hc.req.method = .get ∨ h.hc.req.method = .head)
    (hgood : FileCache.GoodFile mime size) :
    Armed now h ({ h with cache := c }.armRegular fd size mime owned now) := by
  have hsame : SameRequest h { h with cache := c } := ⟨rfl, rfl, rfl, rfl, rfl⟩
  exact .after hsame (armRegular_armed _ now fd owned hmethod hgood)

end Arm

/-! ## Serving -/

section Serve

variable {h : Handler} (now : Nat)

theorem statOpened_armed {o : OpenResult × Handler} {h' : Handler}
    (heq : statOpened o now = .error h') : Armed now o.2 h' := by
  obtain ⟨r, o⟩ := o
  unfold statOpened at heq
  cases r with
  | opened fd =>
      simp only at heq
      split at heq
      · rw [← Except.error.inj heq]
        have hsame : SameRequest o (o.fstat.2.close fd) := ⟨rfl, rfl, rfl, rfl, rfl⟩
        exact .after hsame (arm500_armed _ now)
      · cases heq
  | again | notFound | forbidden | failed =>
      rw [← Except.error.inj heq]
      exact armOpenError_armed o now _

variable (h)

theorem serveCached_armed (rel : List UInt8) (hok : h.cache.Ok)
    (hmethod : h.hc.req.method = .get ∨ h.hc.req.method = .head)
    (hhit : (h.serveCached rel now).1 = true) : Armed now h (h.serveCached rel now).2 := by
  have hinit := fileCacheFind_cache h.cache rel
  unfold serveCached at hhit ⊢
  simp only at hhit ⊢
  split at hhit
  · cases hhit
  · rename_i i e hf
    have haside := fileCacheRecheck_aside { h with cache := (fileCacheFind h.cache rel).1 } i e now
    have hi := fileCacheFind_entry hf
    rw [hinit] at hi haside hhit ⊢
    obtain ⟨hcheck, hentry⟩ := fileCacheRecheck_steps (h := { h with cache := h.cache.init }) now
      hok.init hi
    split at hhit
    · cases hhit
    · rename_i e' he'
      have hgood := (hcheck hok.init).2.1.good i e' (hentry e' he')
      have hsame := haside.same
      refine .after ?_ (armRegular_cached _ now _ e'.fd false ?_ hgood)
      swap
      · rw [hsame.req]
        exact hmethod
      exact ⟨hsame.req, hsame.buf, hsame.headerCap, hsame.timeout, hsame.traffic⟩

theorem serveOpened_armed (useCache : Bool) (rel : List UInt8) (fd : Nat) (st : Stat)
    (hmethod : h.hc.req.method = .get ∨ h.hc.req.method = .head) :
    Armed now h (h.serveOpened useCache rel fd st now) := by
  unfold serveOpened
  split
  · exact .after (close_same h fd) (arm403_armed _ now)
  · rename_i hregular
    have hgood : FileCache.GoodFile (mimeFromPath rel) st.size :=
      ⟨mimeFromPath_good rel, size_of_regular hregular⟩
    extract_lets mime s
    split
    · split
      · exact armRegular_cached h now _ fd false hmethod hgood
      · exact armRegular_cached h now _ fd true hmethod hgood
    · exact armRegular_armed h now fd true hmethod hgood

/-- A request that the table is asked about first is answered, or is as it was. -/
theorem lookup_armed (useCache : Bool) (rel : List UInt8) (hok : h.cache.Ok)
    (hmethod : h.hc.req.method = .get ∨ h.hc.req.method = .head) :
    if (if useCache then h.serveCached rel now else (false, h)).1 = true
    then Armed now h (if useCache then h.serveCached rel now else (false, h)).2
    else Aside h (if useCache then h.serveCached rel now else (false, h)).2 := by
  cases useCache with
  | false => exact .refl h
  | true =>
      simp only [if_true]
      split
      · rename_i hhit
        exact serveCached_armed h now rel hok hmethod hhit
      · rename_i hmiss
        exact serveCached_aside h now rel (by simpa using hmiss)

variable {h}

theorem statOpened_aside {o : OpenResult × Handler} {fd : Nat} {st : Stat} {h' : Handler}
    (heq : statOpened o now = .ok (fd, st, h')) : Aside o.2 h' := by
  obtain ⟨r, o⟩ := o
  unfold statOpened at heq
  cases r with
  | opened x =>
      simp only at heq
      split at heq
      · cases heq
      · cases heq
        exact ⟨rfl, rfl, rfl⟩
  | again | notFound | forbidden | failed => cases heq

variable (h) {redir : List UInt8}

theorem serveIndex_armed (useCache : Bool) (decoded rel : List UInt8) (hok : h.cache.Ok)
    (hmethod : h.hc.req.method = .get ∨ h.hc.req.method = .head)
    (hpath : CR ∉ redir) (hquery : CR ∉ h.hc.req.query.bytes h.hc.buf) :
    Armed now h (h.serveIndex useCache decoded rel redir now) := by
  unfold serveIndex
  split
  · exact armDirRedirect_armed h now hpath hquery
  split
  · exact arm404_armed h now
  extract_lets rel' c
  have hlookup := lookup_armed h now useCache rel' hok hmethod
  split
  · rename_i hhit
    rw [if_pos hhit] at hlookup
    exact hlookup
  · rename_i hmiss
    rw [if_neg hmiss] at hlookup
    have hopen : Aside h (c.2.openUnder rel').2 := hlookup.trans (openUnder_aside c.2 rel')
    split
    · rename_i h' herr
      exact .after hopen.same (statOpened_armed now herr)
    · rename_i fd st h' hstat
      have hsame := (hopen.trans (statOpened_aside now hstat)).same
      refine .after hsame (serveOpened_armed h' now useCache rel' fd st ?_)
      rw [hsame.req]
      exact hmethod

theorem servePath_armed (useCache : Bool) (decoded rel : List UInt8) (hclear : Clear h)
    (hok : h.cache.Ok) (hmethod : h.hc.req.method = .get ∨ h.hc.req.method = .head)
    (hpath : CR ∉ redir) (hquery : CR ∉ h.hc.req.query.bytes h.hc.buf) :
    Armed now h (h.servePath useCache decoded rel redir now) := by
  unfold servePath
  extract_lets c
  have hlookup := lookup_armed h now useCache rel hok hmethod
  have hcache := ((lookup_steps now useCache rel hclear).1 hok).2.1
  split
  · rename_i hhit
    rw [if_pos hhit] at hlookup
    exact hlookup
  · rename_i hmiss
    rw [if_neg hmiss] at hlookup
    have hopen : Aside h (c.2.openUnder rel).2 := hlookup.trans (openUnder_aside c.2 rel)
    split
    · rename_i h' herr
      exact .after hopen.same (statOpened_armed now herr)
    · rename_i fd st h' hstat
      have hcache' := (statOpened_ok now (openUnder_steps c.2 rel) hstat).1 hcache
      have haside := hopen.trans (statOpened_aside now hstat)
      have hmethod' : h'.hc.req.method = .get ∨ h'.hc.req.method = .head := by
        rw [haside.hc]
        exact hmethod
      split
      · have hquery' : CR ∉ (h'.close fd).hc.req.query.bytes (h'.close fd).hc.buf := by
          show CR ∉ h'.hc.req.query.bytes h'.hc.buf
          rw [haside.hc]
          exact hquery
        exact .after (haside.same.trans (close_same h' fd))
          (serveIndex_armed _ now useCache decoded rel hcache'.2.1 hmethod' hpath hquery')
      · exact .after haside.same (serveOpened_armed h' now useCache rel fd st hmethod')

theorem method_of_allowed {method : HttpMethod} (h : ¬ (method ≠ .get ∧ method ≠ .head)) :
    method = .get ∨ method = .head := by
  by_contra hno
  exact h (not_or.1 hno)

/-- `static_serve` answers the request. -/
theorem staticServe_armed (allowDotfiles : Bool) (dirFd : Option Nat) (useCache : Bool)
    (url : List UInt8) (urlLen : UInt16) (hnone : h.hc.fileFd = none) (harena : h.arena = 0)
    (hok : h.cache.Ok) (hpath : CR ∉ redir) (hquery : CR ∉ h.hc.req.query.bytes h.hc.buf) :
    Armed now h (staticServe allowDotfiles h dirFd useCache url urlLen redir now) := by
  unfold staticServe
  split
  · exact arm405_armed h now
  rename_i hother
  split
  · exact arm500_armed h now
  split
  · exact arm500_armed h now
  rename_i h₁ hbump
  obtain ⟨hsame₁, hhc₁, hcache₁⟩ := bumpAlloc_same h hbump
  split
  · exact .after hsame₁ (arm500_armed h₁ now)
  rename_i h₂ hbump₂
  obtain ⟨hsame₂, hhc₂, hcache₂⟩ := bumpAlloc_same h₁ hbump₂
  have hsame := hsame₁.trans hsame₂
  have hclear := bumpTwice_clear hbump hbump₂ hnone harena
  split
  · exact .after hsame (armClose_armed h₂ 400 now (by decide)
      ⟨by simp [FIXED_TEXTS], by decide⟩)
  split
  · exact .after hsame (arm404_armed h₂ now)
  · refine .after hsame (servePath_armed h₂ now useCache _ _ hclear ?_ ?_ hpath ?_)
    · rw [hcache₂, hcache₁]
      exact hok
    · rw [hhc₂, hhc₁]
      exact method_of_allowed hother
    · rw [hhc₂, hhc₁]
      exact hquery

theorem staticBeginFile_armed (path : List UInt8) : Armed now h (h.staticBeginFile path now) := by
  unfold staticBeginFile
  split
  · exact arm405_armed h now
  rename_i hother
  split
  · exact arm500_armed h now
  have hopen := openFile_aside h path
  split
  · rename_i h' herr
    exact .after hopen.same (statOpened_armed now herr)
  · rename_i fd st h' hstat
    have hsame := (hopen.trans (statOpened_aside now hstat)).same
    split
    · exact .after (hsame.trans (close_same h' fd)) (arm403_armed _ now)
    · rename_i hregular
      refine .after hsame (armRegular_armed h' now fd true ?_
        ⟨mimeFromPath_good path, size_of_regular hregular⟩)
      rw [hsame.req]
      exact method_of_allowed hother

end Serve

/-! ## Sending -/

section Send

variable (h : Handler)

theorem cork_phase (on : Bool) : (h.cork on).hc.phase = h.hc.phase := rfl

theorem finishFile_phase : h.finishFile.2.hc.phase = h.hc.phase := by
  show ((h.cork false).releaseFile).hc.phase = h.hc.phase
  rw [releaseFile_hc, cork_phase]

theorem sendFile_phase : h.sendFile.2.hc.phase = h.hc.phase ∧ h.sendFile.1 ≠ .wantRead := by
  unfold sendFile
  extract_lets r src disk h'
  split
  · exact ⟨rfl, nofun⟩
  · exact ⟨rfl, nofun⟩
  · exact ⟨finishFile_phase h', nofun⟩

theorem staticOnWrite_phase (hphase : h.hc.phase ≠ .read) :
    h.staticOnWrite.2.hc.phase ≠ .read ∧ h.staticOnWrite.1 ≠ .wantRead := by
  unfold staticOnWrite
  split
  · extract_lets r src h'
    split
    · exact ⟨hphase, nofun⟩
    · exact ⟨hphase, nofun⟩
    · split
      · refine ⟨?_, nofun⟩
        rw [finishFile_phase]
        exact hphase
      · obtain ⟨hp, hio⟩ := sendFile_phase { h' with hc := { h'.hc with phase := .sendfile } }
        refine ⟨?_, hio⟩
        rw [hp]
        exact nofun
  · obtain ⟨hp, hio⟩ := sendFile_phase h
    refine ⟨?_, hio⟩
    rw [hp]
    exact hphase

/-- A response that is being sent does not turn into a read. -/
theorem httpConnOnWrite_phase (now : Nat) (hphase : h.hc.phase ≠ .read) :
    (h.httpConnOnWrite now).2.hc.phase ≠ .read ∧ (h.httpConnOnWrite now).1 ≠ .wantRead := by
  unfold httpConnOnWrite
  split
  · exact ⟨hphase, nofun⟩
  extract_lets src h'
  split
  · rename_i hfixed
    refine ⟨?_, ?_⟩
    · show h'.hc.phase ≠ .read
      exact hphase
    · show (writeFixed h'.hc h'.kernel).1 ≠ .wantRead
      unfold writeFixed
      simp only
      split <;> exact nofun
  · exact staticOnWrite_phase h' hphase
  · exact staticOnWrite_phase h' hphase
  · rename_i hread
    exact absurd hread hphase

/-- What sending a response and its end leave alone. -/
def lasting (hc : HttpConn) : HttpConn :=
  { hc with
    phase := .read
    corkOn := false
    lastActiveMs := 0
    fixedOff := 0
    outHdrOff := 0
    fileFd := none
    fileOff := 0
    fileOwned := true }

theorem finishFile_lasting : lasting h.finishFile.2.hc = lasting h.hc := by
  show lasting { (h.cork false).releaseFile.hc with fileFd := none, fileOwned := true } = _
  rw [releaseFile_hc]
  rfl

theorem sendFile_lasting : lasting h.sendFile.2.hc = lasting h.hc := by
  unfold sendFile
  extract_lets r src disk h'
  split
  · rfl
  · rfl
  · exact finishFile_lasting h'

theorem staticOnWrite_lasting : lasting h.staticOnWrite.2.hc = lasting h.hc := by
  unfold staticOnWrite
  split
  · extract_lets r src h'
    split
    · rfl
    · rfl
    · split
      · exact finishFile_lasting h'
      · exact sendFile_lasting { h' with hc := { h'.hc with phase := .sendfile } }
  · exact sendFile_lasting h

theorem httpConnOnWrite_lasting (now : Nat) :
    lasting (h.httpConnOnWrite now).2.hc = lasting h.hc := by
  unfold httpConnOnWrite
  split
  · rfl
  extract_lets src h'
  split
  · rfl
  · exact staticOnWrite_lasting h'
  · exact staticOnWrite_lasting h'
  · rfl

/-- What `http_conn_cleanup` changes. -/
theorem httpConnCleanup_conn : ∃ corkOn, h.httpConnCleanup.hc =
    { h.hc with fileFd := none, fileOwned := true, corkOn := corkOn } := by
  unfold httpConnCleanup
  extract_lets h₁ src h₂
  have hhc : h₂.hc = { h.hc with fileFd := none, fileOwned := true } := by
    show { h.releaseFile.hc with fileFd := none, fileOwned := true } = _
    rw [releaseFile_hc]
  split
  · exact ⟨h.hc.corkOn, hhc⟩
  · split
    · refine ⟨false, ?_⟩
      show { h₂.hc with corkOn := false } = _
      rw [hhc]
    · exact ⟨h.hc.corkOn, hhc⟩

/-- A phase changes only from `HTTP_PHASE_WRITE_HDR` to `HTTP_PHASE_SENDFILE`. -/
theorem httpConnOnWrite_next (now : Nat) : (h.httpConnOnWrite now).2.hc.phase = h.hc.phase ∨
    h.hc.phase = .writeHdr ∧ (h.httpConnOnWrite now).2.hc.phase = .sendfile := by
  unfold httpConnOnWrite
  split
  · exact Or.inl rfl
  extract_lets src h'
  have hstatic : h'.staticOnWrite.2.hc.phase = h.hc.phase ∨
      h.hc.phase = .writeHdr ∧ h'.staticOnWrite.2.hc.phase = .sendfile := by
    unfold staticOnWrite
    split
    · rename_i hhdr
      extract_lets r src h''
      split
      · exact Or.inl rfl
      · exact Or.inl rfl
      · split
        · exact Or.inl (finishFile_phase h'')
        · exact Or.inr ⟨hhdr, (sendFile_phase _).1⟩
    · exact Or.inl (sendFile_phase h').1
  split
  · exact Or.inl rfl
  · exact hstatic
  · exact hstatic
  · exact Or.inl rfl

theorem httpConnOnWrite_read (now : Nat) (hphase : h.hc.phase = .read) :
    (h.httpConnOnWrite now).2.hc.fileFd = h.hc.fileFd ∧
      (h.httpConnOnWrite now).2.arena = h.arena := by
  unfold httpConnOnWrite
  split
  · exact ⟨rfl, rfl⟩
  extract_lets src h'
  have hread : h'.hc.phase = .read := hphase
  rw [hread]
  exact ⟨rfl, rfl⟩

end Send

end Handler

end TinyServer.Static
