import TinyServer.Proxy.Calls
import TinyServer.Serve.Dispatched
import TinyServer.Static.Framed

/-!
# Responses on their way

`Slot.Sends` says how the bytes that a client was sent come from the response of its slot, and
`Slot.Told` what they are once the response is complete: a text of the server, a file with a
head that declares its size, or what was relayed. `http_conn_on_write` leads from the one to the
other (`onWrite_told`), whatever the socket takes.
-/

set_option autoImplicit false

namespace TinyServer.Serve

open TinyServer.Http TinyServer.Net TinyServer.Proxy TinyServer.Static TinyServer.Routing
open TinyServer.Lib

/-! ## The texts -/

/-- The fixed answers of `http.c`, `routes.c` and `proxy.c`. -/
def FIXED_ANSWERS : List (List UInt8) :=
  [RESPONSE_400, RESPONSE_431, RESPONSE_501, RESP_404, RESP_500, RESP_501, RESP_405, RESP_411, RESP_502]

/-- A text that is a whole response, with what it says of the connection. -/
inductive OwnText : List UInt8 → Bool → Prop
  | closing {text : List UInt8} (h : text ∈ FIXED_ANSWERS) : OwnText text false
  | armed {text : List UInt8} {keep : Bool} (h : ArmedText text keep) : OwnText text keep

/-- The server's own texts say what their head says of the connection. -/
theorem OwnText.says {text : List UInt8} {keep : Bool} (h : OwnText text keep) : Says text keep := by
  cases h with
  | closing h =>
      have hall : ∀ r ∈ FIXED_ANSWERS, saysCheck r false = true := by decide +kernel
      exact .of_check (hall text h)
  | armed h => exact h.says

/-- It has no body. -/
theorem OwnText.measures {text : List UInt8} {keep : Bool} (h : OwnText text keep) :
    Measures text 0 := by
  cases h with
  | closing h =>
      have hall : ∀ r ∈ FIXED_ANSWERS, measuresCheck r 0 = true := by decide +kernel
      exact .of_check (hall text h)
  | armed h => exact h.measures

/-! ## Responses -/

/-- What goes out before a response. -/
def IsCont (cont : List UInt8) : Prop := cont = [] ∨ cont = CONT_100

/-- How many bytes of a file of `n` bytes are the body of a response to the request. -/
def bodyLength (req : HttpRequest) (n : Nat) : Nat := if req.method = .head then 0 else n

/-- Where the bytes of the file are known, the body is made of its first ones. -/
def FromFile (content : Option (Nat → UInt8)) (body : List UInt8) : Prop :=
  ∀ bytes, content = some bytes → body = fileBytes bytes 0 body.length

/-- A client that frames the response by its head finds the end of the head and of the body
where they are, whatever follows. -/
structure EndsWith (req : HttpRequest) (head body : List UInt8) : Prop where
  ends : findHdrEnd head = some (head.length - 4)
  cut : ∀ rest, (responseFrame req (head ++ (body ++ rest))).cut (body ++ rest) = body
  whole : ∀ rest, (responseFrame req (head ++ (body ++ rest))).Complete (body ++ rest) False

/-- A body of the declared length ends the response. -/
theorem endsWith_of_measures {head body : List UInt8} {n : Nat} {req : HttpRequest}
    (h : Measures head n) (hlen : body.length = bodyLength req n) : EndsWith req head body := by
  unfold bodyLength at hlen
  refine ⟨h.ends, fun rest => ?_, fun rest => ?_⟩
  · rw [h.frame req]
    split
    · rename_i hhead
      rw [if_pos hhead] at hlen
      exact (List.eq_nil_of_length_eq_zero hlen).symm
    · rename_i hhead
      rw [if_neg hhead] at hlen
      show (body ++ rest).take n = body
      rw [← hlen, List.take_left]
  · rw [h.frame req]
    split
    · trivial
    · rename_i hhead
      rw [if_neg hhead] at hlen
      show n ≤ (body ++ rest).length
      rw [List.length_append]
      omega

/-- The bytes `out` are a complete response to the request: a text of the server, a file with
the bytes `content`, if they are known, or what was relayed from the newest of `conns`. The head
says whether the connection is kept, and where the response ends. -/
inductive WholeResponse (content : Option (Nat → UInt8)) (req : HttpRequest) (out : List UInt8)
    (conns : List UpstreamConn) (keep : Bool) : Prop
  | text (cont text : List UInt8) (hcont : IsCont cont) (hout : out = cont ++ text)
      (htext : OwnText text keep) (hkept : Says text keep) (hends : EndsWith req text [])
  | file (n : Nat) (mime body : List UInt8) (hout : out = okHeader n mime keep ++ body)
      (hlen : body.length = bodyLength req n) (hbytes : FromFile content body)
      (hkept : Says (okHeader n mime keep) keep) (hends : EndsWith req (okHeader n mime keep) body)
  | relayed (cont : List UInt8) (hcont : IsCont cont) (r : Response) (rest : List UInt8)
      (hanswer : answer req (received conns) = some (r, rest))
      (hout : out = cont ++ (r.head ++ r.frame.cut rest))
      (hwhole : r.frame.Complete rest (UpstreamClosed conns)) (hkeep : keep = r.keep)

/-- A text that went out is a whole response. -/
theorem WholeResponse.of_text {content : Option (Nat → UInt8)} {req : HttpRequest}
    {conns : List UpstreamConn} {keep : Bool} {cont text out : List UInt8} (hcont : IsCont cont)
    (htext : OwnText text keep) (hout : out = cont ++ text) :
    WholeResponse content req out conns keep :=
  .text cont text hcont hout htext htext.says
    (endsWith_of_measures htext.measures (ite_self 0).symm)

/-- So is the head of a file with as much of the file as its request asks for. -/
theorem WholeResponse.of_file {content : Option (Nat → UInt8)} {hc : HttpConn}
    {conns : List UpstreamConn} {n : Nat} {body out : List UInt8} (hhead : FileHead hc n)
    (hout : out = hc.outHdr ++ body) (hlen : body.length = bodyLength hc.req n)
    (hbytes : FromFile content body) : WholeResponse content hc.req out conns hc.keep := by
  obtain ⟨mime, hmime, heq⟩ := hhead.head
  have hkept := hhead.says
  have hends := endsWith_of_measures hhead.measures hlen
  rw [heq] at hout hkept hends
  exact .file n mime body hout hlen hbytes hkept hends

namespace Slot

/-- A response is being sent: a text, or the head and the bytes of a file. -/
inductive Sends (s : Slot) (content : Option (Nat → UInt8)) : Prop
  | text (cont : List UInt8) (hcont : IsCont cont) (hphase : s.hc.phase = .writeFixed)
      (hout : s.wire.clientOut = cont ++ s.hc.fixed.take s.hc.fixedOff)
      (htext : OwnText s.hc.fixed s.hc.keep)
  | head (n : Nat) (hphase : s.hc.phase = .writeHdr)
      (hout : s.wire.clientOut = s.hc.outHdr.take s.hc.outHdrOff) (hhead : FileHead s.hc n)
      (hoff : s.hc.fileOff = 0)
  | file (n : Nat) (body : List UInt8) (hphase : s.hc.phase = .sendfile)
      (hout : s.wire.clientOut = s.hc.outHdr ++ body) (hhead : FileHead s.hc n)
      (hbody : s.hc.sendBody = true) (hoff : s.hc.fileOff = body.length) (hle : body.length ≤ n)
      (hbytes : FromFile content body)

/-- The whole response of the slot went out. -/
def Told (s : Slot) (content : Option (Nat → UInt8)) : Prop :=
  WholeResponse content s.hc.req s.wire.clientOut s.wire.conns s.hc.keep

end Slot

theorem isCont_contOf (w : World) : IsCont (contOf w) := by
  unfold contOf
  split
  · exact .inr rfl
  · exact .inl rfl

/-! ## Sending -/

section Send

variable (h : Handler)

/-- What the calls of `sendfile` move in one event. -/
def moved : List UInt8 := (Handler.sendfileLoop h.hc.fileSize h.disk.sendfiles h.hc.fileOff).1

/-- `sendfile` adds to what the client was sent, and touches no other bytes. -/
theorem sendFile_traffic : traffic h.sendFile.2.kernel.wire =
    (h.kernel.wire.clientIn, h.kernel.wire.clientOut ++ moved h, h.kernel.wire.conns) := by
  unfold Handler.sendFile
  extract_lets r src disk h'
  split
  · rfl
  · rfl
  · show traffic ((h'.cork false).releaseFile).kernel.wire = _
    rw [Handler.releaseFile_traffic, (Handler.cork_same h' false).traffic]
    rfl

theorem sendFile_off : h.sendFile.2.hc.fileOff = h.hc.fileOff + (moved h).length := by
  unfold Handler.sendFile
  extract_lets r src disk h'
  split
  · rfl
  · rfl
  · show ((h'.cork false).releaseFile).hc.fileOff = _
    rw [Handler.releaseFile_hc]
    rfl

/-- `HTTP_IO_DONE` is returned exactly when the loop over `sendfile` is done. -/
theorem sendFile_done : h.sendFile.1 = .done ↔
    (Handler.sendfileLoop h.hc.fileSize h.disk.sendfiles h.hc.fileOff).2.1 = .done := by
  unfold Handler.sendFile
  extract_lets r src disk h'
  cases hr : r.2.1 with
  | wouldBlock | dead =>
      constructor
      · rintro ⟨⟩
      · rintro ⟨⟩
  | done => exact ⟨fun _ => rfl, fun _ => rfl⟩

theorem finishFile_traffic : traffic h.finishFile.2.kernel.wire = traffic h.kernel.wire := by
  show traffic ((h.cork false).releaseFile).kernel.wire = _
  rw [Handler.releaseFile_traffic, (Handler.cork_same h false).traffic]

end Send

section Write

variable {now : Nat} {t : Turn}

/-- A field that sending leaves alone. -/
theorem of_lasting {α : Type} {hc hc' : HttpConn} (f : HttpConn → α)
    (h : Handler.lasting hc' = Handler.lasting hc) : f (Handler.lasting hc') = f (Handler.lasting hc) :=
  congrArg f h

/-- What sending adds to the record of a slot. -/
structure Sent (t t' : Turn) : Prop where
  trail : t'.trail = t.trail
  clientIn : t'.kernel.wire.clientIn = t.kernel.wire.clientIn
  conns : t'.kernel.wire.conns = t.kernel.wire.conns

/-- The response that a result leaves. -/
def Slot.Left (s : Slot) (content : Option (Nat → UInt8)) : HttpIo → Prop
  | .done => s.Told content
  | .close => True
  | _ => s.Sends content

/-- `sendfile` moves bytes of the file that the slot sends. -/
def Supplied (content : Option (Nat → UInt8)) (h : Handler) : Prop :=
  ∀ bytes, content = some bytes → h.hc.phase = .writeHdr ∨ h.hc.phase = .sendfile →
    Delivers bytes h.hc.fileSize h.hc.fileOff h.disk.sendfiles

variable {content : Option (Nat → UInt8)}

theorem fileHead_lasting {hc hc' : HttpConn} {n : Nat} (h : FileHead hc n)
    (hlast : Handler.lasting hc' = Handler.lasting hc) : FileHead hc' n := by
  have hhdr : hc'.outHdr = hc.outHdr := of_lasting HttpConn.outHdr hlast
  have hsize : hc'.fileSize = hc.fileSize := of_lasting HttpConn.fileSize hlast
  have hbody : hc'.sendBody = hc.sendBody := of_lasting HttpConn.sendBody hlast
  have hreq : hc'.req = hc.req := of_lasting HttpConn.req hlast
  have hkeep : hc'.keep = hc.keep := of_lasting HttpConn.keep hlast
  refine ⟨?_, hsize.trans h.size, h.small, ?_, ?_⟩
  · rw [hhdr, hkeep]
    exact h.head
  · rw [hbody, hreq]
    exact h.body
  · rw [hreq]
    exact h.method

/-- A file without a body, or a `HEAD`. -/
theorem bodyLength_of_no {hc : HttpConn} {n : Nat} (h : FileHead hc n)
    (hno : hc.sendBody = false) : bodyLength hc.req n = 0 := by
  unfold bodyLength
  split
  · rfl
  · rename_i hhead
    have hget : hc.req.method = .get := h.method.resolve_right hhead
    rw [h.body, decide_eq_false_iff_not, not_and, Nat.not_lt] at hno
    exact Nat.le_zero.1 (hno hget)

theorem bodyLength_of_body {hc : HttpConn} {n : Nat} (h : FileHead hc n)
    (hbody : hc.sendBody = true) : bodyLength hc.req n = n := by
  rw [h.body, decide_eq_true_iff] at hbody
  unfold bodyLength
  rw [hbody.1]
  rfl

/-- The bytes that are moved follow those that the client has. -/
theorem FromFile.append {body more : List UInt8} (h : FromFile content body)
    (hmore : ∀ bytes, content = some bytes → more = fileBytes bytes body.length more.length) :
    FromFile content (body ++ more) := by
  intro bytes hb
  have hnext := fileBytes_append bytes 0 body.length more.length
  rw [Nat.zero_add] at hnext
  rw [List.length_append, ← hnext, ← h bytes hb, ← hmore bytes hb]

/-- `send_file` sends bytes of the file, in order, up to the declared length. -/
theorem sendFile_left {h : Handler} (hphase : h.hc.phase = .sendfile)
    (hs : (Worker.slotOf (t.withHandler h)).Sends content) (hfile : Supplied content h) :
    (Worker.slotOf (t.withHandler h.sendFile.2)).Left content h.sendFile.1 := by
  cases hs with
  | text cont hcont hfix => cases hphase.symm.trans hfix
  | head n hhdr => cases hphase.symm.trans hhdr
  | file n body _ hout hhead hbody hoff hle hbytes =>
      have hout : h.kernel.wire.clientOut = h.hc.outHdr ++ body := hout
      have hhead : FileHead h.hc n := hhead
      have hbody : h.hc.sendBody = true := hbody
      have hoff : h.hc.fileOff = body.length := hoff
      have hlast := h.sendFile_lasting
      have hhead' : FileHead h.sendFile.2.hc n := fileHead_lasting hhead hlast
      have hbody' : h.sendFile.2.hc.sendBody = true := (of_lasting HttpConn.sendBody hlast).trans hbody
      obtain ⟨hfits, hdone⟩ := @sendfileLoop_length n h.disk.sendfiles _ hle
      have hloop : Handler.sendfileLoop n h.disk.sendfiles body.length =
          Handler.sendfileLoop h.hc.fileSize h.disk.sendfiles h.hc.fileOff := by rw [hhead.size, hoff]
      rw [hloop] at hfits hdone
      have hlen : (body ++ moved h).length = body.length + (moved h).length := List.length_append
      have hout' : h.sendFile.2.kernel.wire.clientOut =
          h.sendFile.2.hc.outHdr ++ (body ++ moved h) := by
        have hsent := congrArg (fun x => x.2.1) (sendFile_traffic h)
        have hhdr : h.sendFile.2.hc.outHdr = h.hc.outHdr := of_lasting HttpConn.outHdr hlast
        rw [hhdr, ← List.append_assoc]
        exact hsent.trans (congrArg (· ++ moved h) hout)
      have hoff' : h.sendFile.2.hc.fileOff = (body ++ moved h).length := by
        rw [sendFile_off, hoff, hlen]
      have hbytes' : FromFile content (body ++ moved h) := by
        apply hbytes.append
        intro bytes hb
        have hmoved := sendfileLoop_bytes (hfile bytes hb (Or.inr hphase))
        rw [hoff] at hmoved
        unfold moved
        rw [hoff]
        exact hmoved
      have hsends : (Worker.slotOf (t.withHandler h.sendFile.2)).Sends content :=
        .file n (body ++ moved h) (h.sendFile_phase.1.trans hphase) hout' hhead' hbody' hoff'
          (hlen.le.trans hfits) hbytes'
      cases hio : h.sendFile.1 with
      | done =>
          have hall := hdone.1 ((sendFile_done h).1 hio)
          exact .of_file hhead' hout' (hlen.trans (hall.trans (bodyLength_of_body hhead' hbody').symm))
            hbytes'
      | close => trivial
      | wantRead => exact hsends
      | wantWrite => exact hsends
      | idle => exact hsends

/-- Text goes out from where the last send stopped. -/
theorem send_text (k : Kernel) (text : List UInt8) (off : Nat) (before : List UInt8)
    (hout : k.wire.clientOut = before ++ text.take off) :
    (k.send .client (text.drop off)).2.2.wire.clientOut =
        before ++ text.take (off + (k.send .client (text.drop off)).1) ∧
      ((k.send .client (text.drop off)).2.1 = .done →
        text.take (off + (k.send .client (text.drop off)).1) = text) := by
  constructor
  · rw [List.take_add, ← List.append_assoc, ← hout]
    rfl
  · intro hdone
    apply List.take_of_length_le
    have hall := (send_done k .client (text.drop off)).1 hdone
    rw [hall, List.length_drop]
    omega

/-- So does `static_on_write`, with the head before them. -/
theorem staticOnWrite_left {h : Handler} (hphase : h.hc.phase = .writeHdr ∨ h.hc.phase = .sendfile)
    (hs : (Worker.slotOf (t.withHandler h)).Sends content) (hfile : Supplied content h) :
    (Worker.slotOf (t.withHandler h.staticOnWrite.2)).Left content h.staticOnWrite.1 := by
  by_cases hhdr : h.hc.phase = .writeHdr
  swap
  · have hwrite : h.staticOnWrite = h.sendFile := if_neg hhdr
    rw [hwrite]
    exact sendFile_left (hphase.resolve_left hhdr) hs hfile
  cases hs with
  | text cont hcont hfix => cases hhdr.symm.trans hfix
  | file n body hsend => cases hhdr.symm.trans hsend
  | head n _ hout hhead hoff =>
      have hhead : FileHead h.hc n := hhead
      have hoff : h.hc.fileOff = 0 := hoff
      unfold Handler.staticOnWrite
      rw [if_pos hhdr]
      extract_lets r src h'
      obtain ⟨hsent, hall⟩ := send_text h.kernel h.hc.outHdr h.hc.outHdrOff [] hout
      have hhead' : FileHead h'.hc n := fileHead_lasting hhead rfl
      have hsends : (Worker.slotOf (t.withHandler h')).Sends content :=
        .head n hhdr hsent hhead' hoff
      cases hr : r.2.1 with
      | wouldBlock => exact hsends
      | dead => trivial
      | done =>
          have hwhole : h'.kernel.wire.clientOut = h'.hc.outHdr ++ [] := by
            rw [List.append_nil]
            exact hsent.trans (hall hr)
          simp only
          split
          · -- there is no body
            rename_i hno
            have hlast := h'.finishFile_lasting
            have hhead'' : FileHead h'.finishFile.2.hc n := fileHead_lasting hhead' hlast
            have hhdr : h'.finishFile.2.hc.outHdr = h'.hc.outHdr := of_lasting HttpConn.outHdr hlast
            have hnone : h'.finishFile.2.hc.sendBody = h'.hc.sendBody :=
              of_lasting HttpConn.sendBody hlast
            have hlen : ([] : List UInt8).length = bodyLength h'.finishFile.2.hc.req n := by
              rw [bodyLength_of_no hhead'']
              · rfl
              · rw [hnone]
                simpa using hno
            refine .of_file hhead'' ?_ hlen fun _ _ => rfl
            · show h'.finishFile.2.kernel.wire.clientOut = h'.finishFile.2.hc.outHdr ++ []
              rw [hhdr, ← hwhole]
              exact congrArg (fun x => x.2.1) (finishFile_traffic h')
          · rename_i hyes
            have hbody : h'.hc.sendBody = true := by simpa using hyes
            refine sendFile_left (t := t) (h := { h' with hc := { h'.hc with phase := .sendfile } })
              rfl ?_ ?_
            · exact .file n [] rfl hwhole (fileHead_lasting hhead' rfl) hbody hoff (Nat.zero_le n)
                fun _ _ => rfl
            · intro bytes hb _
              exact hfile bytes hb (Or.inl hhdr)

/-- What `write_fixed` answers. -/
theorem writeFixed_cases (hc : HttpConn) (k : Kernel) :
    (writeFixed hc k).1 = .done ∧ (k.send .client (hc.fixed.drop hc.fixedOff)).2.1 = .done ∨
      (writeFixed hc k).1 = .wantWrite ∨ (writeFixed hc k).1 = .close := by
  unfold writeFixed
  cases hsend : (k.send .client (hc.fixed.drop hc.fixedOff)).2.1 with
  | done => exact .inl ⟨by simp only [hsend], rfl⟩
  | wouldBlock => exact .inr (.inl (by simp only [hsend]))
  | dead => exact .inr (.inr (by simp only [hsend]))

/-- And `http_conn_on_write`, for the server's own texts as well as for files. -/
theorem httpConnOnWrite_left {h : Handler} (now : Nat)
    (hs : (Worker.slotOf (t.withHandler h)).Sends content) (hfile : Supplied content h) :
    (Worker.slotOf (t.withHandler (h.httpConnOnWrite now).2)).Left content
      (h.httpConnOnWrite now).1 := by
  unfold Handler.httpConnOnWrite
  by_cases hdead : h.hc.deadlineMs ≤ now
  · rw [if_pos hdead]
    trivial
  rw [if_neg hdead]
  extract_lets src h'
  have hs' : (Worker.slotOf (t.withHandler h')).Sends content := by
    cases hs with
    | text cont hcont hphase hout htext => exact .text cont hcont hphase hout htext
    | head n hphase hout hhead hoff => exact .head n hphase hout (fileHead_lasting hhead rfl) hoff
    | file n body hphase hout hhead hbody hoff hle hbytes =>
        exact .file n body hphase hout (fileHead_lasting hhead rfl) hbody hoff hle hbytes
  cases hphase : h'.hc.phase with
  | read =>
      cases hs' with
      | text cont hcont hp => cases hphase.symm.trans hp
      | head n hp => cases hphase.symm.trans hp
      | file n body hp => cases hphase.symm.trans hp
  | writeHdr => exact staticOnWrite_left (.inl hphase) hs' hfile
  | sendfile => exact staticOnWrite_left (.inr hphase) hs' hfile
  | writeFixed =>
      cases hs' with
      | head n hp => cases hphase.symm.trans hp
      | file n body hp => cases hphase.symm.trans hp
      | text cont hcont hp hout htext =>
          obtain ⟨hsent, hall⟩ := send_text h'.kernel h'.hc.fixed h'.hc.fixedOff _ hout
          change (Worker.slotOf (t.withHandler { h' with
              hc := (writeFixed h'.hc h'.kernel).2.1
              kernel := (writeFixed h'.hc h'.kernel).2.2 })).Left content (writeFixed h'.hc h'.kernel).1
          obtain ⟨hio, hdone⟩ | hio | hio := writeFixed_cases h'.hc h'.kernel
          · rw [hio]
            rw [hall hdone] at hsent
            exact .of_text hcont htext hsent
          · rw [hio]
            exact .text cont hcont hphase hsent htext
          · rw [hio]
            trivial

/-- The step lemma of `http_conn_on_write`. -/
theorem onWrite_told (now : Nat) (hs : (Worker.slotOf t).Sends content)
    (hfile : Supplied content t.toHandler) :
    (Worker.slotOf (t.onWrite now).2).Left content (t.onWrite now).1 :=
  httpConnOnWrite_left (h := t.toHandler) now hs hfile

theorem staticOnWrite_sent (h : Handler) :
    h.staticOnWrite.2.kernel.wire.clientIn = h.kernel.wire.clientIn ∧
      h.staticOnWrite.2.kernel.wire.conns = h.kernel.wire.conns := by
  have hfile : ∀ h : Handler, h.sendFile.2.kernel.wire.clientIn = h.kernel.wire.clientIn ∧
      h.sendFile.2.kernel.wire.conns = h.kernel.wire.conns := by
    intro h
    have htraffic := sendFile_traffic h
    exact ⟨congrArg Prod.fst htraffic, congrArg (fun x => x.2.2) htraffic⟩
  unfold Handler.staticOnWrite
  split
  · extract_lets r src h'
    split
    · exact ⟨rfl, rfl⟩
    · exact ⟨rfl, rfl⟩
    · split
      · have htraffic := finishFile_traffic h'
        exact ⟨congrArg Prod.fst htraffic, congrArg (fun x => x.2.2) htraffic⟩
      · exact hfile { h' with hc := { h'.hc with phase := .sendfile } }
  · exact hfile h

theorem httpConnOnWrite_sent (h : Handler) (now : Nat) :
    (h.httpConnOnWrite now).2.kernel.wire.clientIn = h.kernel.wire.clientIn ∧
      (h.httpConnOnWrite now).2.kernel.wire.conns = h.kernel.wire.conns := by
  unfold Handler.httpConnOnWrite
  split
  · exact ⟨rfl, rfl⟩
  extract_lets src h'
  split
  · exact ⟨rfl, rfl⟩
  · exact staticOnWrite_sent h'
  · exact staticOnWrite_sent h'
  · exact ⟨rfl, rfl⟩

theorem onWrite_sent (now : Nat) (t : Turn) : Sent t (t.onWrite now).2 := by
  obtain ⟨hin, hconns⟩ := httpConnOnWrite_sent t.toHandler now
  exact ⟨rfl, hin, hconns⟩

end Write

end TinyServer.Serve
