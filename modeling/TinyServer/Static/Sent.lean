import Mathlib.Data.List.Range
import TinyServer.Http.RoundTrip
import TinyServer.Lib.Run
import TinyServer.Static.Armed

/-!
# Sending a file (`static_on_write`)

A response of `arm_regular` is sent over any number of write events. Between two of them
other connections use the kernel and the file cache (`WriteEvent`), and `sendfile` moves
bytes of the file from the offset it is given (`Delivers`). What the client has accepted
is a prefix of the header and the body at every point (`WriteInv`), and the descriptor is
given up in the event that ends the response, and in no other (`Fate`).
-/

set_option autoImplicit false

namespace TinyServer.Static

open TinyServer.Http TinyServer.Net TinyServer.Lib Handler

/-! ## The file -/

/-- The bytes of a file from `off` on. -/
def fileBytes (content : Nat → UInt8) (off len : Nat) : List UInt8 :=
  (List.range' off len).map content

theorem fileBytes_append (content : Nat → UInt8) (off m n : Nat) :
    fileBytes content off m ++ fileBytes content (off + m) n = fileBytes content off (m + n) := by
  simp [fileBytes, ← List.map_append, List.range'_append_1]

@[simp] theorem fileBytes_length (content : Nat → UInt8) (off len : Nat) :
    (fileBytes content off len).length = len := by simp [fileBytes]

theorem fileBytes_take (content : Nat → UInt8) (off : Nat) {m n : Nat} (h : m ≤ n) :
    (fileBytes content off n).take m = fileBytes content off m := by
  obtain ⟨k, rfl⟩ := Nat.exists_eq_add_of_le h
  rw [← fileBytes_append, List.take_append_of_le_length (by simp)]
  exact List.take_of_length_le (by simp)

/-- Results of `sendfile` on a file of which `size` bytes are sent, from `off` on: what moves
are the bytes at the offset. -/
def Delivers (content : Nat → UInt8) (size : Nat) : Nat → List ReadResult → Prop
  | _, [] => True
  | off, .data bytes :: rs =>
      let sent := bytes.take (min (size - off) (2 ^ 20))
      sent = fileBytes content off sent.length ∧ Delivers content size (off + sent.length) rs
  | off, _ :: rs => Delivers content size off rs

instance Delivers.decidable (content : Nat → UInt8) (size : Nat) :
    ∀ (off : Nat) (rs : List ReadResult), Decidable (Delivers content size off rs)
  | _, [] => isTrue trivial
  | off, .data bytes :: rs =>
      @instDecidableAnd _ _ (decEq _ _) (Delivers.decidable content size
        (off + (bytes.take (min (size - off) (2 ^ 20))).length) rs)
  | off, .interrupted :: rs => Delivers.decidable content size off rs
  | off, .wouldBlock :: rs => Delivers.decidable content size off rs
  | off, .error :: rs => Delivers.decidable content size off rs

/-- The loop of `sendfile` moves no more than is left, and is done when it moved all of it. -/
theorem sendfileLoop_length {size : Nat} {rs : List ReadResult} : ∀ {off : Nat}, off ≤ size →
    let r := sendfileLoop size rs off
    off + r.1.length ≤ size ∧ (r.2.1 = .done ↔ off + r.1.length = size) := by
  induction rs with
  | nil =>
      intro off hle
      simp only [sendfileLoop]
      split
      · exact ⟨by simpa using hle, by simp; omega⟩
      · exact ⟨by simpa using hle, by simp; omega⟩
  | cons r rs ih =>
      intro off hle
      by_cases hend : size ≤ off
      · simp only [sendfileLoop, if_pos hend]
        exact ⟨by simpa using hle, by simp; omega⟩
      · cases r with
        | interrupted =>
            simp only [sendfileLoop, if_neg hend]
            exact ih hle
        | wouldBlock =>
            simp only [sendfileLoop, if_neg hend]
            exact ⟨by simpa using hle, by simp; omega⟩
        | error =>
            simp only [sendfileLoop, if_neg hend]
            exact ⟨by simpa using hle, by simp; omega⟩
        | data bytes =>
            simp only [sendfileLoop, if_neg hend]
            obtain ⟨sent, hs⟩ : ∃ sent, sent = bytes.take (min (size - off) (2 ^ 20)) := ⟨_, rfl⟩
            rw [← hs]
            by_cases hnil : sent = []
            · rw [if_pos hnil]
              exact ⟨by simpa using hle, by simp; omega⟩
            · rw [if_neg hnil]
              have hlen : sent.length ≤ size - off := by
                rw [hs, List.length_take]
                omega
              obtain ⟨hmoved, hdone⟩ := @ih (off + sent.length) (by omega)
              simp only [List.length_append]
              refine ⟨by omega, ?_⟩
              rw [hdone]
              constructor <;> intro h <;> omega

/-- It moves the bytes of the file. -/
theorem sendfileLoop_bytes {content : Nat → UInt8} {size : Nat} {rs : List ReadResult} :
    ∀ {off : Nat}, Delivers content size off rs →
      let r := sendfileLoop size rs off
      r.1 = fileBytes content off r.1.length := by
  induction rs with
  | nil =>
      intro off _
      simp only [sendfileLoop]
      split
      · rfl
      · rfl
  | cons r rs ih =>
      intro off hd
      by_cases hend : size ≤ off
      · simp only [sendfileLoop, if_pos hend]
        rfl
      · cases r with
        | interrupted =>
            simp only [sendfileLoop, if_neg hend]
            exact ih hd
        | wouldBlock | error =>
            simp only [sendfileLoop, if_neg hend]
            rfl
        | data bytes =>
            obtain ⟨hsent, hrest⟩ := hd
            simp only [sendfileLoop, if_neg hend]
            generalize bytes.take (min (size - off) (2 ^ 20)) = sent at hsent hrest ⊢
            by_cases hnil : sent = []
            · rw [if_pos hnil]
              rfl
            · rw [if_neg hnil]
              simp only [List.length_append, ← fileBytes_append]
              rw [← hsent, ← ih hrest]

/-- What the loop of `sendfile` moves, and when it is done. -/
theorem sendfileLoop_spec {content : Nat → UInt8} {size : Nat} {rs : List ReadResult} {off : Nat}
    (hle : off ≤ size) (hd : Delivers content size off rs) :
    let r := sendfileLoop size rs off
    r.1 = fileBytes content off r.1.length ∧ off + r.1.length ≤ size ∧
      (r.2.1 = .done ↔ off + r.1.length = size) :=
  ⟨sendfileLoop_bytes hd, sendfileLoop_length hle⟩

/-! ## Write events -/

/-- What has come about when the next write event arrives: the results of the calls to
come, the calls that were made in between, and the file cache. -/
structure WriteEvent where
  sched : Schedule
  sendfiles : List ReadResult
  calls : List ControlCall
  cache : FileCache

/-- The handler when the event arrives. -/
def Handler.atEvent (h : Handler) (e : WriteEvent) : Handler :=
  { h with
    cache := e.cache
    disk := { h.disk with sendfiles := e.sendfiles }
    kernel :=
      { sched := e.sched
        wire := { h.kernel.wire with calls := h.kernel.wire.calls ++ e.calls } } }

/-- A response that is being sent, with the result of the last event. -/
structure Writing where
  handler : Handler
  io : HttpIo

/-- One write event. After `HTTP_IO_DONE` and `HTTP_IO_CLOSE` there is no other. -/
def Writing.step (s : Writing) (e : WriteEvent) : Option Writing :=
  if s.io ≠ .wantWrite then none
  else
    let r := (s.handler.atEvent e).staticOnWrite
    some ⟨r.2, r.1⟩

/-- The event delivers bytes of the file. -/
def Writing.Delivers (content : Nat → UInt8) (s : Writing) (e : WriteEvent) : Prop :=
  Static.Delivers content s.handler.hc.fileSize s.handler.hc.fileOff e.sendfiles

instance (content : Nat → UInt8) (s : Writing) (e : WriteEvent) :
    Decidable (s.Delivers content e) :=
  inferInstanceAs (Decidable (Static.Delivers ..))

/-- Give up the descriptor `fd`. -/
def Handler.giveUp (h : Handler) (owned : Bool) (fd : Nat) : Handler :=
  if owned then h.close fd else h.staticCacheRelease fd

/-- The calls only cork and uncork. -/
def Corks (calls : List ControlCall) : Prop := ∀ c ∈ calls, ∃ k on ok, c = .cork k on ok

/-- From `h` to `h'` the descriptor `fd` is given up once. The other calls only cork. -/
structure GivenUp (owned : Bool) (fd : Nat) (h h' : Handler) : Prop where
  fileFd : h'.hc.fileFd = none
  once : ∃ (h₁ : Handler) (corks corks' : List ControlCall), Corks corks ∧ Corks corks' ∧
    h₁.cache = h.cache ∧ h₁.kernel.wire.calls = h.kernel.wire.calls ++ corks ∧
    h'.cache = (h₁.giveUp owned fd).cache ∧
    h'.kernel.wire.calls = (h₁.giveUp owned fd).kernel.wire.calls ++ corks'

/-- What an event that starts with `h` does with the descriptor `fd`: it is kept, or, when
the response ends, given up. -/
inductive Fate (owned : Bool) (fd : Nat) (h : Handler) : HttpIo → Handler → Prop
  | kept {io : HttpIo} {h' : Handler} (hio : io ≠ .done) (hcache : h'.cache = h.cache)
      (hcalls : h'.kernel.wire.calls = h.kernel.wire.calls) (hfd : h'.hc.fileFd = some fd)
      (howned : h'.hc.fileOwned = owned) : Fate owned fd h io h'
  | given {h' : Handler} (hgiven : GivenUp owned fd h h') (hcork : h'.hc.corkOn = false) :
      Fate owned fd h .done h'

/-! ## One event -/

section Event

variable {content : Nat → UInt8} {owned : Bool} {fd size : Nat} {hdr : List UInt8}
variable {sendBody : Bool} {before : List UInt8}

/-- What is sent of the response `hdr` and the body, and what is left to do. -/
structure WriteInv (content : Nat → UInt8) (owned : Bool) (fd size : Nat) (hdr : List UInt8)
    (sendBody : Bool) (before : List UInt8) (h : Handler) : Prop where
  fileFd : h.hc.fileFd = some fd
  fileOwned : h.hc.fileOwned = owned
  fileSize : h.hc.fileSize = size
  body : h.hc.sendBody = sendBody
  header : h.hc.outHdr = hdr
  phase : (h.hc.phase = .writeHdr ∧ h.hc.fileOff = 0 ∧ h.hc.outHdrOff < hdr.length ∧
      h.kernel.wire.clientOut = before ++ hdr.take h.hc.outHdrOff) ∨
    (h.hc.phase = .sendfile ∧ sendBody = true ∧ h.hc.fileOff < size ∧
      h.kernel.wire.clientOut = before ++ (hdr ++ fileBytes content 0 h.hc.fileOff))

/-- The body of the response. -/
def bodyOf (content : Nat → UInt8) (sendBody : Bool) (size : Nat) : List UInt8 :=
  if sendBody then fileBytes content 0 size else []

/-- What one event leaves: a response that goes on, or one that went out whole. -/
structure EventResult (content : Nat → UInt8) (owned : Bool) (fd size : Nat) (hdr : List UInt8)
    (sendBody : Bool) (before : List UInt8) (h : Handler) (r : HttpIo × Handler) : Prop where
  fate : Fate owned fd h r.1 r.2
  whole : r.1 = .done →
    r.2.kernel.wire.clientOut = before ++ (hdr ++ bodyOf content sendBody size)
  going : r.1 ≠ .done → WriteInv content owned fd size hdr sendBody before r.2

theorem Fate.congr {h h' k : Handler} {io : HttpIo} (hf : Fate owned fd h io k)
    (hcache : h.cache = h'.cache) (hcalls : h.kernel.wire.calls = h'.kernel.wire.calls) :
    Fate owned fd h' io k := by
  cases hf with
  | kept hio h₁ h₂ h₃ h₄ => exact .kept hio (h₁.trans hcache) (h₂.trans hcalls) h₃ h₄
  | given hgiven hcork =>
      obtain ⟨hnone, h₁, corks, corks', hc, hc', h₂, h₃, h₄⟩ := hgiven
      exact .given ⟨hnone, h₁, corks, corks', hc, hc', h₂.trans hcache, hcalls ▸ h₃, h₄⟩ hcork

theorem EventResult.congr {h h' : Handler} {r : HttpIo × Handler}
    (hr : EventResult content owned fd size hdr sendBody before h r)
    (hcache : h.cache = h'.cache) (hcalls : h.kernel.wire.calls = h'.kernel.wire.calls) :
    EventResult content owned fd size hdr sendBody before h' r :=
  ⟨hr.fate.congr hcache hcalls, hr.whole, hr.going⟩

theorem corks_one (k : Nat) (on ok : Bool) : Corks [.cork k on ok] :=
  fun _ hc => ⟨k, on, ok, List.mem_singleton.1 hc⟩

theorem cork_calls (h : Handler) (on : Bool) :
    ∃ corks, Corks corks ∧ (h.cork on).kernel.wire.calls = h.kernel.wire.calls ++ corks := by
  cases hfd : h.hc.fd with
  | none => exact ⟨[], nofun, by simp [Handler.cork, hfd]⟩
  | some k =>
      refine ⟨_, corks_one k on (h.kernel.sched.sockopts.headD true), ?_⟩
      simp [Handler.cork, hfd, Kernel.cork, Kernel.call]

theorem cork_clientOut (h : Handler) (on : Bool) :
    (h.cork on).kernel.wire.clientOut = h.kernel.wire.clientOut := by
  cases hfd : h.hc.fd <;> simp [Handler.cork, hfd, Kernel.cork, Kernel.call]

theorem releaseFile_giveUp {h : Handler} (hfd : h.hc.fileFd = some fd)
    (howned : h.hc.fileOwned = owned) : h.releaseFile = h.giveUp owned fd := by
  simp [Handler.releaseFile, Handler.giveUp, hfd, howned]

theorem giveUp_traffic (h : Handler) (owned : Bool) (fd : Nat) :
    (h.giveUp owned fd).hc = h.hc ∧
      (h.giveUp owned fd).kernel.wire.clientOut = h.kernel.wire.clientOut := by
  unfold Handler.giveUp
  split
  · exact ⟨rfl, rfl⟩
  · unfold Handler.staticCacheRelease
    split
    · exact ⟨rfl, rfl⟩
    split
    · exact ⟨rfl, rfl⟩
    split
    · exact ⟨rfl, rfl⟩
    · dsimp only
      split <;> exact ⟨rfl, rfl⟩

/-- The end of a response. -/
theorem finishFile_event {h : Handler} (hfd : h.hc.fileFd = some fd)
    (howned : h.hc.fileOwned = owned)
    (hout : h.kernel.wire.clientOut = before ++ (hdr ++ bodyOf content sendBody size)) :
    EventResult content owned fd size hdr sendBody before h h.finishFile := by
  obtain ⟨corks, hcorks, hcalls⟩ := cork_calls h false
  have hrel : (h.cork false).releaseFile = (h.cork false).giveUp owned fd :=
    releaseFile_giveUp hfd howned
  obtain ⟨hhc, htraffic⟩ := giveUp_traffic (h.cork false) owned fd
  simp only [Handler.finishFile, hrel]
  refine ⟨.given ⟨rfl, h.cork false, corks, [], hcorks, nofun, rfl, hcalls, rfl, ?_⟩ ?_,
    fun _ => ?_, fun hne => absurd rfl hne⟩
  · rw [List.append_nil]
  · simp only [hhc]
    rfl
  · simp only [htraffic, cork_clientOut, hout]

/-- The phase of the body. -/
theorem sendFile_event {h : Handler} (hfd : h.hc.fileFd = some fd)
    (howned : h.hc.fileOwned = owned) (hsize : h.hc.fileSize = size)
    (hbody : h.hc.sendBody = sendBody) (hsend : sendBody = true) (hhdr : h.hc.outHdr = hdr)
    (hphase : h.hc.phase = .sendfile) (hoff : h.hc.fileOff ≤ size)
    (hout : h.kernel.wire.clientOut = before ++ (hdr ++ fileBytes content 0 h.hc.fileOff))
    (hd : Delivers content size h.hc.fileOff h.disk.sendfiles) :
    EventResult content owned fd size hdr sendBody before h h.sendFile := by
  obtain ⟨hbytes, hle, hdone⟩ := sendfileLoop_spec hoff hd
  rw [← hsize] at hbytes hle hdone
  obtain ⟨r, hr⟩ : ∃ r, r = sendfileLoop h.hc.fileSize h.disk.sendfiles h.hc.fileOff := ⟨_, rfl⟩
  rw [← hr] at hbytes hle hdone
  have hmoved : h.kernel.wire.clientOut ++ r.1
      = before ++ (hdr ++ fileBytes content 0 (h.hc.fileOff + r.1.length)) := by
    rw [hout, hbytes, fileBytes_length, ← fileBytes_append]
    simp
  have hgoing : r.2.1 ≠ .done → ∀ h' : Handler, h'.hc.fileFd = some fd → h'.hc.fileOwned = owned →
      h'.hc.fileSize = size → h'.hc.sendBody = sendBody → h'.hc.outHdr = hdr →
      h'.hc.phase = .sendfile → h'.hc.fileOff = h.hc.fileOff + r.1.length →
      h'.kernel.wire.clientOut = h.kernel.wire.clientOut ++ r.1 →
      WriteInv content owned fd size hdr sendBody before h' := by
    intro hne h' h₁ h₂ h₃ h₄ h₅ h₆ h₇ h₈
    refine ⟨h₁, h₂, h₃, h₄, h₅, .inr ⟨h₆, hsend, ?_, ?_⟩⟩
    · rw [h₇]
      have hno : h.hc.fileOff + r.1.length ≠ h.hc.fileSize := fun he => hne (hdone.2 he)
      omega
    · rw [h₈, h₇, hmoved]
  unfold Handler.sendFile
  rw [← hr]
  dsimp only
  cases hres : r.2.1 with
  | wouldBlock =>
      exact ⟨.kept nofun rfl rfl hfd howned, nofun,
        fun _ => hgoing (by simp [hres]) _ hfd howned hsize hbody hhdr hphase rfl rfl⟩
  | dead =>
      exact ⟨.kept nofun rfl rfl hfd howned, nofun,
        fun _ => hgoing (by simp [hres]) _ hfd howned hsize hbody hhdr hphase rfl rfl⟩
  | done =>
      refine EventResult.congr (finishFile_event hfd howned ?_) rfl rfl
      show h.kernel.wire.clientOut ++ r.1 = _
      rw [hmoved, hdone.1 hres, hsize, bodyOf, if_pos hsend]

/-- `static_on_write` on a response that goes on. -/
theorem staticOnWrite_event {h : Handler}
    (hbody : sendBody = false → bodyOf content sendBody size = [])
    (hi : WriteInv content owned fd size hdr sendBody before h)
    (hd : Delivers content size h.hc.fileOff h.disk.sendfiles) :
    EventResult content owned fd size hdr sendBody before h h.staticOnWrite := by
  obtain ⟨hfd, howned, hsize, hsb, hhdr, hphase⟩ := hi
  unfold Handler.staticOnWrite
  -- The head is still being sent, or the body is.
  rcases hphase with ⟨hphase, hoff, hlt, hout⟩ | ⟨hphase, hs, hoff, hout⟩
  · rw [if_pos hphase, hhdr]
    have hle := sendLoop_le (h.kernel.sends .client) (hdr.drop h.hc.outHdrOff)
    have hdone := sendLoop_done_iff (h.kernel.sends .client) (hdr.drop h.hc.outHdrOff)
    obtain ⟨n, out, sends, hr⟩ : ∃ n out sends,
        sendLoop (h.kernel.sends .client) (hdr.drop h.hc.outHdrOff) = (n, out, sends) :=
      ⟨_, _, _, rfl⟩
    rw [hr, List.length_drop] at hle hdone
    have hmoved : h.kernel.wire.clientOut ++ (hdr.drop h.hc.outHdrOff).take n
        = before ++ hdr.take (h.hc.outHdrOff + n) := by
      rw [hout, List.append_assoc, ← List.take_add]
    -- As long as the head is not out, the invariant holds with the longer prefix of it.
    have hgoing : out ≠ .done → ∀ h' : Handler, h'.hc.fileFd = some fd →
        h'.hc.fileOwned = owned → h'.hc.fileSize = size → h'.hc.sendBody = sendBody →
        h'.hc.outHdr = hdr → h'.hc.phase = .writeHdr → h'.hc.fileOff = 0 →
        h'.hc.outHdrOff = h.hc.outHdrOff + n →
        h'.kernel.wire.clientOut = h.kernel.wire.clientOut ++ (hdr.drop h.hc.outHdrOff).take n →
        WriteInv content owned fd size hdr sendBody before h' := by
      intro hne h' h₁ h₂ h₃ h₄ h₅ h₆ h₇ h₈ h₉
      refine ⟨h₁, h₂, h₃, h₄, h₅, .inl ⟨h₆, h₇, ?_, ?_⟩⟩
      · rw [h₈]
        have hno : n ≠ hdr.length - h.hc.outHdrOff := fun he => hne (hdone.2 he)
        dsimp only at hle
        omega
      · rw [h₉, h₈, hmoved]
    simp only [Kernel.send, hr]
    cases out with
    | wouldBlock =>
        exact ⟨.kept nofun rfl rfl hfd howned, nofun,
          fun _ => hgoing nofun _ hfd howned hsize hsb hhdr hphase hoff rfl rfl⟩
    | dead =>
        exact ⟨.kept nofun rfl rfl hfd howned, nofun,
          fun _ => hgoing nofun _ hfd howned hsize hsb hhdr hphase hoff rfl rfl⟩
    | done =>
        -- the whole header is out
        have hall : before ++ hdr.take (h.hc.outHdrOff + n) = before ++ hdr := by
          rw [List.take_of_length_le (by have := hdone.1 rfl; omega)]
        dsimp only
        cases hb : sendBody with
        -- HEAD: the response ends with its head.
        | false =>
            rw [hsb, hb, if_pos (by simp)]
            refine EventResult.congr (finishFile_event hfd howned ?_) rfl rfl
            rw [← hb, hbody hb, List.append_nil]
            exact hmoved.trans hall
        -- The body follows in the same event.
        | true =>
            rw [hsb, hb, if_neg (by simp)]
            refine EventResult.congr (sendFile_event hfd howned hsize rfl rfl hhdr rfl
              ?_ ?_ ?_) rfl rfl
            · exact hoff.le.trans (Nat.zero_le _)
            · show h.kernel.wire.clientOut ++ (hdr.drop h.hc.outHdrOff).take n
                = before ++ (hdr ++ fileBytes content 0 h.hc.fileOff)
              rw [hmoved, hall, hoff]
              simp [fileBytes]
            · exact hd
  · rw [if_neg (by simp [hphase])]
    exact sendFile_event hfd howned hsize hsb hs hhdr hphase hoff.le hout hd

/-! ## Runs -/

/-- What holds of a response in any state of its run. -/
structure Sent (content : Nat → UInt8) (owned : Bool) (fd size : Nat) (hdr : List UInt8)
    (sendBody : Bool) (before : List UInt8) (t : Writing) : Prop where
  going : t.io ≠ .done → WriteInv content owned fd size hdr sendBody before t.handler
  whole : t.io = .done →
    t.handler.kernel.wire.clientOut = before ++ (hdr ++ bodyOf content sendBody size)
  ended : t.io = .done → t.handler.hc.fileFd = none ∧ t.handler.hc.corkOn = false

/-- The fate of the descriptor in the event `e`. -/
def Writing.Fate (owned : Bool) (fd : Nat) (s : Writing) (e : WriteEvent) : Prop :=
  let r := (s.handler.atEvent e).staticOnWrite
  Static.Fate owned fd (s.handler.atEvent e) r.1 r.2

theorem Sent.step {s s' : Writing} {e : WriteEvent}
    (hbody : sendBody = false → bodyOf content sendBody size = [])
    (hi : Sent content owned fd size hdr sendBody before s) (hd : s.Delivers content e)
    (hstep : s.step e = some s') :
    s.Fate owned fd e ∧ Sent content owned fd size hdr sendBody before s' := by
  obtain ⟨hio, hs'⟩ : s.io = .wantWrite ∧ (s.handler.atEvent e).staticOnWrite = (s'.io, s'.handler) := by
    simp only [Writing.step] at hstep
    split at hstep
    · cases hstep
    · rename_i hio
      rw [← Option.some.inj hstep]
      exact ⟨not_not.1 hio, rfl⟩
  have hinv := hi.going (by simp [hio])
  -- What came about between the events leaves the response as it is.
  have hinv' : WriteInv content owned fd size hdr sendBody before (s.handler.atEvent e) :=
    ⟨hinv.fileFd, hinv.fileOwned, hinv.fileSize, hinv.body, hinv.header, hinv.phase⟩
  have hd' : Static.Delivers content size s.handler.hc.fileOff e.sendfiles := by
    rw [← hinv.fileSize]
    exact hd
  have hr := staticOnWrite_event hbody hinv' hd'
  refine ⟨hr.fate, ?_⟩
  rw [hs'] at hr
  refine ⟨hr.going, hr.whole, fun hdone => ?_⟩
  have hfate := hr.fate
  rw [hdone] at hfate
  cases hfate with
  | kept hne => exact absurd rfl hne
  | given hgiven hcork => exact ⟨hgiven.fileFd, hcork⟩

/-- What the client has of the response in a state of the run. -/
theorem Sent.accepted {t : Writing} (hi : Sent content owned fd size hdr sendBody before t) :
    (∃ n, t.handler.kernel.wire.clientOut
      = before ++ (hdr ++ bodyOf content sendBody size).take n) ∧
    (t.io = .done ↔
      t.handler.kernel.wire.clientOut = before ++ (hdr ++ bodyOf content sendBody size)) := by
  by_cases hdone : t.io = .done
  · have hout := hi.whole hdone
    refine ⟨⟨(hdr ++ bodyOf content sendBody size).length, ?_⟩, fun _ => hout, fun _ => hdone⟩
    rw [List.take_length, hout]
  · rcases (hi.going hdone).phase with ⟨-, -, hlt, hout⟩ | ⟨-, hsend, hlt, hout⟩
    · refine ⟨⟨t.handler.hc.outHdrOff, ?_⟩, fun h => absurd h hdone, fun h => ?_⟩
      · rw [hout, List.take_append_of_le_length hlt.le]
      · -- Part of the header is missing.
        rw [hout, List.append_cancel_left_eq] at h
        have hlen := congrArg List.length h
        rw [List.length_take, List.length_append] at hlen
        omega
    · rw [bodyOf, if_pos hsend, hout]
      refine ⟨⟨hdr.length + t.handler.hc.fileOff, ?_⟩, fun h => absurd h hdone, fun h => ?_⟩
      · rw [List.take_length_add_append, fileBytes_take _ _ hlt.le]
      · -- Part of the file is missing.
        rw [List.append_cancel_left_eq, List.append_cancel_left_eq] at h
        have hlen := congrArg List.length h
        rw [fileBytes_length, fileBytes_length] at hlen
        omega

end Event

/-! ## The head -/

/-- The head of a 200 announces a body of `size` bytes. -/
def Announces (hdr : List UInt8) (size : Nat) : Prop :=
  ∃ digits rest, hdr = cstr "HTTP/1.1 200 OK\r\nContent-Length: " ++ digits ++
      (cstr "\r\n" ++ rest) ∧
    digits ≠ [] ∧ digits.all isDigit = true ∧ decimal digits = size

/-- The text of decimal digits, of which `ds` has the last one first. -/
theorem decimal_digits (ds : List Nat) (hds : ∀ d ∈ ds, d < 10) :
    let text := ds.reverse.map fun d => UInt8.ofNat (0x30 + d)
    text.all isDigit = true ∧ decimal text = Nat.ofDigits 10 ds := by
  induction ds with
  | nil => exact ⟨rfl, rfl⟩
  | cons d ds ih =>
      obtain ⟨hall, hvalue⟩ := ih fun x hx => hds x (List.mem_cons_of_mem d hx)
      have hd := hds d List.mem_cons_self
      have hdigit : (UInt8.ofNat (0x30 + d)).toNat = 0x30 + d := UInt8.toNat_ofNat_of_lt' (by
        simp only [UInt8.size]
        omega)
      simp only [List.reverse_cons, List.map_append, List.map_cons, List.map_nil]
      constructor
      · rw [List.all_append, hall, Bool.true_and]
        have hrange : ¬ (UInt8.ofNat (0x30 + d) < 0x30 ∨ 0x39 < UInt8.ofNat (0x30 + d)) := by
          simp only [UInt8.lt_iff_toNat_lt, hdigit]
          have h30 : (0x30 : UInt8).toNat = 48 := rfl
          have h39 : (0x39 : UInt8).toNat = 57 := rfl
          omega
        rw [List.all_cons, List.all_nil, Bool.and_true]
        exact isDigit_iff.2 hrange
      · simp only [decimal, decimalFrom] at hvalue
        simp only [decimal, decimalFrom, List.foldl_append, hvalue, List.foldl_cons,
          List.foldl_nil, hdigit, Nat.ofDigits_cons]
        omega

theorem formatLld_decimal {n : Int} (h : 0 ≤ n) :
    formatLld n ≠ [] ∧ (formatLld n).all isDigit = true ∧ decimal (formatLld n) = n.toNat := by
  by_cases hzero : n = 0
  · subst hzero
    exact ⟨by decide, by decide, by decide⟩
  · have htext : formatLld n
        = (Nat.digits 10 n.toNat).reverse.map fun d => UInt8.ofNat (0x30 + d) := by
      simp only [formatLld, if_neg h.not_gt, if_neg hzero, List.nil_append]
      rw [show n.natAbs = n.toNat by omega]
    obtain ⟨hall, hvalue⟩ := decimal_digits (Nat.digits 10 n.toNat)
      fun d hd => Nat.digits_lt_base (by decide) hd
    rw [htext]
    refine ⟨?_, hall, hvalue.trans (Nat.ofDigits_digits 10 n.toNat)⟩
    simp only [ne_eq, List.map_eq_nil_iff, List.reverse_eq_nil_iff, Nat.digits_eq_nil_iff_eq_zero]
    omega

theorem okHeader_announces {size : Int} (hsize : 0 ≤ size) (mime : List UInt8) (keep : Bool) :
    Announces (okHeader size mime keep) size.toNat := by
  refine ⟨formatLld size, cstr "Content-Type: " ++ mime ++
    (cstr "\r\nConnection: " ++ connectionText keep ++ cstr "\r\n\r\n"), ?_, formatLld_decimal hsize⟩
  have htype : cstr "\r\nContent-Type: " = cstr "\r\n" ++ cstr "Content-Type: " := by decide
  simp only [okHeader, htype, List.append_assoc]

/-! ## The whole response -/

/-- A 200 of `arm_regular`. -/
theorem armRegular_armed200 {h : Handler} {fd : Nat} {size : Int64} {mime : List UInt8}
    {owned : Bool} {now : Nat} (h200 : (h.armRegular fd size mime owned now).hc.statusCode = 200) :
    h.armRegular fd size mime owned now =
      { h with
        arena := h.arena + STATIC_HDR_SIZE
        hc := h.armedFile fd size mime owned now }.cork true := by
  simp only [Handler.armRegular, Handler.bumpAlloc] at h200 ⊢
  by_cases hroom : TINY_BUMP_SIZE - h.arena < STATIC_HDR_SIZE
  · simp only [if_pos hroom, armClose_status] at h200
    cases h200
  · simp only [if_neg hroom] at h200 ⊢
    by_cases hlong : STATIC_HDR_SIZE
        ≤ (okHeader size.toInt mime (httpShouldKeepalive h.hc.req)).length
    · simp only [if_pos hlong, armClose_status] at h200
      cases h200
    · simp only [if_neg hlong]
      rfl

/-- `http_conn_cleanup` gives up a descriptor that is left. -/
theorem httpConnCleanup_givenUp {h : Handler} {fd : Nat} {owned : Bool}
    (hfd : h.hc.fileFd = some fd) (howned : h.hc.fileOwned = owned) :
    GivenUp owned fd h h.httpConnCleanup := by
  simp only [Handler.httpConnCleanup, releaseFile_giveUp hfd howned]
  cases hclient : (h.giveUp owned fd).hc.fd with
  | none =>
      exact ⟨rfl, h, [], [], nofun, nofun, rfl, (List.append_nil _).symm, rfl,
        (List.append_nil _).symm⟩
  | some k =>
      dsimp only
      split
      · exact ⟨rfl, h, [], [.cork k false _], nofun, corks_one k false _, rfl,
          (List.append_nil _).symm, rfl, rfl⟩
      · exact ⟨rfl, h, [], [], nofun, nofun, rfl, (List.append_nil _).symm, rfl,
          (List.append_nil _).symm⟩

/-- After the end of a response, `http_conn_cleanup` makes no call. -/
theorem httpConnCleanup_ended {h : Handler} (hfd : h.hc.fileFd = none)
    (hcork : h.hc.corkOn = false) :
    h.httpConnCleanup.cache = h.cache ∧ h.httpConnCleanup.kernel = h.kernel := by
  have hrel : h.releaseFile = h := by simp only [Handler.releaseFile, hfd]
  simp only [Handler.httpConnCleanup, hrel, hcork]
  split <;> exact ⟨rfl, rfl⟩

/-- A response of `arm_regular` before its first event. -/
def Writing.start (h : Handler) (fd : Nat) (size : Int64) (mime : List UInt8) (owned : Bool)
    (now : Nat) : Writing :=
  ⟨h.armRegular fd size mime owned now, .wantWrite⟩

theorem Writing.start_sent (content : Nat → UInt8) {h : Handler} {fd : Nat} {size : Int64}
    {mime : List UInt8} {owned : Bool} {now : Nat}
    (h200 : (h.armRegular fd size mime owned now).hc.statusCode = 200) :
    Sent content owned fd size.toInt.toNat
      (okHeader size.toInt mime (httpShouldKeepalive h.hc.req))
      (decide (h.hc.req.method = HttpMethod.get ∧ 0 < size)) h.kernel.wire.clientOut
      (Writing.start h fd size mime owned now) := by
  have harm := armRegular_armed200 h200
  refine ⟨fun _ => ?_, nofun, nofun⟩
  simp only [Writing.start, harm]
  refine ⟨rfl, rfl, rfl, rfl, rfl, .inl ⟨rfl, rfl, ?_, ?_⟩⟩
  · simp [okHeader, Handler.cork, Handler.armedFile, cstr]
  · rw [cork_clientOut]
    exact (List.append_nil _).symm

/-- The body is the file for GET and nothing for HEAD, an empty file included. -/
theorem bodyOf_method (content : Nat → UInt8) {method : HttpMethod} {size : Int64} (hsize : 0 ≤ size) :
    bodyOf content (decide (method = HttpMethod.get ∧ 0 < size)) size.toInt.toNat =
      if method = .get then fileBytes content 0 size.toInt.toNat else [] := by
  by_cases hm : method = .get
  · rw [if_pos hm]
    by_cases hpos : 0 < size
    · rw [bodyOf, if_pos (decide_eq_true ⟨hm, hpos⟩)]
    · have hzero : size = 0 := Int64.le_antisymm (Int64.not_lt.1 hpos) hsize
      subst hzero
      simp [bodyOf, fileBytes]
  · rw [if_neg hm, bodyOf, if_neg (by simp [hm])]

/-- Over every run of write events, the client has a prefix of the head and the body; the
run is done when it has all of it, the descriptor has then been given up once, and till
then it is left for `http_conn_cleanup`. -/
theorem staticOnWrite_sends (content : Nat → UInt8) (h : Handler) (fd : Nat) (size : Int64)
    (mime : List UInt8) (owned : Bool) (now : Nat) (hsize : 0 ≤ size)
    (h200 : (h.armRegular fd size mime owned now).hc.statusCode = 200) (events : List WriteEvent)
    (hfile : AllSteps Writing.step (Writing.Delivers content)
      (Writing.start h fd size mime owned now) events) :
    let start := Writing.start h fd size mime owned now
    let response := start.handler.hc.outHdr ++
      (if h.hc.req.method = .get then fileBytes content 0 size.toInt.toNat else [])
    let accepted := fun t : Writing => t.handler.kernel.wire.clientOut
    Announces start.handler.hc.outHdr size.toInt.toNat ∧
      AllSteps Writing.step (Writing.Fate owned fd) start events ∧
      ∀ t ∈ runStates Writing.step start events,
        (∃ n, accepted t = h.kernel.wire.clientOut ++ response.take n) ∧
        (t.io = .done ↔ accepted t = h.kernel.wire.clientOut ++ response) ∧
        (t.io = .done → t.handler.httpConnCleanup.cache = t.handler.cache ∧
          t.handler.httpConnCleanup.kernel = t.handler.kernel) ∧
        (t.io ≠ .done → GivenUp owned fd t.handler t.handler.httpConnCleanup) := by
  intro start response accepted
  have hstart : Sent content owned fd size.toInt.toNat start.handler.hc.outHdr
      (decide (h.hc.req.method = HttpMethod.get ∧ 0 < size)) h.kernel.wire.clientOut start := by
    have hs := Writing.start_sent content h200
    rwa [← (hs.going nofun).header] at hs
  have hbody : decide (h.hc.req.method = HttpMethod.get ∧ 0 < size) = false →
      bodyOf content (decide (h.hc.req.method = HttpMethod.get ∧ 0 < size)) size.toInt.toNat = [] := by
    intro hno
    rw [hno]
    rfl
  refine ⟨?_, hfile.mono_invariant (fun s e s' hi hd hstep => hi.step hbody hd hstep) hstart, ?_⟩
  · have hhdr := ((Writing.start_sent content h200).going nofun).header
    rw [hhdr]
    exact okHeader_announces (Int64.le_iff_toInt_le.1 hsize) mime _
  · intro t ht
    have hsent := hfile.invariant (fun s e s' hi hd hstep => (hi.step hbody hd hstep).2) hstart t ht
    obtain ⟨hpart, hall⟩ := hsent.accepted
    rw [bodyOf_method content hsize] at hpart hall
    refine ⟨hpart, hall, fun hdone => ?_, fun hgoing => ?_⟩
    · obtain ⟨hfd, hcork⟩ := hsent.ended hdone
      exact httpConnCleanup_ended hfd hcork
    · have hinv := hsent.going hgoing
      exact httpConnCleanup_givenUp hinv.fileFd hinv.fileOwned

/-- The client takes five bytes of the head first, and `sendfile` is interrupted. -/
def twoEvents : List WriteEvent :=
  [⟨{ Schedule.quiet with clientSends := [.sent 5, .wouldBlock] }, [], [], .fresh⟩,
    ⟨{ Schedule.quiet with clientSends := [.sent 999] },
      [.data [65, 66], .interrupted, .data [67]], [.accept 12], .fresh⟩]

theorem staticOnWrite_sends_get : ∃ t ∈ runStates Writing.step
    (Writing.start getHandler 9 3 (cstr "text/plain") true 0) twoEvents,
    t.handler.kernel.wire.clientOut =
      okHeader 3 (cstr "text/plain") true ++ [65, 66, 67] := by
  obtain ⟨t, ht, hdone⟩ := exists_of_run (p := fun t : Writing => t.io = .done)
    (show (runTo Writing.step (Writing.start getHandler 9 3 (cstr "text/plain") true 0)
      twoEvents).any _ = true by decide +kernel)
  have hsends := staticOnWrite_sends (fun i => UInt8.ofNat (65 + i)) getHandler 9 3
    (cstr "text/plain") true 0 (by decide) (by decide +kernel) twoEvents (by decide +kernel)
  exact ⟨t, ht, ((hsends.2.2 t ht).2.1.1 hdone).trans (by decide +kernel)⟩

end TinyServer.Static
