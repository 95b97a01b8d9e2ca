import TinyServer.Serve.Memory
import TinyServer.Serve.TooLarge

/-!
# The head of a routed request

A request is routed from the header buffer that it was parsed from, and that holds 4096
bytes at most. So the path of a request is shorter than the buffers of `static.c` by what
stands around it in the head (`Headed.path_le`), and two connections that were sent the same
head ask for the same path (`SameRequest`).
-/

set_option autoImplicit false

namespace TinyServer.Serve

open TinyServer.Http TinyServer.Net TinyServer.Proxy TinyServer.Static TinyServer.Routing
open TinyServer.Lib

/-! ## The buffer -/

/-- The header buffer holds no more than it has room for. -/
structure Capped (active : Bool) (hc : HttpConn) : Prop where
  cap : active = true → hc.headerCap = TINY_HEADER_SIZE
  fits : hc.used ≤ hc.headerCap

/-- A request that is routed was parsed from the buffer. -/
structure Headed (p : Point) (t : Turn) : Prop where
  capped : Capped t.active t.hc
  parsed : ∀ loop, p = .routing loop → httpParseRequest t.hc.buf = .ok t.hc.req

section Headed

variable {site : Site} {fuel now idx : Nat} {p q : Point} {t t' : Turn}

theorem Capped.kept (h : Capped t.active t.hc) (hactive : t'.active = true → t.active = true)
    (hkept : t.Kept t') : Capped t'.active t'.hc := by
  refine ⟨fun hon => ?_, ?_⟩
  · rw [hkept.headerCap]
    exact h.cap (hactive hon)
  · unfold HttpConn.used
    rw [hkept.headerCap, hkept.buf]
    exact h.fits

theorem Headed.of_ne (h : Capped t.active t.hc) (hp : ∀ loop, p ≠ .routing loop) : Headed p t :=
  ⟨h, fun loop hl => absurd hl (hp loop)⟩

theorem Headed.after (loop : Bool) (io : HttpIo) (h : Capped t.active t.hc) :
    Headed (.after loop io) t := by
  refine .of_ne h fun loop' => ?_
  unfold Point.after
  split
  · exact nofun
  · exact nofun

/-- The step lemma. -/
theorem Act.headed (h : Act site fuel now idx (p, t) (q, t')) (hs : Stance p t)
    (hh : Headed p t) : Headed q t' := by
  -- No act makes a slot active again.
  have hactive : t'.active = true → t.active = true := by
    intro hon
    rcases h.leaves with hsame | ⟨hactive, -⟩
    · exact (congrArg Prod.fst hsame).symm.trans hon
    · exact hactive
  have hcapped := hh.capped
  cases h with
  | hangUp => exact .of_ne (hcapped.kept hactive (slotClose_kept idx t).1) nofun
  | close => exact .of_ne (hcapped.kept hactive (slotClose_kept idx t).1) nofun
  | arm _ io => exact .of_ne (hcapped.kept hactive (armEvents_kept idx io t).1) nofun
  | pump _ _ io hon h =>
      obtain ⟨⟨io', v⟩, hv, hr⟩ := Option.map_eq_some_iff.1 h
      cases hr
      obtain ⟨hclient, -, -⟩ := World.proxyPump_linked hv
      exact .of_ne (hcapped.kept hactive (withWorld_kept hclient _)) nofun
  -- `refuse_head` answers, and leaves the head where it is.
  | full | overlong =>
      unfold Turn.refused
      split
      · exact .of_ne ⟨hcapped.cap, hcapped.fits⟩ nofun
      · exact .of_ne ⟨hcapped.cap, hcapped.fits⟩ nofun
  -- A read asks for no more than the room that is left.
  | receive _ bytes hroom hread =>
      refine .of_ne ⟨hcapped.cap, ?_⟩ nofun
      have hlen : bytes.length ≤ t.hc.headerCap - t.hc.used :=
        read_got (k := t.kernel) (e := .client) (Prod.ext hread rfl)
      show (t.hc.buf ++ bytes).length ≤ t.hc.headerCap
      rw [List.length_append]
      unfold HttpConn.used at hlen hroom
      omega
  -- The one act after which a parsed head lies in the buffer.
  | parse _ req loop hused hparse => exact ⟨⟨hcapped.cap, hcapped.fits⟩, fun _ _ => hparse⟩
  | reply _ _ loop hparsed hmethod h =>
      have hgoes : Turn.Goes idx t t.routed := routed_goes t
      obtain ⟨hbuf, hcap, hreq⟩ := (reply_fair (t := t.routed) hparsed h (hgoes hs.fit).1
        (hs.empty rfl)).1
      exact .of_ne (hcapped.kept hactive ⟨hbuf, hcap, hreq⟩) nofun
  | proxy _ _ io r loop hparsed hmethod hroute htype h =>
      obtain ⟨⟨io', v⟩, hv, hr⟩ := Option.map_eq_some_iff.1 h
      cases hr
      obtain ⟨hclient, -, -⟩ := World.proxyBegin_linked hv
      have hclient : v.client = t.world.client := hclient
      have hkept : t.Kept { t.withWorld v with proxying := v.px.fd.isSome } :=
        withWorld_kept hclient _
      exact .of_ne (hcapped.kept hactive ⟨hkept.buf, hkept.headerCap, hkept.req⟩) nofun
  -- The next request is what follows the head, moved to the front.
  | next hcont =>
      obtain ⟨corkOn, hconn⟩ := t.answered.toHandler.httpConnCleanup_conn
      have hcap : (t.answered.nextRequest now).hc.headerCap = t.hc.headerCap := by
        show t.answered.toHandler.httpConnCleanup.hc.headerCap = _
        rw [hconn]
        rfl
      refine .of_ne ⟨fun hon => ?_, ?_⟩ nofun
      · rw [hcap]
        exact hcapped.cap hon
      · rw [hcap]
        show (t.hc.buf.drop t.hc.req.headerBytes).length ≤ _
        rw [List.length_drop]
        exact (Nat.sub_le _ _).trans hcapped.fits
  | write _ loop => exact .after loop _ (hcapped.kept hactive (onWrite_kept now t))
  | empty _ loop => exact .after loop .wantRead hcapped
  | partialHead _ loop => exact .after loop .wantRead hcapped
  | return_ _ loop io h => exact .after loop io hcapped
  | again | wait | ended | bad | unsupported | unknown | finish =>
      exact .of_ne ⟨hcapped.cap, hcapped.fits⟩ nofun
  | send | late | resume | start | deliver | gone => exact .of_ne hcapped nofun

end Headed

/-- A slot that a connection enters has an empty buffer. -/
theorem admitted_headed (w : Worker) (s : Slot) (fd now : Nat) (free : List Nat) (sched : Schedule)
    (disk : Disk) : Headed .rest (w.admitted s fd now free sched disk) :=
  .of_ne ⟨fun _ => rfl, Nat.zero_le _⟩ nofun

theorem rejected_headed {w : Worker} {idx : Nat} (s : Slot) (fd now : Nat) {free : List Nat}
    (sched : Schedule) (disk : Disk) (hfree : w.freeStack = idx :: free) :
    Headed .rest (w.rejected idx s fd now free sched disk) := by
  obtain ⟨hphase, hbuf, hcap⟩ := (Worker.rejected_spec fd now sched disk hfree s).conn
  refine .of_ne ⟨fun _ => hcap, ?_⟩ nofun
  show (w.rejected idx s fd now free sched disk).hc.buf.length ≤ _
  rw [hbuf]
  exact Nat.zero_le _

theorem headedRule (site : Site) (fuel : Nat) :
    SlotRule site fuel anyState Headed fun s => Capped s.active s.hc where
  unused := ⟨nofun, Nat.le_refl _⟩
  load := fun _ _ _ _ _ hs => .of_ne hs nofun
  enter := fun w s fd now free sched disk _ => admitted_headed w s fd now free sched disk
  act := fun _ _ _ _ _ _ hs _ hact hh => hact.headed hs hh
  store := fun _ hh => hh.capped
  reject := fun _ _ s fd now _ sched disk hfree _ => (rejected_headed s fd now sched disk hfree).capped

/-! ## The path -/

/-- The path is part of the request target. -/
theorem pathText_le (t : Target) : t.pathText.length ≤ t.bytes.length := by
  have hle := (List.takeWhile_prefix (· != QMARK) (l := t.path)).length_le
  refine hle.trans ?_
  cases t with
  | origin path => exact le_rfl
  | absolute scheme authority path =>
      simp only [Target.path, Target.bytes, List.length_append]
      omega

section Path

variable {t a b : Turn}

/-- What stands around the path in the head. -/
theorem path_le (h : httpParseRequest t.hc.buf = .ok t.hc.req) :
    t.path.length + 14 ≤ t.hc.buf.length := by
  obtain ⟨hd, hacc⟩ := exists_head_of_accept h
  obtain ⟨tail, htail⟩ := hacc.starts
  have hpath : t.path = askedPath hd.target.pathText := by
    rw [Turn.path, requestPath_asked h, ← htail, (hacc.result.texts hacc.short tail).1]
  have hle := hacc.starts.length_le
  have hrender := hd.render_length
  have htarget := pathText_le hd.target
  have hmethod := List.length_pos_iff.2 hd.method_ne
  have hversion : (Head.version hd.minor).length = 8 := rfl
  simp only [Head.blockOff, Head.requestLine, List.length_append, List.length_cons] at hrender
  rw [hpath, askedPath]
  split
  · rw [List.length_singleton]
    omega
  · omega

/-- A path that is routed leaves room in the header buffer. -/
theorem Headed.path_le {loop : Bool} (h : Headed (.routing loop) t) (hactive : t.active = true) :
    t.path.length + 14 ≤ TINY_HEADER_SIZE := by
  have hle := Serve.path_le (h.parsed loop rfl)
  have hfits := h.capped.fits
  rw [h.capped.cap hactive, HttpConn.used] at hfits
  exact hle.trans hfits

/-- The path is in the buffer. -/
theorem requestPath_le (h : httpParseRequest t.hc.buf = .ok t.hc.req) :
    (requestPath t.hc).2.toNat ≤ (requestPath t.hc).1.length := by
  obtain ⟨hd, hacc⟩ := exists_head_of_accept h
  have hslice := hacc.slices.1
  have hbuf : hd.requestLine.length ≤ t.hc.buf.length := by
    have hle := hacc.starts.length_le
    have hrender := hd.render_length
    simp only [Head.blockOff] at hrender
    omega
  rw [requestPath]
  split
  · exact le_rfl
  · dsimp only
    rw [List.length_drop, UInt16.toNat_ofNat']
    have hmod := Nat.mod_le t.hc.req.path.len (2 ^ 16)
    omega

/-- Two turns have the same request, in the same head. -/
structure SameRequest (a b : Turn) : Prop where
  req : a.hc.req = b.hc.req
  head : a.hc.buf.take a.hc.req.headerBytes = b.hc.buf.take b.hc.req.headerBytes

theorem slice_take {l : List UInt8} {n off len : Nat} (h : off + len ≤ n) :
    ((l.take n).drop off).take len = (l.drop off).take len := by
  rw [List.drop_take, List.take_take, Nat.min_eq_left (by omega)]

/-- They ask for the same path with the same query. -/
theorem SameRequest.texts (h : SameRequest a b) (ha : httpParseRequest a.hc.buf = .ok a.hc.req) :
    a.path = b.path ∧ a.toHandler.query = b.toHandler.query := by
  obtain ⟨hd, hacc⟩ := exists_head_of_accept ha
  have hslices := hacc.slices
  have hle : hd.requestLine.length ≤ a.hc.req.headerBytes := by
    have hrender := hd.render_length
    have hbytes := congrArg List.length hacc.take_headerBytes
    simp only [Head.blockOff, List.length_take] at hrender hbytes
    omega
  have hslice : ∀ off len, off + len ≤ hd.requestLine.length →
      (a.hc.buf.drop off).take len = (b.hc.buf.drop off).take len := by
    intro off len hin
    rw [← slice_take (hin.trans hle), h.head, slice_take (by rw [← h.req]; exact hin.trans hle)]
  constructor
  · simp only [Turn.path, requestPath, ← h.req]
    split
    · rfl
    · dsimp only
      refine hslice _ _ ?_
      have hmod := Nat.mod_le a.hc.req.path.len (2 ^ 16)
      rw [UInt16.toNat_ofNat']
      omega
  · simp only [Handler.query, ← h.req]
    exact hslice _ _ hslices.2

end Path

end TinyServer.Serve
