import TinyServer.Serve.Acts
import TinyServer.Serve.Ledger

/-!
# The descriptors of a handler, act by act

Between two acts a handler keeps to more than a slot between two events: it has no file
while a request is read or routed, and a response to send while it writes (`Stance`).
From there every act moves descriptors only (`Act.goes`).
-/

set_option autoImplicit false

namespace TinyServer.Serve

open TinyServer.Http TinyServer.Net TinyServer.Proxy TinyServer.Static TinyServer.Routing

/-- A request is read, parsed or routed, or more of it is waited for. -/
def Point.waits : Point → Bool
  | .reading => true
  | .parsing _ => true
  | .routing _ => true
  | .begun _ io => io = .wantRead
  | _ => false

/-- What a handler keeps to at a point. -/
structure Stance (p : Point) (t : Turn) : Prop where
  fit : t.Fit
  active : p ≠ .rest → t.active = true
  empty : p.waits = true → t.Empty
  ready : ∀ loop, p = .writing loop → t.hc.phase ≠ .read

section Stance

variable {site : Site} {fuel now idx : Nat} {p q : Point} {t t' : Turn}

theorem Stance.at_rest (hfit : t.Fit) : Stance .rest t := ⟨hfit, fun h => absurd rfl h, nofun, nofun⟩

theorem Stance.applying (io : HttpIo) (hfit : t.Fit) (hactive : t.active = true) :
    Stance (.applying io) t := ⟨hfit, fun _ => hactive, nofun, nofun⟩

theorem Stance.waiting (hfit : t.Fit) (hactive : t.active = true) (hempty : t.Empty)
    (hwrite : ∀ loop, p ≠ .writing loop) : Stance p t :=
  ⟨hfit, fun _ => hactive, fun _ => hempty, fun loop h => absurd h (hwrite loop)⟩

theorem Stance.writing (loop : Bool) (hfit : t.Fit) (hactive : t.active = true)
    (hphase : t.hc.phase ≠ .read) : Stance (.writing loop) t :=
  ⟨hfit, fun _ => hactive, nofun, fun _ _ => hphase⟩

/-- Where a result of `try_parse_buffer` leads. -/
theorem Stance.after (loop : Bool) (io : HttpIo) (hfit : t.Fit) (hactive : t.active = true)
    (hempty : io = .wantRead → t.Empty) : Stance (.after loop io) t := by
  unfold Point.after
  split
  · rename_i hread
    exact .waiting hfit hactive (hempty hread.2) nofun
  · exact .applying io hfit hactive

theorem routed_goes (t : Turn) : Turn.Goes idx t t.routed :=
  .same (fun hf => ⟨hf.cache, hf.fresh, hf.closed⟩) ⟨rfl, rfl⟩ rfl (fun _ => rfl) rfl rfl rfl

theorem answered_goes (t : Turn) : Turn.Goes idx t t.answered :=
  .same (fun hf => ⟨hf.cache, hf.fresh, hf.closed⟩) ⟨rfl, rfl⟩ rfl (fun _ => rfl) rfl rfl rfl

theorem refused_goes (now : Nat) (t : Turn) : Turn.Goes idx t (t.refused now) := by
  unfold Turn.refused
  split
  · exact Turn.armClose_goes now t _ _
  · exact (Turn.settle_goes t).trans (Turn.armClose_goes now t.settle _ _)

theorem refused_active (now : Nat) (t : Turn) : (t.refused now).active = t.active := by
  unfold Turn.refused
  split
  · rfl
  · rfl

theorem parsed_goes (t : Turn) (req : HttpRequest) : Turn.Goes idx t (t.parsed req) :=
  (Turn.settle_goes t).trans (Turn.hc_goes t.settle _ rfl rfl rfl id)

/-- A reply leaves the slot active and its descriptors in place. -/
theorem reply_goes (hparsed : httpParseRequest t.hc.buf = .ok t.hc.req) (h : Reply site now t t')
    (hfit : t.Fit) (hactive : t.active = true) (hempty : t.Empty) :
    Turn.Goes idx t t' ∧ t'.active = true := by
  have hleads : Turn.Leads idx t (.wantWrite, t') := by
    cases h with
    | docroot =>
        exact Turn.staticServe_leads now _ _ _ _ _ hparsed (Turn.cr_not_mem_requestPath hparsed)
    | file r =>
        intro hfit hactive hempty
        exact Turn.armed_leads now (Handler.staticBeginFile_steps t.toHandler now _ hempty.1)
          (Handler.staticBeginFile_armed t.toHandler now _) hfit hactive hempty
    | mount r => exact Turn.serveMount_leads now site r hparsed (Turn.cr_not_mem_requestPath hparsed)
    | fixed resp status =>
        exact fun _ hactive _ => ⟨Turn.armClose_goes now t resp status, hactive, nofun⟩
  obtain ⟨hgoes, hactive', -⟩ := hleads hfit hactive hempty
  exact ⟨hgoes, hactive'⟩

/-- The step lemma. -/
theorem Act.goes (h : Act site fuel now idx (p, t) (q, t')) (hs : Stance p t) :
    Stance q t' ∧ Turn.Goes idx t t' := by
  have hfit := hs.fit
  cases h with
  | hangUp =>
      have hgoes := Turn.slotClose_goes t idx
      exact ⟨.at_rest (hgoes hfit).1, hgoes⟩
  | pump _ _ io hactive h =>
      obtain ⟨hgoes, hactive'⟩ := Turn.pump_goes (j := idx) hactive h
      exact ⟨.applying io (hgoes hfit).1 hactive', hgoes⟩
  | send _ hactive hphase => exact ⟨.writing false hfit hactive hphase, .refl t⟩
  | late _ hactive => exact ⟨.applying .close hfit hactive, .refl t⟩
  | resume _ hactive hidle hphase =>
      exact ⟨.waiting hfit hactive (hfit.fresh hphase) nofun, .refl t⟩
  | start _ hactive hidle hphase =>
      exact ⟨.waiting hfit hactive (hfit.fresh hphase) nofun, .refl t⟩
  -- A refusal arms its text, so the phase is a writing one.
  | full hfull =>
      have hgoes : Turn.Goes idx t (t.refused now) := refused_goes now t
      refine ⟨.writing false (hgoes hfit).1 ?_ nofun, hgoes⟩
      exact (refused_active now t).trans (hs.active nofun)
  | again _ hroom hread =>
      have hgoes := Turn.read_goes (j := idx) t (t.hc.headerCap - t.hc.used)
      exact ⟨.waiting (hgoes hfit).1 (hs.active nofun) (hs.empty rfl) nofun, hgoes⟩
  | wait _ hroom hread =>
      have hgoes := Turn.read_goes (j := idx) t (t.hc.headerCap - t.hc.used)
      exact ⟨.applying .wantRead (hgoes hfit).1 (hs.active nofun), hgoes⟩
  | ended _ hroom hread =>
      have hgoes := Turn.read_goes (j := idx) t (t.hc.headerCap - t.hc.used)
      exact ⟨.applying .close (hgoes hfit).1 (hs.active nofun), hgoes⟩
  -- Bytes came in: the slot is still waiting for the rest of the head.
  | receive _ bytes hroom hread =>
      have hgoes := (Turn.read_goes (j := idx) t (t.hc.headerCap - t.hc.used)).trans
        (Turn.hc_goes t.afterRead.2 (t.afterRead.2.received bytes now).hc rfl rfl rfl id)
      exact ⟨.waiting (hgoes hfit).1 (hs.active nofun) (hs.empty rfl) nofun, hgoes⟩
  | empty _ loop hused =>
      exact ⟨.after loop .wantRead hfit (hs.active nofun) fun _ => hs.empty rfl, .refl t⟩
  | partialHead _ loop hroom hparse =>
      exact ⟨.after loop .wantRead hfit (hs.active nofun) fun _ => hs.empty rfl, .refl t⟩
  | overlong _ loop hused hfull hparse =>
      have hgoes : Turn.Goes idx t (t.refused now) := refused_goes now t
      refine ⟨.writing loop (hgoes hfit).1 ?_ nofun, hgoes⟩
      exact (refused_active now t).trans (hs.active nofun)
  | bad _ loop hused hparse =>
      have hgoes := (Turn.settle_goes (j := idx) t).trans (Turn.armClose_goes now t.settle
        RESPONSE_400 400)
      exact ⟨.writing loop (hgoes hfit).1 (hs.active nofun) nofun, hgoes⟩
  | unsupported _ loop hused hparse =>
      have hgoes := (Turn.settle_goes (j := idx) t).trans (Turn.armClose_goes now t.settle
        RESPONSE_501 501)
      exact ⟨.writing loop (hgoes hfit).1 (hs.active nofun) nofun, hgoes⟩
  | parse _ req loop hused hparse =>
      have hgoes : Turn.Goes idx t (t.parsed req) := parsed_goes t req
      exact ⟨.waiting (hgoes hfit).1 (hs.active nofun) (hs.empty rfl) nofun, hgoes⟩
  | unknown _ loop hparsed hmethod =>
      have hgoes := Turn.armClose_goes (j := idx) now t RESPONSE_501 501
      exact ⟨.writing loop (hgoes hfit).1 (hs.active nofun) nofun, hgoes⟩
  -- An answer leaves nothing to fetch.
  | reply _ _ loop hparsed hmethod h =>
      have hnote : Turn.Goes idx t t.routed := routed_goes t
      obtain ⟨hgoes, hactive⟩ : Turn.Goes idx t.routed t' ∧ t'.active = true :=
        reply_goes hparsed h (hnote hfit).1 (hs.active nofun) (hs.empty rfl)
      have hall := hnote.trans hgoes
      exact ⟨⟨(hall hfit).1, fun _ => hactive, nofun, nofun⟩, hall⟩
  | proxy _ _ io r loop hparsed hmethod hroute htype h =>
      have hnote : Turn.Goes idx t t.routed := routed_goes t
      obtain ⟨hgoes, hactive, hempty⟩ := Turn.proxyBegin_leads (j := idx) now h (hnote hfit).1
        (hs.active nofun) (hs.empty rfl)
      have hall := hnote.trans hgoes
      refine ⟨⟨(hall hfit).1, fun _ => hactive, fun hio => hempty (of_decide_eq_true hio), nofun⟩, hall⟩
  | deliver _ loop hphase => exact ⟨.writing loop hfit (hs.active nofun) hphase, .refl t⟩
  | return_ _ loop io h =>
      exact ⟨.after loop io hfit (hs.active nofun) fun hio => hs.empty (decide_eq_true hio), .refl t⟩
  -- `http_conn_on_write` never asks for a read.
  | write _ loop =>
      have hactive := hs.active nofun
      have hgoes := Turn.onWrite_goes (j := idx) now hactive
      refine ⟨.after loop _ (hgoes hfit).1 hactive fun hio => ?_, hgoes⟩
      exact absurd hio (t.toHandler.httpConnOnWrite_phase now (hs.ready loop rfl)).2
  | finish hcont =>
      have hgoes : Turn.Goes idx t t.answered := answered_goes t
      exact ⟨.applying .close (hgoes hfit).1 (hs.active nofun), hgoes⟩
  -- The next request starts with an empty exchange.
  | next hcont =>
      have hgoes : Turn.Goes idx t (t.answered.nextRequest now) :=
        (answered_goes t).trans (Turn.nextRequest_goes now t.answered)
      exact ⟨.waiting (hgoes hfit).1 (hs.active nofun) ⟨rfl, rfl⟩ nofun, hgoes⟩
  | close =>
      have hgoes := Turn.slotClose_goes t idx
      exact ⟨.at_rest (hgoes hfit).1, hgoes⟩
  | gone _ io hio hactive => exact ⟨.at_rest hfit, .refl t⟩
  | arm _ io hio hactive =>
      have hgoes := Turn.armEvents_goes t idx io
      exact ⟨.at_rest (hgoes hfit).1, hgoes⟩

/-- The run lemma. -/
theorem Acts.goes (h : Acts site fuel now idx (p, t) (q, t')) (hs : Stance p t) :
    Stance q t' ∧ Turn.Goes idx t t' := by
  refine h.invariant (I := fun r u => Stance r u ∧ Turn.Goes idx t u) ?_ ⟨hs, .refl t⟩
  intro r u r' u' hact hi
  obtain ⟨hstance, hgoes⟩ := hact.goes hi.1
  exact ⟨hstance, hi.2.trans hgoes⟩

end Stance

end TinyServer.Serve
