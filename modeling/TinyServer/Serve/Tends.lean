import TinyServer.Serve.Descriptors
import TinyServer.Serve.Stance

/-!
# The steps of a worker, slot by slot

A step of a worker handles its slots one after the other: the deadline sweep and the exit
close many of them. `Tend` is what a worker does for one slot, every step is a sequence of
these (`step_tends`), and what each of them keeps holds in every state that a worker
reaches (`reachable_of_tends`).

`Tend` has a condition on the states that the handler passes through, for what holds only
as long as a step does not come to some branch of the code (`Through`).
-/

set_option autoImplicit false

namespace TinyServer.Serve

open TinyServer.Http TinyServer.Net TinyServer.Proxy TinyServer.Static TinyServer.Routing
open TinyServer.Lib

namespace Worker

/-- What a worker does for one slot, with a handler that passes only through states that
meet `ok`. -/
inductive Tend (site : Site) (fuel : Nat) (ok : Point → Turn → Prop) : Worker → Worker → Prop
  | stale (w : Worker) (fd : Nat) :
      Tend site fuel ok w ((w.call (.accept fd)).call (.close fd))
  | reject (w : Worker) (fd now idx : Nat) (free : List Nat) (s : Slot) (sched : Schedule)
      (disk : Disk) (hfree : w.freeStack = idx :: free) (hs : w.slots[idx]? = some s) :
      Tend site fuel ok w (w.store idx (w.rejected idx s fd now free sched disk))
  | enter (w : Worker) (fd now idx : Nat) (free : List Nat) (s : Slot) (sched : Schedule)
      (disk : Disk) (t : Turn) (hfree : w.freeStack = idx :: free) (hs : w.slots[idx]? = some s)
      (hwatched : Watched sched fd)
      (h : ActsIn site fuel now idx ok (.rest, w.admitted s fd now free sched disk) (.rest, t)) :
      Tend site fuel ok w (w.store idx t)
  | handle (w : Worker) (now idx : Nat) (s : Slot) (sched : Schedule) (disk : Disk) (t : Turn)
      (hs : w.slots[idx]? = some s) (hactive : s.active = true)
      (h : ActsIn site fuel now idx ok (.rest, w.load s sched disk) (.rest, t)) :
      Tend site fuel ok w (w.store idx t)

/-- What a worker does for its slots, one after the other. -/
def Tends (site : Site) (fuel : Nat) (ok : Point → Turn → Prop) : Worker → Worker → Prop :=
  Relation.ReflTransGen (Tend site fuel ok)

/-- The end of a worker without slots in use. -/
def cleared (w : Worker) : Worker := { w.staticCacheClear.proxyPoolClear with exited := true }

/-- A step that takes `w` to `w'` in such a way. At the end the worker clears its tables. -/
def Ways (site : Site) (fuel : Nat) (ok : Point → Turn → Prop) (w w' : Worker) : Prop :=
  Tends site fuel ok w w' ∨
    ∃ v, Tends site fuel ok w v ∧ (∀ s ∈ v.slots, s.active = false) ∧ w' = v.cleared

/-- The handlers that the step runs pass only through states that meet `ok`. -/
def Through (site : Site) (fuel : Nat) (ok : Point → Turn → Prop) (w : Worker) (a : Action) :
    Prop := ∀ w', w.step site fuel a = some w' → Ways site fuel ok w w'

section Tends

variable {site : Site} {fuel n : Nat} {ok : Point → Turn → Prop} {w w' : Worker}

theorem Tend.exited (h : Tend site fuel ok w w') : w'.exited = w.exited := by
  cases h with
  | stale | reject | enter | handle => rfl

/-- Handlers that meet a condition meet a weaker one. -/
theorem Tend.mono {ok' : Point → Turn → Prop} (hok : ∀ p t, ok p t → ok' p t)
    (h : Tend site fuel ok w w') : Tend site fuel ok' w w' := by
  cases h with
  | stale fd => exact .stale w fd
  | reject fd now idx free s sched disk hfree hs => exact .reject w fd now idx free s sched disk hfree hs
  | enter fd now idx free s sched disk t hfree hs hwatched h =>
      exact .enter w fd now idx free s sched disk t hfree hs hwatched (h.mono hok)
  | handle now idx s sched disk t hs hactive h =>
      exact .handle w now idx s sched disk t hs hactive (h.mono hok)

theorem Through.mono {ok' : Point → Turn → Prop} {a : Action} (hok : ∀ p t, ok p t → ok' p t)
    (h : Through site fuel ok w a) : Through site fuel ok' w a := by
  intro w' hstep
  obtain htends | ⟨v, htends, hidle, hlast⟩ := h w' hstep
  · exact .inl (Relation.ReflTransGen.mono (fun _ _ => Tend.mono hok) _ _ htends)
  · exact .inr ⟨v, Relation.ReflTransGen.mono (fun _ _ => Tend.mono hok) _ _ htends, hidle, hlast⟩

theorem Tend.passes (n : Nat) (h : Tend site fuel ok w w') : Passes n (fun _ => True) w w' := by
  have hany : ∀ {T : Nat → Prop}, Passes n T w w' → Passes n (fun _ => True) w w' :=
    fun h => h.mono fun _ _ => trivial
  cases h with
  | stale fd => exact stale_passes n w fd _
  | reject fd now idx free s sched disk hfree hs =>
      exact hany (rejected_passes n fd now sched disk hfree hs)
  | enter fd now idx free s sched disk t hfree hs hwatched h =>
      intro hfit
      have henter := admitted_enters fd now sched disk hfit hfree hs
      exact hany (store_passes n hs henter (h.acts.goes (.at_rest henter.fit)).2) hfit
  | handle now idx s sched disk t hs hactive h =>
      intro hfit
      have henter := load_enters sched disk hfit hs hactive
      exact hany (store_passes n hs henter (h.acts.goes (.at_rest henter.fit)).2) hfit

theorem Tends.passes (n : Nat) (h : Tends site fuel ok w w') : Passes n (fun _ => True) w w' := by
  induction h with
  | refl => exact .refl n _ w
  | tail _ h ih => exact ih.trans (h.passes n)

theorem closeSlot_tends (close : Slot → Bool) (w : Worker) (idx : Nat) :
    Tends site fuel anyState w (closeSlot close w idx) := by
  unfold closeSlot
  split
  · exact .refl
  rename_i s hs
  split
  · rename_i hcloses
    have hactive : s.active = true := (Bool.and_eq_true_iff.1 hcloses).1
    exact .single (.handle w 0 idx s .quiet .quiet _ hs hactive (Acts.inAny (Act.hangUp _).acts))
  · exact .refl

theorem closeSlots_tends (close : Slot → Bool) (l : List Nat) : ∀ w : Worker,
    Tends site fuel anyState w (l.foldl (closeSlot close) w) := by
  induction l with
  | nil => exact fun w => .refl
  | cons idx l ih => exact fun w => (closeSlot_tends close w idx).trans (ih _)

/-- Every step of a worker is a sequence of what it does for single slots, and at the end
it clears its tables. -/
theorem step_tends {a : Action} (h : w.step site fuel a = some w') :
    w.exited = false ∧ Ways site fuel anyState w w' := by
  unfold Worker.step at h
  split at h
  · cases h
  rename_i hon
  refine ⟨by simpa using hon, ?_⟩
  cases a with
  | accept fd acceptTime now sched disk =>
      left
      rcases tryAcceptOne_cases h with rfl | ⟨fd, rfl⟩ | ⟨fd, idx, free, s, hfree, hs, hrest⟩
      · exact .refl
      · exact .single (.stale w fd)
      rcases hrest with rfl | ⟨hwatched, r, t, hread, happly, rfl⟩
      · exact .single (.reject w fd now idx free s sched disk hfree hs)
      · have hacts : Acts site fuel now idx (.rest, w.admitted s fd now free sched disk) (.rest, t) :=
          (httpConnOnRead_acts rfl rfl rfl hread).trans (applyIo_acts happly)
        exact .single (.enter w fd now idx free s sched disk t hfree hs hwatched hacts.inAny)
  | event ev now sched disk =>
      left
      have hslot : w.onSlot ev.idx sched disk (Turn.onEvent site fuel now ev) = some w' := h
      unfold onSlot at hslot
      split at hslot
      · rw [Option.some.inj hslot]
        exact .refl
      rename_i s hs
      split at hslot
      · rw [Option.some.inj hslot]
        exact .refl
      rename_i hoff
      have hactive : s.active = true := by simpa using hoff
      obtain ⟨t, ht, rfl⟩ := Option.map_eq_some_iff.1 hslot
      have hacts : Acts site fuel now ev.idx (.rest, w.load s sched disk) (.rest, t) :=
        onEvent_acts hactive ht
      exact .single (.handle w now ev.idx s sched disk t hs hactive hacts.inAny)
  | sweep now =>
      left
      rw [← Option.some.inj h]
      unfold sweepDeadlines
      split
      · exact .refl
      · exact closeSlots_tends _ _ w
  | exit =>
      right
      refine ⟨_, closeSlots_tends (fun _ => true) (List.range w.slots.length) w, ?_,
        (Option.some.inj h).symm⟩
      intro s hs
      refine closeAll_inactive _ (fun k s hk hmem => ?_) s hs
      exact absurd (List.mem_range.2 (List.getElem?_eq_some_iff.1 hk).1) hmem

theorem Tends.exited (h : Tends site fuel ok w w') : w'.exited = w.exited := by
  induction h with
  | refl => rfl
  | tail _ h ih => exact h.exited.trans ih

/-- A worker that has left its loop has no slot in use. -/
theorem reachable_exited (site : Site) (fuel n : Nat) (as : List Action) :
    ∀ w ∈ runStates (Worker.step site fuel) (Worker.start n) as, w.exited = true →
      ∀ s ∈ w.slots, s.active = false := by
  have hall : AllSteps (Worker.step site fuel) (fun _ _ => True) (Worker.start n) as :=
    .of_forall (fun _ _ => trivial) as _
  refine AllSteps.invariant (fun w a w' _ _ h hexit => ?_) nofun hall
  obtain ⟨hon, hacts⟩ := step_tends h
  rcases hacts with hacts | ⟨v, -, hoff, rfl⟩
  · rw [hacts.exited, hon] at hexit
    cases hexit
  · exact hoff

/-- The states between two steps and inside one. -/
structure Regular (n : Nat) (w : Worker) : Prop where
  fit : w.Fit n
  sane : n ≤ UINT16_MAX → FreshCalls w.calls → w.Sane n

/-- A step keeps the worker regular and only adds calls. -/
theorem Tend.regular (h : Tend site fuel ok w w') (hs : Regular n w) : Regular n w' ∧
    ∃ cs, w'.calls = w.calls ++ cs := by
  obtain ⟨hfit, -, cs, hcalls, hsane⟩ := h.passes n hs.fit
  refine ⟨⟨hfit, fun hn hfresh => ?_⟩, cs, hcalls⟩
  rw [hcalls] at hfresh
  exact (hsane hn (hs.sane hn hfresh.append.1) hfresh.append.2).1

/-- Slots that are not in use hold no file. -/
theorem Fit.idle (hfit : w.Fit n) (hoff : ∀ s ∈ w.slots, s.active = false) : w.Idle := by
  intro s hs
  have hnone := ((hfit.slots s hs).closed (hoff s hs)).1
  unfold Slot.holds
  rw [hnone, ite_self]

/-- At the end everything that is left is closed. -/
theorem cleared_sheds (hn : n ≤ UINT16_MAX) (hr : Regular n w)
    (hoff : ∀ s ∈ w.slots, s.active = false) (hfresh : FreshCalls w.cleared.calls) :
    ∃ cs, w.cleared.calls = w.calls ++ cs ∧ Holding.Sheds w.ledger cs w.cleared.ledger := by
  have hclear : ∃ cs, w.cleared.calls = w.calls ++ cs := ⟨_, List.append_assoc ..⟩
  obtain ⟨cs, hcalls⟩ := hclear
  rw [hcalls] at hfresh
  exact clear_sheds (hr.fit.idle hoff) (hr.sane hn hfresh.append.1).sound

/-- What each step of a regular worker keeps, every run keeps. -/
theorem Tends.invariant {K : Worker → Prop}
    (htend : ∀ w w', Regular n w → Tend site fuel ok w w' → K w → K w') (h : Tends site fuel ok w w')
    (hs : Regular n w) (hk : K w) : Regular n w' ∧ K w' := by
  induction h with
  | refl => exact ⟨hs, hk⟩
  | tail _ h ih => exact ⟨(h.regular ih.1).1, htend _ _ ih.1 h ih.2⟩

/-- The rule for runs with a condition. -/
theorem through_invariant {K : Worker → Prop} (hstart : K (Worker.start n))
    (htend : ∀ w w', Regular n w → Tend site fuel ok w w' → K w → K w')
    (hclear : ∀ w, Regular n w → (∀ s ∈ w.slots, s.active = false) → K w → K w.cleared)
    {as : List Action}
    (hall : AllSteps (Worker.step site fuel) (Through site fuel ok) (Worker.start n) as) :
    ∀ w ∈ runStates (Worker.step site fuel) (Worker.start n) as, K w := by
  have hboth : ∀ w ∈ runStates (Worker.step site fuel) (Worker.start n) as,
      Steady n w ∧ K w := by
    refine AllSteps.invariant (fun w a w' hw hthrough h => ?_) ⟨start_steady n, hstart⟩ hall
    refine ⟨(step_steady hw.1 h).1, ?_⟩
    have hregular : Regular n w := ⟨hw.1.fit (step_tends h).1, hw.1.sane⟩
    rcases hthrough w' h with hacts | ⟨v, hacts, hoff, rfl⟩
    · exact (hacts.invariant htend hregular hw.2).2
    · obtain ⟨hv, hk⟩ := hacts.invariant htend hregular hw.2
      exact hclear v hv hoff hk
  exact fun w hw => (hboth w hw).2

theorem through_any (w : Worker) (a : Action) : Through site fuel anyState w a :=
  fun _ h => (step_tends h).2

/-- The rule for runs. -/
theorem reachable_of_tends {K : Worker → Prop} (hstart : K (Worker.start n))
    (htend : ∀ w w', Regular n w → Tend site fuel anyState w w' → K w → K w')
    (hclear : ∀ w, Regular n w → (∀ s ∈ w.slots, s.active = false) → K w → K w.cleared)
    (as : List Action) : ∀ w ∈ runStates (Worker.step site fuel) (Worker.start n) as, K w :=
  through_invariant hstart htend hclear (.of_forall through_any as _)

/-- The rule for runs that keep to a condition of themselves. -/
theorem through_of_invariant {K : Worker → Prop} (hstart : K (Worker.start n))
    (htend : ∀ w w', Regular n w → Tend site fuel anyState w w' → K w →
      Tend site fuel ok w w' ∧ K w')
    (hclear : ∀ w, Regular n w → (∀ s ∈ w.slots, s.active = false) → K w → K w.cleared)
    (as : List Action) :
    AllSteps (Worker.step site fuel) (Through site fuel ok) (Worker.start n) as := by
  have htends : ∀ w w', Regular n w → K w → Tends site fuel anyState w w' →
      Regular n w' ∧ K w' ∧ Tends site fuel ok w w' := by
    intro w w' hw hk h
    induction h with
    | refl => exact ⟨hw, hk, .refl⟩
    | tail _ h ih =>
        obtain ⟨hw', hk', hacts⟩ := ih
        obtain ⟨hok, hk''⟩ := htend _ _ hw' h hk'
        exact ⟨(h.regular hw').1, hk'', hacts.tail hok⟩
  refine AllSteps.of_invariant (I := fun w => Steady n w ∧ K w) (fun w a w' hw h => ?_)
    ⟨start_steady n, hstart⟩ as
  have hregular : Regular n w := ⟨hw.1.fit (step_tends h).1, hw.1.sane⟩
  have hways : Ways site fuel ok w w' ∧ K w' := by
    rcases (step_tends h).2 with hacts | ⟨v, hacts, hoff, rfl⟩
    · obtain ⟨-, hk, hok⟩ := htends w w' hregular hw.2 hacts
      exact ⟨Or.inl hok, hk⟩
    · obtain ⟨hv, hk, hok⟩ := htends w v hregular hw.2 hacts
      exact ⟨Or.inr ⟨v, hok, hoff, rfl⟩, hclear v hv hoff hk⟩
  refine ⟨fun v hv => ?_, (step_steady hw.1 h).1, hways.2⟩
  rw [← Option.some.inj (h.symm.trans hv)]
  exact hways.1

end Tends

end Worker

end TinyServer.Serve
