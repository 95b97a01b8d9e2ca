import TinyServer.Serve.Deeds
import TinyServer.Serve.Tends

/-!
# Properties of single slots

What concerns one connection is a property of its slot and of the turns of its handlers.
Where each act keeps the property (`SlotRule`), every slot of every state that a worker
reaches has it, and so have the handlers that start from there (`SlotRule.reachable`).
-/

set_option autoImplicit false

namespace TinyServer.Serve

open TinyServer.Http TinyServer.Net TinyServer.Proxy TinyServer.Static TinyServer.Routing
open TinyServer.Lib

/-- A handler that starts in the state `w` of the worker is at the point `p`, and passed
only through states that meet `ok`. -/
inductive Worker.Handling (site : Site) (fuel : Nat) (ok : Point → Turn → Prop) (w : Worker)
    (p : Point) (t : Turn) : Prop
  | load (now idx : Nat) (s : Slot) (sched : Schedule) (disk : Disk) (hon : w.exited = false)
      (hs : w.slots[idx]? = some s) (hactive : s.active = true)
      (h : ActsIn site fuel now idx ok (.rest, w.load s sched disk) (p, t))
  | enter (fd now idx : Nat) (free : List Nat) (s : Slot) (sched : Schedule) (disk : Disk)
      (hon : w.exited = false) (hfree : w.freeStack = idx :: free) (hs : w.slots[idx]? = some s)
      (hwatched : Worker.Watched sched fd)
      (h : ActsIn site fuel now idx ok (.rest, w.admitted s fd now free sched disk) (p, t))

/-- A request that is routed has just been parsed. -/
theorem Worker.Handling.parsed {site : Site} {fuel : Nat} {ok : Point → Turn → Prop} {w : Worker}
    {loop : Bool} {t : Turn} (h : w.Handling site fuel ok (.routing loop) t) :
    httpParseRequest t.hc.buf = .ok t.hc.req := by
  -- only `dispatch_parsed` leads to `route_begin`
  have hlast : ∀ {now idx : Nat} {u : Turn},
      ActsIn site fuel now idx ok (.rest, u) (.routing loop, t) →
        httpParseRequest t.hc.buf = .ok t.hc.req := by
    intro now idx u hacts
    rcases Relation.ReflTransGen.cases_tail hacts with heq | ⟨⟨p, v⟩, -, -, hact⟩
    · cases heq
    · generalize hy : (Point.routing loop, t) = y at hact
      cases hact with
      | parse _ req loop' hused hparse =>
          cases hy
          exact hparse
      | empty _ loop' => unfold Point.after at hy; split at hy <;> cases hy
      | partialHead _ loop' => unfold Point.after at hy; split at hy <;> cases hy
      | return_ _ loop' => unfold Point.after at hy; split at hy <;> cases hy
      | write _ loop' => unfold Point.after at hy; split at hy <;> cases hy
      | _ => cases hy
  cases h with
  | load now idx s sched disk hon hs hactive hacts => exact hlast hacts
  | enter fd now idx free s sched disk hon hfree hs hwatched hacts => exact hlast hacts

/-- Acts from states that meet `ok` keep the property `I` of turns, which is `J` for the
slot that a handler leaves. -/
structure SlotRule (site : Site) (fuel : Nat) (ok I : Point → Turn → Prop) (J : Slot → Prop) :
    Prop where
  unused : J .unused
  load : ∀ (w : Worker) (s : Slot) (sched : Schedule) (disk : Disk), s.active = true → J s →
    I .rest (w.load s sched disk)
  enter : ∀ (w : Worker) (s : Slot) (fd now : Nat) (free : List Nat) (sched : Schedule)
    (disk : Disk), J s → I .rest (w.admitted s fd now free sched disk)
  act : ∀ now idx p t q t', Stance p t → ok p t → Act site fuel now idx (p, t) (q, t') →
    I p t → I q t'
  store : ∀ t, I .rest t → J (Worker.slotOf t)
  reject : ∀ (w : Worker) (idx : Nat) (s : Slot) (fd now : Nat) (free : List Nat)
    (sched : Schedule) (disk : Disk), w.freeStack = idx :: free → J s →
      J (Worker.slotOf (w.rejected idx s fd now free sched disk))

section SlotRule

variable {site : Site} {fuel n now idx : Nat} {ok I : Point → Turn → Prop} {J : Slot → Prop}
  {p : Point} {t t' : Turn} {w w' : Worker}

/-- A rule holds along the acts on its slot. -/
theorem SlotRule.acts (h : SlotRule site fuel ok I J) (hfit : t.Fit)
    (hacts : ActsIn site fuel now idx ok (.rest, t) (p, t')) (ht : I .rest t) :
    Stance p t' ∧ I p t' := by
  refine hacts.invariant (I := fun q u => Stance q u ∧ I q u) ?_ ⟨.at_rest hfit, ht⟩
  intro q u q' u' hok hact hi
  exact ⟨(hact.goes hi.1).1, h.act now idx q u q' u' hi.1 hok hact hi.2⟩

theorem store_slots_all {s : Slot} (hs : J (Worker.slotOf t)) (hw : ∀ s ∈ w.slots, J s)
    (hmem : s ∈ (w.store idx t).slots) : J s := by
  rcases List.mem_or_eq_of_mem_set hmem with hmem | rfl
  · exact hw s hmem
  · exact hs

/-- A rule for one slot is an invariant of all of them. -/
theorem SlotRule.tend (h : SlotRule site fuel ok I J) (hr : Worker.Regular n w)
    (htend : Worker.Tend site fuel ok w w') (hw : ∀ s ∈ w.slots, J s) : ∀ s ∈ w'.slots, J s := by
  cases htend with
  | stale fd => exact hw
  | reject fd now idx free s sched disk hfree hs =>
      have hj := hw s (List.mem_of_getElem? hs)
      exact fun x hx => store_slots_all (h.reject w idx s fd now free sched disk hfree hj) hw hx
  | enter fd now idx free s sched disk t hfree hs hwatched hacts =>
      have henter := Worker.admitted_enters fd now sched disk hr.fit hfree hs
      have hi := h.enter w s fd now free sched disk (hw s (List.mem_of_getElem? hs))
      have hlast := (h.acts henter.fit hacts hi).2
      exact fun x hx => store_slots_all (h.store t hlast) hw hx
  | handle now idx s sched disk t hs hactive hacts =>
      have henter := Worker.load_enters sched disk hr.fit hs hactive
      have hi := h.load w s sched disk hactive (hw s (List.mem_of_getElem? hs))
      have hlast := (h.acts henter.fit hacts hi).2
      exact fun x hx => store_slots_all (h.store t hlast) hw hx

/-- The rule for runs. -/
theorem SlotRule.slots (h : SlotRule site fuel ok I J) {as : List Action}
    (hall : AllSteps (Worker.step site fuel) (Worker.Through site fuel ok) (Worker.start n) as) :
    ∀ w ∈ runStates (Worker.step site fuel) (Worker.start n) as, ∀ s ∈ w.slots, J s := by
  refine Worker.through_invariant (fun s hs => ?_) (fun w w' hr htend hw => h.tend hr htend hw)
    (fun w _ _ hw => hw) hall
  rw [List.eq_of_mem_replicate hs]
  exact h.unused

/-- The rule for the handlers of a run. -/
theorem SlotRule.reachable (h : SlotRule site fuel ok I J) {as : List Action}
    (hall : AllSteps (Worker.step site fuel) (Worker.Through site fuel ok) (Worker.start n) as)
    (hw : w ∈ runStates (Worker.step site fuel) (Worker.start n) as)
    (hhandling : w.Handling site fuel ok p t) : Stance p t ∧ I p t := by
  have hslots := h.slots hall w hw
  have hsteady := Worker.reachable_steady site fuel n as w hw
  cases hhandling with
  | load now idx s sched disk hon hs hactive hacts =>
      have henter := Worker.load_enters sched disk (hsteady.fit hon) hs hactive
      exact h.acts henter.fit hacts
        (h.load w s sched disk hactive (hslots s (List.mem_of_getElem? hs)))
  | enter fd now idx free s sched disk hon hfree hs hwatched hacts =>
      have henter := Worker.admitted_enters fd now sched disk (hsteady.fit hon) hfree hs
      exact h.acts henter.fit hacts
        (h.enter w s fd now free sched disk (hslots s (List.mem_of_getElem? hs)))

/-- Where the property gives the condition, all runs meet it. -/
theorem SlotRule.through {ok' : Point → Turn → Prop} (h : SlotRule site fuel anyState I J)
    (hok : ∀ p t, I p t → ok' p t) (n : Nat) (as : List Action) :
    AllSteps (Worker.step site fuel) (Worker.Through site fuel ok') (Worker.start n) as := by
  have hacts : ∀ {now idx : Nat} {t t' : Turn}, t.Fit → I .rest t →
      ActsIn site fuel now idx anyState (.rest, t) (.rest, t') →
        ActsIn site fuel now idx ok' (.rest, t) (.rest, t') := by
    intro now idx t t' hfit ht hacts
    refine hacts.acts.within (I := fun p u => Stance p u ∧ I p u) (fun p u hi => hok p u hi.2) ?_
      ⟨.at_rest hfit, ht⟩
    intro p u q u' hact hi
    exact ⟨(hact.goes hi.1).1, h.act now idx p u q u' hi.1 trivial hact hi.2⟩
  refine Worker.through_of_invariant (K := fun w => ∀ s ∈ w.slots, J s) (fun s hs => ?_)
    (fun w w' hr htend hw => ⟨?_, h.tend hr htend hw⟩) (fun w _ _ hw => hw) as
  · rw [List.eq_of_mem_replicate hs]
    exact h.unused
  · cases htend with
    | stale fd => exact .stale w fd
    | reject fd now idx free s sched disk hfree hs =>
        exact .reject w fd now idx free s sched disk hfree hs
    | enter fd now idx free s sched disk t hfree hs hwatched hin =>
        have henter := Worker.admitted_enters fd now sched disk hr.fit hfree hs
        have hi := h.enter w s fd now free sched disk (hw s (List.mem_of_getElem? hs))
        exact .enter w fd now idx free s sched disk t hfree hs hwatched (hacts henter.fit hi hin)
    | handle now idx s sched disk t hs hactive hin =>
        have henter := Worker.load_enters sched disk hr.fit hs hactive
        have hi := h.load w s sched disk hactive (hw s (List.mem_of_getElem? hs))
        exact .handle w now idx s sched disk t hs hactive (hacts henter.fit hi hin)

end SlotRule

/-- Every handler of every state that a worker reaches keeps to its stance. -/
theorem reachable_stance {site : Site} {fuel n : Nat} {as : List Action} {w : Worker} {p : Point}
    {t : Turn} (hw : w ∈ runStates (Worker.step site fuel) (Worker.start n) as)
    (h : w.Handling site fuel anyState p t) : Stance p t := by
  have hrule : SlotRule site fuel anyState (fun _ _ => True) fun _ => True :=
    ⟨trivial, fun _ _ _ _ _ _ => trivial, fun _ _ _ _ _ _ _ _ => trivial,
      fun _ _ _ _ _ _ _ _ _ _ => trivial, fun _ _ => trivial, fun _ _ _ _ _ _ _ _ _ _ => trivial⟩
  exact (hrule.reachable (.of_forall Worker.through_any as _) hw h).1

end TinyServer.Serve
