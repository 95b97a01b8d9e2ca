import TinyServer.Serve.Memory
import TinyServer.Static.Filled

/-!
# Runs over a tree of files

The table of open files is shared by the connections of a worker, and what it holds was
found by earlier requests. Where all these found what is in the tree, it is filled from the
tree in every state of the run (`reachable_agrees`), and the docroot answers from the tree.
The clock of a handler decides which files are looked at again, so that the condition
depends on it.
-/

set_option autoImplicit false

namespace TinyServer.Serve

open TinyServer.Http TinyServer.Net TinyServer.Proxy TinyServer.Static TinyServer.Routing
open TinyServer.Lib

/-! ## Acts -/

namespace Turn

/-- What the docroot asks for the request. -/
def docrootCalls (site : Site) (t : Turn) (now : Nat) : List StaticCall :=
  t.toHandler.staticServeCalls site.allowDotfiles site.docroot true (requestPath t.hc).1
    (requestPath t.hc).2 t.path now

/-- Whenever a request is routed, the docroot is told the truth about the tree. -/
def Honest (T : Tree) (site : Site) (now : Nat) (p : Point) (t : Turn) : Prop :=
  ∀ loop, p = .routing loop → AllHonest T (t.docrootCalls site now)

section Agrees

variable {T : Tree} {t : Turn}

theorem slotClose_agrees (idx : Nat) (hagrees : T.Agrees t.cache) :
    T.Agrees (t.slotClose idx).cache := by
  unfold slotClose
  split
  · exact hagrees
  · extract_lets src t₁ t₂ hc t₃
    have h₁ : T.Agrees t₁.toHandler.cache := hagrees
    have h₂ : T.Agrees t₂.cache := Handler.httpConnCleanup_agrees h₁
    unfold t₃
    split
    · exact h₂
    · exact h₂

theorem armEvents_agrees (idx : Nat) (io : HttpIo) (hagrees : T.Agrees t.cache) :
    T.Agrees (t.armEvents idx io).cache := by
  unfold armEvents
  split
  · exact hagrees
  split
  · extract_lets r
    split
    · exact hagrees
    · exact @slotClose_agrees T { t with kernel := r.2 } idx hagrees
  · exact slotClose_agrees idx hagrees

/-- The answer of the docroot. -/
theorem docroot_agrees {site : Site} {now : Nat} (hempty : t.Empty) (hagrees : T.Agrees t.cache)
    (hhonest : AllHonest T (t.docrootCalls site now)) :
    T.Agrees (t.toHandler.staticBegin site.allowDotfiles site.docroot now).cache := by
  unfold Handler.staticBegin
  extract_lets loc
  by_cases hmethod : t.hc.req.method ≠ .get ∧ t.hc.req.method ≠ .head
  · rw [Handler.staticServe, if_pos hmethod, Handler.armKeepable_cache _ _ _ hempty.1]
    exact hagrees
  by_cases hdir : site.docroot = none
  · rw [Handler.staticServe, if_neg hmethod, if_pos hdir, Handler.armClose_cache _ _ hempty.1]
    exact hagrees
  obtain ⟨hleaves, -⟩ := Handler.staticServe_honest site.allowDotfiles true loc.1 loc.2 t.path
    hempty.2 hempty.1 (by tauto) hdir (fun _ => hagrees) hhonest
  exact hleaves.agrees rfl

end Agrees

end Turn

section Acts

variable {T : Tree} {site : Site} {fuel now idx : Nat} {p q : Point} {t t' : Turn}

/-- A reply that opens files honestly keeps the cache in agreement with the tree. -/
theorem reply_agrees (h : Reply site now t t') (hempty : t.Empty) (hagrees : T.Agrees t.cache)
    (hhonest : AllHonest T (t.docrootCalls site now)) : T.Agrees t'.cache := by
  cases h with
  | docroot => exact t.docroot_agrees hempty hagrees hhonest
  | file r =>
      have hcache : (t.toHandler.staticBeginFile r.target now).cache = t.cache :=
        Handler.staticBeginFile_cache r.target hempty.2 hempty.1
      show T.Agrees (t.toHandler.staticBeginFile r.target now).cache
      rw [hcache]
      exact hagrees
  | mount r =>
      have hserve : ∀ url urlLen redir, T.Agrees
          (t.toHandler.staticServe site.allowDotfiles r.dirFd false url urlLen redir now).cache := by
        intro url urlLen redir
        rw [Handler.staticServe_cache _ _ _ _ _ hempty.2 hempty.1]
        exact hagrees
      unfold Turn.serveMount
      extract_lets cut loc
      split
      · exact hserve _ _ _
      split
      · exact hagrees
      · exact hserve _ _ _
  | fixed => exact hagrees

/-- The step lemma. -/
theorem Act.agrees (h : Act site fuel now idx (p, t) (q, t')) (hs : Stance p t)
    (hhonest : t.Honest T site now p) (hagrees : T.Agrees t.cache) : T.Agrees t'.cache := by
  cases h with
  | hangUp => exact Turn.slotClose_agrees idx hagrees
  | close => exact Turn.slotClose_agrees idx hagrees
  | arm _ io => exact Turn.armEvents_agrees idx io hagrees
  | pump _ _ io hactive h =>
      obtain ⟨⟨io', v⟩, hv, hr⟩ := Option.map_eq_some_iff.1 h
      cases hr
      exact hagrees
  | proxy _ _ io r loop hparsed hmethod hroute htype h =>
      obtain ⟨⟨io', v⟩, hv, hr⟩ := Option.map_eq_some_iff.1 h
      cases hr
      exact hagrees
  | reply _ _ loop hparsed hmethod h =>
      exact reply_agrees h (hs.empty rfl) hagrees (hhonest loop rfl)
  | write => exact Handler.httpConnOnWrite_agrees now hagrees
  | next =>
      have hclean : T.Agrees t.answered.toHandler.httpConnCleanup.cache :=
        Handler.httpConnCleanup_agrees hagrees
      exact hclean
  | full | overlong =>
      unfold Turn.refused
      split
      · exact hagrees
      · exact hagrees
  | again | wait | ended | receive => exact hagrees
  | bad | unsupported | parse | unknown | finish => exact hagrees
  | send | late | resume | start | empty | partialHead | deliver | return_ | gone => exact hagrees

/-- The run lemma of a handler. -/
theorem ActsIn.agrees {p : Point}
    (h : ActsIn site fuel now idx (Turn.Honest T site now) (.rest, t) (p, t')) (hfit : t.Fit)
    (hagrees : T.Agrees t.cache) : Stance p t' ∧ T.Agrees t'.cache := by
  refine h.invariant (I := fun q u => Stance q u ∧ T.Agrees u.cache) ?_ ⟨.at_rest hfit, hagrees⟩
  intro q u q' u' hok hact hi
  exact ⟨(hact.goes hi.1).1, hact.agrees hi.1 hok hi.2⟩

end Acts

/-! ## Workers -/

namespace Worker

/-- A handler of the slot `idx` starts at the time `now`. -/
inductive Entry (w : Worker) (idx now : Nat) : Turn → Prop
  | load (s : Slot) (sched : Schedule) (disk : Disk) (hs : w.slots[idx]? = some s)
      (hactive : s.active = true) : Entry w idx now (w.load s sched disk)
  | enter (fd : Nat) (free : List Nat) (s : Slot) (sched : Schedule) (disk : Disk)
      (hfree : w.freeStack = idx :: free) (hs : w.slots[idx]? = some s)
      (hwatched : Watched sched fd) : Entry w idx now (w.admitted s fd now free sched disk)

/-- `Tend`, with a condition that depends on the clock of the handler. -/
inductive TendAt (site : Site) (fuel : Nat) (ok : Nat → Point → Turn → Prop) :
    Worker → Worker → Prop
  | stale (w : Worker) (fd : Nat) :
      TendAt site fuel ok w ((w.call (.accept fd)).call (.close fd))
  | reject (w : Worker) (fd now idx : Nat) (free : List Nat) (s : Slot) (sched : Schedule)
      (disk : Disk) (hfree : w.freeStack = idx :: free) (hs : w.slots[idx]? = some s) :
      TendAt site fuel ok w (w.store idx (w.rejected idx s fd now free sched disk))
  | handle (w : Worker) (idx now : Nat) (t₀ t : Turn) (hentry : w.Entry idx now t₀)
      (h : ActsIn site fuel now idx (ok now) (.rest, t₀) (.rest, t)) :
      TendAt site fuel ok w (w.store idx t)

/-- The docroot is told the truth about the tree all through the step. At the end the
worker clears its table. -/
def HonestStep (T : Tree) (site : Site) (fuel : Nat) (w : Worker) (a : Action) : Prop :=
  ∀ w', w.step site fuel a = some w' → w'.exited = false →
    Relation.ReflTransGen (TendAt site fuel (Turn.Honest T site)) w w'

section Runs

variable {T : Tree} {site : Site} {fuel n idx now : Nat} {w w' : Worker} {t₀ : Turn}

theorem Entry.agrees (h : w.Entry idx now t₀) (hfit : w.Fit n) (hagrees : T.Agrees w.cache) :
    t₀.Fit ∧ T.Agrees t₀.cache := by
  cases h with
  | load s sched disk hs hactive => exact ⟨(load_enters sched disk hfit hs hactive).fit, hagrees⟩
  | enter fd free s sched disk hfree hs hwatched =>
      exact ⟨(admitted_enters fd now sched disk hfit hfree hs).fit, hagrees⟩

theorem TendAt.tend {ok : Nat → Point → Turn → Prop} (h : TendAt site fuel ok w w') :
    Tend site fuel anyState w w' := by
  cases h with
  | stale fd => exact .stale w fd
  | reject fd now idx free s sched disk hfree hs =>
      exact .reject w fd now idx free s sched disk hfree hs
  | handle idx now t₀ t hentry h =>
      cases hentry with
      | load s sched disk hs hactive => exact .handle w now idx s sched disk t hs hactive h.acts.inAny
      | enter fd free s sched disk hfree hs hwatched =>
          exact .enter w fd now idx free s sched disk t hfree hs hwatched h.acts.inAny

/-- The step lemma. -/
theorem TendAt.agrees (h : TendAt site fuel (Turn.Honest T site) w w') (hfit : w.Fit n)
    (hagrees : T.Agrees w.cache) : T.Agrees w'.cache := by
  cases h with
  | stale fd => exact hagrees
  | reject fd now idx free s sched disk hfree hs =>
      show T.Agrees (w.rejected idx s fd now free sched disk).cache
      unfold rejected
      extract_lets t₁ t₂ t₃
      have hclean : T.Agrees t₂.toHandler.httpConnCleanup.cache :=
        Handler.httpConnCleanup_agrees hagrees
      exact hclean
  | handle idx now t₀ t hentry h =>
      obtain ⟨hfit₀, hagrees₀⟩ := hentry.agrees hfit hagrees
      exact (h.agrees hfit₀ hagrees₀).2

theorem tendsAt_agrees (h : Relation.ReflTransGen (TendAt site fuel (Turn.Honest T site)) w w')
    (hregular : Regular n w) (hagrees : T.Agrees w.cache) : Regular n w' ∧ T.Agrees w'.cache := by
  induction h with
  | refl => exact ⟨hregular, hagrees⟩
  | tail _ htend ih => exact ⟨(htend.tend.regular ih.1).1, htend.agrees ih.1.fit ih.2⟩

/-- In every state of an honest run the table was filled from the tree. -/
theorem reachable_agrees {as : List Action}
    (hall : AllSteps (Worker.step site fuel) (HonestStep T site fuel) (Worker.start n) as) :
    ∀ w ∈ runStates (Worker.step site fuel) (Worker.start n) as, w.exited = false →
      T.Agrees w.cache := by
  have hboth : ∀ w ∈ runStates (Worker.step site fuel) (Worker.start n) as,
      Steady n w ∧ (w.exited = false → T.Agrees w.cache) := by
    refine AllSteps.invariant (fun w a w' hw hhonest h => ?_) ⟨start_steady n, fun _ => .fresh T⟩ hall
    refine ⟨(step_steady hw.1 h).1, fun hon => ?_⟩
    have hon' := (step_tends h).1
    have hregular : Regular n w := ⟨hw.1.fit hon', hw.1.sane⟩
    exact (tendsAt_agrees (hhonest w' h hon) hregular (hw.2 hon')).2
  exact fun w hw => (hboth w hw).2

/-- The handlers of an honest run. -/
theorem Entry.reachable {as : List Action} {p : Point} {t : Turn}
    (hall : AllSteps (Worker.step site fuel) (HonestStep T site fuel) (Worker.start n) as)
    (hw : w ∈ runStates (Worker.step site fuel) (Worker.start n) as) (hon : w.exited = false)
    (hentry : w.Entry idx now t₀)
    (hacts : ActsIn site fuel now idx (Turn.Honest T site now) (.rest, t₀) (p, t)) :
    Stance p t ∧ T.Agrees t.cache := by
  have hfit := (reachable_steady site fuel n as w hw).fit hon
  obtain ⟨hfit₀, hagrees₀⟩ := hentry.agrees hfit (reachable_agrees hall w hw hon)
  exact hacts.agrees hfit₀ hagrees₀

end Runs

end Worker

end TinyServer.Serve
