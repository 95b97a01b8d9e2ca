/-!
# Programs as scripts of calls

A script is a program cut at the calls it makes: it has finished, or it makes a call and goes
on by the answer. It can be run at one go, with every answer known beforehand (`run`), or one
call at a time, with anything else happening in between.

A protocol says by a state which calls may come next and what an answer makes of the state.
That a script keeps to it is shown piece by piece (`Keeps.bind`).
-/

set_option autoImplicit false

namespace TinyServer.Lib

universe u v w x y

/-- Programs over the calls `Q`, whose answers are in `A`. -/
inductive Script (Q : Type u) (A : Q → Type v) (α : Type w) : Type (max u v w) where
  | done (a : α) : Script Q A α
  | call (q : Q) (next : A q → Script Q A α) : Script Q A α

namespace Script

variable {Q : Type u} {A : Q → Type v} {α : Type w} {β : Type x}

/-- One script after the other. -/
def bind : Script Q A α → (α → Script Q A β) → Script Q A β
  | done a, f => f a
  | call q next, f => call q fun a => bind (next a) f

/-- The result of a script whose calls are answered by `answer`. -/
def run (answer : (q : Q) → A q) : Script Q A α → α
  | done a => a
  | call q next => run answer (next (answer q))

@[simp] theorem run_done (answer : (q : Q) → A q) (a : α) : (done a : Script Q A α).run answer = a := rfl

@[simp] theorem run_call (answer : (q : Q) → A q) (q : Q) (next : A q → Script Q A α) :
    (call q next).run answer = (next (answer q)).run answer := rfl

@[simp] theorem run_bind (answer : (q : Q) → A q) (t : Script Q A α) (f : α → Script Q A β) :
    (t.bind f).run answer = (f (t.run answer)).run answer := by
  induction t with
  | done a => rfl
  | call q next ih => exact ih (answer q)

@[simp] theorem run_ite (answer : (q : Q) → A q) (p : Prop) [Decidable p] (t t' : Script Q A α) :
    (if p then t else t').run answer = if p then t.run answer else t'.run answer :=
  apply_ite (run answer) p t t'

/-! ## Protocols -/

variable {σ : Type y}

/-- Which calls may be made in a state, and the state after an answer. -/
structure Protocol (Q : Type u) (A : Q → Type v) (σ : Type y) where
  ok : σ → Q → Prop
  after : σ → (q : Q) → A q → σ

/-- Whatever the answers are, the script makes only calls that may be made, and ends with
`post`. -/
def Keeps (P : Protocol Q A σ) (post : σ → α → Prop) : σ → Script Q A α → Prop
  | s, done a => post s a
  | s, call q next => P.ok s q ∧ ∀ a, Keeps P post (P.after s q a) (next a)

variable {P : Protocol Q A σ} {post : σ → α → Prop} {post' : σ → β → Prop}

/-- A protocol that is kept by one script and then by the next is kept by both. -/
theorem Keeps.bind {t : Script Q A α} {f : α → Script Q A β} :
    ∀ {s : σ}, t.Keeps P post s → (∀ s a, post s a → (f a).Keeps P post' s) → (t.bind f).Keeps P post' s := by
  induction t with
  | done a =>
      intro s ht hf
      exact hf s a ht
  | call q next ih =>
      intro s ht hf
      exact ⟨ht.1, fun a => ih a (ht.2 a) hf⟩

end Script

end TinyServer.Lib
