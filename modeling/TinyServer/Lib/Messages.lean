import Mathlib.Data.List.Infix

/-!
# Streams of messages

A stream is read message by message, and `decode` says which words are a message.
`Splits decode s ms rest` reads the messages `ms` off the front of `s` and leaves `rest`.
Where no message is a proper prefix of another (`PrefixFree`), there is only one way to
read a stream: of two readings, one goes on where the other stops (`Splits.comparable`).
-/

set_option autoImplicit false

namespace TinyServer.Lib

universe u v

variable {α : Type u} {β : Type v}

/-- `ms` are messages at the front of the stream, each with its word; `rest` follows them. -/
inductive Splits (decode : List α → Option β) : List α → List (List α × β) → List α → Prop
  | nil (s : List α) : Splits decode s [] s
  | cons {p s rest : List α} {m : β} {ms : List (List α × β)} (hp : decode p = some m)
      (h : Splits decode s ms rest) : Splits decode (p ++ s) ((p, m) :: ms) rest

/-- No message is a proper prefix of another, and none is empty. -/
structure PrefixFree (decode : List α → Option β) : Prop where
  eq_of_prefix : ∀ {p q : List α} {m m' : β}, decode p = some m → decode q = some m' →
    p <+: q → p = q
  nil : decode [] = none

section Splits

variable {decode : List α → Option β} {p s t rest : List α} {m : β} {ms ms' : List (List α × β)}

/-- The words and the rest make up the stream. -/
theorem Splits.flatten (h : Splits decode s ms rest) : (ms.map Prod.fst).flatten ++ rest = s := by
  induction h with
  | nil s => simp
  | cons hp _ ih => simp [← ih]

/-- Each message of a stream is decoded by itself. -/
theorem Splits.decoded (h : Splits decode s ms rest) : ∀ x ∈ ms, decode x.1 = some x.2 := by
  induction h with
  | nil s => simp
  | cons hp _ ih => simpa using ⟨hp, fun a b hab => ih (a, b) hab⟩

/-- More of the stream arrives. -/
theorem Splits.more (h : Splits decode s ms rest) (t : List α) :
    Splits decode (s ++ t) ms (rest ++ t) := by
  induction h with
  | nil s => exact .nil _
  | cons hp _ ih =>
      rw [List.append_assoc]
      exact .cons hp ih

/-- The messages of a stream and of what follows them. -/
theorem Splits.trans (h : Splits decode s ms rest) (h' : Splits decode rest ms' t) :
    Splits decode s (ms ++ ms') t := by
  induction h with
  | nil s => exact h'
  | cons hp _ ih => exact .cons hp (ih h')

/-- One more message is read. -/
theorem Splits.concat (h : Splits decode s ms (p ++ rest)) (hp : decode p = some m) :
    Splits decode s (ms ++ [(p, m)]) rest := h.trans (.cons hp (.nil rest))

/-- The stream that a list of messages is written as. -/
theorem Splits.of_words (h : ∀ x ∈ ms, decode x.1 = some x.2) (rest : List α) :
    Splits decode ((ms.map Prod.fst).flatten ++ rest) ms rest := by
  induction ms with
  | nil => exact .nil rest
  | cons x ms ih =>
      simp only [List.map_cons, List.flatten_cons, List.append_assoc]
      exact .cons (h x (by simp)) (ih fun y hy => h y (by simp [hy]))

/-- Of two readings of a stream, one goes on where the other stops. -/
theorem Splits.comparable (hfree : PrefixFree decode) (h : Splits decode s ms rest)
    {s' rest' : List α} (h' : Splits decode s' ms' rest') (hs : s <+: s') :
    ms <+: ms' ∨ ms' <+: ms := by
  induction h generalizing s' ms' with
  | nil s => exact .inl ms'.nil_prefix
  | @cons p s rest m ms hp hrest ih =>
      cases h' with
      | nil => exact .inr (List.nil_prefix)
      | @cons p' t _ m' ms' hp' hrest' =>
          -- the first words are prefixes of the same stream
          have hwords : p = p' := by
            have hp_le : p <+: p' ++ t := (List.prefix_append p s).trans hs
            rcases List.prefix_or_prefix_of_prefix hp_le (List.prefix_append p' t) with hle | hle
            · exact hfree.eq_of_prefix hp hp' hle
            · exact (hfree.eq_of_prefix hp' hp hle).symm
          subst hwords
          obtain rfl : m = m' := Option.some.inj (hp.symm.trans hp')
          have htail : s <+: t := (List.prefix_append_right_inj p).1 hs
          rcases ih hrest' htail with hle | hle
          · exact .inl (List.cons_prefix_cons.2 ⟨rfl, hle⟩)
          · exact .inr (List.cons_prefix_cons.2 ⟨rfl, hle⟩)

/-- An empty stream has no messages. -/
theorem Splits.eq_nil (hfree : PrefixFree decode) (h : Splits decode [] ms rest) : ms = [] := by
  generalize hs : ([] : List α) = s at h
  cases h with
  | nil => rfl
  | cons hp hrest =>
      obtain ⟨rfl, -⟩ := List.append_eq_nil_iff.1 hs.symm
      rw [hfree.nil] at hp
      cases hp

/-- What is read of a stream of messages is the first of them, and the others follow. -/
theorem Splits.of_stream (hfree : PrefixFree decode) (hwords : ∀ x ∈ ms', decode x.1 = some x.2)
    (h : Splits decode s ms rest) (hs : s <+: (ms'.map Prod.fst).flatten) : ms <+: ms' := by
  have hwhole : Splits decode (ms'.map Prod.fst).flatten ms' [] := by
    simpa using Splits.of_words hwords []
  rcases h.comparable hfree hwhole hs with hle | ⟨ls, rfl⟩
  · exact hle
  · -- there is nothing left to read after the last message
    obtain ⟨t, ht⟩ := hs
    have hwords' := h.flatten
    have hnil : (ls.map Prod.fst).flatten = [] := by
      rw [← hwords', List.map_append, List.flatten_append, List.append_assoc, List.append_assoc]
        at ht
      have hlen := congrArg List.length ht
      simp only [List.length_append] at hlen
      exact List.eq_nil_of_length_eq_zero (by omega)
    have hempty : Splits decode [] ls [] := by
      have hls : Splits decode ((ls.map Prod.fst).flatten ++ []) ls [] :=
        Splits.of_words (fun x hx => h.decoded x (by simp [hx])) []
      rwa [hnil] at hls
    rw [hempty.eq_nil hfree, List.append_nil]

/-- What was not read yet is the start of the messages that follow. -/
theorem Splits.rest_prefix (hfree : PrefixFree decode) (hwords : ∀ x ∈ ms', decode x.1 = some x.2)
    (h : Splits decode s ms rest) (hs : s <+: (ms'.map Prod.fst).flatten) :
    ∃ ls, ms' = ms ++ ls ∧ rest <+: (ls.map Prod.fst).flatten := by
  obtain ⟨ls, rfl⟩ := h.of_stream hfree hwords hs
  refine ⟨ls, rfl, ?_⟩
  rw [← h.flatten, List.map_append, List.flatten_append] at hs
  exact (List.prefix_append_right_inj _).1 hs

/-- A stream of messages is read to its end where no message is at the front of the rest. -/
theorem Splits.all_of_stuck (hfree : PrefixFree decode) (hwords : ∀ x ∈ ms', decode x.1 = some x.2)
    (h : Splits decode (ms'.map Prod.fst).flatten ms rest)
    (hstuck : ∀ q m, q <+: rest → decode q ≠ some m) : ms = ms' := by
  obtain ⟨ls, rfl⟩ := h.of_stream hfree hwords (List.prefix_refl _)
  cases ls with
  | nil => simp
  | cons x ls =>
      have hrest : rest = ((x :: ls).map Prod.fst).flatten := by
        have hflat := h.flatten
        rw [List.map_append, List.flatten_append] at hflat
        exact List.append_cancel_left hflat
      have hx := hwords x (by simp)
      refine absurd hx (hstuck x.1 x.2 ?_)
      rw [hrest, List.map_cons, List.flatten_cons]
      exact List.prefix_append _ _

end Splits

end TinyServer.Lib
