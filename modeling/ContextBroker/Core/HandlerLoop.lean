import ContextBroker.Core.LTS

/-!
# Loops with exception handlers

A task `while True: try ... except ...` makes one call after another; the
answer to a call decides where it goes on. `HandlerLoop` is such a task with
the two facts about its steps that matter: which exceptions leave the loop
(`exits`), and that a round is finite (`returns`: a step leads to the head of
the loop, out of it, or to a smaller `rank`).

`survives_iff`: the loop goes on for ever, the allowed exceptions apart,
exactly when every other exception of a call is one its handlers catch.
-/
namespace ContextBroker

open LTS

/-- States `S`, answers `A` to the calls, exceptions `E`. -/
structure HandlerLoop (S A E : Type) where
  step : S → A → Option S
  raises : A → Option E
  /-- The exception the loop was left with. -/
  exit : S → Option E
  head : S → Prop
  caught : E → Bool
  rank : S → Nat
  exits : ∀ s a s', step s a = some s' → exit s' = (raises a).filter fun e => !caught e
  returns : ∀ s a s', step s a = some s' → (exit s').isSome ∨ head s' ∨ rank s' < rank s

namespace HandlerLoop

variable {S A E : Type} (L : HandlerLoop S A E) {s t : S} {as : List A}

/-- From `s` the answers `as` lead to the head or out of the loop, after one
step or more. -/
def ComesBack (s : S) (as : List A) : Prop :=
  ∃ as₁ as₂ t, as = as₁ ++ as₂ ∧ as₁ ≠ [] ∧ exec L.step s as₁ = some t ∧ (L.head t ∨ (L.exit t).isSome)

/-- The loop is left with allowed exceptions only, and a round that goes on for
more than `rank` steps is over. -/
structure Survives (allowed : E → Prop) (s : S) (as : List A) : Prop where
  exits : ∀ t, Passes L.step s as t → ∀ e, L.exit t = some e → allowed e
  returns : ∀ as₁ as₂ t u, as = as₁ ++ as₂ → exec L.step s as₁ = some t → exec L.step t as₂ = some u →
    L.rank t < as₂.length → L.ComesBack t as₂

variable {L}

theorem comesBack (h : exec L.step s as = some t) (hlen : L.rank s < as.length) : L.ComesBack s as := by
  induction as generalizing s with
  | nil => exact absurd hlen (Nat.not_lt_zero _)
  | cons a as ih =>
    obtain ⟨s', hs, hrest⟩ := Option.bind_eq_some_iff.mp h
    have hone : L.head s' ∨ (L.exit s').isSome → L.ComesBack s (a :: as) := by
      intro hback
      exact ⟨[a], as, s', rfl, List.cons_ne_nil _ _, by simp [exec, hs], hback⟩
    rcases L.returns s a s' hs with hexit | hhead | hrank
    · exact hone (.inr hexit)
    · exact hone (.inl hhead)
    · have hlen' : L.rank s' < as.length := by
        rw [List.length_cons] at hlen
        omega
      obtain ⟨as₁, as₂, u, rfl, _, hu, hback⟩ := ih hrest hlen'
      exact ⟨a :: as₁, as₂, u, rfl, List.cons_ne_nil _ _, by simp [exec, hs, hu], hback⟩

/-- **The union of the handlers.** In every sequence of answers the loop
survives exactly when each exception of a call is allowed or caught. -/
theorem survives_iff (allowed : E → Prop) (hs : L.exit s = none) (as : List A) :
    L.Survives allowed s as ↔
      ∀ t a t', Takes L.step s as t a t' → ∀ e, L.raises a = some e → allowed e ∨ L.caught e = true := by
  have hstep : ∀ t a t', True → (∀ e, L.exit t = some e → allowed e) → L.step t a = some t' →
      ((∀ e, L.exit t' = some e → allowed e) ↔ ∀ e, L.raises a = some e → allowed e ∨ L.caught e = true) := by
    intro t a t' _ _ hstep
    rw [L.exits t a t' hstep]
    simp only [Option.filter_eq_some_iff]
    constructor
    · intro h e he
      cases hc : L.caught e with
      | true => exact .inr rfl
      | false => exact .inl (h e ⟨he, by simp [hc]⟩)
    · intro h e he
      exact (h e he.1).resolve_right (by simpa using he.2)
  have hiff := always_iff (I := fun _ => True) (fun _ _ _ _ _ _ => trivial) hstep trivial
    (fun e he => nomatch hs.symm.trans he) as
  constructor
  · intro h
    exact hiff.mp h.exits
  · intro h
    exact ⟨hiff.mpr h, fun _ _ _ _ _ _ hrest hlen => comesBack hrest hlen⟩

end HandlerLoop

end ContextBroker
