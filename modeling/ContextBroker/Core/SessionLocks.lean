import Mathlib.Logic.Function.Basic

/-!
# Session locks

The lock table of a server with session-level locks: a lock is held by at
most one session, counts how often that session took it, and is given up by
unlocking as often or by resetting the session. Sessions `C` and keys `K`
are arbitrary.

A table keeps one holder per key, so a lock held by two sessions cannot be
written down.
-/
namespace ContextBroker.SessionLocks

/-- Per key its holder and how often the holder took it again. -/
abbrev Table (C K : Type) := K → Option (C × Nat)

variable {C K : Type}

section Operations

variable [DecidableEq C] [DecidableEq K]

/-- A try for `key` by session `c`: re-entrant, refused while another holds it. -/
def tryLock (locks : Table C K) (c : C) (key : K) : Table C K × Bool :=
  match locks key with
  | none => (Function.update locks key (some (c, 0)), true)
  | some (holder, again) =>
    if holder = c then (Function.update locks key (some (c, again + 1)), true) else (locks, false)

/-- Session `c` gives up one of its holds on `key`; another's stays. -/
def unlock (locks : Table C K) (c : C) (key : K) : Table C K × Bool :=
  match locks key with
  | none => (locks, false)
  | some (holder, again) =>
    if holder = c then
      (Function.update locks key (if again = 0 then none else some (c, again - 1)), true)
    else (locks, false)

end Operations

/-- Everything session `c` holds is released. -/
def reset [DecidableEq C] (locks : Table C K) (c : C) : Table C K := fun key =>
  match locks key with
  | none => none
  | some (holder, again) => if holder = c then none else some (holder, again)

/-- Only sessions in `busy` hold locks. -/
def HeldBy (locks : Table C K) (busy : C → Prop) : Prop :=
  ∀ key c again, locks key = some (c, again) → busy c

variable {locks : Table C K} {busy : C → Prop} {c : C} {key : K}

/-- With no busy session every lock is free. -/
theorem HeldBy.free (h : HeldBy locks busy) (hidle : ∀ c, ¬ busy c) (key : K) : locks key = none := by
  cases hk : locks key with
  | none => rfl
  | some p => exact absurd (h key p.1 p.2 hk) (hidle p.1)

variable [DecidableEq K]

theorem HeldBy.update (h : HeldBy locks busy) {o : Option (C × Nat)}
    (ho : ∀ c again, o = some (c, again) → busy c) : HeldBy (Function.update locks key o) busy := by
  intro k c again hk
  by_cases hkey : k = key
  · subst hkey
    rw [Function.update_self] at hk
    exact ho c again hk
  · rw [Function.update_of_ne hkey] at hk
    exact h k c again hk

variable [DecidableEq C]

theorem tryLock_of_free (h : locks key = none) :
    tryLock locks c key = (Function.update locks key (some (c, 0)), true) := by
  simp [tryLock, h]

theorem HeldBy.tryLock (h : HeldBy locks busy) (hc : busy c) :
    HeldBy (tryLock locks c key).1 busy := by
  have hnew : ∀ (again : Nat) c' again', some (c, again) = some (c', again') → busy c' := by
    intro again c' again' heq
    obtain ⟨rfl, rfl⟩ := Prod.mk.inj (Option.some.inj heq)
    exact hc
  unfold SessionLocks.tryLock
  split
  · exact h.update (hnew 0)
  · split
    · exact h.update (hnew _)
    · exact h

theorem HeldBy.unlock (h : HeldBy locks busy) (hc : busy c) :
    HeldBy (unlock locks c key).1 busy := by
  unfold SessionLocks.unlock
  split
  · exact h
  · split
    · refine h.update fun c' again' heq => ?_
      split at heq
      · cases heq
      · obtain ⟨rfl, rfl⟩ := Prod.mk.inj (Option.some.inj heq)
        exact hc
    · exact h

omit [DecidableEq K] in
/-- A reset session holds nothing. -/
theorem HeldBy.reset (h : HeldBy locks busy) : HeldBy (reset locks c) fun c' => busy c' ∧ c' ≠ c := by
  intro key c' again hk
  unfold SessionLocks.reset at hk
  split at hk
  · cases hk
  · rename_i holder again' hold
    split at hk
    · cases hk
    · rename_i hne
      obtain ⟨rfl, rfl⟩ := Prod.mk.inj (Option.some.inj hk)
      exact ⟨h key holder again' hold, hne⟩

end ContextBroker.SessionLocks
