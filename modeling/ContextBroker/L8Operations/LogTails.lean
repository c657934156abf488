import ContextBroker.Core.LTS
import Mathlib.Logic.Function.Basic

/-!
# The log shipper's tail tasks

`active_tasks` maps a container to the task that tails its log. The scan and
a connect event create a task and register it; a disconnect event cancels
the registered task and removes the entry at once; every task that has begun
removes the entry of its container in its `finally` block, whoever is
registered there by then. A task cancelled before its first step never gets
to its `finally` block.

`step` is one event, the first step of a task or its `finally` block, in any
order. `tails_iff`: there is at most one live tail per container, and it is
the registered one, exactly as long as no task cleans up while its container
is registered to another.
-/
namespace ContextBroker.LogTails

open LTS

/-- `created`: the task has not had its first step. `cancelling`: its `finally`
block is still to run. -/
inductive Phase where
  | created | running | cancelling | finished
  deriving DecidableEq, Repr

/-- A task that runs `tail_container(container_id)`. -/
structure Tail (C : Type) where
  container : C
  phase : Phase
  deriving DecidableEq, Repr

/-- Not cancelled and not finished. -/
def Tail.live {C : Type} (t : Tail C) : Bool := t.phase == .created || t.phase == .running

/-- Tasks are numbered in the order of their creation. -/
structure State (C : Type) where
  activeTasks : C → Option Nat := fun _ => none
  tails : List (Tail C) := []

inductive Label (C : Type) where
  /-- `scan_existing_containers` finds the container. -/
  | discover (c : C)
  | connect (c : C)
  | disconnect (c : C)
  /-- The first step of a task. -/
  | start (i : Nat)
  /-- Its `finally` block: the log ends, `tail_container` fails or returns
  early, or the cancellation gets through. -/
  | finalise (i : Nat)
  deriving DecidableEq, Repr

/-- `task.cancel()`. -/
def cancel {C : Type} (t : Tail C) : Tail C :=
  match t.phase with
  | .created => { t with phase := .finished }
  | .running => { t with phase := .cancelling }
  | .cancelling => t
  | .finished => t

variable {C : Type} [DecidableEq C]

/-- mirrors log_shipper/shipper.py:322-325 and 359-363 -/
def register (s : State C) (c : C) : State C :=
  match s.activeTasks c with
  | none => { activeTasks := Function.update s.activeTasks c (some s.tails.length), tails := s.tails ++ [⟨c, .created⟩] }
  | some _ => s

/-- mirrors log_shipper/shipper.py:365-371 -/
def disconnect (s : State C) (c : C) : State C :=
  match s.activeTasks c with
  | none => s
  | some i => { activeTasks := Function.update s.activeTasks c none, tails := s.tails.modify i cancel }

/-- mirrors log_shipper/shipper.py:230-232 -/
def cleanUp (s : State C) (c : C) : State C := { s with activeTasks := Function.update s.activeTasks c none }

def step (s : State C) : Label C → Option (State C)
  | .discover c => some (register s c)
  | .connect c => some (register s c)
  | .disconnect c => some (disconnect s c)
  | .start i =>
    match s.tails[i]? with
    | some ⟨c, .created⟩ => some { s with tails := s.tails.set i ⟨c, .running⟩ }
    | _ => none
  | .finalise i =>
    match s.tails[i]? with
    | some ⟨c, .running⟩ => some (cleanUp { s with tails := s.tails.set i ⟨c, .finished⟩ } c)
    | some ⟨c, .cancelling⟩ => some (cleanUp { s with tails := s.tails.set i ⟨c, .finished⟩ } c)
    | _ => none

/-! ## Live tails -/

/-- Task `i` is a live tail of the container. -/
def LiveTail (s : State C) (c : C) (i : Nat) : Prop := ∃ t, s.tails[i]? = some t ∧ t.container = c ∧ t.live = true

/-- At most one per container, and a disconnect would find it. -/
def OneTail (s : State C) : Prop :=
  (∀ c i j, LiveTail s c i → LiveTail s c j → i = j) ∧ ∀ c i, LiveTail s c i → s.activeTasks c = some i

/-- A task cleans up: the entry of its container is its own, or gone. -/
def Clean (s : State C) : Label C → Prop
  | .finalise i => ∀ t, s.tails[i]? = some t → ∀ j, s.activeTasks t.container = some j → j = i
  | _ => True

/-- What is registered is live. -/
def Inv (s : State C) : Prop := ∀ c i, s.activeTasks c = some i → LiveTail s c i

/-! ## What a step does to the live tails -/

/-- Nothing; or a tail is created and registered; or tail `i` ends and the entry
of its container is removed. -/
inductive Effect (s s' : State C) (l : Label C) : Prop where
  | none : s'.activeTasks = s.activeTasks → (∀ c i, LiveTail s' c i ↔ LiveTail s c i) → Clean s l → Effect s s' l
  | created (c : C) (n : Nat) : s.activeTasks c = .none → s'.activeTasks = Function.update s.activeTasks c (some n) →
    (∀ c' i, LiveTail s' c' i ↔ LiveTail s c' i ∨ c' = c ∧ i = n) → Clean s l → Effect s s' l
  | ended (c : C) (i : Nat) : (∀ c', LiveTail s c' i → c' = c) → s'.activeTasks = Function.update s.activeTasks c .none →
    (∀ c' j, LiveTail s' c' j ↔ LiveTail s c' j ∧ j ≠ i) → (Clean s l ↔ ∀ j, s.activeTasks c = some j → j = i) →
    Effect s s' l

variable {s s' : State C} {l : Label C}

omit [DecidableEq C] in
theorem live_append {active : C → Option Nat} {c c' : C} {j : Nat} :
    LiveTail ⟨active, s.tails ++ [⟨c, .created⟩]⟩ c' j ↔ LiveTail s c' j ∨ c' = c ∧ j = s.tails.length := by
  unfold LiveTail
  rcases Nat.lt_trichotomy j s.tails.length with hlt | rfl | hgt
  · simp [List.getElem?_append_left hlt, Nat.ne_of_lt hlt]
  · simp only [List.getElem?_append_right (Nat.le_refl _), Nat.sub_self]
    simp [Tail.live]
    exact eq_comm
  · have hnew : (s.tails ++ [⟨c, .created⟩])[j]? = none := List.getElem?_eq_none (by simp; omega)
    simp [hnew, List.getElem?_eq_none (Nat.le_of_lt hgt), Nat.ne_of_gt hgt]

omit [DecidableEq C] in
/-- Task `i` is set to a state that is not live. -/
theorem live_set {active : C → Option Nat} {c' : C} {i j : Nat} {t t' : Tail C} (hi : s.tails[i]? = some t)
    (hdead : t'.live = false) : LiveTail ⟨active, s.tails.set i t'⟩ c' j ↔ LiveTail s c' j ∧ j ≠ i := by
  unfold LiveTail
  have hlt : i < s.tails.length := (List.getElem?_eq_some_iff.mp hi).1
  by_cases hij : i = j
  · subst hij
    simp [List.getElem?_set_self hlt, hdead]
  · simp [List.getElem?_set_ne hij, Ne.symm hij]

omit [DecidableEq C] in
theorem live_started {active : C → Option Nat} {c c' : C} {i j : Nat} (hi : s.tails[i]? = some ⟨c, .created⟩) :
    LiveTail ⟨active, s.tails.set i ⟨c, .running⟩⟩ c' j ↔ LiveTail s c' j := by
  unfold LiveTail
  have hlt : i < s.tails.length := (List.getElem?_eq_some_iff.mp hi).1
  by_cases hij : i = j
  · subst hij
    simp [List.getElem?_set_self hlt, hi, Tail.live]
  · simp [List.getElem?_set_ne hij]

omit [DecidableEq C] in
theorem container_of_live {c' : C} {i : Nat} {t : Tail C} (hi : s.tails[i]? = some t) (h : LiveTail s c' i) :
    c' = t.container := by
  obtain ⟨t', ht', rfl, _⟩ := h
  rw [Option.some.inj (hi.symm.trans ht')]

theorem register_effect (c : C) (hclean : Clean s l) : Effect s (register s c) l := by
  unfold register
  cases hc : s.activeTasks c with
  | none => exact .created c s.tails.length hc rfl (fun _ _ => live_append) hclean
  | some i => exact .none rfl (fun _ _ => Iff.rfl) hclean

theorem disconnect_effect (hI : Inv s) (c : C) : Effect s (disconnect s c) (.disconnect c) := by
  unfold disconnect
  cases hc : s.activeTasks c with
  | none => exact .none rfl (fun _ _ => Iff.rfl) trivial
  | some i =>
    obtain ⟨t, hi, hcont, _⟩ := hI c i hc
    have hset : s.tails.modify i cancel = s.tails.set i (cancel t) := by
      have : Inhabited (Tail C) := ⟨t⟩
      rw [List.modify_eq_set, hi]
      rfl
    have hdead : (cancel t).live = false := by
      unfold cancel Tail.live
      cases hp : t.phase <;> simp [hp]
    refine .ended c i (fun c' hlive => (container_of_live hi hlive).trans hcont) rfl (fun c' j => ?_)
      ⟨fun _ j hj => Option.some.inj (hj.symm.trans hc), fun _ => trivial⟩
    show LiveTail ⟨_, s.tails.modify i cancel⟩ c' j ↔ _
    rw [hset]
    exact live_set hi hdead

theorem finalise_effect {c : C} {p : Phase} {i : Nat} (hi : s.tails[i]? = some ⟨c, p⟩) :
    Effect s (cleanUp { s with tails := s.tails.set i ⟨c, .finished⟩ } c) (.finalise i) := by
  refine .ended c i (fun c' hlive => container_of_live hi hlive) rfl (fun c' j => live_set hi rfl) ⟨?_, ?_⟩
  · intro hclean
    exact hclean _ hi
  · intro hown t ht
    obtain rfl := Option.some.inj (hi.symm.trans ht)
    exact hown

theorem step_effect (hI : Inv s) (h : step s l = some s') : Effect s s' l := by
  cases l with
  | discover c =>
    obtain rfl := Option.some.inj h
    exact register_effect c trivial
  | connect c =>
    obtain rfl := Option.some.inj h
    exact register_effect c trivial
  | disconnect c =>
    obtain rfl := Option.some.inj h
    exact disconnect_effect hI c
  | start i =>
    simp only [step] at h
    split at h
    · rename_i c hi
      obtain rfl := Option.some.inj h
      exact .none rfl (fun _ _ => live_started hi) trivial
    · cases h
  | finalise i =>
    simp only [step] at h
    split at h
    · rename_i c hi
      obtain rfl := Option.some.inj h
      exact finalise_effect hi
    · rename_i c hi
      obtain rfl := Option.some.inj h
      exact finalise_effect hi
    · cases h

/-! ## The registry -/

theorem Inv.step (hI : Inv s) (h : step s l = some s') : Inv s' := by
  intro c' j hj
  cases step_effect hI h with
  | none hactive hlive _ => exact (hlive c' j).mpr (hI c' j (hactive ▸ hj))
  | created c n _ hactive hlive _ =>
    rw [hactive] at hj
    refine (hlive c' j).mpr ?_
    by_cases hc : c' = c
    · subst hc
      rw [Function.update_self] at hj
      exact .inr ⟨rfl, (Option.some.inj hj).symm⟩
    · rw [Function.update_of_ne hc] at hj
      exact .inl (hI c' j hj)
  | ended c i hcont hactive hlive _ =>
    rw [hactive] at hj
    by_cases hc : c' = c
    · subst hc
      rw [Function.update_self] at hj
      cases hj
    · rw [Function.update_of_ne hc] at hj
      have hold := hI c' j hj
      exact (hlive c' j).mpr ⟨hold, fun hji => hc (hcont c' (hji ▸ hold))⟩

/-- **One step** keeps the registry right exactly when it is clean: the entry a
task removes that is not its own is that of a live tail. -/
theorem oneTail_step_iff (hI : Inv s) (hP : OneTail s) (h : step s l = some s') : OneTail s' ↔ Clean s l := by
  cases step_effect hI h with
  | none hactive hlive hclean =>
    refine iff_of_true ⟨fun c i j hi hj => hP.1 c i j ((hlive c i).mp hi) ((hlive c j).mp hj), fun c i hi => ?_⟩ hclean
    rw [hactive]
    exact hP.2 c i ((hlive c i).mp hi)
  | created c n hfree hactive hlive hclean =>
    have hone : ∀ c' i, LiveTail s' c' i → s'.activeTasks c' = some i := by
      intro c' i hi
      rw [hactive]
      rcases (hlive c' i).mp hi with hold | ⟨rfl, rfl⟩
      · have hreg := hP.2 c' i hold
        rw [Function.update_of_ne (fun hc => by rw [hc, hfree] at hreg; cases hreg)]
        exact hreg
      · exact Function.update_self ..
    exact iff_of_true ⟨fun c' i j hi hj => Option.some.inj ((hone c' i hi).symm.trans (hone c' j hj)), hone⟩ hclean
  | ended c i hcont hactive hlive hclean =>
    rw [hclean]
    constructor
    · intro hone j hj
      by_contra hji
      have hreg := hone.2 c j ((hlive c j).mpr ⟨hI c j hj, hji⟩)
      rw [hactive, Function.update_self] at hreg
      cases hreg
    · intro hown
      have hone : ∀ c' j, LiveTail s' c' j → s'.activeTasks c' = some j := by
        intro c' j hj
        obtain ⟨hold, hji⟩ := (hlive c' j).mp hj
        have hreg := hP.2 c' j hold
        rw [hactive, Function.update_of_ne (fun hc => hji (hown j (by rw [← hc]; exact hreg)))]
        exact hreg
      exact ⟨fun c' i j hi hj => Option.some.inj ((hone c' i hi).symm.trans (hone c' j hj)), hone⟩

omit [DecidableEq C] in
theorem start_inv : Inv ({} : State C) := fun c i h => by cases h

omit [DecidableEq C] in
theorem start_oneTail : OneTail ({} : State C) := by
  have hnone : ∀ c i, ¬ LiveTail ({} : State C) c i := by
    intro c i ⟨t, ht, _⟩
    cases ht
  exact ⟨fun c i j hi _ => absurd hi (hnone c i), fun c i hi => absurd hi (hnone c i)⟩

/-- **One live tail per container**, in every state of a run, exactly when every
`finally` block of the run finds the entry of its container its own or gone. -/
theorem tails_iff (ls : List (Label C)) :
    (∀ s, Passes step ({} : State C) ls s → OneTail s) ↔ ∀ s l s', Takes step ({} : State C) ls s l s' → Clean s l :=
  always_iff (I := Inv) (fun _ _ _ hI _ h => hI.step h) (fun _ _ _ hI hP h => oneTail_step_iff hI hP h) start_inv
    start_oneTail ls

/-- A container leaves the network and is back before its first tail cleans up:
the second tail is live and not registered. -/
theorem tails_false : ¬ ∀ (ls : List (Label Nat)) (s : State Nat), Passes step {} ls s → OneTail s := by
  intro h
  obtain ⟨s, hs, hlive, hgone⟩ : ∃ s, exec step ({} : State Nat)
      [.connect 7, .start 0, .disconnect 7, .connect 7, .start 1, .finalise 0] = some s ∧
      s.tails[1]? = some ⟨7, .running⟩ ∧ s.activeTasks 7 = none := ⟨_, rfl, rfl, rfl⟩
  have hreg := (h _ s (passes_of_exec hs)).2 7 1 ⟨⟨7, .running⟩, hlive, rfl, rfl⟩
  rw [hgone] at hreg
  cases hreg

end ContextBroker.LogTails
