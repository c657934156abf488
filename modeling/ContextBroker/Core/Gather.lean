import ContextBroker.Core.LTS
import Mathlib.Data.List.Basic

/-!
# A bounded gather

`asyncio.gather` over `n` calls that each run under one semaphore. A call
starts when a permit is free and comes back with one of the results it can
have; the semaphore serves its waiters in turn, which is one of the orders
allowed here. The results are collected in the order of the calls; if one of
them is an exception, `gather` raises the first that came.

* `running_le`: no more calls are out than there were permits.
* `left_exec`: each event is one of the two a call has, so a run ends.
* `enabled_iff`: until all have come back some event can happen, if there was
  a permit to begin with.
* `answer_ok`, `answer_error`: `gather` gives the results in the order of the
  calls, or an exception of one of them.
-/
namespace ContextBroker.Gather

open LTS

inductive Call (R : Type) where
  | waiting
  | running
  | done (result : R)
  deriving DecidableEq, Repr

namespace Call

variable {R : Type}

def isWaiting : Call R → Bool
  | waiting => true
  | _ => false

def isRunning : Call R → Bool
  | running => true
  | _ => false

def result? : Call R → Option R
  | done r => some r
  | _ => none

end Call

structure Pool (R : Type) where
  permits : Nat
  calls : List (Call R)
  /-- The results so far, as they came. -/
  returned : List (Nat × R) := []
  deriving DecidableEq, Repr

inductive Event (R : Type) where
  | start (i : Nat)
  | finish (i : Nat) (result : R)
  deriving DecidableEq, Repr

variable {R : Type}

def Pool.start (limit n : Nat) : Pool R := { permits := limit, calls := List.replicate n .waiting }

/-- `returns i r`: call `i` can come back with `r`. -/
def step (returns : Nat → R → Bool) (p : Pool R) : Event R → Option (Pool R)
  | .start i =>
    match p.calls[i]?, p.permits with
    | some .waiting, permits + 1 => some { p with permits, calls := p.calls.set i .running }
    | _, _ => none
  | .finish i r =>
    match p.calls[i]? with
    | some .running =>
      if returns i r then
        some { permits := p.permits + 1, calls := p.calls.set i (.done r), returned := p.returned ++ [(i, r)] }
      else none
    | _ => none

/-- The calls that are out. -/
def Pool.running (p : Pool R) : Nat := p.calls.countP Call.isRunning

/-- The events to come. -/
def Pool.left (p : Pool R) : Nat := 2 * p.calls.countP Call.isWaiting + p.running

def Pool.results? (p : Pool R) : Option (List R) := p.calls.mapM Call.result?

/-! ## What a step does -/

section

variable {returns : Nat → R → Bool} {p p' : Pool R} {e : Event R}

theorem step_start {i : Nat} (h : step returns p (.start i) = some p') :
    p.calls[i]? = some .waiting ∧ p.permits = p'.permits + 1 ∧ p'.calls = p.calls.set i .running ∧
      p'.returned = p.returned := by
  simp only [step] at h
  split at h
  · rename_i permits hcall hpermits
    obtain rfl := Option.some.inj h
    exact ⟨hcall, hpermits, rfl, rfl⟩
  · cases h

theorem step_finish {i : Nat} {r : R} (h : step returns p (.finish i r) = some p') :
    p.calls[i]? = some .running ∧ returns i r = true ∧ p'.permits = p.permits + 1 ∧
      p'.calls = p.calls.set i (.done r) ∧ p'.returned = p.returned ++ [(i, r)] := by
  simp only [step] at h
  split at h
  · rename_i hcall
    obtain ⟨hreturns, hp⟩ := Option.ite_none_right_eq_some.mp h
    obtain rfl := Option.some.inj hp
    exact ⟨hcall, hreturns, rfl, rfl, rfl⟩
  · cases h

/-- How a count changes with one call. -/
theorem countP_set_call {calls : List (Call R)} {i : Nat} {c : Call R} (h : calls[i]? = some c) (c' : Call R)
    (q : Call R → Bool) :
    (calls.set i c').countP q + (q c).toNat = calls.countP q + (q c').toNat := by
  obtain ⟨hi, rfl⟩ := List.getElem?_eq_some_iff.mp h
  have hle : (if q calls[i] = true then 1 else 0) ≤ calls.countP q := by
    split
    · rename_i hq
      exact List.countP_pos_iff.mpr ⟨_, List.getElem_mem hi, hq⟩
    · exact Nat.zero_le _
  rw [List.countP_set hi]
  cases hq : q calls[i] with
  | false =>
    simp only [Bool.toNat_false, Nat.add_zero, Bool.false_eq_true, if_false, Nat.sub_zero]
    cases q c' <;> rfl
  | true =>
    rw [hq, if_pos rfl] at hle
    simp only [Bool.toNat_true, if_true]
    cases q c' with
    | false => simp only [Bool.false_eq_true, if_false, Bool.toNat_false]; omega
    | true => simp only [if_true, Bool.toNat_true]; omega

/-- A step is one of the events that were left. -/
theorem left_step (h : step returns p e = some p') : p.left = p'.left + 1 := by
  cases e with
  | start i =>
    obtain ⟨hcall, _, hcalls, _⟩ := step_start h
    have hwaiting := countP_set_call hcall .running Call.isWaiting
    have hrunning := countP_set_call hcall .running Call.isRunning
    simp only [Pool.left, Pool.running, hcalls]
    simp only [Call.isWaiting, Call.isRunning, Bool.toNat_true, Bool.toNat_false] at hwaiting hrunning
    omega
  | finish i r =>
    obtain ⟨hcall, _, _, hcalls, _⟩ := step_finish h
    have hwaiting := countP_set_call hcall (.done r) Call.isWaiting
    have hrunning := countP_set_call hcall (.done r) Call.isRunning
    simp only [Pool.left, Pool.running, hcalls]
    simp only [Call.isWaiting, Call.isRunning, Bool.toNat_true, Bool.toNat_false] at hwaiting hrunning
    omega

/-- What holds of a pool of `n` calls and `limit` permits. -/
structure Inv (returns : Nat → R → Bool) (limit n : Nat) (p : Pool R) : Prop where
  permits : p.permits + p.running = limit
  length : p.calls.length = n
  done : ∀ i r, p.calls[i]? = some (.done r) ↔ (i, r) ∈ p.returned
  returns : ∀ i r, (i, r) ∈ p.returned → returns i r = true

theorem inv_start (limit n : Nat) : Inv returns limit n (Pool.start limit n) := by
  refine ⟨?_, List.length_replicate, fun i r => ?_, fun i r h => nomatch h⟩
  · have hnone : (List.replicate n (Call.waiting : Call R)).countP Call.isRunning = 0 := by
      rw [List.countP_replicate]
      rfl
    simp only [Pool.start, Pool.running, hnone, Nat.add_zero]
  · simp only [Pool.start, List.not_mem_nil, iff_false, List.getElem?_replicate]
    split <;> simp

theorem inv_step {limit n : Nat} (hp : Inv returns limit n p) (h : step returns p e = some p') :
    Inv returns limit n p' := by
  cases e with
  | start i =>
    obtain ⟨hcall, hpermits, hcalls, hreturned⟩ := step_start h
    have hrunning := countP_set_call hcall .running Call.isRunning
    refine ⟨?_, ?_, fun j r => ?_, fun j r hj => hp.returns j r (hreturned ▸ hj)⟩
    · have := hp.permits
      simp only [Pool.running, hcalls] at this ⊢
      simp only [Call.isRunning, Bool.toNat_true, Bool.toNat_false] at hrunning
      omega
    · rw [hcalls, List.length_set]
      exact hp.length
    · rw [hcalls, hreturned, ← hp.done j r, List.getElem?_set]
      by_cases hij : i = j
      · subst hij
        obtain ⟨hi, hnow⟩ := List.getElem?_eq_some_iff.mp hcall
        simp [hi, hnow]
      · simp [hij]
  | finish i r =>
    obtain ⟨hcall, hreturns, hpermits, hcalls, hreturned⟩ := step_finish h
    have hrunning := countP_set_call hcall (.done r) Call.isRunning
    refine ⟨?_, ?_, fun j r' => ?_, fun j r' hj => ?_⟩
    · have := hp.permits
      simp only [Pool.running, hcalls] at this ⊢
      simp only [Call.isRunning, Bool.toNat_true, Bool.toNat_false] at hrunning
      omega
    · rw [hcalls, List.length_set]
      exact hp.length
    · rw [hcalls, hreturned, List.mem_append, ← hp.done j r', List.getElem?_set, List.mem_singleton]
      by_cases hij : i = j
      · subst hij
        obtain ⟨hi, hnow⟩ := List.getElem?_eq_some_iff.mp hcall
        simp [hi, hnow, eq_comm]
      · have hne : ¬(j = i ∧ r' = r) := fun hj => hij hj.1.symm
        simp [hij, hne]
    · rw [hreturned, List.mem_append, List.mem_singleton] at hj
      rcases hj with hj | hj
      · exact hp.returns j r' hj
      · obtain ⟨rfl, rfl⟩ := Prod.mk.inj hj
        exact hreturns

end

/-! ## Runs -/

section

variable {returns : Nat → R → Bool} {limit n : Nat} {p p' : Pool R} {es : List (Event R)}

theorem inv_exec (h : exec (step returns) (Pool.start limit n) es = some p) : Inv returns limit n p :=
  exec_inv (C := fun _ _ => True) (fun _ _ _ hp _ hs => inv_step hp hs) h (fun _ _ _ _ => trivial)
    (inv_start limit n)

/-- **Never more than the permits.** -/
theorem running_le (h : exec (step returns) (Pool.start limit n) es = some p) : p.running ≤ limit := by
  have := (inv_exec h).permits
  omega

theorem left_start (limit n : Nat) : (Pool.start limit n : Pool R).left = 2 * n := by
  have hwaiting : (List.replicate n (Call.waiting : Call R)).countP Call.isWaiting = n := by
    rw [List.countP_replicate]
    rfl
  have hrunning : (List.replicate n (Call.waiting : Call R)).countP Call.isRunning = 0 := by
    rw [List.countP_replicate]
    rfl
  simp only [Pool.left, Pool.running, Pool.start, hwaiting, hrunning, Nat.add_zero]

theorem left_exec (h : exec (step returns) p es = some p') : p.left = p'.left + es.length := by
  induction es generalizing p with
  | nil =>
    obtain rfl := Option.some.inj h
    rfl
  | cons e es ih =>
    obtain ⟨t, ht, hrest⟩ := Option.bind_eq_some_iff.mp h
    rw [left_step ht, ih hrest, List.length_cons]
    omega

/-- **A call can go on**, if there is a permit at all. -/
theorem enabled_of_left (hp : Inv returns limit n p) (hlimit : 0 < limit) (hreturns : ∀ i, ∃ r, returns i r = true)
    (hleft : p.left ≠ 0) : ∃ e p', step returns p e = some p' := by
  by_cases hrunning : p.running = 0
  · -- all permits are free, and some call waits
    have hpos : 0 < p.calls.countP Call.isWaiting := by
      simp only [Pool.left, hrunning] at hleft
      omega
    obtain ⟨c, hc, hwaiting⟩ := List.countP_pos_iff.mp hpos
    obtain ⟨i, hi⟩ := List.mem_iff_getElem?.mp hc
    obtain ⟨permits, hpermits⟩ : ∃ k, p.permits = k + 1 := ⟨p.permits - 1, by have := hp.permits; omega⟩
    cases c with
    | waiting => exact ⟨.start i, _, by simp only [step, hi, hpermits]; rfl⟩
    | running | done => cases hwaiting
  · obtain ⟨c, hc, hout⟩ := List.countP_pos_iff.mp (Nat.pos_of_ne_zero hrunning)
    obtain ⟨i, hi⟩ := List.mem_iff_getElem?.mp hc
    obtain ⟨r, hr⟩ := hreturns i
    cases c with
    | running => exact ⟨.finish i r, _, by simp only [step, hi, hr, if_true]; rfl⟩
    | waiting | done => cases hout

/-- Without a permit nothing ever starts. -/
theorem stuck_of_no_permit (n : Nat) (e : Event R) : step returns (Pool.start 0 n) e = none := by
  cases e with
  | start i => simp [step, Pool.start]
  | finish i r =>
    simp only [step, Pool.start, List.getElem?_replicate]
    split <;> simp_all

/-- **A run goes on until all have come back**, exactly if there was a permit. -/
theorem enabled_iff (h : exec (step returns) (Pool.start limit n) es = some p)
    (hreturns : ∀ i, ∃ r, returns i r = true) (hleft : p.left ≠ 0) :
    (∃ e p', step returns p e = some p') ↔ 0 < limit := by
  refine ⟨fun ⟨e, p', he⟩ => ?_, fun hlimit => enabled_of_left (inv_exec h) hlimit hreturns hleft⟩
  refine Nat.pos_of_ne_zero fun hzero => ?_
  subst hzero
  cases es with
  | nil =>
    obtain rfl := Option.some.inj h
    rw [stuck_of_no_permit] at he
    cases he
  | cons e₀ es =>
    obtain ⟨t, ht, _⟩ := Option.bind_eq_some_iff.mp h
    rw [stuck_of_no_permit] at ht
    cases ht

/-- All have come back. -/
theorem results_of_left (h : p.left = 0) : ∃ rs, p.results? = some rs ∧ p.calls = rs.map Call.done := by
  have hall : ∀ c ∈ p.calls, ∃ r, c = .done r := by
    intro c hc
    have hwaiting : p.calls.countP Call.isWaiting = 0 := by
      simp only [Pool.left] at h
      omega
    have hrunning : p.calls.countP Call.isRunning = 0 := by
      simp only [Pool.left, Pool.running] at h
      omega
    rw [List.countP_eq_zero] at hwaiting hrunning
    cases c with
    | waiting => exact absurd rfl (hwaiting _ hc)
    | running => exact absurd rfl (hrunning _ hc)
    | done r => exact ⟨r, rfl⟩
  unfold Pool.results?
  generalize p.calls = calls at hall
  induction calls with
  | nil => exact ⟨[], rfl, rfl⟩
  | cons c calls ih =>
    obtain ⟨r, rfl⟩ := hall c List.mem_cons_self
    obtain ⟨rs, hrs, rfl⟩ := ih fun c hc => hall c (List.mem_cons_of_mem _ hc)
    refine ⟨r :: rs, ?_, rfl⟩
    rw [List.mapM_cons, hrs]
    rfl

end

/-! ## The answer -/

section

variable {E A : Type}

/-- The first exception that came. -/
def raised? : List (Nat × Except E A) → Option E
  | [] => none
  | (_, .error e) :: _ => some e
  | (_, .ok _) :: rest => raised? rest

/-- What `gather` gives, once it gives something: it does not wait for the
other calls when one has raised. -/
def answer? (p : Pool (Except E A)) : Option (Except E (List A)) :=
  match raised? p.returned with
  | some e => some (.error e)
  | none => (p.results?.bind fun rs => rs.mapM Except.toOption).map .ok

theorem mem_of_raised {l : List (Nat × Except E A)} {e : E} (h : raised? l = some e) : ∃ i, (i, .error e) ∈ l := by
  induction l with
  | nil => cases h
  | cons x l ih =>
    obtain ⟨i, r⟩ := x
    cases r with
    | error e' =>
      obtain rfl := Option.some.inj h
      exact ⟨i, List.mem_cons_self⟩
    | ok a =>
      obtain ⟨j, hj⟩ := ih h
      exact ⟨j, List.mem_cons_of_mem _ hj⟩

theorem ok_of_not_raised {l : List (Nat × Except E A)} (h : raised? l = none) :
    ∀ x ∈ l, ∃ a, x.2 = .ok a := by
  induction l with
  | nil => exact fun _ hx => nomatch hx
  | cons x l ih =>
    obtain ⟨i, r⟩ := x
    cases r with
    | error e => cases h
    | ok a =>
      intro y hy
      rcases List.mem_cons.mp hy with rfl | hy
      · exact ⟨a, rfl⟩
      · exact ih h y hy

/-- `f` reads back what `g` has made. -/
theorem mapM_eq_some_iff {α β : Type} {f : α → Option β} {g : β → α} (hfg : ∀ a b, f a = some b ↔ a = g b)
    {l : List α} {bs : List β} : l.mapM f = some bs ↔ l = bs.map g := by
  induction l generalizing bs with
  | nil =>
    rw [List.mapM_nil]
    cases bs <;> simp
  | cons a l ih =>
    rw [List.mapM_cons]
    constructor
    · intro h
      obtain ⟨b, hb, hrest⟩ := Option.bind_eq_some_iff.mp h
      obtain ⟨bs', hbs', hcons⟩ := Option.bind_eq_some_iff.mp hrest
      obtain rfl := Option.some.inj hcons
      rw [List.map_cons, ← (hfg a b).mp hb, ← ih.mp hbs']
    · intro h
      cases bs with
      | nil => cases h
      | cons b bs =>
        obtain ⟨rfl, htail⟩ := List.cons.inj h
        rw [(hfg (g b) b).mpr rfl, ih.mpr htail]
        rfl

theorem toOption_eq_some (r : Except E A) (a : A) : r.toOption = some a ↔ r = .ok a := by
  cases r <;> simp [Except.toOption]

theorem result?_eq_some (c : Call R) (r : R) : c.result? = some r ↔ c = .done r := by
  cases c <;> simp [Call.result?]

variable {f : Nat → Except E A} {returns : Nat → Except E A → Bool} {limit n : Nat} {p : Pool (Except E A)}

/-- **All results, in the order of the calls.** -/
theorem answer_ok (hf : ∀ i r, returns i r = true → r = f i) (hp : Inv returns limit n p) {as : List A}
    (h : answer? p = some (.ok as)) : as.length = n ∧ ∀ i a, as[i]? = some a → f i = .ok a := by
  unfold answer? at h
  split at h
  · cases h
  · obtain ⟨as', has, hok⟩ := Option.map_eq_some_iff.mp h
    obtain rfl := Except.ok.inj hok
    obtain ⟨rs, hrs, hmap⟩ := Option.bind_eq_some_iff.mp has
    obtain rfl := (mapM_eq_some_iff toOption_eq_some).mp hmap
    have hcalls := (mapM_eq_some_iff result?_eq_some).mp hrs
    refine ⟨?_, fun i a hi => ?_⟩
    · rw [← hp.length, hcalls, List.length_map, List.length_map]
    · have hdone : p.calls[i]? = some (.done (.ok a)) := by
        rw [hcalls, List.getElem?_map, List.getElem?_map, hi]
        rfl
      exact (hf i _ (hp.returns i _ ((hp.done i _).mp hdone))).symm

/-- **An exception that a call raised.** -/
theorem answer_error (hf : ∀ i r, returns i r = true → r = f i) (hp : Inv returns limit n p) {e : E}
    (h : answer? p = some (.error e)) : ∃ i < n, f i = .error e := by
  unfold answer? at h
  split at h
  · rename_i e' hraised
    obtain rfl := Except.error.inj (Option.some.inj h)
    obtain ⟨i, hi⟩ := mem_of_raised hraised
    refine ⟨i, ?_, (hf i _ (hp.returns i _ hi)).symm⟩
    obtain ⟨hlt, _⟩ := List.getElem?_eq_some_iff.mp ((hp.done i _).mpr hi)
    exact hp.length ▸ hlt
  · obtain ⟨_, _, hok⟩ := Option.map_eq_some_iff.mp h
    cases hok

/-- Until it gives an answer there are events to come. -/
theorem left_of_no_answer (hp : Inv returns limit n p) (h : answer? p = none) : p.left ≠ 0 := by
  intro hleft
  unfold answer? at h
  split at h
  · cases h
  · rename_i hraised
    obtain ⟨rs, hrs, hcalls⟩ := results_of_left hleft
    have hall : ∀ r ∈ rs, ∃ a, r = .ok a := by
      intro r hr
      obtain ⟨i, hi⟩ := List.mem_iff_getElem?.mp hr
      refine ok_of_not_raised hraised (i, r) ((hp.done i r).mp ?_)
      rw [hcalls, List.getElem?_map, hi]
      rfl
    obtain ⟨as, rfl⟩ : ∃ as : List A, rs = as.map .ok := by
      clear hrs hcalls
      induction rs with
      | nil => exact ⟨[], rfl⟩
      | cons r rs ih =>
        obtain ⟨a, rfl⟩ := hall r List.mem_cons_self
        obtain ⟨as, rfl⟩ := ih fun r hr => hall r (List.mem_cons_of_mem _ hr)
        exact ⟨a :: as, rfl⟩
    rw [hrs, Option.bind_some, (mapM_eq_some_iff toOption_eq_some).mpr rfl] at h
    cases h

end

end ContextBroker.Gather
