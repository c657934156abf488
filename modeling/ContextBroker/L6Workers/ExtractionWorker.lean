import ContextBroker.L6Workers.EmbeddingWorker
import Mathlib.Logic.Function.Basic

/-!
# The extraction worker

`_extraction_worker` in the form of the embedding worker: `request` is the
call it waits for, `resume` where the answer takes it. A round visits the
conversations that have unextracted messages. Under its advisory lock each of
them goes through the extraction flow; three failures that are counted (an
error in the result, a timeout) and its messages are marked as extracted
without having been.

* `failures_bounded`: between two successes no conversation has more than
  three counted failures, and once given up no statement names it any more.
* `locks_returned`: a lock that was granted has been given back, except inside
  the `try` block.
* `survives_timely`: what the handlers list does not end the worker, but for a
  statement of the `try` block that times out before the flow was ever called:
  then the handler of the timeout reads an unbound local.
-/
namespace ContextBroker.Workers.ExtractionWorker

open LTS

/-! ## Calls -/

inductive Request where
  | loadConfig
  | getPool
  | countPending
  | conversations
  | sleep (seconds : Int)
  | mark (c : Id)
  | tryLock (c : Id)
  | getFlow
  | extract (c : Id) (timeout : Int)
  | unlock (c : Id)
  | maybeCleanup
  deriving DecidableEq, Repr

inductive Answer where
  /-- The configuration, down to `extraction_timeout_seconds`. -/
  | config (extractionTimeout : Int)
  | count (n : Nat)
  | ids (conversations : List Id)
  | locked (granted : Bool)
  | flow (registered : Bool)
  /-- What the flow returned has an `error` or not. -/
  | extracted (error : Bool)
  | done
  | raised (e : Exn)
  deriving DecidableEq, Repr

def Answer.raises : Answer → Option Exn
  | .raised e => some e
  | _ => none

def Request.admits : Request → Answer → Bool
  | .sleep _, .raised e => e == .cancelledError
  | _, .raised _ => true
  | .loadConfig, .config _ | .countPending, .count _ | .conversations, .ids _ | .tryLock _, .locked _
  | .getFlow, .flow _ | .extract _ _, .extracted _ => true
  | .getPool, .done | .sleep _, .done | .mark _, .done | .unlock _, .done | .maybeCleanup, .done => true
  | _, _ => false

/-! ## The task -/

/-- What leaves the `try` block, or the loop. -/
inductive Leaving where
  | raised (e : Exn)
  /-- The handler of the timeout logs `extraction_timeout`, a local that only a
  call of the flow has given a value. -/
  | unboundLocal
  deriving DecidableEq, Repr

inductive Pc where
  | loadConfig
  | getPool (timeout : Int)
  | countPending (timeout : Int)
  | poll
  | conversations (timeout : Int)
  /-- Marking the messages of a conversation that failed too often. -/
  | giveUp (timeout : Int) (c : Id) (rest : List Id)
  | tryLock (timeout : Int) (c : Id) (rest : List Id)
  | getFlow (timeout : Int) (c : Id) (rest : List Id)
  /-- Marking the messages of a conversation when there is no flow. -/
  | skip (timeout : Int) (c : Id) (rest : List Id)
  | extract (timeout : Int) (c : Id) (rest : List Id)
  /-- The `finally` block, with the exception on its way out. -/
  | unlock (timeout : Int) (c : Id) (rest : List Id) (pending : Option Leaving)
  | cleanup
  | backoff
  | exited (x : Leaving)
  deriving DecidableEq, Repr

structure Worker where
  pc : Pc := .loadConfig
  consecutiveFailures : Nat := 0
  /-- `_conv_failures` -/
  convFailures : Id → Nat := fun _ => 0
  /-- `extraction_timeout` has a value. -/
  timeoutBound : Bool := false

/-- `worker_poll_interval_seconds` is read once, before the loop. -/
def request (pollInterval : Int) : Pc → Option Request
  | .loadConfig => some .loadConfig
  | .getPool _ => some .getPool
  | .countPending _ => some .countPending
  | .poll => some (.sleep pollInterval)
  | .conversations _ => some .conversations
  | .giveUp _ c _ | .skip _ c _ => some (.mark c)
  | .tryLock _ c _ => some (.tryLock c)
  | .getFlow _ _ _ => some .getFlow
  | .extract timeout c _ => some (.extract c timeout)
  | .unlock _ c _ _ => some (.unlock c)
  | .cleanup => some .maybeCleanup
  | .backoff => some (.sleep 5)
  | .exited _ => none

def maxConvRetries : Nat := 3

/-- mirrors app/workers/db_worker.py:379-387 -/
def outerHandler (w : Worker) : Leaving → Worker
  | .raised e =>
    if e.caughtBy outerClause then
      let failures := w.consecutiveFailures + 1
      { w with pc := if 3 ≤ failures then .backoff else .loadConfig, consecutiveFailures := failures }
    else { w with pc := .exited (.raised e) }
  | .unboundLocal => { w with pc := .exited .unboundLocal }

/-- The conversations still to visit; those given up are passed over.
mirrors app/workers/db_worker.py:264-289 -/
def visit (w : Worker) (timeout : Int) : List Id → Worker
  | [] => { w with pc := .cleanup }
  | c :: rest =>
    if maxConvRetries ≤ w.convFailures c then
      if w.convFailures c = maxConvRetries then { w with pc := .giveUp timeout c rest } else visit w timeout rest
    else { w with pc := .tryLock timeout c rest }

/-- `_conv_failures[c] = n` -/
def Worker.setFailures (w : Worker) (c : Id) (n : Nat) : Worker :=
  { w with convFailures := Function.update w.convFailures c n }

/-- An exception in the `try` block: the timeout is counted there, any other
goes on after the `finally`. mirrors app/workers/db_worker.py:292-367 -/
def tryFailed (w : Worker) (timeout : Int) (c : Id) (rest : List Id) (e : Exn) : Worker :=
  if e.caughtBy [.timeoutError] then
    { w.setFailures c (w.convFailures c + 1) with
      pc := .unlock timeout c rest (if w.timeoutBound then none else some .unboundLocal) }
  else { w with pc := .unlock timeout c rest (some (.raised e)) }

/-- mirrors app/workers/db_worker.py:240-387 -/
def resume (w : Worker) : Answer → Worker
  | .raised e =>
    match w.pc with
    | .getFlow timeout c rest | .skip timeout c rest | .extract timeout c rest => tryFailed w timeout c rest e
    | .cleanup =>
      if e.caughtBy [.importError, .runtimeError, .postgresError] then
        { w with pc := .poll, consecutiveFailures := 0 }
      else outerHandler w (.raised e)
    | .backoff => { w with pc := .exited (.raised e) }
    | _ => outerHandler w (.raised e)
  | .config timeout => { w with pc := .getPool timeout }
  | .count n =>
    match w.pc with
    | .countPending timeout => { w with pc := if n = 0 then .poll else .conversations timeout }
    | _ => w
  | .ids conversations =>
    match w.pc with
    | .conversations timeout => visit w timeout conversations
    | _ => w
  | .locked granted =>
    match w.pc with
    | .tryLock timeout c rest => if granted then { w with pc := .getFlow timeout c rest } else visit w timeout rest
    | _ => w
  | .flow registered =>
    match w.pc with
    | .getFlow timeout c rest =>
      if registered then { w with pc := .extract timeout c rest, timeoutBound := true }
      else { w with pc := .skip timeout c rest }
    | _ => w
  | .extracted error =>
    match w.pc with
    | .extract timeout c rest =>
      { w.setFailures c (if error then w.convFailures c + 1 else 0) with pc := .unlock timeout c rest none }
    | _ => w
  | .done =>
    match w.pc with
    | .getPool timeout => { w with pc := .countPending timeout }
    | .giveUp timeout c rest => visit (w.setFailures c (maxConvRetries + 1)) timeout rest
    | .skip timeout c rest => { w with pc := .unlock timeout c rest none }
    | .unlock timeout _ rest none => visit w timeout rest
    | .unlock _ _ _ (some x) => outerHandler w x
    | .cleanup => { w with pc := .poll, consecutiveFailures := 0 }
    | _ => { w with pc := .loadConfig }

/-! ## The log -/

inductive Outcome where
  | succeeded
  /-- Counted against the conversation. -/
  | counted
  deriving DecidableEq, Repr

/-- The worker, with what its rounds have done, newest first. -/
structure Logged where
  worker : Worker := {}
  outcomes : List (Id × Outcome) := []
  granted : List Id := []
  released : List Id := []

def Logged.note (s : Logged) (a : Answer) : Logged where
  worker := resume s.worker a
  outcomes :=
    match s.worker.pc, a with
    | .extract _ c _, .extracted error => (c, if error then .counted else .succeeded) :: s.outcomes
    | .getFlow _ c _, .raised e | .skip _ c _, .raised e | .extract _ c _, .raised e =>
      if e.caughtBy [.timeoutError] then (c, .counted) :: s.outcomes else s.outcomes
    | _, _ => s.outcomes
  granted :=
    match s.worker.pc, a with
    | .tryLock _ c _, .locked true => c :: s.granted
    | _, _ => s.granted
  released :=
    match s.worker.pc with
    | .unlock _ c _ _ => c :: s.released
    | _ => s.released

/-- A call and its answer. -/
def step (pollInterval : Int) (s : Logged) (a : Answer) : Option Logged :=
  match request pollInterval s.worker.pc with
  | none => none
  | some q => if q.admits a then some (s.note a) else none

/-- The counted failures of `c` since its last success. -/
def countedOf (c : Id) (outcomes : List (Id × Outcome)) : Nat :=
  (((outcomes.filter (·.1 == c)).map (·.2)).takeWhile (· == .counted)).length

@[simp] theorem countedOf_nil (c : Id) : countedOf c [] = 0 := rfl

@[simp] theorem countedOf_counted (c : Id) (outcomes : List (Id × Outcome)) :
    countedOf c ((c, .counted) :: outcomes) = countedOf c outcomes + 1 := by
  simp [countedOf]

@[simp] theorem countedOf_succeeded (c : Id) (outcomes : List (Id × Outcome)) :
    countedOf c ((c, .succeeded) :: outcomes) = 0 := by
  simp [countedOf]

theorem countedOf_other {c d : Id} (h : d ≠ c) (x : Outcome) (outcomes : List (Id × Outcome)) :
    countedOf c ((d, x) :: outcomes) = countedOf c outcomes := by
  simp [countedOf, h]

/-! ## The failures of a conversation -/

variable {pollInterval : Int} {w : Worker} {s s' t : Logged} {a : Answer} {as : List Answer}
  {c : Id} {outcomes : List (Id × Outcome)}

theorem step_eq_some (h : step pollInterval s a = some s') :
    s' = s.note a ∧ ∃ q, request pollInterval s.worker.pc = some q ∧ q.admits a = true := by
  unfold step at h
  cases hq : request pollInterval s.worker.pc with
  | none => simp [hq] at h
  | some q =>
    simp only [hq, Option.ite_none_right_eq_some, Option.some.injEq] at h
    exact ⟨h.2.symm, q, rfl, h.1⟩

/-- `_conv_failures` holds what has been counted; 4 stands for a conversation
that has been given up. -/
def Tallied (w : Worker) (outcomes : List (Id × Outcome)) : Prop :=
  ∀ c, w.convFailures c ≤ maxConvRetries + 1 ∧ countedOf c outcomes = min (w.convFailures c) maxConvRetries

/-- The conversation of the present call may still be in it. -/
def Placed (w : Worker) : Prop :=
  match w.pc with
  | .giveUp _ c _ => w.convFailures c = maxConvRetries
  | .tryLock _ c _ | .getFlow _ c _ | .skip _ c _ | .extract _ c _ => w.convFailures c < maxConvRetries
  | .unlock _ c _ _ => w.convFailures c ≤ maxConvRetries
  | _ => True

/-- The conversation whose lock the worker has. -/
def Pc.holds : Pc → Option Id
  | .getFlow _ c _ | .skip _ c _ | .extract _ c _ | .unlock _ c _ _ => some c
  | _ => none

/-- The next conversation is one that may be visited. -/
theorem visit_spec (w : Worker) (timeout : Int) (cs : List Id) :
    (visit w timeout cs).convFailures = w.convFailures ∧ Placed (visit w timeout cs) ∧
      (visit w timeout cs).pc.holds = none ∧ ∀ x, (visit w timeout cs).pc ≠ .exited x := by
  induction cs with
  | nil => simp [visit, Placed, Pc.holds]
  | cons c rest ih =>
    by_cases hmany : maxConvRetries ≤ w.convFailures c
    · by_cases hmax : w.convFailures c = maxConvRetries
      · simp [visit, hmax, Placed, Pc.holds]
      · simp only [visit, hmany, if_true, hmax, if_false]
        exact ih
    · simp [visit, hmany, Placed, Pc.holds]
      omega

theorem outerHandler_spec (w : Worker) (x : Leaving) :
    (outerHandler w x).convFailures = w.convFailures ∧ Placed (outerHandler w x) ∧
      (outerHandler w x).pc.holds = none := by
  cases x with
  | unboundLocal => simp [outerHandler, Placed, Pc.holds]
  | raised e =>
    cases hc : e.caughtBy outerClause with
    | false => simp [outerHandler, hc, Placed, Pc.holds]
    | true => by_cases hmany : 3 ≤ w.consecutiveFailures + 1 <;> simp [outerHandler, hc, hmany, Placed, Pc.holds]

theorem Tallied.congr {w' : Worker} (h : Tallied w outcomes) (heq : w'.convFailures = w.convFailures) :
    Tallied w' outcomes := by
  intro d
  rw [heq]
  exact h d

/-- One more failure of a conversation that may still fail. -/
theorem Tallied.fail (h : Tallied w outcomes) (hfew : w.convFailures c < maxConvRetries) :
    Tallied (w.setFailures c (w.convFailures c + 1)) ((c, .counted) :: outcomes) := by
  intro d
  have hd := h d
  by_cases hdc : d = c
  · subst hdc
    simp only [Worker.setFailures, Function.update_self, countedOf_counted]
    simp only [maxConvRetries] at hd hfew ⊢
    omega
  · simp only [Worker.setFailures, Function.update_of_ne hdc, countedOf_other (Ne.symm hdc)]
    exact hd

theorem Tallied.succeed (h : Tallied w outcomes) : Tallied (w.setFailures c 0) ((c, .succeeded) :: outcomes) := by
  intro d
  by_cases hdc : d = c
  · subst hdc
    simp [Worker.setFailures]
  · simp only [Worker.setFailures, Function.update_of_ne hdc, countedOf_other (Ne.symm hdc)]
    exact h d

theorem Tallied.giveUp (h : Tallied w outcomes) (hmax : w.convFailures c = maxConvRetries) :
    Tallied (w.setFailures c (maxConvRetries + 1)) outcomes := by
  intro d
  have hd := h d
  by_cases hdc : d = c
  · subst hdc
    simp only [Worker.setFailures, Function.update_self]
    simp only [maxConvRetries] at hd hmax ⊢
    omega
  · simp only [Worker.setFailures, Function.update_of_ne hdc]
    exact hd

/-! ## What every step keeps -/

structure Inv (s : Logged) : Prop where
  tallied : Tallied s.worker s.outcomes
  placed : Placed s.worker
  /-- Every lock granted is the one held or was asked back. -/
  locks : s.granted = s.worker.pc.holds.toList ++ s.released

theorem inv_init : Inv {} where
  tallied c := by simp
  placed := trivial
  locks := rfl

/-- The part of the invariant a worker between two conversations has. -/
theorem Inv.between {w' : Worker} {granted : List Id} (htally : Tallied w outcomes)
    (hspec : w'.convFailures = w.convFailures ∧ Placed w' ∧ w'.pc.holds = none) :
    Inv ⟨w', outcomes, granted, granted⟩ where
  tallied := htally.congr hspec.1
  placed := hspec.2.1
  locks := by simp [hspec.2.2]

/-- A step inside the `try` block. -/
theorem inv_try {timeout : Int} {rest : List Id} (hI : Inv s) (hholds : s.worker.pc.holds = some c)
    (hfew : s.worker.convFailures c < maxConvRetries)
    (hpc : s.worker.pc = .getFlow timeout c rest ∨ s.worker.pc = .skip timeout c rest ∨
      s.worker.pc = .extract timeout c rest) (e : Exn) : Inv (s.note (.raised e)) := by
  have hlocks : s.granted = c :: s.released := by
    rw [hI.locks, hholds]
    rfl
  have hnote : s.note (.raised e) = ⟨tryFailed s.worker timeout c rest e,
      if e.caughtBy [.timeoutError] then (c, .counted) :: s.outcomes else s.outcomes, s.granted, s.released⟩ := by
    rcases hpc with hpc | hpc | hpc <;> simp [Logged.note, resume, hpc]
  rw [hnote]
  cases he : e.caughtBy [.timeoutError] with
  | true =>
    refine ⟨?_, ?_, ?_⟩
    · simp only [tryFailed, he, if_true]
      exact (hI.tallied.fail hfew).congr rfl
    · simp only [tryFailed, he, if_true, Placed, Worker.setFailures, Function.update_self]
      omega
    · simp [tryFailed, he, Pc.holds, hlocks]
  | false =>
    refine ⟨?_, ?_, ?_⟩
    · simp only [tryFailed, he, Bool.false_eq_true, if_false]
      exact hI.tallied.congr rfl
    · simp only [tryFailed, he, Bool.false_eq_true, if_false, Placed]
      omega
    · simp [tryFailed, he, Pc.holds, hlocks]

/-- Outside the `try` block an exception goes to the outer handler. -/
theorem inv_outer (hI : Inv s) (w' : Worker) (h : w'.convFailures = s.worker.convFailures) (x : Leaving)
    (granted : List Id) : Inv ⟨outerHandler w' x, s.outcomes, granted, granted⟩ :=
  Inv.between (hI.tallied.congr h) (outerHandler_spec w' x)

theorem inv_visit (htally : Tallied w outcomes) (timeout : Int) (cs granted : List Id) :
    Inv ⟨visit w timeout cs, outcomes, granted, granted⟩ :=
  have hspec := visit_spec w timeout cs
  Inv.between htally ⟨hspec.1, hspec.2.1, hspec.2.2.1⟩

/-- A step to a place that names no conversation. -/
theorem inv_away (hI : Inv s) (pc : Pc) (failures : Nat) (granted : List Id)
    (hplaced : Placed { s.worker with pc := pc, consecutiveFailures := failures }) (hholds : pc.holds = none) :
    Inv ⟨{ s.worker with pc := pc, consecutiveFailures := failures }, s.outcomes, granted, granted⟩ :=
  Inv.between hI.tallied ⟨rfl, hplaced, hholds⟩

theorem inv_step (hI : Inv s) (h : step pollInterval s a = some s') : Inv s' := by
  obtain ⟨rfl, q, hq, hadmits⟩ := step_eq_some h
  have hplaced := hI.placed
  have hlocks := hI.locks
  cases hpc : s.worker.pc with
  | exited x =>
    rw [hpc] at hq
    cases hq
  | giveUp timeout c rest =>
    rw [hpc] at hq hlocks
    obtain rfl := Option.some.inj hq
    simp only [Placed, hpc] at hplaced
    cases a <;> simp [Request.admits] at hadmits
    case raised e =>
      simp only [Logged.note, resume, hpc, hlocks]
      exact inv_outer hI _ rfl _ _
    case done =>
      simp only [Logged.note, resume, hpc, hlocks]
      exact inv_visit (hI.tallied.giveUp hplaced) timeout rest _
  | tryLock timeout c rest =>
    rw [hpc] at hq hlocks
    obtain rfl := Option.some.inj hq
    simp only [Placed, hpc] at hplaced
    cases a <;> simp [Request.admits] at hadmits
    case raised e =>
      simp only [Logged.note, resume, hpc, hlocks]
      exact inv_outer hI _ rfl _ _
    case locked granted =>
      cases granted with
      | false =>
        simp only [Logged.note, resume, hpc, hlocks, Bool.false_eq_true, if_false]
        exact inv_visit hI.tallied timeout rest _
      | true =>
        simp only [Logged.note, resume, hpc, hlocks, if_true]
        exact ⟨hI.tallied.congr rfl, hplaced, rfl⟩
  | getFlow timeout c rest =>
    rw [hpc] at hq hlocks
    obtain rfl := Option.some.inj hq
    simp only [Placed, hpc] at hplaced
    cases a <;> simp [Request.admits] at hadmits
    case raised e => exact inv_try hI (by rw [hpc]; rfl) hplaced (.inl hpc) e
    case flow registered =>
      cases registered with
      | false =>
        simp only [Logged.note, resume, hpc, hlocks, Bool.false_eq_true, if_false]
        exact ⟨hI.tallied.congr rfl, hplaced, rfl⟩
      | true =>
        simp only [Logged.note, resume, hpc, hlocks, if_true]
        exact ⟨hI.tallied.congr rfl, hplaced, rfl⟩
  | skip timeout c rest =>
    rw [hpc] at hq hlocks
    obtain rfl := Option.some.inj hq
    simp only [Placed, hpc] at hplaced
    cases a <;> simp [Request.admits] at hadmits
    case raised e => exact inv_try hI (by rw [hpc]; rfl) hplaced (.inr (.inl hpc)) e
    case done =>
      simp only [Logged.note, resume, hpc, hlocks]
      exact ⟨hI.tallied.congr rfl, Nat.le_of_lt hplaced, rfl⟩
  | extract timeout c rest =>
    rw [hpc] at hq hlocks
    obtain rfl := Option.some.inj hq
    simp only [Placed, hpc] at hplaced
    cases a <;> simp [Request.admits] at hadmits
    case raised e => exact inv_try hI (by rw [hpc]; rfl) hplaced (.inr (.inr hpc)) e
    case extracted error =>
      cases error with
      | false =>
        simp only [Logged.note, resume, hpc, hlocks, Bool.false_eq_true, if_false]
        refine ⟨hI.tallied.succeed.congr rfl, ?_, rfl⟩
        simp [Placed, Worker.setFailures]
      | true =>
        simp only [Logged.note, resume, hpc, hlocks, if_true]
        refine ⟨(hI.tallied.fail hplaced).congr rfl, ?_, rfl⟩
        simp only [Placed, Worker.setFailures, Function.update_self]
        omega
  | unlock timeout c rest pending =>
    rw [hpc] at hq hlocks
    obtain rfl := Option.some.inj hq
    cases a <;> simp [Request.admits] at hadmits
    case raised e =>
      simp only [Logged.note, resume, hpc, hlocks]
      exact inv_outer hI _ rfl _ _
    case done =>
      cases pending with
      | none =>
        simp only [Logged.note, resume, hpc, hlocks]
        exact inv_visit hI.tallied timeout rest _
      | some x =>
        simp only [Logged.note, resume, hpc, hlocks]
        exact inv_outer hI _ rfl _ _
  | cleanup =>
    rw [hpc] at hq hlocks
    obtain rfl := Option.some.inj hq
    cases a <;> simp [Request.admits] at hadmits
    case raised e =>
      simp only [Logged.note, resume, hpc, hlocks]
      by_cases hc : e.caughtBy [.importError, .runtimeError, .postgresError]
      · rw [if_pos hc]
        exact inv_away hI .poll 0 _ trivial rfl
      · rw [if_neg hc]
        exact inv_outer hI _ rfl _ _
    case done =>
      simp only [Logged.note, resume, hpc, hlocks]
      exact inv_away hI .poll 0 _ trivial rfl
  | countPending timeout =>
    rw [hpc] at hq hlocks
    obtain rfl := Option.some.inj hq
    cases a <;> simp [Request.admits] at hadmits
    case raised e =>
      simp only [Logged.note, resume, hpc, hlocks]
      exact inv_outer hI _ rfl _ _
    case count n =>
      simp only [Logged.note, resume, hpc, hlocks]
      by_cases hn : n = 0
      · simp only [hn, if_true]
        exact inv_away hI .poll _ _ trivial rfl
      · simp only [hn, if_false]
        exact inv_away hI (.conversations timeout) _ _ trivial rfl
  | conversations timeout =>
    rw [hpc] at hq hlocks
    obtain rfl := Option.some.inj hq
    cases a <;> simp [Request.admits] at hadmits
    case raised e =>
      simp only [Logged.note, resume, hpc, hlocks]
      exact inv_outer hI _ rfl _ _
    case ids cs =>
      simp only [Logged.note, resume, hpc, hlocks]
      exact inv_visit hI.tallied timeout cs _
  | loadConfig | getPool | poll =>
    rw [hpc] at hq hlocks
    obtain rfl := Option.some.inj hq
    cases a <;> simp [Request.admits] at hadmits
    case raised e =>
      simp only [Logged.note, resume, hpc, hlocks]
      exact inv_outer hI _ rfl _ _
    all_goals
      simp only [Logged.note, resume, hpc, hlocks]
      exact inv_away hI _ _ _ (by trivial) rfl
  | backoff =>
    rw [hpc] at hq hlocks
    obtain rfl := Option.some.inj hq
    cases a <;> simp [Request.admits] at hadmits
    case raised e =>
      simp only [Logged.note, resume, hpc, hlocks]
      exact inv_away hI (.exited (.raised e)) _ _ trivial rfl
    case done =>
      simp only [Logged.note, resume, hpc, hlocks]
      exact inv_away hI .loadConfig _ _ trivial rfl

@[simp] theorem visit_convFailures (w : Worker) (timeout : Int) (cs : List Id) :
    (visit w timeout cs).convFailures = w.convFailures :=
  (visit_spec w timeout cs).1

@[simp] theorem outerHandler_convFailures (w : Worker) (x : Leaving) :
    (outerHandler w x).convFailures = w.convFailures :=
  (outerHandler_spec w x).1

theorem tryFailed_convFailures (w : Worker) (timeout : Int) (d : Id) (rest : List Id) (e : Exn) :
    (tryFailed w timeout d rest e).convFailures = w.convFailures ∨
      (tryFailed w timeout d rest e).convFailures = Function.update w.convFailures d (w.convFailures d + 1) := by
  cases he : e.caughtBy [.timeoutError] <;> simp [tryFailed, he, Worker.setFailures]

/-- The counts change in four places only, of a conversation that is not given up. -/
theorem note_failures (hI : Inv s) (a : Answer) : (s.note a).worker.convFailures = s.worker.convFailures ∨
    ∃ d n, s.worker.convFailures d ≤ maxConvRetries ∧
      (s.note a).worker.convFailures = Function.update s.worker.convFailures d n := by
  have hplaced := hI.placed
  simp only [Logged.note]
  cases a with
  | raised e =>
    cases hpc : s.worker.pc <;> simp only [Placed, hpc] at hplaced
    case getFlow timeout d rest | skip timeout d rest | extract timeout d rest =>
      simp only [resume, hpc]
      exact (tryFailed_convFailures s.worker timeout d rest e).imp_right fun h => ⟨d, _, Nat.le_of_lt hplaced, h⟩
    case cleanup =>
      left
      cases hc : e.caughtBy [.importError, .runtimeError, .postgresError] <;> simp [resume, hpc, hc]
    all_goals
      left
      simp [resume, hpc]
  | done =>
    cases hpc : s.worker.pc <;> simp only [Placed, hpc] at hplaced
    case giveUp timeout d rest =>
      refine .inr ⟨d, maxConvRetries + 1, Nat.le_of_eq hplaced, ?_⟩
      simp [resume, hpc, Worker.setFailures]
    case unlock timeout d rest pending =>
      left
      cases pending <;> simp [resume, hpc]
    all_goals
      left
      simp [resume, hpc]
  | extracted error =>
    cases hpc : s.worker.pc <;> simp only [Placed, hpc] at hplaced
    case extract timeout d rest =>
      refine .inr ⟨d, if error then s.worker.convFailures d + 1 else 0, Nat.le_of_lt hplaced, ?_⟩
      simp only [resume, hpc, Worker.setFailures]
    all_goals
      left
      simp [resume, hpc]
  | locked granted =>
    left
    cases granted <;> cases hpc : s.worker.pc <;> simp [resume, hpc]
  | flow registered =>
    left
    cases registered <;> cases hpc : s.worker.pc <;> simp [resume, hpc]
  | config timeout =>
    left
    simp [resume]
  | count n =>
    left
    cases hpc : s.worker.pc <;> simp [resume, hpc]
  | ids cs =>
    left
    cases hpc : s.worker.pc <;> simp [resume, hpc]

/-- **Once given up**, a conversation stays so. -/
theorem givenUp_step (hI : Inv s) (hgone : s.worker.convFailures c = maxConvRetries + 1)
    (h : step pollInterval s a = some s') : s'.worker.convFailures c = maxConvRetries + 1 := by
  obtain ⟨rfl, -⟩ := step_eq_some h
  rcases note_failures hI a with heq | ⟨d, n, hd, heq⟩
  · rw [heq, hgone]
  · have hne : c ≠ d := by
      rintro rfl
      omega
    rw [heq, Function.update_of_ne hne, hgone]

theorem inv_exec (h : exec (step pollInterval) s as = some s') (hI : Inv s) : Inv s' :=
  exec_inv (C := fun _ _ => True) (fun _ _ _ hI _ h => inv_step hI h) h (fun _ _ _ _ => trivial) hI

/-- What names the conversation `c`. -/
def Request.names (c : Id) : Request → Bool
  | .mark d | .tryLock d | .extract d _ | .unlock d => d == c
  | _ => false

/-- **Three failures**: the next calls that name the conversation mark its messages
and give its lock back; four stands for none at all. -/
theorem request_of_failed (hI : Inv s) {q : Request} (hq : request pollInterval s.worker.pc = some q)
    (hnames : q.names c = true) :
    s.worker.convFailures c < maxConvRetries ∨
      s.worker.convFailures c = maxConvRetries ∧ (q = .mark c ∨ q = .unlock c) := by
  have hplaced := hI.placed
  cases hpc : s.worker.pc <;> rw [hpc] at hq <;> cases hq <;> simp only [Request.names, beq_iff_eq] at hnames
  all_goals first
    | cases hnames; done
    | subst hnames
  case giveUp timeout rest =>
    simp only [Placed, hpc] at hplaced
    exact .inr ⟨hplaced, .inl rfl⟩
  case unlock timeout rest pending =>
    simp only [Placed, hpc] at hplaced
    rcases Nat.lt_or_eq_of_le hplaced with hlt | heq
    · exact .inl hlt
    · exact .inr ⟨heq, .inr rfl⟩
  all_goals
    simp only [Placed, hpc] at hplaced
    exact .inl hplaced

/-- **At most three failures**, in every run and for every conversation: no
more are counted between two successes; after the third no call names the
conversation but to mark its messages and to give its lock back; and once the
messages of a conversation that failed three times are marked, no call names
it ever again. -/
theorem failures_bounded (h : exec (step pollInterval) {} as = some s) (c : Id) :
    countedOf c s.outcomes ≤ maxConvRetries ∧
      (countedOf c s.outcomes = maxConvRetries → ∀ q, request pollInterval s.worker.pc = some q →
        q.names c = true → q = .mark c ∨ q = .unlock c) ∧
      ∀ timeout rest bs t, s.worker.pc = .giveUp timeout c rest →
        exec (step pollInterval) s (.done :: bs) = some t →
          countedOf c s.outcomes = maxConvRetries ∧
            ∀ q, request pollInterval t.worker.pc = some q → q.names c = false := by
  have hI : Inv s := inv_exec h inv_init
  have htally := hI.tallied c
  refine ⟨?_, fun hmax q hq hnames => ?_, fun timeout rest bs t hpc hrun => ?_⟩
  · omega
  · rcases request_of_failed hI hq hnames with hlt | ⟨_, hcall⟩
    · omega
    · exact hcall
  · have hplaced := hI.placed
    simp only [Placed, hpc] at hplaced
    refine ⟨by omega, fun q hq => ?_⟩
    obtain ⟨s₁, hs₁, hrest⟩ := Option.bind_eq_some_iff.mp hrun
    have hgone₁ : s₁.worker.convFailures c = maxConvRetries + 1 := by
      obtain ⟨rfl, -⟩ := step_eq_some hs₁
      simp [Logged.note, resume, hpc, Worker.setFailures]
    obtain ⟨hIt, hgone⟩ : Inv t ∧ t.worker.convFailures c = maxConvRetries + 1 :=
      exec_inv (I := fun u => Inv u ∧ u.worker.convFailures c = maxConvRetries + 1) (C := fun _ _ => True)
        (fun _ _ _ hu _ hstep => ⟨inv_step hu.1 hstep, givenUp_step hu.1 hu.2 hstep⟩) hrest
        (fun _ _ _ _ => trivial) ⟨inv_step hI hs₁, hgone₁⟩
    by_contra hnames
    rcases request_of_failed hIt hq (by simpa using hnames) with hlt | ⟨heq, _⟩ <;> omega

/-- A round in which the flow reports an error for conversation 7. -/
def failedRound : List Answer :=
  [.config 600, .done, .count 1, .ids [7], .locked true, .flow true, .extracted true, .done, .done, .done]

/-- Three of them; the next round marks the messages and passes on. -/
def threeFailures : List Answer :=
  failedRound ++ failedRound ++ failedRound ++ [.config 600, .done, .count 1, .ids [7]]

theorem failures_bounded_three : ∃ s, exec (step 2) {} threeFailures = some s ∧
    countedOf 7 s.outcomes = maxConvRetries ∧ request 2 s.worker.pc = some (.mark 7) ∧
      ∃ t, exec (step 2) s [.done, .done, .done, .config 600, .done, .count 1, .ids [7]] = some t ∧
        ∀ q, request 2 t.worker.pc = some q → q.names 7 = false := by
  obtain ⟨s, hs⟩ := Option.isSome_iff_exists.mp
    (show (exec (step 2) {} threeFailures).isSome = true by decide)
  have hpc : s.worker.pc = .giveUp 600 7 [] := by
    have hall : (exec (step 2) {} threeFailures).map (·.worker.pc) = some (.giveUp 600 7 []) := by decide
    simpa [hs] using hall
  obtain ⟨t, ht⟩ : ∃ t, exec (step 2) s [.done, .done, .done, .config 600, .done, .count 1, .ids [7]] = some t := by
    have hall : ((exec (step 2) {} threeFailures).bind fun s =>
        exec (step 2) s [.done, .done, .done, .config 600, .done, .count 1, .ids [7]]).isSome = true := by decide
    rw [hs] at hall
    exact Option.isSome_iff_exists.mp hall
  obtain ⟨hcount, hnever⟩ := (failures_bounded hs 7).2.2 600 [] _ t hpc ht
  exact ⟨s, hs, hcount, by rw [hpc]; rfl, t, ht, hnever⟩

/-! ## The locks -/

/-- **Every lock is given back**: whatever is raised, the locks that were
granted are those asked back, newest first, and the one of the conversation
in the `try` block. -/
theorem locks_returned (h : exec (step pollInterval) {} as = some s) :
    s.granted = s.worker.pc.holds.toList ++ s.released :=
  (inv_exec h inv_init).locks

theorem locks_returned_failed : ∃ s, exec (step 2) {} threeFailures = some s ∧ s.released = [7, 7, 7] ∧
    s.granted = s.worker.pc.holds.toList ++ s.released := by
  obtain ⟨s, hs⟩ := Option.isSome_iff_exists.mp
    (show (exec (step 2) {} threeFailures).isSome = true by decide)
  have hreleased : s.released = [7, 7, 7] := by
    have hall : (exec (step 2) {} threeFailures).map (·.released) = some [7, 7, 7] := by decide
    simpa [hs] using hall
  exact ⟨s, hs, hreleased, locks_returned hs⟩

/-! ## What the worker survives -/

/-- The calls inside the `try` block. -/
def Pc.inTry : Pc → Bool
  | .getFlow _ _ _ | .skip _ _ _ | .extract _ _ _ => true
  | _ => false

/-- What a handler lists, or a cancellation. -/
def Expected (pc : Pc) (e : Exn) : Prop :=
  e = .cancelledError ∨ e.caughtBy outerClause = true ∨ pc = .cleanup ∧ e = .importError

theorem outerHandler_exited {x y : Leaving} (h : (outerHandler w x).pc = .exited y) :
    y = x ∧ ∀ e, x = .raised e → e.caughtBy outerClause = false := by
  cases x with
  | unboundLocal =>
    obtain rfl : Leaving.unboundLocal = y := by simpa [outerHandler] using h
    exact ⟨rfl, nofun⟩
  | raised e =>
    cases hc : e.caughtBy outerClause with
    | true => by_cases hmany : 3 ≤ w.consecutiveFailures + 1 <;> simp [outerHandler, hc, hmany] at h
    | false =>
      obtain rfl : Leaving.raised e = y := by simpa [outerHandler, hc] using h
      refine ⟨rfl, fun e' he' => ?_⟩
      cases he'
      exact hc

/-- The exception that waits for the lock to be given back. -/
def Pc.pending : Pc → Option Leaving
  | .unlock _ _ _ pending => pending
  | _ => none

def Pc.exit : Pc → Option Leaving
  | .exited x => some x
  | _ => none

theorem pending_of_holds {pc : Pc} (h : pc.holds = none) : pc.pending = none := by
  cases pc <;> first | rfl | simp [Pc.holds] at h

@[simp] theorem visit_pending (w : Worker) (timeout : Int) (cs : List Id) : (visit w timeout cs).pc.pending = none :=
  pending_of_holds (visit_spec w timeout cs).2.2.1

@[simp] theorem outerHandler_pending (w : Worker) (x : Leaving) : (outerHandler w x).pc.pending = none :=
  pending_of_holds (outerHandler_spec w x).2.2

@[simp] theorem visit_exit (w : Worker) (timeout : Int) (cs : List Id) : (visit w timeout cs).pc.exit = none := by
  have hne := (visit_spec w timeout cs).2.2.2
  cases hpc : (visit w timeout cs).pc with
  | exited x => exact absurd hpc (hne x)
  | _ => rfl

theorem tryFailed_pending (w : Worker) (timeout : Int) (c : Id) (rest : List Id) (e : Exn) :
    (tryFailed w timeout c rest e).pc.exit = none ∧ (tryFailed w timeout c rest e).pc.pending =
      if e.caughtBy [.timeoutError] then if w.timeoutBound then none else some .unboundLocal
      else some (.raised e) := by
  cases he : e.caughtBy [.timeoutError] <;> simp [tryFailed, he, Pc.pending, Pc.exit, Worker.setFailures]

/-- **The ways out**: only an exception of the `try` block leaves one pending,
and the loop is left by a pending one or by one that no handler lists. -/
theorem step_leaves (h : step pollInterval s a = some s') {x : Leaving} :
    (s'.worker.pc.pending = some x → ∃ e, a = .raised e ∧ s.worker.pc.inTry = true ∧
      (e.caughtBy [.timeoutError] = true ∧ s.worker.timeoutBound = false ∧ x = .unboundLocal ∨
        e.caughtBy [.timeoutError] = false ∧ x = .raised e)) ∧
    (s'.worker.pc.exit = some x →
      (∃ e, a = .raised e ∧ x = .raised e ∧ (Expected s.worker.pc e → e = .cancelledError)) ∨
        a = .done ∧ s.worker.pc.pending = some x ∧ ∀ e, x = .raised e → e.caughtBy outerClause = false) := by
  obtain ⟨rfl, q, hq, hadmits⟩ := step_eq_some h
  have houter : ∀ (w : Worker) e, (outerHandler w (.raised e)).pc.exit = some x →
      x = .raised e ∧ e.caughtBy outerClause = false := by
    intro w e hexit
    cases hpc : (outerHandler w (.raised e)).pc <;> rw [hpc] at hexit <;> cases hexit
    obtain ⟨rfl, hc⟩ := outerHandler_exited hpc
    exact ⟨rfl, hc e rfl⟩
  cases a with
  | raised e =>
    cases hpc : s.worker.pc with
    | getFlow timeout c rest | skip timeout c rest | extract timeout c rest =>
      obtain ⟨hexit, hpending⟩ := tryFailed_pending s.worker timeout c rest e
      simp only [Logged.note, resume, hpc, hexit, hpending]
      refine ⟨fun hx => ⟨e, rfl, rfl, ?_⟩, by simp⟩
      cases he : e.caughtBy [.timeoutError] <;> simp only [he] at hx <;> simp_all
    | exited y =>
      rw [hpc] at hq
      cases hq
    | backoff =>
      rw [hpc] at hq
      obtain rfl := Option.some.inj hq
      simp only [Logged.note, resume, hpc]
      refine ⟨by simp [Pc.pending], fun hx => .inl ⟨e, rfl, ?_, fun _ => by simpa [Request.admits] using hadmits⟩⟩
      simpa [Pc.exit] using hx.symm
    | cleanup =>
      simp only [Logged.note, resume, hpc]
      cases hc : e.caughtBy [.importError, .runtimeError, .postgresError] with
      | true => simp [Pc.pending, Pc.exit]
      | false =>
        simp only [Bool.false_eq_true, if_false]
        refine ⟨by simp, fun hx => ?_⟩
        obtain ⟨rfl, hout⟩ := houter _ e hx
        refine .inl ⟨e, rfl, rfl, fun hexp => ?_⟩
        rcases hexp with rfl | hin | ⟨_, rfl⟩
        · rfl
        · simp [hin] at hout
        · cases hc
    | loadConfig | getPool | countPending | poll | conversations | giveUp | tryLock | unlock =>
      simp only [Logged.note, resume, hpc]
      refine ⟨by simp, fun hx => ?_⟩
      obtain ⟨rfl, hout⟩ := houter _ e hx
      refine .inl ⟨e, rfl, rfl, fun hexp => ?_⟩
      rcases hexp with rfl | hin | ⟨hcleanup, _⟩
      · rfl
      · simp [hin] at hout
      · cases hcleanup
  | done =>
    cases hpc : s.worker.pc with
    | unlock timeout c rest pending =>
      cases pending with
      | none => simp [Logged.note, resume, hpc]
      | some y =>
        simp only [Logged.note, resume, hpc]
        refine ⟨by simp, fun hx => .inr ?_⟩
        cases hout : (outerHandler s.worker y).pc <;> rw [hout] at hx <;> cases hx
        obtain ⟨rfl, hc⟩ := outerHandler_exited hout
        exact ⟨trivial, by simp [Pc.pending], hc⟩
    | giveUp => simp [Logged.note, resume, hpc]
    | _ =>
      rw [hpc] at hq
      cases hq <;> simp [Request.admits] at hadmits <;> simp [Logged.note, resume, hpc, Pc.pending, Pc.exit]
  | ids cs =>
    cases hpc : s.worker.pc <;> rw [hpc] at hq <;> cases hq <;> simp [Request.admits] at hadmits
    simp [Logged.note, resume, hpc]
  | locked granted =>
    cases hpc : s.worker.pc <;> rw [hpc] at hq <;> cases hq <;> simp [Request.admits] at hadmits
    cases granted with
    | false => simp [Logged.note, resume, hpc]
    | true => simp [Logged.note, resume, hpc, Pc.pending, Pc.exit]
  | flow registered =>
    cases hpc : s.worker.pc <;> rw [hpc] at hq <;> cases hq <;> simp [Request.admits] at hadmits
    cases registered <;> simp [Logged.note, resume, hpc, Pc.pending, Pc.exit]
  | count n =>
    cases hpc : s.worker.pc <;> rw [hpc] at hq <;> cases hq <;> simp [Request.admits] at hadmits
    by_cases hn : n = 0 <;> simp [Logged.note, resume, hpc, hn, Pc.pending, Pc.exit]
  | config _ | extracted _ =>
    cases hpc : s.worker.pc <;> rw [hpc] at hq <;> cases hq <;> simp [Request.admits] at hadmits
    simp [Logged.note, resume, hpc, Pc.pending, Pc.exit, Worker.setFailures]

@[simp] theorem visit_timeoutBound (w : Worker) (timeout : Int) (cs : List Id) :
    (visit w timeout cs).timeoutBound = w.timeoutBound := by
  induction cs with
  | nil => rfl
  | cons c rest ih =>
    unfold visit
    split
    · split
      · rfl
      · exact ih
    · rfl

@[simp] theorem outerHandler_timeoutBound (w : Worker) (x : Leaving) :
    (outerHandler w x).timeoutBound = w.timeoutBound := by
  cases x with
  | unboundLocal => rfl
  | raised e => cases hc : e.caughtBy outerClause <;> simp [outerHandler, hc]

theorem step_timeoutBound (h : step pollInterval s a = some s') :
    s'.worker.timeoutBound = false ↔ s.worker.timeoutBound = false ∧ a ≠ .flow true := by
  obtain ⟨rfl, q, hq, hadmits⟩ := step_eq_some h
  cases a with
  | flow registered =>
    cases hpc : s.worker.pc <;> rw [hpc] at hq <;> cases hq <;> simp [Request.admits] at hadmits
    cases registered <;> simp [Logged.note, resume, hpc]
  | raised e =>
    cases hpc : s.worker.pc with
    | getFlow | skip | extract =>
      cases he : e.caughtBy [.timeoutError] <;> simp [Logged.note, resume, hpc, tryFailed, he, Worker.setFailures]
    | cleanup =>
      cases hc : e.caughtBy [.importError, .runtimeError, .postgresError] <;> simp [Logged.note, resume, hpc, hc]
    | _ => simp [Logged.note, resume, hpc]
  | done =>
    cases hpc : s.worker.pc with
    | unlock timeout c rest pending => cases pending <;> simp [Logged.note, resume, hpc]
    | _ => simp [Logged.note, resume, hpc, Worker.setFailures]
  | locked granted =>
    cases granted <;> cases hpc : s.worker.pc <;> simp [Logged.note, resume, hpc]
  | _ => cases hpc : s.worker.pc <;> simp [Logged.note, resume, hpc, Worker.setFailures]

/-- The local has a value from the first call of the flow on. -/
theorem timeoutBound_iff (h : exec (step pollInterval) {} as = some s) :
    s.worker.timeoutBound = false ↔ ∀ t t', ¬ Takes (step pollInterval) {} as t (.flow true) t' := by
  have hiff := exec_iff (I := fun _ => True) (P := fun s : Logged => s.worker.timeoutBound = false)
    (C := fun _ a => a ≠ .flow true) (fun _ _ _ _ _ => trivial) (fun _ _ _ _ hstep => step_timeoutBound hstep)
    trivial h
  rw [hiff]
  constructor
  · intro hall t t' htakes
    exact hall.2 t _ t' htakes rfl
  · intro hnone
    refine ⟨rfl, ?_⟩
    rintro t a t' htakes rfl
    exact hnone t t' htakes

/-- A run that ends with an exception in hand. -/
structure Ending (pollInterval : Int) (as : List Answer) (s : Logged) : Prop where
  exit : ∀ x, s.worker.pc.exit = some x → x = .raised .cancelledError
  raised : ∀ e, s.worker.pc.pending = some (.raised e) → e = .cancelledError ∨ e.caughtBy outerClause = true
  unbound : s.worker.pc.pending = some .unboundLocal → ∃ as₀ e s₀, as = as₀ ++ [.raised e] ∧
    exec (step pollInterval) {} as₀ = some s₀ ∧ s₀.worker.pc.inTry = true ∧
      e.caughtBy [.timeoutError] = true ∧ s₀.worker.timeoutBound = false

/-- The timeouts in the `try` block of which the handler is left by an unbound local,
after which the lock is given back: no call of the flow came before. -/
def Untimely (pollInterval : Int) (as : List Answer) : Prop :=
  ∃ as₀ e as₁ t, as = as₀ ++ .raised e :: .done :: as₁ ∧ exec (step pollInterval) {} as₀ = some t ∧
    t.worker.pc.inTry = true ∧ e.caughtBy [.timeoutError] = true ∧
      ∀ u u', ¬ Takes (step pollInterval) {} as₀ u (.flow true) u'

theorem ending_exec {as bs : List Answer} (hexp : ∀ t a t', Takes (step pollInterval) {} (as ++ bs) t a t' →
      ∀ e, a = .raised e → Expected t.worker.pc e) (htimely : ¬ Untimely pollInterval (as ++ bs))
    (h : exec (step pollInterval) {} as = some s) : Ending pollInterval as s := by
  induction as using List.reverseRecOn generalizing bs s with
  | nil =>
    obtain rfl := Option.some.inj h
    exact ⟨by simp [Pc.exit], by simp [Pc.pending], by simp [Pc.pending]⟩
  | append_singleton as a ih =>
    rw [exec_append] at h
    obtain ⟨t, ht, hlast⟩ := Option.bind_eq_some_iff.mp h
    obtain ⟨s', hs', hend⟩ := Option.bind_eq_some_iff.mp hlast
    obtain rfl := Option.some.inj hend
    rw [List.append_assoc] at hexp htimely
    have hbefore := ih hexp htimely ht
    have htakes : Takes (step pollInterval) {} (as ++ a :: bs) t a s' := takes_of_exec ht hs'
    refine ⟨fun x hx => ?_, fun e hpending => ?_, fun hpending => ?_⟩
    · rcases (step_leaves hs').2 hx with ⟨e, rfl, rfl, hcancelled⟩ | ⟨rfl, hpending, huncaught⟩
      · rw [hcancelled (hexp t _ s' htakes e rfl)]
      · cases x with
        | raised e =>
          rcases hbefore.raised e hpending with rfl | hc
          · rfl
          · simp [huncaught e rfl] at hc
        | unboundLocal =>
          obtain ⟨as₀, e, s₀, rfl, hs₀, htry, htimeout, hunbound⟩ := hbefore.unbound hpending
          exact absurd ⟨as₀, e, bs, s₀, by simp, hs₀, htry, htimeout, (timeoutBound_iff hs₀).mp hunbound⟩ htimely
    · obtain ⟨e', rfl, htry, hout⟩ := (step_leaves hs').1 hpending
      rcases hout with ⟨_, _, hx⟩ | ⟨_, hx⟩
      · cases hx
      · cases hx
        rcases hexp t _ s' htakes e rfl with hcancelled | hc | ⟨hcleanup, _⟩
        · exact .inl hcancelled
        · exact .inr hc
        · rw [hcleanup] at htry
          cases htry
    · obtain ⟨e, rfl, htry, hout⟩ := (step_leaves hs').1 hpending
      rcases hout with ⟨htimeout, hunbound, _⟩ | ⟨_, hx⟩
      · exact ⟨as, e, t, rfl, ht, htry, htimeout, hunbound⟩
      · cases hx

theorem pending_of_timeout {e : Exn} (htry : s.worker.pc.inTry = true) (htimeout : e.caughtBy [.timeoutError] = true)
    (hunbound : s.worker.timeoutBound = false) (h : step pollInterval s (.raised e) = some s') :
    s'.worker.pc.pending = some .unboundLocal := by
  obtain ⟨rfl, -⟩ := step_eq_some h
  cases hpc : s.worker.pc <;> rw [hpc] at htry <;> cases htry <;>
    simp [Logged.note, resume, hpc, tryFailed_pending, htimeout, hunbound]

theorem exit_of_unbound (hpending : s.worker.pc.pending = some .unboundLocal)
    (h : step pollInterval s .done = some s') : s'.worker.pc = .exited .unboundLocal := by
  obtain ⟨rfl, -⟩ := step_eq_some h
  cases hpc : s.worker.pc <;> rw [hpc] at hpending <;> simp only [Pc.pending, reduceCtorEq] at hpending
  subst hpending
  simp [Logged.note, resume, hpc, outerHandler]

/-- **What the worker survives**, for every run in which the calls raise only
what a handler lists: it is left by a cancellation only, exactly when no
statement of the `try` block times out before the flow was ever called. -/
theorem survives_timely (hexp : ∀ t a t', Takes (step pollInterval) {} as t a t' →
      ∀ e, a = .raised e → Expected t.worker.pc e) (hrun : (exec (step pollInterval) {} as).isSome = true) :
    (∀ t, Passes (step pollInterval) {} as t → ∀ x, t.worker.pc = .exited x → x = .raised .cancelledError) ↔
      ¬ Untimely pollInterval as := by
  constructor
  · rintro hsurvives ⟨as₀, e, as₁, t, rfl, ht, htry, htimeout, hnone⟩
    have hunbound := (timeoutBound_iff ht).mpr hnone
    obtain ⟨z, hz⟩ := Option.isSome_iff_exists.mp hrun
    rw [exec_append, ht, Option.bind_some] at hz
    obtain ⟨u, hu, hz⟩ := Option.bind_eq_some_iff.mp hz
    obtain ⟨v, hv, hz⟩ := Option.bind_eq_some_iff.mp hz
    have hpending := pending_of_timeout htry htimeout hunbound hu
    have hexit := exit_of_unbound hpending hv
    have hpass : Passes (step pollInterval) {} (as₀ ++ .raised e :: .done :: as₁) v := by
      refine passes_iff.mpr ⟨as₀ ++ [.raised e, .done], as₁, by simp, ?_⟩
      simp [exec_append, ht, exec, hu, hv]
    exact absurd (hsurvives v hpass _ hexit) (by simp)
  · intro htimely t hpass x hx
    obtain ⟨as₁, as₂, rfl, ht⟩ := passes_iff.mp hpass
    exact (ending_exec hexp htimely ht).exit x (by rw [hx]; rfl)

/-- No flow is registered, and the statement that marks the messages takes
longer than the pool's time limit. -/
def slowMark : List Answer :=
  [.config 600, .done, .count 1, .ids [7], .locked true, .flow false, .raised .timeoutError, .done]

/-- It ends the worker. -/
theorem survives_timely_slowMark :
    ∃ t x, Passes (step 2) {} slowMark t ∧ t.worker.pc = .exited x ∧ x ≠ .raised .cancelledError := by
  have hexp : ∀ t a t', Takes (step 2) {} slowMark t a t' → ∀ e, a = .raised e → Expected t.worker.pc e := by
    intro t a t' h e ha
    have hmem := h.mem
    subst ha
    simp only [slowMark, List.mem_cons, reduceCtorEq, Answer.raised.injEq, List.not_mem_nil, or_false,
      false_or] at hmem
    subst hmem
    exact .inr (.inl (by decide))
  have huntimely : Untimely 2 slowMark := by
    obtain ⟨t, ht⟩ := Option.isSome_iff_exists.mp
      (show (exec (step 2) {} (slowMark.take 6)).isSome = true by decide)
    have htry : (exec (step 2) {} (slowMark.take 6)).map (·.worker.pc.inTry) = some true := by decide
    rw [ht] at htry
    refine ⟨slowMark.take 6, .timeoutError, [], t, rfl, ht, Option.some.inj htry, by decide, fun u u' h => ?_⟩
    exact absurd h.mem (by decide)
  have hends := mt (survives_timely hexp (by decide)).mp (not_not.mpr huntimely)
  push Not at hends
  obtain ⟨t, hpass, x, hx, hne⟩ := hends
  exact ⟨t, x, hpass, hx, hne⟩

end ContextBroker.Workers.ExtractionWorker
