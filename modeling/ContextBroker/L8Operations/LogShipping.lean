import ContextBroker.Core.LTS
import ContextBroker.L1Data.Schema
import Mathlib.Data.List.Range

/-!
# Shipping one container's log across restarts

The container writes lines, Docker keeps them until they are rotated away,
and a tail reads them into the queue from which batches are written to
system_logs. A life of the shipper starts by asking the table for the newest
timestamp of the container and Docker for the lines since then; it ends at
any point, with what is in the queue. What other containers have in the
queue only decides when a batch is written (`flush`).

A line is the number of its position in the log: two lines may be equal in
everything else. Docker's timestamps are in nanoseconds, those of the table
in microseconds, and `since` is in seconds.

`missing_after_mark`: a line that is not in the table is not older than the
newest timestamp in it, so the resume point leaves no gap. It is rounded
down to the second and `since` includes it, so it does overlap:
`shipped_once_iff` says that no life of a run can store a line a second time
exactly when each restart finds Docker without any stored line from the
resume point on (`stored_again` is the way a life does it).
-/
namespace ContextBroker.LogShipping

open LTS Rows

/-- A row of system_logs; `line` is the line it was made from. -/
structure Row where
  line : Nat
  logTimestamp : Nat
  deriving DecidableEq, Repr

/-- A running tail: what it asked Docker for, and the lines of the stream it has
not read yet. -/
structure Tail where
  since : Nat
  unread : List Nat
  deriving DecidableEq, Repr

/-- `log`: the timestamps of the container's lines; Docker no longer has the
first `rotated` of them. -/
structure State where
  log : List Nat := []
  rotated : Nat := 0
  table : List Row := []
  tail : Option Tail := none
  queue : List Nat := []
  deriving DecidableEq, Repr

inductive Label where
  /-- The container writes a line. -/
  | write (stamp : Nat)
  /-- Docker drops its oldest lines, `n` in all by now. -/
  | rotate (n : Nat)
  | start
  /-- The tail reads the next line of the stream. -/
  | read
  /-- The first `n` lines of the queue are written and committed. -/
  | flush (n : Nat)
  /-- The shipper stops or crashes. -/
  | stop
  deriving DecidableEq, Repr

def stampOf (log : List Nat) (i : Nat) : Nat := log.getD i 0

def lastStamp (log : List Nat) : Nat := log.getLast?.getD 0

/-- The payload of a line: the timestamp is cut to microseconds.
mirrors log_shipper/shipper.py:179-209 -/
def payload (log : List Nat) (i : Nat) : Row := ⟨i, stampOf log i / 1000⟩

/-- `ORDER BY log_timestamp DESC LIMIT 1`. -/
def highWater (table : List Row) : Nat := maxOf Row.logTimestamp table

/-- The high-water mark in whole seconds, 0 for an empty table.
mirrors log_shipper/shipper.py:107-126 -/
def getLastTimestamp (table : List Row) : Nat := if table.isEmpty then 0 else highWater table / 1000000

/-- The lines `docker logs(since=T)` has. -/
def dockerLogs (s : State) (since : Nat) : List Nat :=
  (List.range s.log.length).filter fun i => decide (s.rotated ≤ i) && decide (since * 1000000000 ≤ stampOf s.log i)

/-- The stream of a following tail gets a new line. -/
def Tail.follow (t : Tail) (i stamp : Nat) : Tail :=
  if t.since * 1000000000 ≤ stamp then { t with unread := t.unread ++ [i] } else t

def step (s : State) : Label → Option State
  | .write stamp =>
    if lastStamp s.log ≤ stamp then
      some { s with log := s.log ++ [stamp], tail := s.tail.map fun t => t.follow s.log.length stamp }
    else none
  | .rotate n =>
    if s.rotated ≤ n ∧ n ≤ s.log.length then
      -- a line that is rotated away before it is read is gone
      some { s with rotated := n, tail := s.tail.map fun t => { t with unread := t.unread.filter (n ≤ ·) } }
    else none
  | .start =>
    match s.tail with
    | none =>
      let since := getLastTimestamp s.table
      some { s with tail := some ⟨since, dockerLogs s since⟩ }
    | some _ => none
  | .read =>
    match s.tail with
    | some ⟨since, i :: unread⟩ => some { s with tail := some ⟨since, unread⟩, queue := s.queue ++ [i] }
    | _ => none
  | .flush n =>
    match s.tail with
    | some _ =>
      if n ≤ s.queue.length then
        some { s with table := s.table ++ (s.queue.take n).map (payload s.log), queue := s.queue.drop n }
      else none
    | none => none
  | .stop =>
    match s.tail with
    | some _ => some { s with tail := none, queue := [] }
    | none => none

/-! ## What is stored, what is on its way -/

def State.stored (s : State) : List Nat := s.table.map Row.line

/-- What the running tail has still to deliver, and the writer to write. -/
def State.pending (s : State) : List Nat :=
  match s.tail with
  | none => []
  | some t => s.queue ++ t.unread

/-- No line is stored a second time. -/
def Once (s : State) : Prop := s.stored.Nodup

/-- No line Docker still has is missing: what is older than the high-water mark
is in the table, and once the shipper runs everything is in the table or on
its way there. -/
def NoGap (s : State) : Prop :=
  ∀ i, s.rotated ≤ i → i < s.log.length →
    (stampOf s.log i / 1000 < highWater s.table → i ∈ s.stored) ∧
    (s.tail ≠ none → i ∈ s.stored ∨ i ∈ s.pending)

/-- A restart that gets no stored line from Docker. -/
def Clean (s : State) : Label → Prop
  | .start => ∀ i ∈ dockerLogs s (getLastTimestamp s.table), i ∉ s.stored
  | _ => True

structure Inv (s : State) : Prop where
  sorted : s.log.Pairwise (· ≤ ·)
  rows : ∀ r ∈ s.table, r.line < s.log.length ∧ r = payload s.log r.line
  missing : ∀ i, s.rotated ≤ i → i < s.log.length → i ∉ s.stored → highWater s.table ≤ stampOf s.log i / 1000
  stopped : s.tail = none → s.queue = []
  ascending : s.pending.Pairwise (· < ·)
  bound : ∀ i ∈ s.pending, i < s.log.length
  covered : s.tail ≠ none → ∀ i, s.rotated ≤ i → i < s.log.length → i ∈ s.stored ∨ i ∈ s.pending
  since : ∀ t, s.tail = some t → t.since * 1000000000 ≤ lastStamp s.log

/-! ## Timestamps -/

section

variable {log : List Nat} {i j stamp : Nat}

theorem stampOf_append (h : i < log.length) : stampOf (log ++ [stamp]) i = stampOf log i := by
  simp [stampOf, List.getElem?_append_left h]

@[simp] theorem stampOf_length : stampOf (log ++ [stamp]) log.length = stamp := by simp [stampOf]

@[simp] theorem lastStamp_append : lastStamp (log ++ [stamp]) = stamp := by simp [lastStamp]

theorem payload_append (h : i < log.length) : payload (log ++ [stamp]) i = payload log i := by
  simp [payload, stampOf_append h]

theorem stampOf_mono (hsorted : log.Pairwise (· ≤ ·)) (hij : i ≤ j) (hj : j < log.length) :
    stampOf log i ≤ stampOf log j := by
  rcases Nat.eq_or_lt_of_le hij with rfl | hlt
  · exact Nat.le_refl _
  · have h := List.pairwise_iff_getElem.mp hsorted i j (by omega) hj hlt
    simpa [stampOf, show i < log.length by omega, hj] using h

theorem stampOf_le_last (hsorted : log.Pairwise (· ≤ ·)) (hi : i < log.length) : stampOf log i ≤ lastStamp log := by
  have hlast : lastStamp log = stampOf log (log.length - 1) := by
    simp [lastStamp, stampOf, List.getLast?_eq_getElem?]
  rw [hlast]
  exact stampOf_mono hsorted (by omega) (by omega)

theorem sorted_append (hsorted : log.Pairwise (· ≤ ·)) (h : lastStamp log ≤ stamp) :
    (log ++ [stamp]).Pairwise (· ≤ ·) := by
  refine List.pairwise_append.mpr ⟨hsorted, List.pairwise_singleton _ _, fun a ha b hb => ?_⟩
  obtain rfl := List.mem_singleton.mp hb
  obtain ⟨i, hi, rfl⟩ := List.mem_iff_getElem.mp ha
  have := stampOf_le_last hsorted hi
  simp only [stampOf, List.getD_eq_getElem?_getD, List.getElem?_eq_getElem hi, Option.getD_some] at this
  omega

end

variable {s s' : State} {l : Label}

theorem mem_dockerLogs {since i : Nat} : i ∈ dockerLogs s since ↔
    i < s.log.length ∧ s.rotated ≤ i ∧ since * 1000000000 ≤ stampOf s.log i := by
  simp [dockerLogs]

theorem getLastTimestamp_eq (table : List Row) : getLastTimestamp table = highWater table / 1000000 := by
  unfold getLastTimestamp highWater
  cases table with
  | nil => rfl
  | cons r rows => rfl

/-- The high-water mark is not in the future. -/
theorem Inv.highWater_le (hI : Inv s) : highWater s.table ≤ lastStamp s.log / 1000 := by
  refine maxOf_le fun r hr => ?_
  obtain ⟨hlt, hrow⟩ := hI.rows r hr
  have hle := stampOf_le_last hI.sorted hlt
  rw [hrow]
  simp only [payload]
  omega

/-- A line from the high-water mark on is one Docker is asked for. -/
theorem since_le {n stamp : Nat} (h : n ≤ stamp / 1000) : n / 1000000 * 1000000000 ≤ stamp := by omega

/-! ## What a step stores and what it puts on its way -/

/-- The stream of a running tail gets every new line. -/
theorem pending_write (hI : Inv s) {stamp : Nat} (h : lastStamp s.log ≤ stamp) (hrun : s.tail ≠ none) :
    State.pending { s with log := s.log ++ [stamp], tail := s.tail.map fun t => t.follow s.log.length stamp } =
      s.pending ++ [s.log.length] := by
  obtain ⟨t, ht⟩ := Option.ne_none_iff_exists'.mp hrun
  have hsince := hI.since t ht
  simp [State.pending, ht, Tail.follow, Nat.le_trans hsince h]

/-- A step keeps or drops what is on its way, moves it to the table, or adds to
it: the line just written, or what Docker returns to a new tail. -/
inductive Effect (s s' : State) : Label → Prop where
  | wrote (stamp : Nat) : lastStamp s.log ≤ stamp → s'.log = s.log ++ [stamp] → s'.rotated = s.rotated →
    s'.table = s.table → s'.queue = s.queue → (s'.tail = none ↔ s.tail = none) →
    (∀ t, s'.tail = some t → ∃ t₀, s.tail = some t₀ ∧ t.since = t₀.since) →
    s'.pending = s.pending ++ (if s.tail = none then [] else [s.log.length]) → Effect s s' (.write stamp)
  | rotated (n : Nat) : s.rotated ≤ n → n ≤ s.log.length → s' = { s with rotated := n, tail := s'.tail } →
    (s'.tail = none ↔ s.tail = none) → (∀ t, s'.tail = some t → ∃ t₀, s.tail = some t₀ ∧ t.since = t₀.since) →
    s'.pending.Sublist s.pending → (∀ i ∈ s.pending, n ≤ i → i ∈ s'.pending) → Effect s s' (.rotate n)
  | started : s.tail = none →
    s' = { s with tail := some ⟨getLastTimestamp s.table, dockerLogs s (getLastTimestamp s.table)⟩ } → Effect s s' .start
  | read (t t' : Tail) (queue : List Nat) : s.tail = some t → t'.since = t.since →
    s' = { s with tail := some t', queue := queue } → s'.pending = s.pending → Effect s s' .read
  | flushed (t : Tail) (n : Nat) : s.tail = some t →
    s' = { s with table := s.table ++ (s.queue.take n).map (payload s.log), queue := s.queue.drop n } →
    Effect s s' (.flush n)
  | stopped : s' = { s with tail := none, queue := [] } → Effect s s' .stop

theorem step_effect (hI : Inv s) (h : step s l = some s') : Effect s s' l := by
  cases l with
  | write stamp =>
    obtain ⟨hle, h⟩ := Option.ite_none_right_eq_some.mp h
    obtain rfl := Option.some.inj h
    refine .wrote stamp hle rfl rfl rfl rfl (by simp) (fun t ht => ?_) ?_
    · obtain ⟨t₀, ht₀, rfl⟩ := Option.map_eq_some_iff.mp ht
      refine ⟨t₀, ht₀, ?_⟩
      unfold Tail.follow
      split <;> rfl
    · by_cases hrun : s.tail = none
      · simp [State.pending, hrun]
      · rw [if_neg hrun]
        exact pending_write hI hle hrun
  | rotate n =>
    obtain ⟨hn, h⟩ := Option.ite_none_right_eq_some.mp h
    obtain rfl := Option.some.inj h
    refine .rotated n hn.1 hn.2 rfl (by simp) (fun t ht => ?_) ?_ fun i hi hni => ?_
    · obtain ⟨t₀, ht₀, rfl⟩ := Option.map_eq_some_iff.mp ht
      exact ⟨t₀, ht₀, rfl⟩
    · cases ht : s.tail with
      | none => simp [State.pending, ht]
      | some t => simp [State.pending, ht]
    · cases ht : s.tail with
      | none => simp [State.pending, ht] at hi
      | some t => simpa [State.pending, ht, hni] using hi
  | start =>
    simp only [step] at h
    split at h
    · rename_i ht
      obtain rfl := Option.some.inj h
      exact .started ht rfl
    · cases h
  | read =>
    simp only [step] at h
    split at h
    · rename_i since i unread ht
      obtain rfl := Option.some.inj h
      exact .read _ ⟨since, unread⟩ _ ht rfl rfl (by simp [State.pending, ht])
    · cases h
  | flush n =>
    simp only [step] at h
    split at h
    · rename_i t ht
      obtain ⟨_, h⟩ := Option.ite_none_right_eq_some.mp h
      obtain rfl := Option.some.inj h
      exact .flushed t n ht rfl
    · cases h
  | stop =>
    simp only [step] at h
    split at h
    · obtain rfl := Option.some.inj h
      exact .stopped rfl
    · cases h

/-! ## The invariant -/

theorem stored_flush (n : Nat) :
    State.stored { s with table := s.table ++ (s.queue.take n).map (payload s.log), queue := s.queue.drop n } =
      s.stored ++ s.queue.take n := by
  simp [State.stored, payload, Function.comp_def]

/-- A flush takes the oldest lines on their way. -/
theorem pending_flush {t : Tail} (ht : s.tail = some t) (n : Nat) :
    s.pending = s.queue.take n ++
      State.pending { s with table := s.table ++ (s.queue.take n).map (payload s.log), queue := s.queue.drop n } := by
  simp [State.pending, ht, ← List.append_assoc]

theorem highWater_append (table : List Row) (rows : List Row) {n : Nat} (h : highWater table ≤ n)
    (hrows : ∀ r ∈ rows, r.logTimestamp ≤ n) : highWater (table ++ rows) ≤ n := by
  unfold highWater at *
  rw [maxOf_append]
  exact Nat.max_le.mpr ⟨h, maxOf_le hrows⟩

/-- **The resume point leaves no gap**: a line that is not in the table is not
older than the newest timestamp in it. -/
theorem missing_after_mark (hI : Inv s) (h : Effect s s' l) :
    ∀ i, s'.rotated ≤ i → i < s'.log.length → i ∉ s'.stored → highWater s'.table ≤ stampOf s'.log i / 1000 := by
  intro i hi hlt hnot
  cases h with
  | wrote stamp hle hlog hrot htable _ _ _ _ =>
    have hstored : s'.stored = s.stored := by rw [State.stored, htable]; rfl
    rw [hlog, List.length_append, List.length_singleton] at hlt
    rw [hrot] at hi
    rw [hstored] at hnot
    rw [htable, hlog]
    rcases Nat.eq_or_lt_of_le (Nat.le_of_lt_succ hlt) with rfl | hold
    · rw [stampOf_length]
      have := hI.highWater_le
      omega
    · rw [stampOf_append hold]
      exact hI.missing i hi hold hnot
  | rotated n hge _ hs' _ _ _ _ =>
    rw [hs'] at hi hlt hnot ⊢
    exact hI.missing i (Nat.le_trans hge hi) hlt hnot
  | started _ hs' =>
    subst hs'
    exact hI.missing i hi hlt hnot
  | read t t' queue _ _ hs' _ =>
    subst hs'
    exact hI.missing i hi hlt hnot
  | stopped hs' =>
    subst hs'
    exact hI.missing i hi hlt hnot
  | flushed t n ht hs' =>
    subst hs'
    rw [stored_flush, List.mem_append, not_or] at hnot
    refine highWater_append _ _ (hI.missing i hi hlt hnot.1) fun r hr => ?_
    obtain ⟨j, hj, rfl⟩ := List.mem_map.mp hr
    have hpending := pending_flush ht n
    have hmem : i ∈ s.pending := (hI.covered (by rw [ht]; simp) i hi hlt).resolve_left hnot.1
    have hasc := hI.ascending
    rw [hpending] at hmem hasc
    have hlater := (List.mem_append.mp hmem).resolve_left hnot.2
    have hji : j < i := (List.pairwise_append.mp hasc).2.2 j hj i hlater
    exact Nat.div_le_div_right (stampOf_mono hI.sorted (Nat.le_of_lt hji) hlt)

/-- The rows of the table are lines of the log. -/
theorem rows_step (hI : Inv s) (h : Effect s s' l) :
    ∀ r ∈ s'.table, r.line < s'.log.length ∧ r = payload s'.log r.line := by
  intro r hr
  cases h with
  | wrote stamp _ hlog _ htable _ _ _ _ =>
    obtain ⟨hlt, hrow⟩ := hI.rows r (htable ▸ hr)
    rw [hlog, payload_append hlt, List.length_append]
    exact ⟨Nat.lt_of_lt_of_le hlt (Nat.le_add_right _ _), hrow⟩
  | rotated n _ _ hs' _ _ _ _ =>
    rw [hs'] at hr ⊢
    exact hI.rows r hr
  | started _ hs' | read _ _ _ _ _ hs' _ | stopped hs' =>
    subst hs'
    exact hI.rows r hr
  | flushed t n ht hs' =>
    subst hs'
    rcases List.mem_append.mp hr with hold | hnew
    · exact hI.rows r hold
    · obtain ⟨i, hi, rfl⟩ := List.mem_map.mp hnew
      refine ⟨hI.bound i ?_, rfl⟩
      rw [pending_flush ht n]
      exact List.mem_append_left _ hi

/-- What is on its way are later and later lines of the log. -/
theorem pending_step (hI : Inv s) (h : Effect s s' l) :
    s'.pending.Pairwise (· < ·) ∧ ∀ i ∈ s'.pending, i < s'.log.length := by
  cases h with
  | wrote stamp _ hlog _ _ _ _ _ hpending =>
    rw [hpending, hlog, List.length_append, List.length_singleton]
    have hold : ∀ i ∈ s.pending, i < s.log.length + 1 := fun i hi => Nat.lt_succ_of_lt (hI.bound i hi)
    split
    · rw [List.append_nil]
      exact ⟨hI.ascending, hold⟩
    · refine ⟨List.pairwise_append.mpr ⟨hI.ascending, List.pairwise_singleton _ _, fun a ha b hb => ?_⟩, fun i hi => ?_⟩
      · rw [List.mem_singleton.mp hb]
        exact hI.bound a ha
      · rcases List.mem_append.mp hi with hi | hnew
        · exact hold i hi
        · rw [List.mem_singleton.mp hnew]
          exact Nat.lt_succ_self _
  | rotated n _ _ hs' _ _ hsub _ =>
    have hlog : s'.log = s.log := by rw [hs']
    exact ⟨hI.ascending.sublist hsub, fun i hi => hlog ▸ hI.bound i (hsub.subset hi)⟩
  | started hnone hs' =>
    subst hs'
    rw [State.pending, hI.stopped hnone]
    refine ⟨?_, fun i hi => (mem_dockerLogs.mp hi).1⟩
    simpa [dockerLogs] using (List.pairwise_lt_range (n := s.log.length)).filter _
  | read t t' queue _ _ hs' hpending =>
    subst hs'
    exact ⟨hpending ▸ hI.ascending, hpending ▸ hI.bound⟩
  | flushed t n ht hs' =>
    subst hs'
    have hsub : List.Sublist _ s.pending := pending_flush ht n ▸ List.sublist_append_right _ _
    exact ⟨hI.ascending.sublist hsub, fun i hi => hI.bound i (hsub.subset hi)⟩
  | stopped hs' =>
    subst hs'
    exact ⟨List.Pairwise.nil, nofun⟩

/-- While the shipper runs, what Docker has is in the table or on its way. -/
theorem covered_step (hI : Inv s) (h : Effect s s' l) (hrun : s'.tail ≠ none) :
    ∀ i, s'.rotated ≤ i → i < s'.log.length → i ∈ s'.stored ∨ i ∈ s'.pending := by
  intro i hi hlt
  cases h with
  | wrote stamp _ hlog hrot htable _ htail _ hpending =>
    have hrun₀ : s.tail ≠ none := fun hnone => hrun (htail.mpr hnone)
    have hstored : s'.stored = s.stored := by rw [State.stored, htable]; rfl
    rw [hlog, List.length_append, List.length_singleton] at hlt
    rw [hstored, hpending, if_neg hrun₀]
    rcases Nat.eq_or_lt_of_le (Nat.le_of_lt_succ hlt) with rfl | hold
    · exact .inr (by simp)
    · exact (hI.covered hrun₀ i (hrot ▸ hi) hold).imp_right (List.mem_append_left _)
  | rotated n hge _ hs' htail _ _ hkept =>
    have hrun₀ : s.tail ≠ none := fun hnone => hrun (htail.mpr hnone)
    have hstored : s'.stored = s.stored := by rw [hs']; rfl
    have hni : n ≤ i := by rw [hs'] at hi; exact hi
    have hold : i < s.log.length := by rw [hs'] at hlt; exact hlt
    rw [hstored]
    exact (hI.covered hrun₀ i (Nat.le_trans hge hni) hold).imp_right fun hp => hkept i hp hni
  | started hnone hs' =>
    subst hs'
    by_cases hst : i ∈ s.stored
    · exact .inl hst
    · refine .inr ?_
      rw [State.pending, hI.stopped hnone]
      refine mem_dockerLogs.mpr ⟨hlt, hi, ?_⟩
      rw [getLastTimestamp_eq]
      exact since_le (hI.missing i hi hlt hst)
  | read t t' queue ht _ hs' hpending =>
    subst hs'
    exact hpending ▸ hI.covered (by rw [ht]; simp) i hi hlt
  | flushed t n ht hs' =>
    subst hs'
    rw [stored_flush]
    rcases hI.covered (by rw [ht]; simp) i hi hlt with hst | hp
    · exact .inl (List.mem_append_left _ hst)
    · rw [pending_flush ht n] at hp
      exact (List.mem_append.mp hp).imp_left (List.mem_append_right _)
  | stopped hs' =>
    subst hs'
    exact absurd rfl hrun

/-- No tail asks for lines of the future. -/
theorem since_step (hI : Inv s) (h : Effect s s' l) :
    ∀ t, s'.tail = some t → t.since * 1000000000 ≤ lastStamp s'.log := by
  intro t ht
  cases h with
  | wrote stamp hle hlog _ _ _ _ hsince _ =>
    obtain ⟨t₀, ht₀, heq⟩ := hsince t ht
    rw [hlog, lastStamp_append, heq]
    exact Nat.le_trans (hI.since t₀ ht₀) hle
  | rotated n _ _ hs' _ hsince _ _ =>
    obtain ⟨t₀, ht₀, heq⟩ := hsince t ht
    rw [hs', heq]
    exact hI.since t₀ ht₀
  | started _ hs' =>
    subst hs'
    obtain rfl := Option.some.inj ht
    show getLastTimestamp s.table * 1000000000 ≤ lastStamp s.log
    rw [getLastTimestamp_eq]
    exact since_le hI.highWater_le
  | read t₀ t' queue ht₀ hsince hs' _ =>
    subst hs'
    obtain rfl := Option.some.inj ht
    exact hsince ▸ hI.since t₀ ht₀
  | flushed t₀ n ht₀ hs' =>
    subst hs'
    exact hI.since t ht
  | stopped hs' =>
    subst hs'
    cases ht

theorem sorted_step (hI : Inv s) (h : Effect s s' l) : s'.log.Pairwise (· ≤ ·) := by
  cases h with
  | wrote stamp hle hlog _ _ _ _ _ _ => exact hlog ▸ sorted_append hI.sorted hle
  | rotated n _ _ hs' _ _ _ _ => exact hs' ▸ hI.sorted
  | started _ hs' | read _ _ _ _ _ hs' _ | flushed _ _ _ hs' | stopped hs' => exact hs' ▸ hI.sorted

theorem stopped_step (hI : Inv s) (h : Effect s s' l) (hnone : s'.tail = none) : s'.queue = [] := by
  cases h with
  | wrote _ _ _ _ _ hqueue htail _ _ => exact hqueue ▸ hI.stopped (htail.mp hnone)
  | rotated n _ _ hs' htail _ _ _ => exact hs' ▸ hI.stopped (htail.mp hnone)
  | started _ hs' | read _ _ _ _ _ hs' _ =>
    rw [hs'] at hnone
    cases hnone
  | flushed t n ht hs' =>
    rw [hs', ht] at hnone
    cases hnone
  | stopped hs' => exact hs' ▸ rfl

/-- **A step keeps the invariant.** -/
theorem Inv.step (hI : Inv s) (h : step s l = some s') : Inv s' := by
  have heffect := step_effect hI h
  obtain ⟨hascending, hbound⟩ := pending_step hI heffect
  exact {
    sorted := sorted_step hI heffect
    rows := rows_step hI heffect
    missing := missing_after_mark hI heffect
    stopped := stopped_step hI heffect
    ascending := hascending
    bound := hbound
    covered := covered_step hI heffect
    since := since_step hI heffect }

theorem start_inv : Inv {} :=
  ⟨List.Pairwise.nil, fun r hr => (by cases hr), fun i _ hlt => (by cases hlt), fun _ => rfl, List.Pairwise.nil,
    fun i hi => (by cases hi), fun h => absurd rfl h, fun t ht => (by cases ht)⟩

/-! ## No gap -/

theorem inv_passes {ls : List Label} (h : Passes step {} ls s) : Inv s :=
  h.inv (fun _ _ _ hI h => hI.step h) start_inv

theorem Inv.noGap (hI : Inv s) : NoGap s := by
  intro i hi hlt
  refine ⟨fun holder => ?_, fun hrun => hI.covered hrun i hi hlt⟩
  by_contra hst
  have := hI.missing i hi hlt hst
  omega

/-! ## No overlap -/

/-- What is stored and what is on its way are different lines. -/
def Fresh (s : State) : Prop := (s.stored ++ s.pending).Nodup

/-- However the present life goes on, nothing is stored a second time. -/
def ShipsOnce (s : State) : Prop := ∀ ls t, .start ∉ ls → exec step s ls = some t → Once t

theorem Fresh.once (h : Fresh s) : Once s := (List.nodup_append.mp h).1

theorem fresh_step (hI : Inv s) (hF : Fresh s) (h : step s l = some s') (hclean : Clean s l) : Fresh s' := by
  cases step_effect hI h with
  | wrote stamp hle hlog hrot htable hqueue htail hsince hpending =>
    have hstored : s'.stored = s.stored := by rw [State.stored, htable]; rfl
    unfold Fresh
    rw [hstored, hpending, ← List.append_assoc]
    refine List.nodup_append.mpr ⟨hF, by split <;> simp, fun a ha b hb => ?_⟩
    have hlt : a < s.log.length := by
      rcases List.mem_append.mp ha with hst | hp
      · obtain ⟨r, hr, rfl⟩ := List.mem_map.mp hst
        exact (hI.rows r hr).1
      · exact hI.bound a hp
    split at hb
    · cases hb
    · rw [List.mem_singleton.mp hb]
      omega
  | rotated n _ _ hs' _ _ hsub _ =>
    have hstored : s'.stored = s.stored := by rw [hs']; rfl
    unfold Fresh
    rw [hstored]
    exact hF.sublist (List.Sublist.append_left hsub _)
  | started hnone hs' =>
    subst hs'
    have hqueue := hI.stopped hnone
    refine List.nodup_append.mpr ⟨hF.once, ?_, fun a ha b hb hab => ?_⟩
    · rw [State.pending, hqueue]
      exact List.nodup_range.filter _
    · rw [State.pending, hqueue] at hb
      exact hclean b hb (hab ▸ ha)
  | read t t' queue ht hsince hs' hpending =>
    subst hs'
    unfold Fresh
    rw [hpending]
    exact hF
  | flushed t n ht hs' =>
    subst hs'
    unfold Fresh
    rw [stored_flush, List.append_assoc, ← pending_flush ht]
    exact hF
  | stopped hs' =>
    subst hs'
    show (s.stored ++ []).Nodup
    rw [List.append_nil]
    exact hF.once

/-- Only a restart brings lines back. -/
theorem fresh_step_iff (hI : Inv s) (hF : Fresh s) (h : step s l = some s') : Fresh s' ↔ Clean s l := by
  refine ⟨fun hF' => ?_, fresh_step hI hF h⟩
  cases l with
  | start =>
    simp only [step] at h
    split at h
    · rename_i hnone
      obtain rfl := Option.some.inj h
      intro i hi hst
      refine (List.nodup_append.mp hF').2.2 i hst i ?_ rfl
      rw [State.pending, hI.stopped hnone]
      exact hi
    · cases h
  | write stamp => trivial
  | rotate n => trivial
  | read => trivial
  | flush n => trivial
  | stop => trivial

/-- The tail reads its stream to the end. -/
theorem exec_reads (since : Nat) (ls : List Label) : ∀ (unread queue : List Nat),
    exec step { s with tail := some ⟨since, unread⟩, queue := queue } (List.replicate unread.length .read ++ ls) =
      exec step { s with tail := some ⟨since, []⟩, queue := queue ++ unread } ls
  | [], queue => by simp
  | i :: unread, queue => by
    have ih := exec_reads since ls unread (queue ++ [i])
    rw [List.append_assoc] at ih
    exact ih

/-- **Stored again**: a life that has a stored line on its way can go on to store
it, by reading its stream and writing the queue. -/
theorem stored_again (h : ¬ Fresh s) : ¬ ShipsOnce s := by
  intro hships
  cases htail : s.tail with
  | none =>
    refine h ?_
    simp only [Fresh, State.pending, htail, List.append_nil]
    exact hships [] s (by simp) rfl
  | some t =>
    have hrun : exec step s (List.replicate t.unread.length .read ++ [.flush (s.queue ++ t.unread).length]) =
        some { s with
          table := s.table ++ (s.queue ++ t.unread).map (payload s.log)
          tail := some ⟨t.since, []⟩
          queue := [] } := by
      have hs : s = { s with tail := some ⟨t.since, t.unread⟩, queue := s.queue } := by rw [← htail]
      rw [hs, exec_reads]
      simp [exec, step, List.take_of_length_le]
    have honce := hships _ _ (by simp) hrun
    refine h ?_
    simpa [Once, Fresh, State.stored, State.pending, htail, payload, Function.comp_def] using honce

theorem shipsOnce_iff (hI : Inv s) : ShipsOnce s ↔ Fresh s := by
  refine ⟨fun h => ?_, fun hF ls t hls h => ?_⟩
  · by_contra hF
    exact stored_again hF h
  · induction ls generalizing s with
    | nil =>
      obtain rfl := Option.some.inj h
      exact hF.once
    | cons l ls ih =>
      obtain ⟨s', hs', hrest⟩ := Option.bind_eq_some_iff.mp h
      rw [List.mem_cons, not_or] at hls
      have hclean : Clean s l := by
        cases l with
        | start => exact absurd rfl hls.1
        | write stamp => trivial
        | rotate n => trivial
        | read => trivial
        | flush n => trivial
        | stop => trivial
      exact ih (hI.step hs') (fresh_step hI hF hs' hclean) hls.2 hrest

/-- **Shipping across restarts**: no run has a gap, and none of its lives can
store a line a second time exactly when every restart finds Docker without
any stored line from the resume point on. -/
theorem shipped_once_iff (ls : List Label) :
    (∀ s, Passes step {} ls s → NoGap s) ∧
    ((∀ s, Passes step {} ls s → ShipsOnce s) ↔ ∀ s l s', Takes step {} ls s l s' → Clean s l) := by
  refine ⟨fun s hs => (inv_passes hs).noGap, ?_⟩
  rw [← always_iff (I := Inv) (P := Fresh) (fun _ _ _ hI _ h => hI.step h) (fun _ _ _ hI hF h => fresh_step_iff hI hF h)
    start_inv List.nodup_nil ls]
  exact ⟨fun h s hs => (shipsOnce_iff (inv_passes hs)).mp (h s hs),
    fun h s hs => (shipsOnce_iff (inv_passes hs)).mpr (h s hs)⟩

/-- One line is stored; the shipper is restarted and stores it again. -/
theorem shipped_once_false : ¬ ∀ (ls : List Label) (s : State), Passes step {} ls s → Once s ∧ NoGap s := by
  intro h
  have hrun : (exec step {} [.write 1700000000500000000, .start, .read, .flush 1, .stop, .start, .read, .flush 1]).map
      State.stored = some [0, 0] := by decide +kernel
  obtain ⟨s, hs, hstored⟩ := Option.map_eq_some_iff.mp hrun
  have honce := (h _ s (passes_of_exec hs)).1
  rw [Once, hstored] at honce
  exact absurd honce (by decide)

end ContextBroker.LogShipping
