import ContextBroker.Core.LTS
import Mathlib.Data.List.Nodup
import Mathlib.Data.List.Range

/-!
# The log writer

`postgres_writer_loop` moves payloads from the queue into a batch and writes the
batch to system_logs. It is stopped by `running = False` and a cancellation, at
any of its suspensions. A step is what runs between two of them; no other task
runs where the loop tests `self.running`. An insert that is not interrupted
succeeds; one that is may have been committed before.

Accepted payloads are numbered, so that equal ones are told apart.

`written_exact_iff`: once the writer has ended, what it has written is what the
queue has accepted, in order, exactly if the queue was empty when the loop was
left, no batch was flushed that an interrupted insert had committed, and no
flush was cancelled before its insert.
-/
namespace ContextBroker.LogWriter

open LTS

/-! ## The writer -/

structure Settings where
  /-- `BATCH_SIZE` -/
  batchSize : Int := 100
  deriving DecidableEq, Repr

/-- `asyncio.Queue(maxsize=10000)` -/
def maxsize : Nat := 10000

/-- An accepted payload. -/
structure Entry (P : Type) where
  number : Nat
  payload : P
  deriving DecidableEq, Repr

/-- Where the writer is: at the head of the loop; in `wait_for`; in
`_write_batch`, in the loop or in the final flush, the insert committed or
not. `stored`: an insert of the batch in the loop was committed and then
interrupted. -/
inductive Phase where
  | top
  | waiting
  | writing (committed : Bool)
  | flushing (stored committed : Bool)
  | ended
  deriving DecidableEq, Repr

/-- `accepted` is a ghost: what `put_nowait` took, in order. -/
structure State (P : Type) where
  phase : Phase := .top
  running : Bool := true
  queue : List (Entry P) := []
  batch : List (Entry P) := []
  /-- The batches committed to system_logs. -/
  batches : List (List (Entry P)) := []
  accepted : List (Entry P) := []
  deriving DecidableEq, Repr

inductive Label (P : Type) where
  /-- A tail has a payload. -/
  | enqueue (payload : P)
  | get
  /-- `FLUSH_INTERVAL_SEC` is over. -/
  | timeout
  /-- `while self.running` -/
  | turn
  | commit
  /-- `_write_batch` returns. -/
  | written
  /-- `running = False` -/
  | stop
  | cancel
  deriving DecidableEq, Repr

section

variable {P : Type} (settings : Settings)

/-- A tail leaves its stream when `running` is false.
mirrors log_shipper/shipper.py:159-160,211-214 -/
def enqueue (s : State P) (payload : P) : State P :=
  if s.queue.length < maxsize then
    { s with
      queue := s.queue ++ [⟨s.accepted.length, payload⟩]
      accepted := s.accepted ++ [⟨s.accepted.length, payload⟩] }
  else s

/-- mirrors log_shipper/shipper.py:284-287 -/
def flush (s : State P) : State P :=
  if settings.batchSize ≤ s.batch.length ∨ s.batch ≠ [] ∧ s.queue = [] then
    -- `_write_batch` of an empty batch returns at once
    { s with phase := if s.batch.isEmpty then .top else .writing false }
  else { s with phase := .top }

/-- After the loop. mirrors log_shipper/shipper.py:295-297 -/
def finalFlush (s : State P) (stored : Bool) : State P :=
  { s with phase := if s.batch.isEmpty then .ended else .flushing stored false }

/-- mirrors log_shipper/shipper.py:266-297 -/
def step (s : State P) : Label P → Option (State P)
  | .enqueue payload => if s.running ∧ s.phase ≠ .top then some (enqueue s payload) else none
  | .get =>
    match s.phase, s.queue with
    | .waiting, e :: rest => some (flush settings { s with queue := rest, batch := s.batch ++ [e] })
    | _, _ => none
  | .timeout => if s.phase = .waiting then some (flush settings s) else none
  | .turn =>
    if s.phase = .top then some (if s.running then { s with phase := .waiting } else finalFlush s false) else none
  | .commit =>
    match s.phase with
    | .writing false => some { s with batches := s.batches ++ [s.batch], phase := .writing true }
    | .flushing stored false => some { s with batches := s.batches ++ [s.batch], phase := .flushing stored true }
    | _ => none
  | .written =>
    match s.phase with
    | .writing true => some { s with batch := [], phase := .top }
    | .flushing _ true => some { s with phase := .ended }
    | _ => none
  | .stop => if s.phase ≠ .top then some { s with running := false } else none
  | .cancel =>
    if s.running then none
    else match s.phase with
      | .waiting => some (finalFlush s false)
      | .writing committed => some (finalFlush s committed)
      -- the cancellation leaves the task
      | .flushing _ _ => some { s with phase := .ended }
      | .top | .ended => none

def initial : State P := {}

end

/-! ## What is on its way -/

section

variable {P : Type} {settings : Settings} {s s' : State P} {l : Label P}

def State.output (s : State P) : List (Entry P) := s.batches.flatten

/-- An insert of the batch is committed. -/
def Phase.stored : Phase → Bool
  | .writing committed => committed
  | .flushing stored committed => stored || committed
  | _ => false

def Phase.inLoop : Phase → Bool
  | .top | .waiting | .writing _ => true
  | .flushing _ _ | .ended => false

def State.unwritten (s : State P) : List (Entry P) :=
  if s.phase = .ended ∨ s.phase.stored = true then [] else s.batch

/-- What the writer will still read. -/
def State.unread (s : State P) : List (Entry P) := if s.phase.inLoop then s.queue else []

/-- What is written and what will be are what was accepted. -/
def Exact (s : State P) : Prop := s.output ++ (s.unwritten ++ s.unread) = s.accepted

/-- The step loses nothing and writes nothing a second time. -/
def Meets (s : State P) : Label P → Prop
  | .turn => s.running = true ∨ s.queue = []
  | .commit => ∀ stored, s.phase = .flushing stored false → stored = false
  | .cancel =>
    match s.phase with
    | .flushing stored committed => stored = true ∨ committed = true
    | _ => s.queue = []
  | _ => True

structure Inv (s : State P) : Prop where
  numbered : s.accepted.map Entry.number = List.range s.accepted.length
  /-- The queue is what was accepted last. -/
  taken : ∃ taken, s.accepted = taken ++ s.queue ∧ (∀ e ∈ s.batch, e ∈ taken) ∧ ∀ e ∈ s.output, e ∈ taken
  stored : s.phase.stored = true → ∀ e ∈ s.batch, e ∈ s.output
  apart : s.phase.stored = false → s.phase ≠ .ended → ∀ e ∈ s.batch, e ∉ s.output
  nonempty : ∀ stored committed, s.phase = .writing committed ∨ s.phase = .flushing stored committed → s.batch ≠ []
  stopped : s.phase.inLoop = false → s.running = false

theorem Inv.initial : Inv (LogWriter.initial : State P) where
  numbered := rfl
  taken := ⟨[], rfl, fun _ h => h, fun _ h => h⟩
  stored h := nomatch h
  apart _ _ _ h := nomatch h
  nonempty _ _ h := h.elim nofun nofun
  stopped h := nomatch h

theorem Inv.nodup (h : Inv s) : s.accepted.Nodup :=
  List.Nodup.of_map _ (h.numbered ▸ List.nodup_range)

/-- What is queued was not taken. -/
theorem Inv.queue_fresh (h : Inv s) {e : Entry P} (he : e ∈ s.queue) : e ∉ s.batch ∧ e ∉ s.output := by
  obtain ⟨taken, haccepted, hbatch, houtput⟩ := h.taken
  have hnodup := h.nodup
  rw [haccepted] at hnodup
  have hnot : e ∉ taken := fun ht => (List.nodup_append.mp hnodup).2.2 e ht e he rfl
  exact ⟨fun hb => hnot (hbatch e hb), fun ho => hnot (houtput e ho)⟩

/-! ### The invariant -/

theorem Inv.phase (h : Inv s) {phase : Phase}
    (hstored : phase = .ended ∨ phase.stored = s.phase.stored ∧ s.phase ≠ .ended)
    (hnonempty : ∀ stored committed, phase = .writing committed ∨ phase = .flushing stored committed → s.batch ≠ [])
    (hstopped : phase.inLoop = false → s.running = false) : Inv { s with phase } where
  numbered := h.numbered
  taken := h.taken
  stored ht := by
    rcases hstored with rfl | ⟨heq, _⟩
    · cases ht
    · exact h.stored (heq ▸ ht)
  apart hf hne := by
    rcases hstored with rfl | ⟨heq, hs⟩
    · exact absurd rfl hne
    · exact h.apart (heq ▸ hf) hs
  nonempty := hnonempty
  stopped := hstopped

/-- A flush only moves the writer. -/
theorem flush_eq (settings : Settings) (s : State P) :
    ∃ phase, flush settings s = { s with phase } ∧ (phase = .top ∨ phase = .writing false ∧ s.batch ≠ []) := by
  unfold flush
  split
  · cases hbatch : s.batch with
    | nil => exact ⟨.top, by simp, .inl rfl⟩
    | cons e rest => exact ⟨.writing false, by simp, .inr ⟨rfl, by simp⟩⟩
  · exact ⟨.top, rfl, .inl rfl⟩

theorem finalFlush_eq (s : State P) (stored : Bool) :
    ∃ phase, finalFlush s stored = { s with phase } ∧
      (phase = .ended ∧ s.batch = [] ∨ phase = .flushing stored false ∧ s.batch ≠ []) := by
  unfold finalFlush
  cases hbatch : s.batch with
  | nil => exact ⟨.ended, by simp, .inl ⟨rfl, rfl⟩⟩
  | cons e rest => exact ⟨.flushing stored false, by simp, .inr ⟨rfl, by simp⟩⟩

theorem Inv.flush (h : Inv s) (hstored : s.phase.stored = false) (hne : s.phase ≠ .ended) : Inv (flush settings s) := by
  obtain ⟨phase, heq, rfl | ⟨rfl, hbatch⟩⟩ := flush_eq settings s
  · exact heq ▸ h.phase (.inr ⟨hstored.symm, hne⟩) (by simp) (by simp [Phase.inLoop])
  · exact heq ▸ h.phase (.inr ⟨hstored.symm, hne⟩) (fun _ _ _ => hbatch) (by simp [Phase.inLoop])

theorem Inv.finalFlush (h : Inv s) {stored : Bool} (hstored : s.phase.stored = stored) (hne : s.phase ≠ .ended)
    (hrun : s.running = false) : Inv (finalFlush s stored) := by
  obtain ⟨phase, heq, ⟨rfl, _⟩ | ⟨rfl, hbatch⟩⟩ := finalFlush_eq s stored
  · exact heq ▸ h.phase (.inl rfl) (by simp) fun _ => hrun
  · exact heq ▸ h.phase (.inr ⟨by rw [hstored, Phase.stored, Bool.or_false], hne⟩) (fun _ _ _ => hbatch) fun _ => hrun

theorem Inv.enqueue (h : Inv s) (payload : P) : Inv (enqueue s payload) := by
  unfold LogWriter.enqueue
  split
  · obtain ⟨taken, haccepted, hbatch, houtput⟩ := h.taken
    refine ⟨?_, ⟨taken, ?_, hbatch, houtput⟩, h.stored, h.apart, h.nonempty, h.stopped⟩
    · simp [h.numbered, List.range_succ]
    · dsimp only
      rw [← List.append_assoc, ← haccepted]
  · exact h

theorem Inv.get (h : Inv s) (hphase : s.phase = .waiting) {e : Entry P} {rest : List (Entry P)}
    (hqueue : s.queue = e :: rest) : Inv { s with queue := rest, batch := s.batch ++ [e] } := by
  obtain ⟨taken, haccepted, hbatch, houtput⟩ := h.taken
  have hfresh := h.queue_fresh (e := e) (by simp [hqueue])
  refine ⟨h.numbered, ⟨taken ++ [e], by simp [haccepted, hqueue], ?_, ?_⟩, ?_, ?_, ?_, h.stopped⟩
  · exact List.forall_mem_append.mpr ⟨fun x hx => List.mem_append_left _ (hbatch x hx), by simp⟩
  · exact fun x hx => List.mem_append_left _ (houtput x hx)
  · simp [hphase, Phase.stored]
  · intro hstored hne
    exact List.forall_mem_append.mpr ⟨h.apart hstored hne, fun x hx => List.mem_singleton.mp hx ▸ hfresh.2⟩
  · simp [hphase]

/-- The insert of the batch is committed. -/
theorem Inv.commit (h : Inv s) {phase : Phase} (hstored : phase.stored = true) (hloop : phase.inLoop = s.phase.inLoop)
    (hbatch : s.batch ≠ []) : Inv { s with batches := s.batches ++ [s.batch], phase } := by
  obtain ⟨taken, haccepted, hsub, houtput⟩ := h.taken
  have hmore : ({ s with batches := s.batches ++ [s.batch], phase } : State P).output = s.output ++ s.batch := by
    simp [State.output]
  refine ⟨h.numbered, ⟨taken, haccepted, hsub, ?_⟩, ?_, ?_, fun _ _ _ => hbatch, fun hout => h.stopped (hloop ▸ hout)⟩
  · rw [hmore]
    exact List.forall_mem_append.mpr ⟨houtput, hsub⟩
  · intro _ e he
    rw [hmore]
    exact List.mem_append_right _ he
  · intro hf
    rw [hstored] at hf
    cases hf

theorem Inv.step (h : Inv s) (hstep : step settings s l = some s') : Inv s' := by
  cases l with
  | enqueue payload =>
    obtain ⟨_, hstep⟩ := Option.ite_none_right_eq_some.mp hstep
    exact Option.some.inj hstep ▸ h.enqueue payload
  | get =>
    simp only [LogWriter.step] at hstep
    split at hstep
    · rename_i hphase hqueue
      obtain rfl := Option.some.inj hstep
      exact (h.get hphase hqueue).flush (by simp [hphase, Phase.stored]) (by simp [hphase])
    · cases hstep
  | timeout =>
    obtain ⟨hphase, hstep⟩ := Option.ite_none_right_eq_some.mp hstep
    exact Option.some.inj hstep ▸ h.flush (by simp [hphase, Phase.stored]) (by simp [hphase])
  | turn =>
    obtain ⟨hphase, hstep⟩ := Option.ite_none_right_eq_some.mp hstep
    obtain rfl := Option.some.inj hstep
    split
    · exact h.phase (.inr (by simp [hphase, Phase.stored])) (by simp) nofun
    · rename_i hrun
      exact h.finalFlush (by simp [hphase, Phase.stored]) (by simp [hphase]) (by simpa using hrun)
  | commit =>
    simp only [LogWriter.step] at hstep
    split at hstep
    · rename_i hphase
      obtain rfl := Option.some.inj hstep
      exact h.commit rfl (by simp [hphase, Phase.inLoop]) (h.nonempty false false (.inl hphase))
    · rename_i stored hphase
      obtain rfl := Option.some.inj hstep
      exact h.commit (by simp [Phase.stored]) (by simp [hphase, Phase.inLoop])
        (h.nonempty stored false (.inr hphase))
    · cases hstep
  | written =>
    simp only [LogWriter.step] at hstep
    split at hstep
    · rename_i hphase
      obtain rfl := Option.some.inj hstep
      obtain ⟨taken, haccepted, _, houtput⟩ := h.taken
      exact ⟨h.numbered, ⟨taken, haccepted, by simp, houtput⟩, by simp, by simp, by simp, nofun⟩
    · rename_i hphase
      obtain rfl := Option.some.inj hstep
      exact h.phase (.inl rfl) (by simp) fun _ => h.stopped (by simp [hphase, Phase.inLoop])
    · cases hstep
  | stop =>
    obtain ⟨_, hstep⟩ := Option.ite_none_right_eq_some.mp hstep
    obtain rfl := Option.some.inj hstep
    exact ⟨h.numbered, h.taken, h.stored, h.apart, h.nonempty, fun _ => rfl⟩
  | cancel =>
    obtain ⟨hrun, hstep⟩ := Option.ite_none_left_eq_some.mp hstep
    have hrun : s.running = false := by simpa using hrun
    split at hstep
    · rename_i hphase
      exact Option.some.inj hstep ▸ h.finalFlush (by simp [hphase, Phase.stored]) (by simp [hphase]) hrun
    · rename_i hphase
      exact Option.some.inj hstep ▸ h.finalFlush (by simp [hphase, Phase.stored]) (by simp [hphase]) hrun
    · obtain rfl := Option.some.inj hstep
      exact h.phase (.inl rfl) (by simp) fun _ => hrun
    · cases hstep
    · cases hstep

/-! ### One step -/

theorem Inv.mem_accepted (h : Inv s) {e : Entry P} (he : e ∈ s.queue) : e ∈ s.accepted := by
  obtain ⟨taken, haccepted, _⟩ := h.taken
  rw [haccepted]
  exact List.mem_append_right _ he

/-- What is queued when the loop is left is lost. -/
theorem Inv.left_iff (h : Inv s) {rest : List (Entry P)} (hrest : ∀ e ∈ rest, e ∈ s.batch) :
    s.output ++ rest = s.accepted ↔ s.output ++ (rest ++ s.queue) = s.accepted ∧ s.queue = [] := by
  constructor
  · intro hleft
    have hnone : s.queue = [] := by
      refine List.eq_nil_iff_forall_not_mem.mpr fun e he => ?_
      have hmem := h.mem_accepted he
      rw [← hleft] at hmem
      obtain ⟨hbatch, houtput⟩ := h.queue_fresh he
      exact (List.mem_append.mp hmem).elim houtput fun hr => hbatch (hrest e hr)
    exact ⟨by rw [hnone, List.append_nil, hleft], hnone⟩
  · rintro ⟨hall, hnone⟩
    rwa [hnone, List.append_nil] at hall

theorem exact_flush : Exact (flush settings s) ↔ s.output ++ (s.batch ++ s.queue) = s.accepted := by
  obtain ⟨phase, heq, rfl | ⟨rfl, _⟩⟩ := flush_eq settings s <;> rw [heq] <;> rfl

theorem exact_finalFlush {stored : Bool} :
    Exact (finalFlush s stored) ↔ s.output ++ (if stored then [] else s.batch) = s.accepted := by
  obtain ⟨phase, heq, ⟨rfl, hbatch⟩ | ⟨rfl, _⟩⟩ := finalFlush_eq s stored
  · rw [heq, hbatch]
    simp [Exact, State.output, State.unwritten, State.unread, Phase.inLoop]
  · rw [heq]
    cases stored <;> simp [Exact, State.output, State.unwritten, State.unread, Phase.inLoop, Phase.stored]

/-- The loop is left with what is still to be written. -/
theorem Inv.exact_leave (h : Inv s) (hloop : s.phase.inLoop = true) :
    Exact (LogWriter.finalFlush s s.phase.stored) ↔ Exact s ∧ s.queue = [] := by
  have hne : s.phase ≠ .ended := fun he => by
    rw [he] at hloop
    cases hloop
  have hpending : Exact s ↔ s.output ++ ((if s.phase.stored then [] else s.batch) ++ s.queue) = s.accepted := by
    simp [Exact, State.unwritten, State.unread, hne, hloop]
  rw [exact_finalFlush, hpending]
  refine h.left_iff fun e he => ?_
  split at he
  · cases he
  · exact he

/-- The insert of a batch: a second one of it cannot be right. -/
theorem Inv.exact_commit (h : Inv s) (hbatch : s.batch ≠ []) {phase : Phase} (hcommitted : phase.stored = true)
    (hne : s.phase ≠ .ended) (hloop : phase.inLoop = s.phase.inLoop) :
    Exact { s with batches := s.batches ++ [s.batch], phase } ↔ Exact s ∧ s.phase.stored = false := by
  have hnew : Exact { s with batches := s.batches ++ [s.batch], phase } ↔
      s.output ++ (s.batch ++ s.unread) = s.accepted := by
    simp [Exact, State.output, State.unwritten, State.unread, hcommitted, hloop]
  rw [hnew]
  cases hstored : s.phase.stored with
  | false => simp [Exact, State.unwritten, hne, hstored]
  | true =>
    refine iff_of_false (fun htwice => ?_) (by simp)
    have hnodup := h.nodup
    rw [← htwice] at hnodup
    obtain ⟨e, he⟩ := List.exists_mem_of_ne_nil _ hbatch
    exact (List.nodup_append.mp hnodup).2.2 e (h.stored hstored e he) e (List.mem_append_left _ he) rfl

/-- A final flush that is cancelled: its batch must have been stored. -/
theorem Inv.exact_abandon (h : Inv s) {stored committed : Bool} (hphase : s.phase = .flushing stored committed) :
    Exact { s with phase := .ended } ↔ Exact s ∧ (stored = true ∨ committed = true) := by
  have hnew : Exact { s with phase := .ended } ↔ s.output = s.accepted := by
    simp [Exact, State.output, State.unwritten, State.unread, Phase.inLoop]
  have hold : Exact s ↔ s.output ++ (if (stored || committed) = true then [] else s.batch) = s.accepted := by
    simp [Exact, State.unwritten, State.unread, hphase, Phase.inLoop, Phase.stored]
  rw [hnew, hold, ← Bool.or_eq_true]
  cases hstored : stored || committed with
  | true => simp
  | false =>
    refine iff_of_false (fun hlost => ?_) (by simp)
    obtain ⟨e, he⟩ := List.exists_mem_of_ne_nil _ (h.nonempty stored committed (.inr hphase))
    obtain ⟨taken, haccepted, hbatch, _⟩ := h.taken
    have hmem : e ∈ s.accepted := haccepted ▸ List.mem_append_left _ (hbatch e he)
    exact h.apart (by rw [hphase, Phase.stored, hstored]) (by simp [hphase]) e he (hlost ▸ hmem)

theorem Inv.exact_enqueue (h : Inv s) (payload : P) (hrun : s.running = true) :
    Exact (LogWriter.enqueue s payload) ↔ Exact s := by
  have hloop : s.phase.inLoop = true := by
    by_contra hout
    have := h.stopped (by simpa using hout)
    rw [hrun] at this
    cases this
  unfold LogWriter.enqueue
  split
  · simp only [Exact, State.output, State.unwritten, State.unread, hloop, if_true, ← List.append_assoc]
    exact List.append_left_inj _
  · rfl

/-- **One step** keeps the payloads exact, if it meets the condition, and cannot
make them so. -/
theorem Inv.exact_step (h : Inv s) (hstep : LogWriter.step settings s l = some s') :
    Exact s' ↔ Exact s ∧ Meets s l := by
  cases l with
  | enqueue payload =>
    obtain ⟨⟨hrun, _⟩, hstep⟩ := Option.ite_none_right_eq_some.mp hstep
    obtain rfl := Option.some.inj hstep
    exact (h.exact_enqueue payload hrun).trans (and_iff_left trivial).symm
  | get =>
    simp only [LogWriter.step] at hstep
    split at hstep
    · rename_i e rest hphase hqueue
      obtain rfl := Option.some.inj hstep
      refine exact_flush.trans (Iff.trans ?_ (and_iff_left trivial).symm)
      simp [Exact, State.output, State.unwritten, State.unread, hphase, hqueue, Phase.inLoop, Phase.stored]
    · cases hstep
  | timeout =>
    obtain ⟨hphase, hstep⟩ := Option.ite_none_right_eq_some.mp hstep
    obtain rfl := Option.some.inj hstep
    refine exact_flush.trans (Iff.trans ?_ (and_iff_left trivial).symm)
    simp [Exact, State.unwritten, State.unread, hphase, Phase.inLoop, Phase.stored]
  | turn =>
    obtain ⟨hphase, hstep⟩ := Option.ite_none_right_eq_some.mp hstep
    obtain rfl := Option.some.inj hstep
    have hleave := h.exact_leave (by simp [hphase, Phase.inLoop])
    rw [hphase] at hleave
    cases hrun : s.running with
    | true =>
      refine Iff.trans ?_ (and_iff_left (.inl hrun)).symm
      simp [Exact, State.output, State.unwritten, State.unread, hphase, Phase.inLoop, Phase.stored]
    | false => simpa [Meets, hrun, Phase.stored] using hleave
  | commit =>
    simp only [LogWriter.step] at hstep
    split at hstep
    · rename_i hphase
      obtain rfl := Option.some.inj hstep
      refine (h.exact_commit (h.nonempty false false (.inl hphase)) rfl (by simp [hphase])
        (by simp [hphase, Phase.inLoop])).trans ?_
      simp [Meets, hphase, Phase.stored]
    · rename_i stored hphase
      obtain rfl := Option.some.inj hstep
      refine (h.exact_commit (h.nonempty stored false (.inr hphase)) (by simp [Phase.stored]) (by simp [hphase])
        (by simp [hphase, Phase.inLoop])).trans ?_
      simp [Meets, hphase, Phase.stored]
    · cases hstep
  | written =>
    simp only [LogWriter.step] at hstep
    split at hstep
    · rename_i hphase
      obtain rfl := Option.some.inj hstep
      refine Iff.trans ?_ (and_iff_left trivial).symm
      simp [Exact, State.output, State.unwritten, State.unread, hphase, Phase.inLoop, Phase.stored]
    · rename_i stored hphase
      obtain rfl := Option.some.inj hstep
      refine Iff.trans ?_ (and_iff_left trivial).symm
      simp [Exact, State.output, State.unwritten, State.unread, hphase, Phase.inLoop, Phase.stored]
    · cases hstep
  | stop =>
    obtain ⟨_, hstep⟩ := Option.ite_none_right_eq_some.mp hstep
    obtain rfl := Option.some.inj hstep
    exact (and_iff_left trivial).symm
  | cancel =>
    obtain ⟨_, hstep⟩ := Option.ite_none_left_eq_some.mp hstep
    split at hstep
    · rename_i hphase
      obtain rfl := Option.some.inj hstep
      have hleave := h.exact_leave (by simp [hphase, Phase.inLoop])
      simpa [Meets, hphase, Phase.stored] using hleave
    · rename_i committed hphase
      obtain rfl := Option.some.inj hstep
      have hleave := h.exact_leave (by simp [hphase, Phase.inLoop])
      simpa [Meets, hphase, Phase.stored] using hleave
    · rename_i stored committed hphase
      obtain rfl := Option.some.inj hstep
      simpa [Meets, hphase] using h.exact_abandon hphase
    · cases hstep
    · cases hstep

/-- **Nothing lost, duplicated or reordered** by a writer that has ended, exactly if
every step of the run met the condition. -/
theorem written_exact_iff (settings : Settings) {ls : List (Label P)} {s : State P}
    (hrun : exec (step settings) initial ls = some s) (hended : s.phase = .ended) :
    s.batches.flatten = s.accepted ↔ ∀ t l t', Takes (step settings) initial ls t l t' → Meets t l := by
  have hexact : Exact s ↔ s.batches.flatten = s.accepted := by
    simp [Exact, State.output, State.unwritten, State.unread, hended, Phase.inLoop]
  have hstart : Exact (initial : State P) := rfl
  rw [← hexact, LTS.exec_iff (fun _ _ _ => Inv.step) (fun _ _ _ => Inv.exact_step) Inv.initial hrun]
  exact and_iff_right hstart

end

/-! ## Shutdowns -/

/-- Two payloads arrive, and the writer is stopped and cancelled with one of them
in an insert. -/
def shutdown : List (Label Nat) :=
  [.turn, .enqueue 7, .get, .enqueue 8, .stop, .cancel, .commit, .written]

/-- The other one is lost. -/
theorem queued_payload_lost :
    ¬ ∀ (ls : List (Label Nat)) (s : State Nat), exec (step {}) initial ls = some s → s.phase = .ended →
      s.batches.flatten = s.accepted := by
  intro h
  obtain ⟨s, hrun, hended, hlost⟩ : ∃ s, exec (step {}) initial shutdown = some s ∧ s.phase = .ended ∧
      s.batches.flatten ≠ s.accepted := ⟨_, rfl, rfl, by decide⟩
  exact hlost (h shutdown s hrun hended)

/-- It is stopped with an insert in progress and nothing queued. -/
def quietShutdown : List (Label Nat) :=
  [.turn, .enqueue 7, .get, .stop, .commit, .written, .turn]

theorem written_exact_quiet : ∃ s, exec (step {}) initial quietShutdown = some s ∧ s.phase = .ended ∧
    (s.batches.flatten = s.accepted ↔
      ∀ t l t', Takes (step {}) initial quietShutdown t l t' → Meets t l) :=
  ⟨_, rfl, rfl, written_exact_iff {} rfl rfl⟩

end ContextBroker.LogWriter
