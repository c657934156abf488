import ContextBroker.L6Workers.BackgroundLoops

/-!
# What the log embedding worker deletes

A failed embedding call is counted, and the fifth deletes the log entries of
its batch. Unlike the embedding worker's, the counter is not reset by a call
that succeeds, only when a batch has been deleted.

`Logged` counts the failed calls and the batches given up.

* `givenUp_every_fifth`: in every run at least every fifth failed call gives its
  batch up, however many calls succeed in between; exactly every fifth, if no
  `DELETE` raises.
-/
namespace ContextBroker.Workers.LogEmbeddingWorker

open LTS

/-- The exceptions of the embedding call that are counted.
mirrors app/workers/db_worker.py:620 -/
def callClause : List Exn := [.osError, .valueError, .runtimeError]

structure Logged where
  worker : Worker := {}
  failed : Nat := 0
  givenUp : Nat := 0
  deriving DecidableEq, Repr

/-- `a` is a failed embedding call. -/
def callFailed (w : Worker) (a : Answer) : Bool :=
  match w.pc, a with
  | .embed _ _, .raised e => e.caughtBy callClause
  | _, _ => false

def Logged.note (s : Logged) (a : Answer) : Logged where
  worker := resume s.worker a
  failed := s.failed + (callFailed s.worker a).toNat
  givenUp := s.givenUp + (callFailed s.worker a && decide (5 ≤ s.worker.consecutiveFailures + 1)).toNat

def Logged.step (settings : Settings) (s : Logged) (a : Answer) : Option Logged :=
  answered (request settings s.worker.pc) a (s.note a)

def Pc.dropping : Pc → Bool
  | .drop _ _ => true
  | _ => false

section

variable {settings : Settings} {s s' : Logged} {w : Worker} {a : Answer} {as : List Answer} {e : Exn}

@[simp] theorem outerHandler_failures (w : Worker) (e : Exn) :
    (outerHandler w e).consecutiveFailures = w.consecutiveFailures := rfl

@[simp] theorem storeNext_failures (w : Worker) (pairs : List (Id × Embedding)) :
    (storeNext w pairs).consecutiveFailures = w.consecutiveFailures := by
  cases pairs <;> rfl

theorem dropNext_spec (w : Worker) (rows : List Job) :
    (dropNext w rows).pc.dropping = true ∧ (dropNext w rows).consecutiveFailures = w.consecutiveFailures ∨
      (dropNext w rows).pc.dropping = false ∧ (dropNext w rows).consecutiveFailures = 0 := by
  cases rows with
  | nil => exact .inr ⟨rfl, rfl⟩
  | cons row rest => exact .inl ⟨rfl, rfl⟩

/-- What a step does to the counter. -/
inductive Counts (w w' : Worker) (a : Answer) : Prop where
  /-- Nothing, and only an exception ends a deletion so. -/
  | same (hcall : callFailed w a = false) (hf : w'.consecutiveFailures = w.consecutiveFailures)
    (hstart : w'.pc.dropping = true → w.pc.dropping = true)
    (hend : w.pc.dropping = true → w'.pc.dropping = false → a.raises.isSome = true)
  /-- One of the first four failures. -/
  | failed (hcall : callFailed w a = true) (hidle : w.pc.dropping = false) (hfew : w.consecutiveFailures < 4)
    (hf : w'.consecutiveFailures = w.consecutiveFailures + 1) (hidle' : w'.pc.dropping = false)
  /-- The batch is given up; an empty one at once. -/
  | givenUp (hcall : callFailed w a = true) (hidle : w.pc.dropping = false) (hmany : 4 ≤ w.consecutiveFailures)
    (hlater : w'.pc.dropping = true ∧ w'.consecutiveFailures = w.consecutiveFailures + 1 ∨
      w'.pc.dropping = false ∧ w'.consecutiveFailures = 0)
  /-- The last entry of the batch is deleted. -/
  | deleted (hcall : callFailed w a = false) (hdrop : w.pc.dropping = true) (hidle' : w'.pc.dropping = false)
    (hf : w'.consecutiveFailures = 0)

theorem counts_outer (hcall : callFailed w (.raised e) = false) : Counts w (outerHandler w e) (.raised e) := by
  refine .same hcall rfl (fun h => ?_) (fun _ _ => rfl)
  cases hc : e.caughtBy outerClause <;> simp [outerHandler, hc, Pc.dropping] at h

theorem counts_idle (hcall : callFailed w a = false)
    (hf : (resume w a).consecutiveFailures = w.consecutiveFailures) (hidle : w.pc.dropping = false)
    (hidle' : (resume w a).pc.dropping = false) : Counts w (resume w a) a :=
  .same hcall hf (fun h => absurd (hidle'.symm.trans h) (by simp)) (fun h => absurd (hidle.symm.trans h) (by simp))

theorem counts_step {q : Request} (hq : request settings w.pc = some q) (hadmits : q.admits a = true) :
    Counts w (resume w a) a := by
  cases hpc : w.pc with
  | exited e =>
    rw [hpc] at hq
    cases hq
  | embed config rows =>
    rw [hpc] at hq
    obtain rfl := Option.some.inj hq
    cases a <;> simp [Request.admits] at hadmits
    case raised e =>
      simp only [resume, hpc]
      cases hc : e.caughtBy callClause with
      | false =>
        have hcall : callFailed w (.raised e) = false := by simp [callFailed, hpc, hc]
        have hout : embedFailed w rows e = outerHandler w e := by
          unfold callClause at hc
          simp [embedFailed, hc]
        rw [hout]
        exact counts_outer hcall
      | true =>
        have hcall : callFailed w (.raised e) = true := by simp [callFailed, hpc, hc]
        have hidle : w.pc.dropping = false := by rw [hpc]; rfl
        unfold callClause at hc
        by_cases hfive : 5 ≤ w.consecutiveFailures + 1
        · refine .givenUp hcall hidle (by omega) ?_
          simp only [embedFailed, hc, if_true, hfive]
          exact dropNext_spec _ rows
        · refine .failed hcall hidle (by omega) ?_ ?_ <;> simp [embedFailed, hc, hfive, Pc.dropping]
    case vectors vectors =>
      have hcall : callFailed w (.vectors vectors) = false := by simp [callFailed, hpc]
      simp only [resume, hpc]
      refine .same hcall (by simp) (fun h => ?_) (fun h => by rw [hpc] at h; cases h)
      cases hzip : (rows.map (·.id)).zip vectors <;> simp [hzip, storeNext, Pc.dropping] at h
  | drop id rest =>
    rw [hpc] at hq
    obtain rfl := Option.some.inj hq
    have hdrop : w.pc.dropping = true := by rw [hpc]; rfl
    cases a <;> simp [Request.admits] at hadmits
    case raised e =>
      have hcall : callFailed w (.raised e) = false := by simp [callFailed, hpc]
      simp only [resume, hpc]
      exact counts_outer hcall
    case done =>
      have hcall : callFailed w .done = false := by simp [callFailed, hpc]
      simp only [resume, hpc]
      rcases dropNext_spec w rest with ⟨hdrop', hf⟩ | ⟨hidle', hf⟩
      · exact .same hcall hf (fun _ => hdrop) (fun _ h => by rw [hdrop'] at h; cases h)
      · exact .deleted hcall hdrop hidle' hf
  | store id vector rest =>
    rw [hpc] at hq
    obtain rfl := Option.some.inj hq
    cases a <;> simp [Request.admits] at hadmits
    case raised e =>
      have hcall : callFailed w (.raised e) = false := by simp [callFailed, hpc]
      simp only [resume, hpc]
      exact counts_outer hcall
    case done =>
      have hcall : callFailed w .done = false := by simp [callFailed, hpc]
      simp only [resume, hpc]
      refine .same hcall (by simp) (fun h => ?_) (fun h => by rw [hpc] at h; cases h)
      cases rest <;> simp [storeNext, Pc.dropping] at h
  | backoff =>
    rw [hpc] at hq
    obtain rfl := Option.some.inj hq
    cases a <;> simp [Request.admits] at hadmits
    all_goals
      exact counts_idle (by simp [callFailed, hpc]) (by simp [resume, hpc]) (by simp [hpc, Pc.dropping])
        (by simp [resume, hpc, Pc.dropping])
  | loadConfig =>
    rw [hpc] at hq
    obtain rfl := Option.some.inj hq
    cases a <;> simp [Request.admits] at hadmits
    case raised e =>
      simp only [resume, hpc]
      exact counts_outer (by simp [callFailed, hpc])
    case config config =>
      cases hlog : config.logEmbeddings <;>
        exact counts_idle (by simp [callFailed, hpc]) (by simp [resume, hlog]) (by simp [hpc, Pc.dropping])
          (by simp [resume, hlog, Pc.dropping])
  | countPending config =>
    rw [hpc] at hq
    obtain rfl := Option.some.inj hq
    cases a <;> simp [Request.admits] at hadmits
    case raised e =>
      simp only [resume, hpc]
      exact counts_outer (by simp [callFailed, hpc])
    case count n =>
      by_cases hn : n = 0 <;>
        exact counts_idle (by simp [callFailed, hpc]) (by simp [resume, hpc])
          (by simp [hpc, Pc.dropping]) (by simp [resume, hpc, hn, Pc.dropping])
  | fetch config =>
    rw [hpc] at hq
    obtain rfl := Option.some.inj hq
    cases a <;> simp [Request.admits] at hadmits
    case raised e =>
      simp only [resume, hpc]
      exact counts_outer (by simp [callFailed, hpc])
    case rows rows =>
      by_cases hrows : rows = [] <;>
        exact counts_idle (by simp [callFailed, hpc]) (by simp [resume, hpc])
          (by simp [hpc, Pc.dropping]) (by simp [resume, hpc, hrows, Pc.dropping])
  | disabled | getPool | poll | client =>
    rw [hpc] at hq
    obtain rfl := Option.some.inj hq
    cases a <;> simp [Request.admits] at hadmits
    case raised e =>
      simp only [resume, hpc]
      exact counts_outer (by simp [callFailed, hpc])
    case done =>
      exact counts_idle (by simp [callFailed, hpc]) (by simp [resume, hpc]) (by simp [hpc, Pc.dropping])
        (by simp [resume, hpc, Pc.dropping])

/-- A deletion is under way from the fifth failure on; what was counted before it. -/
structure Inv (s : Logged) : Prop where
  dropping : s.worker.pc.dropping = true → 5 ≤ s.worker.consecutiveFailures
  few : s.worker.consecutiveFailures < 5 → s.failed ≤ 5 * s.givenUp + s.worker.consecutiveFailures
  many : 5 ≤ s.worker.consecutiveFailures → s.failed ≤ 5 * s.givenUp

/-- The same where no deletion fails. -/
structure Exact (s : Logged) : Prop where
  dropping : s.worker.pc.dropping = true → s.worker.consecutiveFailures = 5 ∧ s.failed = 5 * s.givenUp
  idle : s.worker.pc.dropping = false → s.worker.consecutiveFailures < 5 ∧
    s.failed = 5 * s.givenUp + s.worker.consecutiveFailures

theorem logged_step (h : Logged.step settings s a = some s') :
    s' = s.note a ∧ Counts s.worker (resume s.worker a) a := by
  obtain ⟨q, hq, hadmits, rfl⟩ := answered_eq_some.mp h
  exact ⟨rfl, counts_step hq hadmits⟩

theorem inv_step (hI : Inv s) (h : Logged.step settings s a = some s') : Inv s' := by
  obtain ⟨rfl, hcounts⟩ := logged_step h
  obtain ⟨hdrop, hfew, hmany⟩ := hI
  cases hcounts with
  | same hcall hf hstart =>
    refine ⟨fun hd => ?_, ?_, ?_⟩ <;> simp only [Logged.note, hcall, hf, Bool.toNat_false, Bool.false_and, Nat.add_zero]
    · exact hdrop (hstart hd)
    · exact hfew
    · exact hmany
  | failed hcall hidle hlt hf hidle' =>
    have hnot : decide (5 ≤ s.worker.consecutiveFailures + 1) = false := decide_eq_false (by omega)
    refine ⟨fun hd => ?_, ?_, ?_⟩ <;>
      simp only [Logged.note, hcall, hf, hnot, Bool.toNat_true, Bool.and_false, Bool.toNat_false]
    · exact absurd (hidle'.symm.trans hd) (by simp)
    · omega
    · omega
  | givenUp hcall hidle hge hlater =>
    have hyes : decide (5 ≤ s.worker.consecutiveFailures + 1) = true := decide_eq_true (by omega)
    refine ⟨fun hd => ?_, ?_, ?_⟩ <;> simp only [Logged.note, hcall, hyes, Bool.toNat_true, Bool.and_true]
    · rcases hlater with ⟨_, hf⟩ | ⟨hidle', _⟩
      · omega
      · exact absurd (hidle'.symm.trans hd) (by simp)
    · rcases hlater with ⟨_, hf⟩ | ⟨_, hf⟩ <;> omega
    · rcases hlater with ⟨_, hf⟩ | ⟨_, hf⟩ <;> omega
  | deleted hcall hd hidle' hf =>
    have hfive := hdrop hd
    refine ⟨fun hd' => ?_, ?_, ?_⟩ <;> simp only [Logged.note, hcall, hf, Bool.toNat_false, Bool.false_and]
    · exact absurd (hidle'.symm.trans hd') (by simp)
    · omega
    · omega

theorem exact_step (hE : Exact s) (ha : s.worker.pc.dropping = true → a.raises = none)
    (h : Logged.step settings s a = some s') : Exact s' := by
  obtain ⟨rfl, hcounts⟩ := logged_step h
  obtain ⟨hdrop, hidle₀⟩ := hE
  cases hcounts with
  | same hcall hf hstart hend =>
    refine ⟨fun hd => ?_, fun hd => ?_⟩ <;>
      simp only [Logged.note, hcall, hf, Bool.toNat_false, Bool.false_and, Nat.add_zero]
    · exact hdrop (hstart hd)
    · cases hd₀ : s.worker.pc.dropping with
      | false => exact hidle₀ hd₀
      | true => exact absurd (hend hd₀ hd) (by simp [ha hd₀])
  | failed hcall hidle hlt hf hidle' =>
    have hbefore := hidle₀ hidle
    have hnot : decide (5 ≤ s.worker.consecutiveFailures + 1) = false := decide_eq_false (by omega)
    refine ⟨fun hd => ?_, fun _ => ?_⟩
    · exact absurd (hidle'.symm.trans hd) (by simp)
    · simp only [Logged.note, hcall, hf, hnot, Bool.toNat_true, Bool.and_false, Bool.toNat_false]
      omega
  | givenUp hcall hidle hge hlater =>
    have hbefore := hidle₀ hidle
    have hyes : decide (5 ≤ s.worker.consecutiveFailures + 1) = true := decide_eq_true (by omega)
    refine ⟨fun hd => ?_, fun hd => ?_⟩ <;>
      simp only [Logged.note, hcall, hyes, Bool.toNat_true, Bool.and_true] at hd ⊢
    · rcases hlater with ⟨_, hf⟩ | ⟨hidle', _⟩
      · omega
      · exact absurd (hidle'.symm.trans hd) (by simp)
    · rcases hlater with ⟨hd', _⟩ | ⟨_, hf⟩
      · exact absurd (hd.symm.trans hd') (by simp)
      · omega
  | deleted hcall hd hidle' hf =>
    have hbefore := hdrop hd
    refine ⟨fun hd' => ?_, fun _ => ?_⟩
    · exact absurd (hidle'.symm.trans hd') (by simp)
    · simp only [Logged.note, hcall, hf, Bool.toNat_false, Bool.false_and]
      omega

/-- **Every fifth failed call** gives its batch up, in every run and whatever succeeds
in between; not more than that, if no `DELETE` raises. -/
theorem givenUp_every_fifth (h : exec (Logged.step settings) {} as = some s) :
    s.failed / 5 ≤ s.givenUp ∧
      ((∀ t a t', Takes (Logged.step settings) {} as t a t' → t.worker.pc.dropping = true → a.raises = none) →
        s.givenUp = s.failed / 5) := by
  constructor
  · have hI : Inv s := exec_inv (C := fun _ _ => True) (fun _ _ _ hI _ hs => inv_step hI hs) h
      (fun _ _ _ _ => trivial) ⟨nofun, fun _ => Nat.le_refl _, fun _ => Nat.le_refl _⟩
    rcases Nat.lt_or_ge s.worker.consecutiveFailures 5 with hlt | hge
    · have hfew := hI.few hlt
      omega
    · have hmany := hI.many hge
      omega
  · intro hclean
    have hE : Exact s := exec_inv (C := fun t a => t.worker.pc.dropping = true → a.raises = none)
      (fun _ _ _ hE hc hs => exact_step hE hc hs) h hclean ⟨nofun, fun _ => ⟨by decide, rfl⟩⟩
    cases hd : s.worker.pc.dropping with
    | true =>
      have hdrop := hE.dropping hd
      omega
    | false =>
      have hidle := hE.idle hd
      omega

/-- A call that fails, then one that succeeds. -/
def failThenStore : List Answer :=
  [.config { logEmbeddings := some {} }, .done, .count 1, .rows [⟨1, ['x']⟩], .done, .raised .valueError, .done,
    .config { logEmbeddings := some {} }, .done, .count 1, .rows [⟨1, ['x']⟩], .done, .vectors [⟨3, none⟩], .done]

/-- The fifth such failure deletes its batch. -/
def fiveApart : List Answer :=
  (List.replicate 4 failThenStore).flatten ++
    [.config { logEmbeddings := some {} }, .done, .count 1, .rows [⟨2, ['y']⟩], .done, .raised .valueError]

theorem givenUp_every_fifth_apart : ∃ s, exec (Logged.step {}) {} fiveApart = some s ∧
    s.worker.pc = .drop 2 [] ∧ s.failed = 5 ∧ s.givenUp = s.failed / 5 := by
  obtain ⟨s, hs⟩ := Option.isSome_iff_exists.mp
    (show (exec (Logged.step {}) {} fiveApart).isSome = true by decide)
  have hend : (exec (Logged.step {}) {} fiveApart).map (fun s => (s.worker.pc, s.failed)) = some (.drop 2 [], 5) := by
    decide
  simp only [hs, Option.map_some, Option.some.injEq, Prod.mk.injEq] at hend
  refine ⟨s, hs, hend.1, hend.2, (givenUp_every_fifth hs).2 fun t a t' htakes hdrop => ?_⟩
  have hcheck : (exec (fun (s : Logged) a =>
      if !s.worker.pc.dropping || a.raises.isNone then Logged.step {} s a else none) {} fiveApart).isSome = true := by
    decide
  have hnow := check_of_takes (fun (s : Logged) (a : Answer) => !s.worker.pc.dropping || a.raises.isNone) hcheck htakes
  simpa [hdrop] using hnow

end

end ContextBroker.Workers.LogEmbeddingWorker
