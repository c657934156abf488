import ContextBroker.Core.LTS
import ContextBroker.L6Workers.EmbeddingWorker

/-!
# The poison-pill rule of the embedding worker

A failed embedding call that brings `consecutive_failures` to five gives its
batch up: each message gets the zero vector. The counter counts every
exception of a round, and a batch is fetched anew for each call.

`Logged` keeps, next to the worker, the embedding calls made so far, newest
first, and what they were when a message got the zero vector.

* `zero_after_five`: while only embedding calls raise the counter and no
  fetch adds a message to the batch that failed last (`Steady`), a message
  with the zero vector was in five failed calls in a row.
* `unsteady_exploited`: after any other step the worker can give a message
  the zero vector that was not.
-/
namespace ContextBroker.Workers.EmbeddingWorker

open LTS

/-- An embedding call, for the messages `ids`. -/
structure Attempt where
  ids : List Id
  failed : Bool
  deriving DecidableEq, Repr

structure Logged where
  worker : Worker := {}
  attempts : List Attempt := []
  /-- Messages with the zero vector, and the calls made by then. -/
  zeroed : List (Id × List Attempt) := []
  deriving DecidableEq, Repr

namespace Logged

def note (s : Logged) (a : Answer) : Logged where
  worker := resume s.worker a
  attempts :=
    match s.worker.pc with
    | .embed _ rows => ⟨rows.map (·.id), a.raises.isSome⟩ :: s.attempts
    | _ => s.attempts
  zeroed :=
    match s.worker.pc, a with
    | .poison _ id _, .done => (id, s.attempts) :: s.zeroed
    | _, _ => s.zeroed

def step (settings : Settings) (s : Logged) (a : Answer) : Option Logged :=
  answered (request settings s.worker.pc) a (s.note a)

/-- The messages of the newest call. -/
def newest (s : Logged) : List Id := (s.attempts.head?.map (·.ids)).getD []

end Logged

/-- The five newest calls failed, and `id` was in all of them. -/
def FiveFailed (id : Id) (attempts : List Attempt) : Prop :=
  5 ≤ attempts.length ∧ ∀ x ∈ attempts.take 5, x.failed = true ∧ id ∈ x.ids

instance (id : Id) (attempts : List Attempt) : Decidable (FiveFailed id attempts) :=
  inferInstanceAs (Decidable (_ ∧ _))

/-- Only poison got the zero vector. -/
def Logged.OnlyPoison (s : Logged) : Prop := ∀ z ∈ s.zeroed, FiveFailed z.1 z.2

/-- The outer handler counts an exception that no embedding call raised. -/
def countsElsewhere (pc : Pc) (e : Exn) : Bool :=
  match pc with
  | .embed _ _ | .backoff => false
  | .indexExists _ | .alterType _ | .createIndex => !e.caughtBy [.postgresError, .osError] && e.caughtBy outerClause
  | _ => e.caughtBy outerClause

/-- Only embedding calls are counted, and as long as failures are pending a
fetch brings nothing that was not in the batch before. -/
structure Steady (s : Logged) (a : Answer) : Prop where
  counted : ∀ e, a = .raised e → countsElsewhere s.worker.pc e = false
  fetched : ∀ config rows, s.worker.pc = .fetch config → a = .rows rows → s.worker.consecutiveFailures ≠ 0 →
    rows.map (·.id) ⊆ s.newest

/-! ## The invariant -/

/-- The `n` newest calls failed, and `ids` were in all of them. -/
def Tracked (n : Nat) (attempts : List Attempt) (ids : List Id) : Prop :=
  n ≤ attempts.length ∧ ∀ x ∈ attempts.take n, x.failed = true ∧ ids ⊆ x.ids

section

variable {n m : Nat} {attempts : List Attempt} {ids ids' : List Id}

theorem Tracked.zero : Tracked 0 attempts ids :=
  ⟨Nat.zero_le _, fun _ hx => nomatch (List.take_zero ▸ hx)⟩

theorem Tracked.mono (h : Tracked n attempts ids) (hm : m ≤ n) (hsub : ids' ⊆ ids) : Tracked m attempts ids' := by
  refine ⟨Nat.le_trans hm h.1, fun x hx => ?_⟩
  have hx' : x ∈ attempts.take n := (List.take_subset_take_left attempts hm) hx
  exact ⟨(h.2 x hx').1, List.Subset.trans hsub (h.2 x hx').2⟩

/-- One more failed call for the messages tracked. -/
theorem Tracked.cons (h : Tracked n attempts ids) : Tracked (n + 1) (⟨ids, true⟩ :: attempts) ids := by
  refine ⟨Nat.succ_le_succ h.1, fun x hx => ?_⟩
  rcases List.mem_cons.mp (List.take_succ_cons ▸ hx) with rfl | hx
  · exact ⟨rfl, List.Subset.refl _⟩
  · exact h.2 x hx

theorem Tracked.five {id : Id} (h : Tracked n attempts ids) (hn : 5 ≤ n) (hid : id ∈ ids) : FiveFailed id attempts := by
  obtain ⟨hlen, hall⟩ := h.mono hn (List.Subset.refl ids)
  exact ⟨hlen, fun x hx => ⟨(hall x hx).1, (hall x hx).2 hid⟩⟩

end

/-- What the counter says about the calls, at each point of the round. While
vectors are stored it says nothing. -/
def Counts (s : Logged) : Prop :=
  match s.worker.pc with
  | .store _ _ _ _ | .exited _ => True
  | .client _ rows | .embed _ rows => Tracked s.worker.consecutiveFailures s.attempts (rows.map (·.id))
  | .poison _ id rest =>
    5 ≤ s.worker.consecutiveFailures ∧ Tracked s.worker.consecutiveFailures s.attempts (id :: rest.map (·.id))
  | _ => Tracked s.worker.consecutiveFailures s.attempts s.newest

section

variable {settings : Settings} {s s' : Logged} {w : Worker} {a : Answer} {e : Exn}

theorem counts_exited (h : s.worker.pc = .exited e) : Counts s := by
  simp only [Counts, h]

/-- Where no batch is in hand. -/
def Pc.Between : Pc → Prop
  | .loadConfig | .getPool _ | .countPending _ | .poll | .fetch _ | .retry | .indexExists _ | .alterType _
  | .createIndex | .backoff => True
  | _ => False

theorem counts_between (h : s.worker.pc.Between) :
    Counts s ↔ Tracked s.worker.consecutiveFailures s.attempts s.newest := by
  unfold Counts
  cases hpc : s.worker.pc <;> simp_all [Pc.Between]

/-- On with the same counter and calls. -/
theorem Counts.between (h : Counts s) (hs : s.worker.pc.Between) (hs' : s'.worker.pc.Between)
    (hcount : s'.worker.consecutiveFailures = s.worker.consecutiveFailures) (hattempts : s'.attempts = s.attempts) :
    Counts s' := by
  rw [counts_between hs']
  rw [counts_between hs] at h
  rw [hcount, hattempts, Logged.newest, hattempts]
  exact h

/-- Without pending failures there is nothing to show. -/
theorem counts_zero (hs' : s'.worker.pc.Between) (hcount : s'.worker.consecutiveFailures = 0) : Counts s' := by
  rw [counts_between hs', hcount]
  exact .zero

/-- An exception that is not counted ends the worker. -/
theorem outerHandler_uncaught {w : Worker} (h : e.caughtBy outerClause = false) : (outerHandler w e).pc = .exited e := by
  simp [outerHandler, h]

/-- The rest of a batch that is given up. -/
theorem counts_poisonNext {zero : Embedding} {rows : List Job} (hw : s.worker = poisonNext w zero rows)
    (hfive : 5 ≤ w.consecutiveFailures) (h : Tracked w.consecutiveFailures s.attempts (rows.map (·.id))) :
    Counts s := by
  cases rows with
  | nil =>
    rw [poisonNext] at hw
    exact counts_zero (by rw [hw]; trivial) (by rw [hw])
  | cons row rest =>
    rw [poisonNext] at hw
    unfold Counts
    rw [hw]
    exact ⟨hfive, h⟩

/-- The vectors that are still to be stored. -/
theorem counts_storeNext {vectors : List Embedding} {pairs : List (Id × Embedding)}
    (hw : s.worker = storeNext w vectors pairs) : Counts s := by
  cases pairs with
  | nil =>
    cases vectors with
    | nil => exact counts_zero (by rw [hw]; trivial) (by rw [hw]; rfl)
    | cons v vs => exact counts_zero (by rw [hw]; trivial) (by rw [hw]; rfl)
  | cons pair rest =>
    unfold Counts
    rw [hw]
    trivial

/-- **A failed embedding call** is one more for its batch. -/
theorem counts_embedFailed {config : WorkerConfig} {rows : List Job} (hpc : s.worker.pc = .embed config rows)
    (h : Counts s) : Counts (s.note (.raised e)) := by
  have htracked : Tracked s.worker.consecutiveFailures s.attempts (rows.map (·.id)) := by
    simpa only [Counts, hpc] using h
  have hattempts : (s.note (.raised e)).attempts = ⟨rows.map (·.id), true⟩ :: s.attempts := by
    simp [Logged.note, hpc, Answer.raises]
  have hworker : (s.note (.raised e)).worker = embedFailed s.worker config rows e := by
    simp [Logged.note, resume, hpc]
  have hmore : Tracked (s.worker.consecutiveFailures + 1) (s.note (.raised e)).attempts (rows.map (·.id)) :=
    hattempts ▸ htracked.cons
  have hnewest : (s.note (.raised e)).newest = rows.map (·.id) := by
    rw [Logged.newest, hattempts]
    rfl
  have hbetween : (s.note (.raised e)).worker.pc.Between →
      (s.note (.raised e)).worker.consecutiveFailures = s.worker.consecutiveFailures + 1 →
      Counts (s.note (.raised e)) := by
    intro hb hcount
    rw [counts_between hb, hcount, hnewest]
    exact hmore
  unfold embedFailed at hworker
  dsimp only at hworker
  split at hworker
  · exact hbetween (by rw [hworker]; trivial) (by rw [hworker])
  · split at hworker
    · split at hworker
      · rename_i hfive
        exact counts_poisonNext hworker hfive hmore
      · exact hbetween (by rw [hworker]; trivial) (by rw [hworker])
    · cases hc : e.caughtBy outerClause with
      | true =>
        rw [outerHandler, if_pos hc] at hworker
        refine hbetween ?_ (by rw [hworker])
        rw [hworker]
        dsimp only
        split <;> trivial
      | false => exact counts_exited (e := e) (by rw [hworker]; exact outerHandler_uncaught hc)

/-- **An exception** in a steady step. -/
theorem counts_raised (h : Counts s) (hst : Steady s (.raised e)) : Counts (s.note (.raised e)) := by
  have hcounted := hst.counted e rfl
  have hexit : ∀ pc, s.worker.pc = pc → (s.note (.raised e)).worker = outerHandler s.worker e →
      e.caughtBy outerClause = false → Counts (s.note (.raised e)) := by
    intro pc _ hw hc
    exact counts_exited (e := e) (by rw [hw]; exact outerHandler_uncaught hc)
  cases hpc : s.worker.pc with
  | embed config rows => exact counts_embedFailed hpc h
  | backoff => exact counts_exited (e := e) (by simp [Logged.note, resume, hpc])
  | indexExists | alterType | createIndex =>
    have hworker : (s.note (.raised e)).worker = indexFailed s.worker e := by simp [Logged.note, resume, hpc]
    rw [hpc] at hcounted
    cases hinner : e.caughtBy [.postgresError, .osError] with
    | true =>
      rw [indexFailed, if_pos hinner] at hworker
      exact h.between (by rw [hpc]; trivial) (by rw [hworker]; trivial) (by rw [hworker])
        (by simp [Logged.note, hpc])
    | false =>
      rw [indexFailed, hinner, if_neg Bool.false_ne_true] at hworker
      exact hexit _ hpc hworker (by simpa [countsElsewhere, hinner] using hcounted)
  | loadConfig | getPool | countPending | poll | fetch | client | retry | poison | store | exited =>
    rw [hpc] at hcounted
    exact hexit _ hpc (by simp [Logged.note, resume, hpc]) hcounted

/-- The batch of a steady fetch: while failures are pending it was in all of
their calls. -/
theorem counts_fetched {config : WorkerConfig} {rows : List Job} (h : Counts s) (hst : Steady s (.rows rows))
    (hpc : s.worker.pc = .fetch config) : Counts (s.note (.rows rows)) := by
  by_cases hnil : rows = []
  · refine h.between (by rw [hpc]; trivial) (by simp [Logged.note, resume, hpc, hnil, Pc.Between])
      (by simp [Logged.note, resume, hpc]) (by simp [Logged.note, hpc])
  · have htracked := (counts_between (by rw [hpc]; trivial)).mp h
    have hrows : Tracked s.worker.consecutiveFailures s.attempts (rows.map (·.id)) := by
      by_cases hzero : s.worker.consecutiveFailures = 0
      · rw [hzero]
        exact .zero
      · exact htracked.mono (Nat.le_refl _) (hst.fetched config rows hpc rfl hzero)
    simpa [Counts, Logged.note, resume, hpc, hnil] using hrows

/-- **A result** in a steady step. -/
theorem counts_result (h : Counts s) (hst : Steady s a) (hs : s.step settings a = some s') (ha : a.raises = none) :
    Counts s' := by
  obtain ⟨q, hq, hadmits, rfl⟩ := answered_eq_some.mp hs
  have hresult := Request.result_of_admits hadmits ha
  have hon : s.worker.pc.Between → (s.note a).worker.pc.Between →
      (s.note a).worker.consecutiveFailures = s.worker.consecutiveFailures → (s.note a).attempts = s.attempts →
      Counts (s.note a) := fun hb hb' hcount hattempts => h.between hb hb' hcount hattempts
  cases hpc : s.worker.pc <;> rw [hpc] at hq <;> cases hq
  case countPending config =>
    obtain ⟨n, rfl⟩ := hresult
    refine hon (by rw [hpc]; trivial) ?_ (by simp [Logged.note, resume, hpc]) (by simp [Logged.note, hpc])
    simp only [Logged.note, resume, hpc]
    split <;> trivial
  case fetch config =>
    obtain ⟨rows, rfl, _⟩ := hresult
    exact counts_fetched h hst hpc
  case client config rows =>
    obtain rfl := hresult
    simpa [Counts, Logged.note, resume, hpc] using h
  case embed config rows =>
    obtain ⟨vectors, rfl⟩ := hresult
    have hw : (s.note (.vectors vectors)).worker = storeNext s.worker vectors ((rows.map (·.id)).zip vectors) := by
      simp [Logged.note, resume, hpc]
    exact counts_storeNext hw
  case poison zero id rest =>
    obtain rfl := hresult
    obtain ⟨hfive, htracked⟩ : 5 ≤ s.worker.consecutiveFailures ∧
        Tracked s.worker.consecutiveFailures s.attempts (id :: rest.map (·.id)) := by simpa [Counts, hpc] using h
    have hw : (s.note .done).worker = poisonNext s.worker zero rest := by simp [Logged.note, resume, hpc]
    refine counts_poisonNext hw hfive ?_
    simpa [Logged.note, hpc] using htracked.mono (Nat.le_refl _) (List.subset_cons_self _ _)
  case store id vector rest vectors =>
    obtain rfl := hresult
    have hw : (s.note .done).worker = storeNext s.worker vectors rest := by simp [Logged.note, resume, hpc]
    exact counts_storeNext hw
  case loadConfig =>
    obtain ⟨config, rfl⟩ := hresult
    exact hon (by rw [hpc]; trivial) (by simp [Logged.note, resume, Pc.Between]) (by simp [Logged.note, resume])
      (by simp [Logged.note, hpc])
  case indexExists dim =>
    obtain ⟨b, rfl⟩ := hresult
    refine hon (by rw [hpc]; trivial) ?_ (by simp [Logged.note, resume, hpc]) (by simp [Logged.note, hpc])
    simp only [Logged.note, resume, hpc]
    split <;> trivial
  all_goals
    obtain rfl := hresult
    exact hon (by rw [hpc]; trivial) (by simp [Logged.note, resume, hpc, Pc.Between])
      (by simp [Logged.note, resume, hpc]) (by simp [Logged.note, hpc])

theorem counts_step (h : Counts s) (hst : Steady s a) (hs : s.step settings a = some s') : Counts s' := by
  cases ha : a.raises with
  | none => exact counts_result h hst hs ha
  | some e =>
    obtain rfl : a = .raised e := by cases a <;> cases ha; rfl
    obtain ⟨_, _, _, rfl⟩ := answered_eq_some.mp hs
    exact counts_raised h hst

/-- A zero vector is written only to a message of a batch given up. -/
theorem onlyPoison_step (hP : s.OnlyPoison) (h : Counts s) (hs : s.step settings a = some s') : s'.OnlyPoison := by
  obtain ⟨_, _, _, rfl⟩ := answered_eq_some.mp hs
  intro z hz
  cases hpc : s.worker.pc with
  | poison zero id rest =>
    obtain ⟨hfive, htracked⟩ : 5 ≤ s.worker.consecutiveFailures ∧
        Tracked s.worker.consecutiveFailures s.attempts (id :: rest.map (·.id)) := by simpa [Counts, hpc] using h
    cases a with
    | done =>
      simp only [Logged.note, hpc, List.mem_cons] at hz
      rcases hz with rfl | hz
      · exact htracked.five hfive List.mem_cons_self
      · exact hP z hz
    | _ => exact hP z (by simpa [Logged.note, hpc] using hz)
  | _ => exact hP z (by simpa [Logged.note, hpc] using hz)

end

/-- **The rule in a run** whose steps are all steady: whoever has the zero
vector was in five failed embedding calls in a row. -/
theorem zero_after_five (settings : Settings) (as : List Answer) (s : Logged)
    (h : exec (Logged.step settings) {} as = some s)
    (hsteady : ∀ t a t', Takes (Logged.step settings) {} as t a t' → Steady t a) : s.OnlyPoison := by
  have hinv : s.OnlyPoison ∧ Counts s := by
    refine exec_inv (I := fun s => s.OnlyPoison ∧ Counts s) (C := Steady) (fun s a s' hI hst hs => ?_) h hsteady ?_
    · exact ⟨onlyPoison_step hI.1 hI.2 hs, counts_step hI.2 hst hs⟩
    · exact ⟨fun z hz => (nomatch hz), .zero⟩
  exact hinv.1

def steadyNow (s : Logged) (a : Answer) : Bool :=
  match s.worker.pc, a with
  | pc, .raised e => !countsElsewhere pc e
  | .fetch _, .rows rows => s.worker.consecutiveFailures == 0 || rows.all fun r => s.newest.contains r.id
  | _, _ => true

theorem steady_of_now {s : Logged} {a : Answer} (h : steadyNow s a = true) : Steady s a := by
  refine ⟨fun e ha => ?_, fun config rows hpc ha hc n hn => ?_⟩
  · subst ha
    simpa [steadyNow] using h
  · subst ha
    obtain ⟨r, hr, rfl⟩ := List.mem_map.mp hn
    simp only [steadyNow, hpc, Bool.or_eq_true, beq_iff_eq, List.all_eq_true] at h
    exact List.contains_iff_mem.mp (h.resolve_left hc r hr)

/-- One message, five embedding calls that raise. -/
def poisonRun : List Answer :=
  (List.replicate 5 [.config {}, .done, .count 1, .rows [⟨1, ['x']⟩], .done, .raised .valueError, .done]).flatten

theorem zero_after_five_poisonRun :
    ∃ s, exec (Logged.step {}) {} poisonRun = some s ∧ s.zeroed.map Prod.fst = [1] ∧ s.OnlyPoison := by
  obtain ⟨s, hs⟩ : ∃ s, exec (Logged.step {}) {} poisonRun = some s := Option.isSome_iff_exists.mp (by decide)
  have hzeroed : (exec (Logged.step {}) {} poisonRun).map (fun s => s.zeroed.map Prod.fst) = some [1] := by decide
  rw [hs] at hzeroed
  refine ⟨s, hs, Option.some.inj hzeroed, zero_after_five {} poisonRun s hs fun t a t' h => ?_⟩
  exact steady_of_now (check_of_takes steadyNow (by decide) h)

/-- The database is away four times; the first embedding call that fails then
gives its message up. -/
theorem zero_after_one :
    ¬ ∀ (settings : Settings) (as : List Answer) (s : Logged), exec (Logged.step settings) {} as = some s →
      s.OnlyPoison := by
  intro h
  let away : List Answer := [.raised .postgresError, .raised .postgresError, .raised .postgresError, .done,
    .raised .postgresError, .done]
  let failed : List Answer := [.config {}, .done, .count 1, .rows [⟨1, ['x']⟩], .done, .raised .valueError, .done]
  have hrun : exec (Logged.step {}) {} (away ++ failed) =
      some ⟨⟨.loadConfig, 0⟩, [⟨[1], true⟩], [(1, [⟨[1], true⟩])]⟩ := by decide
  have hfive : ¬FiveFailed 1 [⟨[1], true⟩] := by decide
  exact hfive (h {} (away ++ failed) _ hrun (1, [⟨[1], true⟩]) List.mem_cons_self)

/-! ## Any other step -/

/-- A round whose embedding call fails on the message `n` alone. -/
def failingRound (n : Id) : List Answer :=
  [.config {}, .done, .count 1, .rows [⟨n, []⟩], .done, .raised .valueError, .done]

section

variable {settings : Settings} {s t : Logged} {n : Id} {e : Exn} {attempts earlier : List Attempt}

/-- The call before the ones of `attempts` was not for `n`. -/
theorem not_fiveFailed (hfew : attempts.length ≤ 4)
    (hn : n ∉ (earlier.head?.map (·.ids)).getD []) : ¬FiveFailed n (attempts ++ earlier) := by
  intro ⟨hlen, hall⟩
  cases earlier with
  | nil =>
    simp only [List.append_nil] at hlen
    omega
  | cons x earlier =>
    refine hn (hall x ?_).2
    rw [List.take_append, List.mem_append]
    right
    obtain ⟨k, hk⟩ : ∃ k, 5 - attempts.length = k + 1 := ⟨4 - attempts.length, by omega⟩
    rw [hk, List.take_succ_cons]
    exact List.mem_cons_self

theorem failingRound_counts (hb : 1 ≤ settings.batchSize) (ht : t.worker.pc = .loadConfig)
    (hc : t.worker.consecutiveFailures < 4) :
    exec (Logged.step settings) t (failingRound n) =
      some ⟨⟨.loadConfig, t.worker.consecutiveFailures + 1⟩, ⟨[n], true⟩ :: t.attempts, t.zeroed⟩ := by
  obtain ⟨⟨pc, c⟩, attempts, zeroed⟩ := t
  obtain rfl : pc = .loadConfig := ht
  have hlimit : 1 ≤ settings.batchSize.toNat := by omega
  have hfive : ¬4 ≤ c := Nat.not_le.mpr hc
  simp [failingRound, exec, Logged.step, answered, request, Request.admits, Logged.note, resume, hlimit, embedFailed,
    Exn.caughtBy, Exn.isA, hfive, Answer.raises]

theorem failingRound_zeroes (hb : 1 ≤ settings.batchSize) (ht : t.worker.pc = .loadConfig)
    (hc : 4 ≤ t.worker.consecutiveFailures) :
    exec (Logged.step settings) t (failingRound n) =
      some ⟨⟨.loadConfig, 0⟩, ⟨[n], true⟩ :: t.attempts, (n, ⟨[n], true⟩ :: t.attempts) :: t.zeroed⟩ := by
  obtain ⟨⟨pc, c⟩, attempts, zeroed⟩ := t
  obtain rfl : pc = .loadConfig := ht
  have hlimit : 1 ≤ settings.batchSize.toNat := by omega
  have hfive : 4 ≤ c := hc
  simp [failingRound, exec, Logged.step, answered, request, Request.admits, Logged.note, resume, hlimit, embedFailed,
    Exn.caughtBy, Exn.isA, hfive, Answer.raises, poisonNext]

/-- With `k` failures to go, `n` is given up after as many calls, or one. -/
theorem zeroes_alone (hb : 1 ≤ settings.batchSize) (n : Id) (k : Nat) (t : Logged) (ht : t.worker.pc = .loadConfig)
    (hk : 5 ≤ t.worker.consecutiveFailures + (k + 1)) :
    ∃ ls u j, exec (Logged.step settings) t ls = some u ∧ j ≤ k + 1 ∧
      (n, List.replicate j ⟨[n], true⟩ ++ t.attempts) ∈ u.zeroed := by
  induction k generalizing t with
  | zero =>
    exact ⟨_, _, 1, failingRound_zeroes (n := n) hb ht (by omega), Nat.le_refl _, List.mem_cons_self⟩
  | succ k ih =>
    by_cases hc : 4 ≤ t.worker.consecutiveFailures
    · exact ⟨_, _, 1, failingRound_zeroes (n := n) hb ht hc, by omega, List.mem_cons_self⟩
    · have hround := failingRound_counts (n := n) hb ht (by omega)
      obtain ⟨ls, u, j, hexec, hj, hmem⟩ :=
        ih ⟨⟨.loadConfig, t.worker.consecutiveFailures + 1⟩, ⟨[n], true⟩ :: t.attempts, t.zeroed⟩ rfl
          (by simp only; omega)
      refine ⟨failingRound n ++ ls, u, j + 1, ?_, by omega, ?_⟩
      · rw [exec_append, hround]
        exact hexec
      · rw [List.replicate_succ', List.append_assoc]
        exact hmem

/-- Giving up a batch writes to each of its messages. -/
theorem zeroes_batch {w : Worker} {zero : Embedding} {rows : List Job} (hw : t.worker = poisonNext w zero rows)
    (hn : n ∈ rows.map (·.id)) :
    ∃ ls u, exec (Logged.step settings) t ls = some u ∧ (n, t.attempts) ∈ u.zeroed := by
  induction rows generalizing t with
  | nil => cases hn
  | cons row rest ih =>
    obtain ⟨worker, attempts, zeroed⟩ := t
    obtain rfl : worker = poisonNext w zero (row :: rest) := hw
    have hone : Logged.step settings ⟨poisonNext w zero (row :: rest), attempts, zeroed⟩ .done =
        some ⟨poisonNext { w with pc := .poison zero row.id rest } zero rest, attempts, (row.id, attempts) :: zeroed⟩ := by
      simp [Logged.step, answered, request, Request.admits, Logged.note, resume, poisonNext]
    rcases List.mem_cons.mp hn with rfl | hrest
    · refine ⟨[.done], ⟨poisonNext { w with pc := .poison zero row.id rest } zero rest, attempts,
        (row.id, attempts) :: zeroed⟩, ?_, List.mem_cons_self⟩
      simp only [exec, hone, Option.bind_some]
    · have hsame : poisonNext { w with pc := .poison zero row.id rest } zero rest = poisonNext w zero rest := by
        cases rest <;> rfl
      obtain ⟨ls, u, hexec, hmem⟩ := ih (t := ⟨poisonNext w zero rest, attempts, (row.id, attempts) :: zeroed⟩) rfl hrest
      refine ⟨.done :: ls, u, ?_, hmem⟩
      simp only [exec, hone, hsame]
      exact hexec

/-- With a failure pending, a message that was not in the call before can be given up. -/
theorem exploit_pending (hb : 1 ≤ settings.batchSize) (ht : t.worker.pc = .loadConfig)
    (hc : 1 ≤ t.worker.consecutiveFailures) (hn : n ∉ t.newest) :
    ∃ ls u, exec (Logged.step settings) t ls = some u ∧ ¬u.OnlyPoison := by
  obtain ⟨ls, u, j, hexec, hj, hmem⟩ := zeroes_alone hb n 3 t ht (by omega)
  refine ⟨ls, u, hexec, fun hall => not_fiveFailed ?_ hn (hall _ hmem)⟩
  rw [List.length_replicate]
  omega

/-- After an exception that was counted elsewhere. -/
theorem exploit_counted (hb : 1 ≤ settings.batchSize) (h : countsElsewhere s.worker.pc e = true) :
    ∃ ls u, exec (Logged.step settings) (s.note (.raised e)) ls = some u ∧ ¬u.OnlyPoison := by
  have hworker : (s.note (.raised e)).worker = outerHandler s.worker e ∧ e.caughtBy outerClause = true := by
    cases hpc : s.worker.pc <;> rw [hpc] at h <;> simp_all [countsElsewhere, Logged.note, resume, indexFailed]
  obtain ⟨hw, hc⟩ := hworker
  rw [outerHandler, if_pos hc] at hw
  generalize s.note (.raised e) = t at hw ⊢
  obtain ⟨worker, attempts, zeroed⟩ := t
  obtain rfl := hw
  obtain ⟨n, hnew⟩ : ∃ n, n ∉ ((attempts.head?.map (·.ids)).getD [] : List Id) := by
    refine ⟨Rows.maxOf id ((attempts.head?.map (·.ids)).getD []) + 1, fun hmem => ?_⟩
    exact absurd (Rows.le_maxOf hmem : id _ ≤ _) (Nat.not_succ_le_self _)
  have hlater : ∃ ls u, exec (Logged.step settings)
      ⟨⟨.loadConfig, s.worker.consecutiveFailures + 1⟩, attempts, zeroed⟩ ls = some u ∧ ¬u.OnlyPoison :=
    exploit_pending hb rfl (Nat.le_add_left _ _) hnew
  by_cases hthree : 3 ≤ s.worker.consecutiveFailures + 1
  · -- the backoff comes first
    obtain ⟨ls, u, hexec, hu⟩ := hlater
    refine ⟨.done :: ls, u, ?_, hu⟩
    simp only [exec, Logged.step, hthree, if_true, request, answered, Request.admits, Option.bind_some]
    exact hexec
  · simpa only [hthree, if_false] using hlater

/-- After a fetch that adds a message. -/
theorem exploit_fetched (hb : 1 ≤ settings.batchSize) {config : WorkerConfig} {rows : List Job}
    (hpc : s.worker.pc = .fetch config) (hc : s.worker.consecutiveFailures ≠ 0) (hn : n ∈ rows.map (·.id))
    (hnew : n ∉ s.newest) :
    ∃ ls u, exec (Logged.step settings) (s.note (.rows rows)) ls = some u ∧ ¬u.OnlyPoison := by
  have hne : rows ≠ [] := by
    rintro rfl
    cases hn
  have hclient : s.note (.rows rows) =
      ⟨⟨.client config rows, s.worker.consecutiveFailures⟩, s.attempts, s.zeroed⟩ := by
    simp [Logged.note, resume, hpc, hne]
  by_cases hfive : 4 ≤ s.worker.consecutiveFailures
  · -- the next failure gives the batch up
    have hfail : exec (Logged.step settings) (s.note (.rows rows)) [.done, .raised .valueError] =
        some ⟨poisonNext ⟨.embed config rows, s.worker.consecutiveFailures + 1⟩
          { dim := config.embeddings.embeddingDims.getD 3072 } rows, ⟨rows.map (·.id), true⟩ :: s.attempts,
          s.zeroed⟩ := by
      rw [hclient]
      simp [exec, Logged.step, answered, request, Request.admits, Logged.note, resume, embedFailed, Exn.caughtBy,
        Exn.isA, hfive, Answer.raises]
    obtain ⟨ls, u, hexec, hmem⟩ := @zeroes_batch settings ⟨_, _, s.zeroed⟩ n _ _ rows rfl hn
    refine ⟨[.done, .raised .valueError] ++ ls, u, ?_, fun hall => ?_⟩
    · rw [exec_append, hfail]
      exact hexec
    · have hfived : FiveFailed n ([⟨rows.map (·.id), true⟩] ++ s.attempts) := hall _ hmem
      exact not_fiveFailed (by simp) hnew hfived
  · have hretry : exec (Logged.step settings) (s.note (.rows rows)) [.done, .raised .valueError, .done] =
        some ⟨⟨.loadConfig, s.worker.consecutiveFailures + 1⟩, ⟨rows.map (·.id), true⟩ :: s.attempts, s.zeroed⟩ := by
      rw [hclient]
      simp [exec, Logged.step, answered, request, Request.admits, Logged.note, resume, embedFailed, Exn.caughtBy,
        Exn.isA, hfive, Answer.raises]
    obtain ⟨ls, u, j, hexec, hj, hmem⟩ := zeroes_alone hb n 2
      ⟨⟨.loadConfig, s.worker.consecutiveFailures + 1⟩, ⟨rows.map (·.id), true⟩ :: s.attempts, s.zeroed⟩ rfl
      (by simp only; omega)
    refine ⟨[.done, .raised .valueError, .done] ++ ls, u, ?_, fun hall => ?_⟩
    · rw [exec_append, hretry]
      exact hexec
    · have hfived : FiveFailed n ((List.replicate j ⟨[n], true⟩ ++ [⟨rows.map (·.id), true⟩]) ++ s.attempts) := by
        simpa using hall _ hmem
      refine not_fiveFailed ?_ hnew hfived
      simp only [List.length_append, List.length_replicate, List.length_singleton]
      omega

/-- **Any other step** can be followed by a zero vector for a message that
was not in five failed calls in a row. -/
theorem unsteady_exploited (hb : 1 ≤ settings.batchSize) {a : Answer} {s' : Logged}
    (hs : s.step settings a = some s') (h : ¬Steady s a) :
    ∃ ls u, exec (Logged.step settings) s' ls = some u ∧ ¬u.OnlyPoison := by
  obtain ⟨_, _, _, rfl⟩ := answered_eq_some.mp hs
  by_contra hnone
  refine h ⟨fun e ha => ?_, fun config rows hpc ha hc n hn => ?_⟩
  · subst ha
    exact Bool.eq_false_iff.mpr fun hcount => hnone (exploit_counted hb hcount)
  · subst ha
    by_contra hnew
    exact hnone (exploit_fetched hb hpc hc hn hnew)

end

end ContextBroker.Workers.EmbeddingWorker
