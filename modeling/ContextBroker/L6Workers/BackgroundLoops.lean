import ContextBroker.L6Workers.EmbeddingWorker

/-!
# The background loops

`_log_embedding_worker` in the same form, and what both loops survive.

`loops_survive_iff`: a loop is left by a cancellation only, and each round
comes to its end, exactly when every exception of a call is a cancellation or
one of the five that the outer handler lists. `openai.APIError` and
`httpx.HTTPError`, which an embeddings client raises, are not among them.
-/
namespace ContextBroker.Workers

open LTS

namespace LogEmbeddingWorker

/-! ## The task -/

/-- mirrors app/workers/db_worker.py:575-576 -/
structure Settings where
  pollInterval : Int := 10
  batchSize : Int := 100
  deriving DecidableEq, Repr

inductive Pc where
  | loadConfig
  /-- Log vectorization is not enabled. -/
  | disabled
  | getPool (config : EmbeddingsConfig)
  | countPending (config : EmbeddingsConfig)
  | poll
  | fetch (config : EmbeddingsConfig)
  | client (config : EmbeddingsConfig) (rows : List Job)
  | embed (config : EmbeddingsConfig) (rows : List Job)
  | drop (id : Id) (rest : List Job)
  | store (id : Id) (vector : Embedding) (rest : List (Id × Embedding))
  /-- The sleep of the outer handler. -/
  | backoff
  | exited (e : Exn)
  deriving DecidableEq, Repr

structure Worker where
  pc : Pc := .loadConfig
  consecutiveFailures : Nat := 0
  deriving DecidableEq, Repr

def request (settings : Settings) : Pc → Option Request
  | .loadConfig => some .loadConfig
  | .disabled => some (.sleep 60)
  | .getPool _ => some .getPool
  | .countPending _ => some .countPending
  | .poll => some (.sleep settings.pollInterval)
  | .fetch _ => some (.fetch settings.batchSize)
  | .client config _ => some (.client config)
  | .embed config rows => some (.embed config (rows.map (·.text)) none)
  | .drop id _ => some (.delete id)
  | .store id vector _ => some (.store id vector)
  | .backoff => some (.sleep settings.pollInterval)
  | .exited _ => none

/-- mirrors app/workers/db_worker.py:655-660 -/
def outerHandler (w : Worker) (e : Exn) : Worker :=
  { w with pc := if e.caughtBy outerClause then .backoff else .exited e }

/-- mirrors app/workers/db_worker.py:630-637 -/
def dropNext (w : Worker) : List Job → Worker
  | [] => { pc := .poll, consecutiveFailures := 0 }
  | row :: rest => { w with pc := .drop row.id rest }

/-- mirrors app/workers/db_worker.py:620-638 -/
def embedFailed (w : Worker) (rows : List Job) (e : Exn) : Worker :=
  let failures := w.consecutiveFailures + 1
  if e.caughtBy [.osError, .valueError, .runtimeError] then
    if 5 ≤ failures then dropNext { w with consecutiveFailures := failures } rows
    else { pc := .poll, consecutiveFailures := failures }
  else outerHandler w e

/-- The failures are not reset. mirrors app/workers/db_worker.py:640-653 -/
def storeNext (w : Worker) : List (Id × Embedding) → Worker
  | (id, vector) :: rest => { w with pc := .store id vector rest }
  | [] => { w with pc := .loadConfig }

/-- mirrors app/workers/db_worker.py:579-660 -/
def resume (w : Worker) : Answer → Worker
  | .raised e =>
    match w.pc with
    | .embed _ rows => embedFailed w rows e
    | .backoff => { w with pc := .exited e }
    | _ => outerHandler w e
  | .config config =>
    match config.logEmbeddings with
    | none => { w with pc := .disabled }
    | some c => { w with pc := .getPool c }
  | .count n =>
    match w.pc with
    | .countPending config => { w with pc := if n = 0 then .poll else .fetch config }
    | _ => w
  | .rows rows =>
    match w.pc with
    | .fetch config => { w with pc := if rows = [] then .poll else .client config rows }
    | _ => w
  | .vectors vectors =>
    match w.pc with
    | .embed _ rows => storeNext w ((rows.map (·.id)).zip vectors)
    | _ => w
  | .exists _ => w
  | .done =>
    match w.pc with
    | .getPool config => { w with pc := .countPending config }
    | .client config rows => { w with pc := .embed config rows }
    | .drop _ rest => dropNext w rest
    | .store _ _ rest => storeNext w rest
    | _ => { w with pc := .loadConfig }

def step (settings : Settings) (w : Worker) (a : Answer) : Option Worker :=
  answered (request settings w.pc) a (resume w a)

/-! ## The worker as a loop -/

def Pc.exit : Pc → Option Exn
  | .exited e => some e
  | _ => none

def Pc.rank (settings : Settings) : Pc → Nat
  | .exited _ => 0
  | .poll | .disabled | .backoff => 1
  | .drop _ rest => rest.length + 2
  | .store _ _ rest => rest.length + 2
  | .embed _ rows => rows.length + 3
  | .client _ rows => rows.length + 4
  | .fetch _ => settings.batchSize.toNat + 5
  | .countPending _ => settings.batchSize.toNat + 6
  | .getPool _ => settings.batchSize.toNat + 7
  | .loadConfig => settings.batchSize.toNat + 8

variable {settings : Settings} {w w' : Worker} {a : Answer} {e : Exn}

/-- Where an exception leads. -/
def Handled (settings : Settings) (pc pc' : Pc) (e : Exn) : Prop :=
  e.caughtBy outerClause = true ∧ pc'.exit = none ∧ pc'.rank settings < pc.rank settings ∨
    e.caughtBy outerClause = false ∧ pc' = .exited e

theorem outerHandler_handled (h : 1 < w.pc.rank settings) : Handled settings w.pc (outerHandler w e).pc e := by
  unfold outerHandler
  cases hc : e.caughtBy outerClause with
  | true => exact .inl ⟨hc, rfl, h⟩
  | false => exact .inr ⟨hc, rfl⟩

theorem dropNext_cases (w : Worker) (rows : List Job) :
    (dropNext w rows).pc = .poll ∨
      ∃ id rest, (dropNext w rows).pc = .drop id rest ∧ rest.length < rows.length := by
  cases rows with
  | nil => exact .inl rfl
  | cons row rest => exact .inr ⟨row.id, rest, rfl, Nat.lt_succ_self _⟩

theorem storeNext_cases (w : Worker) (pairs : List (Id × Embedding)) :
    (storeNext w pairs).pc = .loadConfig ∨
      ∃ id vector rest, (storeNext w pairs).pc = .store id vector rest ∧ rest.length < pairs.length := by
  cases pairs with
  | nil => exact .inl rfl
  | cons pair rest => exact .inr ⟨pair.1, pair.2, rest, rfl, Nat.lt_succ_self _⟩

/-- Storing the next vector leads on. -/
theorem storeNext_leads (w : Worker) {pairs : List (Id × Embedding)} {n : Nat} (hn : pairs.length + 2 ≤ n) :
    (storeNext w pairs).pc.exit = none ∧
      ((storeNext w pairs).pc = .loadConfig ∨ (storeNext w pairs).pc.rank settings < n) := by
  rcases storeNext_cases w pairs with hhead | ⟨id, v, rest, hstore, hlen⟩
  · rw [hhead]
    exact ⟨rfl, .inl rfl⟩
  · rw [hstore]
    refine ⟨rfl, .inr ?_⟩
    simp only [Pc.rank]
    omega

theorem embedFailed_handled {config : EmbeddingsConfig} {rows : List Job} (h : w.pc = .embed config rows) :
    Handled settings w.pc (embedFailed w rows e).pc e := by
  have hrank : w.pc.rank settings = rows.length + 3 := by rw [h, Pc.rank]
  unfold embedFailed
  dsimp only
  split
  · rename_i hc
    have hcaught := EmbeddingWorker.caughtBy_outer (.inr (.inl hc))
    split
    · rcases dropNext_cases { w with consecutiveFailures := w.consecutiveFailures + 1 } rows with
        hpoll | ⟨id, rest, hdrop, hlen⟩
      · rw [hpoll, Handled, hrank]
        exact .inl ⟨hcaught, rfl, by simp [Pc.rank]⟩
      · rw [hdrop, Handled, hrank]
        refine .inl ⟨hcaught, rfl, ?_⟩
        simp only [Pc.rank]
        omega
    · rw [Handled, hrank]
      exact .inl ⟨hcaught, rfl, by simp [Pc.rank]⟩
  · exact outerHandler_handled (by omega)

/-- **An exception**, wherever it is raised. -/
theorem resume_raised (h : step settings w (.raised e) = some w') : Handled settings w.pc w'.pc e := by
  obtain ⟨q, hq, hadmits, rfl⟩ := answered_eq_some.mp h
  have hcancelled : q.admits (.raised e) = (e == .cancelledError) →
      e.caughtBy outerClause = false ∧ e = .cancelledError := by
    intro hsleep
    obtain rfl := eq_of_beq (hsleep.symm.trans hadmits)
    exact ⟨rfl, rfl⟩
  cases hpc : w.pc with
  | loadConfig | getPool | countPending | fetch | client | drop | store =>
    simp only [resume, hpc]
    exact hpc ▸ outerHandler_handled (by rw [hpc, Pc.rank]; omega)
  | embed config rows =>
    simp only [resume, hpc]
    exact hpc ▸ embedFailed_handled hpc
  | poll | disabled =>
    rw [hpc] at hq
    obtain rfl := Option.some.inj hq
    obtain ⟨hc, rfl⟩ := hcancelled rfl
    simp only [resume, hpc]
    exact .inr ⟨hc, rfl⟩
  | backoff =>
    rw [hpc] at hq
    obtain rfl := Option.some.inj hq
    simp only [resume, hpc]
    exact .inr ⟨(hcancelled rfl).1, rfl⟩
  | exited =>
    rw [hpc] at hq
    cases hq

/-- **A result** leads on in the round. -/
theorem resume_result (h : step settings w a = some w') (ha : a.raises = none) :
    w'.pc.exit = none ∧ (w'.pc = .loadConfig ∨ w'.pc.rank settings < w.pc.rank settings) := by
  obtain ⟨q, hq, hadmits, rfl⟩ := answered_eq_some.mp h
  have hresult := Request.result_of_admits hadmits ha
  cases hpc : w.pc <;> rw [hpc] at hq <;> cases hq
  case loadConfig =>
    obtain ⟨config, rfl⟩ := hresult
    simp only [resume]
    split
    · exact ⟨rfl, .inr (by simp [Pc.rank])⟩
    · exact ⟨rfl, .inr (by simp [Pc.rank])⟩
  case countPending =>
    obtain ⟨n, rfl⟩ := hresult
    simp only [resume, hpc]
    split
    · exact ⟨rfl, .inr (by simp [Pc.rank])⟩
    · exact ⟨rfl, .inr (by simp [Pc.rank])⟩
  case fetch =>
    obtain ⟨rows, rfl, hlen⟩ := hresult
    simp only [resume, hpc]
    split
    · exact ⟨rfl, .inr (by simp [Pc.rank])⟩
    · refine ⟨rfl, .inr ?_⟩
      simp only [Pc.rank]
      omega
  case embed config rows =>
    obtain ⟨vectors, rfl⟩ := hresult
    simp only [resume, hpc]
    have hzip : ((rows.map (·.id)).zip vectors).length ≤ rows.length := by
      simp only [List.length_zip, List.length_map]
      omega
    refine storeNext_leads w ?_
    simp only [Pc.rank]
    omega
  case drop id rest =>
    obtain rfl := hresult
    simp only [resume, hpc]
    rcases dropNext_cases w rest with hpoll | ⟨id', rest', hdrop, hlen⟩
    · rw [hpoll]
      exact ⟨rfl, .inr (by simp [Pc.rank])⟩
    · rw [hdrop]
      refine ⟨rfl, .inr ?_⟩
      simp only [Pc.rank]
      omega
  case store id vector rest =>
    obtain rfl := hresult
    simp only [resume, hpc]
    exact storeNext_leads w (Nat.le_refl _)
  all_goals
    obtain rfl := hresult
    simp only [resume, hpc]
    exact ⟨rfl, by simp [Pc.rank]⟩

def loop (settings : Settings) : HandlerLoop Worker Answer Exn where
  step := step settings
  raises := Answer.raises
  exit w := w.pc.exit
  head w := w.pc = .loadConfig
  caught e := e.caughtBy outerClause
  rank w := w.pc.rank settings
  exits w a w' h := by
    cases ha : a.raises with
    | none => rw [(resume_result h ha).1, Option.filter_none]
    | some e =>
      obtain rfl : a = .raised e := by cases a <;> cases ha; rfl
      rcases resume_raised h with ⟨hc, hexit, _⟩ | ⟨hc, hpc⟩
      · simp [hc, hexit, Option.filter]
      · simp [hc, hpc, Pc.exit, Option.filter]
  returns w a w' h := by
    cases ha : a.raises with
    | none => exact .inr (resume_result h ha).2
    | some e =>
      obtain rfl : a = .raised e := by cases a <;> cases ha; rfl
      rcases resume_raised h with ⟨_, _, hrank⟩ | ⟨_, hpc⟩
      · exact .inr (.inr hrank)
      · exact .inl (by rw [hpc]; rfl)

end LogEmbeddingWorker

/-! ## What the loops survive -/

/-- An exception that ends the loop as intended, or that its handlers catch. -/
def Survivable (e : Exn) : Prop := e = .cancelledError ∨ e.caughtBy outerClause = true

/-- **The background loops**, for every sequence of answers: each is left by a
cancellation only, and every other outcome leads back to its head, exactly
when no call raises anything but the survivable exceptions. -/
theorem loops_survive_iff (settings : EmbeddingWorker.Settings) (logSettings : LogEmbeddingWorker.Settings)
    (as : List Answer) :
    ((EmbeddingWorker.loop settings).Survives (· = .cancelledError) {} as ↔
        ∀ w a w', Takes (EmbeddingWorker.step settings) {} as w a w' → ∀ e, a.raises = some e → Survivable e) ∧
      ((LogEmbeddingWorker.loop logSettings).Survives (· = .cancelledError) {} as ↔
        ∀ w a w', Takes (LogEmbeddingWorker.step logSettings) {} as w a w' → ∀ e, a.raises = some e → Survivable e) :=
  ⟨HandlerLoop.survives_iff (L := EmbeddingWorker.loop settings) _ rfl as,
    HandlerLoop.survives_iff (L := LogEmbeddingWorker.loop logSettings) _ rfl as⟩

/-- One message to embed, and a provider that answers with an API error. -/
def rateLimited : List Answer :=
  [.config {}, .done, .count 1, .rows [⟨1, "hello".toList⟩], .done, .raised .openaiApiError]

/-- The embedding worker does not survive it. -/
theorem loops_survive_false :
    ¬ ∀ (settings : EmbeddingWorker.Settings) (as : List Answer),
      (EmbeddingWorker.loop settings).Survives (· = .cancelledError) {} as := by
  intro h
  have hrun : exec (EmbeddingWorker.step {}) {} rateLimited =
      some { pc := .exited .openaiApiError, consecutiveFailures := 0 } := by decide
  exact nomatch (h {} rateLimited).exits _ (passes_of_exec hrun) _ rfl

end ContextBroker.Workers
