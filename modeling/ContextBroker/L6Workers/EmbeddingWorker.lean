import ContextBroker.Core.HandlerLoop
import ContextBroker.L1Data.Schema

/-!
# The embedding worker

`_embedding_worker` as a task that makes calls: `request` is the call it
waits for, `resume` where the answer takes it. An answer is a result of the
right kind or an exception; a sleep raises nothing but a cancellation. The
program counter carries the locals that are still needed.

A vector is its length and the configuration of the client that computed it.

`loop`: the worker as a `HandlerLoop`. It catches what its outer handler
lists; the inner handlers list nothing else.
-/
namespace ContextBroker.Workers

/-! ## Calls -/

/-- The `embeddings` section. mirrors app/config.py:532-554 -/
structure EmbeddingsConfig where
  model : Text := "text-embedding-3-small".toList
  embeddingDims : Option Nat := none
  deriving DecidableEq, Repr

structure WorkerConfig where
  embeddings : EmbeddingsConfig := {}
  logEmbeddings : Option EmbeddingsConfig := none
  embeddingTimeout : Int := 300
  deriving DecidableEq, Repr

/-- A row without an embedding. -/
structure Job where
  id : Id
  text : Text
  deriving DecidableEq, Repr

structure Embedding where
  dim : Nat
  source : Option EmbeddingsConfig := none
  deriving DecidableEq, Repr

inductive Request where
  | loadConfig
  | getPool
  | countPending
  | sleep (seconds : Int)
  | fetch (limit : Int)
  | client (config : EmbeddingsConfig)
  | embed (config : EmbeddingsConfig) (texts : List Text) (timeout : Option Int)
  | store (id : Id) (vector : Embedding)
  | delete (id : Id)
  | indexExists
  | alterType (dim : Nat)
  | createIndex
  deriving DecidableEq, Repr

inductive Answer where
  | config (config : WorkerConfig)
  | count (n : Nat)
  | rows (rows : List Job)
  | vectors (vectors : List Embedding)
  | exists (b : Bool)
  | done
  | raised (e : Exn)
  deriving DecidableEq, Repr

def Answer.raises : Answer → Option Exn
  | .raised e => some e
  | _ => none

/-- `a` can be the answer to `q`: a `LIMIT` is kept, a sleep is only cancelled. -/
def Request.admits : Request → Answer → Bool
  | .sleep _, .raised e => e == .cancelledError
  | _, .raised _ => true
  | .loadConfig, .config _ => true
  | .countPending, .count _ => true
  | .fetch limit, .rows rows => rows.length ≤ limit.toNat
  | .embed _ _ _, .vectors _ => true
  | .indexExists, .exists _ => true
  | .getPool, .done | .sleep _, .done | .client _, .done | .store _ _, .done | .delete _, .done
  | .alterType _, .done | .createIndex, .done => true
  | _, _ => false

/-- The results a call can have. -/
def Request.Result (q : Request) (a : Answer) : Prop :=
  match q with
  | .loadConfig => ∃ config, a = .config config
  | .countPending => ∃ n, a = .count n
  | .fetch limit => ∃ rows, a = .rows rows ∧ rows.length ≤ limit.toNat
  | .embed _ _ _ => ∃ vectors, a = .vectors vectors
  | .indexExists => ∃ b, a = .exists b
  | _ => a = .done

theorem Request.result_of_admits {q : Request} {a : Answer} (h : q.admits a = true) (ha : a.raises = none) :
    q.Result a := by
  cases q <;> cases a <;> simp_all [Request.admits, Request.Result, Answer.raises]

/-- The state after an answer to the call a task waits for. -/
def answered {W : Type} (request : Option Request) (a : Answer) (next : W) : Option W :=
  match request with
  | none => none
  | some q => if q.admits a then some next else none

theorem answered_eq_some {W : Type} {request : Option Request} {a : Answer} {next w : W} :
    answered request a next = some w ↔ ∃ q, request = some q ∧ q.admits a = true ∧ next = w := by
  unfold answered
  cases request with
  | none => simp
  | some q => by_cases h : q.admits a = true <;> simp [h]

/-- What both workers' outer handlers list.
mirrors app/workers/db_worker.py:214,658 -/
def outerClause : List Exn := [.postgresError, .valueError, .runtimeError, .osError, .keyError]

namespace EmbeddingWorker

/-! ## The task -/

/-- The tuning read before the loop. mirrors app/workers/db_worker.py:69-70 -/
structure Settings where
  pollInterval : Int := 2
  batchSize : Int := 50
  deriving DecidableEq, Repr

inductive Pc where
  | loadConfig
  | getPool (config : WorkerConfig)
  | countPending (config : WorkerConfig)
  | poll
  | fetch (config : WorkerConfig)
  | client (config : WorkerConfig) (rows : List Job)
  | embed (config : WorkerConfig) (rows : List Job)
  | retry
  /-- The zero vector for `id`, then for `rest`. -/
  | poison (zero : Embedding) (id : Id) (rest : List Job)
  | store (id : Id) (vector : Embedding) (rest : List (Id × Embedding)) (vectors : List Embedding)
  | indexExists (dim : Nat)
  | alterType (dim : Nat)
  | createIndex
  /-- The sleep of the outer handler. -/
  | backoff
  | exited (e : Exn)
  deriving DecidableEq, Repr

structure Worker where
  pc : Pc := .loadConfig
  consecutiveFailures : Nat := 0
  deriving DecidableEq, Repr

def request (settings : Settings) : Pc → Option Request
  | .loadConfig => some .loadConfig
  | .getPool _ => some .getPool
  | .countPending _ => some .countPending
  | .poll => some (.sleep settings.pollInterval)
  | .fetch _ => some (.fetch settings.batchSize)
  | .client config _ => some (.client config.embeddings)
  | .embed config rows => some (.embed config.embeddings (rows.map (·.text)) (some config.embeddingTimeout))
  | .retry => some (.sleep 5)
  | .poison zero id _ => some (.store id zero)
  | .store id vector _ _ => some (.store id vector)
  | .indexExists _ => some .indexExists
  | .alterType dim => some (.alterType dim)
  | .createIndex => some .createIndex
  | .backoff => some (.sleep 5)
  | .exited _ => none

/-- The outer handlers. mirrors app/workers/db_worker.py:211-224 -/
def outerHandler (w : Worker) (e : Exn) : Worker :=
  if e.caughtBy outerClause then
    let failures := w.consecutiveFailures + 1
    { pc := if 3 ≤ failures then .backoff else .loadConfig, consecutiveFailures := failures }
  else { w with pc := .exited e }

/-- mirrors app/workers/db_worker.py:141-150 -/
def poisonNext (w : Worker) (zero : Embedding) : List Job → Worker
  | [] => { pc := .loadConfig, consecutiveFailures := 0 }
  | row :: rest => { w with pc := .poison zero row.id rest }

/-- The handlers around the embedding call.
mirrors app/workers/db_worker.py:119-153 -/
def embedFailed (w : Worker) (config : WorkerConfig) (rows : List Job) (e : Exn) : Worker :=
  let failures := w.consecutiveFailures + 1
  if e.caughtBy [.timeoutError] then { pc := .retry, consecutiveFailures := failures }
  else if e.caughtBy [.osError, .valueError, .runtimeError] then
    if 5 ≤ failures then
      poisonNext { w with consecutiveFailures := failures }
        { dim := config.embeddings.embeddingDims.getD 3072 } rows
    else { pc := .retry, consecutiveFailures := failures }
  else outerHandler w e

/-- mirrors app/workers/db_worker.py:155-184 -/
def storeNext (w : Worker) (vectors : List Embedding) : List (Id × Embedding) → Worker
  | (id, vector) :: rest => { w with pc := .store id vector rest vectors }
  | [] =>
    match vectors with
    | [] => { pc := .loadConfig, consecutiveFailures := 0 }
    | vector :: _ => { pc := .indexExists vector.dim, consecutiveFailures := 0 }

/-- The handler around the index. mirrors app/workers/db_worker.py:206-207 -/
def indexFailed (w : Worker) (e : Exn) : Worker :=
  if e.caughtBy [.postgresError, .osError] then { w with pc := .loadConfig } else outerHandler w e

/-- mirrors app/workers/db_worker.py:73-224 -/
def resume (w : Worker) : Answer → Worker
  | .raised e =>
    match w.pc with
    | .embed config rows => embedFailed w config rows e
    | .indexExists _ | .alterType _ | .createIndex => indexFailed w e
    | .backoff => { w with pc := .exited e }
    | _ => outerHandler w e
  | .config config => { w with pc := .getPool config }
  | .count n =>
    match w.pc with
    | .countPending config => { w with pc := if n = 0 then .poll else .fetch config }
    | _ => w
  | .rows rows =>
    match w.pc with
    | .fetch config => { w with pc := if rows = [] then .poll else .client config rows }
    | _ => w
  | .vectors vectors =>
    match w.pc with
    | .embed _ rows => storeNext w vectors ((rows.map (·.id)).zip vectors)
    | _ => w
  | .exists b =>
    match w.pc with
    | .indexExists dim => { w with pc := if b then .loadConfig else .alterType dim }
    | _ => w
  | .done =>
    match w.pc with
    | .getPool config => { w with pc := .countPending config }
    | .client config rows => { w with pc := .embed config rows }
    | .poison zero _ rest => poisonNext w zero rest
    | .store _ _ rest vectors => storeNext w vectors rest
    | .alterType _ => { w with pc := .createIndex }
    | _ => { w with pc := .loadConfig }

def step (settings : Settings) (w : Worker) (a : Answer) : Option Worker :=
  answered (request settings w.pc) a (resume w a)

/-! ## The worker as a loop -/

def Pc.exit : Pc → Option Exn
  | .exited e => some e
  | _ => none

/-- How much of a round is left. -/
def Pc.rank (settings : Settings) : Pc → Nat
  | .exited _ => 0
  | .poll | .retry | .backoff => 1
  | .createIndex => 2
  | .alterType _ => 3
  | .indexExists _ => 4
  | .poison _ _ rest => rest.length + 2
  | .store _ _ rest _ => rest.length + 5
  | .embed _ rows => rows.length + 6
  | .client _ rows => rows.length + 7
  | .fetch _ => settings.batchSize.toNat + 8
  | .countPending _ => settings.batchSize.toNat + 9
  | .getPool _ => settings.batchSize.toNat + 10
  | .loadConfig => settings.batchSize.toNat + 11

variable {settings : Settings} {w w' : Worker} {a : Answer} {e : Exn}

/-- What an exception that is handled does: off to the head or the sleep. -/
theorem outerHandler_cases (w : Worker) (e : Exn) :
    e.caughtBy outerClause = true ∧ ((outerHandler w e).pc = .loadConfig ∨ (outerHandler w e).pc = .backoff) ∨
      e.caughtBy outerClause = false ∧ (outerHandler w e).pc = .exited e := by
  unfold outerHandler
  cases e.caughtBy outerClause with
  | true =>
    refine .inl ⟨rfl, ?_⟩
    by_cases h : 3 ≤ w.consecutiveFailures + 1 <;> simp [h]
  | false => exact .inr ⟨rfl, rfl⟩

/-- What the inner handlers catch, the outer one would. -/
theorem caughtBy_outer (h : e.caughtBy [.timeoutError] = true ∨ e.caughtBy [.osError, .valueError, .runtimeError] = true ∨
    e.caughtBy [.postgresError, .osError] = true) : e.caughtBy outerClause = true := by
  cases e <;> revert h <;> decide

theorem poisonNext_cases (w : Worker) (zero : Embedding) (rows : List Job) :
    (poisonNext w zero rows).pc = .loadConfig ∨
      ∃ id rest, (poisonNext w zero rows).pc = .poison zero id rest ∧ rest.length < rows.length := by
  cases rows with
  | nil => exact .inl rfl
  | cons row rest => exact .inr ⟨row.id, rest, rfl, Nat.lt_succ_self _⟩

theorem storeNext_cases (w : Worker) (vectors : List Embedding) (pairs : List (Id × Embedding)) :
    (storeNext w vectors pairs).pc = .loadConfig ∨ (∃ dim, (storeNext w vectors pairs).pc = .indexExists dim) ∨
      ∃ id vector rest, (storeNext w vectors pairs).pc = .store id vector rest vectors ∧
        rest.length < pairs.length := by
  cases pairs with
  | nil =>
    cases vectors with
    | nil => exact .inl rfl
    | cons vector _ => exact .inr (.inl ⟨vector.dim, rfl⟩)
  | cons pair rest => exact .inr (.inr ⟨pair.1, pair.2, rest, rfl, Nat.lt_succ_self _⟩)

/-- Storing the next vector leads on. -/
theorem storeNext_leads (w : Worker) (vectors : List Embedding) {pairs : List (Id × Embedding)} {n : Nat}
    (hn : pairs.length + 5 ≤ n) :
    (storeNext w vectors pairs).pc.exit = none ∧
      ((storeNext w vectors pairs).pc = .loadConfig ∨ (storeNext w vectors pairs).pc.rank settings < n) := by
  rcases storeNext_cases w vectors pairs with hhead | ⟨dim, hindex⟩ | ⟨id, v, rest, hstore, hlen⟩
  · rw [hhead]
    exact ⟨rfl, .inl rfl⟩
  · rw [hindex]
    refine ⟨rfl, .inr ?_⟩
    simp only [Pc.rank]
    omega
  · rw [hstore]
    refine ⟨rfl, .inr ?_⟩
    simp only [Pc.rank]
    omega

/-- The exception of the embedding call. -/
theorem embedFailed_cases (w : Worker) (config : WorkerConfig) (rows : List Job) (e : Exn) :
    e.caughtBy outerClause = true ∧ ((embedFailed w config rows e).pc = .loadConfig ∨
        (embedFailed w config rows e).pc = .retry ∨ (embedFailed w config rows e).pc = .backoff ∨
        ∃ zero id rest, (embedFailed w config rows e).pc = .poison zero id rest ∧ rest.length < rows.length) ∨
      e.caughtBy outerClause = false ∧ (embedFailed w config rows e).pc = .exited e := by
  unfold embedFailed
  dsimp only
  split
  · rename_i h
    exact .inl ⟨caughtBy_outer (.inl h), .inr (.inl rfl)⟩
  · split
    · rename_i h
      refine .inl ⟨caughtBy_outer (.inr (.inl h)), ?_⟩
      split
      · rcases poisonNext_cases { w with consecutiveFailures := w.consecutiveFailures + 1 }
          { dim := config.embeddings.embeddingDims.getD 3072 } rows with hhead | ⟨id, rest, hpc, hlen⟩
        · exact .inl hhead
        · exact .inr (.inr (.inr ⟨_, id, rest, hpc, hlen⟩))
      · exact .inr (.inl rfl)
    · rcases outerHandler_cases w e with ⟨hc, hpc⟩ | ⟨hc, hpc⟩
      · refine .inl ⟨hc, ?_⟩
        rcases hpc with hhead | hback
        · exact .inl hhead
        · exact .inr (.inr (.inl hback))
      · exact .inr ⟨hc, hpc⟩

theorem indexFailed_cases (w : Worker) (e : Exn) :
    e.caughtBy outerClause = true ∧ ((indexFailed w e).pc = .loadConfig ∨ (indexFailed w e).pc = .backoff) ∨
      e.caughtBy outerClause = false ∧ (indexFailed w e).pc = .exited e := by
  unfold indexFailed
  split
  · rename_i h
    exact .inl ⟨caughtBy_outer (.inr (.inr h)), .inl rfl⟩
  · exact outerHandler_cases w e

/-- Where an exception leads: the round is nearly over if the outer handler
catches it, and the loop is left if it does not. -/
def Handled (settings : Settings) (pc pc' : Pc) (e : Exn) : Prop :=
  e.caughtBy outerClause = true ∧ (pc' = .loadConfig ∨ pc'.exit = none ∧ pc'.rank settings < pc.rank settings) ∨
    e.caughtBy outerClause = false ∧ pc' = .exited e

theorem outerHandler_handled (h : 1 < w.pc.rank settings) : Handled settings w.pc (outerHandler w e).pc e := by
  rcases outerHandler_cases w e with ⟨hc, hhead | hback⟩ | ⟨hc, hpc⟩
  · exact .inl ⟨hc, .inl hhead⟩
  · rw [hback]
    exact .inl ⟨hc, .inr ⟨rfl, h⟩⟩
  · exact .inr ⟨hc, hpc⟩

theorem indexFailed_handled (h : 1 < w.pc.rank settings) : Handled settings w.pc (indexFailed w e).pc e := by
  rcases indexFailed_cases w e with ⟨hc, hhead | hback⟩ | ⟨hc, hpc⟩
  · exact .inl ⟨hc, .inl hhead⟩
  · rw [hback]
    exact .inl ⟨hc, .inr ⟨rfl, h⟩⟩
  · exact .inr ⟨hc, hpc⟩

theorem embedFailed_handled {config : WorkerConfig} {rows : List Job} (h : w.pc = .embed config rows) :
    Handled settings w.pc (embedFailed w config rows e).pc e := by
  have hrank : w.pc.rank settings = rows.length + 6 := by rw [h, Pc.rank]
  rcases embedFailed_cases w config rows e with ⟨hc, hhead | hretry | hback | ⟨zero, id, rest, hpc, hlen⟩⟩ | ⟨hc, hpc⟩
  · exact .inl ⟨hc, .inl hhead⟩
  · refine .inl ⟨hc, .inr ⟨by rw [hretry]; rfl, ?_⟩⟩
    rw [hretry, hrank, Pc.rank]
    omega
  · refine .inl ⟨hc, .inr ⟨by rw [hback]; rfl, ?_⟩⟩
    rw [hback, hrank, Pc.rank]
    omega
  · refine .inl ⟨hc, .inr ⟨by rw [hpc]; rfl, ?_⟩⟩
    rw [hpc, hrank, Pc.rank]
    omega
  · exact .inr ⟨hc, hpc⟩

/-- **An exception**, wherever it is raised. -/
theorem resume_raised (h : step settings w (.raised e) = some w') : Handled settings w.pc w'.pc e := by
  obtain ⟨q, hq, hadmits, rfl⟩ := answered_eq_some.mp h
  have hcancelled : q.admits (.raised e) = (e == .cancelledError) →
      e.caughtBy outerClause = false ∧ e = .cancelledError := by
    intro hsleep
    obtain rfl := eq_of_beq (hsleep.symm.trans hadmits)
    exact ⟨rfl, rfl⟩
  cases hpc : w.pc with
  | loadConfig | getPool | countPending | fetch | client | poison | store =>
    simp only [resume, hpc]
    exact hpc ▸ outerHandler_handled (by rw [hpc, Pc.rank]; omega)
  | indexExists | alterType | createIndex =>
    simp only [resume, hpc]
    exact hpc ▸ indexFailed_handled (by rw [hpc, Pc.rank]; omega)
  | embed config rows =>
    simp only [resume, hpc]
    exact hpc ▸ embedFailed_handled hpc
  | poll | retry =>
    rw [hpc] at hq
    obtain rfl := Option.some.inj hq
    obtain ⟨hc, rfl⟩ := hcancelled rfl
    simp only [resume, hpc]
    exact .inr ⟨hc, rfl⟩
  | backoff =>
    rw [hpc] at hq
    obtain rfl := Option.some.inj hq
    simp only [resume, hpc]
    exact .inr ⟨(hcancelled rfl).1, rfl⟩
  | exited =>
    rw [hpc] at hq
    cases hq

/-- **A result** leads on in the round. -/
theorem resume_result (h : step settings w a = some w') (ha : a.raises = none) :
    w'.pc.exit = none ∧ (w'.pc = .loadConfig ∨ w'.pc.rank settings < w.pc.rank settings) := by
  obtain ⟨q, hq, hadmits, rfl⟩ := answered_eq_some.mp h
  have hresult := Request.result_of_admits hadmits ha
  cases hpc : w.pc <;> rw [hpc] at hq <;> cases hq
  case loadConfig =>
    obtain ⟨config, rfl⟩ := hresult
    exact ⟨rfl, .inr (Nat.lt_succ_self _)⟩
  case countPending =>
    obtain ⟨n, rfl⟩ := hresult
    simp only [resume, hpc]
    split
    · exact ⟨rfl, .inr (by simp [Pc.rank])⟩
    · exact ⟨rfl, .inr (by simp [Pc.rank])⟩
  case fetch =>
    obtain ⟨rows, rfl, hlen⟩ := hresult
    simp only [resume, hpc]
    split
    · exact ⟨rfl, .inr (by simp [Pc.rank])⟩
    · refine ⟨rfl, .inr ?_⟩
      simp only [Pc.rank]
      omega
  case embed config rows =>
    obtain ⟨vectors, rfl⟩ := hresult
    simp only [resume, hpc]
    have hzip : ((rows.map (·.id)).zip vectors).length ≤ rows.length := by
      simp only [List.length_zip, List.length_map]
      omega
    refine storeNext_leads w vectors ?_
    simp only [Pc.rank]
    omega
  case indexExists =>
    obtain ⟨b, rfl⟩ := hresult
    simp only [resume, hpc]
    split
    · exact ⟨rfl, .inl rfl⟩
    · exact ⟨rfl, .inr (by simp [Pc.rank])⟩
  case poison zero id rest =>
    obtain rfl := hresult
    simp only [resume, hpc]
    rcases poisonNext_cases w zero rest with hhead | ⟨id', rest', hpoison, hlen⟩
    · rw [hhead]
      exact ⟨rfl, .inl rfl⟩
    · rw [hpoison]
      refine ⟨rfl, .inr ?_⟩
      simp only [Pc.rank]
      omega
  case store id vector rest vectors =>
    obtain rfl := hresult
    simp only [resume, hpc]
    exact storeNext_leads w vectors (Nat.le_refl _)
  all_goals
    obtain rfl := hresult
    simp only [resume, hpc]
    exact ⟨rfl, by simp [Pc.rank]⟩

/-- The worker, over the answers to its calls. -/
def loop (settings : Settings) : HandlerLoop Worker Answer Exn where
  step := step settings
  raises := Answer.raises
  exit w := w.pc.exit
  head w := w.pc = .loadConfig
  caught e := e.caughtBy outerClause
  rank w := w.pc.rank settings
  exits w a w' h := by
    cases ha : a.raises with
    | none => rw [(resume_result h ha).1, Option.filter_none]
    | some e =>
      obtain rfl : a = .raised e := by cases a <;> cases ha; rfl
      rcases resume_raised h with ⟨hc, hhead | ⟨hexit, _⟩⟩ | ⟨hc, hpc⟩
      · simp [hc, hhead, Pc.exit, Option.filter]
      · simp [hc, hexit, Option.filter]
      · simp [hc, hpc, Pc.exit, Option.filter]
  returns w a w' h := by
    cases ha : a.raises with
    | none => exact .inr (resume_result h ha).2
    | some e =>
      obtain rfl : a = .raised e := by cases a <;> cases ha; rfl
      rcases resume_raised h with ⟨_, hhead | ⟨_, hrank⟩⟩ | ⟨_, hpc⟩
      · exact .inr (.inl hhead)
      · exact .inr (.inr hrank)
      · exact .inl (by rw [hpc]; rfl)

end EmbeddingWorker

end ContextBroker.Workers
