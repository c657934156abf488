import ContextBroker.L6Workers.EmbeddingColumn

/-!
# The type of the embedding column

The worker gives the column its type, with the first index. The tool that
switches the model drops indexes of other names, wipes the embeddings and
leaves the type, although its preview announces the ALTER.

Here migrations are serial: the worker is between two rounds, and the tool
returns. `next_batch_iff`: after each migration the vectors of the new length
are stored without an error exactly when each migration finds the column
untyped or of that length.
-/
namespace ContextBroker.Workers

open EmbeddingWorker LTS Rows

/-! ## Serial histories -/

inductive SerialLabel where
  | arrive (id : Id) (content : Option Text) (priority : Nat) (createdAt : Time)
  | work (reply : Reply)
  /-- The whole of a migration, with what its statements raise. -/
  | migrate (model : Text) (dims : Nat) (faults : List (Option Exn))
  deriving DecidableEq, Repr

/-- The tool ran to its end, and can be called again. -/
def completed (s : State) : Option State := if s.migration = .returned then some { s with migration := .idle } else none

def serialStep (settings : Settings) (s : State) : SerialLabel → Option State
  | .arrive id content priority createdAt => step settings s (.arrive id content priority createdAt)
  | .work reply => work settings s reply
  | .migrate model dims faults =>
    if s.worker.pc = .loadConfig then
      (exec (step settings) s (.migrate ⟨model, some dims⟩ :: faults.map .statement)).bind completed
    else none

/-- The client answers with vectors of length `n`, and no other call fails. -/
def SerialLabel.Produces (n : Nat) : SerialLabel → Prop
  | .arrive _ _ _ _ => True
  | .work .ok => True
  | .work (.vectors dims) => ∀ d ∈ dims, d = n
  | .work (.raised _) => False
  | .migrate _ _ _ => False

/-- From `s` on, batches of length `n` are stored without a database error. -/
def Accepts (settings : Settings) (s : State) (n : Nat) : Prop :=
  ∀ ls : List SerialLabel, (∀ l ∈ ls, l.Produces n) → ∀ t, Passes (serialStep settings) s ls t →
    ∀ id v, request settings t.worker.pc = some (.store id v) → ∃ table, t.table.update id v = .ok table

variable {settings : Settings} {s s' t : State} {n : Nat} {w : Worker} {e : Exn}

theorem update_ok {table : Table} {id : Id} {v : Embedding} :
    (∃ table', table.update id v = .ok table') ↔ table.type = none ∨ table.type = some v.dim := by
  unfold Table.update Table.fits
  cases table.type with
  | none => simp
  | some d =>
    by_cases h : d = v.dim
    · simp [h]
    · simp [h, beq_eq_false_iff_ne.mpr h]

theorem update_type {table table' : Table} {id : Id} {v : Embedding} (h : table.update id v = .ok table') :
    table'.type = table.type := by
  unfold Table.update at h
  split at h
  · obtain rfl := Except.ok.inj h
    rfl
  · cases h

theorem alterType_type {table table' : Table} {dim : Nat} (h : table.alterType dim = .ok table') :
    table'.type = some dim := by
  unfold Table.alterType at h
  split at h
  · obtain rfl := Except.ok.inj h
    rfl
  · cases h

theorem createIndex_type {table table' : Table} (h : table.createIndex = .ok table') : table'.type = table.type := by
  unfold Table.createIndex at h
  split at h
  · obtain rfl := Except.ok.inj h
    rfl
  · split at h
    · cases h
    · obtain rfl := Except.ok.inj h
      rfl

/-! ## The worker on vectors of one length -/

/-- What the worker holds has length `n`. -/
def PcFits (n : Nat) : Pc → Prop
  | .poison _ _ _ => False
  | .store _ v rest vectors => v.dim = n ∧ (∀ p ∈ rest, p.2.dim = n) ∧ ∀ v ∈ vectors, v.dim = n
  | .indexExists dim => dim = n
  | .alterType dim => dim = n
  | _ => True

structure Fitting (n : Nat) (s : State) : Prop where
  type : s.table.type = none ∨ s.table.type = some n
  pc : PcFits n s.worker.pc

theorem pcFits_outerHandler (w : Worker) (e : Exn) : PcFits n (outerHandler w e).pc := by
  rcases outerHandler_cases w e with ⟨_, h | h⟩ | ⟨_, h⟩ <;> rw [h] <;> trivial

theorem pcFits_indexFailed (w : Worker) (e : Exn) : PcFits n (indexFailed w e).pc := by
  rcases indexFailed_cases w e with ⟨_, h | h⟩ | ⟨_, h⟩ <;> rw [h] <;> trivial

theorem pcFits_storeNext {vectors : List Embedding} {pairs : List (Id × Embedding)}
    (hvectors : ∀ v ∈ vectors, v.dim = n) (hpairs : ∀ p ∈ pairs, p.2.dim = n) :
    PcFits n (storeNext w vectors pairs).pc := by
  cases pairs with
  | nil =>
    cases vectors with
    | nil => trivial
    | cons v _ => exact hvectors v List.mem_cons_self
  | cons p rest =>
    exact ⟨hpairs p List.mem_cons_self, fun q hq => hpairs q (List.mem_cons_of_mem _ hq), hvectors⟩

theorem Fitting.work_vectors {dims : List Nat} (h : work settings s (.vectors dims) = some s')
    (hdims : ∀ d ∈ dims, d = n) (hF : Fitting n s) : Fitting n s' := by
  obtain ⟨q, t, a, w, hq, hrespond, hstep, rfl⟩ := work_eq_some.mp h
  obtain ⟨_, _, _, rfl⟩ := answered_eq_some.mp hstep
  cases hpc : s.worker.pc with
  | embed config rows =>
    rw [hpc] at hq
    obtain rfl := Option.some.inj hq
    obtain ⟨rfl, rfl⟩ := Prod.mk.inj (Option.some.inj hrespond)
    refine ⟨hF.type, ?_⟩
    simp only [resume, hpc]
    have hvectors : ∀ v ∈ dims.map fun d => (⟨d, some config.embeddings⟩ : Embedding), v.dim = n := by
      intro v hv
      obtain ⟨d, hd, rfl⟩ := List.mem_map.mp hv
      exact hdims d hd
    exact pcFits_storeNext hvectors fun p hp => hvectors p.2 (List.of_mem_zip hp).2
  | _ =>
    rw [hpc] at hq
    cases hq <;> cases hrespond

theorem Fitting.work_ok (h : work settings s .ok = some s') (hF : Fitting n s) : Fitting n s' := by
  obtain ⟨q, t, a, w, hq, hrespond, hstep, rfl⟩ := work_eq_some.mp h
  obtain ⟨_, _, _, rfl⟩ := answered_eq_some.mp hstep
  have hfits := hF.pc
  cases hpc : s.worker.pc with
  | loadConfig | getPool | poll | client | retry | backoff =>
    rw [hpc] at hq
    obtain rfl := Option.some.inj hq
    obtain ⟨rfl, rfl⟩ := Prod.mk.inj (Option.some.inj hrespond)
    exact ⟨hF.type, by simp only [resume, hpc]; trivial⟩
  | countPending | indexExists =>
    rw [hpc] at hq hfits
    obtain rfl := Option.some.inj hq
    obtain ⟨rfl, rfl⟩ := Prod.mk.inj (Option.some.inj hrespond)
    refine ⟨hF.type, ?_⟩
    simp only [resume, hpc]
    split
    · trivial
    · exact hfits
  | fetch config =>
    rw [hpc] at hq
    obtain rfl := Option.some.inj hq
    rw [respond] at hrespond
    split at hrespond
    · obtain ⟨rfl, rfl⟩ := Prod.mk.inj (Option.some.inj hrespond)
      refine ⟨hF.type, ?_⟩
      simp only [resume, hpc]
      split <;> trivial
    · obtain ⟨rfl, rfl⟩ := Prod.mk.inj (Option.some.inj hrespond)
      refine ⟨hF.type, ?_⟩
      simp only [resume, hpc]
      exact pcFits_outerHandler _ _
  | poison =>
    rw [hpc] at hfits
    exact hfits.elim
  | store id v rest vectors =>
    rw [hpc] at hq hfits
    obtain rfl := Option.some.inj hq
    have hupdate : ∃ table, s.table.update id v = .ok table := update_ok.mpr (by rw [hfits.1]; exact hF.type)
    obtain ⟨table, hupdate⟩ := hupdate
    rw [respond, hupdate] at hrespond
    obtain ⟨rfl, rfl⟩ := Prod.mk.inj (Option.some.inj hrespond)
    refine ⟨by rw [update_type hupdate]; exact hF.type, ?_⟩
    simp only [resume, hpc]
    exact pcFits_storeNext hfits.2.2 hfits.2.1
  | alterType dim =>
    rw [hpc] at hq hfits
    obtain rfl := Option.some.inj hq
    obtain rfl := hfits
    cases halter : s.table.alterType dim with
    | ok table =>
      rw [respond, halter] at hrespond
      obtain ⟨rfl, rfl⟩ := Prod.mk.inj (Option.some.inj hrespond)
      exact ⟨.inr (alterType_type halter), by simp only [resume, hpc]; trivial⟩
    | error e =>
      rw [respond, halter] at hrespond
      obtain ⟨rfl, rfl⟩ := Prod.mk.inj (Option.some.inj hrespond)
      exact ⟨hF.type, by simp only [resume, hpc]; exact pcFits_indexFailed _ _⟩
  | createIndex =>
    rw [hpc] at hq
    obtain rfl := Option.some.inj hq
    cases hcreate : s.table.createIndex with
    | ok table =>
      rw [respond, hcreate] at hrespond
      obtain ⟨rfl, rfl⟩ := Prod.mk.inj (Option.some.inj hrespond)
      exact ⟨by rw [createIndex_type hcreate]; exact hF.type, by simp only [resume, hpc]; trivial⟩
    | error e =>
      rw [respond, hcreate] at hrespond
      obtain ⟨rfl, rfl⟩ := Prod.mk.inj (Option.some.inj hrespond)
      exact ⟨hF.type, by simp only [resume, hpc]; exact pcFits_indexFailed _ _⟩
  | embed | exited =>
    rw [hpc] at hq
    cases hq <;> cases hrespond

theorem Fitting.serialStep {l : SerialLabel} (hF : Fitting n s) (hl : l.Produces n)
    (h : serialStep settings s l = some s') : Fitting n s' := by
  cases l with
  | arrive id content priority createdAt =>
    simp only [Workers.serialStep, step] at h
    split at h
    · cases h
    · obtain rfl := Option.some.inj h
      exact ⟨hF.type, hF.pc⟩
  | work reply =>
    cases reply with
    | ok => exact hF.work_ok h
    | vectors dims => exact hF.work_vectors h hl
    | raised e => exact hl.elim
  | migrate => exact hl.elim

/-- **A column of the right type** accepts every batch. -/
theorem Fitting.accepts (hF : Fitting n s) : Accepts settings s n := by
  intro ls hls t hpass id v hreq
  have hFt : Fitting n t := by
    induction hpass with
    | here => exact hF
    | next hs _ ih =>
      exact ih (hF.serialStep (hls _ List.mem_cons_self) hs) (fun l hl => hls l (List.mem_cons_of_mem _ hl)) hreq
  have hfits := hFt.pc
  cases hpc : t.worker.pc with
  | store id' v' rest vectors =>
    rw [hpc] at hreq hfits
    obtain ⟨rfl, rfl⟩ := Request.store.inj (Option.some.inj hreq)
    exact update_ok.mpr (by rw [hfits.1]; exact hFt.type)
  | poison =>
    rw [hpc] at hfits
    exact hfits.elim
  | _ =>
    rw [hpc] at hreq
    cases hreq

/-! ## A batch that comes -/

/-- A message and the calls up to its vector. -/
def nextBatch (id : Id) (dim : Nat) : List SerialLabel :=
  .arrive id (some []) 0 0 :: (List.replicate 5 (.work .ok) ++ [.work (.vectors [dim])])

theorem nextBatch_produces (id : Id) (n : Nat) : ∀ l ∈ nextBatch id n, l.Produces n := by
  simp [nextBatch, SerialLabel.Produces]

theorem fetch_some {table : Table} {limit : Int} (hlimit : 1 ≤ limit) (hpending : table.pending ≠ []) :
    ∃ row rows, table.fetch limit = .ok (row :: rows) ∧ (row :: rows).length ≤ limit.toNat := by
  have hne : table.ordered ≠ [] := by
    intro hnil
    have hperm := table.ordered_perm
    rw [hnil] at hperm
    exact hpending hperm.nil_eq.symm
  obtain ⟨r, rest, hr⟩ := List.exists_cons_of_ne_nil hne
  obtain ⟨k, hk⟩ : ∃ k, limit.toNat = k + 1 := ⟨limit.toNat - 1, by omega⟩
  have hrows : limitRows (r :: rest) limit = .ok (r :: rest.take k) := by
    rw [limitRows, if_neg (by omega), hk, List.take_succ_cons]
  rw [Table.fetch, hr, hrows]
  refine ⟨_, _, rfl, ?_⟩
  rw [List.length_cons, List.length_map, List.length_take, hk]
  omega

def State.goto (s : State) (pc : Pc) : State := { s with worker := { s.worker with pc } }

/-- A call that is answered, and where the answer takes the worker. -/
theorem work_goto {reply : Reply} {q : Request} {a : Answer} {pc : Pc} (hq : request settings s.worker.pc = some q)
    (hrespond : respond s.config s.table reply q = some (s.table, a)) (hadmits : q.admits a = true)
    (hresume : resume s.worker a = { s.worker with pc }) : work settings s reply = some (s.goto pc) :=
  work_eq_some.mpr ⟨q, s.table, a, _, hq, hrespond, answered_eq_some.mpr ⟨q, hq, hadmits, hresume⟩, rfl⟩

section

variable {config : WorkerConfig} {rows : List Job} {job : Job}

theorem work_count (hpc : s.worker.pc = .countPending config) (hpending : s.table.pending ≠ []) :
    work settings s .ok = some (s.goto (.fetch config)) := by
  have hcount : s.table.pending.length ≠ 0 := fun hzero => hpending (List.length_eq_zero_iff.mp hzero)
  refine work_goto (by rw [hpc]; rfl) rfl rfl ?_
  simp only [resume, hpc, if_neg hcount]

theorem work_fetch (hpc : s.worker.pc = .fetch config) (hfetch : s.table.fetch settings.batchSize = .ok (job :: rows))
    (hlen : (job :: rows).length ≤ settings.batchSize.toNat) :
    work settings s .ok = some (s.goto (.client config (job :: rows))) := by
  refine work_goto (q := .fetch settings.batchSize) (a := .rows (job :: rows)) (by rw [hpc]; rfl)
    (by rw [respond, hfetch]) (decide_eq_true hlen) ?_
  simp only [resume, hpc, List.cons_ne_nil, if_false]

theorem work_embed (hpc : s.worker.pc = .embed config (job :: rows)) (n : Nat) :
    work settings s (.vectors [n]) =
      some (s.goto (.store job.id ⟨n, some config.embeddings⟩ [] [⟨n, some config.embeddings⟩])) := by
  refine work_goto (by rw [hpc]; rfl) rfl rfl ?_
  simp [resume, hpc, storeNext]

end

/-- **A batch of any length** comes to its first write, if the worker takes
any rows at all. -/
theorem nextBatch_stores (hlimit : 1 ≤ settings.batchSize) (hhead : s.worker.pc = .loadConfig) (n : Nat) :
    ∃ id t, Passes (serialStep settings) s (nextBatch id n) t ∧ t.table.type = s.table.type ∧
      ∃ id' source, request settings t.worker.pc = some (.store id' ⟨n, source⟩) := by
  let id := maxOf (·.id) s.table.rows + 1
  let s₀ : State := { s with table := { s.table with rows := s.table.rows ++ [{ id, content := some [] }] } }
  have h₀ : serialStep settings s (.arrive id (some []) 0 0) = some s₀ := by
    refine if_neg fun hany => ?_
    obtain ⟨r, hr, hrid⟩ := List.any_eq_true.mp hany
    have hle : r.id ≤ maxOf (·.id) s.table.rows := le_maxOf hr
    rw [show r.id = maxOf (·.id) s.table.rows + 1 from eq_of_beq hrid] at hle
    exact Nat.not_succ_le_self _ hle
  have hpending : s₀.table.pending ≠ [] :=
    List.ne_nil_of_mem (List.mem_filter.mpr ⟨List.mem_append_right _ (List.mem_singleton.mpr rfl), rfl⟩)
  obtain ⟨job, rows, hfetch, hlen⟩ := fetch_some hlimit hpending
  have h₁ : work settings s₀ .ok = some (s₀.goto (.getPool s.config)) :=
    work_goto (by rw [show s₀.worker.pc = .loadConfig from hhead]; rfl) rfl rfl rfl
  have h₂ : work settings (s₀.goto (.getPool s.config)) .ok = some (s₀.goto (.countPending s.config)) :=
    work_goto rfl rfl rfl rfl
  have h₃ : work settings (s₀.goto (.countPending s.config)) .ok = some (s₀.goto (.fetch s.config)) :=
    work_count rfl hpending
  have h₄ : work settings (s₀.goto (.fetch s.config)) .ok = some (s₀.goto (.client s.config (job :: rows))) :=
    work_fetch rfl hfetch hlen
  have h₅ : work settings (s₀.goto (.client s.config (job :: rows))) .ok =
      some (s₀.goto (.embed s.config (job :: rows))) :=
    work_goto rfl rfl rfl rfl
  have h₆ : work settings (s₀.goto (.embed s.config (job :: rows))) (.vectors [n]) = some _ := work_embed rfl n
  exact ⟨id, _, .next h₀ (.next h₁ (.next h₂ (.next h₃ (.next h₄ (.next h₅ (.next h₆ (.here _ _))))))), rfl,
    job.id, some s.config.embeddings, rfl⟩

/-! ## Serial runs -/

/-- The worker has taken rows. -/
def busy : Pc → Bool
  | .client _ _ | .embed _ _ | .poison _ _ _ | .store _ _ _ _ | .indexExists _ | .alterType _ | .createIndex => true
  | _ => false

theorem busy_outerHandler (w : Worker) (e : Exn) : busy (outerHandler w e).pc = false := by
  rcases outerHandler_cases w e with ⟨_, h | h⟩ | ⟨_, h⟩ <;> rw [h] <;> rfl

/-- Rows are taken by a fetch. -/
theorem busy_resume {a : Answer} (h : busy (resume w a).pc = true) :
    busy w.pc = true ∨ ∃ config rows, w.pc = .fetch config ∧ a = .rows rows ∧ rows ≠ [] := by
  cases hpc : w.pc with
  | client | embed | poison | store | indexExists | alterType | createIndex => exact .inl rfl
  | fetch config =>
    cases a with
    | rows rows =>
      refine .inr ⟨config, rows, rfl, rfl, fun hnil => ?_⟩
      simp only [resume, hpc, hnil, if_true] at h
      cases h
    | _ =>
      simp only [resume, hpc, busy_outerHandler] at h
      cases h
  | countPending config =>
    cases a with
    | count n =>
      simp only [resume, hpc] at h
      split at h <;> cases h
    | _ =>
      simp only [resume, hpc, busy_outerHandler] at h
      cases h
  | _ =>
    cases a <;> simp only [resume, hpc, busy_outerHandler] at h <;> cases h

theorem respond_type {config : WorkerConfig} {table table' : Table} {reply : Reply} {q : Request} {a : Answer}
    (h : respond config table reply q = some (table', a)) :
    table'.type = table.type ∨ ∃ dim, q = .alterType dim := by
  have hexecuted : ∀ r : Except Exn Table, (∀ t', r = .ok t' → t'.type = table.type) →
      (executed table r).1.type = table.type := by
    intro r hr
    cases r with
    | ok t' => exact hr t' rfl
    | error e => rfl
  cases reply with
  | raised e =>
    obtain ⟨rfl, rfl⟩ := Prod.mk.inj (Option.some.inj h)
    exact .inl rfl
  | vectors dims =>
    cases q <;> cases h
    exact .inl rfl
  | ok =>
    cases q with
    | alterType dim => exact .inr ⟨dim, rfl⟩
    | store id v =>
      obtain rfl := congrArg Prod.fst (Option.some.inj h)
      exact .inl (hexecuted _ fun t' => update_type)
    | createIndex =>
      obtain rfl := congrArg Prod.fst (Option.some.inj h)
      exact .inl (hexecuted _ fun t' => createIndex_type)
    | fetch limit =>
      rw [respond] at h
      split at h <;> cases h <;> exact .inl rfl
    | embed => cases h
    | _ =>
      cases h
      exact .inl rfl

/-- Between two calls of the tool; rows are only taken under a positive limit. -/
structure SerialInv (settings : Settings) (s : State) : Prop where
  idle : s.migration = .idle
  taken : s.table.type ≠ none ∨ busy s.worker.pc = true → 1 ≤ settings.batchSize

theorem SerialInv.work {reply : Reply} (hI : SerialInv settings s) (h : work settings s reply = some s') :
    SerialInv settings s' := by
  obtain ⟨q, table, a, w, hq, hrespond, hstep, rfl⟩ := work_eq_some.mp h
  obtain ⟨q', hq', hadmits, rfl⟩ := answered_eq_some.mp hstep
  obtain rfl := Option.some.inj (hq.symm.trans hq')
  refine ⟨hI.idle, fun htaken => ?_⟩
  rcases htaken with htype | hbusy
  · rcases respond_type hrespond with hsame | ⟨dim, rfl⟩
    · exact hI.taken (.inl (hsame ▸ htype))
    · refine hI.taken (.inr ?_)
      cases hpc : s.worker.pc <;> rw [hpc] at hq <;> cases hq
      rfl
  · rcases busy_resume hbusy with hbusy | ⟨config, rows, hpc, rfl, hne⟩
    · exact hI.taken (.inr hbusy)
    · rw [hpc] at hq
      obtain rfl := Option.some.inj hq
      have hlen : rows.length ≤ settings.batchSize.toNat := of_decide_eq_true hadmits
      have hpos := List.length_pos_iff.mpr hne
      omega

/-- The tool leaves the worker and the type of the column alone. -/
theorem runStatement_frame {fault : Option Exn} (h : runStatement s fault = some s') :
    s'.worker = s.worker ∧ s'.table.type = s.table.type := by
  cases runStatement_cases h with
  | ran new statement => cases statement <;> exact ⟨rfl, rfl⟩
  | reported => exact ⟨rfl, rfl⟩
  | failed => exact ⟨rfl, rfl⟩

theorem statements_frame : ∀ {faults : List (Option Exn)} {s s' : State},
    exec (step settings) s (faults.map .statement) = some s' →
      s'.worker = s.worker ∧ s'.table.type = s.table.type
  | [], s, s', h => by
    obtain rfl := Option.some.inj h
    exact ⟨rfl, rfl⟩
  | fault :: faults, s, s', h => by
    obtain ⟨s₁, h₁, hrest⟩ := Option.bind_eq_some_iff.mp h
    have hone := runStatement_frame h₁
    have hall := statements_frame hrest
    exact ⟨hall.1.trans hone.1, hall.2.trans hone.2⟩

/-- **A migration** of a serial history. -/
theorem migrate_frame {model : Text} {dims : Nat} {faults : List (Option Exn)}
    (h : serialStep settings s (.migrate model dims faults) = some s') :
    s'.migration = .idle ∧ s'.worker = s.worker ∧ s.worker.pc = .loadConfig ∧ s'.table.type = s.table.type := by
  obtain ⟨hhead, h⟩ := Option.ite_none_right_eq_some.mp h
  obtain ⟨s₂, hrun, hdone⟩ := Option.bind_eq_some_iff.mp h
  obtain ⟨_, hdone⟩ := Option.ite_none_right_eq_some.mp hdone
  obtain rfl := Option.some.inj hdone
  obtain ⟨s₁, h₁, hrest⟩ := Option.bind_eq_some_iff.mp hrun
  obtain ⟨_, h₁⟩ := Option.ite_none_right_eq_some.mp h₁
  obtain rfl := Option.some.inj h₁
  obtain ⟨hworker, htype⟩ := statements_frame hrest
  exact ⟨rfl, hworker, hhead, htype⟩

theorem SerialInv.step {l : SerialLabel} (hI : SerialInv settings s) (h : serialStep settings s l = some s') :
    SerialInv settings s' := by
  cases l with
  | arrive id content priority createdAt =>
    simp only [serialStep, Workers.step] at h
    split at h
    · cases h
    · obtain rfl := Option.some.inj h
      exact ⟨hI.idle, hI.taken⟩
  | work reply => exact hI.work h
  | migrate model dims faults =>
    obtain ⟨hidle, hworker, _, htype⟩ := migrate_frame h
    exact ⟨hidle, by rw [hworker, htype]; exact hI.taken⟩

/-- **Batches after a migration**, in every serial history from a fresh
schema. -/
theorem next_batch_iff (settings : Settings) (config : WorkerConfig) (ls : List SerialLabel) :
    (∀ s model dims faults s', Takes (serialStep settings) (start config) ls s (.migrate model dims faults) s' →
      Accepts settings s' dims) ↔
      ∀ s model dims faults s', Takes (serialStep settings) (start config) ls s (.migrate model dims faults) s' →
        s.table.type = none ∨ s.table.type = some dims := by
  have hstart : SerialInv settings (start config) := ⟨rfl, fun h => h.elim (fun h => absurd rfl h) nofun⟩
  constructor
  · intro h s model dims faults s' htakes
    have hI : SerialInv settings s := htakes.passes.1.inv (fun _ _ _ hI h => hI.step h) hstart
    obtain ⟨_, hworker, hhead, htype⟩ := migrate_frame htakes.enabled
    cases hs : s.table.type with
    | none => exact .inl rfl
    | some d =>
      have hlimit : 1 ≤ settings.batchSize := hI.taken (.inl (by simp [hs]))
      obtain ⟨id, t, hpass, htype', id', source, hreq⟩ := nextBatch_stores hlimit (hworker ▸ hhead) dims
      have hok := h s model dims faults s' htakes _ (nextBatch_produces id dims) t hpass id' _ hreq
      rw [← hs, ← htype, ← htype']
      exact update_ok.mp hok
  · intro h s model dims faults s' htakes
    obtain ⟨_, hworker, hhead, htype⟩ := migrate_frame htakes.enabled
    have hfits := h s model dims faults s' htakes
    exact Fitting.accepts ⟨htype ▸ hfits, by rw [hworker, hhead]; trivial⟩

/-- A batch of two dimensions types the column. -/
def firstBatch : List SerialLabel := nextBatch 1 2 ++ List.replicate 4 (.work .ok)

/-- Then a migration to three, undisturbed. -/
def toThree : SerialLabel := .migrate "large".toList 3 (List.replicate plan.length none)

/-- The next batch is refused. -/
theorem next_batch_false :
    ¬ ∀ (settings : Settings) (config : WorkerConfig) (ls : List SerialLabel) (s : State) (model : Text) (dims : Nat)
        (faults : List (Option Exn)) (s' : State),
      Takes (serialStep settings) (start config) ls s (.migrate model dims faults) s' → Accepts settings s' dims := by
  intro h
  obtain ⟨s, s', hs, hmigrate, hhead, htype⟩ : ∃ s s', exec (serialStep {}) (start {}) firstBatch = some s ∧
      serialStep {} s toThree = some s' ∧ s'.worker.pc = .loadConfig ∧ s'.table.type = some 2 :=
    ⟨_, _, rfl, rfl, by decide, by decide⟩
  have haccepts : Accepts {} s' 3 := h {} {} (firstBatch ++ [toThree]) s _ 3 _ s' (takes_of_exec hs hmigrate)
  obtain ⟨id, t, hpass, htype', id', source, hreq⟩ :=
    nextBatch_stores (show 1 ≤ ({} : Settings).batchSize by decide) hhead 3
  have hok := update_ok.mp (haccepts _ (nextBatch_produces id 3) t hpass id' _ hreq)
  rw [htype', htype] at hok
  exact absurd hok (by simp)

end ContextBroker.Workers
