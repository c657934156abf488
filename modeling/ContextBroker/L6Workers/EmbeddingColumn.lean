import ContextBroker.Core.StateGraph
import ContextBroker.L1Data.Tables
import ContextBroker.L6Workers.EmbeddingWorker

/-!
# The embedding column

The `embedding` column of conversation_messages with its type and its
indexes, the worker that fills it and `migrate_embeddings`, which switches
the model and wipes it. `step` interleaves them, one call of the worker or
one statement of the tool at a time; every statement commits on its own. A
call of the worker is answered from the tables, or by the embeddings client,
or raises.

pgvector: a column of type `vector(d)` rejects other lengths, it is given
that type only if it holds none and no index of another length is on it, and
an HNSW index needs a typed column.

`Inv`: the rows the worker still has to write are there, once each, and
have no embedding; a write ticks off the first (`WorkStep`).
-/
namespace ContextBroker.Workers

open EmbeddingWorker LTS

/-! ## The table -/

/-- mirrors postgres/init.sql:48-68 -/
structure Row where
  id : Id
  content : Option Text
  priority : Nat := 0
  createdAt : Time := 0
  embedding : Option Embedding := none
  deriving DecidableEq, Repr

/-- The worker and migration 9 create the first; the tool drops the others. -/
inductive IndexName where
  | messagesEmbedding | conversationMessagesHnsw | systemLogsHnsw | domainInformationHnsw
  deriving DecidableEq, Repr

/-- `type`: none for `vector`, `some d` for `vector(d)`. -/
structure Table where
  rows : List Row := []
  type : Option Nat := none
  indexes : List IndexName := []
  deriving DecidableEq, Repr

namespace Table

def pending (t : Table) : List Row := t.rows.filter fun r => r.embedding.isNone && r.content.isSome

/-- `ORDER BY priority DESC, created_at ASC`. -/
def ordered (t : Table) : List Row :=
  t.pending.insertionSort fun r r' =>
    r'.priority < r.priority ∨ r.priority = r'.priority ∧ r.createdAt ≤ r'.createdAt

theorem ordered_perm (t : Table) : t.ordered.Perm t.pending := List.perm_insertionSort _ _

/-- mirrors app/workers/db_worker.py:88-97 -/
def fetch (t : Table) (limit : Int) : Except Exn (List Job) := do
  let rows ← limitRows t.ordered limit
  return rows.map fun r => ⟨r.id, r.content.getD []⟩

/-- The type of the column takes the vector. -/
def fits (t : Table) (v : Embedding) : Bool :=
  match t.type with
  | none => true
  | some d => d == v.dim

def set (t : Table) (id : Id) (v : Embedding) : Table :=
  { t with rows := t.rows.map fun r => if r.id = id then { r with embedding := some v } else r }

/-- `UPDATE conversation_messages SET embedding = $1::vector WHERE id = $2`. -/
def update (t : Table) (id : Id) (v : Embedding) : Except Exn Table :=
  if t.fits v then .ok (t.set id v) else .error .postgresError

/-- `ALTER COLUMN embedding TYPE vector(dim)`. -/
def alterType (t : Table) (dim : Nat) : Except Exn Table :=
  if t.rows.all (fun r => r.embedding.all fun v => v.dim == dim) && (t.indexes.isEmpty || t.type == some dim) then
    .ok { t with type := some dim }
  else .error .postgresError

/-- `CREATE INDEX IF NOT EXISTS idx_messages_embedding ... USING hnsw`. -/
def createIndex (t : Table) : Except Exn Table :=
  if t.indexes.contains .messagesEmbedding then .ok t
  else if t.type.isNone then .error .postgresError
  else .ok { t with indexes := t.indexes ++ [.messagesEmbedding] }

/-- `DROP INDEX IF EXISTS`. -/
def dropIndex (t : Table) (name : IndexName) : Table := { t with indexes := t.indexes.filter (· != name) }

/-- `UPDATE conversation_messages SET embedding = NULL WHERE embedding IS NOT NULL`. -/
def wipe (t : Table) : Table := { t with rows := t.rows.map fun r => { r with embedding := none } }

end Table

/-! ## The system -/

/-- The statements of `migrate_embeddings`; `elsewhere` stands for those on
other columns and tables. -/
inductive Statement where
  | updateConfig
  | dropIndex (name : IndexName)
  | wipeMessages
  | elsewhere
  deriving DecidableEq, Repr

/-- mirrors context_broker_te/tools/admin.py:415-458 -/
def plan : List Statement :=
  [.updateConfig, .dropIndex .conversationMessagesHnsw, .dropIndex .systemLogsHnsw,
    .dropIndex .domainInformationHnsw, .wipeMessages, .elsewhere, .elsewhere, .elsewhere]

inductive Migration where
  | idle
  | running (config : EmbeddingsConfig) (rest : List Statement)
  /-- "Migration complete". -/
  | returned
  /-- The config file could not be written, or an exception escaped. -/
  | failed
  deriving DecidableEq, Repr

structure State where
  config : WorkerConfig
  table : Table := {}
  worker : Worker := {}
  migration : Migration := .idle
  deriving DecidableEq, Repr

/-- How a call of the worker ends: as the tables and the file have it, with
the vectors of the client, or with an exception. -/
inductive Reply where
  | ok
  | vectors (dims : List Nat)
  | raised (e : Exn)
  deriving DecidableEq, Repr

inductive Label where
  /-- A message is stored. -/
  | arrive (id : Id) (content : Option Text) (priority : Nat) (createdAt : Time)
  | work (reply : Reply)
  /-- `migrate_embeddings(..., confirm=true)` is called. -/
  | migrate (config : EmbeddingsConfig)
  | statement (fault : Option Exn)
  deriving DecidableEq, Repr

def executed (t : Table) : Except Exn Table → Table × Answer
  | .ok t' => (t', .done)
  | .error e => (t, .raised e)

def respond (config : WorkerConfig) (t : Table) : Reply → Request → Option (Table × Answer)
  | .raised e, _ => some (t, .raised e)
  | .vectors dims, .embed c _ _ => some (t, .vectors (dims.map fun d => ⟨d, some c⟩))
  | .vectors _, _ => none
  | .ok, .embed _ _ _ => none
  | .ok, .loadConfig => some (t, .config config)
  | .ok, .countPending => some (t, .count t.pending.length)
  | .ok, .fetch limit =>
    match t.fetch limit with
    | .ok rows => some (t, .rows rows)
    | .error e => some (t, .raised e)
  | .ok, .store id v => some (executed t (t.update id v))
  | .ok, .indexExists => some (t, .exists (t.indexes.contains .messagesEmbedding))
  | .ok, .alterType dim => some (executed t (t.alterType dim))
  | .ok, .createIndex => some (executed t t.createIndex)
  | .ok, .getPool | .ok, .sleep _ | .ok, .client _ | .ok, .delete _ => some (t, .done)

def work (settings : Settings) (s : State) (reply : Reply) : Option State :=
  (request settings s.worker.pc).bind fun q =>
    (respond s.config s.table reply q).bind fun (table, a) =>
      (EmbeddingWorker.step settings s.worker a).map fun worker => { s with table, worker }

/-- What a statement of the tool does. -/
def Statement.apply (new : EmbeddingsConfig) (s : State) : Statement → State
  | .updateConfig => { s with config := { s.config with embeddings := new } }
  | .dropIndex name => { s with table := s.table.dropIndex name }
  | .wipeMessages => { s with table := s.table.wipe }
  | .elsewhere => s

/-- The first statement has a handler of its own; past it a database error is
reported and the tool returns as usual.
mirrors context_broker_te/tools/admin.py:424-478 -/
def runStatement (s : State) (fault : Option Exn) : Option State :=
  match s.migration with
  | .running new (statement :: rest) =>
    match fault with
    | none =>
      some { statement.apply new s with migration := if rest = [] then .returned else .running new rest }
    | some e =>
      if statement ≠ .updateConfig ∧ e.caughtBy [.postgresError, .osError] then
        some { s with migration := .returned }
      else some { s with migration := .failed }
  | _ => none

def step (settings : Settings) (s : State) : Label → Option State
  | .arrive id content priority createdAt =>
    if s.table.rows.any (·.id == id) then none
    else some { s with table := { s.table with rows := s.table.rows ++ [{ id, content, priority, createdAt }] } }
  | .work reply => work settings s reply
  | .migrate new => if s.migration = .idle then some { s with migration := .running new plan } else none
  | .statement fault => runStatement s fault

/-- A fresh schema. -/
def start (config : WorkerConfig) : State := { config }

/-! ## The rows a worker still has to write -/

def todo : Pc → List Id
  | .client _ rows => rows.map (·.id)
  | .embed _ rows => rows.map (·.id)
  | .poison _ id rest => id :: rest.map (·.id)
  | .store id _ rest _ => id :: rest.map (·.1)
  | _ => []

variable {settings : Settings} {s s' : State} {l : Label} {w w' : Worker} {e : Exn}

theorem todo_outerHandler (w : Worker) (e : Exn) : todo (outerHandler w e).pc = [] := by
  rcases outerHandler_cases w e with ⟨_, h | h⟩ | ⟨_, h⟩ <;> rw [h] <;> rfl

theorem todo_indexFailed (w : Worker) (e : Exn) : todo (indexFailed w e).pc = [] := by
  rcases indexFailed_cases w e with ⟨_, h | h⟩ | ⟨_, h⟩ <;> rw [h] <;> rfl

theorem todo_poisonNext (w : Worker) (zero : Embedding) (rows : List Job) :
    todo (poisonNext w zero rows).pc = rows.map (·.id) := by
  cases rows <;> rfl

theorem todo_storeNext (w : Worker) (vectors : List Embedding) (pairs : List (Id × Embedding)) :
    todo (storeNext w vectors pairs).pc = pairs.map (·.1) := by
  cases pairs with
  | nil => cases vectors <;> rfl
  | cons pair rest => rfl

theorem todo_embedFailed (w : Worker) (config : WorkerConfig) (rows : List Job) (e : Exn) :
    (todo (embedFailed w config rows e).pc).Sublist (rows.map (·.id)) := by
  unfold embedFailed
  dsimp only
  split
  · exact List.nil_sublist _
  · split
    · split
      · rw [todo_poisonNext]
      · exact List.nil_sublist _
    · rw [todo_outerHandler]
      exact List.nil_sublist _

/-- An exception leaves no more to write. -/
theorem todo_raised (w : Worker) (e : Exn) : (todo (resume w (.raised e)).pc).Sublist (todo w.pc) := by
  cases hpc : w.pc with
  | embed config rows =>
    simp only [resume, hpc]
    exact todo_embedFailed w config rows e
  | indexExists | alterType | createIndex =>
    simp only [resume, hpc, todo_indexFailed]
    exact List.nil_sublist _
  | backoff =>
    simp only [resume, hpc]
    exact List.nil_sublist _
  | _ =>
    simp only [resume, hpc, todo_outerHandler]
    exact List.nil_sublist _

/-- The rows of a batch are rows without an embedding. -/
structure Fetched (t : Table) (ids : List Id) : Prop where
  nodup : (t.rows.map (·.id)).Nodup → ids.Nodup
  pending : ∀ id ∈ ids, ∃ r ∈ t.rows, r.id = id ∧ r.embedding = none

theorem fetched_nil (t : Table) : Fetched t [] := ⟨fun _ => List.nodup_nil, fun _ h => nomatch h⟩

theorem fetch_fetched {t : Table} {limit : Int} {rows : List Job} (h : t.fetch limit = .ok rows) :
    Fetched t (rows.map (·.id)) := by
  obtain ⟨taken, hlimit, h⟩ := bind_eq_ok.mp h
  obtain rfl := Except.ok.inj h
  obtain ⟨_, rfl⟩ := limitRows_ok hlimit
  have hperm := t.ordered_perm
  have hids : ∀ l : List Row, (l.map fun r => (⟨r.id, r.content.getD []⟩ : Job)).map (·.id) = l.map (·.id) := by
    intro l
    rw [List.map_map]
    rfl
  rw [hids]
  constructor
  · intro hnodup
    have hpending : (t.pending.map (·.id)).Nodup := (List.filter_sublist.map _).nodup hnodup
    exact ((List.take_sublist _ _).map _).nodup ((hperm.map _).nodup_iff.mpr hpending)
  · intro id hid
    obtain ⟨r, hr, rfl⟩ := List.mem_map.mp hid
    obtain ⟨hmem, hnull⟩ := List.mem_filter.mp (hperm.mem_iff.mp (List.mem_of_mem_take hr))
    simp only [Bool.and_eq_true, Option.isNone_iff_eq_none] at hnull
    exact ⟨r, hmem, rfl, hnull.1⟩

/-- What a call of the worker does to the rows and to the list: a write ticks
off the first, another call leaves the rows alone. -/
inductive WorkStep (settings : Settings) (s s' : State) (reply : Reply) : Prop where
  | wrote (id : Id) (v : Embedding) (rest : List Id) (asked : request settings s.worker.pc = some (.store id v))
    (ok : reply = .ok) (fits : s.table.fits v = true) (rows : s'.table.rows = (s.table.set id v).rows)
    (before : todo s.worker.pc = id :: rest) (after : todo s'.worker.pc = rest)
  | kept (asked : ∀ id v, request settings s.worker.pc = some (.store id v) → reply = .ok → s.table.fits v = false)
    (rows : s'.table.rows = s.table.rows)
    (left : (todo s'.worker.pc).Sublist (todo s.worker.pc) ∨ Fetched s.table (todo s'.worker.pc))

theorem work_eq_some {reply : Reply} : work settings s reply = some s' ↔
    ∃ q t a w, request settings s.worker.pc = some q ∧ respond s.config s.table reply q = some (t, a) ∧
      EmbeddingWorker.step settings s.worker a = some w ∧ s' = { s with table := t, worker := w } := by
  unfold work
  simp only [Option.bind_eq_some_iff, Option.map_eq_some_iff, Prod.exists]
  constructor
  · intro h
    obtain ⟨q, hq, t, a, hr, w, hw, rfl⟩ := h
    exact ⟨q, t, a, w, hq, hr, hw, rfl⟩
  · intro h
    obtain ⟨q, t, a, w, hq, hr, hw, rfl⟩ := h
    exact ⟨q, hq, t, a, hr, w, hw, rfl⟩

/-- A statement that leaves the rows alone. -/
theorem alterType_rows {t t' : Table} {dim : Nat} (h : t.alterType dim = .ok t') : t'.rows = t.rows := by
  unfold Table.alterType at h
  split at h
  · obtain rfl := Except.ok.inj h
    rfl
  · cases h

theorem createIndex_rows {t t' : Table} (h : t.createIndex = .ok t') : t'.rows = t.rows := by
  unfold Table.createIndex at h
  split at h
  · obtain rfl := Except.ok.inj h
    rfl
  · split at h
    · cases h
    · obtain rfl := Except.ok.inj h
      rfl

theorem zip_fst_sublist {α β : Type} : ∀ (l : List α) (l' : List β), ((l.zip l').map (·.1)).Sublist l
  | [], _ => List.nil_sublist _
  | _ :: _, [] => List.nil_sublist _
  | a :: l, _ :: l' => (zip_fst_sublist l l').cons_cons a

/-- A write that the table takes, or refuses. -/
theorem update_cases (t : Table) (id : Id) (v : Embedding) :
    t.fits v = true ∧ executed t (t.update id v) = (t.set id v, .done) ∨
      t.fits v = false ∧ executed t (t.update id v) = (t, .raised .postgresError) := by
  unfold Table.update
  cases t.fits v with
  | true => exact .inl ⟨rfl, rfl⟩
  | false => exact .inr ⟨rfl, rfl⟩

section Calls

variable {q : Request} {t : Table} {a : Answer} {w : Worker} {reply : Reply}

/-- A call that is no write. -/
theorem WorkStep.other (hq : request settings s.worker.pc = some q) (hne : ∀ id v, q ≠ .store id v)
    (hrows : t.rows = s.table.rows)
    (hleft : (todo w.pc).Sublist (todo s.worker.pc) ∨ Fetched s.table (todo w.pc)) :
    WorkStep settings s { s with table := t, worker := w } reply :=
  .kept (fun id v hreq _ => absurd (Option.some.inj (hq.symm.trans hreq)) (hne id v)) hrows hleft

/-- A statement on the schema, which commits or raises. -/
theorem WorkStep.schema (hq : request settings s.worker.pc = some q) (hne : ∀ id v, q ≠ .store id v)
    {out : Except Exn Table} (hrows : ∀ t', out = .ok t' → t'.rows = s.table.rows)
    (hleft : (todo (resume s.worker .done).pc).Sublist (todo s.worker.pc)) (hrun : executed s.table out = (t, a)) :
    WorkStep settings s { s with table := t, worker := resume s.worker a } reply := by
  cases out with
  | ok t' =>
    obtain ⟨rfl, rfl⟩ := Prod.mk.inj hrun
    exact .other hq hne (hrows _ rfl) (.inl hleft)
  | error e =>
    obtain ⟨rfl, rfl⟩ := Prod.mk.inj hrun
    exact .other hq hne rfl (.inl (todo_raised s.worker e))

/-- A write of the first of the list. -/
theorem WorkStep.write {id : Id} {v : Embedding} {rest : List Id}
    (hq : request settings s.worker.pc = some (.store id v)) (hbefore : todo s.worker.pc = id :: rest)
    (hafter : todo (resume s.worker .done).pc = rest)
    (hrun : executed s.table (s.table.update id v) = (t, a)) :
    WorkStep settings s { s with table := t, worker := resume s.worker a } .ok := by
  rcases update_cases s.table id v with ⟨hfits, hcase⟩ | ⟨hfits, hcase⟩
  · obtain ⟨rfl, rfl⟩ := Prod.mk.inj (hcase.symm.trans hrun)
    exact .wrote id v rest hq rfl hfits rfl hbefore hafter
  · obtain ⟨rfl, rfl⟩ := Prod.mk.inj (hcase.symm.trans hrun)
    refine .kept (fun id' v' hreq _ => ?_) rfl (.inl (todo_raised s.worker _))
    obtain ⟨rfl, rfl⟩ := Request.store.inj (Option.some.inj (hq.symm.trans hreq))
    exact hfits

end Calls

/-- **One call of the worker.** -/
theorem work_step {reply : Reply} (h : work settings s reply = some s') : WorkStep settings s s' reply := by
  obtain ⟨q, t, a, w, hq, hrespond, hstep, rfl⟩ := work_eq_some.mp h
  obtain ⟨_, _, _, rfl⟩ := answered_eq_some.mp hstep
  cases reply with
  | raised e =>
    obtain ⟨rfl, rfl⟩ := Prod.mk.inj (Option.some.inj hrespond)
    exact .kept (by simp) rfl (.inl (todo_raised s.worker e))
  | vectors dims =>
    cases hpc : s.worker.pc with
    | embed config rows =>
      rw [hpc] at hq
      obtain rfl := Option.some.inj hq
      obtain ⟨rfl, rfl⟩ := Prod.mk.inj (Option.some.inj hrespond)
      refine .kept (by simp) rfl (.inl ?_)
      simp only [resume, hpc]
      rw [todo_storeNext]
      exact zip_fst_sublist _ _
    | _ =>
      rw [hpc] at hq
      cases hq <;> cases hrespond
  | ok =>
    have hasked := hq
    cases hpc : s.worker.pc with
    | loadConfig | getPool | poll | client | retry | backoff =>
      rw [hpc] at hq
      obtain rfl := Option.some.inj hq
      obtain ⟨rfl, rfl⟩ := Prod.mk.inj (Option.some.inj hrespond)
      refine .other hasked (by simp) rfl (.inl ?_)
      simp only [resume, hpc]
      exact List.Sublist.refl _
    | countPending | indexExists =>
      rw [hpc] at hq
      obtain rfl := Option.some.inj hq
      obtain ⟨rfl, rfl⟩ := Prod.mk.inj (Option.some.inj hrespond)
      refine .other hasked (by simp) rfl (.inl ?_)
      simp only [resume, hpc]
      split <;> exact List.Sublist.refl _
    | fetch config =>
      rw [hpc] at hq
      obtain rfl := Option.some.inj hq
      rw [respond] at hrespond
      split at hrespond
      · rename_i rows hfetch
        obtain ⟨rfl, rfl⟩ := Prod.mk.inj (Option.some.inj hrespond)
        refine .other hasked (by simp) rfl (.inr ?_)
        simp only [resume, hpc]
        split
        · exact fetched_nil _
        · exact fetch_fetched hfetch
      · rename_i e _
        obtain ⟨rfl, rfl⟩ := Prod.mk.inj (Option.some.inj hrespond)
        exact .other hasked (by simp) rfl (.inl (todo_raised s.worker e))
    | poison zero id rest =>
      rw [hpc] at hq
      obtain rfl := Option.some.inj hq
      have hbefore : todo s.worker.pc = id :: rest.map (·.id) := by rw [hpc, todo]
      refine .write hasked hbefore ?_ (Option.some.inj hrespond)
      simp only [resume, hpc, todo_poisonNext]
    | store id v rest vectors =>
      rw [hpc] at hq
      obtain rfl := Option.some.inj hq
      have hbefore : todo s.worker.pc = id :: rest.map (·.1) := by rw [hpc, todo]
      refine .write hasked hbefore ?_ (Option.some.inj hrespond)
      simp only [resume, hpc, todo_storeNext]
    | alterType dim =>
      rw [hpc] at hq
      obtain rfl := Option.some.inj hq
      refine .schema hasked (by simp) (fun _ => alterType_rows) ?_ (Option.some.inj hrespond)
      simp only [resume, hpc]
      exact List.Sublist.refl _
    | createIndex =>
      rw [hpc] at hq
      obtain rfl := Option.some.inj hq
      refine .schema hasked (by simp) (fun _ => createIndex_rows) ?_ (Option.some.inj hrespond)
      simp only [resume, hpc]
      exact List.Sublist.refl _
    | embed | exited =>
      rw [hpc] at hq
      cases hq <;> cases hrespond

/-! ## The invariant -/

/-- Primary keys, and what the worker has on its list. -/
structure Inv (s : State) : Prop where
  nodup : (s.table.rows.map (·.id)).Nodup
  listed : (todo s.worker.pc).Nodup
  pending : ∀ id ∈ todo s.worker.pc, ∃ r ∈ s.table.rows, r.id = id ∧ r.embedding = none

theorem Inv.start (config : WorkerConfig) : Inv (start config) :=
  ⟨List.nodup_nil, List.nodup_nil, fun _ h => nomatch h⟩

theorem Table.ids_set (t : Table) (id : Id) (v : Embedding) :
    (t.set id v).rows.map (·.id) = t.rows.map (·.id) := by
  unfold Table.set
  rw [List.map_map]
  refine List.map_congr_left fun r _ => ?_
  simp only [Function.comp]
  split <;> rfl

theorem Table.mem_set {t : Table} {id : Id} {v : Embedding} {r : Row} (hr : r ∈ t.rows) (hne : r.id ≠ id) :
    r ∈ (t.set id v).rows := by
  refine List.mem_map.mpr ⟨r, hr, ?_⟩
  rw [if_neg hne]

theorem Table.ids_wipe (t : Table) : t.wipe.rows.map (·.id) = t.rows.map (·.id) := by
  unfold Table.wipe
  rw [List.map_map]
  rfl

theorem Inv.work {reply : Reply} (hI : Inv s) (h : work settings s reply = some s') : Inv s' := by
  cases work_step h with
  | wrote id v rest _ _ _ rows before after =>
    have hlisted := hI.listed
    rw [before] at hlisted
    obtain ⟨hnotin, hrest⟩ := List.nodup_cons.mp hlisted
    refine ⟨by rw [rows, Table.ids_set]; exact hI.nodup, by rw [after]; exact hrest, fun id' hid' => ?_⟩
    rw [after] at hid'
    obtain ⟨r, hr, rfl, hnull⟩ := hI.pending id' (before ▸ List.mem_cons_of_mem _ hid')
    refine ⟨r, ?_, rfl, hnull⟩
    rw [rows]
    exact Table.mem_set hr (fun heq => hnotin (heq ▸ hid'))
  | kept _ rows left =>
    rcases left with hsub | hfetched
    · exact ⟨rows ▸ hI.nodup, hsub.nodup hI.listed, fun id hid => rows ▸ hI.pending id (hsub.subset hid)⟩
    · exact ⟨rows ▸ hI.nodup, hfetched.nodup hI.nodup, fun id hid => rows ▸ hfetched.pending id hid⟩

/-- What a statement of the tool does to the rows. -/
theorem Statement.rows_apply (statement : Statement) (new : EmbeddingsConfig) (s : State) :
    (statement.apply new s).worker = s.worker ∧
      ((statement.apply new s).table.rows = s.table.rows ∨
        statement = .wipeMessages ∧ (statement.apply new s).table.rows = s.table.wipe.rows) := by
  cases statement with
  | wipeMessages => exact ⟨rfl, .inr ⟨rfl, rfl⟩⟩
  | updateConfig | dropIndex | elsewhere => exact ⟨rfl, .inl rfl⟩

theorem Inv.statement {new : EmbeddingsConfig} (hI : Inv s) (statement : Statement) :
    Inv (statement.apply new s) := by
  obtain ⟨hworker, hsame | ⟨_, hwipe⟩⟩ := statement.rows_apply new s
  · exact ⟨by rw [hsame]; exact hI.nodup, by rw [hworker]; exact hI.listed, by rw [hworker, hsame]; exact hI.pending⟩
  · refine ⟨by rw [hwipe, Table.ids_wipe]; exact hI.nodup, by rw [hworker]; exact hI.listed, fun id hid => ?_⟩
    rw [hworker] at hid
    obtain ⟨r, hr, rfl, _⟩ := hI.pending id hid
    rw [hwipe]
    exact ⟨{ r with embedding := none }, List.mem_map_of_mem hr, rfl, rfl⟩

/-- Moving the tool on keeps the tables. -/
theorem Inv.migration (hI : Inv s) (m : Migration) : Inv { s with migration := m } :=
  ⟨hI.nodup, hI.listed, hI.pending⟩

/-- What comes of a statement of the tool: it runs, or its error is reported,
or it is the first one and fails the tool. -/
inductive StatementStep (s : State) (fault : Option Exn) : State → Prop where
  | ran (new : EmbeddingsConfig) (statement : Statement) (rest : List Statement)
    (running : s.migration = .running new (statement :: rest)) (ok : fault = none) :
    StatementStep s fault
      { statement.apply new s with migration := if rest = [] then .returned else .running new rest }
  | reported (new : EmbeddingsConfig) (statement : Statement) (rest : List Statement) (e : Exn)
    (running : s.migration = .running new (statement :: rest)) (raised : fault = some e)
    (caught : statement ≠ .updateConfig ∧ e.caughtBy [.postgresError, .osError]) :
    StatementStep s fault { s with migration := .returned }
  | failed (new : EmbeddingsConfig) (statement : Statement) (rest : List Statement) (e : Exn)
    (running : s.migration = .running new (statement :: rest)) (raised : fault = some e)
    (uncaught : ¬(statement ≠ .updateConfig ∧ e.caughtBy [.postgresError, .osError])) :
    StatementStep s fault { s with migration := .failed }

theorem runStatement_cases {fault : Option Exn} (h : runStatement s fault = some s') : StatementStep s fault s' := by
  unfold runStatement at h
  split at h
  · rename_i new statement rest hrunning
    split at h
    · obtain rfl := Option.some.inj h
      exact .ran new statement rest hrunning rfl
    · rename_i e
      split at h
      · rename_i hcaught
        obtain rfl := Option.some.inj h
        exact .reported new statement rest e hrunning rfl hcaught
      · rename_i huncaught
        obtain rfl := Option.some.inj h
        exact .failed new statement rest e hrunning rfl huncaught
  · cases h

theorem Inv.step (hI : Inv s) (h : step settings s l = some s') : Inv s' := by
  cases l with
  | arrive id content priority createdAt =>
    simp only [Workers.step] at h
    split at h
    · cases h
    · rename_i hfresh
      obtain rfl := Option.some.inj h
      have hnew : id ∉ s.table.rows.map (·.id) := by
        intro hid
        obtain ⟨r, hr, hrid⟩ := List.mem_map.mp hid
        exact hfresh (List.any_eq_true.mpr ⟨r, hr, beq_iff_eq.mpr hrid⟩)
      refine ⟨?_, hI.listed, fun id' hid' => ?_⟩
      · rw [List.map_append]
        exact List.nodup_append.mpr ⟨hI.nodup, List.nodup_singleton _, fun x hx y hy => by
          obtain rfl := List.mem_singleton.mp hy
          rintro rfl
          exact hnew hx⟩
      · obtain ⟨r, hr, hrow⟩ := hI.pending id' hid'
        exact ⟨r, List.mem_append_left _ hr, hrow⟩
  | work reply => exact hI.work h
  | migrate new =>
    obtain ⟨_, h⟩ := Option.ite_none_right_eq_some.mp h
    obtain rfl := Option.some.inj h
    exact hI.migration _
  | statement fault =>
    cases runStatement_cases h with
    | ran => exact (hI.statement _).migration _
    | reported => exact hI.migration _
    | failed => exact hI.migration _

end ContextBroker.Workers
