import ContextBroker.L6Workers.PoisonPill
import Mathlib.Data.List.Perm.Subperm

/-!
# The embedding queue

The embedding worker together with the rows it works on. `countPending` and
the fetch are answered by the table, a vector is written to it; between two
calls the rest of the broker inserts and deletes messages. The database orders
by priority and age and breaks ties as it likes.

Ghost fields count the fetches and what disturbed a batch in hand: an
exception other than a listed failure of the embedding call, or an answer with
fewer vectors than texts. `ahead r` are the pending rows that may be fetched
before `r`, itself included.

* `waits_bounded`: as long as `r` is pending there have been at most
  `5 * ⌈ahead r / batchSize⌉` fetches, five more for every message inserted
  ahead of it and every disturbance.
* `timeouts_stall`: a provider that always times out leaves every message
  without an embedding, however many failures are counted; the poison-pill rule
  does not apply.
-/
namespace ContextBroker.Workers.EmbeddingQueue

open LTS EmbeddingWorker

/-! ## The table -/

/-- The columns of `conversation_messages` that the worker reads. -/
structure Row where
  id : Id
  content : Option Text
  priority : Int
  createdAt : Time
  embedding : Option Embedding := none
  deriving DecidableEq, Repr

/-- `embedding IS NULL AND content IS NOT NULL`. -/
def Row.pending (r : Row) : Bool := r.embedding.isNone && r.content.isSome

def Row.job (r : Row) : Job := ⟨r.id, r.content.getD []⟩

/-- `ORDER BY priority DESC, created_at ASC`: `a` may come before `b`. -/
def precedes (a b : Row) : Bool :=
  decide (b.priority < a.priority) || (a.priority == b.priority && decide (a.createdAt ≤ b.createdAt))

theorem precedes_trans {a b c : Row} (hab : precedes a b = true) (hbc : precedes b c = true) :
    precedes a c = true := by
  simp only [precedes, Bool.or_eq_true, decide_eq_true_eq, Bool.and_eq_true, beq_iff_eq] at hab hbc ⊢
  rcases hab with hab | ⟨hab, hab'⟩
  · left
    rcases hbc with hbc | ⟨hbc, -⟩
    · exact lt_trans hbc hab
    · rwa [hbc] at hab
  · rcases hbc with hbc | ⟨hbc, hbc'⟩
    · left
      rwa [hab]
    · exact .inr ⟨hab.trans hbc, Nat.le_trans hab' hbc'⟩

theorem precedes_refl (a : Row) : precedes a a = true := by
  simp [precedes]

/-- The primary key comes from `gen_random_uuid()`. -/
structure Table where
  rows : List Row
  nextId : Id
  nodup : (rows.map (·.id)).Nodup
  fresh : ∀ r ∈ rows, r.id < nextId

namespace Table

def pending (t : Table) : List Row := t.rows.filter Row.pending

def insert (t : Table) (content : Option Text) (priority : Int) (createdAt : Time) : Table where
  rows := ⟨t.nextId, content, priority, createdAt, none⟩ :: t.rows
  nextId := t.nextId + 1
  nodup := by
    refine List.nodup_cons.mpr ⟨fun h => ?_, t.nodup⟩
    obtain ⟨r, hr, hid⟩ := List.mem_map.mp h
    exact absurd (t.fresh r hr) (by rw [hid]; exact Nat.lt_irrefl _)
  fresh r hr := by
    rcases List.mem_cons.mp hr with rfl | hr
    · exact Nat.lt_succ_self _
    · exact Nat.lt_succ_of_lt (t.fresh r hr)

def remove (t : Table) (id : Id) : Table where
  rows := t.rows.filter (·.id != id)
  nextId := t.nextId
  nodup := (List.filter_sublist.map _).nodup t.nodup
  fresh r hr := t.fresh r (List.mem_filter.mp hr).1

/-- `UPDATE conversation_messages SET embedding = $1::vector WHERE id = $2`. -/
def setEmbedding (t : Table) (id : Id) (vector : Embedding) : Table where
  rows := t.rows.map fun r => if r.id = id then { r with embedding := some vector } else r
  nextId := t.nextId
  nodup := by
    have hids : ∀ r : Row, (if r.id = id then { r with embedding := some vector } else r).id = r.id := by
      intro r
      split <;> rfl
    simpa [List.map_map, Function.comp_def, hids] using t.nodup
  fresh r hr := by
    obtain ⟨q, hq, rfl⟩ := List.mem_map.mp hr
    split
    · exact t.fresh q hq
    · exact t.fresh q hq

end Table

/-- `LIMIT limit` of the pending rows, in an order the database may choose.
mirrors app/workers/db_worker.py:90-99 -/
def IsBatch (t : Table) (limit : Nat) (rows : List Row) : Prop :=
  rows ⊆ t.pending ∧ rows.Nodup ∧ rows.length = min limit t.pending.length ∧
    rows.Pairwise (fun a b => precedes a b = true) ∧ ∀ b ∈ t.pending, b ∉ rows → ∀ a ∈ rows, precedes a b = true

instance (t : Table) (limit : Nat) (rows : List Row) : Decidable (IsBatch t limit rows) :=
  inferInstanceAs (Decidable (_ ∧ _ ∧ _ ∧ _ ∧ _))

/-! ## The worker at the table -/

structure System where
  worker : Worker := {}
  table : Table
  fetches : Nat := 0
  disturbances : Nat := 0
  inserted : List Row := []

inductive Event where
  | answer (a : Answer)
  /-- The answer to the fetch. -/
  | batch (rows : List Row)
  | insert (content : Option Text) (priority : Int) (createdAt : Time)
  | remove (id : Id)
  deriving DecidableEq, Repr

/-- The row the statement of `pc` updates. -/
def written : Pc → Option (Id × Embedding)
  | .poison zero id _ => some (id, zero)
  | .store id vector _ _ => some (id, vector)
  | _ => none

/-- The batch in hand goes back to the queue, and this is not counted as one of
its failures. -/
def disturbs : Pc → Answer → Bool
  | .embed _ _, .raised e => e.caughtBy [.timeoutError] || !e.caughtBy [.osError, .valueError, .runtimeError]
  | .embed _ rows, .vectors vectors => decide (vectors.length < rows.length)
  | .client _ _, .raised _ | .poison _ _ _, .raised _ | .store _ _ _ _, .raised _ => true
  | _, _ => false

def System.take (s : System) (a : Answer) : System :=
  { s with
    worker := resume s.worker a
    table :=
      match written s.worker.pc, a with
      | some (id, vector), .done => s.table.setEmbedding id vector
      | _, _ => s.table
    disturbances := s.disturbances + (disturbs s.worker.pc a).toNat }

/-- What the table has to say to the answer. -/
def agrees (s : System) (a : Answer) : Bool :=
  match s.worker.pc, a with
  | .countPending _, .count n => n == s.table.pending.length
  | .fetch _, .rows _ => false
  | _, _ => true

def step (settings : Settings) (s : System) : Event → Option System
  | .answer a => if agrees s a then answered (request settings s.worker.pc) a (s.take a) else none
  | .batch rows =>
    match s.worker.pc with
    | .fetch _ =>
      if IsBatch s.table settings.batchSize.toNat rows then
        some { s.take (.rows (rows.map Row.job)) with fetches := s.fetches + 1 }
      else none
    | _ => none
  | .insert content priority createdAt =>
    some { s with
      table := s.table.insert content priority createdAt
      inserted := ⟨s.table.nextId, content, priority, createdAt, none⟩ :: s.inserted }
  | .remove id => some { s with table := s.table.remove id }

/-! ## The rows ahead -/

/-- `b` may be fetched before `r`. -/
def ahead (r b : Row) : Bool := b.pending && precedes b r

/-- The rows ahead of `r`, but for those in hand. -/
def Table.outside (t : Table) (r : Row) (hand : List Id) : Nat :=
  t.rows.countP fun b => ahead r b && !hand.contains b.id

section

variable {t : Table} {r : Row} {hand hand' : List Id} {id : Id} {n : Nat}

theorem countP_ids_le {rows : List Row} (hnodup : (rows.map (·.id)).Nodup) (hand : List Id) :
    rows.countP (fun b => hand.contains b.id) ≤ hand.length := by
  rw [List.countP_eq_length_filter, ← List.length_map (f := (·.id))]
  refine (List.subperm_of_subset ((List.filter_sublist.map _).nodup hnodup) fun x hx => ?_).length_le
  obtain ⟨b, hb, rfl⟩ := List.mem_map.mp hx
  exact List.contains_iff_mem.mp (List.mem_filter.mp hb).2

/-- Putting a batch back adds no more than it holds. -/
theorem outside_le (hand hand' : List Id) : t.outside r hand ≤ t.outside r hand' + hand'.length := by
  have hsplit : t.outside r hand ≤ t.rows.countP (fun b => (ahead r b && !hand'.contains b.id) || hand'.contains b.id) := by
    refine List.countP_mono_left fun b _ hb => ?_
    simp only [Bool.and_eq_true] at hb
    cases hc : hand'.contains b.id <;> simp [hb.1]
  have hor : ∀ (p q : Row → Bool) (rows : List Row),
      rows.countP (fun b => p b || q b) ≤ rows.countP p + rows.countP q := by
    intro p q rows
    induction rows with
    | nil => simp
    | cons b rows ih =>
      simp only [List.countP_cons]
      cases p b <;> cases q b <;> simp <;> omega
  have hids := countP_ids_le t.nodup hand'
  have hall := hor (fun b => ahead r b && !hand'.contains b.id) (fun b => hand'.contains b.id) t.rows
  unfold Table.outside at *
  omega

theorem outside_insert (t : Table) (r : Row) (hand : List Id) (content : Option Text) (priority : Int)
    (createdAt : Time) : (t.insert content priority createdAt).outside r hand ≤
      t.outside r hand + (ahead r ⟨t.nextId, content, priority, createdAt, none⟩).toNat := by
  simp only [Table.outside, Table.insert, List.countP_cons]
  cases ahead r ⟨t.nextId, content, priority, createdAt, none⟩ <;> simp
  split <;> omega

theorem outside_remove : (t.remove id).outside r hand ≤ t.outside r hand :=
  List.filter_sublist.countP_le

/-- A row that has its vector is no longer pending. -/
theorem outside_setEmbedding (t : Table) (r : Row) (hand : List Id) (id : Id) (vector : Embedding) :
    (t.setEmbedding id vector).outside r hand ≤ t.outside r (id :: hand) := by
  simp only [Table.outside, Table.setEmbedding, List.countP_map]
  refine List.countP_mono_left fun b _ hb => ?_
  by_cases hid : b.id = id
  · simp [hid, ahead, Row.pending] at hb
  · simp only [Function.comp_apply, hid, if_false] at hb
    simpa [hid] using hb

/-- **A batch** takes `limit` of the rows ahead, or all of them: what it leaves
out comes after everything it holds. -/
theorem outside_batch {rows : List Row} (h : IsBatch t n rows) :
    t.outside r (rows.map (·.id)) ≤ t.outside r [] - n := by
  obtain ⟨hsub, hnodup, hlen, -, hlast⟩ := h
  by_cases hnone : t.outside r (rows.map (·.id)) = 0
  · omega
  -- a row ahead was left out, so all of the batch is ahead and it is full
  obtain ⟨b, hb, hahead⟩ := List.countP_pos_iff.mp (Nat.pos_of_ne_zero hnone)
  simp only [Bool.and_eq_true, Bool.not_eq_true'] at hahead
  have hbpending : b ∈ t.pending := by
    refine List.mem_filter.mpr ⟨hb, ?_⟩
    exact (Bool.and_eq_true _ _ ▸ hahead.1).1
  have hbout : b ∉ rows := by
    intro hmem
    have hcontains := List.contains_iff_mem.mpr (List.mem_map_of_mem (f := (·.id)) hmem)
    rw [hahead.2] at hcontains
    cases hcontains
  have hall : ∀ a ∈ rows, ahead r a = true := by
    intro a ha
    have hbr : precedes b r = true := (Bool.and_eq_true _ _ ▸ hahead.1).2
    rw [ahead, Bool.and_eq_true]
    exact ⟨(List.mem_filter.mp (hsub ha)).2, precedes_trans (hlast b hbpending hbout a ha) hbr⟩
  have hfull : rows.length = n := by
    have hlt : rows.length < t.pending.length := by
      have hsubperm : (b :: rows).Subperm t.pending :=
        List.subperm_of_subset (List.nodup_cons.mpr ⟨hbout, hnodup⟩) (List.cons_subset.mpr ⟨hbpending, hsub⟩)
      exact hsubperm.length_le
    omega
  have hrowsNodup : t.rows.Nodup := List.Nodup.of_map _ t.nodup
  have hdisjoint : (rows ++ t.rows.filter fun b => ahead r b && !(rows.map (·.id)).contains b.id).Nodup := by
    refine List.Nodup.append hnodup (hrowsNodup.filter _) fun a ha hout => ?_
    have hmem := List.contains_iff_mem.mpr (List.mem_map_of_mem (f := (·.id)) ha)
    have hnot := (List.mem_filter.mp hout).2
    rw [hmem] at hnot
    simp at hnot
  have hcount : rows.length + t.outside r (rows.map (·.id)) ≤ t.outside r [] := by
    simp only [Table.outside, List.countP_eq_length_filter, ← List.length_append]
    refine (List.subperm_of_subset hdisjoint (List.append_subset.mpr ⟨fun a ha => ?_, fun a ha => ?_⟩)).length_le
    · exact List.mem_filter.mpr ⟨(List.mem_filter.mp (hsub ha)).1, by simp [hall a ha]⟩
    · obtain ⟨hmem, hout⟩ := List.mem_filter.mp ha
      simp only [Bool.and_eq_true] at hout
      exact List.mem_filter.mpr ⟨hmem, by simp [hout.1]⟩
  omega

/-- The fetches `n` rows take. -/
def fetchesFor (limit n : Nat) : Nat := (n + (limit - 1)) / limit

theorem fetchesFor_mono {limit m n : Nat} (h : m ≤ n) : fetchesFor limit m ≤ fetchesFor limit n :=
  Nat.div_le_div_right (Nat.add_le_add_right h _)

theorem fetchesFor_add {limit : Nat} (hl : 1 ≤ limit) (n : Nat) :
    fetchesFor limit (n + limit) = fetchesFor limit n + 1 := by
  rw [fetchesFor, Nat.add_right_comm, Nat.add_div_right _ hl]
  rfl

/-- One fetch fewer after a batch. -/
theorem fetchesFor_sub {limit n : Nat} (hl : 1 ≤ limit) (hn : 1 ≤ n) :
    fetchesFor limit (n - limit) + 1 ≤ fetchesFor limit n := by
  by_cases h : limit ≤ n
  · conv_rhs => rw [← Nat.sub_add_cancel h]
    exact Nat.le_of_eq (fetchesFor_add hl _).symm
  · have hzero : n - limit = 0 := by omega
    rw [hzero, fetchesFor, fetchesFor, Nat.zero_add, Nat.div_eq_of_lt (by omega), Nat.le_div_iff_mul_le hl]
    omega

theorem fetchesFor_le_add {limit m n k : Nat} (hl : 1 ≤ limit) (hk : k ≤ limit) (h : m ≤ n + k) :
    fetchesFor limit m ≤ fetchesFor limit n + 1 := by
  rw [← fetchesFor_add hl]
  exact fetchesFor_mono (by omega)

end

/-! ## The potential -/

/-- The rows in hand. -/
def hand : Pc → List Id
  | .client _ rows | .embed _ rows => rows.map (·.id)
  | .poison _ id rest => id :: rest.map (·.id)
  | .store id _ rest _ => id :: rest.map (·.1)
  | _ => []

/-- The fetches still to come before no row ahead of `r` is pending, if nothing
disturbs them: five for a batch, less the failures counted already. -/
def potential (limit : Nat) (r : Row) (t : Table) (w : Worker) : Nat :=
  let left := 5 * fetchesFor limit (t.outside r (hand w.pc))
  match w.pc with
  | .client _ _ | .embed _ _ => left + (4 - w.consecutiveFailures)
  | .poison _ _ _ | .store _ _ _ _ => left
  | .exited _ => 0
  | _ => left - min w.consecutiveFailures 4

section

variable {limit : Nat} {r : Row} {t t' : Table} {w w' : Worker} {e : Exn} {pc : Pc} {f : Nat} {settings : Settings}
  {s s' : System} {a : Answer}

theorem hand_between (h : pc.Between) : hand pc = [] := by
  cases pc <;> first | rfl | cases h

theorem potential_between (h : w.pc.Between) :
    potential limit r t w = 5 * fetchesFor limit (t.outside r []) - min w.consecutiveFailures 4 := by
  obtain ⟨pc, f⟩ := w
  cases pc <;> first | rfl | cases h

theorem potential_exited (h : w.pc = .exited e) : potential limit r t w = 0 := by
  obtain ⟨pc, f⟩ := w
  obtain rfl : pc = .exited e := h
  rfl

/-- Back to the head of the loop: the batch in hand is pending again. -/
theorem potential_back (hl : 1 ≤ limit) (h : w'.pc.Between) {hand : List Id} (hhand : hand.length ≤ limit) :
    potential limit r t w' ≤ 5 * fetchesFor limit (t.outside r hand) + 5 - min w'.consecutiveFailures 4 := by
  rw [potential_between h]
  have hrounds := fetchesFor_le_add hl hhand (outside_le (t := t) (r := r) [] hand)
  omega

/-- The outer handler counts, or the worker is left. -/
theorem outerHandler_leads (w : Worker) (e : Exn) :
    (∃ e', (outerHandler w e).pc = .exited e') ∨
      (outerHandler w e).pc.Between ∧ (outerHandler w e).consecutiveFailures = w.consecutiveFailures + 1 := by
  unfold outerHandler
  cases hc : e.caughtBy outerClause with
  | false => exact .inl ⟨e, by simp⟩
  | true =>
    right
    by_cases hmany : 3 ≤ w.consecutiveFailures + 1 <;> simp [hmany, Pc.Between]

/-- Between two batches the worker counts on or is left. -/
theorem resume_between (h : w.pc.Between) (hs : answered (request settings w.pc) a (resume w a) = some w')
    (hrows : ∀ rows, a ≠ .rows rows) :
    (∃ e, w'.pc = .exited e) ∨ w'.pc.Between ∧ w.consecutiveFailures ≤ w'.consecutiveFailures := by
  obtain ⟨q, hq, hadmits, rfl⟩ := answered_eq_some.mp hs
  cases a with
  | raised e =>
    have hout : (∃ e', (outerHandler w e).pc = .exited e') ∨
        (outerHandler w e).pc.Between ∧ w.consecutiveFailures ≤ (outerHandler w e).consecutiveFailures :=
      (outerHandler_leads w e).imp_right fun ⟨hb, hf⟩ => ⟨hb, by omega⟩
    cases hpc : w.pc <;> simp only [hpc, Pc.Between] at h
    case indexExists dim | alterType dim | createIndex =>
      simp only [resume, hpc, indexFailed]
      split
      · exact .inr ⟨trivial, Nat.le_refl _⟩
      · exact hout
    case backoff =>
      simp only [resume, hpc]
      exact .inl ⟨e, rfl⟩
    all_goals
      simp only [resume, hpc]
      exact hout
  | rows rows => exact absurd rfl (hrows rows)
  | count n =>
    right
    cases hpc : w.pc <;> rw [hpc] at hq h <;> cases hq <;> simp [Request.admits] at hadmits
    by_cases hn : n = 0 <;> simp [resume, hpc, hn, Pc.Between]
  | «exists» b =>
    right
    cases hpc : w.pc <;> rw [hpc] at hq h <;> cases hq <;> simp [Request.admits] at hadmits
    cases b <;> simp [resume, hpc, Pc.Between]
  | config _ | vectors _ | done =>
    right
    cases hpc : w.pc <;> simp only [hpc, Pc.Between] at h <;> rw [hpc] at hq <;> cases hq <;>
      simp [Request.admits] at hadmits <;> simp [resume, hpc, Pc.Between]

/-! ## One step -/

/-- A batch in hand is no larger than the limit. -/
def Fits (limit : Nat) (w : Worker) : Prop := (hand w.pc).length ≤ limit

theorem fits_between (h : w.pc.Between) : Fits limit w := by
  simp [Fits, hand_between h]

theorem fits_exited (h : w.pc = .exited e) : Fits limit w := by
  simp [Fits, h, hand]

/-- An answer between two batches. -/
theorem potential_resume_between (h : w.pc.Between)
    (hs : answered (request settings w.pc) a (resume w a) = some w') (hrows : ∀ rows, a ≠ .rows rows) :
    Fits limit w' ∧ potential limit r t w' ≤ potential limit r t w := by
  rcases resume_between h hs hrows with ⟨e, hexit⟩ | ⟨hb, hf⟩
  · exact ⟨fits_exited hexit, by rw [potential_exited hexit]; omega⟩
  · refine ⟨fits_between hb, ?_⟩
    rw [potential_between h, potential_between hb]
    omega

/-- What the outer handler leads to, with a batch in hand. -/
theorem potential_outer (hl : 1 ≤ limit) (w : Worker) (e : Exn) {hand : List Id} (hhand : hand.length ≤ limit) :
    Fits limit (outerHandler w e) ∧ potential limit r t (outerHandler w e) ≤
      5 * fetchesFor limit (t.outside r hand) + 5 - min (w.consecutiveFailures + 1) 4 := by
  rcases outerHandler_leads w e with ⟨e', hexit⟩ | ⟨hb, hf⟩
  · exact ⟨fits_exited hexit, by rw [potential_exited hexit]; omega⟩
  · exact ⟨fits_between hb, hf ▸ potential_back hl hb hhand⟩

/-- The next zero vector, or the end of the batch. -/
theorem potential_poisonNext (w : Worker) (zero : Embedding) (rows : List Job) (hrows : rows.length ≤ limit) :
    Fits limit (poisonNext w zero rows) ∧ potential limit r t (poisonNext w zero rows) ≤
      5 * fetchesFor limit (t.outside r (rows.map (·.id))) := by
  cases rows with
  | nil => exact ⟨Nat.zero_le _, Nat.sub_le _ _⟩
  | cons row rest =>
    refine ⟨?_, Nat.le_refl _⟩
    simpa [Fits, poisonNext, hand] using hrows

/-- The next vector, or the end of the batch. -/
theorem potential_storeNext (w : Worker) (vectors : List Embedding) (pairs : List (Id × Embedding))
    (hpairs : pairs.length ≤ limit) :
    Fits limit (storeNext w vectors pairs) ∧ potential limit r t (storeNext w vectors pairs) ≤
      5 * fetchesFor limit (t.outside r (pairs.map (·.1))) := by
  cases pairs with
  | nil =>
    cases vectors with
    | nil => exact ⟨Nat.zero_le _, Nat.sub_le _ _⟩
    | cons v vectors => exact ⟨Nat.zero_le _, Nat.sub_le _ _⟩
  | cons pair rest =>
    refine ⟨?_, Nat.le_refl _⟩
    simpa [Fits, storeNext, hand] using hpairs

/-- **A failed embedding call** uses up one of the five, or gives the batch up. -/
theorem potential_embedFailed (hl : 1 ≤ limit) {config : WorkerConfig} {rows : List Job}
    (hpc : w.pc = .embed config rows) (hfit : Fits limit w) (e : Exn) :
    Fits limit (embedFailed w config rows e) ∧ potential limit r t (embedFailed w config rows e) ≤
      potential limit r t w + 5 * (disturbs w.pc (.raised e)).toNat := by
  have hhand : (rows.map (·.id)).length ≤ limit := by simpa [Fits, hpc, hand] using hfit
  have hbefore : potential limit r t w =
      5 * fetchesFor limit (t.outside r (rows.map (·.id))) + (4 - w.consecutiveFailures) := by
    obtain ⟨pc, f⟩ := w
    obtain rfl : pc = .embed config rows := hpc
    rfl
  have hretry : potential limit r t ⟨.retry, w.consecutiveFailures + 1⟩ ≤
      5 * fetchesFor limit (t.outside r (rows.map (·.id))) + 5 - min (w.consecutiveFailures + 1) 4 :=
    potential_back hl (by trivial) hhand
  rw [hbefore, hpc]
  unfold embedFailed
  cases htimeout : e.caughtBy [.timeoutError] with
  | true =>
    simp only [disturbs, htimeout, if_true, Bool.true_or, Bool.toNat_true]
    exact ⟨fits_between trivial, by omega⟩
  | false =>
    cases hlisted : e.caughtBy [.osError, .valueError, .runtimeError] with
    | false =>
      simp only [disturbs, htimeout, hlisted, Bool.false_eq_true, if_false, Bool.not_false, Bool.or_true,
        Bool.toNat_true]
      obtain ⟨hfits, hle⟩ := potential_outer (t := t) (r := r) hl w e hhand
      exact ⟨hfits, by omega⟩
    | true =>
      simp only [disturbs, htimeout, hlisted, Bool.false_eq_true, if_false, if_true, Bool.not_true, Bool.or_false,
        Bool.toNat_false]
      by_cases hfive : 5 ≤ w.consecutiveFailures + 1
      · rw [if_pos hfive]
        obtain ⟨hfits, hle⟩ := potential_poisonNext (t := t) (r := r)
          { w with consecutiveFailures := w.consecutiveFailures + 1 }
          { dim := config.embeddings.embeddingDims.getD 3072 } rows (by simpa using hhand)
        exact ⟨hfits, by omega⟩
      · rw [if_neg hfive]
        exact ⟨fits_between trivial, by omega⟩

/-- **The vectors** of a batch: with one for each text none of it goes back. -/
theorem potential_vectors (hl : 1 ≤ limit) {config : WorkerConfig} {rows : List Job}
    (hpc : w.pc = .embed config rows) (hfit : Fits limit w) (vectors : List Embedding) :
    Fits limit (storeNext w vectors ((rows.map (·.id)).zip vectors)) ∧
      potential limit r t (storeNext w vectors ((rows.map (·.id)).zip vectors)) ≤
        potential limit r t w + 5 * (disturbs w.pc (.vectors vectors)).toNat := by
  have hhand : (rows.map (·.id)).length ≤ limit := by simpa [Fits, hpc, hand] using hfit
  have hbefore : potential limit r t w =
      5 * fetchesFor limit (t.outside r (rows.map (·.id))) + (4 - w.consecutiveFailures) := by
    obtain ⟨pc, f⟩ := w
    obtain rfl : pc = .embed config rows := hpc
    rfl
  have hzip : ((rows.map (·.id)).zip vectors).length ≤ limit := by
    rw [List.length_zip]
    omega
  obtain ⟨hfits, hle⟩ := potential_storeNext (t := t) (r := r) w vectors _ hzip
  refine ⟨hfits, ?_⟩
  rw [hbefore, hpc]
  by_cases hshort : vectors.length < rows.length
  · have hback := fetchesFor_le_add hl hhand
      (outside_le (t := t) (r := r) (((rows.map (·.id)).zip vectors).map (·.1)) (rows.map (·.id)))
    simp only [disturbs, hshort, decide_true, Bool.toNat_true]
    omega
  · have hids : ((rows.map (·.id)).zip vectors).map (·.1) = rows.map (·.id) :=
      List.map_fst_zip (by simpa using Nat.le_of_not_lt hshort)
    rw [hids] at hle
    simp only [disturbs, hshort, decide_false, Bool.toNat_false]
    omega

theorem step_answer (h : step settings s (.answer a) = some s') :
    s' = s.take a ∧ agrees s a = true ∧ ∃ q, request settings s.worker.pc = some q ∧ q.admits a = true := by
  obtain ⟨hagrees, hanswered⟩ := Option.ite_none_right_eq_some.mp h
  obtain ⟨q, hq, hadmits, rfl⟩ := answered_eq_some.mp hanswered
  exact ⟨rfl, hagrees, q, hq, hadmits⟩

/-- **An answer** leaves at least as few fetches to come, or it disturbs. -/
theorem potential_answer (hl : 1 ≤ limit) (hfit : Fits limit s.worker)
    (h : step settings s (.answer a) = some s') :
    Fits limit s'.worker ∧ potential limit r s'.table s'.worker ≤
      potential limit r s.table s.worker + 5 * (disturbs s.worker.pc a).toNat := by
  obtain ⟨rfl, hagrees, q, hq, hadmits⟩ := step_answer h
  have hfit' : (hand s.worker.pc).length ≤ limit := hfit
  cases hpc : s.worker.pc with
  | client config rows =>
    rw [hpc] at hq hfit'
    obtain rfl := Option.some.inj hq
    have hbefore : potential limit r s.table s.worker =
        5 * fetchesFor limit (s.table.outside r (rows.map (·.id))) + (4 - s.worker.consecutiveFailures) := by
      simp [potential, hpc, hand]
    rw [hbefore]
    cases a <;> simp [Request.admits] at hadmits
    case raised e =>
      obtain ⟨hfits, hle⟩ := potential_outer (t := s.table) (r := r) hl s.worker e hfit'
      simp only [System.take, written, hpc, resume, disturbs, Bool.toNat_true]
      simp only [hand] at hle
      exact ⟨hfits, by omega⟩
    case done =>
      simp only [System.take, written, hpc, resume, disturbs, Bool.toNat_false, potential, Fits, hand]
      exact ⟨hfit', Nat.le_refl _⟩
  | embed config rows =>
    rw [hpc] at hq
    obtain rfl := Option.some.inj hq
    cases a <;> simp [Request.admits] at hadmits
    case raised e =>
      simp only [System.take, written, hpc, resume]
      exact hpc ▸ potential_embedFailed hl hpc hfit e
    case vectors vectors =>
      simp only [System.take, written, hpc, resume]
      exact hpc ▸ potential_vectors hl hpc hfit vectors
  | poison zero id rest =>
    rw [hpc] at hq hfit'
    obtain rfl := Option.some.inj hq
    have hbefore : potential limit r s.table s.worker =
        5 * fetchesFor limit (s.table.outside r (id :: rest.map (·.id))) := by
      simp [potential, hpc, hand]
    rw [hbefore]
    cases a <;> simp [Request.admits] at hadmits
    case raised e =>
      obtain ⟨hfits, hle⟩ := potential_outer (t := s.table) (r := r) hl s.worker e hfit'
      simp only [System.take, written, hpc, resume, disturbs, Bool.toNat_true]
      simp only [hand] at hle
      exact ⟨hfits, by omega⟩
    case done =>
      have hrest : rest.length ≤ limit := by
        simp only [hand, List.length_cons, List.length_map] at hfit'
        omega
      obtain ⟨hfits, hle⟩ := potential_poisonNext (t := s.table.setEmbedding id zero) (r := r) s.worker zero rest hrest
      have hset := @fetchesFor_mono limit _ _ (outside_setEmbedding s.table r (rest.map (·.id)) id zero)
      simp only [System.take, written, hpc, resume, disturbs, Bool.toNat_false]
      exact ⟨hfits, by omega⟩
  | store id vector rest vectors =>
    rw [hpc] at hq hfit'
    obtain rfl := Option.some.inj hq
    have hbefore : potential limit r s.table s.worker =
        5 * fetchesFor limit (s.table.outside r (id :: rest.map (·.1))) := by
      simp [potential, hpc, hand]
    rw [hbefore]
    cases a <;> simp [Request.admits] at hadmits
    case raised e =>
      obtain ⟨hfits, hle⟩ := potential_outer (t := s.table) (r := r) hl s.worker e hfit'
      simp only [System.take, written, hpc, resume, disturbs, Bool.toNat_true]
      simp only [hand] at hle
      exact ⟨hfits, by omega⟩
    case done =>
      have hrest : rest.length ≤ limit := by
        simp only [hand, List.length_cons, List.length_map] at hfit'
        omega
      obtain ⟨hfits, hle⟩ := potential_storeNext (t := s.table.setEmbedding id vector) (r := r) s.worker vectors rest hrest
      have hset := @fetchesFor_mono limit _ _ (outside_setEmbedding s.table r (rest.map (·.1)) id vector)
      simp only [System.take, written, hpc, resume, disturbs, Bool.toNat_false]
      exact ⟨hfits, by omega⟩
  | exited e =>
    rw [hpc] at hq
    cases hq
  | _ =>
    have hbetween : s.worker.pc.Between := by
      rw [hpc]
      trivial
    have hrows : ∀ rows, a ≠ .rows rows := by
      rintro rows rfl
      rw [hpc] at hq
      cases hq
      simp_all [agrees, Request.admits]
    obtain ⟨hfits, hle⟩ := @potential_resume_between limit r s.table _ _ _ _ hbetween
      (answered_eq_some.mpr ⟨q, hq, hadmits, rfl⟩) hrows
    simp only [System.take, written, hpc]
    exact ⟨hfits, by omega⟩

/-- **A fetch** brings a full batch of the rows ahead, or all of them. -/
theorem potential_batch {rows : List Row} (hl : 1 ≤ settings.batchSize.toNat) (hr : 1 ≤ s.table.outside r [])
    (h : step settings s (.batch rows) = some s') : Fits settings.batchSize.toNat s'.worker ∧
      s'.fetches = s.fetches + 1 ∧ s'.disturbances = s.disturbances ∧ s'.inserted = s.inserted ∧
      potential settings.batchSize.toNat r s'.table s'.worker + 1 ≤
        potential settings.batchSize.toNat r s.table s.worker := by
  cases hpc : s.worker.pc <;> simp only [step, hpc, reduceCtorEq] at h
  rename_i config
  obtain ⟨hbatch, hs'⟩ := Option.ite_none_right_eq_some.mp h
  obtain rfl := Option.some.inj hs'
  have hout := outside_batch (r := r) hbatch
  obtain ⟨hsub, hnodup, hlen, -⟩ := hbatch
  have hpending : 1 ≤ s.table.pending.length := by
    have hcount : s.table.outside r [] ≤ s.table.pending.length := by
      rw [Table.pending, ← List.countP_eq_length_filter]
      refine List.countP_mono_left fun b _ hb => ?_
      simp only [ahead, Bool.and_eq_true] at hb
      exact hb.1.1
    omega
  have hne : rows.map Row.job ≠ [] := by
    intro hnil
    rw [List.map_eq_nil_iff] at hnil
    subst hnil
    simp only [List.length_nil] at hlen
    omega
  have hids : (rows.map Row.job).map (·.id) = rows.map (·.id) := by
    simp [Row.job, Function.comp_def]
  have hround := fetchesFor_sub hl hr
  have hmono := @fetchesFor_mono settings.batchSize.toNat _ _ hout
  simp only [System.take, written, hpc, resume, hne, if_false, disturbs, Bool.toNat_false, Fits, hand, potential,
    hids, List.length_map]
  exact ⟨by omega, trivial, by omega, trivial, by omega⟩

/-- What happens to the table meanwhile. -/
theorem potential_table (hl : 1 ≤ limit) (w : Worker) {b : Bool}
    (h : t'.outside r (hand w.pc) ≤ t.outside r (hand w.pc) + b.toNat) :
    potential limit r t' w ≤ potential limit r t w + 5 * b.toNat := by
  have hround : fetchesFor limit (t'.outside r (hand w.pc)) ≤
      fetchesFor limit (t.outside r (hand w.pc)) + b.toNat := by
    cases b with
    | false => exact fetchesFor_mono h
    | true => exact fetchesFor_le_add hl hl h
  obtain ⟨pc, f⟩ := w
  cases pc <;> simp only [hand, potential] at hround ⊢ <;> omega

/-! ## Whole runs -/

theorem nextId_step {v : Event} (h : step settings s v = some s') : s.table.nextId ≤ s'.table.nextId := by
  cases v with
  | answer a =>
    obtain ⟨rfl, -⟩ := step_answer h
    simp only [System.take]
    cases written s.worker.pc with
    | none => exact Nat.le_refl _
    | some p => cases a <;> exact Nat.le_refl _
  | batch rows =>
    cases hpc : s.worker.pc <;> simp only [step, hpc, reduceCtorEq] at h
    obtain ⟨-, hs'⟩ := Option.ite_none_right_eq_some.mp h
    obtain rfl := Option.some.inj hs'
    simp [System.take, written, hpc]
  | insert content priority createdAt =>
    obtain rfl := Option.some.inj h
    exact Nat.le_succ _
  | remove id =>
    obtain rfl := Option.some.inj h
    exact Nat.le_refl _

/-- A row without an embedding was there before the step, unless it is new. -/
theorem pending_before {v : Event} (h : step settings s v = some s') (hid : r.id < s.table.nextId)
    (hnone : r.embedding = none) (hr : r ∈ s'.table.rows) : r ∈ s.table.rows := by
  cases v with
  | answer a =>
    obtain ⟨rfl, -⟩ := step_answer h
    simp only [System.take] at hr
    cases hw : written s.worker.pc with
    | none => simpa [hw] using hr
    | some p =>
      cases a <;> simp only [hw] at hr
      case done =>
        obtain ⟨b, hb, rfl⟩ := List.mem_map.mp hr
        by_cases hset : b.id = p.1
        · simp [hset] at hnone
        · simpa [hset] using hb
      all_goals exact hr
  | batch rows =>
    cases hpc : s.worker.pc <;> simp only [step, hpc, reduceCtorEq] at h
    obtain ⟨-, hs'⟩ := Option.ite_none_right_eq_some.mp h
    obtain rfl := Option.some.inj hs'
    simpa [System.take, written, hpc] using hr
  | insert content priority createdAt =>
    obtain rfl := Option.some.inj h
    rcases List.mem_cons.mp hr with rfl | hr
    · exact absurd hid (Nat.lt_irrefl _)
    · exact hr
  | remove id =>
    obtain rfl := Option.some.inj h
    exact (List.mem_filter.mp hr).1

theorem pending_throughout {es : List Event} (h : exec (step settings) s es = some s')
    (hid : r.id < s.table.nextId) (hnone : r.embedding = none) (hr : r ∈ s'.table.rows) : r ∈ s.table.rows := by
  induction es generalizing s with
  | nil =>
    obtain rfl := Option.some.inj h
    exact hr
  | cons v es ih =>
    obtain ⟨u, hu, hrest⟩ := Option.bind_eq_some_iff.mp h
    exact pending_before hu hid hnone (ih hrest (Nat.lt_of_lt_of_le hid (nextId_step hu)))

theorem ahead_self (hpend : r.pending = true) : ahead r r = true := by
  rw [ahead, hpend, precedes_refl]
  rfl

/-- What is still to come and what has come, against what was allowed. -/
structure Within (settings : Settings) (r : Row) (start : Nat) (s : System) : Prop where
  fits : Fits settings.batchSize.toNat s.worker
  fetched : s.fetches + potential settings.batchSize.toNat r s.table s.worker ≤
    start + 5 * (s.inserted.countP (ahead r) + s.disturbances)

theorem within_step {start : Nat} {v : Event} (hl : 1 ≤ settings.batchSize.toNat) (hpend : r.pending = true)
    (hw : Within settings r start s) (hr : r ∈ s.table.rows) (h : step settings s v = some s') :
    Within settings r start s' := by
  have hfetched := hw.fetched
  cases v with
  | answer a =>
    obtain ⟨hfits, hle⟩ := potential_answer (r := r) hl hw.fits h
    obtain ⟨rfl, -⟩ := step_answer h
    refine ⟨hfits, ?_⟩
    simp only [System.take] at hle ⊢
    omega
  | batch rows =>
    have hone : 1 ≤ s.table.outside r [] :=
      List.countP_pos_iff.mpr ⟨r, hr, by simp [ahead_self hpend]⟩
    obtain ⟨hfits, hcount, hdist, hins, hle⟩ := potential_batch hl hone h
    exact ⟨hfits, by rw [hcount, hdist, hins]; omega⟩
  | insert content priority createdAt =>
    obtain rfl := Option.some.inj h
    have hle := potential_table hl s.worker
      (outside_insert s.table r (hand s.worker.pc) content priority createdAt)
    refine ⟨hw.fits, ?_⟩
    simp only [List.countP_cons]
    cases hahead : ahead r ⟨s.table.nextId, content, priority, createdAt, none⟩ <;> simp [hahead] at hle ⊢ <;> omega
  | remove id =>
    obtain rfl := Option.some.inj h
    have hle : potential settings.batchSize.toNat r (s.table.remove id) s.worker ≤
        potential settings.batchSize.toNat r s.table s.worker + 5 * false.toNat :=
      potential_table hl s.worker outside_remove
    refine ⟨hw.fits, ?_⟩
    simp only [Bool.toNat_false] at hle ⊢
    omega

/-- **How long a message waits**, in every run: while it is pending the worker has
fetched at most five times for each batch of what was ahead of it, and five
times for every message inserted ahead of it and every disturbance. -/
theorem waits_bounded (hb : 1 ≤ settings.batchSize) (t : Table) {es : List Event}
    (h : exec (step settings) { table := t } es = some s) (hmem : r ∈ t.rows) (hpend : r.pending = true)
    (hstill : r ∈ s.table.rows) :
    s.fetches ≤ 5 * fetchesFor settings.batchSize.toNat (t.rows.countP (ahead r)) +
      5 * (s.inserted.countP (ahead r) + s.disturbances) := by
  have hl : 1 ≤ settings.batchSize.toNat := by omega
  have hid : r.id < t.nextId := t.fresh r hmem
  have hnone : r.embedding = none := by
    rw [Row.pending, Bool.and_eq_true, Option.isNone_iff_eq_none] at hpend
    exact hpend.1
  have hthere : ∀ u v u', Takes (step settings) { table := t } es u v u' → r ∈ u.table.rows := by
    intro u v u' htakes
    obtain ⟨hu, -⟩ := htakes.passes
    have hle : t.nextId ≤ u.table.nextId :=
      hu.inv (I := fun u => t.nextId ≤ u.table.nextId) (fun _ _ _ hI hs => Nat.le_trans hI (nextId_step hs))
        (Nat.le_refl _)
    obtain ⟨es', hrest⟩ := hu.rest h
    exact pending_throughout hrest (Nat.lt_of_lt_of_le hid hle) hnone hstill
  have hstart : Within settings r (5 * fetchesFor settings.batchSize.toNat (t.rows.countP (ahead r)))
      { table := t } := by
    refine ⟨Nat.zero_le _, ?_⟩
    simp [potential, hand, Table.outside]
  have hend := exec_inv (C := fun u _ => r ∈ u.table.rows)
    (fun u v u' hw hr hs => within_step hl hpend hw hr hs) h hthere hstart
  have hfetched := hend.fetched
  omega

/-- Two pending messages, the second of a higher priority. -/
def twoRows : Table where
  rows := [⟨1, some "low".toList, 0, 1, none⟩, ⟨2, some "high".toList, 5, 2, none⟩]
  nextId := 3
  nodup := by decide
  fresh := by decide

/-- The first round stores the vector of the second message, in a batch of one. -/
def oneStored : List Event :=
  [.answer (.config {}), .answer .done, .answer (.count 2), .batch [⟨2, some "high".toList, 5, 2, none⟩],
    .answer .done, .answer (.vectors [⟨3, none⟩]), .answer .done]

theorem waits_bounded_twoRows : ∃ s, exec (step ⟨2, 1⟩) { table := twoRows } oneStored = some s ∧
    ⟨1, some "low".toList, 0, 1, none⟩ ∈ s.table.rows ∧ s.fetches = 1 ∧ s.fetches ≤ 10 := by
  obtain ⟨s, hs⟩ := Option.isSome_iff_exists.mp
    (show (exec (step ⟨2, 1⟩) { table := twoRows } oneStored).isSome = true by decide)
  have hend : (exec (step ⟨2, 1⟩) { table := twoRows } oneStored).map
      (fun s => (s.table.rows.contains ⟨1, some "low".toList, 0, 1, none⟩, s.fetches, s.inserted, s.disturbances)) =
      some (true, 1, [], 0) := by decide
  simp only [hs, Option.map_some, Option.some.injEq, Prod.mk.injEq] at hend
  obtain ⟨hstill, hfetches, hins, hdist⟩ := hend
  have hle := waits_bounded (by decide) twoRows hs List.mem_cons_self (by decide) (List.contains_iff_mem.mp hstill)
  rw [hins, hdist] at hle
  exact ⟨s, hs, List.contains_iff_mem.mp hstill, hfetches, hle⟩

/-! ## Timeouts -/

/-- Every embedding call times out. -/
def TimesOut (s : System) (v : Event) : Prop :=
  ∀ config rows a, s.worker.pc = .embed config rows → v = .answer a → ∃ e, a = .raised e ∧
    e.caughtBy [.timeoutError] = true

theorem written_leads (h : (∃ e, w.pc = .exited e) ∨ w.pc.Between) : written w.pc = none := by
  rcases h with ⟨e, hexit⟩ | hb
  · rw [hexit]
    rfl
  · cases hpc : w.pc <;> first | rfl | (rw [hpc] at hb; cases hb)

/-- Then the worker never comes to write a vector. -/
theorem written_step {v : Event} (hw : written s.worker.pc = none) (hv : TimesOut s v)
    (h : step settings s v = some s') : written s'.worker.pc = none := by
  cases v with
  | insert | remove =>
    obtain rfl := Option.some.inj h
    exact hw
  | batch rows =>
    cases hpc : s.worker.pc <;> simp only [step, hpc, reduceCtorEq] at h
    obtain ⟨-, hs'⟩ := Option.ite_none_right_eq_some.mp h
    obtain rfl := Option.some.inj hs'
    by_cases hrows : rows.map Row.job = [] <;> simp [System.take, resume, hpc, hrows, written]
  | answer a =>
    obtain ⟨rfl, hagrees, q, hq, hadmits⟩ := step_answer h
    show written (resume s.worker a).pc = none
    cases hpc : s.worker.pc with
    | poison | store =>
      rw [hpc] at hw
      cases hw
    | exited =>
      rw [hpc] at hq
      cases hq
    | client config rows =>
      rw [hpc] at hq
      obtain rfl := Option.some.inj hq
      cases a <;> simp [Request.admits] at hadmits
      case raised e =>
        simp only [resume, hpc]
        exact written_leads ((outerHandler_leads s.worker e).imp_right And.left)
      case done => simp [resume, hpc, written]
    | embed config rows =>
      obtain ⟨e, rfl, htimeout⟩ := hv config rows a hpc rfl
      simp [resume, hpc, embedFailed, htimeout, written]
    | _ =>
      have hrows : ∀ rows, a ≠ .rows rows := by
        rintro rows rfl
        rw [hpc] at hq
        cases hq
        simp_all [agrees, Request.admits]
      exact written_leads ((resume_between (by rw [hpc]; trivial) (answered_eq_some.mpr ⟨q, hq, hadmits, rfl⟩)
        hrows).imp_right And.left)

/-- **A provider that times out** on every call: in no run does any message get an
embedding, be it the zero vector. -/
theorem timeouts_stall (t : Table) {es : List Event} (h : exec (step settings) { table := t } es = some s)
    (htimes : ∀ u v u', Takes (step settings) { table := t } es u v u' → TimesOut u v) :
    ∀ b ∈ s.table.rows, b.embedding ≠ none → b ∈ t.rows := by
  have hend := exec_inv (I := fun u => written u.worker.pc = none ∧
      ∀ b ∈ u.table.rows, b.embedding ≠ none → b ∈ t.rows) (C := TimesOut) (fun u v u' hI hv hs => ?_) h htimes
    ⟨rfl, fun b hb _ => hb⟩
  · exact hend.2
  · refine ⟨written_step hI.1 hv hs, fun b hb hset => ?_⟩
    cases v with
    | answer a =>
      obtain ⟨rfl, -⟩ := step_answer hs
      simp only [System.take, hI.1] at hb
      exact hI.2 b hb hset
    | batch rows =>
      cases hpc : u.worker.pc <;> simp only [step, hpc, reduceCtorEq] at hs
      obtain ⟨-, hs'⟩ := Option.ite_none_right_eq_some.mp hs
      obtain rfl := Option.some.inj hs'
      simp only [System.take, hI.1] at hb
      exact hI.2 b hb hset
    | insert content priority createdAt =>
      obtain rfl := Option.some.inj hs
      rcases List.mem_cons.mp hb with rfl | hb
      · exact absurd rfl hset
      · exact hI.2 b hb hset
    | remove id =>
      obtain rfl := Option.some.inj hs
      exact hI.2 b (List.mem_filter.mp hb).1 hset

/-- Six rounds that time out: one more than the poison-pill rule counts. -/
def sixTimeouts : List Event :=
  (List.replicate 6 [.answer (.config {}), .answer .done, .answer (.count 2),
    .batch [⟨2, some "high".toList, 5, 2, none⟩], .answer .done, .answer (.raised .timeoutError),
    .answer .done]).flatten

def timesOutNow (s : System) (v : Event) : Bool :=
  match s.worker.pc, v with
  | .embed _ _, .answer (.raised e) => e.caughtBy [.timeoutError]
  | .embed _ _, .answer _ => false
  | _, _ => true

theorem timesOut_of_now {v : Event} (h : timesOutNow s v = true) : TimesOut s v := by
  rintro config rows a hpc rfl
  cases a <;> simp_all [timesOutNow]

theorem timeouts_stall_six : ∃ s, exec (step ⟨2, 1⟩) { table := twoRows } sixTimeouts = some s ∧
    s.worker.consecutiveFailures = 6 ∧ s.fetches = 6 ∧ ∀ b ∈ s.table.rows, b.embedding ≠ none → b ∈ twoRows.rows := by
  obtain ⟨s, hs⟩ := Option.isSome_iff_exists.mp
    (show (exec (step ⟨2, 1⟩) { table := twoRows } sixTimeouts).isSome = true by decide)
  have hend : (exec (step ⟨2, 1⟩) { table := twoRows } sixTimeouts).map
      (fun s => (s.worker.consecutiveFailures, s.fetches)) = some (6, 6) := by decide
  simp only [hs, Option.map_some, Option.some.injEq, Prod.mk.injEq] at hend
  refine ⟨s, hs, hend.1, hend.2, timeouts_stall twoRows hs fun u v u' h => ?_⟩
  exact timesOut_of_now (check_of_takes timesOutNow (by decide) h)

end

end ContextBroker.Workers.EmbeddingQueue
