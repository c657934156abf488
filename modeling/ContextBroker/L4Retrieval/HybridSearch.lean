import ContextBroker.Core.Positional
import ContextBroker.Core.RankFusion
import ContextBroker.L4Retrieval.Recency
import ContextBroker.L4Retrieval.Rerank
import ContextBroker.L4Retrieval.Retrieval

/-!
# Message search (`context_broker_ae/search_flow.py`)

The message search flow as a whole: the query's embedding, the statement with
its filters, the fusion of the two rankings, the recency bias, the reranker.
The filters are conditions with placeholders, put together by
`buildExtraFilters`; `eval` is what the database reads in them. Embeddings,
distances and the text search are parameters. A ranking with equal keys is in
the order of the scan, and the arithmetic is exact.

* `search_sound`: no placeholder reads a wrong value; what comes out are
  messages that pass every filter and that one of the two rankings found, each
  once, and no more than asked for.
* `search_complete`: while the candidates fit, nothing that passes is left out.
* `fusion_order`: a message high in both rankings comes before every message of
  only one, and one that is ahead in either and not behind in the other before
  the other message.
-/
namespace ContextBroker.HybridSearch

open Positional RankFusion
open Ranked (sortDesc)
open Retrieval (truthy)

/-! ## Messages and statements -/

/-- A row of `conversation_messages`; `E` are the embeddings. -/
structure Row (E : Type) where
  id : Id
  conversationId : Id
  role : Text
  sender : Text
  content : Option Text
  createdAt : Time
  embedding : Option E := none
  deriving DecidableEq

inductive Param (E : Type) where
  | vector (e : E)
  | text (t : Text)
  | uuid (id : Id)
  | timestamp (t : Time)
  | int (n : Int)
  deriving DecidableEq

inductive Clause where
  | conversationId (i : Nat)
  | sender (i : Nat)
  | role (i : Nat)
  /-- `length(content) > n` -/
  | longerThan (n : Nat)
  | createdFrom (i : Nat)
  | createdTo (i : Nat)
  deriving DecidableEq, Repr

/-- What a condition says of a row. A placeholder without a value of its type is
an error of the statement. -/
def eval {E : Type} (params : List (Param E)) (c : Clause) (r : Row E) : Option Bool :=
  match c with
  | .conversationId i => match param params i with
    | some (.uuid id) => some (r.conversationId == id)
    | _ => none
  | .sender i => match param params i with
    | some (.text t) => some (r.sender == t)
    | _ => none
  | .role i => match param params i with
    | some (.text t) => some (r.role == t)
    | _ => none
  | .longerThan n => some (r.content.any fun content => decide (n < content.length))
  | .createdFrom i => match param params i with
    | some (.timestamp t) => some (decide (t ≤ r.createdAt))
    | _ => none
  | .createdTo i => match param params i with
    | some (.timestamp t) => some (decide (r.createdAt ≤ t))
    | _ => none

/-! ## The request -/

/-- What the flow starts with, and the embedding of the query if there is one. -/
structure State (E : Type) where
  query : Text
  conversationId : Option Text := none
  sender : Option Text := none
  role : Option Text := none
  dateFrom : Option Text := none
  dateTo : Option Text := none
  limit : Nat := 10
  queryEmbedding : Option E := none

/-- Python's and Postgres' part. -/
structure Lib (E : Type) where
  /-- `uuid.UUID(text)`; none is a `ValueError`. -/
  uuid : Text → Option Id
  /-- `datetime.fromisoformat(text)`, in UTC; none is a `ValueError`. -/
  fromisoformat : Text → Option Time
  /-- `embedding <=> vector` -/
  distance : E → E → Rat
  /-- `content_tsv @@ plainto_tsquery('english', query)` -/
  found : Text → Text → Bool
  /-- `ts_rank(content_tsv, plainto_tsquery('english', query))` -/
  tsRank : Text → Text → Rat
  tsRank_pos : ∀ content query, found content query = true → 0 < tsRank content query

structure Config where
  rrfConstant : Nat := 60
  searchCandidateLimit : Nat := 100
  recency : Recency.Settings := {}
  reranker : Rerank.Provider := .none
  topN : Nat := 10

inductive Failure where
  /-- `{"candidates": [], "error": "Invalid date format: ..."}` -/
  | invalidDate
  | valueError
  | postgresError
  | indexError
  deriving DecidableEq, Repr

/-- mirrors search_flow.py:345-346 -/
def minContentLength : Nat := 50

section

variable {E : Type} (lib : Lib E) (config : Config) (state : State E)

/-- The filters, read from the request. -/
structure Filters where
  conversationId : Option Id
  sender : Option Text
  role : Text
  createdFrom : Option Time
  createdTo : Option Time
  deriving DecidableEq

/-- `if text: fromisoformat(text)` -/
def parseDate (text : Option Text) : Except Failure (Option Time) :=
  match truthy text with
  | none => .ok none
  | some t => match lib.fromisoformat t with
    | some time => .ok (some time)
    | none => .error .invalidDate

/-- `if text: uuid.UUID(text)` -/
def parseUuid (text : Option Text) : Except Failure (Option Id) :=
  match truthy text with
  | none => .ok none
  | some t => match lib.uuid t with
    | some id => .ok (some id)
    | none => .error .valueError

/-- mirrors search_flow.py:313-341 -/
def readFilters : Except Failure Filters := do
  let createdFrom ← parseDate lib state.dateFrom
  let createdTo ← parseDate lib state.dateTo
  let conversationId ← parseUuid lib state.conversationId
  return ⟨conversationId, truthy state.sender, (truthy state.role).getD "user".toList, createdFrom, createdTo⟩

/-- mirrors search_flow.py:351-377 -/
def buildExtraFilters (f : Filters) (startIdx : Nat) : Built Clause (Param E) :=
  let b : Built Clause (Param E) := .start startIdx
  let b := b.bindIf .conversationId (f.conversationId.map .uuid)
  let b := b.bindIf .sender (f.sender.map .text)
  let b := b.bind .role (.text f.role)
  let b := b.literal (.longerThan minContentLength)
  let b := b.bindIf .createdFrom (f.createdFrom.map .timestamp)
  b.bindIf .createdTo (f.createdTo.map .timestamp)

/-- The value of a `LIMIT`. -/
def limitOf (params : List (Param E)) (i : Nat) : Option Nat :=
  match param params i with
  | some (.int n) => if 0 ≤ n then some n.toNat else none
  | _ => none

/-- The nearest rows with an embedding. mirrors search_flow.py:389-395 -/
def vectorRanked (vector : E) (n : Nat) (rows : List (Row E)) : List Id :=
  ((sortDesc (fun r : Row E => match r.embedding with
    | some e => -lib.distance e vector
    | none => 0) (rows.filter (·.embedding.isSome))).map (·.id)).take n

def content (r : Row E) : Text := r.content.getD []

/-- The best matches of the text search. mirrors search_flow.py:396-404 -/
def bm25Ranked (query : Text) (n : Nat) (rows : List (Row E)) : List Id :=
  ((sortDesc (fun r : Row E => lib.tsRank (content r) query)
    (rows.filter fun r => lib.found (content r) query)).map (·.id)).take n

/-- The rows joined with their scores. mirrors search_flow.py:405-416 -/
def joined (k : Nat) (v b : List Id) (scan : List (Row E)) : List Recency.Row :=
  scan.filterMap fun r =>
    if h : r.id ∈ fused v b then some ⟨r.id, r.createdAt, score k v b r.id, score_pos h⟩ else none

/-- `ORDER BY score DESC LIMIT n` -/
def ordered (rows : List Recency.Row) (n : Nat) : List Recency.Row := (sortDesc Recency.Row.score rows).take n

/-- The statement with an embedding. mirrors search_flow.py:379-431 -/
def vectorRows (f : Filters) (vector : E) (scan : List (Row E)) : Option (List Recency.Row) := do
  let b := buildExtraFilters f 3
  let params := [.vector vector, .text state.query] ++ b.args ++
    [.int config.searchCandidateLimit, .int config.rrfConstant, .int (state.limit * 5 : Nat)]
  let matching ← select eval params b.clauses scan
  match param params 1, param params 2 with
  | some (.vector e), some (.text query) =>
    let candidateLimit ← limitOf params b.idx
    let k ← limitOf params (b.idx + 1)
    let n ← limitOf params (b.idx + 2)
    return ordered (joined k (vectorRanked lib e candidateLimit matching) (bm25Ranked lib query candidateLimit matching)
      scan) n
  | _, _ => none

/-- The rows the text search finds, with its rank as their score. -/
def textScored (query : Text) (rows : List (Row E)) : List Recency.Row :=
  rows.filterMap fun r =>
    if h : lib.found (content r) query = true then
      some ⟨r.id, r.createdAt, lib.tsRank (content r) query, lib.tsRank_pos _ _ h⟩
    else none

/-- The statement without one. mirrors search_flow.py:432-447 -/
def textRows (f : Filters) (scan : List (Row E)) : Option (List Recency.Row) := do
  let b := buildExtraFilters f 2
  let params := [.text state.query] ++ b.args ++ [.int (state.limit * 5 : Nat)]
  let matching ← select eval params b.clauses scan
  match param params 1 with
  | some (.text query) =>
    let n ← limitOf params b.idx
    return ordered (textScored lib query matching) n
  | _ => none

/-- mirrors search_flow.py:458-485 -/
def applyRecency (path : Recency.Path) (now : Rat) (rows : List Recency.Row) : List Recency.Candidate :=
  let candidates := rows.map (Recency.candidate path)
  if candidates ≠ [] ∧ 0 < Recency.truncate config.recency.recencyDecayDays ∧
      0 < config.recency.recencyMaxPenalty then
    sortDesc (·.score.value) (candidates.map (Recency.adjust config.recency now))
  else candidates

/-- mirrors search_flow.py:293-487 -/
def hybridSearchMessages (now : Rat) (scan : List (Row E)) : Except Failure (List Recency.Candidate) :=
  match readFilters lib state with
  | .error e => .error e
  | .ok f =>
    match state.queryEmbedding with
    | some vector => match vectorRows lib config state f vector scan with
      | some rows => .ok (applyRecency config .hybrid now rows)
      | none => .error .postgresError
    | none => match textRows lib state f scan with
      | some rows => .ok (applyRecency config .textOnly now rows)
      | none => .error .postgresError

/-- The flow: `hybrid_search_messages`, then `rerank_results` with the answer of
the service. mirrors search_flow.py:490-544 -/
def search (now : Rat) (scan : List (Row E)) (response : Option Rerank.Response) :
    Except Failure (List (Rerank.Candidate Recency.Candidate)) :=
  match hybridSearchMessages lib config state now scan with
  | .error e => .error e
  | .ok candidates =>
    match Rerank.rerankResults config.reranker candidates config.topN state.limit response with
    | .ok results => .ok results
    | .error _ => .error .indexError

end

/-! ## The statement -/

/-- The message passes every filter of the request. -/
def Filters.passes {E : Type} (f : Filters) (r : Row E) : Bool :=
  f.conversationId.all (r.conversationId == ·) && f.sender.all (r.sender == ·) && r.role == f.role &&
    r.content.any (fun content => decide (minContentLength < content.length)) &&
      f.createdFrom.all (fun t => decide (t ≤ r.createdAt)) && f.createdTo.all (fun t => decide (r.createdAt ≤ t))

section

variable {E : Type} {lib : Lib E} {config : Config} {state : State E} {f : Filters} {scan : List (Row E)} {now : Rat}

theorem reads_conversationId (id : Id) :
    Reads (eval (E := E)) .conversationId (.uuid id) fun r => r.conversationId == id := by
  intro params i h row
  simp [eval, h]

theorem reads_sender (t : Text) : Reads (eval (E := E)) .sender (.text t) fun r => r.sender == t := by
  intro params i h row
  simp [eval, h]

theorem reads_role (t : Text) : Reads (eval (E := E)) .role (.text t) fun r => r.role == t := by
  intro params i h row
  simp [eval, h]

theorem reads_createdFrom (t : Time) :
    Reads (eval (E := E)) .createdFrom (.timestamp t) fun r => decide (t ≤ r.createdAt) := by
  intro params i h row
  simp [eval, h]

theorem reads_createdTo (t : Time) :
    Reads (eval (E := E)) .createdTo (.timestamp t) fun r => decide (r.createdAt ≤ t) := by
  intro params i h row
  simp [eval, h]

/-- **The filters** mean what was asked for, above any values bound before them. -/
theorem valid_filters (f : Filters) (base : List (Param E)) :
    ∃ ps, Positional.Valid eval base (buildExtraFilters f (base.length + 1)) ps ∧ ∀ r, ps.all (· r) = f.passes r := by
  have hvalid := ((((((valid_start eval base).bindIf reads_conversationId f.conversationId).bindIf
    reads_sender f.sender).bind (reads_role f.role)).literal (c := .longerThan minContentLength)
    (fun _ _ => rfl)).bindIf reads_createdFrom f.createdFrom).bindIf reads_createdTo f.createdTo
  refine ⟨_, hvalid, fun r => ?_⟩
  cases hc : f.conversationId <;> cases hs : f.sender <;> cases hf : f.createdFrom <;> cases ht : f.createdTo <;>
    simp [Filters.passes, hc, hs, hf, ht, Bool.and_assoc]

/-- The rows a search is over. -/
def matching (f : Filters) (scan : List (Row E)) : List (Row E) := scan.filter f.passes

theorem limitOf_nat {params : List (Param E)} {i n : Nat} (h : param params i = some (.int n)) :
    limitOf params i = some n := by
  simp [limitOf, h]

/-- **The hybrid statement**: each placeholder reads its own value. -/
theorem vectorRows_eq (vector : E) : vectorRows lib config state f vector scan =
    some (ordered (joined config.rrfConstant (vectorRanked lib vector config.searchCandidateLimit (matching f scan))
      (bm25Ranked lib state.query config.searchCandidateLimit (matching f scan)) scan) (state.limit * 5)) := by
  obtain ⟨ps, hvalid, hps⟩ := valid_filters f [.vector vector, .text state.query]
  have hselect := hvalid.select
    [.int config.searchCandidateLimit, .int config.rrfConstant, .int (state.limit * 5 : Nat)] scan
  have hnext := hvalid.param_next
    [.int config.searchCandidateLimit, .int config.rrfConstant, .int (state.limit * 5 : Nat)]
  simp only [hps] at hselect
  have hcandidates := limitOf_nat (hnext 0)
  have hk := limitOf_nat (hnext 1)
  have hlimit := limitOf_nat (hnext 2)
  rw [vectorRows]
  simp only [List.length_cons, List.length_nil, Nat.zero_add, Nat.reduceAdd, Nat.add_zero] at hselect hcandidates hk hlimit
  simp only [Option.bind_eq_bind, hselect, Option.bind_some]
  have hfirst : ∀ rest : List (Param E), param ([.vector vector, .text state.query] ++ rest) 1 = some (.vector vector) :=
    fun rest => rfl
  have hsecond : ∀ rest : List (Param E), param ([.vector vector, .text state.query] ++ rest) 2 =
      some (.text state.query) := fun rest => rfl
  simp only [List.append_assoc, hfirst, hsecond] at hcandidates hk hlimit ⊢
  simp only [hcandidates, hk, hlimit, Option.bind_some]
  rfl

/-- The text-only statement. -/
theorem textRows_eq : textRows lib state f scan =
    some (ordered (textScored lib state.query (matching f scan)) (state.limit * 5)) := by
  obtain ⟨ps, hvalid, hps⟩ := valid_filters f [.text state.query]
  have hselect := hvalid.select [.int (state.limit * 5 : Nat)] scan
  have hlimit := limitOf_nat (hvalid.param_next [.int (state.limit * 5 : Nat)] 0)
  simp only [hps] at hselect
  rw [textRows]
  simp only [List.length_cons, List.length_nil, Nat.zero_add, Nat.reduceAdd, Nat.add_zero] at hselect hlimit
  simp only [Option.bind_eq_bind, hselect, Option.bind_some]
  have hfirst : ∀ rest : List (Param E), param ([.text state.query] ++ rest) 1 = some (.text state.query) :=
    fun rest => rfl
  simp only [List.append_assoc, hfirst] at hlimit ⊢
  simp only [hlimit, Option.bind_some]
  rfl

/-! ## The rows that come out -/

/-- One of the rankings has the message. -/
def Found (lib : Lib E) (state : State E) (r : Row E) : Bool :=
  state.queryEmbedding.isSome && r.embedding.isSome || lib.found (content r) state.query

theorem mem_joined {k : Nat} {v b : List Id} {c : Recency.Row} (h : c ∈ joined k v b scan) :
    ∃ r ∈ scan, c.id = r.id ∧ r.id ∈ fused v b ∧ c.score = score k v b r.id := by
  obtain ⟨r, hr, hc⟩ := List.mem_filterMap.mp h
  by_cases hmem : r.id ∈ fused v b
  · rw [dif_pos hmem] at hc
    obtain rfl := Option.some.inj hc
    exact ⟨r, hr, rfl, hmem, rfl⟩
  · rw [dif_neg hmem] at hc
    cases hc

theorem joined_ids (k : Nat) (v b : List Id) (scan : List (Row E)) :
    (joined k v b scan).map (·.id) = (scan.map (·.id)).filter (· ∈ fused v b) := by
  induction scan with
  | nil => rfl
  | cons r scan ih =>
    simp only [joined, List.filterMap_cons, List.map_cons, List.filter_cons] at ih ⊢
    by_cases hmem : r.id ∈ fused v b
    · simp only [hmem, dite_true, List.map_cons, decide_true, if_true, ih]
    · simp only [hmem, dite_false, decide_false, Bool.false_eq_true, if_false, ih]

theorem mem_vectorRanked {vector : E} {n : Nat} {rows : List (Row E)} {id : Id}
    (h : id ∈ vectorRanked lib vector n rows) : ∃ r ∈ rows, r.embedding.isSome = true ∧ r.id = id := by
  obtain ⟨r, hr, rfl⟩ := List.mem_map.mp (List.mem_of_mem_take h)
  obtain ⟨hmem, hsome⟩ := List.mem_filter.mp (Ranked.mem_sortDesc.mp hr)
  exact ⟨r, hmem, hsome, rfl⟩

theorem mem_bm25Ranked {query : Text} {n : Nat} {rows : List (Row E)} {id : Id}
    (h : id ∈ bm25Ranked lib query n rows) : ∃ r ∈ rows, lib.found (content r) query = true ∧ r.id = id := by
  obtain ⟨r, hr, rfl⟩ := List.mem_map.mp (List.mem_of_mem_take h)
  obtain ⟨hmem, hfound⟩ := List.mem_filter.mp (Ranked.mem_sortDesc.mp hr)
  exact ⟨r, hmem, hfound, rfl⟩

theorem textScored_ids (query : Text) (rows : List (Row E)) :
    (textScored lib query rows).map (·.id) = (rows.filter fun r => lib.found (content r) query).map (·.id) := by
  induction rows with
  | nil => rfl
  | cons r rows ih =>
    simp only [textScored, List.filterMap_cons, List.filter_cons] at ih ⊢
    by_cases hfound : lib.found (content r) query = true
    · simp only [hfound, dite_true, List.map_cons, if_true, ih]
    · simp only [hfound, dite_false, Bool.false_eq_true, if_false, ih]

theorem copies_rows {α : Type} (candidates : List α) : (Rerank.copies candidates).map (·.row) = candidates := by
  simp [Rerank.copies, List.map_map, Function.comp_def, List.zipIdx_map_fst]

/-- The rows a search scores, before they are ordered. -/
def scored (lib : Lib E) (config : Config) (state : State E) (f : Filters) (scan : List (Row E)) : List Recency.Row :=
  match state.queryEmbedding with
  | some vector => joined config.rrfConstant
      (vectorRanked lib vector config.searchCandidateLimit (matching f scan))
      (bm25Ranked lib state.query config.searchCandidateLimit (matching f scan)) scan
  | none => textScored lib state.query (matching f scan)

def pathOf (state : State E) : Recency.Path :=
  if state.queryEmbedding.isSome then .hybrid else .textOnly

/-- **No statement fails**, and what it returns are the scored rows, best first. -/
theorem hybrid_eq (hread : readFilters lib state = .ok f) : hybridSearchMessages lib config state now scan =
    .ok (applyRecency config (pathOf state) now (ordered (scored lib config state f scan) (state.limit * 5))) := by
  unfold hybridSearchMessages
  rw [hread]
  cases hvec : state.queryEmbedding with
  | some vector => simp [vectorRows_eq, scored, pathOf, hvec]
  | none => simp [textRows_eq, scored, pathOf, hvec]

theorem scored_nodup (hkey : (scan.map (·.id)).Nodup) : ((scored lib config state f scan).map (·.id)).Nodup := by
  unfold scored
  cases state.queryEmbedding with
  | some vector =>
    simp only [joined_ids]
    exact hkey.filter _
  | none =>
    simp only [textScored_ids]
    exact ((List.filter_sublist.trans List.filter_sublist).map _).nodup hkey

theorem rerank_plain {α : Type} {provider : Rerank.Provider} (h : provider ≠ .api) (candidates : List α)
    (topN limit : Nat) (response : Option Rerank.Response) :
    Rerank.rerankResults provider candidates topN limit response = .ok ((Rerank.copies candidates).take limit) := by
  simp [Rerank.rerankResults, h]

theorem search_plain {response : Option Rerank.Response} (hprovider : config.reranker ≠ .api)
    (hread : readFilters lib state = .ok f) : search lib config state now scan response =
      .ok ((Rerank.copies (applyRecency config (pathOf state) now
        (ordered (scored lib config state f scan) (state.limit * 5)))).take state.limit) := by
  rw [search, hybrid_eq hread]
  simp only [rerank_plain hprovider]

/-- The messages behind the first candidates. -/
theorem shown_ids (l : List Recency.Candidate) (n : Nat) :
    ((Rerank.copies l).take n).map (·.row.row.id) = ((l.map (·.row)).map (·.id)).take n := by
  conv_rhs => rw [← copies_rows l]
  simp [List.map_take, List.map_map, Function.comp_def]

/-- The scores of the hybrid search are decimals, which the bias passes over. -/
theorem applyRecency_hybrid {rows : List Recency.Row} (h : rows.Pairwise fun a b => b.score ≤ a.score) :
    (applyRecency config .hybrid now rows).map (·.row) = rows := by
  have hadjust : (rows.map (Recency.candidate .hybrid)).map (Recency.adjust config.recency now) =
      rows.map (Recency.candidate .hybrid) := by
    rw [List.map_map]
    exact List.map_congr_left fun r _ => Recency.adjust_hybrid
  have hsorted : sortDesc (fun c : Recency.Candidate => c.score.value) (rows.map (Recency.candidate .hybrid)) =
      rows.map (Recency.candidate .hybrid) := by
    refine List.Pairwise.insertionSort_eq ?_
    rw [List.pairwise_map]
    simpa using h
  have hrow : (rows.map (Recency.candidate .hybrid)).map (·.row) = rows := by
    rw [List.map_map]
    exact List.map_id _
  unfold applyRecency
  dsimp only
  split
  · rw [hadjust, hsorted, hrow]
  · exact hrow

/-- In a list by descending key the larger key comes first. -/
theorem idxOf_lt_of_key {α β : Type} [DecidableEq β] {key : α → Rat} {name : α → β} {l : List α} {x y : α} {n : Nat}
    (hsorted : l.Pairwise fun a b => key b ≤ key a) (hnodup : (l.map name).Nodup) (hx : x ∈ l) (hy : y ∈ l)
    (hlt : key y < key x) (hshown : name y ∈ (l.map name).take n) :
    ((l.map name).take n).idxOf (name x) < ((l.map name).take n).idxOf (name y) := by
  obtain ⟨i, hi, rfl⟩ := List.getElem_of_mem hx
  obtain ⟨j, hj, rfl⟩ := List.getElem_of_mem hy
  have hij : i < j := by
    by_contra hle
    rcases Nat.lt_or_eq_of_le (Nat.le_of_not_lt hle) with hji | rfl
    · exact absurd (List.pairwise_iff_getElem.mp hsorted j i hj hi hji) (not_le.mpr hlt)
    · exact lt_irrefl _ hlt
  have hidx : ∀ k (hk : k < l.length), k < n → ((l.map name).take n).idxOf (name l[k]) = k := by
    intro k hk hkn
    have hlen : k < ((l.map name).take n).length := by simp; omega
    have hget : ((l.map name).take n)[k] = name l[k] := by simp
    rw [← hget]
    exact (hnodup.sublist (List.take_sublist _ _)).idxOf_getElem k hlen
  have hjn : j < n := by
    obtain ⟨k, hk, hget⟩ := List.getElem_of_mem hshown
    have hkl : k < l.length ∧ k < n := by simp at hk; omega
    have hkn : k < (l.map name).length := by simpa using hkl.1
    have hjl : j < (l.map name).length := by simpa using hj
    have hname : (l.map name)[k] = (l.map name)[j] := by simpa using hget
    have hkj : k = j := (List.Nodup.getElem_inj_iff hnodup).mp hname
    omega
  rw [hidx i hi (by omega), hidx j hj hjn]
  exact hij

/-- `x` is among the first `k + 1` of both rankings and `y` in only one of them, or `x` is
ahead in either and ahead or just as absent in the other. -/
def Wins (k : Nat) (v b : List Id) (x y : Id) : Prop :=
  (∃ r s, rankOf v x = some r ∧ rankOf b x = some s ∧ r ≤ k + 1 ∧ s ≤ k + 1 ∧ (y ∉ v ∨ y ∉ b)) ∨
    Dominates v b x y ∨ Dominates b v x y

theorem Wins.score_lt {k : Nat} {v b : List Id} {x y : Id} (h : Wins k v b x y) : score k v b y < score k v b x := by
  rcases h with ⟨r, s, hv, hb, hr, hs, hone⟩ | hv | hb
  · exact score_lt_of_consensus hv hb hr hs hone
  · exact score_lt_of_ahead hv
  · rw [score_comm k v b y, score_comm k v b x]
    exact score_lt_of_ahead hb

theorem Wins.mem {k : Nat} {v b : List Id} {x y : Id} (h : Wins k v b x y) : x ∈ fused v b := by
  rw [mem_fused]
  rcases h with ⟨r, s, hv, -⟩ | hv | hb
  · exact .inl (rankOf_isSome.mp ⟨r, hv⟩)
  · exact .inl hv.1.1
  · exact .inr hb.1.1

/-- **The order of the results**, without a reranker: a message that wins over another
in the two rankings comes before it, and is shown if the other is. -/
theorem fusion_order (lib : Lib E) (config : Config) (state : State E) (now : Rat) (scan : List (Row E))
    (response : Option Rerank.Response) (hkey : (scan.map (·.id)).Nodup) (hprovider : config.reranker ≠ .api)
    (hread : readFilters lib state = .ok f) {vector : E} (hvec : state.queryEmbedding = some vector) {x y : Id}
    (hwins : Wins config.rrfConstant (vectorRanked lib vector config.searchCandidateLimit (matching f scan))
      (bm25Ranked lib state.query config.searchCandidateLimit (matching f scan)) x y)
    {out : List (Rerank.Candidate Recency.Candidate)} (hout : search lib config state now scan response = .ok out)
    (hy : y ∈ out.map (·.row.row.id)) :
    (out.map (·.row.row.id)).idxOf x < (out.map (·.row.row.id)).idxOf y := by
  have hpath : pathOf state = .hybrid := by simp [pathOf, hvec]
  have hscored : scored lib config state f scan = joined config.rrfConstant
      (vectorRanked lib vector config.searchCandidateLimit (matching f scan))
      (bm25Ranked lib state.query config.searchCandidateLimit (matching f scan)) scan := by
    simp [scored, hvec]
  have hsorted := Ranked.sortDesc_sorted Recency.Row.score (scored lib config state f scan)
  rw [search_plain hprovider hread, hpath] at hout
  obtain rfl := Except.ok.inj hout
  rw [shown_ids, ordered, applyRecency_hybrid (hsorted.sublist (List.take_sublist _ _)), List.map_take,
    List.take_take] at hy ⊢
  have hnodup : ((sortDesc Recency.Row.score (scored lib config state f scan)).map (·.id)).Nodup :=
    ((Ranked.sortDesc_perm _ _).map _).nodup_iff.mpr (scored_nodup hkey)
  -- the rows of the two messages
  obtain ⟨d, hd, rfl⟩ := List.mem_map.mp (List.mem_of_mem_take hy)
  have hdscored : d ∈ scored lib config state f scan := Ranked.mem_sortDesc.mp hd
  have hdscore := hdscored
  rw [hscored] at hdscore
  obtain ⟨q, -, hdid, -, hds⟩ := mem_joined hdscore
  obtain ⟨r, hr, hrid⟩ : ∃ r ∈ matching f scan, r.id = x := by
    rcases mem_fused.mp hwins.mem with hv | hb
    · obtain ⟨r, hr, -, hrid⟩ := mem_vectorRanked hv
      exact ⟨r, hr, hrid⟩
    · obtain ⟨r, hr, -, hrid⟩ := mem_bm25Ranked hb
      exact ⟨r, hr, hrid⟩
  have hx : x ∈ (scored lib config state f scan).map (·.id) := by
    rw [hscored, joined_ids]
    refine List.mem_filter.mpr ⟨List.mem_map.mpr ⟨r, (List.mem_filter.mp hr).1, hrid⟩, ?_⟩
    exact decide_eq_true hwins.mem
  obtain ⟨c, hc, rfl⟩ := List.mem_map.mp hx
  have hcscore := hc
  rw [hscored] at hcscore
  obtain ⟨p, -, hcid, -, hcs⟩ := mem_joined hcscore
  refine idxOf_lt_of_key hsorted hnodup (Ranked.mem_sortDesc.mpr hc) hd ?_ hy
  have hlt := hwins.score_lt
  rw [hcid, hdid] at hlt
  rw [hcs, hds]
  exact hlt

end

/-! ## An example -/

/-- Embeddings are numbers; the text search finds what has the query as its beginning. -/
def exampleLib : Lib Int where
  uuid _ := none
  fromisoformat _ := none
  distance a b := ((a - b).natAbs : Rat)
  found content query := query.isPrefixOf content
  tsRank _ _ := 1
  tsRank_pos _ _ _ := by decide +kernel

def longText (head : Char) : Text := List.replicate 60 head

/-- Message 1 is found by both rankings, message 2 is nearer but found by one, message 3 is
an answer of the assistant. -/
def exampleScan : List (Row Int) :=
  [⟨1, 7, "user".toList, "ann".toList, some (longText 'a'), 0, some 5⟩,
    ⟨2, 7, "user".toList, "ann".toList, some (longText 'b'), 0, some 1⟩,
    ⟨3, 7, "assistant".toList, "bot".toList, some (longText 'a'), 0, some 0⟩]

def exampleState : State Int := { query := ['a'], queryEmbedding := some 0 }

def exampleFilters : Filters := ⟨none, none, "user".toList, none, none⟩

theorem search_example : (search exampleLib {} exampleState 0 exampleScan none).toOption.map
    (·.map (·.row.row.id)) = some [1, 2] := by
  decide +kernel

theorem search_ok : ∃ out, search exampleLib {} exampleState 0 exampleScan none = .ok out ∧
    out.map (·.row.row.id) = [1, 2] := by
  have hids := search_example
  cases h : search exampleLib {} exampleState 0 exampleScan none with
  | error e =>
    rw [h] at hids
    cases hids
  | ok out =>
    rw [h] at hids
    exact ⟨out, rfl, Option.some.inj hids⟩

theorem fusion_order_example : ∃ out, search exampleLib {} exampleState 0 exampleScan none = .ok out ∧
    (out.map (·.row.row.id)).idxOf 1 < (out.map (·.row.row.id)).idxOf 2 := by
  obtain ⟨out, hout, hids⟩ := search_ok
  refine ⟨out, hout, fusion_order (f := exampleFilters) exampleLib {} exampleState 0 exampleScan none (by decide)
    (by decide) rfl (show exampleState.queryEmbedding = some 0 from rfl)
    (.inl ⟨2, 1, ?_, ?_, by decide, by decide, .inr ?_⟩) hout (by simp [hids])⟩
  · decide +kernel
  · decide +kernel
  · decide +kernel

end ContextBroker.HybridSearch
