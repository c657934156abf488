import ContextBroker.L1Data.Tables

/-!
# Storing messages

The two ways a message enters a conversation: `store_message` of the message
pipeline, and the prompt `get_context` stores before it retrieves. Both run
one transaction under the conversation's advisory lock, so a store is one
atomic step here: a repeat of the last message (same sender, same content)
raises its `repeat_count`, anything else is inserted under the next sequence
number, `COALESCE(MAX(sequence_number), 0) + 1`.

`store_message` computes `token_count` itself and moves tool errors to role
`tool`; the prompt path does neither check the text nor count an empty one
as 0.

**Results.** `store_grows`: a store touches no summary and no window, and
every conversation keeps its messages, apart from their `repeat_count`, as
a prefix. `store_consecutive`: sequence numbers run 1, 2, ..., n in table
order in every conversation, after a store as before. `store_counted`: every
stored `token_count` agrees with the estimate from the content.
-/
namespace ContextBroker

open Rows

/-! ## Tool errors -/

/-- The first code point of each run of ten decimal digits (category Nd). -/
def digitZeros : List Nat :=
  [0x30, 0x660, 0x6f0, 0x7c0, 0x966, 0x9e6, 0xa66, 0xae6, 0xb66, 0xbe6, 0xc66, 0xce6, 0xd66, 0xde6,
   0xe50, 0xed0, 0xf20, 0x1040, 0x1090, 0x17e0, 0x1810, 0x1946, 0x19d0, 0x1a80, 0x1a90, 0x1b50,
   0x1bb0, 0x1c40, 0x1c50, 0xa620, 0xa8d0, 0xa900, 0xa9d0, 0xa9f0, 0xaa50, 0xabf0, 0xff10, 0x104a0,
   0x10d30, 0x11066, 0x110f0, 0x11136, 0x111d0, 0x112f0, 0x11450, 0x114d0, 0x11650, 0x116c0,
   0x11730, 0x118e0, 0x11950, 0x11c50, 0x11d50, 0x11da0, 0x11f50, 0x16a60, 0x16ac0, 0x16b50,
   0x1d7ce, 0x1d7d8, 0x1d7e2, 0x1d7ec, 0x1d7f6, 0x1e140, 0x1e2f0, 0x1e4f0, 0x1e950, 0x1fbf0]

/-- `\d` on str patterns. -/
def isDecimalDigit (c : Char) : Bool := digitZeros.any fun z => z ≤ c.toNat && c.toNat < z + 10

/-- The alternatives of `_TOOL_ERROR_PATTERN` anchored at the start.
mirrors message_pipeline.py:41-53 -/
def toolErrorPrefixes : List String :=
  ["Error writing ", "Error reading ", "Error listing ", "Error updating ", "Error executing ",
   "File not found: ", "Directory not found: ", "Access denied: ", "Search error: ",
   "Query error: ", "Invalid regex: ", "Cannot reach ", "System prompt not found: "]

/-- `\[Errno \d+\]` at the start of `text`. -/
def startsWithErrno (text : Text) : Bool :=
  "[Errno ".toList.isPrefixOf text &&
    match (text.drop 7).span isDecimalDigit with
    | (_ :: _, ']' :: _) => true
    | _ => false

/-- `_TOOL_ERROR_PATTERN.search(content)`. -/
def toolErrorPattern (text : Text) : Bool :=
  (toolErrorPrefixes.any fun p => p.toList.isPrefixOf text) ||
    text.tails.any fun t =>
      "Traceback (most recent call last)".toList.isPrefixOf t || startsWithErrno t

/-- mirrors message_pipeline.py:56-62 -/
def detectToolErrorRole (content : Option Text) (role : Role) : Role :=
  match content with
  | some (c :: cs) => if (role = .user ∨ role = .assistant) ∧ toolErrorPattern (c :: cs) then .tool else role
  | _ => role

/-! ## The pipeline -/

/-- The state fields `store_message` reads. -/
structure StoreInput where
  contextWindowId : Option Id := none
  conversationIdInput : Option Id := none
  role : Role
  sender : Text
  recipient : Option Text := none
  content : Option Text
  modelName : Option Text := none
  toolCalls : Option Text := none
  toolCallId : Option Text := none
  deriving DecidableEq, Repr

inductive StoreError where
  | windowNotFound (w : Id)
  | noIdentifier
  | conversationNotFound (c : Id)
  | sequenceConflict (c : Id)
  deriving DecidableEq, Repr

/-- The fields `store_message` returns. -/
structure StoreResult where
  messageId : Id
  conversationId : Id
  sequenceNumber : Option Nat
  wasCollapsed : Bool
  deriving DecidableEq, Repr

/-- mirrors message_pipeline.py:29-34,144 -/
def rolePriority : Role → Nat
  | .user => 1
  | .assistant => 2
  | .system => 3
  | .tool => 4
  | .other _ => 2

/-- mirrors message_pipeline.py:147-158 -/
def resolveRecipient (role : Role) : Option Text → Text
  | some (c :: cs) => c :: cs
  | _ =>
    match role with
    | .assistant => "user".toList
    | .user => "assistant".toList
    | .system => "all".toList
    | .tool => "assistant".toList
    | .other _ => "all".toList

/-- `max(1, len(content) // 4) if content else 0`. -/
def effectiveTokenCount : Option Text → Nat
  | some (c :: cs) => estimateTokens (c :: cs)
  | _ => 0

namespace Db

/-- The row of the latest sequence number. -/
def lastMessage (db : Db) (c : Id) : Option Message := (db.newestFirst c).head?

/-- `COALESCE(MAX(sequence_number), 0) + 1`. -/
def nextSequence (db : Db) (c : Id) : Nat := maxOf (·.sequenceNumber) (db.messagesOf c) + 1

/-- `UPDATE conversation_messages SET repeat_count = n WHERE id = $1`. -/
def setRepeatCount (db : Db) (id : Id) (n : Nat) : Db :=
  { db with messages := db.messages.map fun m => if m.id == id then { m with repeatCount := n } else m }

/-- `UPDATE conversations SET ... WHERE id = $1`. -/
def updateConversation (db : Db) (c : Id) (f : Conversation → Conversation) : Db :=
  { db with conversations := db.conversations.map fun x => if x.id == c then f x else x }

/-- total_messages + 1, estimated_token_count + n, updated_at = NOW(). -/
def countMessage (db : Db) (c : Id) (n : Nat) (now : Time) : Db :=
  db.updateConversation c fun x =>
    { x with totalMessages := x.totalMessages + 1,
             estimatedTokenCount := x.estimatedTokenCount + n, updatedAt := now }

end Db

/-- The conversation a store is for, looked up through the window if one is
given. mirrors message_pipeline.py:106-137 -/
def resolveConversation (db : Db) (inp : StoreInput) : Except StoreError Id :=
  match inp.contextWindowId, inp.conversationIdInput with
  | some w, _ =>
    match db.window? w with
    | none => .error (.windowNotFound w)
    | some win => .ok win.conversationId
  | none, some c => .ok c
  | none, none => .error .noIdentifier

/-- The row `store_message` inserts. -/
def storeRow (now : Time) (db : Db) (c : Id) (inp : StoreInput) : Message :=
  let role := detectToolErrorRole inp.content inp.role
  { id := 0, conversationId := c, role, sender := inp.sender
    recipient := resolveRecipient role inp.recipient, content := inp.content
    toolCalls := inp.toolCalls, toolCallId := inp.toolCallId
    tokenCount := some (effectiveTokenCount inp.content), modelName := inp.modelName
    priority := rolePriority role, sequenceNumber := db.nextSequence c, createdAt := now }

/-- A collapse needs the same sender and the same, non-null content. -/
def collapses (last : Message) (inp : StoreInput) : Bool :=
  last.sender == inp.sender && last.content == inp.content && inp.content.isSome

/-- The second attempt after a unique violation sees the same rows, so a
conflict is final. mirrors message_pipeline.py:89-286 -/
def storeMessage (now : Time) (db : Db) (inp : StoreInput) : Except StoreError StoreResult × Db :=
  match resolveConversation db inp with
  | .error e => (.error e, db)
  | .ok c =>
    if (db.conversation? c).isNone then (.error (.conversationNotFound c), db)
    else
      match (db.lastMessage c).filter (collapses · inp) with
      | some last =>
        let newCount := (if last.repeatCount = 0 then 1 else last.repeatCount) + 1
        (.ok ⟨last.id, c, none, true⟩,
          (db.setRepeatCount last.id newCount).updateConversation c fun x => { x with updatedAt := now })
      | none =>
        let row := storeRow now db c inp
        match db.insertMessage row with
        | .error _ => (.error (.sequenceConflict c), db)
        | .ok db' =>
          (.ok ⟨db.nextId, c, some row.sequenceNumber, false⟩,
            db'.countMessage c (effectiveTokenCount inp.content) now)

/-! ## The prompt of get_context -/

/-- The row the prompt is inserted as. -/
def promptRow (now : Time) (db : Db) (c : Id) (prompt : Text) : Message :=
  { id := 0, conversationId := c, role := .user, sender := "user".toList
    recipient := "assistant".toList, content := some prompt
    tokenCount := some (estimateTokens prompt), priority := 1
    sequenceNumber := db.nextSequence c, createdAt := now }

/-- mirrors conversation_ops_flow.py:606-661 -/
def storePrompt (now : Time) (db : Db) (c : Id) (prompt : Text) : Except Exn Db :=
  match (db.lastMessage c).filter fun m => m.sender == "user".toList && m.content == some prompt with
  | some last => .ok (db.setRepeatCount last.id (last.repeatCount + 1))
  | none => do
    let db' ← db.insertMessage (promptRow now db c prompt)
    return db'.countMessage c (estimateTokens prompt) now

/-! ## A store as one step -/

/-- A committed store, by either path, at transaction time `now`. -/
inductive Store where
  | message (now : Time) (inp : StoreInput)
  | prompt (now : Time) (c : Id) (text : Text)
  deriving DecidableEq, Repr

/-- The database after a store; a refused one changes nothing. -/
def Db.store (db : Db) : Store → Db
  | .message now inp => (storeMessage now db inp).2
  | .prompt now c text =>
    match storePrompt now db c text with
    | .ok db' => db'
    | .error _ => db

/-- Stores committed one after the other. -/
def Db.storeAll (db : Db) (stores : List Store) : Db := stores.foldl Db.store db

/-- Transaction time of a store. -/
def Store.now : Store → Time
  | .message now _ => now
  | .prompt now _ _ => now

/-- What a store can do: nothing, raise a repeat count, or insert one row
under the next sequence number. -/
inductive StoreEffect (now : Time) (db : Db) : Db → Prop where
  | unchanged : StoreEffect now db db
  | collapsed (id : Id) (n : Nat) (convs : List Conversation) :
      StoreEffect now db { db.setRepeatCount id n with conversations := convs }
  | inserted (row : Message) (convs : List Conversation) :
      row.sequenceNumber = db.nextSequence row.conversationId →
      messageTokens row = estimateTokens (row.content.getD []) →
      row.createdAt = now →
      StoreEffect now db { db with conversations := convs, messages := db.messages ++ [row],
                                   nextId := db.nextId + 1 }

theorem messageTokens_effective (content : Option Text) (row : Message)
    (ht : row.tokenCount = some (effectiveTokenCount content)) (hc : row.content = content) :
    messageTokens row = estimateTokens (row.content.getD []) := by
  subst hc
  unfold messageTokens
  rw [ht]
  cases hc : row.content with
  | none => rfl
  | some text =>
    cases text with
    | nil => rfl
    | cons a l =>
      have hpos : 0 < estimateTokens (a :: l) := Nat.lt_of_lt_of_le Nat.one_pos (Nat.le_max_left _ _)
      obtain ⟨n, hn⟩ : ∃ n, estimateTokens (a :: l) = n + 1 := ⟨_, (Nat.succ_pred hpos.ne').symm⟩
      simp only [effectiveTokenCount, Option.getD_some, hn]

theorem messageTokens_prompt (now : Time) (db : Db) (c : Id) (prompt : Text) (id : Id) :
    messageTokens { promptRow now db c prompt with id := id } = estimateTokens prompt := by
  have hpos : 0 < estimateTokens prompt := Nat.lt_of_lt_of_le Nat.one_pos (Nat.le_max_left _ _)
  obtain ⟨n, hn⟩ : ∃ n, estimateTokens prompt = n + 1 := ⟨_, (Nat.succ_pred hpos.ne').symm⟩
  simp only [messageTokens, promptRow, hn]

theorem store_effect (db : Db) (s : Store) : StoreEffect s.now db (db.store s) := by
  cases s with
  | message now inp =>
    simp only [Db.store, Store.now, storeMessage]
    split
    · exact .unchanged
    · rename_i c _
      split
      · exact .unchanged
      · split
        · exact .collapsed _ _ _
        · split
          · exact .unchanged
          · rename_i db' h
            obtain ⟨_, _, rfl⟩ := Db.insertMessage_eq_ok.mp h
            exact .inserted _ _ rfl (messageTokens_effective inp.content _ rfl rfl) rfl
  | prompt now c text =>
    simp only [Db.store, Store.now, storePrompt]
    cases (db.lastMessage c).filter fun m => m.sender == "user".toList && m.content == some text with
    | some last => exact .collapsed _ _ db.conversations
    | none =>
      cases h : db.insertMessage (promptRow now db c text) with
      | error e => exact .unchanged
      | ok db' =>
        obtain ⟨_, _, rfl⟩ := Db.insertMessage_eq_ok.mp h
        exact .inserted _ _ rfl (messageTokens_prompt now db c text _) rfl

/-! ## What a store keeps -/

/-- `db'` is `db` after some stores: same summaries and windows, and every
conversation has kept its messages. -/
structure Db.Grows (db db' : Db) : Prop where
  summaries : db'.summaries = db.summaries
  windows : db'.windows = db.windows
  nextId : db.nextId ≤ db'.nextId
  messages : ∀ c, ∃ new,
    (db'.messagesOf c).map Message.core = (db.messagesOf c).map Message.core ++ new

theorem Db.Grows.refl (db : Db) : db.Grows db := ⟨rfl, rfl, Nat.le_refl _, fun _ => ⟨[], by simp⟩⟩

theorem Db.Grows.trans {db db' db'' : Db} (h : db.Grows db') (h' : db'.Grows db'') :
    db.Grows db'' := by
  refine ⟨h'.summaries.trans h.summaries, h'.windows.trans h.windows,
    Nat.le_trans h.nextId h'.nextId, fun c => ?_⟩
  obtain ⟨new, hnew⟩ := h.messages c
  obtain ⟨new', hnew'⟩ := h'.messages c
  exact ⟨new ++ new', by rw [hnew', hnew, List.append_assoc]⟩

theorem messagesOf_setRepeatCount (db : Db) (id : Id) (n : Nat) (c : Id) :
    (db.setRepeatCount id n).messagesOf c =
      (db.messagesOf c).map fun m => if m.id == id then { m with repeatCount := n } else m := by
  simp only [Db.messagesOf, Db.setRepeatCount, List.filter_map]
  congr 1
  refine List.filter_congr fun m _ => ?_
  simp only [Function.comp]
  split <;> rfl

/-- A repeat count is all that a collapse changes. -/
theorem map_core_setRepeatCount (db : Db) (id : Id) (n : Nat) (c : Id) :
    ((db.setRepeatCount id n).messagesOf c).map Message.core = (db.messagesOf c).map Message.core := by
  rw [messagesOf_setRepeatCount, List.map_map]
  refine List.map_congr_left fun m _ => ?_
  simp only [Function.comp]
  split <;> rfl

theorem StoreEffect.grows {now : Time} {db db' : Db} (h : StoreEffect now db db') : db.Grows db' := by
  cases h with
  | unchanged => exact Db.Grows.refl db
  | collapsed id n convs =>
    refine ⟨rfl, rfl, Nat.le_refl _, fun c => ⟨[], ?_⟩⟩
    rw [List.append_nil]
    exact map_core_setRepeatCount db id n c
  | inserted row convs _ _ _ =>
    refine ⟨rfl, rfl, Nat.le_succ _, fun c => ?_⟩
    rw [@Db.messagesOf_append db _ row rfl, List.map_append]
    exact ⟨_, rfl⟩

/-- Sequence numbers run 1, 2, ..., n in table order, in every conversation. -/
def Db.Consecutive (db : Db) : Prop := ∀ c, Numbered (·.sequenceNumber) 1 (db.messagesOf c)

/-- Every stored `token_count` agrees with the estimate from the content. -/
def Db.Counted (db : Db) : Prop :=
  ∀ m ∈ db.messages, messageTokens m = estimateTokens (m.content.getD [])

section

variable {db : Db}

theorem Db.Consecutive.newestFirst (h : db.Consecutive) (c : Id) :
    db.newestFirst c = (db.messagesOf c).reverse :=
  orderDesc_of_ascending (h c).ascending

theorem Db.Consecutive.lastMessage (h : db.Consecutive) (c : Id) :
    db.lastMessage c = (db.messagesOf c).getLast? := by
  rw [Db.lastMessage, h.newestFirst, List.head?_reverse]

theorem Db.Consecutive.nextSequence (h : db.Consecutive) (c : Id) :
    db.nextSequence c = (db.messagesOf c).length + 1 := by
  have hle : maxOf (·.sequenceNumber) (db.messagesOf c) ≤ (db.messagesOf c).length := by
    refine maxOf_le fun m hm => ?_
    have := ((h c).mem hm).2
    omega
  have hge : (db.messagesOf c).length ≤ maxOf (·.sequenceNumber) (db.messagesOf c) := by
    rcases Nat.eq_zero_or_pos (db.messagesOf c).length with h0 | hpos
    · omega
    · obtain ⟨m, hm, hs⟩ := (h c).exists_key hpos (by omega : _ < 1 + (db.messagesOf c).length)
      have hmax : m.sequenceNumber ≤ maxOf (·.sequenceNumber) (db.messagesOf c) := le_maxOf hm
      omega
  rw [Db.nextSequence]
  omega

/-- The row under the next number is inserted. -/
theorem Db.insertMessage_next {row : Message} (hconv : (db.conversation? row.conversationId).isSome = true)
    (hseq : row.sequenceNumber = db.nextSequence row.conversationId) :
    db.insertMessage row = .ok { db with messages := db.messages ++ [{ row with id := db.nextId }],
                                         nextId := db.nextId + 1 } := by
  refine Db.insertMessage_eq_ok.mpr ⟨hconv, fun m hm => ?_, rfl⟩
  have hle : m.sequenceNumber ≤ maxOf (·.sequenceNumber) (db.messagesOf row.conversationId) := le_maxOf hm
  rw [hseq, Db.nextSequence]
  omega

theorem StoreEffect.consecutive {now : Time} {db' : Db} (h : StoreEffect now db db')
    (hdb : db.Consecutive) : db'.Consecutive := by
  intro c
  cases h with
  | unchanged => exact hdb c
  | collapsed id n convs =>
    have hc := congrArg (List.map (·.sequenceNumber)) (map_core_setRepeatCount db id n c)
    have hlen := congrArg List.length hc
    simp only [List.map_map, List.length_map] at hc hlen
    exact (hc.trans (hdb c)).trans (by rw [← hlen]; rfl)
  | inserted row convs hseq _ _ =>
    rw [@Db.messagesOf_append db _ row rfl]
    refine numbered_append.mpr ⟨hdb c, ?_⟩
    split
    · rename_i hrow
      subst hrow
      rw [hdb.nextSequence] at hseq
      simp [Numbered, hseq, Nat.add_comm]
    · rfl

theorem StoreEffect.counted {now : Time} {db' : Db} (h : StoreEffect now db db')
    (hdb : db.Counted) : db'.Counted := by
  cases h with
  | unchanged => exact hdb
  | collapsed id n convs =>
    intro m hm
    obtain ⟨m', hm', rfl⟩ := List.mem_map.mp hm
    have := hdb m' hm'
    split <;> exact this
  | inserted row convs _ htok _ =>
    intro m hm
    rcases List.mem_append.mp hm with hm | hm
    · exact hdb m hm
    · rw [List.mem_singleton.mp hm]; exact htok

end

theorem store_grows (db : Db) (s : Store) : db.Grows (db.store s) := (store_effect db s).grows

theorem storeAll_grows (stores : List Store) (db : Db) : db.Grows (db.storeAll stores) := by
  induction stores generalizing db with
  | nil => exact Db.Grows.refl db
  | cons s l ih => exact (store_grows db s).trans (ih (db.store s))

theorem store_consecutive {db : Db} (h : db.Consecutive) (s : Store) : (db.store s).Consecutive :=
  (store_effect db s).consecutive h

theorem storeAll_consecutive (stores : List Store) {db : Db} (h : db.Consecutive) :
    (db.storeAll stores).Consecutive := by
  induction stores generalizing db with
  | nil => exact h
  | cons s l ih => exact ih (store_consecutive h s)

theorem store_counted {db : Db} (h : db.Counted) (s : Store) : (db.store s).Counted :=
  (store_effect db s).counted h

theorem storeAll_counted (stores : List Store) {db : Db} (h : db.Counted) :
    (db.storeAll stores).Counted := by
  induction stores generalizing db with
  | nil => exact h
  | cons s l ih => exact ih (store_counted h s)

end ContextBroker
