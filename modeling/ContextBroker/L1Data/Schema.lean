import ContextBroker.Core.Rows

/-!
# The database: tables, keys and the queries the flows issue

Tables of `postgres/init.sql` (as migrated), reduced to the columns the
modelled functions read or write. A `UUID` is a number drawn from
`Db.nextId` (`gen_random_uuid()`: never drawn twice), a timestamp is a
number, TEXT is a list of characters (`len` counts code points).

A query is a filter on the table followed by `ORDER BY` and `LIMIT`
(`Rows.orderDesc`, `limitRows`). An INSERT checks its unique index:
`insertSummary` on (window, tier, from, to), active or not; `insertMessage`
on (conversation, sequence number).

`Exn` lists the exceptions the modelled calls can raise; `Exn.caughtBy` is
an `except` clause.
-/
namespace ContextBroker

open Rows

abbrev Text := List Char

abbrev Id := Nat

abbrev Time := Nat

/-- `str.isspace`. -/
def isSpace (c : Char) : Bool :=
  let n := c.toNat
  9 ≤ n && n ≤ 13 || 28 ≤ n && n ≤ 32 || n == 0x85 || n == 0xa0 || n == 0x1680 || 0x2000 ≤ n && n ≤ 0x200a ||
    n == 0x2028 || n == 0x2029 || n == 0x202f || n == 0x205f || n == 0x3000

def strip (t : Text) : Text := ((t.dropWhile isSpace).reverse.dropWhile isSpace).reverse

/-! ## Exceptions -/

inductive Exn where
  | valueError | dataError | keyError | indexError | typeError | zeroDivisionError | overflowError
  | runtimeError | importError | osError | connectionError | timeoutError | cancelledError
  | openaiApiError | httpxHttpError
  | postgresError | uniqueViolationError | interfaceError
  deriving DecidableEq, Repr

/-- `issubclass(e, c)`. `asyncio.TimeoutError` and `ConnectionError` are
`OSError`s, asyncpg's `UniqueViolationError` is a `PostgresError`, its
`DataError` both an `InterfaceError` and a `ValueError`. -/
def Exn.isA : Exn → Exn → Bool
  | .connectionError, .osError => true
  | .timeoutError, .osError => true
  | .uniqueViolationError, .postgresError => true
  | .dataError, .interfaceError => true
  | .dataError, .valueError => true
  | e, c => e == c

/-- `except (c₁, c₂, ...)`. -/
def Exn.caughtBy (e : Exn) (clause : List Exn) : Bool := clause.any e.isA

/-- A call that returns `v` unless it raises at its site. -/
def perform {σ α : Type} (fault : σ → Option Exn) (site : σ) (v : α) : Except Exn α :=
  match fault site with
  | some e => .error e
  | none => .ok v

theorem perform_eq_ok {σ α : Type} {fault : σ → Option Exn} {site : σ} {v a : α}
    (h : perform fault site v = .ok a) : a = v := by
  unfold perform at h
  split at h
  · cases h
  · exact (Except.ok.inj h).symm

/-! ## Rows -/

/-- `role`; `store_message` validates the first four. -/
inductive Role where
  | user | assistant | system | tool
  | other (name : Text)
  deriving DecidableEq, Repr

/-- mirrors postgres/init.sql:28-37 -/
structure Conversation where
  id : Id
  totalMessages : Nat := 0
  estimatedTokenCount : Nat := 0
  updatedAt : Time := 0
  deriving DecidableEq, Repr

/-- mirrors postgres/init.sql:48-68; `toolCalls` is the JSONB text. -/
structure Message where
  id : Id
  conversationId : Id
  role : Role
  sender : Text
  recipient : Text
  content : Option Text
  toolCalls : Option Text := none
  toolCallId : Option Text := none
  tokenCount : Option Nat
  modelName : Option Text := none
  priority : Nat
  repeatCount : Nat := 1
  sequenceNumber : Nat
  createdAt : Time
  deriving DecidableEq, Repr

/-- The build types of `register.py`. -/
inductive BuildType where
  | slidingWindow | tieredSummary | enriched
  | other (name : Text)
  deriving DecidableEq, Repr

/-- mirrors postgres/init.sql:95-104 -/
structure Window where
  id : Id
  conversationId : Id
  participantId : Text
  buildType : BuildType
  maxTokenBudget : Int
  lastAssembledAt : Option Time := none
  deriving DecidableEq, Repr

/-- `CHECK (tier IN (2, 3))`. -/
inductive Tier where
  | two | three
  deriving DecidableEq, Repr

/-- mirrors postgres/init.sql:128-142 -/
structure Summary where
  id : Id
  conversationId : Id
  contextWindowId : Id
  summaryText : Text
  tier : Tier
  fromSeq : Nat
  toSeq : Nat
  messageCount : Option Nat
  originalTokenCount : Option Nat := none
  summaryTokenCount : Option Nat := none
  isActive : Bool := true
  deriving DecidableEq, Repr

/-- The columns of `idx_summaries_window_tier_seq`. -/
def Summary.key (r : Summary) : Id × Tier × Nat × Nat := (r.contextWindowId, r.tier, r.fromSeq, r.toSeq)

structure Db where
  conversations : List Conversation := []
  messages : List Message := []
  windows : List Window := []
  summaries : List Summary := []
  nextId : Id := 0
  deriving DecidableEq, Repr

/-- mirrors build_types/standard_tiered.py:67-69 -/
def estimateTokens (text : Text) : Nat := max 1 (text.length / 4)

/-- `msg.get("token_count") or max(1, len(msg.get("content") or "") // 4)`: a
count of 0 is falsy. mirrors build_types/standard_tiered.py:304-306 -/
def messageTokens (m : Message) : Nat :=
  match m.tokenCount with
  | some (n + 1) => n + 1
  | _ => estimateTokens (m.content.getD [])

theorem messageTokens_pos (m : Message) : 0 < messageTokens m := by
  unfold messageTokens
  split
  · exact Nat.succ_pos _
  · exact Nat.lt_of_lt_of_le Nat.one_pos (Nat.le_max_left _ _)

/-! ## Queries -/

namespace Db

def conversation? (db : Db) (c : Id) : Option Conversation := db.conversations.find? (·.id == c)

def window? (db : Db) (w : Id) : Option Window := db.windows.find? (·.id == w)

/-- `WHERE conversation_id = $1`. -/
def messagesOf (db : Db) (c : Id) : List Message := db.messages.filter (·.conversationId == c)

/-- `WHERE conversation_id = $1 ORDER BY sequence_number DESC`. -/
def newestFirst (db : Db) (c : Id) : List Message := orderDesc (·.sequenceNumber) (db.messagesOf c)

/-- `WHERE context_window_id = $1`. -/
def summariesOf (db : Db) (w : Id) : List Summary := db.summaries.filter (·.contextWindowId == w)

/-- `WHERE context_window_id = $1 AND tier = $2 AND is_active = TRUE`. -/
def active (db : Db) (w : Id) (t : Tier) : List Summary :=
  (db.summariesOf w).filter fun r => r.tier == t && r.isActive

/-- `COALESCE(MAX(summarizes_to_seq), 0)` over the active tier-2 rows: up to
there messages count as compacted.
mirrors build_types/standard_tiered.py:1131-1140 -/
def watermark (db : Db) (w : Id) : Nat := maxOf (·.toSeq) (db.active w .two)

end Db

/-- `LIMIT $n`: Postgres refuses a negative one. -/
def limitRows {α : Type} (l : List α) (n : Int) : Except Exn (List α) :=
  if n < 0 then .error .postgresError else .ok (l.take n.toNat)

/-! ## Statements -/

namespace Db

/-- INSERT into conversation_messages: a fresh id, the foreign key to
conversations, the unique index on (conversation, sequence number). -/
def insertMessage (db : Db) (row : Message) : Except Exn Db :=
  if (db.conversation? row.conversationId).isNone then .error .postgresError
  else if db.messages.any fun m =>
      m.conversationId == row.conversationId && m.sequenceNumber == row.sequenceNumber then
    .error .uniqueViolationError
  else
    .ok { db with messages := db.messages ++ [{ row with id := db.nextId }],
                  nextId := db.nextId + 1 }

/-- INSERT into conversation_summaries: a fresh id, the unique index on
(window, tier, from, to), which covers inactive rows too.
mirrors postgres/init.sql:148-149 -/
def insertSummary (db : Db) (row : Summary) : Except Exn Db :=
  if db.summaries.any (·.key == row.key) then .error .uniqueViolationError
  else
    .ok { db with summaries := db.summaries ++ [{ row with id := db.nextId }],
                  nextId := db.nextId + 1 }

/-- `UPDATE conversation_summaries SET is_active = FALSE WHERE p`. -/
def deactivate (db : Db) (p : Summary → Bool) : Db :=
  { db with summaries := db.summaries.map fun r => if p r then { r with isActive := false } else r }

/-- `UPDATE context_windows SET last_assembled_at = NOW() WHERE id = $1`. -/
def stampAssembled (db : Db) (w : Id) (now : Time) : Db :=
  { db with windows := db.windows.map fun x =>
      if x.id == w then { x with lastAssembledAt := some now } else x }

end Db

end ContextBroker
