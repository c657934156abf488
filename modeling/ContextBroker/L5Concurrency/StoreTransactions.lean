import ContextBroker.Core.LTS
import ContextBroker.Core.Transactions
import ContextBroker.L2Store.Invariant
import Mathlib.Logic.Function.Basic

/-!
# Conversations, statement by statement

Tasks store messages (`store_message`) and prompts (`get_context`), create
conversations and windows and delete conversations, in any interleaving of
their statements. A statement is one step: it reads the rows committed by
then (READ COMMITTED), checks its keys, and issues its writes or waits for
the transaction in its way (`Core.Transactions`). An INSERT of a message
holds its conversation in `keyShare` (the foreign key) and its unique key; a
DELETE of a conversation is refused while rows refer to it; an UPDATE that
finds no row locks nothing. Any transaction can fail at any time. Summaries
are not written here.

The stores take an advisory lock first, held to the end of the transaction;
the deletion takes none.

`leaves_store`: a store that nothing interrupts does what `Db.store` does in
one step.
-/
namespace ContextBroker.StoreTransactions

open Rows Transactions

/-! ## Writes -/

/-- What a statement can lock: a row, or a key of
`idx_messages_conversation_seq_unique`. -/
inductive Resource where
  | conversation (c : Id)
  | message (id : Id)
  | window (id : Id)
  | summary (id : Id)
  | messageKey (c : Id) (sequenceNumber : Nat)
  deriving DecidableEq, Repr

inductive Write where
  | insertMessage (row : Message)
  | setRepeatCount (id : Id) (n : Nat)
  | touchConversation (c : Id) (now : Time)
  | countMessage (c : Id) (tokens : Nat) (now : Time)
  | deleteSummaries (ids : List Id)
  | deleteWindows (ids : List Id)
  | deleteMessages (c : Id) (ids : List Id)
  | deleteConversation (c : Id)
  | createConversation (supplied : Option Id) (now : Time)
  | createWindow (c : Id) (participant : Text) (buildType : BuildType) (budget : Int)
  deriving DecidableEq, Repr

def Write.apply (db : Db) : Write → Db
  | .insertMessage row =>
    { db with messages := db.messages ++ [{ row with id := db.nextId }], nextId := db.nextId + 1 }
  | .setRepeatCount id n => db.setRepeatCount id n
  | .touchConversation c now => db.updateConversation c fun x => { x with updatedAt := now }
  | .countMessage c tokens now => db.countMessage c tokens now
  | .deleteSummaries ids => { db with summaries := db.summaries.filter fun r => !ids.contains r.id }
  | .deleteWindows ids => { db with windows := db.windows.filter fun x => !ids.contains x.id }
  | .deleteMessages c ids =>
    { db with messages := db.messages.filter fun m => !(m.conversationId == c && ids.contains m.id) }
  | .deleteConversation c => { db with conversations := db.conversations.filter (·.id != c) }
  | .createConversation supplied now => db.createConversation supplied now
  | .createWindow c participant buildType budget => db.createWindow c participant buildType budget

/-- An INSERT waits for the transaction that deletes the row it refers to, or
the row with its id. -/
def Write.locks : Write → List (Resource × Mode)
  | .insertMessage row =>
    [(.messageKey row.conversationId row.sequenceNumber, .forUpdate), (.conversation row.conversationId, .keyShare)]
  | .setRepeatCount id _ => [(.message id, .noKeyUpdate)]
  | .touchConversation c _ => [(.conversation c, .noKeyUpdate)]
  | .countMessage c _ _ => [(.conversation c, .noKeyUpdate)]
  | .deleteSummaries ids => ids.map fun id => (.summary id, .forUpdate)
  | .deleteWindows ids => ids.map fun id => (.window id, .forUpdate)
  | .deleteMessages _ ids => ids.map fun id => (.message id, .forUpdate)
  | .deleteConversation c => [(.conversation c, .forUpdate)]
  | .createConversation supplied _ => supplied.toList.map fun c => (.conversation c, .keyShare)
  | .createWindow c _ _ _ => [(.conversation c, .keyShare)]

def kind : Kind Db Write Resource := ⟨Write.apply, Write.locks⟩

/-! ## Tasks -/

/-- A message on its way in, by either path. -/
inductive Incoming where
  | message (inp : StoreInput)
  | prompt (text : Text)
  deriving DecidableEq, Repr

namespace Incoming

/-- The last message is the same one. -/
def repeats (last : Message) : Incoming → Bool
  | .message inp => collapses last inp
  | .prompt text => last.sender == "user".toList && last.content == some text

/-- The new `repeat_count`: `store_message` adds to the count it has read, the
prompt's UPDATE to the row's. -/
def newCount (last row : Message) : Incoming → Nat
  | .message _ => (if last.repeatCount = 0 then 1 else last.repeatCount) + 1
  | .prompt _ => row.repeatCount + 1

def row (now : Time) (db : Db) (c : Id) : Incoming → Message
  | .message inp => storeRow now db c inp
  | .prompt text => promptRow now db c text

/-- What is added to `estimated_token_count`. -/
def tokens : Incoming → Nat
  | .message inp => effectiveTokenCount inp.content
  | .prompt text => estimateTokens text

end Incoming

inductive Job where
  | storeMessage (inp : StoreInput)
  | storePrompt (c : Id) (text : Text)
  | createConversation (supplied : Option Id)
  | createWindow (c : Id) (participant : Text) (buildType : BuildType) (budget : Int)
  | deleteConversation (c : Id)
  deriving DecidableEq, Repr

/-- A store's transaction; `retries` counts the attempts left after it. -/
structure Tx where
  incoming : Incoming
  conversation : Id
  retries : Nat
  now : Time
  deriving DecidableEq, Repr

/-- Where a task is: the last statement it has executed.
mirrors message_pipeline.py:106-286, conversation_ops_flow.py:606-661,747-774 -/
inductive Pc where
  | ready
  /-- `store_message`, before its transaction. -/
  | resolved (inp : StoreInput) (c : Id)
  | verified (inp : StoreInput) (c : Id) (retries : Nat)
  /-- A store's transaction. -/
  | begun (tx : Tx)
  | locked (tx : Tx)
  | repeating (tx : Tx) (last : Message)
  | collapsed (tx : Tx)
  | touched
  | fresh (tx : Tx)
  | inserted (tx : Tx) (row : Message)
  | counted (tx : Tx) (row : Message)
  /-- A deletion's transaction. -/
  | summariesDeleted (c : Id)
  | windowsDeleted (c : Id) (windows : List Id)
  | messagesDeleted (c : Id) (windows messages : List Id)
  | conversationDeleted (c : Id) (messages : List Id)
  | nothingDeleted
  | finished
  deriving DecidableEq, Repr

structure State (Task : Type) where
  server : Server Task Db Write
  /-- `pg_advisory_xact_lock`. -/
  locks : Int → Option Task
  pc : Task → Pc

inductive Label (Task : Type) where
  /-- The task executes its next statement at time `now`. -/
  | run (t : Task) (now : Time)
  /-- A unique violation ends the transaction. -/
  | violate (t : Task)
  /-- Anything else ends the task. -/
  | fail (t : Task)
  deriving DecidableEq, Repr

/-! ## Statements -/

section

variable {Task : Type} [DecidableEq Task]

namespace State

variable (s : State Task) (t : Task)

def goto (pc : Pc) : State Task := { s with pc := Function.update s.pc t pc }

def unlock : Int → Option Task := fun key => if s.locks key = some t then none else s.locks key

/-- ROLLBACK. -/
def rollback (pc : Pc) : State Task :=
  { server := s.server.rollback t, locks := s.unlock t, pc := Function.update s.pc t pc }

/-- COMMIT. -/
def commit : State Task :=
  { server := s.server.commit kind t, locks := s.unlock t, pc := Function.update s.pc t .finished }

/-- A statement writes `w`, unless it has to wait. -/
def issue (w : Write) (pc : Pc) : Option (State Task) :=
  (s.server.issue kind t w).map fun server => { s with server, pc := Function.update s.pc t pc }

/-- A statement of its own transaction. -/
def autocommit (w : Write) : Option (State Task) :=
  (s.server.issue kind t w).map fun server =>
    { s with server := server.commit kind t, pc := Function.update s.pc t .finished }

/-- An UPDATE or DELETE by id. -/
def issueIf (found : Bool) (w : Write) (pc : Pc) : Option (State Task) :=
  if found then s.issue t w pc else some (s.goto t pc)

end State

/-- Where a transaction goes on after a unique violation: `store_message` tries
once more. mirrors message_pipeline.py:163,253-266 -/
def afterViolation : Pc → Pc
  | .fresh ⟨.message inp, c, retries + 1, _⟩ => .verified inp c retries
  | _ => .finished

variable (job : Task → Job) (key : Task → Id → Int)

/-- The next statement of task `t`. -/
def run (s : State Task) (t : Task) (now : Time) : Option (State Task) :=
  let db := s.server.committed
  match s.pc t with
  | .ready =>
    match job t with
    | .storeMessage inp =>
      match resolveConversation db inp with
      | .error _ => some (s.goto t .finished)
      | .ok c => some (s.goto t (.resolved inp c))
    | .storePrompt c text => some (s.goto t (.begun ⟨.prompt text, c, 0, now⟩))
    | .createConversation supplied => s.autocommit t (.createConversation supplied now)
    | .createWindow c participant buildType budget => s.autocommit t (.createWindow c participant buildType budget)
    | .deleteConversation c =>
      let windows := (db.windows.filter (·.conversationId == c)).map (·.id)
      let summaries := (db.summaries.filter fun r => windows.contains r.contextWindowId).map (·.id)
      s.issue t (.deleteSummaries summaries) (.summariesDeleted c)
  | .resolved inp c =>
    if (db.conversation? c).isNone then some (s.goto t .finished) else some (s.goto t (.verified inp c 1))
  | .verified inp c retries => some (s.goto t (.begun ⟨.message inp, c, retries, now⟩))
  | .begun tx =>
    match s.locks (key t tx.conversation) with
    | some _ => none
    | none => some { s.goto t (.locked tx) with locks := Function.update s.locks (key t tx.conversation) (some t) }
  | .locked tx =>
    match (db.lastMessage tx.conversation).filter (tx.incoming.repeats ·) with
    | some last => some (s.goto t (.repeating tx last))
    | none => some (s.goto t (.fresh tx))
  | .repeating tx last =>
    match db.messages.find? (·.id == last.id) with
    | some row => s.issue t (.setRepeatCount last.id (tx.incoming.newCount last row)) (.collapsed tx)
    | none => some (s.goto t (.collapsed tx))
  | .collapsed tx =>
    match tx.incoming with
    | .message _ =>
      s.issueIf t (db.conversation? tx.conversation).isSome (.touchConversation tx.conversation tx.now) .touched
    | .prompt _ => some (s.commit t)
  | .fresh tx =>
    let row := tx.incoming.row tx.now db tx.conversation
    match db.insertMessage row with
    | .error .uniqueViolationError => some (s.rollback t (afterViolation (.fresh tx)))
    | .error _ => some (s.rollback t .finished)
    | .ok _ => s.issue t (.insertMessage row) (.inserted tx row)
  | .inserted tx row =>
    s.issueIf t (db.conversation? tx.conversation).isSome
      (.countMessage tx.conversation tx.incoming.tokens tx.now) (.counted tx row)
  | .summariesDeleted c =>
    let windows := (db.windows.filter (·.conversationId == c)).map (·.id)
    s.issue t (.deleteWindows windows) (.windowsDeleted c windows)
  | .windowsDeleted c windows =>
    let messages := (db.messagesOf c).map (·.id)
    s.issue t (.deleteMessages c messages) (.messagesDeleted c windows messages)
  | .messagesDeleted c windows messages =>
    if (db.conversation? c).isNone then some (s.goto t .nothingDeleted)
    else if (db.messagesOf c).all (messages.contains ·.id) &&
        (db.windows.filter (·.conversationId == c)).all (windows.contains ·.id) then
      s.issue t (.deleteConversation c) (.conversationDeleted c messages)
    else some (s.rollback t .finished)
  | .touched | .counted _ _ | .conversationDeleted _ _ | .nothingDeleted => some (s.commit t)
  | .finished => none

def step (s : State Task) : Label Task → Option (State Task)
  | .run t now => run job key s t now
  | .violate t => some (s.rollback t (afterViolation (s.pc t)))
  | .fail t => some (s.rollback t .finished)

/-- Empty tables, all tasks before their first statement. -/
def initial : State Task := ⟨⟨{}, []⟩, fun _ => none, fun _ => .ready⟩

def system : LTS (State Task) (Label Task) := LTS.ofStep (· = initial) (step job key)

end

/-! ## A store by itself -/

def Incoming.toStore (now : Time) (c : Id) : Incoming → Store
  | .message inp => .message now inp
  | .prompt text => .prompt now c text

/-- What a repeat of `last` writes. -/
def Incoming.collapsing (now : Time) (c : Id) (last : Message) (incoming : Incoming) : List Write :=
  .setRepeatCount last.id (incoming.newCount last last) ::
    match incoming with
    | .message _ => [.touchConversation c now]
    | .prompt _ => []

/-- The writes of a store that nothing interrupts. -/
def Incoming.writes (now : Time) (db : Db) (c : Id) (incoming : Incoming) : List Write :=
  match (db.lastMessage c).filter (incoming.repeats ·) with
  | some last => incoming.collapsing now c last
  | none => [.insertMessage (incoming.row now db c), .countMessage c incoming.tokens now]

section

variable {db : Db} {c : Id} {incoming : Incoming} {now : Time}

theorem insert_row (hconv : (db.conversation? c).isSome = true) :
    db.insertMessage (incoming.row now db c) = .ok ((Write.insertMessage (incoming.row now db c)).apply db) := by
  cases incoming <;> exact Db.insertMessage_next hconv rfl

/-- The writes amount to the store of the pipeline. -/
theorem foldl_writes (hconv : (db.conversation? c).isSome = true)
    (hres : ∀ inp, incoming = .message inp → resolveConversation db inp = .ok c) :
    (incoming.writes now db c).foldl Write.apply db = db.store (incoming.toStore now c) := by
  have hins := @insert_row db c incoming now hconv
  cases incoming with
  | message inp =>
    have hnone : ¬ (db.conversation? c).isNone = true :=
      Bool.eq_false_iff.mp (Option.isNone_eq_false_iff.mpr hconv)
    simp only [Incoming.row] at hins
    simp only [Db.store, Incoming.toStore, storeMessage, hres inp rfl, if_neg hnone, hins, Incoming.writes,
      Incoming.repeats]
    cases (db.lastMessage c).filter (collapses · inp) <;> rfl
  | prompt text =>
    simp only [Incoming.row] at hins
    simp only [Db.store, Incoming.toStore, storePrompt, hins, Incoming.writes, Incoming.repeats]
    cases (db.lastMessage c).filter (fun m => m.sender == "user".toList && m.content == some text) <;> rfl

end

section

variable {Task : Type} [DecidableEq Task] {job : Task → Job} {key : Task → Id → Int} {s s' : State Task}
  {t : Task} {now : Time}

/-- `s'` is `s` after some statements of `t` alone. -/
def Alone (job : Task → Job) (key : Task → Id → Int) (t : Task) (s s' : State Task) : Prop :=
  ∃ times : List Time, LTS.exec (step job key) s (times.map (.run t)) = some s'

theorem Alone.refl (s : State Task) : Alone job key t s s := ⟨[], rfl⟩

theorem Alone.step {s₁ : State Task} (h : run job key s t now = some s₁) (h' : Alone job key t s₁ s') :
    Alone job key t s s' := by
  obtain ⟨times, hexec⟩ := h'
  refine ⟨now :: times, ?_⟩
  rw [List.map_cons, LTS.exec, StoreTransactions.step, h]
  exact hexec

/-- `t` alone gets to its end and leaves `db'`. -/
def Leaves (job : Task → Job) (key : Task → Id → Int) (t : Task) (s : State Task) (db' : Db) : Prop :=
  ∃ s', Alone job key t s s' ∧ s'.pc t = .finished ∧ s'.server = ⟨db', []⟩

theorem Leaves.step {s₁ : State Task} {db' : Db} (h : run job key s t now = some s₁)
    (h' : Leaves job key t s₁ db') : Leaves job key t s db' := by
  obtain ⟨s', halone, hend⟩ := h'
  exact ⟨s', halone.step h, hend⟩

variable {db : Db}

theorem Leaves.commit (ws : List Write) (hserver : s.server = ⟨db, ws.map (t, ·)⟩)
    (h : run job key s t now = some (s.commit t)) :
    Leaves job key t s (ws.foldl Write.apply db) := by
  refine .step h ⟨_, .refl _, Function.update_self .., ?_⟩
  rw [State.commit, hserver]
  exact Server.commit_alone db ws t

theorem Leaves.issue (ws : List Write) {w : Write} {pc : Pc} {db' : Db} (hserver : s.server = ⟨db, ws.map (t, ·)⟩)
    (h : run job key s t now = s.issue t w pc)
    (hrest : ∀ s₁ : State Task, s₁.server = ⟨db, (ws ++ [w]).map (t, ·)⟩ → s₁.pc t = pc → Leaves job key t s₁ db') :
    Leaves job key t s db' := by
  have hissue : s.issue t w pc = some { s with server := ⟨db, (ws ++ [w]).map (t, ·)⟩,
                                               pc := Function.update s.pc t pc } := by
    rw [State.issue, hserver, Server.issue_alone]
    rfl
  exact .step (h.trans hissue) (hrest _ rfl (Function.update_self ..))

/-- From the INSERT on. -/
theorem leaves_fresh {tx : Tx} (hserver : s.server = ⟨db, []⟩) (hpc : s.pc t = .fresh tx)
    (hconv : (db.conversation? tx.conversation).isSome = true) (now : Time) :
    Leaves job key t s ([.insertMessage (tx.incoming.row tx.now db tx.conversation),
      .countMessage tx.conversation tx.incoming.tokens tx.now].foldl Write.apply db) := by
  let row := tx.incoming.row tx.now db tx.conversation
  have hins : db.insertMessage row = .ok ((Write.insertMessage row).apply db) := insert_row hconv
  have hinsert : run job key s t now = s.issue t (.insertMessage row) (.inserted tx row) := by
    simp only [run, hpc, hserver, row, hins]
  refine .issue [] hserver hinsert fun s₁ hserver₁ hpc₁ => ?_
  have hcount : run job key s₁ t now =
      s₁.issue t (.countMessage tx.conversation tx.incoming.tokens tx.now) (.counted tx row) := by
    simp only [run, hpc₁, hserver₁, State.issueIf, hconv, if_true]
  refine .issue _ hserver₁ hcount fun s₂ hserver₂ hpc₂ => ?_
  have hcommit : run job key s₂ t now = some (s₂.commit t) := by simp only [run, hpc₂]
  exact .commit _ hserver₂ hcommit

/-- From the UPDATE of the repeat count on. -/
theorem leaves_repeating {tx : Tx} {last : Message} (hserver : s.server = ⟨db, []⟩)
    (hpc : s.pc t = .repeating tx last) (hconv : (db.conversation? tx.conversation).isSome = true)
    (hfind : db.messages.find? (·.id == last.id) = some last) (now : Time) :
    Leaves job key t s ((tx.incoming.collapsing tx.now tx.conversation last).foldl Write.apply db) := by
  have hcollapse : run job key s t now =
      s.issue t (.setRepeatCount last.id (tx.incoming.newCount last last)) (.collapsed tx) := by
    simp only [run, hpc, hserver, hfind]
  refine .issue [] hserver hcollapse fun s₁ hserver₁ hpc₁ => ?_
  cases hincoming : tx.incoming with
  | message inp =>
    have htouch : run job key s₁ t now = s₁.issue t (.touchConversation tx.conversation tx.now) .touched := by
      simp only [run, hpc₁, hserver₁, hincoming, State.issueIf, hconv, if_true]
    refine .issue _ hserver₁ htouch fun s₂ hserver₂ hpc₂ => ?_
    have hcommit : run job key s₂ t now = some (s₂.commit t) := by simp only [run, hpc₂]
    rw [hincoming] at hserver₂
    exact .commit _ hserver₂ hcommit
  | prompt text =>
    have hcommit : run job key s₁ t now = some (s₁.commit t) := by simp only [run, hpc₁, hincoming]
    rw [hincoming] at hserver₁
    exact .commit _ hserver₁ hcommit

/-- **A store that nothing interrupts** leaves the tables as `Db.store` does,
the two atomic stores of the pipeline. -/
theorem leaves_store {tx : Tx} (hserver : s.server = ⟨db, []⟩) (hpc : s.pc t = .begun tx)
    (hlock : s.locks (key t tx.conversation) = none) (hconv : (db.conversation? tx.conversation).isSome = true)
    (hres : ∀ inp, tx.incoming = .message inp → resolveConversation db inp = .ok tx.conversation)
    (hcons : db.Consecutive) (hnodup : (db.messages.map (·.id)).Nodup) (now : Time) :
    Leaves job key t s (db.store (tx.incoming.toStore tx.now tx.conversation)) := by
  rw [← foldl_writes hconv hres]
  let s₁ : State Task :=
    { s.goto t (.locked tx) with locks := Function.update s.locks (key t tx.conversation) (some t) }
  have hlocked : run job key s t now = some s₁ := by simp only [run, hpc, hlock, s₁]
  have hpc₁ : s₁.pc t = .locked tx := Function.update_self ..
  have hserver₁ : s₁.server = ⟨db, []⟩ := hserver
  refine .step hlocked ?_
  unfold Incoming.writes
  cases hlast : (db.lastMessage tx.conversation).filter (tx.incoming.repeats ·) with
  | none =>
    have hread : run job key s₁ t now = some (s₁.goto t (.fresh tx)) := by
      simp only [run, hpc₁, hserver₁, hlast]
    exact .step hread (leaves_fresh hserver₁ (Function.update_self ..) hconv now)
  | some last =>
    have hread : run job key s₁ t now = some (s₁.goto t (.repeating tx last)) := by
      simp only [run, hpc₁, hserver₁, hlast]
    have hmem : last ∈ db.messages := by
      have hget := (Option.filter_eq_some_iff.mp hlast).1
      rw [hcons.lastMessage] at hget
      exact List.mem_of_mem_filter (List.mem_of_getLast? hget)
    exact .step hread (leaves_repeating hserver₁ (Function.update_self t _ s₁.pc) hconv
      (find?_key hnodup hmem) now)

end

end ContextBroker.StoreTransactions
