import ContextBroker.L4Retrieval.StorePaths
import ContextBroker.L5Concurrency.StoreTransactions

/-!
# Stores on one conversation, one after the other

Any number of `store_message` and `get_context` stores on one conversation,
statement by statement and with no statement failing. The advisory lock
lets one of them at a time past its first statement: what that one has read
is still so when it commits, and its writes so far are the first of those it
would make on its own (`Stage`). Its commit is therefore the whole of its
call, and the order of the commits is the serial order (`Serial`).

`stores_serialisable`: the tables are those of the finished calls one after
the other, and each of these is recorded.
-/
namespace ContextBroker.StoreTransactions

open Rows Transactions LTS

/-- The call of a task: a store on conversation `c`. -/
def Incoming.job (c : Id) : Incoming → Job
  | .message inp => .storeMessage inp
  | .prompt text => .storePrompt c text

def Incoming.payload : Incoming → Payload
  | .message inp => inp.payload
  | .prompt text => promptPayload text

/-- The tables at the start, all tasks before their first statement. -/
def startAt {Task : Type} (db : Db) : State Task := ⟨⟨db, []⟩, fun _ => none, fun _ => .ready⟩

/-- The calls of the tasks in `order`, each with its transaction time. -/
def serial {Task : Type} (calls : Task → Incoming) (c : Id) (order : List (Task × Time)) : List Store :=
  order.map fun p => (calls p.1).toStore p.2 c

/-- The message is a new row, or one more of the last row's. -/
def Recorded (c : Id) (x : Payload) (db db' : Db) : Prop :=
  (∃ row : Message, row.payload = x ∧ db'.messagesOf c = db.messagesOf c ++ [row]) ∨
  ∃ init last, db.messagesOf c = init ++ [last] ∧ sameMessage last.payload x = true ∧
    db'.messagesOf c = init ++ [{ last with repeatCount := last.repeatCount + 1 }]

section

variable {db : Db} {c : Id} {incoming : Incoming} {now : Time}

/-! ## One call -/

/-- A message that resolves to the conversation. -/
def Incoming.For (c : Id) (db : Db) (incoming : Incoming) : Prop :=
  ∀ inp, incoming = .message inp → resolveConversation db inp = .ok c

theorem Incoming.For.grows {db' : Db} (h : incoming.For c db) (hg : db.Grows db') : incoming.For c db' := by
  intro inp hinp
  have hold := h inp hinp
  unfold resolveConversation at hold ⊢
  split
  · rename_i w _ hw
    rw [hg.window?]
    simpa only [hw] using hold
  · rename_i c' hw hc
    simpa only [hw, hc] using hold
  · rename_i hw hc
    simp only [hw, hc] at hold
    cases hold

theorem isSome_apply {w : Write} (hw : w ∈ incoming.writes now db c) (db' : Db) :
    ((w.apply db').conversation? c).isSome = (db'.conversation? c).isSome := by
  unfold Incoming.writes at hw
  split at hw
  · rcases List.mem_cons.mp hw with rfl | hw
    · rfl
    · cases incoming with
      | message inp =>
        rw [List.mem_singleton.mp hw]
        exact GetContext.isSome_updateConversation db' c c fun _ => rfl
      | prompt text => cases hw
  · simp only [List.mem_cons, List.not_mem_nil, or_false] at hw
    rcases hw with rfl | rfl
    · rfl
    · exact GetContext.isSome_updateConversation db' c c fun _ => rfl

theorem isSome_foldl (ws : List Write) (hws : ∀ w ∈ ws, w ∈ incoming.writes now db c) :
    ∀ db' : Db, ((ws.foldl Write.apply db').conversation? c).isSome = (db'.conversation? c).isSome := by
  induction ws with
  | nil => exact fun _ => rfl
  | cons w ws ih =>
    intro db'
    rw [List.foldl_cons, ih (fun w' hw' => hws w' (List.mem_cons_of_mem _ hw')),
      isSome_apply (hws w List.mem_cons_self)]

/-- The conversation is there after a store on it. -/
theorem isSome_store (hconv : (db.conversation? c).isSome = true) (hfor : incoming.For c db) :
    ((db.store (incoming.toStore now c)).conversation? c).isSome = true := by
  rw [← foldl_writes hconv hfor, isSome_foldl _ fun _ hw => hw]
  exact hconv

theorem repeats_sameMessage (last : Message) (incoming : Incoming) :
    incoming.repeats last = sameMessage last.payload incoming.payload := by
  cases incoming with
  | message inp => rfl
  | prompt text => simp [Incoming.repeats, sameMessage, Incoming.payload, promptPayload, Message.payload]

theorem newCount_last {last : Message} (h : 0 < last.repeatCount) (incoming : Incoming) :
    incoming.newCount last last = last.repeatCount + 1 := by
  cases incoming with
  | message inp =>
    show (if last.repeatCount = 0 then 1 else last.repeatCount) + 1 = _
    rw [if_neg (by omega)]
  | prompt text => rfl

/-- **A call is recorded.** -/
theorem recorded_store (hfit : Fit db) (hconv : (db.conversation? c).isSome = true) (hfor : incoming.For c db) :
    Recorded c incoming.payload db (db.store (incoming.toStore now c)) := by
  rw [← foldl_writes hconv hfor]
  unfold Incoming.writes
  cases hlast : (db.lastMessage c).filter (incoming.repeats ·) with
  | some last =>
    obtain ⟨hget, hsame⟩ := Option.filter_eq_some_iff.mp hlast
    rw [hfit.2.lastMessage] at hget
    obtain ⟨init, hrows⟩ := List.getLast?_eq_some_iff.mp hget
    have hmem := (mem_messagesOf.mp (hrows ▸ List.mem_append_right init (List.mem_singleton_self last))).1
    refine .inr ⟨init, last, hrows, repeats_sameMessage last incoming ▸ hsame, ?_⟩
    rw [← messagesOf_setRepeatCount_last hfit.1 hrows, ← newCount_last (hfit.1.counts last hmem) incoming]
    cases incoming <;> rfl
  | none =>
    refine .inl ⟨{ incoming.row now db c with id := db.nextId }, ?_, ?_⟩
    · cases incoming <;> rfl
    · have hrow : (incoming.row now db c).conversationId = c := by cases incoming <;> rfl
      show Db.messagesOf { db with messages := db.messages ++ [{ incoming.row now db c with id := db.nextId }] } c = _
      simp [Db.messagesOf, hrow]

end

/-! ## The invariant -/

/-- Between taking the advisory lock and giving it back. -/
def Pc.holds : Pc → Bool
  | .locked _ | .repeating _ _ | .collapsed _ | .touched | .fresh _ | .inserted _ _ | .counted _ _ => true
  | _ => false

/-- The transaction is one of `incoming` on `c`. -/
def Tx.Of (c : Id) (incoming : Incoming) (tx : Tx) : Prop := tx.incoming = incoming ∧ tx.conversation = c

/-- A task that stores `incoming` has written `ws` over the tables `db`. -/
def Doing (db : Db) (c : Id) (incoming : Incoming) (ws : List Write) : Pc → Prop
  | .ready | .finished => ws = []
  | .resolved inp c' | .verified inp c' _ => ws = [] ∧ incoming = .message inp ∧ c' = c
  | .begun tx | .locked tx => ws = [] ∧ tx.Of c incoming
  | .repeating tx last => ws = [] ∧ tx.Of c incoming ∧ (db.lastMessage c).filter (incoming.repeats ·) = some last
  | .collapsed tx => tx.Of c incoming ∧ ∃ last, (db.lastMessage c).filter (incoming.repeats ·) = some last ∧
    ws = [.setRepeatCount last.id (incoming.newCount last last)]
  | .touched => ∃ now, ws = incoming.writes now db c
  | .fresh tx => ws = [] ∧ tx.Of c incoming ∧ (db.lastMessage c).filter (incoming.repeats ·) = none
  | .inserted tx row => tx.Of c incoming ∧ (db.lastMessage c).filter (incoming.repeats ·) = none ∧
    row = incoming.row tx.now db c ∧ ws = [.insertMessage row]
  | .counted tx _ => tx.Of c incoming ∧ ws = incoming.writes tx.now db c
  | _ => False

/-- Without the lock nothing depends on the tables. -/
theorem Doing.elsewhere {db db' : Db} {c : Id} {incoming : Incoming} {ws : List Write} {pc : Pc}
    (h : Doing db c incoming ws pc) (hpc : pc.holds = false) : Doing db' c incoming ws pc := by
  cases pc with
  | locked tx => cases hpc
  | repeating tx last => cases hpc
  | collapsed tx => cases hpc
  | touched => cases hpc
  | fresh tx => cases hpc
  | inserted tx row => cases hpc
  | counted tx row => cases hpc
  | _ => exact h

section

variable {Task : Type} [DecidableEq Task] {db₀ : Db} {c : Id} {calls : Task → Incoming} {key : Task → Id → Int}

/-- The calls committed so far, in `order`, and the others as far as they are. -/
structure Serial (db₀ : Db) (c : Id) (calls : Task → Incoming) (key : Task → Id → Int) (s : State Task)
    (order : List (Task × Time)) : Prop where
  committed : s.server.committed = db₀.storeAll (serial calls c order)
  nodup : (order.map Prod.fst).Nodup
  finished : ∀ t, s.pc t = .finished ↔ t ∈ order.map Prod.fst
  lock : ∀ t, (s.pc t).holds = true ↔ s.locks (key t c) = some t
  doing : ∀ t, Doing s.server.committed c (calls t) (s.server.writesOf t) (s.pc t)

/-- What is given: a conversation that exists, calls on it and one lock key. -/
structure Setting (db₀ : Db) (c : Id) (calls : Task → Incoming) (key : Task → Id → Int) : Prop where
  fit : Fit db₀
  conversation : (db₀.conversation? c).isSome = true
  calls : ∀ t, (calls t).For c db₀
  key : ∀ t t', key t c = key t' c

variable {s s' : State Task} {order : List (Task × Time)} {t : Task} {pc : Pc} {w : Write} {now : Time}

omit [DecidableEq Task] in
theorem Setting.after (hset : Setting db₀ c calls key) (order : List (Task × Time)) :
    Setting (db₀.storeAll (serial calls c order)) c calls key := by
  induction order generalizing db₀ with
  | nil => exact hset
  | cons p order ih =>
    have hgrows := store_grows db₀ ((calls p.1).toStore p.2 c)
    exact ih ⟨⟨(store_cases db₀ _).tracked hset.fit.1, store_consecutive hset.fit.2 _⟩,
      isSome_store hset.conversation (hset.calls p.1), fun t => (hset.calls t).grows hgrows, hset.key⟩

theorem Serial.setting (h : Serial db₀ c calls key s order) (hset : Setting db₀ c calls key) :
    Setting s.server.committed c calls key := h.committed ▸ hset.after order

/-- At most one task holds the lock. -/
theorem Serial.exclusive (h : Serial db₀ c calls key s order) (hset : Setting db₀ c calls key) {t' : Task}
    (ht : (s.pc t).holds = true) (ht' : (s.pc t').holds = true) : t' = t := by
  have hlock := (h.lock t).mp ht
  have hlock' := (h.lock t').mp ht'
  rw [hset.key t' t] at hlock'
  exact Option.some.inj (hlock'.symm.trans hlock)

/-- Task `t` moves to `pc` with the server `srv` and commits nothing. -/
theorem Serial.move (h : Serial db₀ c calls key s order) {srv : Server Task Db Write} (locks : Int → Option Task)
    (hpc : s.pc t ≠ .finished) (hnext : pc ≠ .finished) (hcommitted : srv.committed = s.server.committed)
    (hothers : ∀ t', t' ≠ t → srv.writesOf t' = s.server.writesOf t')
    (hself : pc.holds = true ↔ locks (key t c) = some t)
    (hlock : ∀ t', t' ≠ t → ((s.pc t').holds = true ↔ locks (key t' c) = some t'))
    (hdoing : Doing s.server.committed c (calls t) (srv.writesOf t) pc) :
    Serial db₀ c calls key { server := srv, locks, pc := Function.update s.pc t pc } order := by
  refine ⟨hcommitted.trans h.committed, h.nodup, ?_, ?_, ?_⟩
  · refine (Function.forall_update_iff s.pc fun t' pc => pc = .finished ↔ t' ∈ order.map Prod.fst).mpr
      ⟨iff_of_false hnext fun hmem => hpc ((h.finished t).mpr hmem), fun t' _ => h.finished t'⟩
  · exact (Function.forall_update_iff s.pc fun t' pc => pc.holds = true ↔ locks (key t' c) = some t').mpr ⟨hself, hlock⟩
  · refine (Function.forall_update_iff s.pc fun t' pc => Doing srv.committed c (calls t') (srv.writesOf t') pc).mpr
      ⟨hcommitted ▸ hdoing, fun t' ht => ?_⟩
    rw [hcommitted, hothers t' ht]
    exact h.doing t'

theorem Serial.goto (h : Serial db₀ c calls key s order) (hpc : s.pc t ≠ .finished) (hnext : pc ≠ .finished)
    (hholds : pc.holds = (s.pc t).holds)
    (hdoing : Doing s.server.committed c (calls t) (s.server.writesOf t) pc) :
    Serial db₀ c calls key (s.goto t pc) order :=
  h.move s.locks hpc hnext rfl (fun _ _ => rfl) (by rw [hholds]; exact h.lock t) (fun t' _ => h.lock t') hdoing

theorem Serial.issue (h : Serial db₀ c calls key s order) (hissue : s.issue t w pc = some s') (hpc : s.pc t ≠ .finished)
    (hnext : pc ≠ .finished) (hholds : pc.holds = (s.pc t).holds)
    (hdoing : Doing s.server.committed c (calls t) (s.server.writesOf t ++ [w]) pc) :
    Serial db₀ c calls key s' order := by
  obtain ⟨srv, hsrv, rfl⟩ := Option.map_eq_some_iff.mp hissue
  exact h.move s.locks hpc hnext (Server.committed_issue hsrv) (fun _ ht => Server.writesOf_issue_of_ne hsrv ht)
    (by rw [hholds]; exact h.lock t) (fun t' _ => h.lock t') ((Server.writesOf_issue hsrv).symm ▸ hdoing)

/-- **A commit** ends the order with the call of its task. -/
theorem Serial.commit (h : Serial db₀ c calls key s order) (hset : Setting db₀ c calls key)
    (hholds : (s.pc t).holds = true) (hws : s.server.writesOf t = (calls t).writes now s.server.committed c) :
    Serial db₀ c calls key (s.commit t) (order ++ [(t, now)]) := by
  have hhere := h.setting hset
  have hpc : s.pc t ≠ .finished := fun hfin => by rw [hfin] at hholds; cases hholds
  have hnew : t ∉ order.map Prod.fst := fun hmem => hpc ((h.finished t).mpr hmem)
  have hout : ∀ t', t' ≠ t → (s.pc t').holds = false := by
    intro t' ht
    by_contra hin
    exact ht (h.exclusive hset hholds (by simpa using hin))
  have hcommitted : (s.commit t).server.committed = s.server.committed.store ((calls t).toStore now c) := by
    rw [← foldl_writes hhere.conversation (hhere.calls t), ← hws]
    rfl
  refine ⟨?_, ?_, ?_, ?_, ?_⟩
  · rw [hcommitted, h.committed]
    simp [Db.storeAll, serial]
  · rw [List.map_append]
    exact List.nodup_append.mpr ⟨h.nodup, by simp, fun a ha b hb => by
      rw [List.mem_singleton.mp hb]
      intro hab
      rw [show a = t from hab] at ha
      exact hnew ha⟩
  · refine (Function.forall_update_iff s.pc fun t' pc => pc = .finished ↔ t' ∈ (order ++ [(t, now)]).map Prod.fst).mpr
      ⟨by simp, fun t' ht => ?_⟩
    rw [h.finished t']
    simp [ht]
  · refine (Function.forall_update_iff s.pc fun t' pc => pc.holds = true ↔ s.unlock t (key t' c) = some t').mpr
      ⟨iff_of_false (by simp [Pc.holds]) ?_, fun t' ht => iff_of_false (by simp [hout t' ht]) ?_⟩
    · simp [State.unlock, (h.lock t).mp hholds]
    · rw [State.unlock, hset.key t' t, if_pos ((h.lock t).mp hholds)]
      simp
  · refine (Function.forall_update_iff s.pc fun t' pc =>
      Doing (s.commit t).server.committed c (calls t') ((s.server.rollback t).writesOf t') pc).mpr
      ⟨Server.writesOf_rollback s.server t, fun t' ht => ?_⟩
    rw [Server.writesOf_rollback_of_ne _ ht]
    exact (h.doing t').elsewhere (hout t' ht)

/-! ## Every statement -/

/-- The order after a step. -/
def Goes (db₀ : Db) (c : Id) (calls : Task → Incoming) (key : Task → Id → Int) (s' : State Task)
    (order : List (Task × Time)) : Prop := ∃ more, Serial db₀ c calls key s' (order ++ more)

theorem Serial.goes (h : Serial db₀ c calls key s' order) : Goes db₀ c calls key s' order :=
  ⟨[], (List.append_nil order).symm ▸ h⟩

/-- The lock is granted when it is free: no other task holds it. -/
theorem Serial.begun {tx : Tx} (h : Serial db₀ c calls key s order) (hset : Setting db₀ c calls key)
    (hpc : s.pc t = .begun tx) (hrun : run (fun t => (calls t).job c) key s t now = some s') :
    Serial db₀ c calls key s' order := by
  have hdoing := h.doing t
  rw [hpc] at hdoing
  obtain ⟨hws, htx⟩ := hdoing
  simp only [run, hpc] at hrun
  split at hrun
  · cases hrun
  · rename_i hfree
    obtain rfl := Option.some.inj hrun
    rw [htx.2] at hfree ⊢
    refine h.move _ (by simp [hpc]) (by simp) rfl (fun _ _ => rfl) (by simp [Pc.holds]) (fun t' ht => ?_) ⟨hws, htx⟩
    rw [h.lock t', hset.key t' t, Function.update_self, hfree]
    simp [Ne.symm ht]

/-- The first statement finds the conversation. -/
theorem Serial.ready (h : Serial db₀ c calls key s order) (hset : Setting db₀ c calls key) (hpc : s.pc t = .ready)
    (hrun : run (fun t => (calls t).job c) key s t now = some s') : Serial db₀ c calls key s' order := by
  have hws : s.server.writesOf t = [] := by
    have hdoing := h.doing t
    rwa [hpc] at hdoing
  cases hcall : calls t with
  | message inp =>
    have hresolve := (h.setting hset).calls t inp hcall
    simp only [run, hpc, hcall, Incoming.job, hresolve] at hrun
    obtain rfl := Option.some.inj hrun
    exact h.goto (by simp [hpc]) (by simp) (by rw [hpc]; rfl) ⟨hws, hcall, rfl⟩
  | prompt text =>
    simp only [run, hpc, hcall, Incoming.job] at hrun
    obtain rfl := Option.some.inj hrun
    exact h.goto (by simp [hpc]) (by simp) (by rw [hpc]; rfl) ⟨hws, hcall.symm, rfl⟩

/-- The last message is read: it stays the last until the commit. -/
theorem Serial.locked {tx : Tx} (h : Serial db₀ c calls key s order) (hpc : s.pc t = .locked tx)
    (hrun : run (fun t => (calls t).job c) key s t now = some s') : Serial db₀ c calls key s' order := by
  have hdoing := h.doing t
  rw [hpc] at hdoing
  obtain ⟨hws, hincoming, hconv⟩ := hdoing
  simp only [run, hpc, hincoming, hconv] at hrun
  split at hrun
  · rename_i last hlast
    obtain rfl := Option.some.inj hrun
    exact h.goto (by simp [hpc]) (by simp) (by rw [hpc]; rfl) ⟨hws, ⟨hincoming, hconv⟩, hlast⟩
  · rename_i hlast
    obtain rfl := Option.some.inj hrun
    exact h.goto (by simp [hpc]) (by simp) (by rw [hpc]; rfl) ⟨hws, ⟨hincoming, hconv⟩, hlast⟩

/-- The UPDATE of the repeat count finds the row that was read. -/
theorem Serial.repeating {tx : Tx} {last : Message} (h : Serial db₀ c calls key s order) (hset : Setting db₀ c calls key)
    (hpc : s.pc t = .repeating tx last) (hrun : run (fun t => (calls t).job c) key s t now = some s') :
    Serial db₀ c calls key s' order := by
  have hdoing := h.doing t
  rw [hpc] at hdoing
  obtain ⟨hws, ⟨hincoming, hconv⟩, hlast⟩ := hdoing
  have hfit := (h.setting hset).fit
  have hget := (Option.filter_eq_some_iff.mp hlast).1
  rw [hfit.2.lastMessage] at hget
  have hmem : last ∈ s.server.committed.messages := List.mem_of_mem_filter (List.mem_of_getLast? hget)
  simp only [run, hpc, find?_key hfit.1.nodup hmem, hincoming] at hrun
  exact h.issue hrun (by simp [hpc]) (by simp) (by rw [hpc]; rfl) ⟨⟨hincoming, hconv⟩, last, hlast, by rw [hws]; rfl⟩

/-- `updated_at` of a collapsed message, or the commit of a collapsed prompt. -/
theorem Serial.collapsed {tx : Tx} (h : Serial db₀ c calls key s order) (hset : Setting db₀ c calls key)
    (hpc : s.pc t = .collapsed tx) (hrun : run (fun t => (calls t).job c) key s t now = some s') :
    Goes db₀ c calls key s' order := by
  have hdoing := h.doing t
  rw [hpc] at hdoing
  obtain ⟨⟨hincoming, hconv⟩, last, hlast, hws⟩ := hdoing
  have hexists := (h.setting hset).conversation
  simp only [run, hpc, hincoming, hconv] at hrun
  cases hcall : calls t with
  | message inp =>
    rw [hcall] at hlast hws
    simp only [hcall, State.issueIf, hexists, if_true] at hrun
    refine (h.issue hrun (by simp [hpc]) (by simp) (by rw [hpc]; rfl) ⟨tx.now, ?_⟩).goes
    rw [hcall, hws, Incoming.writes, hlast]
    rfl
  | prompt text =>
    rw [hcall] at hlast hws
    simp only [hcall] at hrun
    obtain rfl := Option.some.inj hrun
    refine ⟨[(t, tx.now)], h.commit hset (by rw [hpc]; rfl) ?_⟩
    rw [hcall, hws, Incoming.writes, hlast]
    rfl

/-- The INSERT: the next sequence number is free. -/
theorem Serial.fresh {tx : Tx} (h : Serial db₀ c calls key s order) (hset : Setting db₀ c calls key)
    (hpc : s.pc t = .fresh tx) (hrun : run (fun t => (calls t).job c) key s t now = some s') :
    Serial db₀ c calls key s' order := by
  have hdoing := h.doing t
  rw [hpc] at hdoing
  obtain ⟨hws, ⟨hincoming, hconv⟩, hlast⟩ := hdoing
  have hins := @insert_row s.server.committed c (calls t) tx.now (h.setting hset).conversation
  simp only [run, hpc, hincoming, hconv, hins] at hrun
  exact h.issue hrun (by simp [hpc]) (by simp) (by rw [hpc]; rfl) ⟨⟨hincoming, hconv⟩, hlast, rfl, by rw [hws]; rfl⟩

/-- The counters. -/
theorem Serial.inserted {tx : Tx} {row : Message} (h : Serial db₀ c calls key s order) (hset : Setting db₀ c calls key)
    (hpc : s.pc t = .inserted tx row) (hrun : run (fun t => (calls t).job c) key s t now = some s') :
    Serial db₀ c calls key s' order := by
  have hdoing := h.doing t
  rw [hpc] at hdoing
  obtain ⟨⟨hincoming, hconv⟩, hlast, rfl, hws⟩ := hdoing
  have hexists := (h.setting hset).conversation
  simp only [run, hpc, hincoming, hconv, State.issueIf, hexists, if_true] at hrun
  refine h.issue hrun (by simp [hpc]) (by simp) (by rw [hpc]; rfl) ⟨⟨hincoming, hconv⟩, ?_⟩
  rw [hws, Incoming.writes, hlast]
  rfl

/-- **Every statement** keeps the order or adds the call it commits. -/
theorem Serial.run (h : Serial db₀ c calls key s order) (hset : Setting db₀ c calls key)
    (hrun : run (fun t => (calls t).job c) key s t now = some s') : Goes db₀ c calls key s' order := by
  have hdoing := h.doing t
  cases hpc : s.pc t with
  | ready => exact (h.ready hset hpc hrun).goes
  | begun tx => exact (h.begun hset hpc hrun).goes
  | locked tx => exact (h.locked hpc hrun).goes
  | repeating tx last => exact (h.repeating hset hpc hrun).goes
  | collapsed tx => exact h.collapsed hset hpc hrun
  | fresh tx => exact (h.fresh hset hpc hrun).goes
  | inserted tx row => exact (h.inserted hset hpc hrun).goes
  | resolved inp c' =>
    rw [hpc] at hdoing
    obtain ⟨hws, hcall, rfl⟩ := hdoing
    have hnone : ¬ (s.server.committed.conversation? c').isNone = true :=
      Bool.eq_false_iff.mp (Option.isNone_eq_false_iff.mpr (h.setting hset).conversation)
    simp only [StoreTransactions.run, hpc, if_neg hnone] at hrun
    obtain rfl := Option.some.inj hrun
    refine Serial.goes (h.goto (by simp [hpc]) (by simp) (by rw [hpc]; rfl) ?_)
    exact ⟨hws, hcall, rfl⟩
  | verified inp c' retries =>
    rw [hpc] at hdoing
    obtain ⟨hws, hcall, rfl⟩ := hdoing
    simp only [StoreTransactions.run, hpc] at hrun
    obtain rfl := Option.some.inj hrun
    refine Serial.goes (h.goto (by simp [hpc]) (by simp) (by rw [hpc]; rfl) ?_)
    exact ⟨hws, hcall.symm, rfl⟩
  | touched =>
    rw [hpc] at hdoing
    obtain ⟨began, hws⟩ := hdoing
    simp only [StoreTransactions.run, hpc] at hrun
    obtain rfl := Option.some.inj hrun
    exact ⟨[(t, began)], h.commit hset (by rw [hpc]; rfl) hws⟩
  | counted tx row =>
    rw [hpc] at hdoing
    simp only [StoreTransactions.run, hpc] at hrun
    obtain rfl := Option.some.inj hrun
    exact ⟨[(t, tx.now)], h.commit hset (by rw [hpc]; rfl) hdoing.2⟩
  | finished =>
    simp only [StoreTransactions.run, hpc] at hrun
    cases hrun
  | summariesDeleted c' => rw [hpc] at hdoing; exact hdoing.elim
  | windowsDeleted c' windows => rw [hpc] at hdoing; exact hdoing.elim
  | messagesDeleted c' windows messages => rw [hpc] at hdoing; exact hdoing.elim
  | conversationDeleted c' messages => rw [hpc] at hdoing; exact hdoing.elim
  | nothingDeleted => rw [hpc] at hdoing; exact hdoing.elim

theorem serial_start (db₀ : Db) (c : Id) (calls : Task → Incoming) (key : Task → Id → Int) :
    Serial db₀ c calls key (startAt db₀) [] :=
  ⟨rfl, List.nodup_nil, fun t => by simp [startAt], fun t => by simp [startAt, Pc.holds], fun t => rfl⟩

theorem Serial.exec (hset : Setting db₀ c calls key) (ls : List (Task × Time)) :
    ∀ {s : State Task} {order : List (Task × Time)}, Serial db₀ c calls key s order →
      LTS.exec (step (fun t => (calls t).job c) key) s (ls.map fun l => .run l.1 l.2) = some s' →
        ∃ order', Serial db₀ c calls key s' order' := by
  induction ls with
  | nil =>
    intro s order h hexec
    obtain rfl := Option.some.inj hexec
    exact ⟨order, h⟩
  | cons l ls ih =>
    intro s order h hexec
    obtain ⟨s₁, hs₁, hrest⟩ := Option.bind_eq_some_iff.mp hexec
    obtain ⟨more, hmore⟩ := h.run hset hs₁
    exact ih hmore hrest

end

/-- **Concurrent stores are serialisable.** In any tables the broker can have,
for any calls on a conversation that exists, with one lock key for it, in
every interleaving of their statements in which none fails: the committed
tables are those of the finished calls one after the other, in the order of
their commits, and each finished call is recorded there. -/
theorem stores_serialisable {Task : Type} [DecidableEq Task] (evs : List Event) (c : Id)
    (hconv : ((broker.run evs).conversation? c).isSome = true) (calls : Task → Incoming)
    (hcalls : ∀ t, (calls t).For c (broker.run evs)) (key : Task → Id → Int) (hkey : ∀ t t', key t c = key t' c)
    (ls : List (Task × Time)) (s : State Task)
    (h : LTS.exec (step (fun t => (calls t).job c) key) (startAt (broker.run evs))
      (ls.map fun l => .run l.1 l.2) = some s) :
    ∃ order : List (Task × Time), (order.map Prod.fst).Nodup ∧ (∀ t, s.pc t = .finished ↔ t ∈ order.map Prod.fst) ∧
      s.server.committed = (broker.run evs).storeAll (serial calls c order) ∧
      ∀ before p after, order = before ++ p :: after →
        Recorded c (calls p.1).payload ((broker.run evs).storeAll (serial calls c before))
          ((broker.run evs).storeAll (serial calls c (before ++ [p]))) := by
  have hset : Setting (broker.run evs) c calls key := ⟨(runs_run evs c).1, hconv, hcalls, hkey⟩
  obtain ⟨order, hserial⟩ := (serial_start (broker.run evs) c calls key).exec hset ls h
  refine ⟨order, hserial.nodup, hserial.finished, hserial.committed, fun before p after _ => ?_⟩
  have hbefore := hset.after before
  have hstep : (broker.run evs).storeAll (serial calls c (before ++ [p])) =
      ((broker.run evs).storeAll (serial calls c before)).store ((calls p.1).toStore p.2 c) := by
    simp [Db.storeAll, serial]
  rw [hstep]
  exact recorded_store hbefore.fit hbefore.conversation (hbefore.calls p.1)

/-- A message and the same text as a prompt, both begun before either has the
lock. -/
def twoCalls : Bool → Incoming
  | true =>
    .message { conversationIdInput := some 7, role := .user, sender := "user".toList, content := some "hi".toList }
  | false => .prompt "hi".toList

def twoCallsRun : List (Bool × Time) :=
  [(true, 1), (true, 1), (true, 1), (false, 2)] ++ List.replicate 5 (false, 2) ++ List.replicate 5 (true, 3)

theorem stores_serialisable_twoCalls :
    ∃ s, LTS.exec (step (fun t => (twoCalls t).job 7) fun _ _ => 0)
        (startAt (broker.run [.createConversation (some 7) 0])) (twoCallsRun.map fun l => .run l.1 l.2) = some s ∧
      s.pc true = .finished ∧ s.pc false = .finished ∧
      ∃ order : List (Bool × Time), (order.map Prod.fst).Nodup ∧ (∀ t, s.pc t = .finished ↔ t ∈ order.map Prod.fst) ∧
        s.server.committed = (broker.run [.createConversation (some 7) 0]).storeAll (serial twoCalls 7 order) := by
  have hrun : ∃ s ∈ LTS.exec (step (fun t => (twoCalls t).job 7) fun _ _ => 0)
      (startAt (broker.run [.createConversation (some 7) 0])) (twoCallsRun.map fun l => .run l.1 l.2),
      s.pc true = .finished ∧ s.pc false = .finished := by
    decide +kernel
  obtain ⟨s, hs, htrue, hfalse⟩ := hrun
  obtain ⟨order, hnodup, hfinished, hcommitted, _⟩ := stores_serialisable [.createConversation (some 7) 0] 7 (by decide)
    twoCalls (fun t inp hinp => by cases t <;> cases hinp; rfl) (fun _ _ => 0) (fun _ _ => rfl) _ s hs
  exact ⟨s, hs, htrue, hfalse, order, hnodup, hfinished, hcommitted⟩

end ContextBroker.StoreTransactions
