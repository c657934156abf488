import ContextBroker.L5Concurrency.StoreTransactions

/-!
# Counters and sequence numbers

`counters_exact`: in every interleaving the committed messages of a
conversation are numbered 1, ..., n, and its row counts n messages and the
sum of their `token_count`. What carries it (`Inv`) is the unique key and the
row locks: a row ready to be inserted keeps its number and its conversation,
and a conversation about to be deleted gets no further rows. The advisory
lock plays no part.
-/
namespace ContextBroker.StoreTransactions

open Rows Transactions

/-! ## What commits do to numbers and counters -/

/-- `token_count`, as a sum reads it. -/
def storedTokens (m : Message) : Nat := m.tokenCount.getD 0

/-- A conversation without its `updated_at`. -/
def core (x : Conversation) : Conversation := { x with updatedAt := 0 }

/-- Ids of the conversations that are there. -/
def known (db : Db) : List Id := db.conversations.map (·.id)

/-- Numbers and counters are exact, and every message has its conversation. -/
structure Exact (db : Db) : Prop where
  numbered : db.Consecutive
  counters : ∀ x ∈ db.conversations, x.totalMessages = (db.messagesOf x.id).length ∧
    x.estimatedTokenCount = total storedTokens (db.messagesOf x.id)
  parents : ∀ m ∈ db.messages, m.conversationId ∈ known db

/-- Nothing changed but repeat counts and `updated_at`. -/
structure Alike (db db' : Db) : Prop where
  messages : db'.messages.map Message.core = db.messages.map Message.core
  conversations : db'.conversations.map core = db.conversations.map core

/-- `row` can be inserted: it has a conversation and the next number. -/
structure Next (db : Db) (row : Message) : Prop where
  conversation : row.conversationId ∈ known db
  number : row.sequenceNumber = (db.messagesOf row.conversationId).length + 1

/-- A committed transaction with the writes `ws`, by what it did. -/
inductive Effect (ws : List Write) (db db' : Db) : Prop where
  | alike (h : Alike db db')
  | added (row : Message) (n : Nat) (now : Time) (hrow : .insertMessage row ∈ ws) (hnext : Next db row)
      (htokens : row.tokenCount = some n)
      (h : db' = ((Write.insertMessage row).apply db).countMessage row.conversationId n now)
  | removed (c : Id) (ids : List Id) (hc : .deleteConversation c ∈ ws) (hids : .deleteMessages c ids ∈ ws)
      (hall : ∀ m ∈ db.messagesOf c, m.id ∈ ids)
      (hmessages : db'.messages = db.messages.filter (·.conversationId != c))
      (hconversations : db'.conversations = db.conversations.filter (·.id != c))
  | created (x : Conversation) (hnew : x.id ∉ known db) (hzero : x.totalMessages = 0 ∧ x.estimatedTokenCount = 0)
      (hmessages : db'.messages = db.messages) (hconversations : db'.conversations = db.conversations ++ [x])

section

variable {db db' : Db} {ws ws' : List Write} {c : Id}

theorem mem_known : c ∈ known db ↔ (db.conversation? c).isSome = true := by
  simp [known, Db.conversation?, List.find?_isSome]

theorem Alike.refl (db : Db) : Alike db db := ⟨rfl, rfl⟩

theorem Alike.trans {db'' : Db} (h : Alike db db') (h' : Alike db' db'') : Alike db db'' :=
  ⟨h'.messages.trans h.messages, h'.conversations.trans h.conversations⟩

theorem Alike.known (h : Alike db db') : known db' = known db := by
  have hids := congrArg (List.map (·.id)) h.conversations
  rwa [List.map_map, List.map_map] at hids

theorem Alike.messagesOf (h : Alike db db') (c : Id) :
    (db'.messagesOf c).map Message.core = (db.messagesOf c).map Message.core := by
  have hfilter : ∀ l : List Message, (l.filter (·.conversationId == c)).map Message.core =
      (l.map Message.core).filter (·.conversationId == c) := by
    intro l
    rw [List.filter_map]
    rfl
  rw [Db.messagesOf, Db.messagesOf, hfilter, hfilter, h.messages]

theorem Alike.length (h : Alike db db') (c : Id) : (db'.messagesOf c).length = (db.messagesOf c).length := by
  simpa using congrArg List.length (h.messagesOf c)

theorem Alike.exact (h : Alike db db') (hdb : Exact db) : Exact db' := by
  refine ⟨fun c => ?_, fun x hx => ?_, fun m hm => ?_⟩
  · have hmap := congrArg (List.map (·.sequenceNumber)) (h.messagesOf c)
    simp only [List.map_map] at hmap
    exact (hmap.trans (hdb.numbered c)).trans (by rw [h.length])
  · have hcore : core x ∈ db.conversations.map core := h.conversations ▸ List.mem_map_of_mem hx
    obtain ⟨y, hy, hxy⟩ := List.mem_map.mp hcore
    have hid : y.id = x.id := (congrArg Conversation.id hxy :)
    have htotal : y.totalMessages = x.totalMessages := (congrArg Conversation.totalMessages hxy :)
    have htokens : y.estimatedTokenCount = x.estimatedTokenCount := (congrArg Conversation.estimatedTokenCount hxy :)
    have hsum := congrArg (total storedTokens) (h.messagesOf x.id)
    simp only [total_map] at hsum
    obtain ⟨hcount, hsum'⟩ := hdb.counters y hy
    rw [hid] at hcount hsum'
    exact ⟨by rw [← htotal, hcount, h.length], by rw [← htokens, hsum']; exact hsum.symm⟩
  · have hcore : m.core ∈ db.messages.map Message.core := h.messages ▸ List.mem_map_of_mem hm
    obtain ⟨m', hm', hmm⟩ := List.mem_map.mp hcore
    have hconv : m'.conversationId = m.conversationId := (congrArg Message.conversationId hmm :)
    rw [h.known, ← hconv]
    exact hdb.parents m' hm'

theorem messagesOf_remove (hmessages : db'.messages = db.messages.filter (·.conversationId != c)) (c' : Id) :
    db'.messagesOf c' = if c' = c then [] else db.messagesOf c' := by
  rw [Db.messagesOf, hmessages, List.filter_filter]
  split
  · rename_i hc
    subst hc
    refine List.filter_eq_nil_iff.mpr fun m _ => ?_
    simp
  · rename_i hc
    refine List.filter_congr fun m _ => ?_
    by_cases hm : m.conversationId = c'
    · simp [hm, hc]
    · simp [hm]

/-- The new row is the next one of its conversation, whose row counts it. -/
theorem Exact.added {row : Message} {n : Nat} (hdb : Exact db) (hnext : Next db row) (htokens : row.tokenCount = some n)
    (now : Time) : Exact (((Write.insertMessage row).apply db).countMessage row.conversationId n now) := by
  have hrows : ∀ c, (((Write.insertMessage row).apply db).countMessage row.conversationId n now).messagesOf c =
      db.messagesOf c ++ if row.conversationId = c then [{ row with id := db.nextId }] else [] :=
    @Db.messagesOf_append db _ { row with id := db.nextId } rfl
  have hknown : known (((Write.insertMessage row).apply db).countMessage row.conversationId n now) = known db := by
    simp only [known, Db.countMessage, Db.updateConversation, Write.apply, List.map_map]
    refine List.map_congr_left fun x _ => ?_
    simp only [Function.comp]
    split <;> rfl
  refine ⟨fun c => ?_, fun y hy => ?_, fun m hm => ?_⟩
  · rw [hrows]
    refine numbered_append.mpr ⟨hdb.numbered c, ?_⟩
    split
    · rename_i hc
      subst hc
      simp [Numbered, hnext.number, Nat.add_comm]
    · rfl
  · obtain ⟨x, hx, rfl⟩ := List.mem_map.mp hy
    obtain ⟨hcount, hsum⟩ := hdb.counters x hx
    by_cases hc : x.id = row.conversationId
    · simp only [beq_iff_eq, if_pos hc, hrows, if_pos hc.symm, List.length_append, total_append, hcount, hsum]
      simp [storedTokens, htokens]
    · simp only [beq_iff_eq, if_neg hc, hrows, if_neg (Ne.symm hc), List.append_nil]
      exact ⟨hcount, hsum⟩
  · rw [hknown]
    rcases List.mem_append.mp hm with hm | hm
    · exact hdb.parents m hm
    · rw [List.mem_singleton.mp hm]
      exact hnext.conversation

/-- **A commit keeps the tables exact.** -/
theorem Effect.exact (h : Effect ws db db') (hdb : Exact db) : Exact db' := by
  cases h with
  | alike h => exact h.exact hdb
  | added row n now _ hnext htokens h => exact h ▸ hdb.added hnext htokens now
  | removed c ids _ _ _ hmessages hconversations =>
    have hrows := messagesOf_remove hmessages
    refine ⟨fun c' => ?_, fun x hx => ?_, fun m hm => ?_⟩
    · rw [hrows]
      split
      · rfl
      · exact hdb.numbered c'
    · rw [hconversations] at hx
      obtain ⟨hx, hne⟩ := List.mem_filter.mp hx
      rw [hrows, if_neg (by simpa using hne)]
      exact hdb.counters x hx
    · rw [hmessages] at hm
      obtain ⟨hm, hne⟩ := List.mem_filter.mp hm
      obtain ⟨x, hx, hid⟩ := List.mem_map.mp (hdb.parents m hm)
      rw [known, hconversations]
      refine List.mem_map.mpr ⟨x, List.mem_filter.mpr ⟨hx, ?_⟩, hid⟩
      rw [hid]
      exact hne
  | created x hnew hzero hmessages hconversations =>
    have hrows : ∀ c, db'.messagesOf c = db.messagesOf c := fun c => by rw [Db.messagesOf, hmessages]; rfl
    have hnone : db.messagesOf x.id = [] := by
      refine List.filter_eq_nil_iff.mpr fun m hm hconv => hnew ?_
      exact eq_of_beq hconv ▸ hdb.parents m hm
    refine ⟨fun c => hrows c ▸ hdb.numbered c, fun y hy => ?_, fun m hm => ?_⟩
    · rw [hconversations] at hy
      rcases List.mem_append.mp hy with hy | hy
      · rw [hrows]
        exact hdb.counters y hy
      · obtain rfl := List.mem_singleton.mp hy
        rw [hrows, hnone]
        exact hzero
    · rw [hmessages] at hm
      rw [known, hconversations, List.map_append]
      exact List.mem_append_left _ (hdb.parents m hm)

end

/-! ## What another commit leaves of a transaction's plans -/

/-- The rows a DELETE has locked are still there. -/
def Pinned (db : Db) (c : Id) (ids : List Id) : Prop := ∀ id ∈ ids, ∃ m ∈ db.messagesOf c, m.id = id

section

variable {db db' : Db} {ws ws' : List Write} {c : Id} {row : Message} {ids : List Id}

theorem conflict_insert {row' : Message} (hc : row.conversationId = row'.conversationId)
    (hn : row.sequenceNumber = row'.sequenceNumber) :
    kind.conflict (.insertMessage row) (.insertMessage row') = true := by
  simp [Kind.conflict, kind, Write.locks, hc, hn, Mode.conflicts]

theorem conflict_parent : kind.conflict (.insertMessage row) (.deleteConversation row.conversationId) = true := by
  simp [Kind.conflict, kind, Write.locks, Mode.conflicts]

theorem conflict_delete {ids' : List Id} {c' id : Id} (h : id ∈ ids) (h' : id ∈ ids') :
    kind.conflict (.deleteMessages c ids) (.deleteMessages c' ids') = true :=
  Kind.conflict_iff.mpr ⟨.message id, .forUpdate, .forUpdate, List.mem_map_of_mem h, List.mem_map_of_mem h', rfl⟩

theorem messagesOf_added (hne : row.conversationId ≠ c) (n : Nat) (now : Time) :
    (((Write.insertMessage row).apply db).countMessage row.conversationId n now).messagesOf c = db.messagesOf c := by
  have happend := @Db.messagesOf_append db ((Write.insertMessage row).apply db) { row with id := db.nextId } rfl c
  rw [if_neg hne, List.append_nil] at happend
  exact happend

/-- A row ready to be inserted stays so: no other transaction could take its
number or its conversation. -/
theorem Effect.next (he : Effect ws db db') (hapart : ∀ w ∈ ws, kind.conflict (.insertMessage row) w = false)
    (h : Next db row) : Next db' row := by
  cases he with
  | alike ha => exact ⟨ha.known.symm ▸ h.conversation, by rw [ha.length, h.number]⟩
  | added row' n now hrow hnext _ hdb' =>
    have hne : row'.conversationId ≠ row.conversationId := by
      intro hc
      have hconf := conflict_insert hc.symm (by rw [h.number, hnext.number, hc])
      rw [hapart _ hrow] at hconf
      cases hconf
    subst hdb'
    refine ⟨?_, by rw [messagesOf_added hne, h.number]⟩
    obtain ⟨x, hx, hid⟩ := List.mem_map.mp h.conversation
    refine List.mem_map.mpr ⟨_, List.mem_map_of_mem hx, ?_⟩
    split <;> exact hid
  | removed c _ hc _ _ hmessages hconversations =>
    have hne : row.conversationId ≠ c := by
      rintro rfl
      have hconf := @conflict_parent row
      rw [hapart _ hc] at hconf
      cases hconf
    refine ⟨?_, by rw [messagesOf_remove hmessages, if_neg hne, h.number]⟩
    obtain ⟨x, hx, hid⟩ := List.mem_map.mp h.conversation
    rw [known, hconversations]
    exact List.mem_map.mpr ⟨x, List.mem_filter.mpr ⟨hx, by simpa [hid] using hne⟩, hid⟩
  | created x _ _ hmessages hconversations =>
    refine ⟨?_, by rw [h.number, Db.messagesOf, Db.messagesOf, hmessages]⟩
    rw [known, hconversations, List.map_append]
    exact List.mem_append_left _ h.conversation

/-- Locked rows stay. -/
theorem Effect.pinned (he : Effect ws db db') (hapart : ∀ w ∈ ws, kind.conflict (.deleteMessages c ids) w = false)
    (h : Pinned db c ids) : Pinned db' c ids := by
  intro id hid
  obtain ⟨m, hm, hmid⟩ := h id hid
  cases he with
  | alike ha =>
    have hcore : m.core ∈ (db'.messagesOf c).map Message.core := ha.messagesOf c ▸ List.mem_map_of_mem hm
    obtain ⟨m', hm', hmm⟩ := List.mem_map.mp hcore
    exact ⟨m', hm', (congrArg Message.id hmm :).trans hmid⟩
  | added row n now _ _ _ hdb' =>
    refine ⟨m, ?_, hmid⟩
    obtain ⟨hm, hc⟩ := List.mem_filter.mp hm
    rw [hdb']
    exact List.mem_filter.mpr ⟨List.mem_append_left _ hm, hc⟩
  | removed c' ids' _ hids hall hmessages _ =>
    rw [messagesOf_remove hmessages]
    split
    · rename_i hc
      subst hc
      have hconf := @conflict_delete c ids ids' c id hid (hmid ▸ hall m hm)
      rw [hapart _ hids] at hconf
      cases hconf
    · exact ⟨m, hm, hmid⟩
  | created _ _ _ hmessages _ =>
    rw [Db.messagesOf, hmessages]
    exact ⟨m, hm, hmid⟩

/-- A conversation about to be deleted gets no further rows. -/
theorem Effect.covered (he : Effect ws db db') (hapart : ∀ w ∈ ws, kind.conflict (.deleteConversation c) w = false)
    (h : ∀ m ∈ db.messagesOf c, m.id ∈ ids) : ∀ m ∈ db'.messagesOf c, m.id ∈ ids := by
  intro m hm
  cases he with
  | alike ha =>
    have hcore : m.core ∈ (db.messagesOf c).map Message.core := ha.messagesOf c ▸ List.mem_map_of_mem hm
    obtain ⟨m', hm', hmm⟩ := List.mem_map.mp hcore
    exact (congrArg Message.id hmm :) ▸ h m' hm'
  | added row n now hrow _ _ hdb' =>
    have hne : row.conversationId ≠ c := by
      rintro rfl
      have hconf := @conflict_parent row
      rw [Kind.conflict_comm, hapart _ hrow] at hconf
      cases hconf
    rw [hdb', messagesOf_added hne] at hm
    exact h m hm
  | removed c' _ _ _ _ hmessages _ =>
    rw [messagesOf_remove hmessages] at hm
    split at hm
    · cases hm
    · exact h m hm
  | created _ _ _ hmessages _ =>
    rw [Db.messagesOf, hmessages] at hm
    exact h m hm

end

/-! ## The invariant -/

/-- Writes that touch no number, no counter and no message. -/
def Write.plain : Write → Bool
  | .setRepeatCount _ _ | .touchConversation _ _ | .deleteSummaries _ | .deleteWindows _ => true
  | .deleteMessages _ ids => ids.isEmpty
  | .createWindow _ _ _ _ => true
  | _ => false

/-- The writes of a task by where it is, and what it has checked. -/
def Stage (db : Db) (ws : List Write) : Pc → Prop
  | .collapsed _ | .touched | .nothingDeleted => ∀ w ∈ ws, w.plain = true
  | .inserted tx row =>
    ws = [.insertMessage row] ∧ Next db row ∧ row.conversationId = tx.conversation ∧
      row.tokenCount = some tx.incoming.tokens
  | .counted tx row =>
    ws = [.insertMessage row, .countMessage row.conversationId tx.incoming.tokens tx.now] ∧ Next db row ∧
      row.tokenCount = some tx.incoming.tokens
  | .summariesDeleted _ => ∃ summaries, ws = [.deleteSummaries summaries]
  | .windowsDeleted _ windows => ∃ summaries, ws = [.deleteSummaries summaries, .deleteWindows windows]
  | .messagesDeleted c windows ids =>
    (∃ summaries, ws = [.deleteSummaries summaries, .deleteWindows windows, .deleteMessages c ids]) ∧
      Pinned db c ids
  | .conversationDeleted c ids =>
    (∃ summaries windows, ws = [.deleteSummaries summaries, .deleteWindows windows, .deleteMessages c ids,
      .deleteConversation c]) ∧ ∀ m ∈ db.messagesOf c, m.id ∈ ids
  | _ => ws = []

/-- Where a transaction ends. -/
def Pc.commits : Pc → Bool
  | .collapsed _ | .touched | .counted _ _ | .conversationDeleted _ _ | .nothingDeleted => true
  | _ => false

structure Inv {Task : Type} [DecidableEq Task] (s : State Task) : Prop where
  exact : Exact s.server.committed
  compatible : s.server.Compatible kind
  stage : ∀ t, Stage s.server.committed (s.server.writesOf t) (s.pc t)

section

variable {db db' : Db} {ws ws' : List Write} {pc : Pc}

theorem Write.plain_alike {w : Write} (h : w.plain = true) (db : Db) : Alike db (w.apply db) := by
  cases w with
  | setRepeatCount id n =>
    refine ⟨?_, rfl⟩
    simp only [Write.apply, Db.setRepeatCount, List.map_map]
    refine List.map_congr_left fun m _ => ?_
    simp only [Function.comp]
    split <;> rfl
  | touchConversation c now =>
    refine ⟨rfl, ?_⟩
    simp only [Write.apply, Db.updateConversation, List.map_map]
    refine List.map_congr_left fun x _ => ?_
    simp only [Function.comp]
    split <;> rfl
  | deleteSummaries ids | deleteWindows ids => exact ⟨rfl, rfl⟩
  | deleteMessages c ids =>
    obtain rfl := List.isEmpty_iff.mp h
    refine ⟨?_, rfl⟩
    simp [Write.apply]
  | createWindow c participant buildType budget =>
    simp only [Write.apply, Db.createWindow]
    split
    · exact .refl db
    · split
      · exact .refl db
      · exact ⟨rfl, rfl⟩
  | insertMessage | countMessage | deleteConversation | createConversation => cases h

theorem plain_alike (h : ∀ w ∈ ws, Write.plain w = true) (db : Db) : Alike db (ws.foldl Write.apply db) := by
  induction ws generalizing db with
  | nil => exact .refl db
  | cons w ws ih =>
    exact (Write.plain_alike (h w List.mem_cons_self) db).trans
      (ih (fun w' hw' => h w' (List.mem_cons_of_mem _ hw')) _)

/-- Another transaction's commit leaves a task where it was. -/
theorem Stage.effect (h : Stage db ws' pc) (he : Effect ws db db')
    (hapart : ∀ w ∈ ws, ∀ w' ∈ ws', kind.conflict w' w = false) : Stage db' ws' pc := by
  have hfrom : ∀ w' ∈ ws', ∀ w ∈ ws, kind.conflict w' w = false := fun w' hw' w hw => hapart w hw w' hw'
  cases pc with
  | inserted tx row =>
    obtain ⟨hws, hnext, hrow⟩ := h
    exact ⟨hws, he.next (hfrom _ (hws ▸ List.mem_cons_self)) hnext, hrow⟩
  | counted tx row =>
    obtain ⟨hws, hnext, hrow⟩ := h
    exact ⟨hws, he.next (hfrom _ (hws ▸ List.mem_cons_self)) hnext, hrow⟩
  | messagesDeleted c windows ids =>
    obtain ⟨⟨summaries, rfl⟩, hpinned⟩ := h
    exact ⟨⟨summaries, rfl⟩, he.pinned (hfrom _ (by simp)) hpinned⟩
  | conversationDeleted c ids =>
    obtain ⟨⟨summaries, windows, rfl⟩, hall⟩ := h
    exact ⟨⟨summaries, windows, rfl⟩, he.covered (hfrom _ (by simp)) hall⟩
  | _ => exact h

/-- **What a commit does.** -/
theorem Stage.commit (h : Stage db ws pc) (hpc : pc.commits = true) :
    Effect ws db (ws.foldl Write.apply db) := by
  cases pc with
  | collapsed | touched | nothingDeleted => exact .alike (plain_alike h db)
  | counted tx row =>
    obtain ⟨rfl, hnext, htokens⟩ := h
    exact .added row tx.incoming.tokens tx.now List.mem_cons_self hnext htokens rfl
  | conversationDeleted c ids =>
    obtain ⟨⟨summaries, windows, rfl⟩, hall⟩ := h
    refine .removed c ids (by simp) (by simp) hall ?_ rfl
    refine List.filter_congr fun m hm => ?_
    cases hc : m.conversationId == c with
    | true =>
      have hmem : ids.contains m.id = true := List.contains_iff_mem.mpr (hall m (List.mem_filter.mpr ⟨hm, hc⟩))
      rw [hmem, bne, hc]
      rfl
    | false =>
      rw [bne, hc]
      rfl
  | _ => cases hpc

theorem createConversation_effect (db : Db) (supplied : Option Id) (now : Time) :
    Effect ws db (db.createConversation supplied now) := by
  unfold Db.createConversation
  dsimp only
  split
  · exact .alike ⟨rfl, rfl⟩
  · rename_i hnone
    exact .created { id := supplied.getD db.nextId, updatedAt := now } (fun hmem => hnone (mem_known.mp hmem))
      ⟨rfl, rfl⟩ rfl rfl

end

/-! ## Steps -/

section

variable {Task : Type} [DecidableEq Task] {s s' : State Task} {t : Task} {pc : Pc} {w : Write}

/-- Task `t` moves to `pc` with the server `srv`; the others stay. -/
theorem Inv.move (h : Inv s) {srv : Server Task Db Write} (locks : Int → Option Task)
    (hcommitted : srv.committed = s.server.committed) (hcompatible : srv.Compatible kind)
    (hothers : ∀ t', t' ≠ t → srv.writesOf t' = s.server.writesOf t')
    (hstage : Stage s.server.committed (srv.writesOf t) pc) :
    Inv { server := srv, locks, pc := Function.update s.pc t pc } := by
  refine ⟨hcommitted ▸ h.exact, hcompatible, fun t' => ?_⟩
  show Stage srv.committed (srv.writesOf t') (Function.update s.pc t pc t')
  rw [hcommitted]
  by_cases ht : t' = t
  · subst ht
    rw [Function.update_self]
    exact hstage
  · rw [Function.update_of_ne ht, hothers t' ht]
    exact h.stage t'

theorem Inv.goto (h : Inv s) (hstage : Stage s.server.committed (s.server.writesOf t) pc) : Inv (s.goto t pc) :=
  h.move s.locks rfl h.compatible (fun _ _ => rfl) hstage

theorem Inv.rollback (h : Inv s) (hstage : Stage s.server.committed [] pc) : Inv (s.rollback t pc) :=
  h.move (s.unlock t) rfl (h.compatible.rollback t) (fun _ ht => Server.writesOf_rollback_of_ne _ ht)
    ((Server.writesOf_rollback s.server t).symm ▸ hstage)

theorem Inv.issue (h : Inv s) (hissue : s.issue t w pc = some s')
    (hstage : Stage s.server.committed (s.server.writesOf t ++ [w]) pc) : Inv s' := by
  obtain ⟨srv, hsrv, rfl⟩ := Option.map_eq_some_iff.mp hissue
  exact h.move s.locks (Server.committed_issue hsrv) (h.compatible.issue hsrv)
    (fun _ ht => Server.writesOf_issue_of_ne hsrv ht) ((Server.writesOf_issue hsrv).symm ▸ hstage)

/-- The transaction of `t` commits on a server where the others are as before. -/
theorem Inv.close (h : Inv s) {srv : Server Task Db Write} (locks : Int → Option Task)
    (hcommitted : srv.committed = s.server.committed) (hcompatible : srv.Compatible kind)
    (hothers : ∀ t', t' ≠ t → srv.writesOf t' = s.server.writesOf t')
    (heffect : Effect (srv.writesOf t) s.server.committed ((srv.writesOf t).foldl Write.apply s.server.committed)) :
    Inv { server := srv.commit kind t, locks, pc := Function.update s.pc t .finished } := by
  have hdb : (srv.commit kind t).committed = (srv.writesOf t).foldl Write.apply s.server.committed := by
    rw [← hcommitted]
    rfl
  refine ⟨hdb ▸ heffect.exact h.exact, hcompatible.commit t, fun t' => ?_⟩
  show Stage (srv.commit kind t).committed ((srv.commit kind t).writesOf t') (Function.update s.pc t .finished t')
  by_cases ht : t' = t
  · subst ht
    rw [Function.update_self]
    exact Server.writesOf_rollback srv t'
  · rw [Function.update_of_ne ht, hdb]
    have hws : (srv.commit kind t).writesOf t' = s.server.writesOf t' :=
      (Server.writesOf_rollback_of_ne srv ht).trans (hothers t' ht)
    rw [hws]
    refine (h.stage t').effect heffect fun w hw w' hw' => ?_
    exact hcompatible.apart ht ((hothers t' ht).symm ▸ hw') hw

theorem Inv.commit (h : Inv s) (hpc : (s.pc t).commits = true) : Inv (s.commit t) :=
  h.close (s.unlock t) rfl h.compatible (fun _ _ => rfl) ((h.stage t).commit hpc)

theorem Inv.autocommit (h : Inv s) (hwrites : s.server.writesOf t = []) (hauto : s.autocommit t w = some s')
    (heffect : Effect [w] s.server.committed (w.apply s.server.committed)) : Inv s' := by
  obtain ⟨srv, hsrv, rfl⟩ := Option.map_eq_some_iff.mp hauto
  have hws : srv.writesOf t = [w] := by rw [Server.writesOf_issue hsrv, hwrites, List.nil_append]
  exact h.close s.locks (Server.committed_issue hsrv) (h.compatible.issue hsrv)
    (fun _ ht => Server.writesOf_issue_of_ne hsrv ht) (hws.symm ▸ heffect)

theorem Inv.issueIf {found : Bool} (h : Inv s) (hissue : s.issueIf t found w pc = some s')
    (hyes : found = true → Stage s.server.committed (s.server.writesOf t ++ [w]) pc)
    (hno : found = false → Stage s.server.committed (s.server.writesOf t) pc) : Inv s' := by
  unfold State.issueIf at hissue
  split at hissue
  · rename_i hfound
    exact h.issue hissue (hyes hfound)
  · rename_i hfound
    obtain rfl := Option.some.inj hissue
    exact h.goto (hno (Bool.eq_false_iff.mpr hfound))

theorem stage_afterViolation (db : Db) (pc : Pc) : Stage db [] (afterViolation pc) := by
  unfold afterViolation
  split <;> exact rfl

variable {job : Task → Job} {key : Task → Id → Int} {now : Time}

/-- A first statement. -/
theorem Inv.ready (h : Inv s) (hpc : s.pc t = .ready) (hrun : run job key s t now = some s') : Inv s' := by
  have hwrites : s.server.writesOf t = [] := by
    have hstage := h.stage t
    rwa [hpc] at hstage
  simp only [StoreTransactions.run, hpc] at hrun
  split at hrun
  · split at hrun <;> obtain rfl := Option.some.inj hrun <;> exact h.goto hwrites
  · obtain rfl := Option.some.inj hrun
    exact h.goto hwrites
  · exact h.autocommit hwrites hrun (createConversation_effect _ _ _)
  · exact h.autocommit hwrites hrun (.alike (Write.plain_alike rfl _))
  · exact h.issue hrun ⟨_, by rw [hwrites, List.nil_append]⟩

/-- The UPDATE of a repeat count. -/
theorem Inv.repeating {tx : Tx} {last : Message} (h : Inv s) (hpc : s.pc t = .repeating tx last)
    (hrun : run job key s t now = some s') : Inv s' := by
  have hwrites : s.server.writesOf t = [] := by
    have hstage := h.stage t
    rwa [hpc] at hstage
  simp only [StoreTransactions.run, hpc] at hrun
  split at hrun
  · refine h.issue hrun fun w hw => ?_
    rw [hwrites, List.nil_append] at hw
    rw [List.mem_singleton.mp hw]
    rfl
  · obtain rfl := Option.some.inj hrun
    refine h.goto fun w hw => ?_
    rw [hwrites] at hw
    cases hw

/-- `updated_at` of a collapse, or its commit. -/
theorem Inv.collapsed {tx : Tx} (h : Inv s) (hpc : s.pc t = .collapsed tx)
    (hrun : run job key s t now = some s') : Inv s' := by
  have hplain : ∀ w ∈ s.server.writesOf t, w.plain = true := by
    have hstage := h.stage t
    rwa [hpc] at hstage
  simp only [StoreTransactions.run, hpc] at hrun
  split at hrun
  · refine h.issueIf hrun (fun _ w hw => ?_) (fun _ => hplain)
    rcases List.mem_append.mp hw with hw | hw
    · exact hplain w hw
    · rw [List.mem_singleton.mp hw]
      rfl
  · obtain rfl := Option.some.inj hrun
    exact h.commit (by rw [hpc]; rfl)

/-- The INSERT: the keys hold, so the row is the next one. -/
theorem Inv.fresh {tx : Tx} (h : Inv s) (hpc : s.pc t = .fresh tx) (hrun : run job key s t now = some s') :
    Inv s' := by
  have hwrites : s.server.writesOf t = [] := by
    have hstage := h.stage t
    rwa [hpc] at hstage
  simp only [StoreTransactions.run, hpc] at hrun
  split at hrun
  · obtain rfl := Option.some.inj hrun
    exact h.rollback (stage_afterViolation _ _)
  · obtain rfl := Option.some.inj hrun
    exact h.rollback rfl
  · rename_i db' hins
    obtain ⟨hconv, _, _⟩ := Db.insertMessage_eq_ok.mp hins
    refine h.issue hrun ⟨by rw [hwrites, List.nil_append], ⟨mem_known.mpr hconv, ?_⟩, ?_, ?_⟩
    · rw [← h.exact.numbered.nextSequence]
      cases tx.incoming <;> rfl
    · cases tx.incoming <;> rfl
    · cases tx.incoming <;> rfl

/-- The counters: the row holds its conversation, so the UPDATE finds it. -/
theorem Inv.inserted {tx : Tx} {row : Message} (h : Inv s) (hpc : s.pc t = .inserted tx row)
    (hrun : run job key s t now = some s') : Inv s' := by
  have hstage := h.stage t
  rw [hpc] at hstage
  obtain ⟨hwrites, hnext, hconv, htokens⟩ := hstage
  simp only [StoreTransactions.run, hpc] at hrun
  refine h.issueIf hrun (fun _ => ⟨by rw [hwrites, hconv]; rfl, hnext, htokens⟩) fun hnone => ?_
  rw [← hconv, mem_known.mp hnext.conversation] at hnone
  cases hnone

/-- The DELETE of the conversation. Without one there were no messages to
delete either: they are locked, and would still be there with their
conversation. -/
theorem Inv.messagesDeleted {c : Id} {windows messages : List Id} (h : Inv s)
    (hpc : s.pc t = .messagesDeleted c windows messages) (hrun : run job key s t now = some s') : Inv s' := by
  have hstage := h.stage t
  rw [hpc] at hstage
  obtain ⟨⟨summaries, hwrites⟩, hpinned⟩ := hstage
  simp only [StoreTransactions.run, hpc] at hrun
  split at hrun
  · rename_i hnone
    obtain rfl := Option.some.inj hrun
    have hempty : messages = [] := by
      refine List.eq_nil_iff_forall_not_mem.mpr fun id hid => ?_
      obtain ⟨m, hm, _⟩ := hpinned id hid
      obtain ⟨hm, hc⟩ := List.mem_filter.mp hm
      have hconv := mem_known.mp (h.exact.parents m hm)
      rw [eq_of_beq hc, Option.isSome_iff_ne_none] at hconv
      exact hconv (Option.isNone_iff_eq_none.mp hnone)
    refine h.goto fun w hw => ?_
    rw [hwrites, hempty] at hw
    simp only [List.mem_cons, List.not_mem_nil, or_false] at hw
    rcases hw with rfl | rfl | rfl <;> rfl
  · split at hrun
    · rename_i hall
      simp only [Bool.and_eq_true, List.all_eq_true, List.contains_iff_mem] at hall
      exact h.issue hrun ⟨⟨summaries, windows, by rw [hwrites]; rfl⟩, hall.1⟩
    · obtain rfl := Option.some.inj hrun
      exact h.rollback rfl

/-- **Every statement keeps the invariant.** -/
theorem Inv.run (h : Inv s) (hrun : run job key s t now = some s') : Inv s' := by
  have hstage := h.stage t
  cases hpc : s.pc t with
  | ready => exact h.ready hpc hrun
  | repeating tx last => exact h.repeating hpc hrun
  | collapsed tx => exact h.collapsed hpc hrun
  | fresh tx => exact h.fresh hpc hrun
  | inserted tx row => exact h.inserted hpc hrun
  | messagesDeleted c windows messages => exact h.messagesDeleted hpc hrun
  | resolved inp c =>
    rw [hpc] at hstage
    simp only [StoreTransactions.run, hpc] at hrun
    split at hrun <;> obtain rfl := Option.some.inj hrun <;> exact h.goto hstage
  | verified inp c retries =>
    rw [hpc] at hstage
    simp only [StoreTransactions.run, hpc] at hrun
    obtain rfl := Option.some.inj hrun
    exact h.goto hstage
  | begun tx =>
    rw [hpc] at hstage
    simp only [StoreTransactions.run, hpc] at hrun
    split at hrun
    · cases hrun
    · obtain rfl := Option.some.inj hrun
      exact h.move _ rfl h.compatible (fun _ _ => rfl) hstage
  | locked tx =>
    rw [hpc] at hstage
    simp only [StoreTransactions.run, hpc] at hrun
    split at hrun <;> obtain rfl := Option.some.inj hrun <;> exact h.goto hstage
  | summariesDeleted c =>
    rw [hpc] at hstage
    obtain ⟨summaries, hwrites⟩ := hstage
    simp only [StoreTransactions.run, hpc] at hrun
    exact h.issue hrun ⟨summaries, by rw [hwrites]; rfl⟩
  | windowsDeleted c windows =>
    rw [hpc] at hstage
    obtain ⟨summaries, hwrites⟩ := hstage
    simp only [StoreTransactions.run, hpc] at hrun
    refine h.issue hrun ⟨⟨summaries, by rw [hwrites]; rfl⟩, fun id hid => ?_⟩
    obtain ⟨m, hm, hmid⟩ := List.mem_map.mp hid
    exact ⟨m, hm, hmid⟩
  | touched | counted | conversationDeleted | nothingDeleted =>
    simp only [StoreTransactions.run, hpc] at hrun
    obtain rfl := Option.some.inj hrun
    exact h.commit (by rw [hpc]; rfl)
  | finished =>
    simp only [StoreTransactions.run, hpc] at hrun
    cases hrun

theorem inv_inductive (job : Task → Job) (key : Task → Id → Int) : (system job key).Inductive Inv where
  init := by
    rintro s rfl
    exact ⟨⟨fun _ => rfl, (fun _ h => nomatch h), fun _ h => nomatch h⟩, (fun _ h => nomatch h), fun _ => rfl⟩
  step := by
    intro s l s' h hstep
    cases l with
    | run t now => exact h.run hstep
    | violate t =>
      obtain rfl := Option.some.inj hstep
      exact h.rollback (stage_afterViolation _ _)
    | fail t =>
      obtain rfl := Option.some.inj hstep
      exact h.rollback rfl

end

/-- **Exact counters** in every interleaving: the committed messages of a
conversation are numbered 1, ..., n, and its row counts n of them and the sum
of their `token_count`. -/
theorem counters_exact {Task : Type} [DecidableEq Task] (job : Task → Job) (key : Task → Id → Int)
    (s : State Task) (hs : (system job key).Reachable s) (c : Id) (x : Conversation)
    (hx : s.server.committed.conversation? c = some x) :
    (s.server.committed.messagesOf c).map (·.sequenceNumber) =
        List.range' 1 (s.server.committed.messagesOf c).length ∧
      x.totalMessages = (s.server.committed.messagesOf c).length ∧
      x.estimatedTokenCount = total storedTokens (s.server.committed.messagesOf c) := by
  have hexact := ((inv_inductive job key).reachable hs).exact
  have hid : x.id = c := eq_of_beq (List.find?_some hx :)
  refine ⟨hexact.numbered c, ?_⟩
  rw [← hid]
  exact hexact.counters x (List.mem_of_find?_eq_some hx)

/-- Conversation 7, a message, a prompt and a deletion. -/
def sampleJob : Nat → Job
  | 0 => .createConversation (some 7)
  | 1 => .storeMessage { conversationIdInput := some 7, role := .assistant, sender := "m".toList
                         content := some "well".toList }
  | 2 => .storePrompt 7 "and now?".toList
  | _ => .deleteConversation 7

/-- The deletion looks for messages while the first one is being stored, and
finds it when it comes to the conversation: the foreign key ends it. -/
def sampleLabels : List (Label Nat) :=
  .run 0 0 :: List.replicate 6 (.run 1 1) ++ List.replicate 3 (.run 3 1) ++ List.replicate 2 (.run 1 2) ++
    [.run 3 2] ++ List.replicate 6 (.run 2 3)

theorem counters_exact_sample :
    ∃ s, LTS.exec (step sampleJob fun _ _ => 0) initial sampleLabels = some s ∧
      (s.server.committed.messagesOf 7).length = 2 ∧ ∃ x, s.server.committed.conversation? 7 = some x ∧
        (s.server.committed.messagesOf 7).map (·.sequenceNumber) =
            List.range' 1 (s.server.committed.messagesOf 7).length ∧
          x.totalMessages = (s.server.committed.messagesOf 7).length ∧
          x.estimatedTokenCount = total storedTokens (s.server.committed.messagesOf 7) := by
  have hrun : ∃ s ∈ LTS.exec (step sampleJob fun _ _ => 0) initial sampleLabels,
      (s.server.committed.messagesOf 7).length = 2 ∧ (s.server.committed.conversation? 7).isSome = true := by
    decide +kernel
  obtain ⟨s, hs, hlength, hconv⟩ := hrun
  obtain ⟨x, hx⟩ := Option.isSome_iff_exists.mp hconv
  exact ⟨s, hs, hlength, x, hx, counters_exact sampleJob (fun _ _ => 0) s
    ⟨_, _, rfl, LTS.run_of_exec hs⟩ 7 x hx⟩

end ContextBroker.StoreTransactions
