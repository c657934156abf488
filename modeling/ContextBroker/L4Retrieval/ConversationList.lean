import ContextBroker.Core.Paging
import ContextBroker.Core.Ranked
import ContextBroker.L1Data.Schema

/-!
# Listing conversations page by page

`conv_list_conversations` sorts the conversations, or those a participant sends
or receives in, by `created_at`, newest first, and cuts out a page by limit and
offset. A reader takes page after page until one is short; between two pages
conversations are created, renamed and deleted and messages come in.

* `pages_miss`: the reader misses at most one conversation for each deletion.
* `pages_repeat`: it sees at most one again for each that came into the list, by
  its creation or, for a participant, by a message.

Conversations with one `created_at` come in an order the database chooses for each
query; the results are about tables without two such.
-/
namespace ContextBroker.ConversationList

open Ranked Paging

/-- The columns the list reads. -/
structure ConversationRow where
  id : Id
  title : Option Text := none
  flowId : Option Text := none
  userId : Option Text := none
  createdAt : Time
  deriving DecidableEq, Repr

structure Tables where
  conversations : List ConversationRow := []
  messages : List Message := []
  deriving DecidableEq, Repr

structure Listed where
  id : Id
  title : Option Text
  flowId : Option Text
  userId : Option Text
  createdAt : Time
  messageCount : Nat
  deriving DecidableEq, Repr

/-- `EXISTS (... cm.sender = $1 OR cm.recipient = $1)` -/
def Tables.takesPart (db : Tables) (participant : Text) (id : Id) : Bool :=
  db.messages.any fun m => m.conversationId == id && (m.sender == participant || m.recipient == participant)

/-- `if validated.participant` -/
def given (participant : Option Text) : Option Text := participant.filter (· ≠ [])

/-- The `WHERE` clause, if there is one. -/
def Tables.selects (db : Tables) (participant : Option Text) (id : Id) : Bool :=
  (given participant).all fun p => db.takesPart p id

/-- The rows in the order of the list. -/
def Tables.sorted (db : Tables) (participant : Option Text) : List ConversationRow :=
  sortDesc (·.createdAt) (db.conversations.filter fun c => db.selects participant c.id)

/-- mirrors conversation_ops_flow.py:840-890 -/
def listConversations (db : Tables) (participant : Option Text) (limit offset : Nat) : List Listed :=
  (page limit offset (db.sorted participant)).map fun c =>
    { id := c.id, title := c.title, flowId := c.flowId, userId := c.userId, createdAt := c.createdAt,
      messageCount := db.messages.countP fun m => m.conversationId == c.id }

/-! ## What happens between two pages -/

inductive Op where
  | create (c : ConversationRow)
  | message (m : Message)
  | rename (id : Id) (title : Text)
  | delete (id : Id)
  deriving DecidableEq, Repr

/-- An id that exists is not inserted (`ON CONFLICT (id) DO NOTHING`), a message
needs its conversation, and a deletion takes the messages along. -/
def Tables.apply (db : Tables) : Op → Tables
  | .create c => if db.conversations.any (·.id == c.id) then db else { db with conversations := db.conversations ++ [c] }
  | .message m => if db.conversations.any (·.id == m.conversationId) then { db with messages := db.messages ++ [m] } else db
  | .rename id title =>
    { db with conversations := db.conversations.map fun c => if c.id = id then { c with title := some title } else c }
  | .delete id =>
    { conversations := db.conversations.filter (·.id != id), messages := db.messages.filter (·.conversationId != id) }

/-- The pages from `offset` on, with the operations after each. -/
def readPages (participant : Option Text) (limit : Nat) : Nat → Tables → List (List Op) → List (List Listed)
  | offset, db, [] => [listConversations db participant limit offset]
  | offset, db, ops :: rest =>
    listConversations db participant limit offset ::
      readPages participant limit (offset + limit) (ops.foldl Tables.apply db) rest

/-- The ids of the list. -/
def Tables.ids (db : Tables) (participant : Option Text) : List Id := (db.sorted participant).map (·.id)

/-- The keys of the tables: no two conversations share an id, and a message has its
conversation. Nor do two share a `created_at`. -/
structure Tables.Distinct (db : Tables) : Prop where
  ids : (db.conversations.map (·.id)).Nodup
  times : (db.conversations.map (·.createdAt)).Nodup
  refs : ∀ m ∈ db.messages, m.conversationId ∈ db.conversations.map (·.id)

/-- A conversation is created at a time of its own, and not under an id of the
start. -/
def Op.New (start db : Tables) : Op → Prop
  | .create c => c.createdAt ∉ db.conversations.map (·.createdAt) ∧ c.id ∉ start.conversations.map (·.id)
  | _ => True

def Op.isDelete : Op → Bool
  | .delete _ => true
  | _ => false

/-- The operation can bring a conversation into the list. -/
def Op.adds (participant : Option Text) : Op → Bool
  | .create _ => (given participant).isNone
  | .message _ => (given participant).isSome
  | _ => false

/-! ## Sorted rows -/

section

variable {rows rows' : List ConversationRow} {c : ConversationRow}

/-- Rows with different times have one order. -/
theorem sortDesc_eq (htimes : (rows.map (·.createdAt)).Nodup) (hperm : rows'.Perm rows)
    (hsorted : rows'.Pairwise fun a b => b.createdAt ≤ a.createdAt) : rows' = sortDesc (·.createdAt) rows := by
  refine List.Perm.eq_of_pairwise (fun a b ha hb hab hba => ?_) hsorted (sortDesc_sorted _ rows)
    (hperm.trans (sortDesc_perm _ rows).symm)
  have hb' : b ∈ rows := mem_sortDesc.mp hb
  exact List.inj_on_of_nodup_map htimes (hperm.mem_iff.mp ha) hb' (le_antisymm hba hab)

/-- One row more has its place among the others. -/
theorem sortDesc_of_perm_cons (htimes : (rows'.map (·.createdAt)).Nodup) (hperm : rows'.Perm (c :: rows)) :
    ∃ A B, sortDesc (·.createdAt) rows' = A ++ c :: B ∧ sortDesc (·.createdAt) rows = A ++ B := by
  have hmem : c ∈ sortDesc (·.createdAt) rows' := mem_sortDesc.mpr (hperm.mem_iff.mpr List.mem_cons_self)
  obtain ⟨A, B, hsplit⟩ := List.append_of_mem hmem
  refine ⟨A, B, hsplit, (sortDesc_eq ?_ ?_ ?_).symm⟩
  · exact (List.nodup_cons.mp ((hperm.map _).nodup_iff.mp htimes)).2
  · have hall : (A ++ c :: B).Perm (c :: rows) := hsplit ▸ (sortDesc_perm _ rows').trans hperm
    exact (List.perm_middle.symm.trans hall).cons_inv
  · have hsorted := sortDesc_sorted (fun r : ConversationRow => r.createdAt) rows'
    rw [hsplit] at hsorted
    exact hsorted.sublist ((List.sublist_cons_self c B).append_left A)

/-- Of the rows one more is chosen. -/
theorem filter_perm_cons {p q : ConversationRow → Bool} (hids : (rows.map (·.id)).Nodup) (hc : c ∈ rows)
    (hold : p c = false) (hnew : q c = true) (hsame : ∀ x ∈ rows, x.id ≠ c.id → q x = p x) :
    (rows.filter q).Perm (c :: rows.filter p) := by
  obtain ⟨A, B, rfl⟩ := List.append_of_mem hc
  have hnot : ∀ x ∈ A ++ B, x.id ≠ c.id := by
    rw [List.map_append, List.map_cons] at hids
    have hfresh := (List.nodup_cons.mp (List.perm_middle.nodup_iff.mp hids)).1
    rw [← List.map_append] at hfresh
    exact fun x hx heq => hfresh (heq ▸ List.mem_map_of_mem hx)
  have hA : A.filter q = A.filter p := List.filter_congr fun x hx =>
    hsame x (List.mem_append_left _ hx) (hnot x (List.mem_append_left _ hx))
  have hB : B.filter q = B.filter p := List.filter_congr fun x hx =>
    hsame x (List.mem_append_right _ (List.mem_cons_of_mem _ hx)) (hnot x (List.mem_append_right _ hx))
  rw [List.filter_append, List.filter_append, List.filter_cons_of_pos hnew, List.filter_cons_of_neg (by simp [hold]),
    hA, hB]
  exact List.perm_middle

end

/-! ## One operation -/

section

variable {start db : Tables} {participant : Option Text} {op : Op}

/-- What is listed at the start stays in the list until it is deleted. -/
def Keeps (start : Tables) (participant : Option Text) (db : Tables) : Prop :=
  ∀ id ∈ start.ids participant, id ∈ db.conversations.map (·.id) → db.selects participant id = true

/-- One edit of the list for an operation, or none. -/
structure Lists (start : Tables) (participant : Option Text) (db : Tables) (op : Op) (deletes inserts : Nat) : Prop where
  edits : Edits (· ∉ start.ids participant) (db.ids participant) deletes inserts ((db.apply op).ids participant)
  deletes_le : deletes ≤ op.isDelete.toNat
  inserts_le : inserts ≤ (op.adds participant).toNat

theorem Tables.Distinct.sorted_ids (h : db.Distinct) : (db.ids participant).Nodup := by
  refine ((sortDesc_perm _ _).map _).nodup_iff.mpr ?_
  exact h.ids.sublist (List.filter_sublist.map _)

theorem Tables.Distinct.filter_times (h : db.Distinct) (p : ConversationRow → Bool) :
    ((db.conversations.filter p).map (·.createdAt)).Nodup :=
  h.times.sublist (List.filter_sublist.map _)

theorem mem_ids {id : Id} :
    id ∈ db.ids participant ↔ id ∈ db.conversations.map (·.id) ∧ db.selects participant id = true := by
  simp only [Tables.ids, Tables.sorted, List.mem_map, mem_sortDesc, List.mem_filter]
  constructor
  · rintro ⟨c, ⟨hc, hsel⟩, rfl⟩
    exact ⟨⟨c, hc, rfl⟩, hsel⟩
  · rintro ⟨⟨c, hc, rfl⟩, hsel⟩
    exact ⟨c, ⟨hc, hsel⟩, rfl⟩

/-- A row comes in. -/
theorem edits_insert {db' : Tables} {c : ConversationRow} (hdistinct : db'.Distinct)
    (hperm : (db'.conversations.filter fun c => db'.selects participant c.id).Perm
      (c :: db.conversations.filter fun c => db.selects participant c.id))
    (hfresh : c.id ∉ start.ids participant) :
    Edits (· ∉ start.ids participant) (db.ids participant) 0 1 (db'.ids participant) := by
  obtain ⟨A, B, hnew, hold⟩ := sortDesc_of_perm_cons (hdistinct.filter_times _) hperm
  have hids : (db'.ids participant).Nodup := hdistinct.sorted_ids
  simp only [Tables.ids, Tables.sorted] at hids ⊢
  rw [hnew, List.map_append, List.map_cons] at hids ⊢
  rw [hold, List.map_append]
  exact .insert _ _ .nil (List.nodup_cons.mp (List.perm_middle.nodup_iff.mp hids)).1 hfresh

/-- A row goes out. -/
theorem edits_erase {db' : Tables} {c : ConversationRow} (hdistinct : db.Distinct)
    (hperm : (db.conversations.filter fun c => db.selects participant c.id).Perm
      (c :: db'.conversations.filter fun c => db'.selects participant c.id)) :
    Edits (· ∉ start.ids participant) (db.ids participant) 1 0 (db'.ids participant) := by
  obtain ⟨A, B, hold, hnew⟩ := sortDesc_of_perm_cons (hdistinct.filter_times _) hperm
  simp only [Tables.ids, Tables.sorted]
  rw [hnew, hold, List.map_append, List.map_append, List.map_cons]
  exact .erase c.id _ _ .nil

theorem any_id_iff {id : Id} : db.conversations.any (·.id == id) = true ↔ id ∈ db.conversations.map (·.id) := by
  simp only [List.any_eq_true, beq_iff_eq, List.mem_map]

theorem distinct_apply (h : db.Distinct) (hnew : op.New start db) : (db.apply op).Distinct := by
  cases op with
  | create c =>
    simp only [Tables.apply]
    cases hany : db.conversations.any (·.id == c.id) with
    | true => exact h
    | false =>
      have hid : c.id ∉ db.conversations.map (·.id) := fun hmem => by simp [any_id_iff.mpr hmem] at hany
      refine ⟨?_, ?_, fun m hm => ?_⟩
      · simp only [Bool.false_eq_true, if_false, List.map_append, List.map_cons, List.map_nil]
        exact List.nodup_append_comm.mp (List.nodup_cons.mpr ⟨hid, h.ids⟩)
      · simp only [Bool.false_eq_true, if_false, List.map_append, List.map_cons, List.map_nil]
        exact List.nodup_append_comm.mp (List.nodup_cons.mpr ⟨hnew.1, h.times⟩)
      · simp only [Bool.false_eq_true, if_false, List.map_append]
        exact List.mem_append_left _ (h.refs m hm)
  | message m =>
    simp only [Tables.apply]
    cases hany : db.conversations.any (·.id == m.conversationId) with
    | false => exact h
    | true =>
      refine ⟨h.ids, h.times, fun m' hm' => ?_⟩
      rcases List.mem_append.mp hm' with hm' | hm'
      · exact h.refs m' hm'
      · rw [List.mem_singleton.mp hm']
        exact any_id_iff.mp hany
  | rename id title =>
    have hids : ((db.apply (.rename id title)).conversations.map (·.id)) = db.conversations.map (·.id) := by
      simp only [Tables.apply, List.map_map]
      refine List.map_congr_left fun c _ => ?_
      simp only [Function.comp]
      split <;> rfl
    have htimes : ((db.apply (.rename id title)).conversations.map (·.createdAt))
        = db.conversations.map (·.createdAt) := by
      simp only [Tables.apply, List.map_map]
      refine List.map_congr_left fun c _ => ?_
      simp only [Function.comp]
      split <;> rfl
    exact ⟨hids ▸ h.ids, htimes ▸ h.times, fun m hm => hids ▸ h.refs m hm⟩
  | delete id =>
    refine ⟨h.ids.sublist (List.filter_sublist.map _), h.times.sublist (List.filter_sublist.map _), fun m hm => ?_⟩
    obtain ⟨hm, hne⟩ := List.mem_filter.mp hm
    obtain ⟨c, hc, hid⟩ := List.mem_map.mp (h.refs m hm)
    exact List.mem_map.mpr ⟨c, List.mem_filter.mpr ⟨hc, by rw [hid]; exact hne⟩, hid⟩

theorem selects_append {m : Message} {id : Id} :
    ({ db with messages := db.messages ++ [m] } : Tables).selects participant id =
      (given participant).all fun p =>
        db.takesPart p id || m.conversationId == id && (m.sender == p || m.recipient == p) := by
  simp [Tables.selects, Tables.takesPart]

theorem selects_delete {id id' : Id} (hne : id' ≠ id) :
    (db.apply (.delete id)).selects participant id' = db.selects participant id' := by
  simp only [Tables.selects, Tables.takesPart, Tables.apply, List.any_filter]
  congr 1
  funext p
  refine List.any_congr rfl fun m => ?_
  by_cases hm : m.conversationId = id'
  · simp [hm, hne]
  · simp [hm]

theorem keeps_apply (h : Keeps start participant db) (hnew : op.New start db) :
    Keeps start participant (db.apply op) := by
  intro id hid hmem
  cases op with
  | create c =>
    simp only [Tables.apply] at hmem ⊢
    cases hany : db.conversations.any (·.id == c.id) with
    | true =>
      simp only [hany, if_true] at hmem ⊢
      exact h id hid hmem
    | false =>
      simp only [hany, Bool.false_eq_true, if_false, List.map_append, List.mem_append, List.map_cons, List.map_nil,
        List.mem_singleton] at hmem
      have hne : id ≠ c.id := fun heq => hnew.2 (heq ▸ (mem_ids.mp hid).1)
      exact h id hid (hmem.resolve_right hne)
  | message m =>
    simp only [Tables.apply] at hmem ⊢
    cases hany : db.conversations.any (·.id == m.conversationId) with
    | false =>
      simp only [hany, Bool.false_eq_true, if_false] at hmem ⊢
      exact h id hid hmem
    | true =>
      simp only [hany, if_true] at hmem ⊢
      have hold := h id hid hmem
      rw [selects_append]
      simp only [Tables.selects, Option.all_eq_true] at hold ⊢
      intro p hp
      rw [hold p hp, Bool.true_or]
  | rename id' title =>
    refine h id hid ?_
    simp only [Tables.apply, List.map_map] at hmem
    obtain ⟨c, hc, heq⟩ := List.mem_map.mp hmem
    refine List.mem_map.mpr ⟨c, hc, ?_⟩
    rw [← heq]
    simp only [Function.comp]
    split <;> rfl
  | delete id' =>
    obtain ⟨c, hc, rfl⟩ := List.mem_map.mp hmem
    obtain ⟨hc, hne⟩ := List.mem_filter.mp hc
    rw [selects_delete (bne_iff_ne.mp hne)]
    exact h c.id hid (List.mem_map_of_mem hc)

theorem lists_none (h : (db.apply op).ids participant = db.ids participant) : ∃ d i, Lists start participant db op d i :=
  ⟨0, 0, h ▸ .nil, Nat.zero_le _, Nat.zero_le _⟩

/-- No message is for a conversation that is not there yet. -/
theorem not_takesPart (h : db.Distinct) {id : Id} (hid : id ∉ db.conversations.map (·.id)) (p : Text) :
    db.takesPart p id = false := by
  refine List.any_eq_false.mpr fun m hm hmatch => hid ?_
  have hconv := (Bool.and_eq_true _ _ ▸ hmatch).1
  exact eq_of_beq hconv ▸ h.refs m hm

theorem lists_create (h : db.Distinct) {c : ConversationRow} (hnew : Op.New start db (.create c)) :
    ∃ d i, Lists start participant db (.create c) d i := by
  have hdistinct' := distinct_apply h hnew
  cases hany : db.conversations.any (·.id == c.id) with
  | true => exact lists_none (by simp only [Tables.apply, hany, if_true])
  | false =>
    have hid : c.id ∉ db.conversations.map (·.id) := fun hmem => by simp [any_id_iff.mpr hmem] at hany
    have happly : db.apply (.create c) = { db with conversations := db.conversations ++ [c] } := by
      simp only [Tables.apply, hany, Bool.false_eq_true, if_false]
    cases hp : given participant with
    | some p =>
      refine lists_none ?_
      have hsel : db.selects participant c.id = false := by
        simp [Tables.selects, hp, not_takesPart h hid p]
      have hsame : ∀ id, ({ db with conversations := db.conversations ++ [c] } : Tables).selects participant id
          = db.selects participant id := fun id => rfl
      simp only [Tables.ids, Tables.sorted, happly, hsame, List.filter_append]
      rw [List.filter_cons_of_neg (by simp [hsel]), List.filter_nil, List.append_nil]
    | none =>
      have hsel : ∀ (db : Tables) (id : Id), db.selects participant id = true := fun db id => by
        simp [Tables.selects, hp]
      refine ⟨0, 1, edits_insert hdistinct' ?_ fun hmem => hnew.2 (mem_ids.mp hmem).1, Nat.zero_le _, ?_⟩
      · rw [happly]
        simp only [hsel, List.filter_true]
        exact List.perm_append_singleton c db.conversations
      · simp [Op.adds, hp]

theorem lists_message (h : db.Distinct) (hkeeps : Keeps start participant db) (m : Message) :
    ∃ d i, Lists start participant db (.message m) d i := by
  have hdistinct' : (db.apply (.message m)).Distinct := @distinct_apply start db _ h trivial
  cases hany : db.conversations.any (·.id == m.conversationId) with
  | false => exact lists_none (by simp only [Tables.apply, hany, Bool.false_eq_true, if_false])
  | true =>
    have happly : db.apply (.message m) = { db with messages := db.messages ++ [m] } := by
      simp only [Tables.apply, hany, if_true]
    obtain ⟨c, hc, hcid⟩ := List.mem_map.mp (any_id_iff.mp hany)
    -- conversations other than the message's are chosen as before
    have hothers : ∀ id, id ≠ m.conversationId →
        (db.apply (.message m)).selects participant id = db.selects participant id := by
      intro id hne
      rw [happly, selects_append]
      simp only [Tables.selects, beq_eq_false_iff_ne.mpr (Ne.symm hne), Bool.false_and, Bool.or_false]
    cases hold : db.selects participant c.id with
    | true =>
      have hc' : (db.apply (.message m)).selects participant c.id = true := by
        rw [happly, selects_append]
        simp only [Tables.selects, Option.all_eq_true] at hold ⊢
        intro p hp
        rw [hold p hp, Bool.true_or]
      refine lists_none ?_
      simp only [Tables.ids, Tables.sorted]
      have hsame : ∀ x ∈ db.conversations, (db.apply (.message m)).selects participant x.id
          = db.selects participant x.id := by
        intro x _
        by_cases hx : x.id = m.conversationId
        · rw [hx, ← hcid, hc', hold]
        · exact hothers x.id hx
      have hconvs : (db.apply (.message m)).conversations = db.conversations := by rw [happly]
      rw [hconvs, List.filter_congr hsame]
    | false =>
      cases hnow : (db.apply (.message m)).selects participant c.id with
      | false =>
        refine lists_none ?_
        simp only [Tables.ids, Tables.sorted]
        have hsame : ∀ x ∈ db.conversations, (db.apply (.message m)).selects participant x.id
            = db.selects participant x.id := by
          intro x _
          by_cases hx : x.id = m.conversationId
          · rw [hx, ← hcid, hnow, hold]
          · exact hothers x.id hx
        have hconvs : (db.apply (.message m)).conversations = db.conversations := by rw [happly]
        rw [hconvs, List.filter_congr hsame]
      | true =>
        have hfresh : c.id ∉ start.ids participant := fun hmem => by
          have := hkeeps c.id hmem (List.mem_map_of_mem hc)
          rw [hold] at this
          cases this
        refine ⟨0, 1, edits_insert (c := c) hdistinct' ?_ hfresh, Nat.zero_le _, ?_⟩
        · have hconvs : (db.apply (.message m)).conversations = db.conversations := by rw [happly]
          rw [hconvs]
          exact filter_perm_cons (p := fun c => db.selects participant c.id)
            (q := fun c => (db.apply (.message m)).selects participant c.id) h.ids hc hold hnow
            fun x _ hx => hothers x.id (hcid ▸ hx)
        · cases hp : given participant with
          | some p => simp [Op.adds, hp]
          | none => simp [Tables.selects, hp] at hold

theorem lists_rename (h : db.Distinct) (id : Id) (title : Text) :
    ∃ d i, Lists start participant db (.rename id title) d i := by
  have hdistinct' : (db.apply (.rename id title)).Distinct := @distinct_apply start db _ h trivial
  refine lists_none ?_
  generalize hf : (fun c : ConversationRow => if c.id = id then { c with title := some title } else c) = f
  have hfid : ∀ c, (f c).id = c.id := fun c => by
    rw [← hf]
    dsimp only
    split <;> rfl
  have hftime : ∀ c, (f c).createdAt = c.createdAt := fun c => by
    rw [← hf]
    dsimp only
    split <;> rfl
  have happly : db.apply (.rename id title) = { db with conversations := db.conversations.map f } := by
    simp only [Tables.apply, hf]
  have hrows : (db.apply (.rename id title)).sorted participant = (db.sorted participant).map f := by
    refine (sortDesc_eq (hdistinct'.filter_times _) ?_ ?_).symm
    · simp only [happly, Tables.sorted, List.filter_map, Function.comp_def, hfid]
      exact (sortDesc_perm _ _).map f
    · refine List.pairwise_map.mpr ((sortDesc_sorted _ _).imp fun hab => ?_)
      rw [hftime, hftime]
      exact hab
  simp only [Tables.ids, hrows, List.map_map]
  exact List.map_congr_left fun c _ => hfid c

theorem lists_delete (h : db.Distinct) (id : Id) : ∃ d i, Lists start participant db (.delete id) d i := by
  have hrows : ((db.apply (.delete id)).conversations.filter fun c =>
      (db.apply (.delete id)).selects participant c.id)
      = (db.conversations.filter fun c => db.selects participant c.id).filter (·.id != id) := by
    rw [List.filter_filter]
    simp only [Tables.apply, List.filter_filter]
    refine List.filter_congr fun c _ => ?_
    by_cases hc : c.id = id
    · simp [hc]
    · have hsame := @selects_delete db participant _ _ hc
      simp only [Tables.apply] at hsame
      rw [hsame, Bool.and_comm]
  by_cases hmem : ∃ c ∈ db.conversations.filter (fun c => db.selects participant c.id), c.id = id
  · obtain ⟨c, hc, rfl⟩ := hmem
    refine ⟨1, 0, edits_erase (c := c) h ?_, by simp [Op.isDelete], Nat.zero_le _⟩
    rw [hrows]
    obtain ⟨A, B, hsplit⟩ := List.append_of_mem hc
    rw [hsplit]
    have hids : ((A ++ c :: B).map (·.id)).Nodup := hsplit ▸ h.ids.sublist (List.filter_sublist.map _)
    have hnot : ∀ x ∈ A ++ B, x.id ≠ c.id := by
      rw [List.map_append, List.map_cons] at hids
      have hfresh := (List.nodup_cons.mp (List.perm_middle.nodup_iff.mp hids)).1
      rw [← List.map_append] at hfresh
      exact fun x hx heq => hfresh (heq ▸ List.mem_map_of_mem hx)
    have hkept : (A ++ c :: B).filter (·.id != c.id) = A ++ B := by
      rw [List.filter_append, List.filter_cons_of_neg (by simp),
        List.filter_eq_self.mpr fun x hx => bne_iff_ne.mpr (hnot x (List.mem_append_left _ hx)),
        List.filter_eq_self.mpr fun x hx => bne_iff_ne.mpr (hnot x (List.mem_append_right _ hx))]
    rw [hkept]
    exact List.perm_middle
  · refine lists_none ?_
    simp only [Tables.ids, Tables.sorted]
    rw [hrows, List.filter_eq_self.mpr fun x hx => bne_iff_ne.mpr fun heq => hmem ⟨x, hx, heq⟩]

theorem lists_apply (h : db.Distinct) (hkeeps : Keeps start participant db) (hnew : op.New start db) :
    ∃ d i, Lists start participant db op d i := by
  cases op with
  | create c => exact lists_create h hnew
  | message m => exact lists_message h hkeeps m
  | rename id title => exact lists_rename h id title
  | delete id => exact lists_delete h id

end

/-! ## The reader -/

section

variable {start db : Tables} {participant : Option Text} {limit offset : Nat} {batches : List (List Op)}

/-- Every operation of the batches is new when its turn comes. -/
def AllNew (start : Tables) : Tables → List Op → Prop
  | _, [] => True
  | db, op :: ops => op.New start db ∧ AllNew start (db.apply op) ops

/-- What holds whenever a page is read. -/
structure Reading (start : Tables) (participant : Option Text) (db : Tables) : Prop where
  distinct : db.Distinct
  keeps : Keeps start participant db

theorem reading_run {ops : List Op} (h : Reading start participant db) (hnew : AllNew start db ops) :
    Reading start participant (ops.foldl Tables.apply db) ∧
      ∃ d i, Edits (· ∉ start.ids participant) (db.ids participant) d i ((ops.foldl Tables.apply db).ids participant) ∧
        d ≤ ops.countP Op.isDelete ∧ i ≤ ops.countP (Op.adds participant) := by
  induction ops generalizing db with
  | nil => exact ⟨h, 0, 0, .nil, Nat.le_refl _, Nat.le_refl _⟩
  | cons op ops ih =>
    obtain ⟨d, i, hone⟩ := lists_apply h.distinct h.keeps hnew.1
    obtain ⟨hend, d', i', hedits, hd', hi'⟩ :=
      ih ⟨distinct_apply h.distinct hnew.1, keeps_apply h.keeps hnew.1⟩ hnew.2
    refine ⟨hend, d + d', i + i', hone.edits.trans hedits, ?_, ?_⟩
    · have hd := hone.deletes_le
      rw [List.countP_cons]
      cases hop : op.isDelete <;> simp only [hop, Bool.toNat_false, Bool.toNat_true] at hd <;> simp <;> omega
    · have hi := hone.inserts_le
      rw [List.countP_cons]
      cases hop : op.adds participant <;> simp only [hop, Bool.toNat_false, Bool.toNat_true] at hi <;> simp <;> omega

/-- The ids of the pages, read from the list of ids as it changes. -/
theorem reads_pages (h : Reading start participant db) (hnew : AllNew start db batches.flatten) :
    ∃ d i, Reads (· ∉ start.ids participant) limit ((batches.flatten.foldl Tables.apply db).ids participant) offset
        (db.ids participant) ((readPages participant limit offset db batches).map fun pg => pg.map (·.id)) d i ∧
      d ≤ batches.flatten.countP Op.isDelete ∧ i ≤ batches.flatten.countP (Op.adds participant) := by
  have hpage : ∀ (db : Tables) (offset : Nat),
      (listConversations db participant limit offset).map (·.id) = page limit offset (db.ids participant) := by
    intro db offset
    simp only [listConversations, page, Tables.ids, List.map_map, List.map_take, List.map_drop]
    rfl
  have hsplit : ∀ {db : Tables} {ops ops' : List Op}, AllNew start db (ops ++ ops') →
      AllNew start db ops ∧ AllNew start (ops.foldl Tables.apply db) ops' := by
    intro db ops ops' hall
    induction ops generalizing db with
    | nil => exact ⟨trivial, hall⟩
    | cons op ops ih => exact ⟨⟨hall.1, (ih hall.2).1⟩, (ih hall.2).2⟩
  induction batches generalizing db offset with
  | nil =>
    refine ⟨0, 0, ?_, Nat.le_refl _, Nat.le_refl _⟩
    simp only [readPages, List.map_cons, List.map_nil, hpage]
    exact .last
  | cons ops batches ih =>
    rw [List.flatten_cons] at hnew
    obtain ⟨hops, hrest⟩ := hsplit hnew
    obtain ⟨hnext, d, i, hedits, hd, hi⟩ := reading_run h hops
    obtain ⟨d', i', hreads, hd', hi'⟩ := @ih _ (offset + limit) hnext hrest
    refine ⟨d + d', i + i', ?_, ?_, ?_⟩
    · simp only [readPages, List.map_cons, hpage, List.flatten_cons, List.foldl_append]
      exact .more hedits hreads
    · rw [List.flatten_cons, List.countP_append]
      omega
    · rw [List.flatten_cons, List.countP_append]
      omega

theorem reading_start (h : start.Distinct) : Reading start participant start :=
  ⟨h, fun _ hid _ => (mem_ids.mp hid).2⟩

theorem length_readPages : (readPages participant limit offset db batches).length = batches.length + 1 := by
  induction batches generalizing db offset with
  | nil => rfl
  | cons ops batches ih => simp only [readPages, List.length_cons, ih]

/-- **Pages miss little.** A reader that goes on to a page that is short misses, of the
conversations listed at the start and still listed at the end, at most one for each
deletion in between. -/
theorem pages_miss (h : start.Distinct) (hnew : AllNew start start batches.flatten)
    (hshort : ((batches.flatten.foldl Tables.apply start).ids participant).length ≤ (batches.length + 1) * limit) :
    ((batches.flatten.foldl Tables.apply start).ids participant).countP (fun id =>
        decide (id ∈ start.ids participant) &&
          decide (id ∉ ((readPages participant limit 0 start batches).map fun pg => pg.map (·.id)).flatten))
      ≤ batches.flatten.countP Op.isDelete := by
  obtain ⟨d, i, hreads, hd, -⟩ := @reads_pages start start participant limit 0 batches (reading_start h) hnew
  have hmiss := hreads.missed_le (fun x hx => hx) (by rw [List.length_map, length_readPages]; exact hshort)
  exact Nat.le_trans hmiss hd

/-- **Pages repeat little.** Of the entries on the pages at most as many have been on
an earlier page as operations in between brought conversations into the list. -/
theorem pages_repeat (h : start.Distinct) (hnew : AllNew start start batches.flatten) :
    repeats [] ((readPages participant limit 0 start batches).map fun pg => pg.map (·.id)) ≤
      batches.flatten.countP (Op.adds participant) := by
  obtain ⟨d, i, hreads, -, hi⟩ := @reads_pages start start participant limit 0 batches (reading_start h) hnew
  exact Nat.le_trans (hreads.repeats_le h.sorted_ids) hi

end

/-! ### Three conversations -/

def threeRows : Tables :=
  { conversations := [{ id := 1, createdAt := 1 }, { id := 2, createdAt := 2 }, { id := 3, createdAt := 3 }] }

theorem threeRows_distinct : threeRows.Distinct :=
  ⟨by decide, by decide, fun _ hm => absurd hm (by simp [threeRows])⟩

/-- After the first page its conversation is deleted, and 2 is missed. -/
theorem pages_miss_one :
    (readPages none 1 0 threeRows [[.delete 3], []]).map (fun pg => pg.map (·.id)) = [[3], [1], []] ∧
    (((threeRows.apply (.delete 3)).ids none).countP fun id => decide (id ∈ threeRows.ids none) &&
      decide (id ∉ ((readPages none 1 0 threeRows [[.delete 3], []]).map fun pg => pg.map (·.id)).flatten)) ≤ 1 :=
  ⟨by decide, pages_miss threeRows_distinct ⟨trivial, trivial⟩ (by decide)⟩

/-- After the first page one more is created, and 3 is seen again. -/
theorem pages_repeat_one :
    (readPages none 1 0 threeRows [[.create { id := 4, createdAt := 4 }]]).map (fun pg => pg.map (·.id)) = [[3], [3]] ∧
      repeats [] ((readPages none 1 0 threeRows [[.create { id := 4, createdAt := 4 }]]).map
        fun pg => pg.map (·.id)) ≤ 1 :=
  ⟨by decide, pages_repeat threeRows_distinct ⟨⟨by decide, by decide⟩, trivial⟩⟩

end ContextBroker.ConversationList
