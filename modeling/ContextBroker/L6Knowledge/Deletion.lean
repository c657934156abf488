import ContextBroker.Core.ForeignKeys
import ContextBroker.L1Data.Quality
import ContextBroker.L3Assembly.Runs

/-!
# Deleting a conversation

`delete_conversation_node` empties four tables in one transaction. A fifth,
the quality metadata, refers to conversations without `ON DELETE CASCADE` and
is not among them.

A run is any mixture of broker events, metadata and feedback writes.
`delete_iff`: in every state of a run, deleting a conversation works and
leaves nothing behind exactly when no metadata row refers to it.
-/
namespace ContextBroker.Deletion

open ForeignKeys

/-! ## Runs -/

structure Tables extends Db, QualityTables

inductive Write where
  | event (e : Event)
  | metadata (fault : Option Exn) (now : Time) (fields : MetadataFields) (conversationId : Option Id)
  | feedback (fault : Option Exn) (ev : FeedbackEvent)

def Write.apply (s : Tables) : Write → Tables
  | .event e => { s with toDb := e.apply s.toDb }
  | .metadata fault now fields conversationId =>
    { s with toQualityTables := (s.writeMetadata (fun c => (s.conversation? c).isSome) fault now fields
        conversationId).1 }
  | .feedback fault ev => { s with toQualityTables := (s.recordFeedback fault ev).1 }

def history : Machine Tables Write := ⟨{}, Write.apply⟩

theorem valid_history (ws : List Write) : Valid (history.run ws).toDb := by
  refine Machine.run_inv (M := history) (P := fun s => Valid s.toDb) .empty (fun s w hv => ?_) ws
  cases w with
  | event e => exact valid_apply hv e
  | metadata fault now fields conversationId => exact hv
  | feedback fault ev => exact hv

/-! ## delete_conversation_node -/

inductive Site where
  | summaries | windows | messages | conversation | commit
  deriving DecidableEq, Repr

section

variable (fault : Site → Option Exn) (c : Id)

def call (site : Site) {α : Type} (x : Except Exn α) : Except Exn α :=
  match fault site with
  | some e => .error e
  | none => x

/-- Nothing refers to summaries. mirrors conversation_ops_flow.py:756-760 -/
def deleteSummaries (s : Tables) : Tables :=
  { s with summaries := s.summaries.filter fun r =>
      !s.windows.any fun x => x.conversationId == c && x.id == r.contextWindowId }

/-- mirrors conversation_ops_flow.py:762-765 -/
def deleteWindows (s : Tables) : Except Exn Tables := do
  let windows ← deleteWhere s.windows (·.conversationId == c)
    (fun x => s.summaries.any (·.contextWindowId == x.id)) .postgresError
  return { s with windows }

/-- Nothing refers to messages. mirrors conversation_ops_flow.py:766-769 -/
def deleteMessages (s : Tables) : Tables :=
  { s with messages := s.messages.filter fun m => !(m.conversationId == c) }

/-- The tables with a foreign key to conversations.
mirrors postgres/init.sql:50,97,130, app/migrations.py:577 -/
def Tables.refersTo (s : Tables) (x : Conversation) : Bool :=
  s.messages.any (·.conversationId == x.id) || s.windows.any (·.conversationId == x.id) ||
    s.summaries.any (·.conversationId == x.id) || s.metadata.any (·.conversationId == x.id)

/-- mirrors conversation_ops_flow.py:770-773 -/
def deleteConversationRow (s : Tables) : Except Exn Tables := do
  let conversations ← deleteWhere s.conversations (·.id == c) s.refersTo .postgresError
  return { s with conversations }

/-- `{"deleted": result == "DELETE 1"}`.
mirrors conversation_ops_flow.py:746-774 -/
def deleteConversationNode (s : Tables) : Tables × Except Exn Bool :=
  let out := transaction
    [fun s => call fault .summaries (.ok (deleteSummaries c s)),
      fun s => call fault .windows (deleteWindows c s),
      fun s => call fault .messages (.ok (deleteMessages c s)),
      fun s => call fault .conversation (deleteConversationRow c s),
      fun s => call fault .commit (.ok s)] s
  (out.1, out.2.map fun _ => (s.conversation? c).isSome)

end

/-- No row refers to conversation `c`, or to a window it had. -/
structure Gone (before after : Tables) (c : Id) : Prop where
  conversation : after.conversation? c = none
  messages : ∀ m ∈ after.messages, m.conversationId ≠ c
  windows : ∀ x ∈ after.windows, x.conversationId ≠ c
  summaries : ∀ r ∈ after.summaries, r.conversationId ≠ c ∧
    ∀ x ∈ before.windows, x.conversationId = c → r.contextWindowId ≠ x.id
  metadata : ∀ q ∈ after.metadata, q.conversationId ≠ c

/-! ## What it does -/

section

variable {fault : Site → Option Exn} {c : Id} {s s' : Tables}

/-- A deletion that fails changes nothing. -/
theorem deleteConversationNode_error {after : Tables} {e : Exn}
    (h : deleteConversationNode fault c s = (after, .error e)) : after = s := by
  unfold deleteConversationNode at h
  obtain ⟨hafter, hout⟩ := Prod.mk.inj h
  rw [← hafter]
  generalize hrun : transaction _ s = out at hout ⊢
  obtain ⟨t, r⟩ := out
  cases r with
  | ok _ => cases hout
  | error e' =>
    have hsame := transaction_error (congrArg Prod.snd hrun)
    rw [hrun] at hsame
    exact hsame

/-- The tables after the first three statements. -/
def emptied (c : Id) (s : Tables) : Tables :=
  deleteMessages c { deleteSummaries c s with windows := s.windows.filter fun x => !(x.conversationId == c) }

/-- And after the last. -/
def without (c : Id) (s : Tables) : Tables :=
  { emptied c s with conversations := s.conversations.filter fun x => !(x.id == c) }

/-- A summary of `c` is a summary of one of its windows. -/
theorem deleteSummaries_other (hv : Valid s.toDb) {r : Summary} (hr : r ∈ (deleteSummaries c s).summaries) :
    r.conversationId ≠ c ∧ ∀ x ∈ s.windows, x.conversationId = c → r.contextWindowId ≠ x.id := by
  obtain ⟨hmem, hkept⟩ := List.mem_filter.mp hr
  have hnone : ∀ x ∈ s.windows, x.conversationId = c → r.contextWindowId ≠ x.id := by
    intro x hx hxc hw
    have hany : s.windows.any (fun x => x.conversationId == c && x.id == r.contextWindowId) = true :=
      List.any_eq_true.mpr ⟨x, hx, by simp [hxc, hw]⟩
    simp [hany] at hkept
  refine ⟨fun hrc => ?_, hnone⟩
  obtain ⟨x, hx, hxc⟩ := hv.owner r hmem
  exact hnone x (List.mem_of_find?_eq_some hx) (hxc.trans hrc) (eq_of_beq (List.find?_some hx :)).symm

theorem deleteWindows_ok (c : Id) (s : Tables) :
    deleteWindows c (deleteSummaries c s) = .ok { deleteSummaries c s with
      windows := s.windows.filter fun x => !(x.conversationId == c) } := by
  unfold deleteWindows
  have hdelete : deleteWhere (deleteSummaries c s).windows (·.conversationId == c)
      (fun x => (deleteSummaries c s).summaries.any (·.contextWindowId == x.id)) Exn.postgresError =
        .ok (s.windows.filter fun x => !(x.conversationId == c)) := by
    refine deleteWhere_eq_ok.mpr ⟨fun x hx hxc => ?_, rfl⟩
    refine List.any_eq_false.mpr fun r hr => ?_
    obtain ⟨_, hkept⟩ := List.mem_filter.mp hr
    intro hw
    have hany : s.windows.any (fun x => x.conversationId == c && x.id == r.contextWindowId) = true :=
      List.any_eq_true.mpr ⟨x, hx, by simp [hxc, eq_of_beq hw]⟩
    simp [hany] at hkept
  rw [hdelete]
  rfl

/-- With the other rows gone, the conversation is referred to exactly when a
metadata row refers to it. -/
theorem refersTo_emptied (hv : Valid s.toDb) {x : Conversation} (hx : x.id = c) :
    (emptied c s).refersTo x = s.metadata.any (·.conversationId == c) := by
  subst hx
  have hmessages : (emptied x.id s).messages.any (·.conversationId == x.id) = false := by
    refine List.any_eq_false.mpr fun m hm => ?_
    simpa using (List.mem_filter.mp hm).2
  have hwindows : (emptied x.id s).windows.any (·.conversationId == x.id) = false := by
    refine List.any_eq_false.mpr fun y hy => ?_
    simpa using (List.mem_filter.mp hy).2
  have hsummaries : (emptied x.id s).summaries.any (·.conversationId == x.id) = false := by
    refine List.any_eq_false.mpr fun r hr => ?_
    simpa using (deleteSummaries_other hv hr).1
  rw [Tables.refersTo, hmessages, hwindows, hsummaries]
  rfl

theorem deleteConversationRow_ok (hv : Valid s.toDb) (hmeta : ∀ q ∈ s.metadata, q.conversationId ≠ c) :
    deleteConversationRow c (emptied c s) = .ok (without c s) := by
  have hdelete : deleteWhere (emptied c s).conversations (·.id == c) (emptied c s).refersTo Exn.postgresError =
      .ok (s.conversations.filter fun x => !(x.id == c)) := by
    refine deleteWhere_eq_ok.mpr ⟨fun x _ hx => ?_, rfl⟩
    rw [refersTo_emptied hv (eq_of_beq hx)]
    exact List.any_eq_false.mpr fun q hq => by simpa using hmeta q hq
  rw [deleteConversationRow, hdelete]
  rfl

/-- **A deletion without faults** of a conversation without metadata. -/
theorem deleteConversationNode_ok (hv : Valid s.toDb) (hc : (s.conversation? c).isSome = true)
    (hcalm : ∀ site, fault site = none) (hmeta : ∀ q ∈ s.metadata, q.conversationId ≠ c) :
    deleteConversationNode fault c s = (without c s, .ok true) := by
  have hcall : ∀ site (x : Except Exn Tables), call fault site x = x := by
    intro site x
    rw [call, hcalm site]
  have hrun : transaction
      [fun s => call fault .summaries (.ok (deleteSummaries c s)),
        fun s => call fault .windows (deleteWindows c s),
        fun s => call fault .messages (.ok (deleteMessages c s)),
        fun s => call fault .conversation (deleteConversationRow c s),
        fun s => call fault .commit (.ok s)] s = (without c s, .ok ()) := by
    refine transaction_ok.mpr ?_
    simp only [List.foldlM_cons, List.foldlM_nil, hcall, bind, Except.bind, deleteWindows_ok]
    show (deleteConversationRow c (emptied c s)).bind (fun t => .ok t) = _
    rw [deleteConversationRow_ok hv hmeta]
    rfl
  rw [deleteConversationNode, hrun]
  simp [hc, Except.map]

theorem without_gone (hv : Valid s.toDb) (hmeta : ∀ q ∈ s.metadata, q.conversationId ≠ c) :
    Gone s (without c s) c where
  conversation := by
    refine List.find?_eq_none.mpr fun x hx => ?_
    simpa using (List.mem_filter.mp hx).2
  messages := fun m hm => by simpa using (List.mem_filter.mp hm).2
  windows := fun x hx => by simpa using (List.mem_filter.mp hx).2
  summaries := fun r hr => deleteSummaries_other hv hr
  metadata := hmeta

/-- The transaction keeps the metadata table. -/
theorem deleteConversationNode_metadata {after : Tables} {r : Except Exn Bool}
    (h : deleteConversationNode fault c s = (after, r)) : after.metadata = s.metadata := by
  have hcall : ∀ (site : Site) (x : Except Exn Tables) (t : Tables), call fault site x = .ok t → x = .ok t := by
    intro site x t hx
    unfold call at hx
    split at hx
    · cases hx
    · exact hx
  obtain rfl : (deleteConversationNode fault c s).1 = after := congrArg Prod.fst h
  refine transaction_inv (P := fun t : Tables => t.metadata = s.metadata) (fun statement hmem t t' ht hok => ?_) rfl
  simp only [List.mem_cons, List.not_mem_nil, or_false] at hmem
  rcases hmem with rfl | rfl | rfl | rfl | rfl
  · obtain rfl := Except.ok.inj (hcall _ _ _ hok)
    exact ht
  · obtain ⟨windows, _, hok⟩ := bind_eq_ok.mp (hcall _ _ _ hok)
    obtain rfl := Except.ok.inj hok
    exact ht
  · obtain rfl := Except.ok.inj (hcall _ _ _ hok)
    exact ht
  · obtain ⟨conversations, _, hok⟩ := bind_eq_ok.mp (hcall _ _ _ hok)
    obtain rfl := Except.ok.inj hok
    exact ht
  · obtain rfl := Except.ok.inj (hcall _ _ _ hok)
    exact ht

end

/-- **Deleting a conversation**, in every state a run reaches. It commits and
nothing is left that refers to the conversation, and a failure changes
nothing, exactly when there is no metadata row of that conversation. -/
theorem delete_iff (ws : List Write) (c : Id) (hc : ((history.run ws).conversation? c).isSome = true) :
    ((∃ after, deleteConversationNode (fun _ => none) c (history.run ws) = (after, .ok true) ∧
        Gone (history.run ws) after c) ∧
      ∀ fault after e, deleteConversationNode fault c (history.run ws) = (after, .error e) →
        after = history.run ws) ↔
      ∀ q ∈ (history.run ws).metadata, q.conversationId ≠ c := by
  have hv := valid_history ws
  constructor
  · intro h
    obtain ⟨⟨after, hout, hgone⟩, _⟩ := h
    rw [← deleteConversationNode_metadata hout]
    exact hgone.metadata
  · intro hmeta
    refine ⟨⟨without c (history.run ws), ?_, without_gone hv hmeta⟩, fun fault after e h => ?_⟩
    · exact deleteConversationNode_ok hv hc (fun _ => rfl) hmeta
    · exact deleteConversationNode_error h

/-- A user says hello in conversation 0. -/
def greeted : List Write := [.event (.createConversation none 0), .event (say "ann" 5)]

theorem delete_iff_greeted :
    (∃ after, deleteConversationNode (fun _ => none) 0 (history.run greeted) = (after, .ok true) ∧
        Gone (history.run greeted) after 0) ∧
      ∀ fault after e, deleteConversationNode fault 0 (history.run greeted) = (after, .error e) →
        after = history.run greeted :=
  (delete_iff greeted 0 (by decide +kernel)).mpr (by decide +kernel)

/-- And a fact is extracted from it. -/
def extracted : List Write :=
  greeted ++ [.metadata none 1 { target := (.fact, 7), extractionModel := [], userId := "ann".toList } (some 0)]

/-- The conversation can not be deleted any more. -/
theorem delete_commits_false :
    ¬ ∀ (ws : List Write) (c : Id), ((history.run ws).conversation? c).isSome = true →
      ∃ after, deleteConversationNode (fun _ => none) c (history.run ws) = (after, .ok true) ∧
        Gone (history.run ws) after c := by
  intro h
  obtain ⟨after, hout, _⟩ := h extracted 0 (by decide +kernel)
  have hfails : (deleteConversationNode (fun _ => none) 0 (history.run extracted)).2.isOk = false := by
    decide +kernel
  rw [hout] at hfails
  cases hfails

end ContextBroker.Deletion
