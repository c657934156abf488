import ContextBroker.Core.RunLength
import ContextBroker.L2Store.MessagePipeline

/-!
# Collapsed messages

Both store paths collapse a message into the last row of its conversation
when sender and content are the same: the rows of a conversation are runs
(`Core.RunLength`) of the accepted messages, with `sameMessage` as the test.
The other columns of a row are those of the first message of its run.

`runs_storeAll`: stores extend the runs of a conversation by the messages it
accepted. This needs every message id to be drawn once, since the collapse is
an UPDATE by id, and counts to start at 1 (`Db.Tracked`).
-/
namespace ContextBroker

open Rows RunLength

/-- The columns a row takes from the message it was inserted for. -/
structure Payload where
  role : Role
  sender : Text
  recipient : Text
  content : Option Text
  toolCalls : Option Text
  toolCallId : Option Text
  modelName : Option Text
  deriving DecidableEq, Repr

def Message.payload (m : Message) : Payload :=
  ⟨m.role, m.sender, m.recipient, m.content, m.toolCalls, m.toolCallId, m.modelName⟩

/-- After reclassification and with the default recipient. -/
def StoreInput.payload (inp : StoreInput) : Payload :=
  let role := detectToolErrorRole inp.content inp.role
  ⟨role, inp.sender, resolveRecipient role inp.recipient, inp.content, inp.toolCalls, inp.toolCallId,
    inp.modelName⟩

def promptPayload (text : Text) : Payload :=
  ⟨.user, "user".toList, "assistant".toList, some text, none, none, none⟩

/-- Same sender, same content, and the content is not null. -/
def sameMessage (a x : Payload) : Bool := a.sender == x.sender && a.content == x.content && x.content.isSome

/-- What a store adds, and to which conversation. -/
def Store.accepted (db : Db) : Store → Option (Id × Payload)
  | .message now inp =>
    match (storeMessage now db inp).1 with
    | .ok result => some (result.conversationId, inp.payload)
    | .error _ => none
  | .prompt now c text =>
    match storePrompt now db c text with
    | .ok _ => some (c, promptPayload text)
    | .error _ => none

/-- The messages conversation `c` accepts from `stores`, in order. -/
def Db.accepted (db : Db) (c : Id) : List Store → List Payload
  | [] => []
  | s :: rest =>
    match s.accepted db with
    | some (c', x) => if c' = c then x :: (db.store s).accepted c rest else (db.store s).accepted c rest
    | none => (db.store s).accepted c rest

/-- The rows of conversation `c` as runs. -/
def Db.runs (db : Db) (c : Id) : List (Payload × Nat) :=
  (db.messagesOf c).map fun m => (m.payload, m.repeatCount)

/-- Every row replaced with `repeat_count` copies of its message. -/
def Db.unrolled (db : Db) (c : Id) : List Payload := expand (db.runs c)

/-- Message ids are drawn once, and counts start at 1. -/
structure Db.Tracked (db : Db) : Prop where
  nodup : (db.messages.map (·.id)).Nodup
  ids : ∀ m ∈ db.messages, m.id < db.nextId
  counts : ∀ m ∈ db.messages, 0 < m.repeatCount

section

variable {db db' : Db} {c : Id} {s : Store} {x : Payload}

theorem sameMessage_iff {a x : Payload} :
    sameMessage a x = true ↔ a.sender = x.sender ∧ a.content = x.content ∧ x.content.isSome = true := by
  simp [sameMessage, and_assoc]

/-- Messages that repeat the same one repeat each other. -/
theorem sameMessage_euclid (a x y : Payload) (h : sameMessage a x = true) (h' : sameMessage a y = true) :
    sameMessage x y = true := by
  rw [sameMessage_iff] at h h' ⊢
  exact ⟨h.1.symm.trans h'.1, h.2.1.symm.trans h'.2.1, h'.2.2⟩

/-! ## One store -/

/-- What a store does to the messages, with what it accepts. -/
inductive StoreCase (db : Db) : Option (Id × Payload) → Db → Prop where
  | refused : StoreCase db none db
  | collapsed (c : Id) (x : Payload) (last : Message) (n : Nat) (convs : List Conversation)
      (hlast : db.lastMessage c = some last) (hsame : sameMessage last.payload x = true)
      (hn : 0 < last.repeatCount → n = last.repeatCount + 1) (hpos : 0 < n) :
      StoreCase db (some (c, x)) { db.setRepeatCount last.id n with conversations := convs }
  | inserted (row : Message) (convs : List Conversation)
      (hlast : ∀ last, db.lastMessage row.conversationId = some last →
        sameMessage last.payload row.payload = false)
      (hid : row.id = db.nextId) (hone : row.repeatCount = 1) :
      StoreCase db (some (row.conversationId, row.payload))
        { db with conversations := convs, messages := db.messages ++ [row], nextId := db.nextId + 1 }

theorem filter_eq_none {α : Type} {o : Option α} {p : α → Bool} (h : o.filter p = none) :
    ∀ a, o = some a → p a = false := by
  rintro a rfl
  cases hp : p a with
  | false => rfl
  | true =>
    rw [Option.filter_some, hp] at h
    cases h

theorem store_cases (db : Db) (s : Store) : StoreCase db (s.accepted db) (db.store s) := by
  cases s with
  | message now inp =>
    simp only [Db.store, Store.accepted, storeMessage]
    cases resolveConversation db inp with
    | error e => exact .refused
    | ok c =>
      by_cases hconv : (db.conversation? c).isNone = true
      · simp only [if_pos hconv]
        exact .refused
      · simp only [if_neg hconv]
        cases hlast : (db.lastMessage c).filter (collapses · inp) with
        | some last =>
          obtain ⟨hlast, hsame⟩ := Option.filter_eq_some_iff.mp hlast
          refine .collapsed c inp.payload last _ _ hlast hsame (fun hpos => ?_) (Nat.succ_pos _)
          rw [if_neg (by omega)]
        | none =>
          cases hins : db.insertMessage (storeRow now db c inp) with
          | error e => exact .refused
          | ok db' =>
            obtain ⟨_, _, rfl⟩ := Db.insertMessage_eq_ok.mp hins
            exact .inserted { storeRow now db c inp with id := db.nextId } _ (filter_eq_none hlast) rfl rfl
  | prompt now c text =>
    have hsame : ∀ m : Message, (m.sender == "user".toList && m.content == some text) =
        sameMessage m.payload (promptPayload text) := by
      intro m
      simp [sameMessage, promptPayload, Message.payload]
    simp only [Db.store, Store.accepted, storePrompt, hsame]
    cases hlast : (db.lastMessage c).filter (fun m => sameMessage m.payload (promptPayload text)) with
    | some last =>
      obtain ⟨hlast, hsame⟩ := Option.filter_eq_some_iff.mp hlast
      exact .collapsed c (promptPayload text) last _ db.conversations hlast hsame (fun _ => rfl)
        (Nat.succ_pos _)
    | none =>
      cases hins : db.insertMessage (promptRow now db c text) with
      | error e => exact .refused
      | ok db' =>
        obtain ⟨_, _, rfl⟩ := Db.insertMessage_eq_ok.mp hins
        exact .inserted { promptRow now db c text with id := db.nextId } _ (filter_eq_none hlast) rfl rfl

theorem ids_setRepeatCount (db : Db) (id : Id) (n : Nat) :
    (db.setRepeatCount id n).messages.map (·.id) = db.messages.map (·.id) := by
  simp only [Db.setRepeatCount, List.map_map]
  refine List.map_congr_left fun m _ => ?_
  simp only [Function.comp]
  split <;> rfl

theorem StoreCase.tracked {e : Option (Id × Payload)} (h : StoreCase db e db') (hdb : db.Tracked) :
    db'.Tracked := by
  cases h with
  | refused => exact hdb
  | collapsed c x last n convs _ _ _ hpos =>
    refine ⟨(ids_setRepeatCount db last.id n).symm ▸ hdb.nodup, fun m hm => ?_, fun m hm => ?_⟩
    · obtain ⟨m', hm', rfl⟩ := List.mem_map.mp hm
      have := hdb.ids m' hm'
      split <;> exact this
    · obtain ⟨m', hm', rfl⟩ := List.mem_map.mp hm
      have := hdb.counts m' hm'
      split
      · exact hpos
      · exact this
  | inserted row convs _ hid hone =>
    refine ⟨?_, fun m hm => ?_, fun m hm => ?_⟩
    · rw [List.map_append, List.nodup_append]
      refine ⟨hdb.nodup, List.nodup_singleton _, fun a ha b hb => ?_⟩
      obtain ⟨m, hm, rfl⟩ := List.mem_map.mp ha
      obtain rfl : b = row.id := by simpa using hb
      exact hid ▸ (hdb.ids m hm).ne
    · rcases List.mem_append.mp hm with hm | hm
      · exact Nat.lt_succ_of_lt (hdb.ids m hm)
      · rw [List.mem_singleton.mp hm, hid]
        exact Nat.lt_succ_self _
    · rcases List.mem_append.mp hm with hm | hm
      · exact hdb.counts m hm
      · rw [List.mem_singleton.mp hm, hone]
        exact Nat.one_pos

/-! ## Runs -/

/-- Rows of conversation `c`. -/
theorem mem_messagesOf {m : Message} : m ∈ db.messagesOf c ↔ m ∈ db.messages ∧ m.conversationId = c := by
  simp [Db.messagesOf]

/-- Rows other than `last` keep their count. -/
theorem map_setRepeatCount_others (hdb : db.Tracked) {last : Message} (hlast : last ∈ db.messages) (n : Nat)
    {l : List Message} (hl : ∀ m ∈ l, m ∈ db.messages ∧ m ≠ last) :
    (l.map fun m => if m.id == last.id then { m with repeatCount := n } else m) = l := by
  rw [List.map_congr_left fun m hm => if_neg fun heq => (hl m hm).2
    (List.inj_on_of_nodup_map hdb.nodup (hl m hm).1 hlast (eq_of_beq heq)), List.map_id']

/-- A new repeat count touches one row only, the last of its conversation. -/
theorem messagesOf_setRepeatCount_last (hdb : db.Tracked) {last : Message} {init : List Message}
    (hrows : db.messagesOf c = init ++ [last]) (n : Nat) :
    (db.setRepeatCount last.id n).messagesOf c = init ++ [{ last with repeatCount := n }] := by
  have hlast := mem_messagesOf.mp (hrows ▸ List.mem_append_right init (List.mem_singleton_self last))
  have hnodup : (init ++ [last]).Nodup := by
    rw [← hrows]
    exact List.Nodup.of_map _ (hdb.nodup.sublist (List.filter_sublist.map _))
  rw [messagesOf_setRepeatCount, hrows, List.map_append, map_setRepeatCount_others hdb hlast.1 n fun m hm => ⟨?_, ?_⟩]
  · simp
  · exact (mem_messagesOf.mp (hrows ▸ List.mem_append_left _ hm)).1
  · exact (List.nodup_append.mp hnodup).2.2 m hm last (List.mem_singleton_self _)

theorem runs_setRepeatCount (hdb : db.Tracked) {last : Message} {init : List Message}
    (hrows : db.messagesOf c = init ++ [last]) (n : Nat) (c' : Id) :
    (db.setRepeatCount last.id n).runs c' =
      if c' = c then init.map (fun m => (m.payload, m.repeatCount)) ++ [(last.payload, n)]
      else db.runs c' := by
  have hlast := mem_messagesOf.mp (hrows ▸ List.mem_append_right init (List.mem_singleton_self last))
  unfold Db.runs
  split
  · rename_i hc
    subst hc
    rw [messagesOf_setRepeatCount_last hdb hrows, List.map_append]
    rfl
  · rename_i hc
    rw [messagesOf_setRepeatCount, map_setRepeatCount_others hdb hlast.1 n fun m hm => ⟨(mem_messagesOf.mp hm).1, ?_⟩]
    rintro rfl
    exact hc ((mem_messagesOf.mp hm).2.symm.trans hlast.2)

theorem current_runs (hcons : db.Consecutive) (c : Id) :
    current (db.runs c) = (db.lastMessage c).map Message.payload := by
  rw [current, Db.runs, List.getLast?_map, hcons.lastMessage, Option.map_map]
  rfl

/-- The runs of conversation `c` after a store that accepted `e`. -/
def extendRuns (c : Id) (runs : List (Payload × Nat)) : Option (Id × Payload) → List (Payload × Nat)
  | some (c', x) => if c' = c then push sameMessage runs x else runs
  | none => runs

/-- **One store extends the runs** of its conversation, and no other. -/
theorem StoreCase.runs {e : Option (Id × Payload)} (h : StoreCase db e db') (hdb : db.Tracked)
    (hcons : db.Consecutive) (c : Id) :
    db'.runs c = extendRuns c (db.runs c) e := by
  cases h with
  | refused => rfl
  | collapsed c' x last n convs hlast hsame hn _ =>
    rw [hcons.lastMessage] at hlast
    obtain ⟨init, hrows⟩ := List.getLast?_eq_some_iff.mp hlast
    have hpos := hdb.counts last
      (mem_messagesOf.mp (hrows ▸ List.mem_append_right init (List.mem_singleton_self last))).1
    show (db.setRepeatCount last.id n).runs c = _
    rw [runs_setRepeatCount hdb hrows, extendRuns]
    by_cases hc : c' = c
    · subst hc
      rw [if_pos rfl, if_pos rfl, push, Db.runs, hrows]
      simp [hsame, hn hpos]
    · rw [if_neg (Ne.symm hc), if_neg hc]
  | inserted row convs hlast _ hone =>
    rw [Db.runs, @Db.messagesOf_append db _ row rfl, extendRuns]
    by_cases hc : row.conversationId = c
    · subst hc
      have hnew : ∀ a ∈ current (db.runs row.conversationId), sameMessage a row.payload = false := by
        intro a ha
        rw [current_runs hcons] at ha
        obtain ⟨last, hlast', rfl⟩ := Option.map_eq_some_iff.mp ha
        exact hlast last hlast'
      rw [if_pos rfl, if_pos rfl, push_new hnew, List.map_append, Db.runs]
      simp [hone]
    · rw [if_neg hc, if_neg hc, List.append_nil]
      rfl

theorem storeAll_tracked (stores : List Store) {db : Db} (h : db.Tracked) : (db.storeAll stores).Tracked := by
  induction stores generalizing db with
  | nil => exact h
  | cons s rest ih => exact ih ((store_cases db s).tracked h)

/-- **The runs after any stores**: the accepted messages pushed one by one. -/
theorem runs_storeAll (stores : List Store) {db : Db} (h : db.Tracked) (hcons : db.Consecutive) (c : Id) :
    (db.storeAll stores).runs c = pushAll sameMessage (db.runs c) (db.accepted c stores) := by
  induction stores generalizing db with
  | nil => rfl
  | cons s rest ih =>
    have hcase := store_cases db s
    have hstep := hcase.runs h hcons c
    have hrest := ih (hcase.tracked h) (store_consecutive hcons s)
    show ((db.store s).storeAll rest).runs c = _
    rw [hrest, hstep, Db.accepted]
    cases s.accepted db with
    | none => rfl
    | some e =>
      simp only [extendRuns]
      split <;> rfl

end

end ContextBroker
