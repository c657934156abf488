import ContextBroker.Core.Spans
import ContextBroker.L2Store.MessagePipeline

/-!
# The invariant of the tables

`Valid` is what holds of the tables between any two statements: sequence
numbers are 1, ..., n; a summary row covers a range of stored messages of its
window's conversation, or is the header row (window, 3, 0, 0), which exists
as soon as any archival row does; the active chunk rows of a window follow
one another (`Spans.Chain`), so the watermark is the end of the last one.

One lemma per statement: stores, creating a conversation or a window,
`insertSummary`, `deactivate`, `stampAssembled`.
-/
namespace ContextBroker

open Rows Spans

/-! ## Creating conversations and windows -/

namespace Db

/-- `INSERT ... ON CONFLICT (id) DO NOTHING`, the id caller-supplied or fresh.
mirrors conversation_ops_flow.py:42-80 -/
def createConversation (db : Db) (supplied : Option Id) (now : Time) : Db :=
  let id := supplied.getD db.nextId
  let db := { db with nextId := db.nextId + 1 }
  if (db.conversation? id).isSome then db
  else { db with conversations := db.conversations ++ [{ id, updatedAt := now }] }

/-- `INSERT ... ON CONFLICT (conversation_id, build_type, max_token_budget) DO
NOTHING` after the check that the conversation exists.
mirrors conversation_ops_flow.py:131-184,528-545 -/
def createWindow (db : Db) (c : Id) (participant : Text) (buildType : BuildType) (budget : Int) : Db :=
  if (db.conversation? c).isNone then db
  else if db.windows.any fun x =>
      x.conversationId == c && x.buildType == buildType && x.maxTokenBudget == budget then db
  else
    { db with
      windows := db.windows ++
        [{ id := db.nextId, conversationId := c, participantId := participant, buildType
           maxTokenBudget := budget }]
      nextId := db.nextId + 1 }

end Db

/-! ## The invariant -/

/-- Number of messages of a conversation, and its highest sequence number. -/
def Db.count (db : Db) (c : Id) : Nat := (db.messagesOf c).length

def Summary.headerKey (w : Id) : Id × Tier × Nat × Nat := (w, .three, 0, 0)

theorem Summary.of_headerKey {r : Summary} {w : Id} (h : r.key = Summary.headerKey w) :
    r.contextWindowId = w ∧ r.tier = .three ∧ r.fromSeq = 0 ∧ r.toSeq = 0 := by
  simpa [Summary.key, Summary.headerKey] using h

structure Valid (db : Db) : Prop where
  consecutive : db.Consecutive
  counted : db.Counted
  ids : ∀ r ∈ db.summaries, r.id < db.nextId
  nodup : (db.summaries.map (·.id)).Nodup
  windowIds : ∀ x ∈ db.windows, x.id < db.nextId
  windowNodup : (db.windows.map (·.id)).Nodup
  /-- A row belongs to a window of its conversation. -/
  owner : ∀ r ∈ db.summaries, ∃ x,
    db.window? r.contextWindowId = some x ∧ x.conversationId = r.conversationId
  range : ∀ r ∈ db.summaries, r.fromSeq ≤ r.toSeq ∧ r.toSeq ≤ db.count r.conversationId
  /-- Only the header row starts at 0. -/
  positive : ∀ r ∈ db.summaries, r.fromSeq = 0 → r.key = Summary.headerKey r.contextWindowId
  /-- A window with an archival row has its header row. -/
  header : ∀ r ∈ db.summaries, r.tier = .three →
    ∃ h ∈ db.summaries, h.key = Summary.headerKey r.contextWindowId
  chain : ∀ w, Chain (·.fromSeq) (·.toSeq) (db.active w .two)

theorem Valid.empty : Valid {} := by
  refine ⟨fun c => rfl, ?_, ?_, List.nodup_nil, ?_, List.nodup_nil, ?_, ?_, ?_, ?_,
    fun w => List.Pairwise.nil⟩ <;>
    exact fun _ h => nomatch h

namespace Valid

variable {db db' : Db}

theorem activeRange (h : Valid db) (w : Id) (t : Tier) : ∀ r ∈ db.active w t, r.fromSeq ≤ r.toSeq :=
  fun r hr => (h.range r (Db.mem_active.mp hr).1).1

theorem orderAsc_active (h : Valid db) (w : Id) :
    orderAsc (·.fromSeq) (db.active w .two) = db.active w .two :=
  (h.chain w).orderAsc (h.activeRange w .two)

/-- The watermark is a sequence number of the window's conversation. -/
theorem watermark_le (h : Valid db) {w : Id} {win : Window} (hw : db.window? w = some win) :
    db.watermark w ≤ db.count win.conversationId := by
  refine maxOf_le fun r hr => ?_
  obtain ⟨hmem, rfl, _, _⟩ := Db.mem_active.mp hr
  obtain ⟨x, hx, hc⟩ := h.owner r hmem
  rw [Option.some.inj (hw.symm.trans hx), hc]
  exact (h.range r hmem).2

/-- Every chunk row starts at 1 or later. -/
theorem active_two_pos (hv : Valid db) {w : Id} {r : Summary} (hr : r ∈ db.active w .two) :
    0 < r.fromSeq := by
  obtain ⟨hmem, _, ht, _⟩ := Db.mem_active.mp hr
  refine Nat.pos_of_ne_zero fun h0 => ?_
  obtain ⟨_, h3, _, _⟩ := Summary.of_headerKey (hv.positive r hmem h0)
  exact nomatch ht.symm.trans h3

/-- A chunk row of a window belongs to its conversation. -/
theorem active_conversation (hv : Valid db) {w : Id} {win : Window} {t : Tier} {r : Summary}
    (hw : db.window? w = some win) (hr : r ∈ db.active w t) : r.conversationId = win.conversationId := by
  obtain ⟨hmem, rfl, _, _⟩ := Db.mem_active.mp hr
  obtain ⟨x, hx, hc⟩ := hv.owner r hmem
  rw [← hc, Option.some.inj (hx.symm.trans hw)]

end Valid

/-! ## Stores and creation -/

theorem Db.Grows.count_le {db db' : Db} (h : db.Grows db') (c : Id) : db.count c ≤ db'.count c := by
  obtain ⟨new, hnew⟩ := h.messages c
  have := congrArg List.length hnew
  simp only [List.length_map, List.length_append] at this
  simp only [Db.count]
  omega

theorem Db.Grows.active {db db' : Db} (h : db.Grows db') (w : Id) (t : Tier) :
    db'.active w t = db.active w t := by
  simp only [Db.active, Db.summariesOf, h.summaries]

theorem Db.Grows.watermark {db db' : Db} (h : db.Grows db') (w : Id) :
    db'.watermark w = db.watermark w := by
  simp only [Db.watermark, h.active]

theorem Db.Grows.window? {db db' : Db} (h : db.Grows db') (w : Id) : db'.window? w = db.window? w := by
  simp only [Db.window?, h.windows]

/-- Tables that only grew by messages stay valid. -/
theorem Valid.grows {db db' : Db} (h : Valid db) (hg : db.Grows db') (hc : db'.Consecutive)
    (ht : db'.Counted) : Valid db' where
  consecutive := hc
  counted := ht
  ids := by
    rw [hg.summaries]
    exact fun r hr => Nat.lt_of_lt_of_le (h.ids r hr) hg.nextId
  nodup := by rw [hg.summaries]; exact h.nodup
  windowIds := by
    rw [hg.windows]
    exact fun x hx => Nat.lt_of_lt_of_le (h.windowIds x hx) hg.nextId
  windowNodup := by rw [hg.windows]; exact h.windowNodup
  owner := by
    simp only [hg.summaries, hg.window?]
    exact h.owner
  range := by
    rw [hg.summaries]
    exact fun r hr => ⟨(h.range r hr).1, Nat.le_trans (h.range r hr).2 (hg.count_le _)⟩
  positive := by rw [hg.summaries]; exact h.positive
  header := by rw [hg.summaries]; exact h.header
  chain := fun w => by rw [hg.active]; exact h.chain w

theorem Valid.storeAll {db : Db} (h : Valid db) (stores : List Store) : Valid (db.storeAll stores) :=
  h.grows (storeAll_grows stores db) (storeAll_consecutive stores h.consecutive)
    (storeAll_counted stores h.counted)

theorem Valid.store {db : Db} (h : Valid db) (s : Store) : Valid (db.store s) := h.storeAll [s]

/-- Nothing in the invariant is about the conversation rows. -/
theorem Valid.conversations {db : Db} (h : Valid db) (convs : List Conversation) (n : Id)
    (hn : db.nextId ≤ n) : Valid { db with conversations := convs, nextId := n } :=
  h.grows ⟨rfl, rfl, hn, fun _ => ⟨[], (List.append_nil _).symm⟩⟩ h.consecutive h.counted

theorem Valid.createConversation {db : Db} (h : Valid db) (supplied : Option Id) (now : Time) :
    Valid (db.createConversation supplied now) := by
  unfold Db.createConversation
  dsimp only
  split
  · exact h.conversations _ _ (Nat.le_succ _)
  · exact h.conversations _ _ (Nat.le_succ _)

/-- A new window does not hide an old one. -/
theorem window?_createWindow {db : Db} {c : Id} {participant : Text} {buildType : BuildType}
    {budget : Int} {w : Id} {x : Window} (hx : db.window? w = some x) :
    (db.createWindow c participant buildType budget).window? w = some x := by
  unfold Db.createWindow
  split
  · exact hx
  · split
    · exact hx
    · simp only [Db.window?, List.find?_append] at hx ⊢
      rw [hx]
      rfl

theorem Valid.createWindow {db : Db} (h : Valid db) (c : Id) (participant : Text)
    (buildType : BuildType) (budget : Int) :
    Valid (db.createWindow c participant buildType budget) := by
  have hkeep : ∀ w x, db.window? w = some x →
      (db.createWindow c participant buildType budget).window? w = some x :=
    fun w x hx => window?_createWindow hx
  unfold Db.createWindow at hkeep ⊢
  split
  · exact h
  · rename_i hconv
    split
    · exact h
    · rename_i hdup
      simp only [if_neg hconv, if_neg hdup] at hkeep
      refine ⟨h.consecutive, h.counted, fun r hr => Nat.lt_succ_of_lt (h.ids r hr), h.nodup,
        fun x hx => ?_, ?_, fun r hr => ?_, h.range, h.positive, h.header, h.chain⟩
      · rcases List.mem_append.mp hx with hx | hx
        · exact Nat.lt_succ_of_lt (h.windowIds x hx)
        · rw [List.mem_singleton.mp hx]
          exact Nat.lt_succ_self _
      · rw [List.map_append, List.nodup_append]
        refine ⟨h.windowNodup, List.nodup_singleton _, fun a ha b hb => ?_⟩
        obtain ⟨x, hx, rfl⟩ := List.mem_map.mp ha
        rw [List.mem_singleton.mp hb]
        exact (h.windowIds x hx).ne
      · obtain ⟨x, hx, hc⟩ := h.owner r hr
        exact ⟨x, hkeep _ x hx, hc⟩

/-! ## Summary statements -/

/-- What a row must satisfy for the invariant to survive its insertion. -/
structure Insertable (db : Db) (row : Summary) : Prop where
  owner : ∃ x, db.window? row.contextWindowId = some x ∧ x.conversationId = row.conversationId
  range : row.fromSeq ≤ row.toSeq ∧ row.toSeq ≤ db.count row.conversationId
  positive : row.fromSeq = 0 → row.key = Summary.headerKey row.contextWindowId
  header : row.tier = .three → row.key = Summary.headerKey row.contextWindowId ∨
    ∃ h ∈ db.summaries, h.key = Summary.headerKey row.contextWindowId
  above : row.tier = .two → db.watermark row.contextWindowId < row.fromSeq

theorem Valid.insertSummary {db db' : Db} (h : Valid db) {row : Summary} (hrow : Insertable db row)
    (hins : db.insertSummary row = .ok db') : Valid db' := by
  obtain ⟨_, rfl⟩ := Db.insertSummary_eq_ok.mp hins
  refine ⟨h.consecutive, h.counted, ?_, ?_, ?_, h.windowNodup, ?_, ?_, ?_, ?_, fun w => ?_⟩
  · intro r hr
    rcases List.mem_append.mp hr with hr | hr
    · exact Nat.lt_succ_of_lt (h.ids r hr)
    · rw [List.mem_singleton.mp hr]
      exact Nat.lt_succ_self _
  · rw [List.map_append, List.nodup_append]
    refine ⟨h.nodup, List.nodup_singleton _, fun a ha b hb => ?_⟩
    obtain ⟨r, hr, rfl⟩ := List.mem_map.mp ha
    rw [List.mem_singleton.mp hb]
    exact (h.ids r hr).ne
  · exact fun x hx => Nat.lt_succ_of_lt (h.windowIds x hx)
  · intro r hr
    rcases List.mem_append.mp hr with hr | hr
    · exact h.owner r hr
    · rw [List.mem_singleton.mp hr]
      exact hrow.owner
  · intro r hr
    rcases List.mem_append.mp hr with hr | hr
    · exact h.range r hr
    · rw [List.mem_singleton.mp hr]
      exact hrow.range
  · intro r hr
    rcases List.mem_append.mp hr with hr | hr
    · exact h.positive r hr
    · rw [List.mem_singleton.mp hr]
      exact hrow.positive
  · intro r hr ht
    rcases List.mem_append.mp hr with hr | hr
    · obtain ⟨x, hx, hk⟩ := h.header r hr ht
      exact ⟨x, List.mem_append_left _ hx, hk⟩
    · rw [List.mem_singleton.mp hr] at ht ⊢
      rcases hrow.header ht with hk | ⟨x, hx, hk⟩
      · exact ⟨_, List.mem_append_right _ (List.mem_singleton_self _), hk⟩
      · exact ⟨x, List.mem_append_left _ hx, hk⟩
  · rw [Db.active_append rfl]
    split
    · rename_i hact
      obtain ⟨rfl, ht, _⟩ := hact
      exact (h.chain _).snoc (hrow.above ht)
    · rw [List.append_nil]
      exact h.chain w

theorem Valid.deactivate {db : Db} (h : Valid db) (p : Summary → Bool) : Valid (db.deactivate p) := by
  -- deactivation keeps every column but is_active
  have hmem : ∀ r ∈ (db.deactivate p).summaries, ∃ r' ∈ db.summaries, r.id = r'.id ∧ r.key = r'.key ∧
      r.conversationId = r'.conversationId := by
    intro r hr
    obtain ⟨r', hr', rfl⟩ := List.mem_map.mp hr
    refine ⟨r', hr', ?_⟩
    split <;> exact ⟨rfl, rfl, rfl⟩
  refine ⟨h.consecutive, h.counted, ?_, ?_, h.windowIds, h.windowNodup, ?_, ?_, ?_, ?_, fun w => ?_⟩
  · intro r hr
    obtain ⟨r', hr', hid, _, _⟩ := hmem r hr
    exact hid ▸ h.ids r' hr'
  · have : (db.deactivate p).summaries.map (·.id) = db.summaries.map (·.id) := by
      simp only [Db.deactivate, List.map_map]
      refine List.map_congr_left fun r _ => ?_
      simp only [Function.comp]
      split <;> rfl
    rw [this]
    exact h.nodup
  · intro r hr
    obtain ⟨r', hr', _, hk, hc⟩ := hmem r hr
    rw [(Summary.key_inj hk).1, hc]
    exact h.owner r' hr'
  · intro r hr
    obtain ⟨r', hr', _, hk, hc⟩ := hmem r hr
    obtain ⟨_, _, hf, ht⟩ := Summary.key_inj hk
    rw [hf, ht, hc]
    exact h.range r' hr'
  · intro r hr hf
    obtain ⟨r', hr', _, hk, _⟩ := hmem r hr
    rw [hk, (Summary.key_inj hk).1]
    exact h.positive r' hr' ((Summary.key_inj hk).2.2.1 ▸ hf)
  · intro r hr ht
    obtain ⟨r', hr', _, hk, _⟩ := hmem r hr
    obtain ⟨x, hx, hxk⟩ := h.header r' hr' ((Summary.key_inj hk).2.1 ▸ ht)
    refine ⟨_, List.mem_map_of_mem hx, ?_⟩
    rw [(Summary.key_inj hk).1, ← hxk]
    split <;> rfl
  · rw [Db.active_deactivate]
    exact (h.chain w).sublist List.filter_sublist

theorem Valid.stampAssembled {db : Db} (h : Valid db) (w : Id) (now : Time) :
    Valid (db.stampAssembled w now) := by
  refine ⟨h.consecutive, h.counted, h.ids, h.nodup, fun x hx => ?_, ?_, fun r hr => ?_, h.range,
    h.positive, h.header, h.chain⟩
  · obtain ⟨y, hy, rfl⟩ := List.mem_map.mp hx
    have := h.windowIds y hy
    split <;> exact this
  · have : (db.stampAssembled w now).windows.map (·.id) = db.windows.map (·.id) := by
      simp only [Db.stampAssembled, List.map_map]
      refine List.map_congr_left fun x _ => ?_
      simp only [Function.comp]
      split <;> rfl
    rw [this]
    exact h.windowNodup
  · obtain ⟨x, hx, hc⟩ := h.owner r hr
    rw [Db.window?_stampAssembled, hx]
    refine ⟨_, rfl, ?_⟩
    dsimp only
    split <;> exact hc

end ContextBroker
