import ContextBroker.L3Assembly.SummaryRows

/-!
# Which windows the assembly worker selects

One pass of a window, node by node, interleaved with store transactions. A
message has its `created_at` from the start of its transaction,
`finalize_assembly` stamps the window with the time it runs at, and the
worker selects a window with a message created after its stamp
(`Db.needsAssembly`).

`wakeup_iff`: after the stamp a conversation with a message that the pass did
not load gets its window selected exactly when a transaction that began after
the stamp has added a message. A store that commits during the pass's LLM calls
began before it: `wakeup_lost`.
-/
namespace ContextBroker

open Rows StandardTiered

/-- The `WHERE EXISTS (...)` of the assembly worker's selection.
mirrors app/workers/db_worker.py:483-493 -/
def Db.needsAssembly (db : Db) (win : Window) : Bool :=
  (db.messagesOf win.conversationId).any fun m =>
    match win.lastAssembledAt with
    | none => true
    | some stamp => stamp < m.createdAt

namespace Wakeup

/-! ## Stores and one pass, interleaved -/

/-- The messages of the conversation when the pass read it, and whether they were
within its row limit. -/
structure Read where
  count : Nat
  withinLimit : Bool
  deriving DecidableEq

structure State where
  db : Db
  clock : Time
  /-- Store transactions that have started and not ended. -/
  inFlight : List Store
  /-- The node the pass runs next. -/
  node : Option Node
  st : AssemblyState
  /-- History: what the pass has read of the conversation. -/
  read : Option Read := none
  /-- History: start times of the transactions that have added a message to the
  conversation since, in the order of their commits. -/
  late : List Time := []
  /-- History: the time that `finalize_assembly` has written. -/
  stamped : Option Time := none
  deriving DecidableEq

inductive Label where
  | tick
  | begin (tx : Store)
  | commit (tx : Store)
  | rollback (tx : Store)
  | node
  deriving DecidableEq

variable (config : Config) (env : Env)

/-- `load_messages` is about to find no more than its row limit. -/
def withinLimit (db : Db) (st : AssemblyState) : Bool :=
  match loadLimit config (st.buildTypeConfig.getD {}) (st.maxTokenBudget.getD 8192)
      (.ok (db.summariesOf st.contextWindowId).length) with
  | .ok limit => (db.messagesOf st.conversationId).length ≤ limit
  | .error _ => false

/-- What a node that did not raise leaves. -/
def State.after (s : State) (n : Node) (db : Db) (st : AssemblyState) : State :=
  let s' := { s with db, st, node := route n ⟨db, st⟩ }
  match n with
  | .loadMessages =>
    { s' with read := some ⟨(s.db.messagesOf s.st.conversationId).length, withinLimit config s.db s.st⟩, late := [] }
  | .finalizeAssembly => { s' with stamped := if st.hadErrors then none else some s.clock }
  | _ => s'

/-- A transaction's time (`NOW()`) is its start; its statements take effect at
the commit. A node's `NOW()` is the time it runs at. -/
def step (s : State) : Label → Option State
  | .tick => some { s with clock := s.clock + 1 }
  | .begin tx => if tx.now = s.clock then some { s with inFlight := tx :: s.inFlight } else none
  | .commit tx =>
    if tx ∈ s.inFlight then
      let db := s.db.store tx
      let added := (s.db.messagesOf s.st.conversationId).length < (db.messagesOf s.st.conversationId).length
      some { s with db, inFlight := s.inFlight.erase tx, late := if added then s.late ++ [tx.now] else s.late }
    else none
  | .rollback tx =>
    if tx ∈ s.inFlight then some { s with inFlight := s.inFlight.erase tx } else none
  | .node =>
    match s.node with
    | none => none
    | some n =>
      match nodeBody config { env with now := s.clock } n s.db s.st with
      | (db, .error _) => some { s with db, node := none }
      | (db, .ok st) => some (s.after config n db st)

/-- A pass on `win` is about to start on `db`; stores may be under way. No
transaction so far began in the future. -/
def Starts (db : Db) (win : Window) (s : State) : Prop :=
  s.db = db ∧ s.node = some .acquireAssemblyLock ∧
    s.st = { contextWindowId := win.id, conversationId := win.conversationId } ∧ s.read = none ∧
    s.late = [] ∧ s.stamped = none ∧ (∀ tx ∈ s.inFlight, tx.now ≤ s.clock) ∧
    ∀ m ∈ db.messages, m.createdAt ≤ s.clock

def system (db : Db) (win : Window) : LTS State Label :=
  LTS.ofStep (Starts db win) (step config env)

/-! ## What a step leaves -/

/-- The times of the messages of conversation `c`, in the order of their numbers. -/
def times (db : Db) (c : Id) : List Time := (db.messagesOf c).map (·.createdAt)

section

variable {config env} {db db' : Db} {c : Id} {st st' : AssemblyState}

theorem times_setRepeatCount (db : Db) (id : Id) (n : Nat) (c : Id) :
    times (db.setRepeatCount id n) c = times db c := by
  rw [times, messagesOf_setRepeatCount, List.map_map, times]
  refine List.map_congr_left fun m _ => ?_
  simp only [Function.comp]
  split <;> rfl

/-- A store adds a message of its transaction's time, or none. -/
theorem times_store (db : Db) (tx : Store) (c : Id) :
    times (db.store tx) c =
      times db c ++ if (db.messagesOf c).length < ((db.store tx).messagesOf c).length then [tx.now] else [] := by
  have heff := store_effect db tx
  have hlen : ∀ db : Db, (db.messagesOf c).length = (times db c).length := fun db => by rw [times, List.length_map]
  rw [hlen, hlen]
  generalize db.store tx = db' at heff ⊢
  have hsame : times db' c = times db c →
      times db' c = times db c ++ if (times db c).length < (times db' c).length then [tx.now] else [] := by
    intro h
    rw [h, if_neg (Nat.lt_irrefl _), List.append_nil]
  cases heff with
  | unchanged => exact hsame rfl
  | collapsed id n convs => exact hsame (times_setRepeatCount db id n c)
  | inserted row convs _ _ hnow =>
    by_cases hc : row.conversationId = c
    · have happ : times { db with conversations := convs, messages := db.messages ++ [row],
                                  nextId := db.nextId + 1 } c = times db c ++ [tx.now] := by
        rw [times, @Db.messagesOf_append db _ row rfl, if_pos (by simpa using hc), List.map_append, List.map_singleton,
          hnow, times]
      rw [happ, List.length_append, List.length_singleton, if_pos (Nat.lt_succ_self _)]
    · refine hsame ?_
      rw [times, @Db.messagesOf_append db _ row rfl, if_neg (by simpa using hc), List.append_nil, times]

/-- `finalize_assembly` stamps the window, unless there were errors. -/
theorem finalize_window {win : Window} {w : Id} (hwin : db.window? w = some win)
    (hw : st.contextWindowId = w) (h : finalizeAssembly env db st = (db', .ok st')) (herr : st'.hadErrors = false) :
    db'.window? w = some { win with lastAssembledAt := some env.now } := by
  subst hw
  obtain rfl := finalizeAssembly_state (congrArg Prod.snd h)
  unfold finalizeAssembly at h
  rw [herr, if_neg Bool.false_ne_true] at h
  split at h
  · cases h
  · obtain rfl := congrArg Prod.fst h
    have hid : win.id = st'.contextWindowId := by simpa using List.find?_some hwin
    rw [Db.window?_stampAssembled, hwin, Option.map_some, hid, beq_self_eq_true, if_pos rfl]

end

/-! ## What the pass has seen -/

/-- The nodes that come after the read and before the release. -/
def Follows : Node → Prop
  | .calculateCompactionState | .compactTier1 | .runFullCompaction | .finalizeAssembly => True
  | _ => False

/-- What is loaded of the messages that the read found, and what has been added to
them: nothing that it found is newer than the stamp. -/
structure Tracked (c : Id) (r : Read) (s : State) : Prop where
  loaded : ∀ x ∈ s.st.allMessages, x.sequenceNumber ≤ r.count
  whole : r.withinLimit = true → ∀ n, 0 < n → n ≤ r.count → ∃ x ∈ s.st.allMessages, x.sequenceNumber = n
  partly : r.withinLimit = false → ∃ n, 0 < n ∧ n ≤ r.count ∧ ∀ x ∈ s.st.allMessages, x.sequenceNumber ≠ n
  times : ∃ found, times s.db c = found ++ s.late ∧ found.length = r.count ∧
    ∀ began ∈ found, ∀ stamp ∈ s.stamped, began ≤ stamp

/-- What holds of a pass of window `w` on conversation `c`, and of its window. -/
structure Seen (w c : Id) (s : State) : Prop where
  consecutive : s.db.Consecutive
  windowId : s.st.contextWindowId = w
  convId : s.st.conversationId = c
  window : ∃ win, s.db.window? w = some win ∧ win.conversationId = c ∧
    ∀ stamp ∈ s.stamped, win.lastAssembledAt = some stamp
  begun : ∀ tx ∈ s.inFlight, tx.now ≤ s.clock
  past : ∀ t ∈ times s.db c, t ≤ s.clock
  reads : ∀ n ∈ s.node, Follows n → s.read.isSome = true ∧ s.stamped = none
  ended : s.stamped.isSome = true → s.read.isSome = true ∧ ∀ n ∈ s.node, n = .releaseAssemblyLock
  tracked : ∀ r ∈ s.read, Tracked c r s

section

variable {config : Config} {env : Env} {db db' : Db} {w c : Id} {s s' : State} {l : Label} {n m : Node}
  {st st' : AssemblyState}

theorem follows_of_edge (h : Edge st n m) (hm : Follows m) : n = .loadMessages ∨ Follows n := by
  cases h with
  | noneLoaded | loaded => exact .inl rfl
  | noChunks | chunked | tier2Full | tier2Open | compacted => exact .inr trivial
  | locked | configFailed | configured | loadFailed | partitionFailed | chunksFailed | finalized => exact hm.elim

theorem Seen.commit (h : Seen w c s) {tx : Store} (htx : tx ∈ s.inFlight) (inFlight : List Store)
    (hin : ∀ x ∈ inFlight, x ∈ s.inFlight) :
    Seen w c { s with
      db := s.db.store tx, inFlight
      late := if (s.db.messagesOf s.st.conversationId).length < ((s.db.store tx).messagesOf s.st.conversationId).length
        then s.late ++ [tx.now] else s.late } := by
  obtain ⟨win, hwin, hc, hstamp⟩ := h.window
  have htimes := times_store s.db tx c
  rw [h.convId]
  refine ⟨store_consecutive h.consecutive tx, h.windowId, h.convId, ⟨win, ?_, hc, hstamp⟩,
    fun x hx => h.begun x (hin x hx), fun t ht => ?_, h.reads, h.ended, fun r hr => ?_⟩
  · rw [(store_grows s.db tx).window?, hwin]
  · rw [htimes] at ht
    rcases List.mem_append.mp ht with ht | ht
    · exact h.past t ht
    · split at ht
      · rw [List.mem_singleton.mp ht]
        exact h.begun tx htx
      · cases ht
  · obtain ⟨hloaded, hwhole, hpartly, found, hfound, hcount, hbefore⟩ := h.tracked r hr
    refine ⟨hloaded, hwhole, hpartly, found, ?_, hcount, hbefore⟩
    rw [htimes, hfound, List.append_assoc]
    split
    · rfl
    · rw [List.append_nil]

/-- The read: the loaded list reaches the end of the conversation, and back to its
beginning if that is within the limit. -/
theorem tracked_read (hdb : db.Consecutive) (hc : st.conversationId = c)
    (hload : loadMessages config env db st = .ok st')
    (hread : s.read = some ⟨(db.messagesOf st.conversationId).length, withinLimit config db st⟩) (hlate : s.late = [])
    (hst : s.st = st') (hs : s.db = db) (hstamped : s.stamped = none) : ∀ r ∈ s.read, Tracked c r s := by
  obtain ⟨limit, hlimit, rfl⟩ := loadMessages_ok hdb hload
  have hge := loadLimit_ok hlimit
  have hwithin : withinLimit config db st = decide (((db.messagesOf c).length : Int) ≤ limit) := by
    obtain ⟨adaptive, hadaptive, hrest⟩ := bind_eq_ok.mp hlimit
    obtain ⟨existing, hexisting, hrest⟩ := bind_eq_ok.mp hrest
    obtain rfl := perform_eq_ok hexisting
    have hplain : loadLimit config (st.buildTypeConfig.getD {}) (st.maxTokenBudget.getD 8192)
        (.ok (db.summariesOf st.contextWindowId).length) = .ok limit :=
      bind_eq_ok.mpr ⟨adaptive, hadaptive, bind_eq_ok.mpr ⟨_, rfl, hrest⟩⟩
    simp only [withinLimit, hplain, hc]
  have hnum := hdb c
  have hdrop := hnum.drop ((db.messagesOf c).length - limit.toNat)
  intro r hr
  obtain rfl := Option.some.inj (hr.symm.trans hread)
  rw [hc] at hread hst ⊢
  refine ⟨fun x hx => ?_, fun hall n hpos hle => ?_, fun hpart => ?_, times db c, ?_, ?_, fun _ _ stamp hstamp => ?_⟩
  · rw [hst] at hx
    have hbound := (hnum.mem (List.mem_of_mem_drop hx)).2
    dsimp only
    omega
  · rw [hwithin, decide_eq_true_eq] at hall
    rw [hst]
    exact hdrop.exists_key (by omega) (by rw [List.length_drop]; dsimp only at hle; omega)
  · rw [hwithin, decide_eq_false_iff_not] at hpart
    refine ⟨1, Nat.one_pos, by dsimp only; omega, fun x hx => ?_⟩
    rw [hst] at hx
    have := (hdrop.mem hx).1
    omega
  · rw [hs, hlate, List.append_nil]
  · exact List.length_map _
  · rw [hstamped] at hstamp
    cases hstamp

/-- A node that does not read the conversation, or an exception. -/
theorem Seen.moved (h : Seen w c s) (hsame : SameMessages s.db db') (hkept : s.stamped.isSome = true → db' = s.db)
    (hw : st'.contextWindowId = s.st.contextWindowId) (hc : st'.conversationId = s.st.conversationId)
    (hm : st'.allMessages = s.st.allMessages) {next : Option Node}
    (hreads : ∀ n ∈ next, Follows n → s.read.isSome = true ∧ s.stamped = none)
    (hended : s.stamped.isSome = true → ∀ n ∈ next, n = .releaseAssemblyLock) :
    Seen w c { s with db := db', st := st', node := next } := by
  have hmsgs : ∀ c, db'.messagesOf c = s.db.messagesOf c := fun c => by
    simp only [Db.messagesOf, hsame.messages]
  have htimes : times db' c = times s.db c := by rw [times, hmsgs, times]
  obtain ⟨win, hwin, hconv, hstamp⟩ := h.window
  obtain ⟨win', hwin', hconv', -, -⟩ := hsame.windows w win hwin
  refine ⟨fun c => ?_, hw.trans h.windowId, hc.trans h.convId, ⟨win', hwin', hconv'.trans hconv, fun stamp hs => ?_⟩,
    h.begun, ?_, hreads, fun hs => ⟨(h.ended hs).1, hended hs⟩, fun r hr => ?_⟩
  · rw [hmsgs]
    exact h.consecutive c
  · rw [hkept (Option.isSome_iff_exists.mpr ⟨stamp, hs⟩), hwin] at hwin'
    obtain rfl := Option.some.inj hwin'
    exact hstamp stamp hs
  · rw [htimes]
    exact h.past
  · obtain ⟨hloaded, hwhole, hpartly, htracked⟩ := h.tracked r hr
    exact ⟨by rwa [hm], by rwa [hm], by rwa [hm], by rwa [htimes]⟩

theorem Seen.after (h : Seen w c s) (hnode : s.node = some n)
    (hbody : nodeBody config { env with now := s.clock } n s.db s.st = (db', .ok st')) :
    Seen w c (s.after config n db' st') := by
  obtain ⟨hw, hc, hm, -⟩ := nodeBody_state (congrArg Prod.snd hbody)
  have hsame := nodeBody_sameMessages config { env with now := s.clock } n s.db s.st
  rw [hbody] at hsame
  have hreads := h.reads n hnode
  have hrelease : s.stamped.isSome = true → n = .releaseAssemblyLock := fun hs => (h.ended hs).2 n hnode
  have hnext : ∀ m ∈ route n ⟨db', st'⟩, Follows m → n = .loadMessages ∨ Follows n := fun m hroute =>
    follows_of_edge (edge_of_route hroute)
  have hother : n ≠ .loadMessages → Seen w c { s with db := db', st := st', node := route n ⟨db', st'⟩ } := fun hn => by
    refine h.moved hsame (fun hs => ?_) hw hc (hm hn)
      (fun m hroute hfollows => hreads ((hnext m hroute hfollows).resolve_left hn)) fun hs m hroute => ?_
    · obtain rfl := hrelease hs
      exact (congrArg Prod.fst hbody).symm
    · obtain rfl := hrelease hs
      cases hroute
  cases n with
  | loadMessages =>
    obtain ⟨rfl, hload⟩ := Prod.mk.inj hbody
    have hstamped : s.stamped = none := by
      cases hs : s.stamped with
      | none => rfl
      | some stamp => exact absurd (hrelease (by rw [hs]; rfl)) (by decide)
    obtain ⟨win, hwin, hconv, hstamp⟩ := h.window
    refine ⟨h.consecutive, hw.trans h.windowId, hc.trans h.convId, ⟨win, hwin, hconv, hstamp⟩, h.begun, h.past,
      fun _ _ _ => ⟨rfl, hstamped⟩, fun hs => ?_, ?_⟩
    · rw [State.after, hstamped] at hs
      cases hs
    · exact tracked_read h.consecutive h.convId hload rfl rfl rfl rfl hstamped
  | finalizeAssembly =>
    obtain ⟨hread, hstamped⟩ := hreads trivial
    have hmoved := hother (by decide)
    unfold State.after
    dsimp only
    cases herr : st'.hadErrors with
    | true =>
      rw [if_pos rfl, ← hstamped]
      exact hmoved
    | false =>
      rw [if_neg Bool.false_ne_true]
      obtain ⟨win, hwin, hconv, -⟩ := h.window
      have hwritten := finalize_window hwin h.windowId hbody herr
      refine ⟨hmoved.consecutive, hmoved.windowId, hmoved.convId, ⟨_, hwritten, hconv, fun stamp hs => hs⟩,
        hmoved.begun, hmoved.past, fun m hroute hfollows => ?_, fun _ => ⟨hread, fun m hroute => ?_⟩, fun r hr => ?_⟩
      · obtain rfl : .releaseAssemblyLock = m := Option.some.inj hroute
        exact hfollows.elim
      · exact (Option.some.inj hroute).symm
      · obtain ⟨hloaded, hwhole, hpartly, found, hfound, hcount, -⟩ := hmoved.tracked r hr
        refine ⟨hloaded, hwhole, hpartly, found, hfound, hcount, fun t ht stamp hs => ?_⟩
        obtain rfl : s.clock = stamp := Option.some.inj hs
        refine hmoved.past t ?_
        show t ∈ times db' c
        rw [show times db' c = found ++ s.late from hfound]
        exact List.mem_append_left _ ht
  | acquireAssemblyLock | loadWindowConfig | calculateCompactionState | compactTier1 | runFullCompaction
  | releaseAssemblyLock => exact hother (by decide)

theorem seen_step (h : Seen w c s) (hstep : step config env s l = some s') : Seen w c s' := by
  cases l with
  | tick =>
    obtain rfl := Option.some.inj hstep
    exact ⟨h.consecutive, h.windowId, h.convId, h.window, fun tx htx => Nat.le_succ_of_le (h.begun tx htx),
      fun t ht => Nat.le_succ_of_le (h.past t ht), h.reads, h.ended,
      fun r hr => ⟨(h.tracked r hr).loaded, (h.tracked r hr).whole, (h.tracked r hr).partly, (h.tracked r hr).times⟩⟩
  | begin tx =>
    obtain ⟨hnow, hstep⟩ := Option.ite_none_right_eq_some.mp hstep
    obtain rfl := Option.some.inj hstep
    refine ⟨h.consecutive, h.windowId, h.convId, h.window, fun x hx => ?_, h.past, h.reads, h.ended,
      fun r hr => ⟨(h.tracked r hr).loaded, (h.tracked r hr).whole, (h.tracked r hr).partly, (h.tracked r hr).times⟩⟩
    rcases List.mem_cons.mp hx with rfl | hx
    · exact Nat.le_of_eq hnow
    · exact h.begun x hx
  | commit tx =>
    obtain ⟨htx, hstep⟩ := Option.ite_none_right_eq_some.mp hstep
    obtain rfl := Option.some.inj hstep
    exact h.commit htx _ fun x => List.mem_of_mem_erase
  | rollback tx =>
    obtain ⟨-, hstep⟩ := Option.ite_none_right_eq_some.mp hstep
    obtain rfl := Option.some.inj hstep
    exact ⟨h.consecutive, h.windowId, h.convId, h.window, fun x hx => h.begun x (List.mem_of_mem_erase hx), h.past,
      h.reads, h.ended,
      fun r hr => ⟨(h.tracked r hr).loaded, (h.tracked r hr).whole, (h.tracked r hr).partly, (h.tracked r hr).times⟩⟩
  | node =>
    simp only [step] at hstep
    split at hstep
    · cases hstep
    · rename_i n hnode
      split at hstep
      · rename_i db' e hbody
        obtain rfl := Option.some.inj hstep
        have hsame := nodeBody_sameMessages config { env with now := s.clock } n s.db s.st
        rw [hbody] at hsame
        refine h.moved hsame (fun hs => ?_) rfl rfl rfl (fun _ hn => by cases hn) fun _ _ hn => by cases hn
        obtain rfl := (h.ended hs).2 n hnode
        exact (congrArg Prod.fst hbody).symm
      · rename_i db' st' hbody
        obtain rfl := Option.some.inj hstep
        exact h.after hnode hbody

theorem seen_inductive {win : Window} (hdb : db.Consecutive) (hwin : db.window? win.id = some win) :
    (system config env db win).Inductive (Seen win.id win.conversationId) where
  init := by
    rintro s ⟨rfl, hnode, hst, hread, hlate, hstamped, hbegun, hpast⟩
    refine ⟨hdb, by rw [hst], by rw [hst], ⟨win, hwin, rfl, fun stamp hs => ?_⟩, hbegun, fun t ht => ?_,
      fun n hn hfollows => ?_, fun hs => ?_, fun r hr => ?_⟩
    · rw [hstamped] at hs
      cases hs
    · obtain ⟨m, hm, rfl⟩ := List.mem_map.mp ht
      exact hpast m (List.mem_filter.mp hm).1
    · obtain rfl := Option.some.inj (hnode.symm.trans hn)
      exact hfollows.elim
    · rw [hstamped] at hs
      cases hs
    · rw [hread] at hr
      cases hr
  step := fun _ _ _ h hstep => seen_step h hstep

end

/-! ## The selection -/

/-- A message of the conversation is not in the list that the pass loaded. Numbers
are unique in a conversation. -/
def Unread (s : State) (c : Id) : Prop :=
  ∃ m ∈ s.db.messagesOf c, ∀ x ∈ s.st.allMessages, x.sequenceNumber ≠ m.sequenceNumber

instance (s : State) (c : Id) : Decidable (Unread s c) :=
  inferInstanceAs (Decidable (∃ m ∈ s.db.messagesOf c, ∀ x ∈ s.st.allMessages, x.sequenceNumber ≠ m.sequenceNumber))

section

variable {w c : Id} {s : State} {r : Read} {win : Window} {stamp : Time}

/-- All is read if the read got all and nothing has come since. -/
theorem unread_iff (h : Seen w c s) (ht : Tracked c r s) : Unread s c ↔ ¬ (s.late = [] ∧ r.withinLimit = true) := by
  obtain ⟨found, hfound, hcount, -⟩ := ht.times
  have hlen : (s.db.messagesOf c).length = r.count + s.late.length := by
    have := congrArg List.length hfound
    rw [times, List.length_map, List.length_append] at this
    omega
  have hnum := h.consecutive c
  constructor
  · rintro ⟨m, hm, hunread⟩ ⟨hnone, hall⟩
    obtain ⟨hpos, hle⟩ := hnum.mem hm
    rw [hnone, List.length_nil] at hlen
    obtain ⟨x, hx, hseq⟩ := ht.whole hall m.sequenceNumber hpos (by omega)
    exact hunread x hx hseq
  · intro hnot
    by_cases hnone : s.late = []
    · obtain ⟨n, hpos, hle, hskipped⟩ := ht.partly (Bool.eq_false_iff.mpr fun hall => hnot ⟨hnone, hall⟩)
      obtain ⟨m, hm, rfl⟩ := hnum.exists_key (s := n) hpos (by omega)
      exact ⟨m, hm, hskipped⟩
    · have hpos := List.length_pos_iff.mpr hnone
      obtain ⟨m, hm, hseq⟩ := hnum.exists_key (s := r.count + 1) (by omega) (by omega)
      refine ⟨m, hm, fun x hx heq => ?_⟩
      have hle := ht.loaded x hx
      omega

/-- The window is selected if a transaction that began after the stamp has added a
message. -/
theorem needsAssembly_iff (ht : Tracked c r s) (hs : s.stamped = some stamp) (hc : win.conversationId = c)
    (hstamp : win.lastAssembledAt = some stamp) : s.db.needsAssembly win = true ↔ ∃ began ∈ s.late, stamp < began := by
  obtain ⟨found, hfound, -, hbefore⟩ := ht.times
  have htimes : s.db.needsAssembly win = true ↔ ∃ t ∈ times s.db c, stamp < t := by
    simp only [Db.needsAssembly, hc, hstamp, List.any_eq_true, decide_eq_true_eq, times, List.mem_map,
      exists_exists_and_eq_and]
  rw [htimes, hfound]
  constructor
  · rintro ⟨t, hmem, hlt⟩
    rcases List.mem_append.mp hmem with hold | hnew
    · exact absurd (hbefore t hold stamp hs) (Nat.not_le_of_lt hlt)
    · exact ⟨t, hnew, hlt⟩
  · rintro ⟨t, hmem, hlt⟩
    exact ⟨t, List.mem_append_right _ hmem, hlt⟩

end

/-- **Wake-ups** after a pass, in every interleaving: a window whose conversation has a
message that the pass did not load is selected again exactly when there is no such
message, all having been within the limit and nothing having come since, or when a
transaction that has added one began after the stamp. -/
theorem wakeup_iff (evs : List Event) (config : Config) (env : Env) (win win' : Window) (s : State) (stamp : Time)
    (hwin : (broker.run evs).window? win.id = some win)
    (hs : (system config env (broker.run evs) win).Reachable s) (hstamped : s.stamped = some stamp)
    (hwin' : s.db.window? win.id = some win') :
    (Unread s win.conversationId → s.db.needsAssembly win' = true) ↔
      s.late = [] ∧ (∃ r ∈ s.read, r.withinLimit = true) ∨ ∃ began ∈ s.late, stamp < began := by
  have hseen := (seen_inductive (valid_run evs).consecutive hwin).reachable hs
  obtain ⟨x, hx, hconv, hx'⟩ := hseen.window
  obtain rfl := Option.some.inj (hx.symm.trans hwin')
  obtain ⟨r, hr⟩ := Option.isSome_iff_exists.mp (hseen.ended (by rw [hstamped]; rfl)).1
  have htracked := hseen.tracked r hr
  have hwithin : (∃ r ∈ s.read, r.withinLimit = true) ↔ r.withinLimit = true := by
    simp [hr]
  rw [unread_iff hseen htracked, needsAssembly_iff htracked hstamped hconv (hx' stamp hstamped), hwithin]
  tauto

/-- A pass at time 1, with no store under way. -/
def starting (evs : List Event) : State :=
  { db := broker.run evs, clock := 1, inFlight := [], node := some .acquireAssemblyLock
    st := { contextWindowId := 1, conversationId := 0 } }

/-- A message stored at time 2. -/
def laterStore : Store :=
  .message 2 { conversationIdInput := some 0, role := .user, sender := ['c'], content := some ['x'] }

/-- The store begins and commits before `compact_tier1` has its summaries, and the
pass goes on to `finalize_assembly`. -/
def overtaken : List Label :=
  List.replicate 4 .node ++ [.tick, .begin laterStore, .commit laterStore, .tick] ++ List.replicate 2 .node

theorem overtaken_run : ∃ s, LTS.exec (step defaultConfig (calm ['s']))
      (starting (opened .tieredSummary 8 ++ chat 3 8)) overtaken = some s ∧
    (system defaultConfig (calm ['s']) (broker.run (opened .tieredSummary 8 ++ chat 3 8)) sampleWindow).Reachable s ∧
      s.stamped = some 3 ∧ s.late = [2] ∧ Unread s 0 ∧ ∃ win', s.db.window? 1 = some win' ∧
        s.db.needsAssembly win' = false := by
  have hrun : ∃ s ∈ LTS.exec (step defaultConfig (calm ['s']))
        (starting (opened .tieredSummary 8 ++ chat 3 8)) overtaken,
      s.stamped = some 3 ∧ s.late = [2] ∧ Unread s 0 ∧ ∃ win' ∈ s.db.window? 1, s.db.needsAssembly win' = false := by
    decide +kernel
  have hpast : ∀ m ∈ (broker.run (opened .tieredSummary 8 ++ chat 3 8)).messages, m.createdAt ≤ 1 := by decide +kernel
  obtain ⟨s, hs, hstamped, hlate, hunread, hwin'⟩ := hrun
  exact ⟨s, hs,
    ⟨_, _, ⟨rfl, rfl, rfl, rfl, rfl, rfl, (fun _ h => absurd h List.not_mem_nil), hpast⟩, LTS.run_of_exec hs⟩,
    hstamped, hlate, hunread, hwin'⟩

theorem wakeup_iff_overtaken : ∃ s, LTS.exec (step defaultConfig (calm ['s']))
      (starting (opened .tieredSummary 8 ++ chat 3 8)) overtaken = some s ∧
    ∃ win', s.db.window? 1 = some win' ∧ ¬ (Unread s 0 → s.db.needsAssembly win' = true) := by
  obtain ⟨s, hs, hreach, hstamped, hlate, -, win', hwin', -⟩ := overtaken_run
  refine ⟨s, hs, win', hwin', (wakeup_iff (opened .tieredSummary 8 ++ chat 3 8) defaultConfig (calm ['s']) sampleWindow
    win' s 3 (by decide +kernel) hreach hstamped hwin').not.mpr ?_⟩
  rw [hlate]
  rintro (⟨hnil, -⟩ | ⟨began, hbegan, hlt⟩)
  · cases hnil
  · rw [List.mem_singleton.mp hbegan] at hlt
    exact absurd hlt (by decide)

/-- A store that begins and commits during the pass's LLM calls has a time before the
stamp, and its message was not loaded: nothing selects the window. -/
theorem wakeup_lost :
    ¬ ∀ (evs : List Event) (config : Config) (env : Env) (win win' : Window) (s : State) (stamp : Time),
      (broker.run evs).window? win.id = some win →
      (system config env (broker.run evs) win).Reachable s → s.stamped = some stamp →
      s.db.window? win.id = some win' → Unread s win.conversationId → s.db.needsAssembly win' = true := by
  intro h
  obtain ⟨s, -, hreach, hstamped, -, hunread, win', hwin', hnot⟩ := overtaken_run
  have hselected := h _ defaultConfig (calm ['s']) sampleWindow win' s 3 (by decide +kernel) hreach hstamped hwin'
    hunread
  rw [hnot] at hselected
  cases hselected

end Wakeup

end ContextBroker
