import ContextBroker.L3Assembly.NodeSpecs

/-!
# What a whole pass does

`assemble_effect` says once what any assembly pass can do, whatever its
environment and however it ends: the tables stay valid and evolve as
`Evolves` allows, and the watermark of its window stays, drops to 0 (a full
compaction that keeps no chunk), or moves up to a message of the partition
the pass computed (`Advanced`). Everything about runs follows from it.

The proof annotates the nodes of the graph: `Before` until the first insert,
`PassEffect` after it.
-/
namespace ContextBroker.StandardTiered

open Rows Spans

/-- The loaded list as a stretch of the conversation. -/
def Stretch (db : Db) (c : Id) (loaded : List Message) : Prop :=
  ∃ pre new, (db.messagesOf c).map Message.core = pre ++ loaded.map Message.core ++ new

/-- The loaded list is the newest rows of a database `db` grew into. -/
def Reaches (db : Db) (c : Id) (loaded : List Message) : Prop :=
  ∃ db' k, db.Grows db' ∧ db'.Consecutive ∧ loaded = (db'.messagesOf c).drop k

section

variable {db db' : Db} {c : Id} {loaded : List Message}

theorem numbered_map_core {a : Nat} {l : List Message} :
    Numbered (·.sequenceNumber) a (l.map Message.core) ↔ Numbered (·.sequenceNumber) a l := by
  simp only [Numbered, List.map_map, List.length_map]
  rfl

theorem Stretch.numbered (h : Stretch db c loaded) (hdb : db.Consecutive) :
    ∃ a, 0 < a ∧ Numbered (·.sequenceNumber) a loaded ∧ a + loaded.length ≤ db.count c + 1 := by
  obtain ⟨pre, new, h⟩ := h
  have hall : Numbered (·.sequenceNumber) 1 (pre ++ loaded.map Message.core ++ new) :=
    h ▸ numbered_map_core.mpr (hdb c)
  obtain ⟨_, hl⟩ := numbered_append.mp (numbered_append.mp hall).1
  have hlen := congrArg List.length h
  simp only [List.length_map, List.length_append] at hlen
  refine ⟨1 + pre.length, by omega, numbered_map_core.mp hl, ?_⟩
  simp only [Db.count]
  omega

theorem Stretch.of_messages (h : Stretch db c loaded)
    (hm : ∃ new, (db'.messagesOf c).map Message.core = (db.messagesOf c).map Message.core ++ new) :
    Stretch db' c loaded := by
  obtain ⟨pre, new, h⟩ := h
  obtain ⟨new', hm⟩ := hm
  exact ⟨pre, new ++ new', by rw [hm, h, List.append_assoc]⟩

theorem reaches_nil (hdb : db.Consecutive) : Reaches db c [] :=
  ⟨db, (db.messagesOf c).length, .refl db, hdb, List.drop_length.symm⟩

theorem stretch_nil : Stretch db c [] := ⟨(db.messagesOf c).map Message.core, [], by simp⟩

theorem stretch_drop (k : Nat) : Stretch db c ((db.messagesOf c).drop k) :=
  ⟨((db.messagesOf c).take k).map Message.core, [], by
    rw [List.append_nil, ← List.map_append, List.take_append_drop]⟩

end

/-! ## The effect of a pass -/

variable (config : Config) (env : Env) (win : Window) (db₀ : Db)

/-- The pass moved the watermark up, to a message `m` of its partition. -/
structure Advanced (s : PassState) (m : Message) : Prop where
  mem : m ∈ s.st.allMessages
  mark : s.db.watermark win.id = m.sequenceNumber
  above : db₀.watermark win.id < m.sequenceNumber
  /-- `m` and what came after it did not fit the tier-1 ceiling. -/
  ceiling : ∃ bt, getBuildTypeConfig config win.buildType = .ok bt ∧
    passCeiling bt win db₀ <
      total messageTokens (s.st.allMessages.filter (m.sequenceNumber ≤ ·.sequenceNumber))
  /-- What the watermark passed is stored, unless its own LLM call failed. -/
  accounted : ∀ x ∈ s.st.allMessages, db₀.watermark win.id < x.sequenceNumber →
    x.sequenceNumber ≤ m.sequenceNumber →
      (∃ k chunk e, s.st.chunks[k]? = some chunk ∧ x ∈ chunk ∧ env.chunkReply k = .error e) ∨
        Stored s.db win.id x.sequenceNumber

structure PassEffect (s : PassState) : Prop where
  valid : Valid s.db
  evolves : Evolves win.id db₀ s.db
  windowId : s.st.contextWindowId = win.id
  convId : s.st.conversationId = win.conversationId
  reaches : Reaches db₀ win.conversationId s.st.allMessages
  stretch : Stretch s.db win.conversationId s.st.allMessages
  mark : s.db.watermark win.id = db₀.watermark win.id ∨ s.db.watermark win.id = 0 ∨
    ∃ m, Advanced config env win db₀ s m

/-- Up to the first insert a pass has only seen stores. -/
structure Before (s : PassState) : Prop where
  valid : Valid s.db
  grows : db₀.Grows s.db
  windowId : s.st.contextWindowId = win.id
  convId : s.st.conversationId = win.conversationId
  reaches : Reaches db₀ win.conversationId s.st.allMessages
  stretch : Stretch s.db win.conversationId s.st.allMessages

variable {config env win db₀} {s : PassState}

theorem Before.effect (h : Before win db₀ s) : PassEffect config env win db₀ s :=
  ⟨h.valid, .of_grows h.grows, h.windowId, h.convId, h.reaches, h.stretch, .inl (h.grows.watermark _)⟩

theorem Before.storeAll (h : Before win db₀ s) (stores : List Store) :
    Before win db₀ { s with db := s.db.storeAll stores } := by
  have hg := storeAll_grows stores s.db
  exact ⟨h.valid.storeAll stores, h.grows.trans hg, h.windowId, h.convId, h.reaches,
    h.stretch.of_messages (hg.messages _)⟩

theorem Before.congr (st : AssemblyState) (h : Before win db₀ s)
    (hw : st.contextWindowId = s.st.contextWindowId) (hc : st.conversationId = s.st.conversationId)
    (hm : st.allMessages = s.st.allMessages) : Before win db₀ { s with st := st } :=
  ⟨h.valid, h.grows, hw.trans h.windowId, hc.trans h.convId, hm ▸ h.reaches, hm ▸ h.stretch⟩

/-- A later database whose watermark is the same, or back at 0. -/
theorem PassEffect.later {db' : Db} (h : PassEffect config env win db₀ s) (hv : Valid db')
    (hev : Evolves win.id s.db db')
    (hmark : db'.watermark win.id = s.db.watermark win.id ∨ db'.watermark win.id = 0) :
    PassEffect config env win db₀ { s with db := db' } := by
  refine ⟨hv, h.evolves.trans hev, h.windowId, h.convId, h.reaches,
    h.stretch.of_messages (hev.messages _), ?_⟩
  rcases hmark with hmark | hzero
  · rcases h.mark with hm | hm | ⟨m, hm⟩
    · exact .inl (hmark.trans hm)
    · exact .inr (.inl (hmark.trans hm))
    · exact .inr (.inr ⟨m, hm.mem, hmark.trans hm.mark, hm.above, hm.ceiling,
        fun x hx hlo hhi => (hm.accounted x hx hlo hhi).imp_right hev.stored⟩)
  · exact .inr (.inl hzero)

theorem PassEffect.storeAll (h : PassEffect config env win db₀ s) (stores : List Store) :
    PassEffect config env win db₀ { s with db := s.db.storeAll stores } := by
  have hg := storeAll_grows stores s.db
  exact h.later (h.valid.storeAll stores) (.of_grows hg) (.inl (hg.watermark _))

/-- Fields the effect does not mention may change. -/
theorem PassEffect.congr (st : AssemblyState) (h : PassEffect config env win db₀ s)
    (hw : st.contextWindowId = s.st.contextWindowId) (hc : st.conversationId = s.st.conversationId)
    (hm : st.allMessages = s.st.allMessages) (hk : st.chunks = s.st.chunks) :
    PassEffect config env win db₀ { s with st := st } := by
  refine ⟨h.valid, h.evolves, hw.trans h.windowId, hc.trans h.convId, hm ▸ h.reaches, hm ▸ h.stretch,
    h.mark.imp_right (Or.imp_right ?_)⟩
  intro ⟨m, ha⟩
  exact ⟨m, hm ▸ ha.mem, ha.mark, ha.above, hm ▸ ha.ceiling, by
    rw [hm, hk]; exact ha.accounted⟩

/-! ## Up to the partition -/

/-- The chunks of a partition are ahead of the watermark. -/
theorem Partitioned.ahead {bt : BuildTypeConfig} (hb : Before win db₀ s)
    (hp : Partitioned (s.db.watermark s.st.contextWindowId) (passCeiling bt win s.db) s.st)
    (hne : s.st.chunks ≠ []) :
    ∃ a, Ahead s.db s.st.contextWindowId s.st.conversationId a s.st.chunks := by
  obtain ⟨a, ha, hnum, hlen⟩ := hb.stretch.numbered hb.valid.consecutive
  have holder := (numbered_append.mp (hp.append ▸ hnum)).1
  have hflat := hp.chunks.resolve_left hne
  have habove := holder.above (s.db.watermark s.st.contextWindowId)
  rw [← hflat] at habove
  refine ⟨_, hp.nonempty, habove, by omega, ?_⟩
  rw [hb.convId]
  by_cases hnil : s.st.chunks.flatten = []
  · rw [hnil]
    obtain ⟨c, hc⟩ := List.exists_mem_of_ne_nil _ hne
    exact absurd (List.flatten_eq_nil_iff.mp hnil c hc) (hp.nonempty c hc)
  · -- the last row of the chunks is one of the loaded list
    obtain ⟨m, hm⟩ : ∃ m, m ∈ s.st.chunks.flatten ∧
        m.sequenceNumber + 1 = max a (s.db.watermark s.st.contextWindowId + 1) +
          s.st.chunks.flatten.length := by
      have hpos := List.length_pos_iff.mpr hnil
      obtain ⟨m, hm, hs⟩ := habove.exists_key
        (s := max a (s.db.watermark s.st.contextWindowId + 1) + (s.st.chunks.flatten.length - 1))
        (by omega) (by omega)
      exact ⟨m, hm, by omega⟩
    have hmem : m ∈ s.st.allMessages := by
      rw [← hp.append]
      exact List.mem_append_left _ (List.mem_of_mem_filter (hflat ▸ hm.1))
    have := (hnum.mem hmem).2
    omega

/-- The first message a chunk can end at and everything after it exceed the
ceiling. -/
theorem Partitioned.exceeds {wm : Nat} {ceiling : Int} {st : AssemblyState} {m : Message}
    (hp : Partitioned wm ceiling st) (hasc : Ascending (·.sequenceNumber) st.allMessages)
    (hm : m ∈ st.olderMessages) :
    ceiling < total messageTokens (st.allMessages.filter (m.sequenceNumber ≤ ·.sequenceNumber)) := by
  obtain ⟨init, last, hlast⟩ := List.eq_nil_or_concat' st.olderMessages |>.resolve_left
    (List.ne_nil_of_mem hm)
  have hstop := hp.stop init last hlast
  rw [← hp.append] at hasc ⊢
  obtain ⟨hold, _, hcross⟩ := List.pairwise_append.mp hasc
  have hle : m.sequenceNumber ≤ last.sequenceNumber := by
    rw [hlast] at hold hm
    rcases List.mem_append.mp hm with hm | hm
    · exact Nat.le_of_lt ((List.pairwise_append.mp hold).2.2 m hm last (List.mem_singleton_self _))
    · rw [List.mem_singleton.mp hm]
  have htier : st.tier1Messages.filter (m.sequenceNumber ≤ ·.sequenceNumber) = st.tier1Messages :=
    List.filter_eq_self.mpr fun x hx => decide_eq_true (Nat.le_of_lt (hcross m hm x hx))
  rw [List.filter_append, htier, total_append, hlast, List.filter_append]
  have hsingle : [last].filter (m.sequenceNumber ≤ ·.sequenceNumber) = [last] := by
    simp [hle]
  rw [hsingle, total_append, total_cons, total_nil]
  omega

/-- A compaction of a partition is an effect. -/
theorem Compacted.effect {bt : BuildTypeConfig} {db' : Db} (hb : Before win db₀ s)
    (hacc : getBuildTypeConfig config win.buildType = .ok bt)
    (hp : Partitioned (s.db.watermark s.st.contextWindowId) (passCeiling bt win s.db) s.st)
    (hne : s.st.chunks ≠ []) (h : Compacted env s.st s.db db') :
    PassEffect config env win db₀ { s with db := db' } := by
  obtain ⟨a, _, hnum, _⟩ := hb.stretch.numbered hb.valid.consecutive
  have hflat := hp.chunks.resolve_left hne
  have hceil : passCeiling bt win s.db = passCeiling bt win db₀ := by
    simp only [passCeiling, hb.grows.active]
  have hmark := hb.grows.watermark win.id
  have hevolves := h.evolves
  have hacct := h.accounted
  rw [hb.windowId] at hevolves hacct hflat
  refine ⟨h.valid, (Evolves.of_grows hb.grows).trans hevolves, hb.windowId, hb.convId, hb.reaches,
    hb.stretch.of_messages (h.evolves.messages _), ?_⟩
  rcases h.mark with hm | ⟨m, hm, hw, hlt⟩
  · rw [hb.windowId] at hm
    exact .inl (hm.trans hmark)
  · rw [hb.windowId] at hw hlt
    rw [hmark] at hlt hflat
    obtain ⟨hold, _⟩ := List.mem_filter.mp (hflat ▸ hm)
    refine .inr (.inr ⟨m, hp.append ▸ List.mem_append_left _ hold, hw, hlt,
      ⟨bt, hacc, hceil ▸ hp.exceeds hnum.ascending hold⟩, fun x hx hlo hhi => ?_⟩)
    -- x is below m, hence older, hence in a chunk
    have hxold : x ∈ s.st.olderMessages := by
      rw [← hp.append] at hx hnum
      rcases List.mem_append.mp hx with hx | hx
      · exact hx
      · have hcross : m.sequenceNumber < x.sequenceNumber :=
          (List.pairwise_append.mp hnum.ascending).2.2 m hold x hx
        omega
    have hxflat : x ∈ s.st.chunks.flatten :=
      hflat ▸ List.mem_filter.mpr ⟨hxold, decide_eq_true hlo⟩
    obtain ⟨chunk, hchunk, hxc⟩ := List.mem_flatten.mp hxflat
    obtain ⟨k, hk, hget⟩ := List.getElem_of_mem hchunk
    have hk? : s.st.chunks[k]? = some chunk := by rw [List.getElem?_eq_getElem hk, hget]
    rcases hacct k chunk hk? x hxc (by omega) with ⟨e, he⟩ | hs
    · exact .inl ⟨k, chunk, e, hk?, hxc, he⟩
    · exact .inr hs

/-! ## The annotated graph -/

/-- What holds when a node is entered. -/
def Assertion (config : Config) (env : Env) (win : Window) (db₀ : Db) : Node → PassState → Prop
  | .acquireAssemblyLock, s => Before win db₀ s
  | .loadWindowConfig, s => Before win db₀ s
  | .loadMessages, s => Before win db₀ s ∧ ∃ bt, Configured config win bt s.st
  | .calculateCompactionState, s =>
    Before win db₀ s ∧ (∃ bt, Configured config win bt s.st) ∧ s.st.allMessages ≠ []
  | .compactTier1, s =>
    Before win db₀ s ∧ s.st.chunks ≠ [] ∧ ∃ bt, getBuildTypeConfig config win.buildType = .ok bt ∧
      Partitioned (s.db.watermark s.st.contextWindowId) (passCeiling bt win s.db) s.st
  | .runFullCompaction, s => PassEffect config env win db₀ s
  | .finalizeAssembly, s => PassEffect config env win db₀ s
  | .releaseAssemblyLock, s => PassEffect config env win db₀ s

theorem Assertion.effect (n : Node) (h : Assertion config env win db₀ n s) :
    PassEffect config env win db₀ s := by
  cases n with
  | acquireAssemblyLock | loadWindowConfig => exact Before.effect h
  | loadMessages | calculateCompactionState | compactTier1 => exact h.1.effect
  | runFullCompaction | finalizeAssembly | releaseAssemblyLock => exact h

/-- Cutting the oldest chunks keeps the watermark, unless none is left. -/
theorem watermark_drop {db db' : Db} {w : Id} {k : Nat} (hv : Valid db)
    (h : db'.active w .two = (db.active w .two).drop k) :
    db'.watermark w = db.watermark w ∨ db'.watermark w = 0 := by
  rcases Nat.lt_or_ge k (db.active w .two).length with hk | hk
  · refine .inl ?_
    rw [Db.watermark, h]
    exact (hv.chain w).top_drop (hv.activeRange w .two) hk
  · refine .inr ?_
    rw [Db.watermark, h, List.drop_eq_nil_of_le hk, maxOf_nil]

theorem node_eq {n : Node} {s' : PassState} {e : Option Exn} (h : node config env n s = (s', e)) :
    ∃ db', (e = none ∧ ∃ st', nodeBody config env n s.db s.st = (db', .ok st') ∧
        s' = ⟨db'.storeAll (env.arrivals n), st'⟩) ∨
      (∃ x, e = some x ∧ nodeBody config env n s.db s.st = (db', .error x) ∧
        s' = ⟨db'.storeAll (env.arrivals n), s.st⟩) := by
  unfold node at h
  split at h
  · rename_i db' st' hb
    cases h
    exact ⟨db', .inl ⟨rfl, st', hb, rfl⟩⟩
  · rename_i db' x hb
    cases h
    exact ⟨db', .inr ⟨x, rfl, hb, rfl⟩⟩

/-- The body of a node, whether it returns or raises: the effect so far. -/
theorem nodeBody_effect (hw : db₀.window? win.id = some win) {n : Node} {db' : Db}
    {out : Except Exn AssemblyState} (hA : Assertion config env win db₀ n s)
    (h : nodeBody config env n s.db s.st = (db', out)) :
    PassEffect config env win db₀ { s with db := db' } := by
  have heff := Assertion.effect n hA
  obtain ⟨win', hw', hconv, _, _⟩ := heff.evolves.windows _ _ hw
  have hws : s.db.window? s.st.contextWindowId = some win' := heff.windowId ▸ hw'
  have hcs : win'.conversationId = s.st.conversationId := hconv.trans heff.convId.symm
  cases n with
  | acquireAssemblyLock | loadWindowConfig | loadMessages | calculateCompactionState
  | releaseAssemblyLock =>
    obtain rfl := (Prod.mk.inj h).1
    exact heff
  | compactTier1 =>
    obtain ⟨hb, hne, bt, hacc, hp⟩ := hA
    obtain ⟨a, hah⟩ := hp.ahead hb hne
    have hcomp := compactTier1_spec env hws hcs hb.valid hah
    rw [show (compactTier1 env s.db s.st).1 = db' from congrArg Prod.fst h] at hcomp
    exact hcomp.effect hb hacc hp hne
  | runFullCompaction =>
    obtain ⟨hv, hev, k, hact⟩ := runFullCompaction_spec env hws hcs heff.valid
    rw [show (runFullCompaction env s.db s.st).1 = db' from congrArg Prod.fst h, heff.windowId] at hact
    rw [show (runFullCompaction env s.db s.st).1 = db' from congrArg Prod.fst h] at hv hev
    exact heff.later hv (heff.windowId ▸ hev) (watermark_drop heff.valid hact)
  | finalizeAssembly =>
    change finalizeAssembly env s.db s.st = (db', out) at h
    unfold finalizeAssembly at h
    split at h
    · obtain rfl := (Prod.mk.inj h).1
      exact heff
    · split at h
      · obtain rfl := (Prod.mk.inj h).1
        exact heff
      · obtain rfl := (Prod.mk.inj h).1
        exact heff.later (heff.valid.stampAssembled _ _) (.of_stampAssembled _ _) (.inl rfl)

/-- A read-only node that returned left the database alone. -/
theorem Before.node (env : Env) (n : Node) {db' : Db} {st' : AssemblyState} (h : Before win db₀ ⟨s.db, st'⟩)
    (hdb : db' = s.db) : Before win db₀ ⟨db'.storeAll (env.arrivals n), st'⟩ :=
  hdb ▸ h.storeAll _

theorem moves_loadWindowConfig (hw : db₀.window? win.id = some win)
    (hb : Before win db₀ s) {st' : AssemblyState}
    (h : loadWindowConfig config env s.db s.st = .ok st') :
    Before win db₀ ⟨s.db, st'⟩ ∧ (st'.error = none → ∃ bt, Configured config win bt st') := by
  have hws : s.db.window? s.st.contextWindowId = some win := by
    rw [hb.windowId, hb.grows.window?, hw]
  rcases loadWindowConfig_ok hws h with ⟨e, rfl⟩ | ⟨bt, _, rfl, hcfg⟩
  · exact ⟨hb.congr _ rfl rfl rfl, fun he => nomatch he⟩
  · exact ⟨hb.congr _ rfl rfl rfl, fun _ => ⟨bt, hcfg⟩⟩

theorem moves_loadMessages (hA : Assertion config env win db₀ .loadMessages s) {st' : AssemblyState}
    (h : loadMessages config env s.db s.st = .ok st') :
    Before win db₀ ⟨s.db, st'⟩ ∧ ∃ bt, Configured config win bt st' := by
  obtain ⟨hb, bt, hcfg⟩ := hA
  obtain ⟨limit, _, rfl⟩ := loadMessages_ok hb.valid.consecutive h
  refine ⟨⟨hb.valid, hb.grows, hb.windowId, hb.convId, ?_, ?_⟩, bt, hcfg.1, hcfg.2, hcfg.3⟩
  · exact ⟨s.db, _, hb.grows, hb.valid.consecutive, by rw [← hb.convId]⟩
  · exact hb.convId ▸ stretch_drop _

theorem moves_calculate (hA : Assertion config env win db₀ .calculateCompactionState s)
    {st' : AssemblyState} (h : calculateCompactionState config env s.db s.st = .ok st') :
    Before win db₀ ⟨s.db, st'⟩ ∧ ∃ bt, getBuildTypeConfig config win.buildType = .ok bt ∧
      Partitioned (s.db.watermark st'.contextWindowId) (passCeiling bt win s.db) st' := by
  obtain ⟨hb, ⟨bt, hcfg⟩, hne⟩ := hA
  obtain ⟨a, _, hnum, _⟩ := hb.stretch.numbered hb.valid.consecutive
  obtain ⟨_, _, _, _, rfl, hp⟩ :=
    calculateCompactionState_ok hcfg hb.windowId.symm hnum.ascending hne h
  exact ⟨hb.congr _ rfl rfl rfl, bt, hcfg.accepted, hp⟩

/-- The nodes that neither load nor cut keep the effect. -/
theorem node_effect (hw : db₀.window? win.id = some win) {n : Node}
    (hA : Assertion config env win db₀ n s) (hload : n ≠ .loadMessages)
    (hcalc : n ≠ .calculateCompactionState) {db' : Db} {st' : AssemblyState}
    (hb : nodeBody config env n s.db s.st = (db', .ok st')) :
    PassEffect config env win db₀ ⟨db'.storeAll (env.arrivals n), st'⟩ := by
  obtain ⟨hid, hconv, hall, hkeep⟩ := nodeBody_state (congrArg Prod.snd hb)
  have heff := nodeBody_effect hw hA hb
  exact (heff.congr st' hid hconv (hall hload) (hkeep hcalc).1).storeAll _

/-- Along every edge the assertions hold on. -/
theorem assertion_moves (hw : db₀.window? win.id = some win) {n m : Node} {s' : PassState}
    (hA : Assertion config env win db₀ n s) (hn : node config env n s = (s', none))
    (hr : route n s' = some m) : Assertion config env win db₀ m s' := by
  obtain ⟨db', ⟨_, st', hb, rfl⟩ | ⟨x, hx, _⟩⟩ := node_eq hn
  case inr => cases hx
  have hdb := (Prod.mk.inj hb).1.symm
  have hst := (Prod.mk.inj hb).2
  cases edge_of_route hr with
  | locked =>
    obtain ⟨hid, hconv, hall, _⟩ := nodeBody_state (congrArg Prod.snd hb)
    exact (Before.congr st' hA hid hconv (hall (by decide))).node env .acquireAssemblyLock hdb
  | configFailed =>
    obtain ⟨hbefore, _⟩ := moves_loadWindowConfig hw hA hst
    exact (hbefore.node env .loadWindowConfig hdb).effect
  | configured herr =>
    obtain ⟨hbefore, hcfg⟩ := moves_loadWindowConfig hw hA hst
    exact ⟨hbefore.node env .loadWindowConfig hdb, hcfg herr⟩
  | loadFailed | noneLoaded =>
    obtain ⟨hbefore, _⟩ := moves_loadMessages hA hst
    exact (hbefore.node env .loadMessages hdb).effect
  | loaded _ hne =>
    obtain ⟨hbefore, hcfg⟩ := moves_loadMessages hA hst
    exact ⟨hbefore.node env .loadMessages hdb, hcfg, hne⟩
  | partitionFailed | noChunks =>
    obtain ⟨hbefore, _⟩ := moves_calculate hA hst
    exact (hbefore.node env .calculateCompactionState hdb).effect
  | chunked _ hne =>
    obtain ⟨hbefore, bt, hacc, hp⟩ := moves_calculate hA hst
    subst hdb
    have hg := storeAll_grows (env.arrivals .calculateCompactionState) s.db
    refine ⟨hbefore.storeAll (env.arrivals .calculateCompactionState), hne, bt, hacc, ?_⟩
    rw [hg.watermark, passCeiling, hg.active]
    exact hp
  | chunksFailed | tier2Full | tier2Open | compacted | finalized =>
    exact node_effect hw hA (by decide) (by decide) hb

theorem outline (hw : db₀.window? win.id = some win) :
    (assemblyGraph config env).Outline (Assertion config env win db₀)
      fun _ s => PassEffect config env win db₀ s where
  raises n s s' e hA hn := by
    obtain ⟨db', ⟨hx, _⟩ | ⟨x, _, hb, rfl⟩⟩ := node_eq hn
    · cases hx
    · exact (nodeBody_effect hw hA hb).storeAll _
  ends n s s' hA hn hr := by
    obtain ⟨db', ⟨_, st', hb, rfl⟩ | ⟨x, hx, _⟩⟩ := node_eq hn
    · rcases route_eq_none hr with rfl | ⟨rfl, _⟩ <;> exact node_effect hw hA (by decide) (by decide) hb
    · cases hx
  moves _ _ _ _ hA hn hr := assertion_moves hw hA hn hr

/-- **Every pass**, in any environment and however it ends, has one of the
effects of `PassEffect`. -/
theorem assemble_effect (hv : Valid db₀) (hw : db₀.window? win.id = some win) :
    PassEffect config env win db₀ (assemble config env db₀ win.id win.conversationId).final :=
  (outline hw).invoke (s := ⟨db₀, _⟩)
    ⟨hv, .refl db₀, rfl, rfl, reaches_nil hv.consecutive, stretch_nil⟩

/-! ## The partition at the end -/

/-- The loaded list, cut in two: tier 1 fits the ceiling. -/
structure Filled (ceiling : Int) (st : AssemblyState) : Prop where
  append : st.olderMessages ++ st.tier1Messages = st.allMessages
  fits : (total messageTokens st.tier1Messages : Int) ≤ max 0 ceiling

/-- Nothing loaded yet. -/
structure Fresh (st : AssemblyState) : Prop where
  all : st.allMessages = []
  older : st.olderMessages = []
  tier1 : st.tier1Messages = []

theorem Fresh.filled {st : AssemblyState} (h : Fresh st) (ceiling : Int) : Filled ceiling st :=
  ⟨by rw [h.all, h.older, h.tier1]; rfl, by rw [h.tier1]; exact le_max_left _ _⟩

theorem Fresh.congr {st st' : AssemblyState} (h : Fresh st)
    (hall : st'.allMessages = st.allMessages) (holder : st'.olderMessages = st.olderMessages)
    (htier1 : st'.tier1Messages = st.tier1Messages) : Fresh st' :=
  ⟨hall.trans h.all, holder.trans h.older, htier1.trans h.tier1⟩

theorem Filled.congr {ceiling : Int} {st st' : AssemblyState} (h : Filled ceiling st)
    (hall : st'.allMessages = st.allMessages) (holder : st'.olderMessages = st.olderMessages)
    (htier1 : st'.tier1Messages = st.tier1Messages) : Filled ceiling st' :=
  ⟨by rw [hall, holder, htier1]; exact h.append, by rw [htier1]; exact h.fits⟩

/-- Empty until `load_messages`, a partition from `calculate_compaction_state` on. -/
def Cut (config : Config) (win : Window) (db₀ : Db) : Node → PassState → Prop
  | .acquireAssemblyLock, s | .loadWindowConfig, s => Fresh s.st
  | .loadMessages, s => Fresh s.st ∧ s.st.error = none
  | .calculateCompactionState, _ => True
  | .compactTier1, s | .runFullCompaction, s | .finalizeAssembly, s | .releaseAssemblyLock, s =>
    ∀ bt, getBuildTypeConfig config win.buildType = .ok bt → Filled (passCeiling bt win db₀) s.st

theorem cut_moves {n m : Node} {s s' : PassState}
    (hA : Assertion config env win db₀ n s) (hC : Cut config win db₀ n s)
    (hn : node config env n s = (s', none)) (hr : route n s' = some m) : Cut config win db₀ m s' := by
  obtain ⟨db', ⟨_, st', hb, rfl⟩ | ⟨x, hx, _⟩⟩ := node_eq hn
  case inr => cases hx
  obtain ⟨_, _, hall, hkeep⟩ := nodeBody_state (congrArg Prod.snd hb)
  cases edge_of_route hr with
  | locked =>
    obtain ⟨_, holder, htier1⟩ := hkeep (by decide)
    exact hC.congr (hall (by decide)) holder htier1
  | configFailed =>
    obtain ⟨_, holder, htier1⟩ := hkeep (by decide)
    exact fun _ _ => (hC.congr (hall (by decide)) holder htier1).filled _
  | configured herr =>
    obtain ⟨_, holder, htier1⟩ := hkeep (by decide)
    exact ⟨hC.congr (hall (by decide)) holder htier1, herr⟩
  | loadFailed herr =>
    obtain ⟨rows, rfl⟩ := loadMessages_state (congrArg Prod.snd hb)
    rw [show s.st.error = none from hC.2] at herr
    cases herr
  | noneLoaded _ hnil =>
    obtain ⟨_, holder, htier1⟩ := hkeep (by decide)
    exact fun _ _ => Fresh.filled ⟨hnil, holder.trans hC.1.older, htier1.trans hC.1.tier1⟩ _
  | loaded => trivial
  | partitionFailed | noChunks | chunked =>
    obtain ⟨_, bt', hacc, hp⟩ := moves_calculate hA (Prod.mk.inj hb).2
    intro bt hbt
    obtain rfl := Except.ok.inj (hacc.symm.trans hbt)
    have hceil : passCeiling bt' win s.db = passCeiling bt' win db₀ := by
      simp only [passCeiling, hA.1.grows.active]
    exact ⟨hp.append, hceil ▸ hp.fits⟩
  | chunksFailed | tier2Full | tier2Open | compacted | finalized =>
    obtain ⟨_, holder, htier1⟩ := hkeep (by decide)
    exact fun bt hbt => (hC bt hbt).congr (hall (by decide)) holder htier1

theorem cut_outline (hw : db₀.window? win.id = some win) :
    (assemblyGraph config env).Outline
      (fun n s => Assertion config env win db₀ n s ∧ Cut config win db₀ n s)
      fun e s => e = none → ∀ bt, getBuildTypeConfig config win.buildType = .ok bt →
        Filled (passCeiling bt win db₀) s.st where
  raises _ _ _ _ _ _ := fun h => nomatch h
  ends n s s' hA hn hr _ bt hbt := by
    obtain ⟨db', ⟨_, st', hb, rfl⟩ | ⟨x, hx, _⟩⟩ := node_eq hn
    case inr => cases hx
    obtain ⟨_, _, hall, hkeep⟩ := nodeBody_state (congrArg Prod.snd hb)
    rcases route_eq_none hr with rfl | ⟨rfl, _⟩
    · obtain ⟨_, holder, htier1⟩ := hkeep (by decide)
      exact (hA.2 bt hbt).congr (hall (by decide)) holder htier1
    · obtain ⟨_, holder, htier1⟩ := hkeep (by decide)
      exact (hA.2.filled _).congr (hall (by decide)) holder htier1
  moves _ _ _ _ hA hn hr := ⟨assertion_moves hw hA.1 hn hr, cut_moves hA.1 hA.2 hn hr⟩

/-- A pass that ends without an exception leaves a partition of what it loaded. -/
theorem assemble_filled (hv : Valid db₀) (hw : db₀.window? win.id = some win)
    (h : (assemble config env db₀ win.id win.conversationId).raised = none) {bt : BuildTypeConfig}
    (hbt : getBuildTypeConfig config win.buildType = .ok bt) :
    Filled (passCeiling bt win db₀) (assemble config env db₀ win.id win.conversationId).final.st :=
  (cut_outline hw).invoke (s := ⟨db₀, _⟩)
    ⟨⟨hv, .refl db₀, rfl, rfl, reaches_nil hv.consecutive, stretch_nil⟩, rfl, rfl, rfl⟩ h bt hbt

end ContextBroker.StandardTiered
