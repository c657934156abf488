import ContextBroker.L3Assembly.Runs

/-!
# What the watermark passes is accounted for

`calculate_compaction_state` drops every message up to the watermark as
already compacted. `compacted_accounted` says, for every run, what becomes of
such a message: it lies in the range of a stored summary row, or the pass
that moved the watermark past it had not loaded it (`load_messages` reads at
most `loadLimit` rows), or the LLM call of its own chunk failed in that pass
while a later chunk was stored.

`loadMessages_slice` is exact about the load: the newest `loadLimit` rows,
and so everything above the watermark just when there are no more rows than
that above it.
-/
namespace ContextBroker

open Rows StandardTiered

/-! ## Over a run -/

/-- Some pass of the run moved the watermark of window `w` past number `s`,
and `Q` holds of its environment and its last assembly state. -/
def PassedBy (evs : List Event) (w : Id) (s : Nat) (Q : Env → AssemblyState → Prop) : Prop :=
  ∃ pre config env post o, evs = pre ++ .pass config w env :: post ∧
    passOutcome config env (broker.run pre) w = some o ∧
    (broker.run pre).watermark w < s ∧ s ≤ o.final.db.watermark w ∧ Q env o.final.st

/-- The pass had not loaded message number `s`. -/
def NotLoaded (s : Nat) (_ : Env) (st : AssemblyState) : Prop :=
  s ∉ st.allMessages.map (·.sequenceNumber)

/-- The LLM call for the chunk of message number `s` raised. -/
def OwnChunkFailed (s : Nat) (env : Env) (st : AssemblyState) : Prop :=
  ∃ k chunk e, st.chunks[k]? = some chunk ∧ s ∈ chunk.map (·.sequenceNumber) ∧
    env.chunkReply k = .error e

/-- What may have become of message number `s`. -/
def Accounted (evs : List Event) (db : Db) (w : Id) (s : Nat) : Prop :=
  Stored db w s ∨ PassedBy evs w s (NotLoaded s) ∨ PassedBy evs w s (OwnChunkFailed s)

section

variable {evs : List Event} {w : Id} {s : Nat}

theorem PassedBy.snoc {Q : Env → AssemblyState → Prop} (h : PassedBy evs w s Q) (e : Event) :
    PassedBy (evs ++ [e]) w s Q := by
  obtain ⟨pre, config, env, post, o, rfl, rest⟩ := h
  exact ⟨pre, config, env, post ++ [e], o, by simp, rest⟩

theorem Accounted.snoc {db db' : Db} (h : Accounted evs db w s) (e : Event)
    (hs : Stored db w s → Stored db' w s) : Accounted (evs ++ [e]) db' w s :=
  h.imp hs (Or.imp (·.snoc e) (·.snoc e))

/-- A pass accounts for what it moved the watermark past. -/
theorem advanced_accounted {config : Config} {env : Env}
    {o : StateGraph.Outcome Node PassState Exn} {win : Window} {m : Message}
    (ho : passOutcome config env (broker.run evs) w = some o) (hid : win.id = w)
    (h : Advanced config env win (broker.run evs) o.final m)
    (hlo : (broker.run evs).watermark w < s) (hhi : s ≤ o.final.db.watermark w) :
    Accounted (evs ++ [.pass config w env]) o.final.db w s := by
  subst hid
  by_cases hloaded : s ∈ o.final.st.allMessages.map (·.sequenceNumber)
  · obtain ⟨x, hx, rfl⟩ := List.mem_map.mp hloaded
    rcases h.accounted x hx hlo (h.mark ▸ hhi) with ⟨k, chunk, e, hk, hxc, he⟩ | hs
    · exact .inr (.inr ⟨evs, config, env, [], o, rfl, ho, hlo, hhi,
        k, chunk, e, hk, List.mem_map_of_mem hxc, he⟩)
    · exact .inl hs
  · exact .inr (.inl ⟨evs, config, env, [], o, rfl, ho, hlo, hhi, hloaded⟩)

end

theorem accounted_run (evs : List Event) (w : Id) (s : Nat) (hpos : 0 < s)
    (hs : s ≤ (broker.run evs).watermark w) : Accounted evs (broker.run evs) w s := by
  refine Machine.run_hist (M := broker)
    (P := fun evs db => s ≤ db.watermark w → Accounted evs db w s) ?_ ?_ evs hs
  · intro h
    exact absurd h (Nat.not_le.mpr hpos)
  · intro evs e ih hle
    have hv := valid_run evs
    have hkeeps := event_keeps hv e
    change s ≤ (e.apply (broker.run evs)).watermark w at hle
    show Accounted _ (e.apply (broker.run evs)) w s
    have hold (h : s ≤ (broker.run evs).watermark w) := (ih h).snoc e hkeeps.stored
    rcases event_cases hv e w with ⟨config, env, o, rfl, ho, happ⟩ | hquiet
    · obtain ⟨win, _, rfl, heff⟩ := passOutcome_effect hv ho
      rw [happ] at hle hold ⊢
      rcases heff.mark with hm | hm | ⟨m, hadv⟩
      · exact hold (hm ▸ hle)
      · omega
      · rcases Nat.lt_or_ge ((broker.run evs).watermark win.id) s with hlt | hge
        · exact advanced_accounted ho rfl hadv hlt hle
        · exact hold hge
    · exact hold (hquiet.watermark ▸ hle)

/-- The messages of a window's conversation. -/
def Db.windowMessages (db : Db) (w : Id) : List Message :=
  match db.window? w with
  | some win => db.messagesOf win.conversationId
  | none => []

theorem number_pos {db : Db} (hv : Valid db) {w : Id} {m : Message} (hm : m ∈ db.windowMessages w) :
    0 < m.sequenceNumber := by
  unfold Db.windowMessages at hm
  split at hm
  · exact ((hv.consecutive _).mem hm).1
  · cases hm

/-- **The watermark accounts for what it passes.** In every run, a message of
the window's conversation at or below the watermark lies in the range of a
stored summary row, or the pass that moved the watermark past it had not
loaded it, or its own chunk's LLM call had failed there. -/
theorem compacted_accounted (evs : List Event) (w : Id) (m : Message)
    (hm : m ∈ (broker.run evs).windowMessages w)
    (hle : m.sequenceNumber ≤ (broker.run evs).watermark w) :
    Accounted evs (broker.run evs) w m.sequenceNumber :=
  accounted_run evs w m.sequenceNumber (number_pos (valid_run evs) hm) hle

/-- Three messages of two tokens over a ceiling of five, then a pass. -/
def compactedRun : List Event :=
  opened .tieredSummary 8 ++ chat 3 8 ++ [.pass defaultConfig 1 (calm ['s'])]

/-- The oldest message of `compactedRun`. -/
def compactedMessage : Message :=
  { id := 2, conversationId := 0, role := .user, sender := "a".toList
    recipient := "assistant".toList, content := some (List.replicate 8 'x'), tokenCount := some 2
    priority := 1, sequenceNumber := 1, createdAt := 0 }

theorem compacted_accounted_compactedRun :
    Accounted compactedRun (broker.run compactedRun) 1 compactedMessage.sequenceNumber :=
  compacted_accounted compactedRun 1 compactedMessage (by decide +kernel) (by decide +kernel)

/-- 51 messages, one more than a first pass on a small window loads. -/
def overfullRun : List Event :=
  opened .tieredSummary 8 ++ chat 51 1 ++ [.pass defaultConfig 1 (calm ['s'])]

/-- Coverage by stored ranges alone fails without any failure: the pass loads
the newest 50 messages, and its last chunk moves the watermark to 46. -/
theorem stored_of_compacted_false :
    ¬ ∀ (evs : List Event) (w : Id), ∀ m ∈ (broker.run evs).windowMessages w,
      m.sequenceNumber ≤ (broker.run evs).watermark w →
        Stored (broker.run evs) w m.sequenceNumber := by
  intro h
  have hfirst : ∃ m ∈ (broker.run overfullRun).windowMessages 1,
      m.sequenceNumber ≤ (broker.run overfullRun).watermark 1 ∧
        ∀ r ∈ (broker.run overfullRun).summariesOf 1,
          ¬ (r.fromSeq ≤ m.sequenceNumber ∧ m.sequenceNumber ≤ r.toSeq) := by
    decide +kernel
  obtain ⟨m, hm, hle, hnone⟩ := hfirst
  obtain ⟨r, hr, hin⟩ := h overfullRun 1 m hm hle
  exact hnone r hr hin

/-! ## The loaded slice -/

/-- A suffix of numbered rows holds all rows above `n` exactly if there are no
more of those than its length. -/
theorem drop_covers_above {l : List Message} (h : Numbered (·.sequenceNumber) 1 l) (n size : Nat) :
    (∀ m ∈ l, n < m.sequenceNumber → m ∈ l.drop (l.length - size)) ↔
      (l.filter (n < ·.sequenceNumber)).length ≤ size := by
  have habove := h.filter_above n
  rw [Nat.add_sub_cancel] at habove
  rw [habove, List.length_drop]
  constructor
  · intro hall
    by_contra hgt
    obtain ⟨m, hm, hs⟩ := h.exists_key (s := n + 1) (by omega) (by omega)
    have := ((h.drop (l.length - size)).mem (hall m hm (by omega))).1
    omega
  · intro hle m hm hlt
    have hin : m ∈ l.drop n := habove ▸ List.mem_filter.mpr ⟨hm, decide_eq_true hlt⟩
    exact (List.drop_sublist_drop_left l (by omega : l.length - size ≤ n)).subset hin

/-- `loaded` is the newest rows of the conversation up to the limit, which is
at least 50, and holds everything above the watermark exactly if there are no
more rows than the limit above it. -/
def NewestRows (config : Config) (db : Db) (st : AssemblyState) (loaded : List Message) : Prop :=
  ∃ limit : Int,
    loadLimit config (st.buildTypeConfig.getD {}) (st.maxTokenBudget.getD 8192)
        (.ok (db.summariesOf st.contextWindowId).length) = .ok limit ∧
      50 ≤ limit ∧
      loaded = (db.messagesOf st.conversationId).drop
        ((db.messagesOf st.conversationId).length - limit.toNat) ∧
      ((∀ m ∈ db.messagesOf st.conversationId,
          db.watermark st.contextWindowId < m.sequenceNumber → m ∈ loaded) ↔
        ((db.messagesOf st.conversationId).filter
          (db.watermark st.contextWindowId < ·.sequenceNumber)).length ≤ limit.toNat)

/-- **What a pass loads.** In every run, `load_messages` returns the newest
rows of the conversation up to its limit. -/
theorem loadMessages_slice (evs : List Event) (config : Config) (env : Env)
    (st st' : AssemblyState) (h : loadMessages config env (broker.run evs) st = .ok st') :
    NewestRows config (broker.run evs) st st'.allMessages := by
  have hdb := (valid_run evs).consecutive
  obtain ⟨limit, hlimit, rfl⟩ := loadMessages_ok hdb h
  have hcount : ∃ n, perform env.fault .summaryCount
      ((broker.run evs).summariesOf st.contextWindowId).length = .ok n := by
    obtain ⟨_, _, hrest⟩ := bind_eq_ok.mp hlimit
    obtain ⟨n, hn, _⟩ := bind_eq_ok.mp hrest
    exact ⟨n, hn⟩
  obtain ⟨n, hn⟩ := hcount
  obtain rfl := perform_eq_ok hn
  exact ⟨limit, hn ▸ hlimit, loadLimit_ok hlimit, rfl, drop_covers_above (hdb _) _ _⟩

/-- The assembly state `load_messages` starts from in a pass on window 1 over
conversation 0. -/
def loadingState (budget : Int) : AssemblyState :=
  { contextWindowId := 1, conversationId := 0, buildTypeConfig := some {}
    maxTokenBudget := some (effectiveBudget budget EFFECTIVE_UTILIZATION_DEFAULT) }

/-- Three messages, and the state with all of them loaded. -/
def loadedRun : List Event := opened .tieredSummary 8 ++ chat 3 8

def loadedState : AssemblyState :=
  { loadingState 8 with allMessages := (broker.run loadedRun).messagesOf 0 }

theorem loadMessages_slice_loadedRun :
    NewestRows defaultConfig (broker.run loadedRun) (loadingState 8) loadedState.allMessages :=
  loadMessages_slice loadedRun defaultConfig (calm ['s']) (loadingState 8) loadedState
    (by decide +kernel)

/-- A first pass over 51 messages on a small window leaves message 1 unread,
with nothing compacted yet. -/
theorem loads_above_watermark_false :
    ¬ ∀ (evs : List Event) (config : Config) (env : Env) (w : Id),
      ∀ o ∈ passOutcome config env (broker.run evs) w,
        Node.loadMessages ∈ o.trace → o.raised = none →
          ∀ m ∈ (broker.run evs).windowMessages w,
            (broker.run evs).watermark w < m.sequenceNumber → m ∈ o.final.st.allMessages := by
  intro h
  have hmissed : ∃ o ∈ passOutcome defaultConfig (calm ['s'])
        (broker.run (opened .tieredSummary 8 ++ chat 51 1)) 1,
      Node.loadMessages ∈ o.trace ∧ o.raised = none ∧
        ∃ m ∈ (broker.run (opened .tieredSummary 8 ++ chat 51 1)).windowMessages 1,
          (broker.run (opened .tieredSummary 8 ++ chat 51 1)).watermark 1 < m.sequenceNumber ∧
            m ∉ o.final.st.allMessages := by
    decide +kernel
  obtain ⟨o, ho, hnode, hraised, m, hm, hlt, hnot⟩ := hmissed
  exact hnot (h _ _ _ 1 o ho hnode hraised m hm hlt)

end ContextBroker
