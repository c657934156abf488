import ContextBroker.L3Assembly.Runs

/-!
# The course of a pass

Only `compact_tier1` and `run_full_compaction` write summary rows. `Course`
says which of the two a pass went through, with the states it entered them
in, and that the summary rows at the end are those the last of them left;
`assemble_course`: every pass has one.

`Planned` is what both find in the assembly state: the chunks cut from the
overflow of the loaded list, which is what lies above the watermark and,
with all that follows it, does not fit the tier-1 ceiling.
-/
namespace ContextBroker

namespace StandardTiered

open Rows

/-! ## Overflow -/

/-- Message `m` and everything after it. -/
def tokensFrom (messages : List Message) (m : Message) : Nat :=
  total messageTokens (messages.filter (m.sequenceNumber ≤ ·.sequenceNumber))

/-- What is above the watermark and does not fit under the ceiling. -/
def overflow (ceiling : Int) (wm : Nat) (messages : List Message) : List Message :=
  messages.filter fun m => wm < m.sequenceNumber ∧ ceiling < tokensFrom messages m

theorem mem_overflow {ceiling : Int} {wm : Nat} {messages : List Message} {m : Message} :
    m ∈ overflow ceiling wm messages ↔
      m ∈ messages ∧ wm < m.sequenceNumber ∧ ceiling < tokensFrom messages m := by
  simp [overflow, List.mem_filter]

/-- Tier 1 is what fits, message by message. -/
theorem olderOf_eq {ceiling : Int} {messages : List Message}
    (hasc : Ascending (·.sequenceNumber) messages) :
    olderOf ceiling messages = messages.filter fun m => ceiling < tokensFrom messages m := by
  by_cases hne : messages = []
  · rw [hne]
    rfl
  have happ : olderOf ceiling messages ++ fillTier1 ceiling messages = messages :=
    older_append_tier1 ceiling hasc hne
  have hp : Partitioned 0 ceiling
      { contextWindowId := 0, conversationId := 0, allMessages := messages
        olderMessages := olderOf ceiling messages, tier1Messages := fillTier1 ceiling messages } := by
    refine ⟨happ, fun init m hm => ?_, fillTier1_fits _ _, .inl rfl, fun _ hc => nomatch hc⟩
    change olderOf ceiling messages = _ at hm
    rw [hm, List.append_assoc] at happ
    exact fillTier1_stop happ.symm
  have hold : ∀ m ∈ olderOf ceiling messages, ceiling < tokensFrom messages m :=
    fun m hm => hp.exceeds hasc hm
  have hfits : ∀ m ∈ fillTier1 ceiling messages, ¬ ceiling < tokensFrom messages m := by
    intro m hm
    -- everything from m on is in tier 1
    have hcross := fun x hx => (List.pairwise_append.mp (happ.symm ▸ hasc)).2.2 x hx m hm
    have hsub : messages.filter (m.sequenceNumber ≤ ·.sequenceNumber) =
        (fillTier1 ceiling messages).filter (m.sequenceNumber ≤ ·.sequenceNumber) := by
      conv_lhs => rw [← happ]
      rw [List.filter_append, List.filter_eq_nil_iff.mpr, List.nil_append]
      intro x hx
      have hlt : x.sequenceNumber < m.sequenceNumber := hcross x hx
      simp only [decide_eq_true_eq]
      omega
    have hle : tokensFrom messages m ≤ total messageTokens (fillTier1 ceiling messages) := by
      rw [tokensFrom, hsub]
      exact total_sublist messageTokens List.filter_sublist
    have hpos : 0 < total messageTokens (fillTier1 ceiling messages) := by
      obtain ⟨pre, post, hsplit⟩ := List.append_of_mem hm
      have := messageTokens_pos m
      rw [hsplit]
      simp only [total_append, total_cons]
      omega
    have := fillTier1_fits ceiling messages
    omega
  conv_rhs => arg 2; rw [← happ]
  rw [List.filter_append, List.filter_eq_self.mpr, List.filter_eq_nil_iff.mpr, List.append_nil]
  · intro m hm
    simpa using hfits m hm
  · intro m hm
    simpa using hold m hm

theorem filter_olderOf {ceiling : Int} {messages : List Message} {wm : Nat}
    (hasc : Ascending (·.sequenceNumber) messages) :
    (olderOf ceiling messages).filter (wm < ·.sequenceNumber) = overflow ceiling wm messages := by
  rw [olderOf_eq hasc, List.filter_filter]
  simp only [overflow, Bool.decide_and]

/-! ## The plan -/

/-- What the compaction nodes find in the state of a pass that began on `db₀`. -/
structure Planned (config : Config) (win : Window) (bt : BuildTypeConfig) (db₀ : Db)
    (st : AssemblyState) : Prop where
  configured : Configured config win bt st
  chunks : st.chunks = slices (chunkLength config)
    (overflow (passCeiling bt win db₀) (db₀.watermark win.id) st.allMessages)
  atMax : st.chunks ≠ [] → st.tier2AtMax =
    decide ((extractDeadbandConfig bt).tier2MaxChunks ≤ (db₀.active win.id .two).length)
  /-- With `chunk_size` 0, only a list without an older message gets here. -/
  sized : getTuning config .chunkSize 20 = 0 →
    ∀ m ∈ st.allMessages, ¬ passCeiling bt win db₀ < tokensFrom st.allMessages m

variable {config : Config} {env : Env} {win : Window} {db₀ : Db} {s s' : PassState} {n : Node}

theorem calculate_planned (hA : Assertion config env win db₀ .calculateCompactionState s)
    {st' : AssemblyState} (h : calculateCompactionState config env s.db s.st = .ok st') :
    ∃ bt, Planned config win bt db₀ st' := by
  obtain ⟨hb, ⟨bt, hcfg⟩, hne⟩ := hA
  obtain ⟨a, _, hnum, _⟩ := hb.stretch.numbered hb.valid.consecutive
  obtain ⟨chunks, atMax, rfl, hchunks, hmax, hsized⟩ :=
    calculateCompactionState_eq hcfg hb.windowId.symm hne h
  have hceil : passCeiling bt win s.db = passCeiling bt win db₀ := by
    simp only [passCeiling, hb.grows.active]
  rw [filter_olderOf hnum.ascending, hceil, hb.windowId, hb.grows.watermark] at hchunks
  refine ⟨bt, ⟨hcfg.1, hcfg.2, hcfg.3⟩, hchunks, fun hc => ?_, fun h0 m hm hlt => ?_⟩
  · rw [← hb.grows.active]
    exact hmax hc
  · have hnil := hsized h0
    rw [hceil, olderOf_eq hnum.ascending] at hnil
    exact List.filter_eq_nil_iff.mp hnil m hm (decide_eq_true hlt)

theorem Planned.congr {bt : BuildTypeConfig} {st st' : AssemblyState}
    (h : Planned config win bt db₀ st) (hbt : st'.buildTypeConfig = st.buildTypeConfig)
    (hbudget : st'.maxTokenBudget = st.maxTokenBudget) (hall : st'.allMessages = st.allMessages)
    (hchunks : st'.chunks = st.chunks) (hmax : st'.tier2AtMax = st.tier2AtMax) :
    Planned config win bt db₀ st' :=
  ⟨⟨h.configured.1, hbt.trans h.configured.2, hbudget.trans h.configured.3⟩,
    by rw [hchunks, hall]; exact h.chunks, by rw [hchunks, hmax]; exact h.atMax,
    by rw [hall]; exact h.sized⟩

/-! ## The course -/

variable (config env win db₀) in
/-- Node `n` is entered with `s` in the pass on `win` from `db₀`. -/
def Enters (n : Node) (s : PassState) : Prop :=
  (assemblyGraph config env).Visits
    ⟨db₀, { contextWindowId := win.id, conversationId := win.conversationId }⟩ n s

variable (config env win db₀) in
/-- `compact_tier1`, entered with `s₁`, returned and left `s`, with tier 2 full. -/
structure Chunked (s₁ s : PassState) : Prop where
  enters : Enters config env win db₀ .compactTier1 s₁
  before : s₁.db.summaries = db₀.summaries
  returned : (compactTier1 env s₁.db s₁.st).2 = .ok s.st
  after : s.db.summaries = (compactTier1 env s₁.db s₁.st).1.summaries
  full : s₁.st.tier2AtMax = true

variable (config env win db₀) in
/-- How the summary rows of `s`, after a pass that raised `e`, came about. -/
inductive Course (e : Option Exn) (s : PassState) : Prop where
  | untouched (rows : s.db.summaries = db₀.summaries)
      (stopped : e ≠ none ∨ s.st.error ≠ none ∨ db₀.active win.id .two = [] ∨ s.st.lockAcquired = false)
  | chunked (s₁ : PassState) (enters : Enters config env win db₀ .compactTier1 s₁)
      (before : s₁.db.summaries = db₀.summaries)
      (rows : s.db.summaries = (compactTier1 env s₁.db s₁.st).1.summaries)
      (loaded : s.st.allMessages = s₁.st.allMessages)
      (stopped : e ≠ none ∨ (compactTier1 env s₁.db s₁.st).2 = .ok s.st ∧
        (s.st.error ≠ none ∨ s₁.st.tier2AtMax = false))
  | archived (s₂ : PassState) (enters : Enters config env win db₀ .runFullCompaction s₂)
      (before : s₂.db.summaries = db₀.summaries ∧ s₂.st.chunks = [] ∨
        ∃ s₁, Chunked config env win db₀ s₁ s₂)
      (rows : s.db.summaries = (runFullCompaction env s₂.db s₂.st).1.summaries)
      (loaded : s.st.allMessages = s₂.st.allMessages)
      (stopped : e ≠ none ∨ (runFullCompaction env s₂.db s₂.st).2 = .ok s.st)

/-- A later state with the same rows and fields. -/
theorem Course.later {e e' : Option Exn} (h : Course config env win db₀ e s)
    (hrows : s'.db.summaries = s.db.summaries) (hst : s'.st = s.st) (he : e' = none → e = none) :
    Course config env win db₀ e' s' := by
  have hne : e ≠ none → e' ≠ none := fun h h' => h (he h')
  cases h with
  | untouched rows stopped => exact .untouched (hrows.trans rows) (hst ▸ stopped.imp_left hne)
  | chunked s₁ enters before rows loaded stopped =>
    exact .chunked s₁ enters before (hrows.trans rows) (hst ▸ loaded) (hst ▸ stopped.imp_left hne)
  | archived s₂ enters before rows loaded stopped =>
    exact .archived s₂ enters before (hrows.trans rows) (hst ▸ loaded) (hst ▸ stopped.imp_left hne)

/-- What is known when a node is entered. -/
def Along (config : Config) (env : Env) (win : Window) (db₀ : Db) : Node → PassState → Prop
  | .acquireAssemblyLock, s | .loadWindowConfig, s | .loadMessages, s
  | .calculateCompactionState, s => s.db.summaries = db₀.summaries
  | .compactTier1, s => s.db.summaries = db₀.summaries ∧ ∃ bt, Planned config win bt db₀ s.st
  | .runFullCompaction, s =>
    (s.db.summaries = db₀.summaries ∧ s.st.chunks = [] ∨ ∃ s₁, Chunked config env win db₀ s₁ s) ∧
      ∃ bt, Planned config win bt db₀ s.st
  | .finalizeAssembly, s | .releaseAssemblyLock, s => Course config env win db₀ none s

/-- Nothing is loaded only if nothing is stored, and then there is no row. -/
theorem loadMessages_nil (hw : db₀.window? win.id = some win)
    (hA : Assertion config env win db₀ .loadMessages s) {st' : AssemblyState}
    (h : loadMessages config env s.db s.st = .ok st') (hnil : st'.allMessages = []) :
    db₀.active win.id .two = [] := by
  obtain ⟨hb, _⟩ := hA
  obtain ⟨limit, hlimit, rfl⟩ := loadMessages_ok hb.valid.consecutive h
  have hle := loadLimit_ok hlimit
  have hcount : s.db.count win.conversationId = 0 := by
    have hdrop := congrArg List.length hnil
    simp only [List.length_drop, List.length_nil, hb.convId] at hdrop
    rw [Db.count]
    omega
  rw [← hb.grows.active]
  refine List.eq_nil_iff_forall_not_mem.mpr fun r hr => ?_
  have hpos := hb.valid.active_two_pos hr
  have hconv := hb.valid.active_conversation (by rw [hb.grows.window?]; exact hw) hr
  have hrange := hb.valid.range r (Db.mem_active.mp hr).1
  rw [hconv, hcount] at hrange
  omega

/-- A node that writes no summary row leaves them as they are. -/
theorem nodeBody_summaries {n : Node} {db : Db} {st : AssemblyState} (h1 : n ≠ .compactTier1)
    (h2 : n ≠ .runFullCompaction) : (nodeBody config env n db st).1.summaries = db.summaries := by
  cases n with
  | acquireAssemblyLock | loadWindowConfig | loadMessages | calculateCompactionState
  | releaseAssemblyLock => rfl
  | compactTier1 => exact absurd rfl h1
  | runFullCompaction => exact absurd rfl h2
  | finalizeAssembly =>
    simp only [nodeBody, finalizeAssembly]
    split
    · rfl
    · split <;> rfl

theorem node_summaries {n : Node} {e : Option Exn} (h : node config env n s = (s', e)) :
    s'.db.summaries = (nodeBody config env n s.db s.st).1.summaries := by
  obtain ⟨db', ⟨_, st', hb, rfl⟩ | ⟨x, _, hb, rfl⟩⟩ := node_eq h
  · rw [hb]
    exact (storeAll_grows _ _).summaries
  · rw [hb]
    exact (storeAll_grows _ _).summaries

/-- The last two nodes leave the assembly state alone. -/
theorem Course.node {n : Node} {e : Option Exn} (h : Course config env win db₀ none s)
    (hn : n = .finalizeAssembly ∨ n = .releaseAssemblyLock) (hs : node config env n s = (s', e)) :
    Course config env win db₀ e s' := by
  have hrows := node_summaries hs
  rw [nodeBody_summaries (by rcases hn with rfl | rfl <;> decide)
    (by rcases hn with rfl | rfl <;> decide)] at hrows
  refine h.later hrows ?_ fun _ => rfl
  obtain ⟨db', ⟨_, st', hb, rfl⟩ | ⟨x, _, _, rfl⟩⟩ := node_eq hs
  · rcases hn with rfl | rfl
    · exact finalizeAssembly_state (congrArg Prod.snd hb)
    · exact releaseAssemblyLock_state (congrArg Prod.snd hb)
  · rfl

theorem along_moves {n m : Node} (hw : db₀.window? win.id = some win) (hv : Enters config env win db₀ n s)
    (hA : Assertion config env win db₀ n s) (hC : Along config env win db₀ n s)
    (hn : node config env n s = (s', none)) (hr : route n s' = some m) :
    Along config env win db₀ m s' := by
  have hrows := node_summaries hn
  have hnode := hn
  obtain ⟨db', ⟨_, st', hb, rfl⟩ | ⟨x, hx, _⟩⟩ := node_eq hn
  case inr => cases hx
  cases edge_of_route hr with
  | locked | configured | loaded =>
    rw [nodeBody_summaries (by decide) (by decide)] at hrows
    exact hrows.trans hC
  | configFailed herr | loadFailed herr | partitionFailed herr =>
    rw [nodeBody_summaries (by decide) (by decide)] at hrows
    refine .untouched (hrows.trans hC) (.inr (.inl fun hnone => ?_))
    rw [hnone] at herr
    cases herr
  | noneLoaded _ hnil =>
    rw [nodeBody_summaries (by decide) (by decide)] at hrows
    exact .untouched (hrows.trans hC)
      (.inr (.inr (.inl (loadMessages_nil hw hA (Prod.mk.inj hb).2 hnil))))
  | noChunks _ hnil =>
    rw [nodeBody_summaries (by decide) (by decide)] at hrows
    exact ⟨.inl ⟨hrows.trans hC, hnil⟩, calculate_planned hA (Prod.mk.inj hb).2⟩
  | chunked =>
    rw [nodeBody_summaries (by decide) (by decide)] at hrows
    exact ⟨hrows.trans hC, calculate_planned hA (Prod.mk.inj hb).2⟩
  | chunksFailed herr =>
    have hret : (compactTier1 env s.db s.st).2 = .ok st' := congrArg Prod.snd hb
    obtain ⟨_, _, _, rfl⟩ := compactTier1_state hret
    refine .chunked s hv hC.1 hrows rfl (.inr ⟨hret, .inl fun hnone => ?_⟩)
    rw [hnone] at herr
    cases herr
  | tier2Open _ hmax =>
    have hret : (compactTier1 env s.db s.st).2 = .ok st' := congrArg Prod.snd hb
    obtain ⟨_, _, _, rfl⟩ := compactTier1_state hret
    exact .chunked s hv hC.1 hrows rfl (.inr ⟨hret, .inr hmax⟩)
  | tier2Full _ hmax =>
    have hret : (compactTier1 env s.db s.st).2 = .ok st' := congrArg Prod.snd hb
    obtain ⟨_, _, _, rfl⟩ := compactTier1_state hret
    obtain ⟨hbefore, bt, hplan⟩ := hC
    exact ⟨.inr ⟨s, hv, hbefore, hret, hrows, hmax⟩, bt, hplan.congr rfl rfl rfl rfl rfl⟩
  | compacted =>
    have hret : (runFullCompaction env s.db s.st).2 = .ok st' := congrArg Prod.snd hb
    obtain ⟨_, _, _, rfl⟩ := runFullCompaction_state hret
    exact .archived s hv hC.1 hrows rfl (.inr hret)
  | finalized => exact Course.node hC (.inl rfl) hnode

theorem along_raises {n : Node} {x : Exn} (hv : Enters config env win db₀ n s)
    (hC : Along config env win db₀ n s) (hn : node config env n s = (s', some x)) :
    Course config env win db₀ (some x) s' := by
  have hne : some x ≠ none := fun h => nomatch h
  have hrows := node_summaries hn
  have hnode := hn
  obtain ⟨db', ⟨hx, _⟩ | ⟨_, _, _, rfl⟩⟩ := node_eq hn
  · cases hx
  cases n with
  | acquireAssemblyLock | loadWindowConfig | loadMessages | calculateCompactionState =>
    rw [nodeBody_summaries (by decide) (by decide)] at hrows
    exact .untouched (hrows.trans hC) (.inl hne)
  | compactTier1 => exact .chunked s hv hC.1 hrows rfl (.inl hne)
  | runFullCompaction => exact .archived s hv hC.1 hrows rfl (.inl hne)
  | finalizeAssembly => exact Course.node hC (.inl rfl) hnode
  | releaseAssemblyLock => exact Course.node hC (.inr rfl) hnode

theorem course_outline (hw : db₀.window? win.id = some win) :
    (assemblyGraph config env).Outline
      (fun n s => Enters config env win db₀ n s ∧ Assertion config env win db₀ n s ∧
        Along config env win db₀ n s)
      (Course config env win db₀) where
  raises n s s' x hA hn := along_raises hA.1 hA.2.2 hn
  ends n s s' hA hn hr := by
    rcases route_eq_none hr with rfl | ⟨rfl, hfree⟩
    · exact Course.node hA.2.2 (.inr rfl) hn
    · have hrows := node_summaries hn
      rw [nodeBody_summaries (by decide) (by decide)] at hrows
      exact .untouched (hrows.trans hA.2.2) (.inr (.inr (.inr hfree)))
  moves n s s' m hA hn hr :=
    ⟨hA.1.step hn hr, assertion_moves hw hA.2.1 hn hr, along_moves hw hA.1 hA.2.1 hA.2.2 hn hr⟩

/-- What holds when the pass begins. -/
theorem course_entry (hv : Valid db₀) :
    Enters config env win db₀ .acquireAssemblyLock
        ⟨db₀, { contextWindowId := win.id, conversationId := win.conversationId }⟩ ∧
      Assertion config env win db₀ .acquireAssemblyLock
        ⟨db₀, { contextWindowId := win.id, conversationId := win.conversationId }⟩ ∧
      Along config env win db₀ .acquireAssemblyLock
        ⟨db₀, { contextWindowId := win.id, conversationId := win.conversationId }⟩ :=
  ⟨.entry, ⟨hv, .refl db₀, rfl, rfl, reaches_nil hv.consecutive, stretch_nil⟩, rfl⟩

/-- **Every pass has a course.** -/
theorem assemble_course (hv : Valid db₀) (hw : db₀.window? win.id = some win) :
    Course config env win db₀ (assemble config env db₀ win.id win.conversationId).raised
      (assemble config env db₀ win.id win.conversationId).final :=
  (course_outline hw).invoke (course_entry hv)

variable (config env) in
/-- The last two nodes leave the rows and the assembly state alone. -/
theorem tail_outline (rows : List Summary) (st : AssemblyState) :
    (assemblyGraph config env).Outline
      (fun n s => (n = .finalizeAssembly ∨ n = .releaseAssemblyLock) ∧ s.db.summaries = rows ∧ s.st = st)
      (fun _ s => s.db.summaries = rows ∧ s.st = st) := by
  have hkeep : ∀ n s s' e, (n = .finalizeAssembly ∨ n = .releaseAssemblyLock) →
      node config env n s = (s', e) → s'.db.summaries = s.db.summaries ∧ s'.st = s.st := by
    intro n s s' e hn hs
    refine ⟨(node_summaries hs).trans ?_, ?_⟩
    · exact nodeBody_summaries (by rcases hn with rfl | rfl <;> decide)
        (by rcases hn with rfl | rfl <;> decide)
    · obtain ⟨db', ⟨_, st', hb, rfl⟩ | ⟨x, _, _, rfl⟩⟩ := node_eq hs
      · rcases hn with rfl | rfl
        · exact finalizeAssembly_state (congrArg Prod.snd hb)
        · exact releaseAssemblyLock_state (congrArg Prod.snd hb)
      · rfl
  constructor
  · rintro n s s' x ⟨hn, rfl, rfl⟩ hnode
    exact hkeep n s s' _ hn hnode
  · rintro n s s' ⟨hn, rfl, rfl⟩ hnode _
    exact hkeep n s s' _ hn hnode
  · rintro n s s' m ⟨hn, rfl, rfl⟩ hnode hroute
    refine ⟨?_, hkeep n s s' _ hn hnode⟩
    rcases hn with rfl | rfl
    · cases hroute
      exact .inr rfl
    · cases hroute

theorem final_tail {n : Node} (h : Enters config env win db₀ n s)
    (hn : n = .finalizeAssembly ∨ n = .releaseAssemblyLock) :
    (assemble config env db₀ win.id win.conversationId).final.db.summaries = s.db.summaries ∧
      (assemble config env db₀ win.id win.conversationId).final.st = s.st := by
  have hkept := (tail_outline config env s.db.summaries s.st).runFrom n s
    ⟨hn, rfl, rfl⟩
  rw [← (StateGraph.Visits.final h).1] at hkept
  exact hkept

/-- Once `run_full_compaction` is entered, its rows are the last. -/
theorem final_rows {s₂ : PassState} (h : Enters config env win db₀ .runFullCompaction s₂) :
    (assemble config env db₀ win.id win.conversationId).final.db.summaries =
      (runFullCompaction env s₂.db s₂.st).1.summaries := by
  show ((assemblyGraph config env).invoke _).final.db.summaries = _
  rw [(StateGraph.Visits.final h).1, StateGraph.runFrom_eq]
  split
  · rename_i s' x hnode
    exact node_summaries hnode
  · rename_i s' hnode
    exact ((tail_outline _ _ _ s'.st).runFrom .finalizeAssembly s' ⟨.inl rfl, node_summaries hnode, rfl⟩).1

/-- A completed pass that entered `compact_tier1` ends with its rows, unless
`run_full_compaction` follows. -/
theorem final_chunks {s₁ : PassState} (h : Enters config env win db₀ .compactTier1 s₁)
    (hraised : (assemble config env db₀ win.id win.conversationId).raised = none)
    (herror : (assemble config env db₀ win.id win.conversationId).final.st.error = none) :
    ∃ st', (compactTier1 env s₁.db s₁.st).2 = .ok st' ∧ st'.error = none ∧
      ((assemble config env db₀ win.id win.conversationId).final.db.summaries =
          (compactTier1 env s₁.db s₁.st).1.summaries ∨
        ∃ s₂, Enters config env win db₀ .runFullCompaction s₂ ∧
          s₂.db.summaries = (compactTier1 env s₁.db s₁.st).1.summaries) := by
  have hfinal := StateGraph.Visits.final h
  rcases hnode : node config env .compactTier1 s₁ with ⟨s', e⟩
  obtain ⟨db', ⟨rfl, st', hb, hs'⟩ | ⟨x, rfl, _⟩⟩ := node_eq hnode
  case inr =>
    change ((assemblyGraph config env).invoke _).raised = none at hraised
    rw [hfinal.2, StateGraph.runFrom_eq, show (assemblyGraph config env).node _ s₁ = _ from hnode] at hraised
    cases hraised
  have hrows : s'.db.summaries = (compactTier1 env s₁.db s₁.st).1.summaries := node_summaries hnode
  have hst : s'.st = st' := by rw [hs']
  obtain ⟨m, hroute⟩ : ∃ m, route .compactTier1 s' = some m := by
    refine Option.ne_none_iff_exists'.mp fun hnone => ?_
    rcases route_eq_none hnone with hn | ⟨hn, _⟩ <;> cases hn
  have hnext : Enters config env win db₀ m s' := StateGraph.Visits.step h hnode hroute
  refine ⟨st', congrArg Prod.snd hb, ?_⟩
  cases edge_of_route hroute with
  | chunksFailed herr =>
    rw [(final_tail hnext (.inr rfl)).2] at herror
    rw [herror] at herr
    cases herr
  | tier2Open herr =>
    exact ⟨hst ▸ herr, .inl ((final_tail hnext (.inl rfl)).1.trans hrows)⟩
  | tier2Full herr => exact ⟨hst ▸ herr, .inr ⟨s', hnext, hrows⟩⟩

/-- The loaded list stays once it is loaded. -/
theorem loaded_outline (l : List Message) :
    (assemblyGraph config env).Outline
      (fun n s => (n ≠ .acquireAssemblyLock ∧ n ≠ .loadWindowConfig ∧ n ≠ .loadMessages) ∧
        s.st.allMessages = l)
      (fun _ s => s.st.allMessages = l) := by
  have hkeep : ∀ n s s' e, n ≠ .loadMessages → node config env n s = (s', e) →
      s'.st.allMessages = s.st.allMessages := by
    intro n s s' e hn hs
    obtain ⟨db', ⟨_, st', hb, rfl⟩ | ⟨x, _, _, rfl⟩⟩ := node_eq hs
    · obtain ⟨_, _, hall, _⟩ := nodeBody_state (congrArg Prod.snd hb)
      exact hall hn
    · rfl
  constructor
  · rintro n s s' x ⟨hn, rfl⟩ hnode
    exact hkeep n s s' _ hn.2.2 hnode
  · rintro n s s' ⟨hn, rfl⟩ hnode _
    exact hkeep n s s' _ hn.2.2 hnode
  · rintro n s s' m ⟨hn, rfl⟩ hnode hroute
    refine ⟨?_, hkeep n s s' _ hn.2.2 hnode⟩
    cases edge_of_route hroute with
    | locked => exact absurd rfl hn.1
    | configured | configFailed => exact absurd rfl hn.2.1
    | loadFailed | noneLoaded | loaded => exact absurd rfl hn.2.2
    | partitionFailed | noChunks | chunked | chunksFailed | tier2Full | tier2Open | compacted
    | finalized => decide

theorem final_loaded {s₁ : PassState} (h : Enters config env win db₀ .compactTier1 s₁) :
    (assemble config env db₀ win.id win.conversationId).final.st.allMessages = s₁.st.allMessages := by
  show ((assemblyGraph config env).invoke _).final.st.allMessages = _
  rw [(StateGraph.Visits.final h).1]
  exact (loaded_outline _).runFrom .compactTier1 s₁ ⟨by decide, rfl⟩

/-- A property of the summary rows that both compaction nodes keep. -/
theorem Course.rows {P : Db → Prop} {e : Option Exn} (h : Course config env win db₀ e s)
    (hcongr : ∀ db db', db'.summaries = db.summaries → P db → P db') (h₀ : P db₀)
    (hcompact : ∀ s, Enters config env win db₀ .compactTier1 s → P s.db →
      P (compactTier1 env s.db s.st).1)
    (hfull : ∀ s, Enters config env win db₀ .runFullCompaction s → P s.db →
      P (runFullCompaction env s.db s.st).1) : P s.db := by
  cases h with
  | untouched rows _ => exact hcongr _ _ rows h₀
  | chunked s₁ enters before rows _ _ =>
    exact hcongr _ _ rows (hcompact s₁ enters (hcongr _ _ before h₀))
  | archived s₂ enters before rows _ _ =>
    refine hcongr _ _ rows (hfull s₂ enters ?_)
    rcases before with ⟨before, _⟩ | ⟨s₁, hs₁⟩
    · exact hcongr _ _ before h₀
    · exact hcongr _ _ hs₁.after (hcompact s₁ hs₁.enters (hcongr _ _ hs₁.before h₀))

/-- What is known of a state a node is entered with. -/
theorem Enters.known (h : Enters config env win db₀ n s) (hv : Valid db₀)
    (hw : db₀.window? win.id = some win) :
    Assertion config env win db₀ n s ∧ Along config env win db₀ n s :=
  ((course_outline hw).visits (course_entry hv) h).2

end StandardTiered

/-! ## Runs -/

open StandardTiered

/-- `P` holds of every pass of the run on window `w`: of its configuration
and environment, the window and the database it starts on. -/
def EveryPass (evs : List Event) (w : Id) (P : Config → Env → Window → Db → Prop) : Prop :=
  ∀ pre config env post win, evs = pre ++ .pass config w env :: post →
    (broker.run pre).window? w = some win → P config env win (broker.run pre)

section

variable {evs : List Event} {w : Id} {P : Config → Env → Window → Db → Prop} {db : Db}

theorem EveryPass.init {e : Event} (h : EveryPass (evs ++ [e]) w P) : EveryPass evs w P := by
  intro pre config env post win hevs hwin
  exact h pre config env (post ++ [e]) win (by simp [hevs]) hwin

theorem EveryPass.before {post : List Event} (h : EveryPass (evs ++ post) w P) : EveryPass evs w P := by
  induction post using List.reverseRecOn with
  | nil => rwa [List.append_nil] at h
  | append_singleton post e ih =>
    rw [← List.append_assoc] at h
    exact ih h.init

theorem EveryPass.and {Q : Config → Env → Window → Db → Prop} (h : EveryPass evs w P)
    (h' : EveryPass evs w Q) :
    EveryPass evs w fun config env win db => P config env win db ∧ Q config env win db :=
  fun pre config env post win hevs hwin =>
    ⟨h pre config env post win hevs hwin, h' pre config env post win hevs hwin⟩

theorem EveryPass.of_mem
    (h : ∀ config env win db, .pass config w env ∈ evs → P config env win db) : EveryPass evs w P := by
  intro pre config env post win hevs _
  exact h config env win _ (by simp [hevs])

theorem EveryPass.snoc {config : Config} {env : Env} (h : EveryPass evs w P)
    (hlast : ∀ win, (broker.run evs).window? w = some win → P config env win (broker.run evs)) :
    EveryPass (evs ++ [.pass config w env]) w P := by
  intro pre config' env' post win hevs hwin
  rcases List.eq_nil_or_concat' post with rfl | ⟨post, e, rfl⟩
  · obtain ⟨rfl, heq⟩ := List.append_inj' hevs rfl
    cases heq
    exact hlast win hwin
  · rw [← List.cons_append, ← List.append_assoc] at hevs
    obtain ⟨hinit, _⟩ := List.append_inj' hevs rfl
    exact h pre config' env' post win hinit hwin

theorem EveryPass.last {config : Config} {env : Env} {win : Window}
    (h : EveryPass (evs ++ [.pass config w env]) w P) (hwin : (broker.run evs).window? w = some win) :
    P config env win (broker.run evs) :=
  h evs config env [] win rfl hwin

theorem run_keeps (pre post : List Event) : Keeps (broker.run pre) (broker.run (pre ++ post)) := by
  induction post using List.reverseRecOn with
  | nil =>
    rw [List.append_nil]
    exact .refl _
  | append_singleton post e ih =>
    rw [← List.append_assoc, Machine.run_snoc]
    exact ih.trans (event_keeps (valid_run _) e)

/-- All passes up to one on `win` are on the same window. -/
theorem everyPass_sameWindow {config : Config} {env : Env} {win : Window}
    (hwin : (broker.run evs).window? w = some win) :
    EveryPass (evs ++ [.pass config w env]) w fun _ _ win' _ => SameWindow win' win := by
  intro pre config' env' post win' hevs hwin'
  obtain ⟨new, rfl⟩ : ∃ new, evs = pre ++ new := by
    rcases List.eq_nil_or_concat' post with rfl | ⟨post, e, rfl⟩
    · exact ⟨[], by simp [(List.append_inj' hevs rfl).1]⟩
    · rw [← List.cons_append, ← List.append_assoc] at hevs
      exact ⟨_, (List.append_inj' hevs rfl).1⟩
  obtain ⟨win'', hwin'', hsame⟩ := (run_keeps pre new).windows w win' hwin'
  rwa [Option.some.inj (hwin''.symm.trans hwin)] at hsame

/-- The course of a pass, by window id. -/
theorem passOutcome_course {config : Config} {env : Env} (hv : Valid db)
    {o : StateGraph.Outcome Node PassState Exn} (h : passOutcome config env db w = some o) :
    ∃ win, db.window? w = some win ∧ win.id = w ∧ Course config env win db o.raised o.final := by
  obtain ⟨win, hwin, rfl, _, rfl⟩ := passOutcome_eq_some h
  exact ⟨win, hwin, rfl, assemble_course hv hwin⟩

theorem run_pass {config : Config} {env : Env} {o : StateGraph.Outcome Node PassState Exn}
    (ho : passOutcome config env (broker.run evs) w = some o) :
    broker.run (evs ++ [.pass config w env]) = o.final.db := by
  rw [Machine.run_snoc]
  show (Event.pass config w env).apply (broker.run evs) = o.final.db
  simp only [Event.apply, ho]

/-- One event: a pass with its course, or no summary row changes. -/
theorem event_rows (hv : Valid db) (e : Event) :
    (∃ config v env, e = .pass config v env ∧ ∃ o win, passOutcome config env db v = some o ∧
        db.window? v = some win ∧ win.id = v ∧ Course config env win db o.raised o.final ∧
        e.apply db = o.final.db) ∨
      (e.apply db).summaries = db.summaries := by
  cases e with
  | createConversation supplied now => exact .inr (createConversation_grows db supplied now).summaries
  | createWindow c participant buildType budget =>
    refine .inr ?_
    simp only [Event.apply, Db.createWindow]
    split
    · rfl
    · split <;> rfl
  | store s => exact .inr (store_grows db s).summaries
  | slide v env =>
    refine .inr ?_
    simp only [Event.apply]
    split
    · split
      · rcases Passthrough.assemble_final env db v with h | ⟨u, now, h⟩ <;> rw [h]
        rfl
      · rfl
    · rfl
  | pass config v env =>
    simp only [Event.apply]
    cases ho : passOutcome config env db v with
    | none => exact .inr rfl
    | some o =>
      obtain ⟨win, hwin, hid, hcourse⟩ := passOutcome_course hv ho
      exact .inl ⟨config, v, env, rfl, o, win, ho, hwin, hid, hcourse, rfl⟩

/-- An invariant of the summary rows, kept by the passes on `w` that meet `P`
and by all passes on other windows. -/
theorem EveryPass.rows_inv {I : Db → Prop} (h : EveryPass evs w P)
    (hcongr : ∀ db db', db'.summaries = db.summaries → I db → I db') (h0 : I {})
    (hpass : ∀ config env win db o, Valid db → db.window? win.id = some win → win.id = w →
      P config env win db → passOutcome config env db win.id = some o →
      Course config env win db o.raised o.final → I db → I o.final.db)
    (hother : ∀ config env win db o, Valid db → db.window? win.id = some win → w ≠ win.id →
      passOutcome config env db win.id = some o →
      Course config env win db o.raised o.final → I db → I o.final.db) : I (broker.run evs) := by
  suffices H : EveryPass evs w P → I (broker.run evs) from H h
  refine Machine.run_hist (M := broker) (P := fun evs db => EveryPass evs w P → I db)
    (fun _ => h0) (fun evs e ih hevery => ?_) evs
  have hv := valid_run evs
  have hinv := ih hevery.init
  show I (e.apply (broker.run evs))
  rcases event_rows hv e with ⟨config, v, env, rfl, o, win, ho, hwin, rfl, hcourse, happ⟩ | hrows
  · rw [happ]
    by_cases hw : w = win.id
    · subst hw
      exact hpass config env win _ o hv hwin rfl (hevery.last hwin) ho hcourse hinv
    · exact hother config env win _ o hv hwin hw ho hcourse hinv
  · exact hcongr _ _ hrows hinv

end

end ContextBroker
