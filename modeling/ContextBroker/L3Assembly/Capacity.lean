import ContextBroker.L3Assembly.FullCompaction
import ContextBroker.L3Assembly.Tiling

/-!
# How many chunk rows there are, and when they are archived

`calculate_compaction_state` compares the count of active chunk rows with
`tier2_max_chunks` before the pass adds any, and one pass may cut many
chunks: the count stays within the maximum as long as a pass that starts
below it cuts no more chunks than there is room for (`chunks_within_max`).

A pass without chunks to cut goes to `run_full_compaction` whatever the
count is, and that node only asks for more rows than `tier2_min_chunks`:
`archives_at_capacity` says when chunk rows are archived although there was
still room.
-/
namespace ContextBroker

open Rows StandardTiered

/-! ## Entering the compaction nodes -/

section

variable {config : Config} {env : Env} {win : Window} {db₀ : Db} {s s₁ s₂ : PassState}

/-- The chunks are those `calculate_compaction_state` just cut. -/
theorem StandardTiered.Enters.from_calculate (h : Enters config env win db₀ .compactTier1 s₁) :
    ∃ s, Enters config env win db₀ .calculateCompactionState s ∧
      calculateCompactionState config env s.db s.st = .ok s₁.st := by
  cases h with
  | @next n _ s hv hret hroute =>
    have hnode : node config env n s = ((node config env n s).1, none) := Prod.ext rfl hret
    obtain ⟨db', ⟨_, st', hb, hs'⟩ | ⟨x, hx, _⟩⟩ := node_eq hnode
    case inr => cases hx
    cases edge_of_route hroute with
    | chunked =>
      refine ⟨s, hv, ?_⟩
      show _ = Except.ok (node config env _ s).1.st
      rw [hs']
      exact (Prod.mk.inj hb).2

/-- And the loaded list is the one it cut them from. -/
theorem StandardTiered.Enters.loaded (h : Enters config env win db₀ .compactTier1 s₁) :
    ∃ s, Enters config env win db₀ .calculateCompactionState s ∧
      s₁.st.allMessages = s.st.allMessages := by
  obtain ⟨s, hs, hcalc⟩ := h.from_calculate
  obtain ⟨_, _, _, _, heq⟩ := calculateCompactionState_state hcalc
  exact ⟨s, hs, by rw [heq]⟩

/-- The counts around a compaction node. -/
theorem length_compactTier1 (env : Env) (db : Db) (st : AssemblyState) :
    ((compactTier1 env db st).1.active st.contextWindowId .two).length ≤
      (db.active st.contextWindowId .two).length + st.chunks.length := by
  obtain ⟨kept, rows, hsub, hrows, happ, _, _⟩ := compactTier1_rows env db st
  have hlen := hsub.length_le
  have htexts := congrArg List.length hrows.texts
  simp only [List.length_map] at hlen htexts
  rw [active_own hrows happ, List.length_append]
  omega

end

/-! ## Room for the chunks of a pass -/

/-- `tier2_max_chunks`. -/
def maxChunks (bt : BuildTypeConfig) : Int := (extractDeadbandConfig bt).tier2MaxChunks

/-- A pass that begins below the maximum loads a list whose overflow is cut
into no more chunks than there is room for. -/
structure RoomFor (config : Config) (env : Env) (win : Window) (bt : BuildTypeConfig) (db : Db) : Prop where
  nonneg : 0 ≤ maxChunks bt
  ordered : (extractDeadbandConfig bt).tier2MinChunks ≤ maxChunks bt
  room : ∀ s, Enters config env win db .calculateCompactionState s →
    (db.active win.id .two).length < maxChunks bt →
      (db.active win.id .two).length + (slices (chunkLength config)
        (overflow (passCeiling bt win db) (db.watermark win.id) s.st.allMessages)).length ≤ maxChunks bt

/-- The run ended without an exception or an error, and held the lock. -/
structure Completed (e : Option Exn) (s : PassState) : Prop where
  raised : e = none
  error : s.st.error = none
  locked : s.st.lockAcquired = true

section

variable {config : Config} {env : Env} {win : Window} {bt : BuildTypeConfig} {db₀ : Db} {s : PassState}
  {e : Option Exn}

theorem length_archived (hv : Valid s.db) (hbt : s.st.buildTypeConfig = some bt)
    (hans : Answers env) (hnonneg : 0 ≤ maxChunks bt)
    (hmin : (extractDeadbandConfig bt).tier2MinChunks ≤ maxChunks bt) {st' : AssemblyState}
    (hret : (runFullCompaction env s.db s.st).2 = .ok st') (herr : st'.error = none) :
    (((runFullCompaction env s.db s.st).1.active s.st.contextWindowId .two).length : Int) ≤
      maxChunks bt := by
  have h := runFullCompaction_cases env s.db s.st
  have hpass : passMin s.st = (extractDeadbandConfig bt).tier2MinChunks := by rw [passMin, hbt]; rfl
  generalize (runFullCompaction env s.db s.st).1 = db', (runFullCompaction env s.db s.st).2 = out at h hret ⊢
  subst hret
  cases h with
  | few hfew =>
    rw [activeChunks_eq hv] at hfew
    omega
  | noPrompt e => cases herr
  | unanswered had hnot => exact absurd hans hnot
  | committed header recent _ first last many _ hcomm =>
    rw [consolidated_eq] at hcomm
    have hdrop := hcomm.chunks_drop hv.nodup (disjointRanges_of_valid hv _)
    have hlen := congrArg List.length hdrop
    rw [activeChunks, (orderAsc_perm _ _).length_eq] at hlen
    rw [hlen, List.length_drop]
    omega

/-- A completed pass leaves no more chunk rows than the maximum. -/
theorem Completed.within_max (hv : Valid db₀) (hw : db₀.window? win.id = some win)
    (hbt : getBuildTypeConfig config win.buildType = .ok bt) (hans : Answers env)
    (hroom : RoomFor config env win bt db₀) (hcourse : Course config env win db₀ e s)
    (hdone : Completed e s) : ((s.db.active win.id .two).length : Int) ≤ maxChunks bt := by
  obtain ⟨he, herr, hlock⟩ := hdone
  cases hcourse with
  | untouched rows stopped =>
    rcases stopped with h | h | h | h
    · exact absurd he h
    · exact absurd herr h
    · rw [active_congr rows, h]
      exact hroom.nonneg
    · rw [hlock] at h
      cases h
  | chunked s₁ enters before rows _ stopped =>
    obtain ⟨hA, hrows₁, bt', hplan⟩ := enters.known hv hw
    obtain rfl := Except.ok.inj (hplan.configured.accepted.symm.trans hbt)
    rcases stopped with h | ⟨_, h | hopen⟩
    · exact absurd he h
    · exact absurd herr h
    · -- tier 2 was not full when the pass began
      have hbelow := hplan.atMax hA.2.1
      rw [hopen, eq_comm, decide_eq_false_iff_not, Int.not_le] at hbelow
      obtain ⟨s₀, hs₀, hloaded⟩ := enters.loaded
      have hfit := hroom.room s₀ hs₀ hbelow
      rw [← hloaded, ← hplan.chunks] at hfit
      have hlen := length_compactTier1 env s₁.db s₁.st
      rw [(Assertion.effect _ hA).windowId, active_congr before] at hlen
      rw [active_congr rows]
      omega
  | archived s₂ enters before rows _ stopped =>
    obtain ⟨hA, _, bt', hplan⟩ := enters.known hv hw
    obtain rfl := Except.ok.inj (hplan.configured.accepted.symm.trans hbt)
    have heff := Assertion.effect _ hA
    rcases stopped with h | hret
    · exact absurd he h
    · have hlen := length_archived heff.valid hplan.configured.buildTypeConfig hans hroom.nonneg
        hroom.ordered hret herr
      rwa [active_congr rows, ← heff.windowId]

end

/-- The condition on a pass: its replies, its configuration and its room. -/
def FitsTier2 (config : Config) (env : Env) (win : Window) (db : Db) : Prop :=
  Answers env ∧ ∀ bt, getBuildTypeConfig config win.buildType = .ok bt → RoomFor config env win bt db

/-- **The chunk rows stay within `tier2_max_chunks`** after every completed
pass of a run whose passes on the window have room for their chunks. -/
theorem chunks_within_max (evs : List Event) (w : Id) (h : EveryPass evs w FitsTier2)
    (pre post : List Event) (config : Config) (env : Env) (win : Window) (bt : BuildTypeConfig)
    (o : StateGraph.Outcome Node PassState Exn) (hevs : evs = pre ++ .pass config w env :: post)
    (hwin : (broker.run pre).window? w = some win)
    (hbt : getBuildTypeConfig config win.buildType = .ok bt)
    (ho : passOutcome config env (broker.run pre) w = some o) (hdone : Completed o.raised o.final) :
    (((broker.run (pre ++ [.pass config w env])).active w .two).length : Int) ≤ maxChunks bt := by
  have hv := valid_run pre
  obtain ⟨win', hwin', rfl, hcourse⟩ := passOutcome_course hv ho
  obtain rfl := Option.some.inj (hwin.symm.trans hwin')
  obtain ⟨hans, hroom⟩ := h pre config env post win hevs hwin
  rw [run_pass ho]
  exact hdone.within_max hv hwin hbt hans (hroom bt hbt) hcourse

/-- The state in which the next pass on window 1 cuts its chunks. -/
def atPartition (config : Config) (evs : List Event) : PassState :=
  [Node.acquireAssemblyLock, .loadWindowConfig, .loadMessages].foldl
    (fun s n => (node config (calm ['s']) n s).1)
    ⟨broker.run evs, { contextWindowId := 1, conversationId := 0 }⟩

/-- Three messages of two tokens over a ceiling of five. -/
def shortRun : List Event := opened .tieredSummary 8 ++ chat 3 8

theorem enters_shortRun :
    Enters defaultConfig (calm ['s']) sampleWindow (broker.run shortRun) .calculateCompactionState
      (atPartition defaultConfig shortRun) :=
  StateGraph.Visits.follow .entry (by decide +kernel)

theorem answers_calm : Answers (calm ['s']) :=
  ⟨fun _ => ⟨_, rfl, by decide⟩, fun _ => ⟨_, rfl, by decide⟩, fun _ h => nomatch h⟩

theorem fitsTier2_shortRun : FitsTier2 defaultConfig (calm ['s']) sampleWindow (broker.run shortRun) := by
  refine ⟨answers_calm, fun bt hbt => ?_⟩
  have hdefault : getBuildTypeConfig defaultConfig sampleWindow.buildType = .ok {} := by decide +kernel
  obtain rfl := Except.ok.inj (hbt.symm.trans hdefault)
  refine ⟨by decide, by decide, fun s hs _ => ?_⟩
  rw [StateGraph.Visits.unique hs enters_shortRun]
  decide +kernel

theorem chunks_within_max_shortRun :
    ∃ o, passOutcome defaultConfig (calm ['s']) (broker.run shortRun) 1 = some o ∧
      (((broker.run (shortRun ++ [.pass defaultConfig 1 (calm ['s'])])).active 1 .two).length : Int) ≤
        maxChunks {} := by
  have hdone : ∃ o ∈ passOutcome defaultConfig (calm ['s']) (broker.run shortRun) 1,
      o.raised = none ∧ o.final.st.error = none ∧ o.final.st.lockAcquired = true := by
    decide +kernel
  obtain ⟨o, ho, hraised, herror, hlocked⟩ := hdone
  have hwin : (broker.run shortRun).window? 1 = some sampleWindow := by decide +kernel
  refine ⟨o, ho, chunks_within_max (shortRun ++ [.pass defaultConfig 1 (calm ['s'])]) 1 ?_ shortRun []
    defaultConfig (calm ['s']) sampleWindow {} o rfl hwin (by decide +kernel) ho
    ⟨hraised, herror, hlocked⟩⟩
  refine EveryPass.snoc (.of_mem fun config env win db hmem => ?_) fun win hwin' => ?_
  · simp [shortRun, opened, chat, say] at hmem
  · obtain rfl := Option.some.inj (hwin.symm.trans hwin')
    exact fitsTier2_shortRun

/-- Ten messages under chunks of one message: the first pass stores eight
chunk rows at once, two more than the maximum. -/
theorem chunks_within_max_false :
    ¬ ∀ (evs : List Event) (w : Id),
      EveryPass evs w (fun _ env _ _ => Succeeds env ∧ ∀ i, ∃ text, env.chunkReply i = .ok text) →
      ∀ (pre post : List Event) (config : Config) (env : Env) (win : Window) (bt : BuildTypeConfig)
        (o : StateGraph.Outcome Node PassState Exn), evs = pre ++ .pass config w env :: post →
        (broker.run pre).window? w = some win → getBuildTypeConfig config win.buildType = .ok bt →
        passOutcome config env (broker.run pre) w = some o → Completed o.raised o.final →
        (((broker.run (pre ++ [.pass config w env])).active w .two).length : Int) ≤ maxChunks bt := by
  intro h
  have hdone : ∃ o ∈ passOutcome singleConfig (calm ['s'])
        (broker.run (opened .tieredSummary 8 ++ chat 10 8)) 1,
      o.raised = none ∧ o.final.st.error = none ∧ o.final.st.lockAcquired = true ∧
        maxChunks {} < (o.final.db.active 1 .two).length := by
    decide +kernel
  obtain ⟨o, ho, hraised, herror, hlocked, hgt⟩ := hdone
  have hle := h (opened .tieredSummary 8 ++ chat 10 8 ++ [.pass singleConfig 1 (calm ['s'])]) 1
    (EveryPass.of_mem fun config env win db hmem => ?_) _ [] singleConfig (calm ['s']) sampleWindow {} o rfl
    (by decide +kernel) (by decide +kernel) ho ⟨hraised, herror, hlocked⟩
  · rw [run_pass ho] at hle
    omega
  · simp [opened, chat, say] at hmem
    obtain ⟨_, rfl⟩ := hmem
    exact ⟨succeeds_calm, fun _ => ⟨_, rfl⟩⟩

/-! ## Archiving before tier 2 is full -/

/-- An active chunk row is retired, or an archival row is written. -/
def Archives (db db' : Db) : Prop :=
  (∃ r ∈ db.summaries, r.tier = .two ∧ r.isActive = true ∧
      ∃ r' ∈ db'.summaries, r'.id = r.id ∧ r'.isActive = false) ∨
    ∃ r ∈ db'.summaries, r.tier = .three ∧ ∀ r' ∈ db.summaries, r'.id ≠ r.id

/-- Tier 2 is full, or too small to archive, or the pass has something to
cut: a loaded message above the watermark, with all that follows it over the
ceiling. With `chunk_size` 0 any such message makes the pass raise. -/
def Timely (config : Config) (win : Window) (bt : BuildTypeConfig) (db : Db) (s : PassState) : Prop :=
  maxChunks bt ≤ (db.active win.id .two).length ∨
    (db.active win.id .two).length ≤ (extractDeadbandConfig bt).tier2MinChunks ∨
    db.active win.id .two = [] ∨
    ∃ m ∈ s.st.allMessages, passCeiling bt win db < tokensFrom s.st.allMessages m ∧
      (getTuning config .chunkSize 20 = 0 ∨
        0 < getTuning config .chunkSize 20 ∧ db.watermark win.id < m.sequenceNumber)

section

variable {config : Config} {env : Env} {win : Window} {bt : BuildTypeConfig} {db db' db₀ : Db}
  {s s₂ : PassState} {e : Option Exn}

/-- Appending active chunk rows archives nothing. -/
theorem not_archives_append (hv : Valid db) {rows : List Summary}
    (h : db'.summaries = db.summaries ++ rows) (hrows : ∀ r ∈ rows, r.tier = .two ∧ r.isActive = true) :
    ¬ Archives db db' := by
  rintro (⟨r, hr, _, hact, r', hr', hid, hnot⟩ | ⟨r, hr, htier, hnew⟩)
  · rw [h] at hr'
    rcases List.mem_append.mp hr' with hr' | hr'
    · rw [List.inj_on_of_nodup_map hv.nodup hr' hr hid, hact] at hnot
      cases hnot
    · rw [(hrows r' hr').2] at hnot
      cases hnot
  · rw [h] at hr
    rcases List.mem_append.mp hr with hr | hr
    · exact hnew r hr rfl
    · rw [(hrows r hr).1] at htier
      cases htier

theorem not_archives_of_eq (hv : Valid db) (h : db'.summaries = db.summaries) : ¬ Archives db db' :=
  not_archives_append hv (h.trans (List.append_nil _).symm) fun _ hr => nomatch hr

/-- The overflow is cut into chunks, unless `chunk_size` is not positive. -/
theorem chunks_eq_nil_iff (hplan : Planned config win bt db₀ s.st) :
    s.st.chunks = [] ↔ ¬ 0 < getTuning config .chunkSize 20 ∨
      overflow (passCeiling bt win db₀) (db₀.watermark win.id) s.st.allMessages = [] := by
  rw [hplan.chunks]
  constructor
  · intro hnil
    by_cases hpos : 0 < getTuning config .chunkSize 20
    · have hlen : 0 < chunkLength config := by
        rw [chunkLength]
        omega
      have hflat := slices_flatten hlen
        (overflow (passCeiling bt win db₀) (db₀.watermark win.id) s.st.allMessages)
      rw [hnil] at hflat
      exact .inr hflat.symm
    · exact .inl hpos
  · rintro (hneg | hnil)
    · rw [chunkLength, Int.toNat_of_nonpos (by omega), slices_zero]
    · rw [hnil, slices_nil]

/-- Without chunks the pass came straight from `calculate_compaction_state`. -/
theorem StandardTiered.Enters.straight (h : Enters config env win db₀ .runFullCompaction s₂) (hv : Valid db₀)
    (hw : db₀.window? win.id = some win) (hnil : s₂.st.chunks = []) :
    ∃ s, Enters config env win db₀ .calculateCompactionState s ∧
      s₂.st.allMessages = s.st.allMessages := by
  cases h with
  | @next n _ s hvisit hret hroute =>
    have hnode : node config env n s = ((node config env n s).1, none) := Prod.ext rfl hret
    obtain ⟨db', ⟨_, st', hb, hs'⟩ | ⟨x, hx, _⟩⟩ := node_eq hnode
    case inr => cases hx
    change (node config env n s).1.st.chunks = [] at hnil
    show ∃ s₀, _ ∧ (node config env n s).1.st.allMessages = _
    rw [hs'] at hnil ⊢
    obtain ⟨_, _, hall, hkeep⟩ := nodeBody_state (congrArg Prod.snd hb)
    cases edge_of_route hroute with
    | noChunks => exact ⟨s, hvisit, hall (by decide)⟩
    | tier2Full =>
      rw [(hkeep (by decide)).1] at hnil
      obtain ⟨_, hne, _⟩ := (Enters.known hvisit hv hw).1
      exact absurd hnil hne

/-- Of the ways to be timely, a pass that cut nothing and has enough rows to
archive is left with the first. -/
theorem Timely.full (h : Timely config win bt db₀ s) (hplan : Planned config win bt db₀ s₂.st)
    (hloaded : s₂.st.allMessages = s.st.allMessages) (hnil : s₂.st.chunks = [])
    (hmany : (extractDeadbandConfig bt).tier2MinChunks < (db₀.active win.id .two).length)
    (hne : db₀.active win.id .two ≠ []) : maxChunks bt ≤ (db₀.active win.id .two).length := by
  rcases h with h | h | h | ⟨m, hm, hlt, hsize⟩
  · exact h
  · exact absurd hmany (Int.not_lt.mpr h)
  · exact absurd h hne
  · rw [← hloaded] at hm hlt
    rcases hsize with h0 | ⟨hpos, habove⟩
    · exact absurd hlt (hplan.sized h0 m hm)
    · rcases (chunks_eq_nil_iff hplan).mp hnil with hneg | hover
      · exact absurd hpos hneg
      · have hmem := mem_overflow.mpr ⟨hm, habove, hlt⟩
        rw [hover] at hmem
        cases hmem

/-- An archiving pass that found something to cut, or began with tier 2 too
small, began with tier 2 full. -/
theorem timely_full (hv : Valid db₀) (hw : db₀.window? win.id = some win)
    (hbt : getBuildTypeConfig config win.buildType = .ok bt)
    (htimely : ∀ s, Enters config env win db₀ .calculateCompactionState s → Timely config win bt db₀ s)
    (hcourse : Course config env win db₀ e s) (harch : Archives db₀ s.db) :
    maxChunks bt ≤ (db₀.active win.id .two).length := by
  cases hcourse with
  | untouched rows _ => exact absurd harch (not_archives_of_eq hv rows)
  | chunked s₁ _ before rows _ _ =>
    obtain ⟨kept, new, _, hrows, happ, _, _⟩ := compactTier1_rows env s₁.db s₁.st
    exact absurd harch (not_archives_append hv (rows.trans (happ.trans (by rw [before])))
      fun r hr => (hrows.owned r hr).2)
  | archived s₂ enters before rows _ _ =>
    obtain ⟨hA, _, bt', hplan⟩ := enters.known hv hw
    obtain rfl := Except.ok.inj (hplan.configured.accepted.symm.trans hbt)
    have heff := Assertion.effect _ hA
    rcases before with ⟨before, hnil⟩ | ⟨s₁, hchunked⟩
    · have hcases := runFullCompaction_cases env s₂.db s₂.st
      generalize (runFullCompaction env s₂.db s₂.st).1 = db', (runFullCompaction env s₂.db s₂.st).2 = out
        at hcases rows
      have hsame : db' = s₂.db → maxChunks bt' ≤ (db₀.active win.id .two).length := fun h =>
        absurd harch (not_archives_of_eq hv (rows.trans (h ▸ before)))
      cases hcases with
      | raised | few | noPrompt | unanswered => exact hsame rfl
      | committed header recent _ first last many _ hcomm =>
        have hcount : (activeChunks s₂.db s₂.st).length = (db₀.active win.id .two).length := by
          rw [activeChunks_eq heff.valid, heff.windowId, active_congr before]
        rw [hcount, passMin, hplan.configured.buildTypeConfig] at many
        obtain ⟨s, hs, hloaded⟩ := enters.straight hv hw hnil
        refine (htimely s hs).full hplan hloaded hnil many fun h => ?_
        rw [h] at hcount
        have hfront := hcomm.front
        rw [consolidated_eq, List.eq_nil_of_length_eq_zero hcount, List.take_nil] at hfront
        cases hfront
    · obtain ⟨hA₁, _, bt₁, hplan₁⟩ := hchunked.enters.known hv hw
      obtain rfl := Except.ok.inj (hplan₁.configured.accepted.symm.trans hbt)
      have hmax := hplan₁.atMax hA₁.2.1
      rw [hchunked.full] at hmax
      exact of_decide_eq_true hmax.symm

/-- No call of the pass raises. -/
def Unfaulted (env : Env) : Prop := ∀ site, env.fault site = none

theorem StandardTiered.Enters.error_none (h : Enters config env win db₀ .calculateCompactionState s) :
    s.st.error = none := by
  cases h with
  | @next n _ s _ hret hroute =>
    cases edge_of_route hroute with
    | loaded herr _ => exact herr

/-- Without faults the partition returns, unless `chunk_size` 0 meets an
older message. -/
theorem calculateCompactionState_returns (henv : Unfaulted env) {st : AssemblyState} (hid : win.id = st.contextWindowId)
    (hcfg : Configured config win bt st) (hne : st.allMessages ≠ [])
    (hsize : getTuning config .chunkSize 20 = 0 → olderOf (passCeiling bt win db) st.allMessages = []) :
    ∃ st', calculateCompactionState config env db st = .ok st' := by
  simp only [calculateCompactionState, if_neg hne, hcfg.buildTypeConfig, hcfg.maxTokenBudget, require,
    perform_of_none (henv _), bind, Except.bind]
  rw [← hid]
  by_cases hnil : olderOf (passCeiling bt win db) st.allMessages = []
  · exact ⟨_, (if_pos hnil).trans rfl⟩
  · rw [if_neg]
    · have hnot : getTuning config .chunkSize 20 ≠ 0 := fun h0 => hnil (hsize h0)
      simp only [chunksOf, if_neg hnot]
      split
      · rename_i hneg
        split at hneg <;> cases hneg
      · exact ⟨_, rfl⟩
    · exact hnil

/-- A partition that returns with nothing to cut, and full compaction next. -/
theorem enters_full (hv : Valid db₀) (hw : db₀.window? win.id = some win)
    (hbt : getBuildTypeConfig config win.buildType = .ok bt) (henv : Unfaulted env)
    (hs : Enters config env win db₀ .calculateCompactionState s)
    (hcut : ∀ m ∈ s.st.allMessages, passCeiling bt win db₀ < tokensFrom s.st.allMessages m →
      ¬ getTuning config .chunkSize 20 = 0 ∧
        (0 < getTuning config .chunkSize 20 → ¬ db₀.watermark win.id < m.sequenceNumber)) :
    ∃ s₂, Enters config env win db₀ .runFullCompaction s₂ ∧ Valid s₂.db ∧ s₂.db.summaries = db₀.summaries ∧
      s₂.st.contextWindowId = win.id ∧ s₂.st.buildTypeConfig = some bt := by
  obtain ⟨hA, hsame⟩ := hs.known hv hw
  obtain ⟨hb, ⟨bt', hcfg⟩, hne⟩ := hA
  obtain rfl := Except.ok.inj (hcfg.accepted.symm.trans hbt)
  obtain ⟨a, _, hnum, _⟩ := hb.stretch.numbered hb.valid.consecutive
  have hceil : passCeiling bt' win s.db = passCeiling bt' win db₀ := by
    simp only [passCeiling, hb.grows.active]
  have hsize : getTuning config .chunkSize 20 = 0 →
      olderOf (passCeiling bt' win s.db) s.st.allMessages = [] := by
    intro h0
    rw [hceil, olderOf_eq hnum.ascending]
    refine List.filter_eq_nil_iff.mpr fun m hm hlt => ?_
    exact (hcut m hm (of_decide_eq_true hlt)).1 h0
  obtain ⟨st', hcalc⟩ := calculateCompactionState_returns henv hb.windowId.symm hcfg hne hsize
  obtain ⟨bt'', hplan⟩ := calculate_planned ⟨hb, ⟨bt', hcfg⟩, hne⟩ hcalc
  obtain rfl := Except.ok.inj (hplan.configured.accepted.symm.trans hbt)
  obtain ⟨_, _, _, _, heq⟩ := calculateCompactionState_state hcalc
  have hall : st'.allMessages = s.st.allMessages := by rw [heq]
  have hnil : st'.chunks = [] := by
    refine (chunks_eq_nil_iff (s := ⟨s.db, st'⟩) hplan).mpr ?_
    by_cases hpos : 0 < getTuning config .chunkSize 20
    · refine .inr (List.filter_eq_nil_iff.mpr fun m hm hlt => ?_)
      simp only [Bool.decide_and, Bool.and_eq_true, decide_eq_true_eq] at hlt
      rw [hall] at hm hlt
      exact (hcut m hm hlt.2).2 hpos hlt.1
    · exact .inl hpos
  have hnode : node config env .calculateCompactionState s =
      (⟨s.db.storeAll (env.arrivals .calculateCompactionState), st'⟩, none) := by
    simp only [node, nodeBody, hcalc]
  have herr : st'.error = none := by
    rw [heq]
    exact hs.error_none
  have hstored := storeAll_grows (env.arrivals .calculateCompactionState) s.db
  refine ⟨_, StateGraph.Visits.step hs hnode (by simp [assemblyGraph, route, herr, hnil]),
    hb.valid.storeAll _, hstored.summaries.trans hsame, ?_, hplan.configured.buildTypeConfig⟩
  show st'.contextWindowId = win.id
  rw [heq]
  exact hb.windowId

/-- With enough chunk rows and no header row stored, full compaction archives. -/
theorem archives_of_enters (hsucc : Succeeds env) (h : Enters config env win db₀ .runFullCompaction s₂)
    (hv : Valid s₂.db) (hrows : s₂.db.summaries = db₀.summaries) (hwin : s₂.st.contextWindowId = win.id)
    (hbt : s₂.st.buildTypeConfig = some bt) (hfree : ¬ HasHeader db₀ win.id)
    (hmany : (extractDeadbandConfig bt).tier2MinChunks < (db₀.active win.id .two).length)
    (hne : db₀.active win.id .two ≠ []) :
    Archives db₀ (assemble config env db₀ win.id win.conversationId).final.db := by
  have hactive : s₂.db.active s₂.st.contextWindowId .two = db₀.active win.id .two := by
    rw [hwin, active_congr hrows]
  have henough : Enough s₂ := by
    refine ⟨?_, by rw [hactive]; exact hne⟩
    rw [minChunks, hactive, hbt]
    exact hmany
  obtain ⟨header, recent, db', st', htx, hrun⟩ := (commits_iff hsucc henough hv).mpr (by
    rw [hasHeader_congr hrows, hwin]
    exact hfree)
  obtain ⟨first, last, hcomm⟩ := archiveTransaction_committed htx
  -- the header row is new
  refine .inr ⟨{ headerRow s₂.st header with id := s₂.db.nextId }, ?_, rfl, fun r hr hid => ?_⟩
  · rw [final_rows h, hrun, hcomm.rows]
    exact List.mem_append_right _ List.mem_cons_self
  · have hlt := hv.ids r (hrows ▸ hr)
    rw [hid] at hlt
    exact absurd hlt (Nat.lt_irrefl _)

/-- With every call succeeding and no header row stored, a pass that is not
timely archives. -/
theorem archives_of_not_timely (hv : Valid db₀) (hw : db₀.window? win.id = some win)
    (hbt : getBuildTypeConfig config win.buildType = .ok bt) (henv : Unfaulted env) (hsucc : Succeeds env)
    (hfree : ¬ HasHeader db₀ win.id) (hs : Enters config env win db₀ .calculateCompactionState s)
    (hnot : ¬ Timely config win bt db₀ s) :
    Archives db₀ (assemble config env db₀ win.id win.conversationId).final.db := by
  simp only [Timely, not_or, Int.not_le, not_exists, not_and] at hnot
  obtain ⟨_, hmany, hne, hcut⟩ := hnot
  obtain ⟨s₂, h, hv₂, hrows, hwin, hbt₂⟩ := enters_full hv hw hbt henv hs hcut
  exact archives_of_enters hsucc h hv₂ hrows hwin hbt₂ hfree hmany hne

end

/-- **Archiving only when tier 2 is full.** A pass that is timely whenever it
gets to partition its messages archives only at the maximum; and with every
call succeeding, before the first header row, only such a pass does. -/
theorem archives_at_capacity (evs : List Event) (config : Config) (env : Env) (w : Id) (win : Window)
    (bt : BuildTypeConfig) (o : StateGraph.Outcome Node PassState Exn)
    (hwin : (broker.run evs).window? w = some win) (hbt : getBuildTypeConfig config win.buildType = .ok bt)
    (ho : passOutcome config env (broker.run evs) w = some o) :
    ((∀ s, Enters config env win (broker.run evs) .calculateCompactionState s →
        Timely config win bt (broker.run evs) s) →
      Archives (broker.run evs) o.final.db → maxChunks bt ≤ ((broker.run evs).active w .two).length) ∧
    (Unfaulted env → Succeeds env → ¬ HasHeader (broker.run evs) w →
      ∀ s, Enters config env win (broker.run evs) .calculateCompactionState s →
        ((Archives (broker.run evs) o.final.db → maxChunks bt ≤ ((broker.run evs).active w .two).length) ↔
          Timely config win bt (broker.run evs) s)) := by
  have hv := valid_run evs
  obtain ⟨win', hwin', rfl, _, rfl⟩ := passOutcome_eq_some ho
  obtain rfl := Option.some.inj (hwin.symm.trans hwin')
  have hcourse := @assemble_course config env win (broker.run evs) hv hwin
  refine ⟨fun htimely harch => timely_full hv hwin hbt htimely hcourse harch, fun henv hsucc hfree s hs => ?_⟩
  constructor
  · intro hat
    by_contra hnot
    exact hnot (.inl (hat (archives_of_not_timely hv hwin hbt henv hsucc hfree hs hnot)))
  · intro htimely harch
    refine timely_full hv hwin hbt (fun s' hs' => ?_) hcourse harch
    rw [StateGraph.Visits.unique hs' hs]
    exact htimely

theorem archives_at_capacity_shortRun :
    ∃ o, passOutcome defaultConfig (calm ['s']) (broker.run shortRun) 1 = some o ∧
      (Archives (broker.run shortRun) o.final.db →
        maxChunks {} ≤ ((broker.run shortRun).active 1 .two).length) := by
  have hsome : (passOutcome defaultConfig (calm ['s']) (broker.run shortRun) 1).isSome = true := by
    decide +kernel
  refine ⟨_, (Option.some_get hsome).symm, (archives_at_capacity shortRun defaultConfig (calm ['s']) 1
    sampleWindow {} _ (by decide +kernel) (by decide +kernel) (Option.some_get hsome).symm).1
      fun s hs => .inr (.inr (.inr ?_))⟩
  rw [StateGraph.Visits.unique hs enters_shortRun]
  decide +kernel

/-- Four chunk rows, a maximum of six, and nothing new to cut: the next pass
archives. -/
theorem archives_at_capacity_false :
    ¬ ∀ (evs : List Event) (config : Config) (env : Env) (w : Id) (win : Window) (bt : BuildTypeConfig)
      (o : StateGraph.Outcome Node PassState Exn), (broker.run evs).window? w = some win →
      getBuildTypeConfig config win.buildType = .ok bt →
      passOutcome config env (broker.run evs) w = some o → Archives (broker.run evs) o.final.db →
        maxChunks bt ≤ ((broker.run evs).active w .two).length := by
  intro h
  have hpass : ∃ o ∈ passOutcome singleConfig (calm ['s']) (broker.run beforeFirst) 1,
      ∃ r ∈ o.final.db.summaries, r.tier = .three ∧ ∀ r' ∈ (broker.run beforeFirst).summaries, r'.id ≠ r.id := by
    decide +kernel
  obtain ⟨o, ho, hnew⟩ := hpass
  have hle := h beforeFirst singleConfig (calm ['s']) 1
    { sampleWindow with lastAssembledAt := some 0 } {} o (by decide +kernel) (by decide +kernel) ho
    (.inr hnew)
  revert hle
  decide +kernel

end ContextBroker
