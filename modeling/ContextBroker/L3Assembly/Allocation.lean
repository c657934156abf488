import ContextBroker.L3Assembly.FullCompaction
import ContextBroker.L3Assembly.Tiling

/-!
# What the summaries take of the budget

The budget guard of `compact_tier1` adds up the replies of one pass, starting
at 0, and never looks at what is stored already; full compaction writes its
two archival rows whatever their length. So the stored summaries stay within
the allocation of tiers 2 and 3 exactly as long as what the guard lets in
fits on top of what is stored, and what a full compaction leaves fits:
`summaries_within_allocation`, over runs with one configuration.
-/
namespace ContextBroker

open Rows StandardTiered

/-- `len(summary_text) // 4`. -/
def textSize (text : Text) : Nat := text.length / 4

def summarySize (r : Summary) : Nat := textSize r.summaryText

/-- The active summaries of window `w`. -/
def summaryTotal (db : Db) (w : Id) : Nat :=
  total summarySize (db.active w .two) + total summarySize (db.active w .three)

/-- The tier-2 plus tier-3 allocation of a window. -/
def allocation (win : Window) (bt : BuildTypeConfig) : Int :=
  summaryBudget
    (effectiveBudget win.maxTokenBudget (bt.effectiveUtilization.getD EFFECTIVE_UTILIZATION_DEFAULT))
    (extractDeadbandConfig bt)

/-- Full compaction goes through from `s`. -/
structure Archiving (env : Env) (s : PassState) : Prop where
  succeeds : Succeeds env
  enough : Enough s
  first : ¬ HasHeader s.db s.st.contextWindowId

/-- The pass keeps the allocation `b`: what the guard admits fits on top of
what is stored, unless full compaction comes after it, and the archival texts
fit on top of the rows a first full compaction keeps. -/
structure Affords (config : Config) (env : Env) (win : Window) (db : Db) (b : Int) : Prop where
  nonneg : 0 ≤ b
  chunks : (∀ s, Enters config env win db .runFullCompaction s → ¬ Archiving env s) →
    ∀ s, Enters config env win db .compactTier1 s →
      ∀ results, gatherSummaries env 0 s.st.chunks = .ok results →
        (summaryTotal s.db win.id +
          total textSize (admitted s.st b (s.db.summaries.map (·.key)) 0 results) : Int) ≤ b
  archival : ∀ s, Enters config env win db .runFullCompaction s → Enough s →
    ¬ HasHeader s.db win.id → ∀ recent header, Archived env s.db s.st recent header →
      (total summarySize ((activeChunks s.db s.st).drop (retiredCount s.db s.st)) +
        textSize header + textSize recent : Int) ≤ b

section

variable {config : Config} {env : Env} {win : Window} {bt : BuildTypeConfig} {db db' db₀ : Db}
  {st : AssemblyState} {s : PassState} {e : Option Exn}

/-! ## The total after each node -/

theorem summaryTotal_congr (h : db'.summaries = db.summaries) (w : Id) :
    summaryTotal db' w = summaryTotal db w := by
  simp only [summaryTotal, active_congr h]

theorem summaryTotal_append {kept : List (List Message × Text)} {rows : List Summary}
    (hrows : ChunkRows st kept rows) (h : db'.summaries = db.summaries ++ rows) :
    summaryTotal db' st.contextWindowId =
      summaryTotal db st.contextWindowId + total textSize (kept.map Prod.snd) := by
  have hnone : (rows.filter (·.contextWindowId == st.contextWindowId)).filter
      (fun r => r.tier == .three && r.isActive) = [] := by
    refine List.filter_eq_nil_iff.mpr fun r hr => ?_
    simp [(hrows.owned r (List.mem_of_mem_filter hr)).2.1]
  have hthree : db'.active st.contextWindowId .three = db.active st.contextWindowId .three := by
    simp only [Db.active, Db.summariesOf, h, List.filter_append, hnone, List.append_nil]
  have htexts : total summarySize rows = total textSize (kept.map Prod.snd) := by
    rw [← hrows.texts, total_map]
    rfl
  rw [summaryTotal, summaryTotal, active_own hrows h, hthree, total_append, htexts]
  omega

/-- The archival rows after a commit are the two new ones. -/
theorem StandardTiered.Committed.active_three {rows : List Summary} {header recent : Text}
    {first last : Summary} (h : Committed db st rows header recent first last db') :
    total summarySize (db'.active st.contextWindowId .three) = textSize header + textSize recent := by
  have hold : (retire db st rows).active st.contextWindowId .three = [] := by
    rw [retire, Db.active_deactivate, Db.active_deactivate]
    refine List.filter_eq_nil_iff.mpr fun r hr => ?_
    obtain ⟨hr, hlive⟩ := List.mem_filter.mp hr
    obtain ⟨_, hw, ht, ha⟩ := Db.mem_active.mp hr
    simp [hw, ht, ha] at hlive
  have hnew : db'.active st.contextWindowId .three = (retire db st rows).active st.contextWindowId .three ++
      [{ headerRow st header with id := db.nextId },
        { archivalRow st rows first last recent with id := db.nextId + 1 }] := by
    simp only [Db.active, Db.summariesOf, h.rows, List.filter_append]
    simp [headerRow, archivalRow]
  rw [hnew, hold, List.nil_append]
  simp [summarySize, headerRow, archivalRow]

/-- What a commit leaves: the kept rows and the two new ones. -/
theorem StandardTiered.Committed.summaryTotal (hv : Valid db) {header recent : Text} {first last : Summary}
    (h : Committed db st (consolidated (activeChunks db st) (passMin st - 1)) header recent first last
      db') :
    summaryTotal db' st.contextWindowId =
      total summarySize ((activeChunks db st).drop (retiredCount db st)) +
        (textSize header + textSize recent) := by
  rw [ContextBroker.summaryTotal, h.active_three]
  rw [consolidated_eq] at h
  have hkept := h.chunks_drop hv.nodup (disjointRanges_of_valid hv _)
  rw [← total_perm summarySize (orderAsc_perm (·.fromSeq) (db'.active st.contextWindowId .two))]
  exact congrArg (total summarySize · + (textSize header + textSize recent)) hkept

theorem Archiving.changes (h : Archiving env s) (hv : Valid s.db) :
    (runFullCompaction env s.db s.st).1 ≠ s.db := by
  obtain ⟨header, recent, db', st', htx, hrun⟩ := (commits_iff h.succeeds h.enough hv).mpr h.first
  obtain ⟨first, last, hcomm⟩ := archiveTransaction_committed htx
  intro heq
  rw [hrun] at heq
  have hlen := congrArg List.length hcomm.rows
  simp [show db' = s.db from heq, retire, Db.deactivate] at hlen

theorem within_runFullCompaction {b : Int} (hv : Valid s.db)
    (hroom : Enough s → ¬ HasHeader s.db s.st.contextWindowId →
      ∀ recent header, Archived env s.db s.st recent header →
        (total summarySize ((activeChunks s.db s.st).drop (retiredCount s.db s.st)) +
          textSize header + textSize recent : Int) ≤ b)
    (hb : Archiving env s ∨ summaryTotal s.db s.st.contextWindowId ≤ b) :
    summaryTotal (runFullCompaction env s.db s.st).1 s.st.contextWindowId ≤ b := by
  have h := runFullCompaction_cases env s.db s.st
  replace hb := hb.imp_left fun harch => harch.changes hv
  generalize (runFullCompaction env s.db s.st).1 = db', (runFullCompaction env s.db s.st).2 = out
    at h hb ⊢
  cases h with
  | raised | few | noPrompt | unanswered => exact hb.resolve_left fun hne => hne rfl
  | committed header recent _ first last many asked hcomm =>
    have hlen : (activeChunks s.db s.st).length = (s.db.active s.st.contextWindowId .two).length :=
      (orderAsc_perm _ _).length_eq
    have henough : Enough s := by
      refine ⟨hlen ▸ many, fun hnil => ?_⟩
      have hfront := hcomm.front
      rw [hnil, List.length_nil] at hlen
      rw [consolidated_eq, List.eq_nil_of_length_eq_zero hlen, List.take_nil] at hfront
      cases hfront
    have hle := hroom henough (fun ⟨r, hr, hk⟩ => hcomm.fresh r hr hk) recent header asked
    rw [hcomm.summaryTotal hv]
    omega

theorem within_compactTier1 {b : Int} (hbudget : passBudget s.st = b)
    (hroom : ∀ results, gatherSummaries env 0 s.st.chunks = .ok results →
      (summaryTotal s.db s.st.contextWindowId +
        total textSize (admitted s.st b (s.db.summaries.map (·.key)) 0 results) : Int) ≤ b)
    (hb : summaryTotal s.db s.st.contextWindowId ≤ b) :
    summaryTotal (compactTier1 env s.db s.st).1 s.st.contextWindowId ≤ b := by
  obtain ⟨kept, rows, hrows⟩ := compactTier1_rows env s.db s.st
  rw [summaryTotal_append hrows.written hrows.appended]
  by_cases hnil : kept = []
  · simpa [hnil] using hb
  · obtain ⟨_, ⟨results, hresults, rfl⟩, hprefix⟩ := hrows.admits hnil
    have hle := hroom results hresults
    have htotal := total_sublist textSize hprefix.sublist
    rw [hbudget] at htotal
    omega

/-! ## Passes and runs -/

/-- A pass that affords its texts keeps the allocation. -/
theorem Affords.pass {b : Int} (hv : Valid db₀) (hw : db₀.window? win.id = some win)
    (hb : ∀ bt, getBuildTypeConfig config win.buildType = .ok bt → allocation win bt = b)
    (hafford : Affords config env win db₀ b) (h₀ : summaryTotal db₀ win.id ≤ b) :
    summaryTotal (assemble config env db₀ win.id win.conversationId).final.db win.id ≤ b := by
  have hfull : ∀ s, Enters config env win db₀ .runFullCompaction s →
      Archiving env s ∨ summaryTotal s.db win.id ≤ b →
        summaryTotal (runFullCompaction env s.db s.st).1 win.id ≤ b := by
    intro s hs h
    have heff := Assertion.effect _ (hs.known hv hw).1
    rw [← heff.windowId] at h ⊢
    exact within_runFullCompaction heff.valid (heff.windowId ▸ hafford.archival s hs) h
  by_cases harch : ∃ s, Enters config env win db₀ .runFullCompaction s ∧ Archiving env s
  · obtain ⟨s, hs, harch⟩ := harch
    rw [summaryTotal_congr (final_rows hs)]
    exact hfull s hs (.inl harch)
  · have hchunks := hafford.chunks fun s hs h => harch ⟨s, hs, h⟩
    refine (assemble_course hv hw).rows (P := fun db => (summaryTotal db win.id : Int) ≤ b) ?_ h₀ ?_ ?_
    · exact fun _ _ hrows h => (summaryTotal_congr hrows win.id).symm ▸ h
    · intro s hs h
      obtain ⟨hA, _, bt, hplan⟩ := hs.known hv hw
      have hid := (Assertion.effect _ hA).windowId
      have hbudget : passBudget s.st = b := by
        rw [← hb bt hplan.configured.accepted, passBudget, hplan.configured.maxTokenBudget,
          hplan.configured.buildTypeConfig]
        rfl
      rw [← hid] at h ⊢
      exact within_compactTier1 hbudget (hid ▸ hchunks s hs) h
    · exact fun s hs h => hfull s hs (.inr h)

end

/-- The condition on a pass of a run under `config`. -/
def KeepsAllocation (config config' : Config) (env : Env) (win : Window) (db : Db) : Prop :=
  config' = config ∧ ∀ bt, getBuildTypeConfig config win.buildType = .ok bt →
    Affords config env win db (allocation win bt)

/-- The allocation hangs on the build type and the budget only. -/
theorem allocation_eq {config : Config} {win win' : Window} {bt bt' : BuildTypeConfig}
    (hsame : SameWindow win' win) (hbt : getBuildTypeConfig config win.buildType = .ok bt)
    (hbt' : getBuildTypeConfig config win'.buildType = .ok bt') : allocation win' bt' = allocation win bt := by
  obtain ⟨_, hb, hbudget⟩ := hsame
  rw [← hb] at hbt'
  obtain rfl := Except.ok.inj (hbt'.symm.trans hbt)
  rw [allocation, allocation, hbudget]

/-- **The summaries stay within the allocation** of tiers 2 and 3 after every
pass of a run under one configuration whose passes on the window afford their
texts. -/
theorem summaries_within_allocation (evs : List Event) (w : Id) (config : Config)
    (h : EveryPass evs w (KeepsAllocation config)) (pre post : List Event) (env : Env) (win : Window)
    (bt : BuildTypeConfig) (o : StateGraph.Outcome Node PassState Exn)
    (hevs : evs = pre ++ .pass config w env :: post) (hwin : (broker.run pre).window? w = some win)
    (hbt : getBuildTypeConfig config win.buildType = .ok bt)
    (ho : passOutcome config env (broker.run pre) w = some o) :
    (summaryTotal (broker.run (pre ++ [.pass config w env])) w : Int) ≤ allocation win bt := by
  obtain ⟨hpre, hlast⟩ : EveryPass (pre ++ [.pass config w env]) w (KeepsAllocation config) ∧
      KeepsAllocation config config env win (broker.run pre) := by
    subst hevs
    rw [List.append_cons] at h
    exact ⟨h.before, h.before.last hwin⟩
  refine (hpre.and (everyPass_sameWindow hwin)).rows_inv
    (I := fun db => (summaryTotal db w : Int) ≤ allocation win bt) ?_ (hlast.2 bt hbt).nonneg ?_ ?_
  · exact fun _ _ hrows hle => (summaryTotal_congr hrows w).symm ▸ hle
  · rintro config' env' win' db o' hv' hw' rfl ⟨⟨rfl, hafford⟩, hsame⟩ ho' _ hle
    obtain ⟨win'', hwin'', _, _, rfl⟩ := passOutcome_eq_some ho'
    obtain rfl := Option.some.inj (hwin''.symm.trans hw')
    have hbt' : getBuildTypeConfig config' win''.buildType = .ok bt := hsame.2.1 ▸ hbt
    have hafford := hafford bt hbt'
    rw [allocation_eq hsame hbt hbt'] at hafford
    exact hafford.pass hv' hw' (fun _ hbt'' => allocation_eq hsame hbt hbt'') hle
  · intro config' env' win' db o' hv' hw' hne ho' hcourse hle
    obtain ⟨win'', _, hid, heff⟩ := passOutcome_effect hv' ho'
    have hothers := heff.evolves.others w (hid ▸ hne)
    rwa [summaryTotal, hothers, hothers]

/-! ## Two passes over a window of eleven tokens -/

/-- A reply of eight tokens. -/
def longReply : Text := List.replicate 32 's'

/-- Nine messages of eight tokens over a ceiling of 71. -/
def tightRun : List Event := opened .tieredSummary 100 ++ chat 9 32

def tightWindow : Window := { sampleWindow with maxTokenBudget := 100 }

/-- The state `calculate_compaction_state` is entered in, and the next. -/
def atTightPartition : PassState :=
  [Node.acquireAssemblyLock, .loadWindowConfig, .loadMessages].foldl
    (fun s n => (node defaultConfig (calm longReply) n s).1)
    ⟨broker.run tightRun, { contextWindowId := 1, conversationId := 0 }⟩

def atTightChunks : PassState :=
  (node defaultConfig (calm longReply) .calculateCompactionState atTightPartition).1

theorem enters_tightPartition :
    Enters defaultConfig (calm longReply) tightWindow (broker.run tightRun) .calculateCompactionState
      atTightPartition :=
  StateGraph.Visits.follow .entry (by decide +kernel)

theorem enters_tightChunks :
    Enters defaultConfig (calm longReply) tightWindow (broker.run tightRun) .compactTier1
      atTightChunks :=
  .next enters_tightPartition (by decide +kernel) (by decide +kernel)

/-- Tier 2 is not full, so the pass ends without full compaction. -/
theorem enters_tightArchival (s : PassState) :
    ¬ Enters defaultConfig (calm longReply) tightWindow (broker.run tightRun) .runFullCompaction s := by
  intro h
  cases h with
  | @next n _ s hvisit hret hroute =>
    cases edge_of_route hroute with
    | noChunks _ hnil =>
      rw [StateGraph.Visits.unique hvisit enters_tightPartition] at hnil
      revert hnil
      decide +kernel
    | tier2Full _ hmax =>
      rw [StateGraph.Visits.unique hvisit enters_tightChunks] at hmax
      revert hmax
      decide +kernel

theorem gatherSummaries_tightChunks : gatherSummaries (calm longReply) 0 atTightChunks.st.chunks =
    .ok (atTightChunks.st.chunks.map fun chunk => (chunk, some longReply)) := by
  decide +kernel

theorem affords_tightRun :
    Affords defaultConfig (calm longReply) tightWindow (broker.run tightRun)
      (allocation tightWindow {}) := by
  refine ⟨by decide +kernel, fun _ s hs results hresults => ?_,
    fun s hs => absurd hs (enters_tightArchival s)⟩
  obtain rfl := StateGraph.Visits.unique hs enters_tightChunks
  obtain rfl := Except.ok.inj (hresults.symm.trans gatherSummaries_tightChunks)
  decide +kernel

theorem summaries_within_allocation_tightRun :
    (summaryTotal (broker.run (tightRun ++ [.pass defaultConfig 1 (calm longReply)])) 1 : Int) ≤
      allocation tightWindow {} := by
  have hsome : (passOutcome defaultConfig (calm longReply) (broker.run tightRun) 1).isSome = true := by
    decide +kernel
  have hwin : (broker.run tightRun).window? 1 = some tightWindow := by decide +kernel
  refine summaries_within_allocation (tightRun ++ [.pass defaultConfig 1 (calm longReply)]) 1
    defaultConfig ?_ tightRun [] (calm longReply) tightWindow {} _ rfl hwin (by decide +kernel)
    (Option.some_get hsome).symm
  refine EveryPass.snoc (.of_mem fun config env win db hmem => ?_) fun win hwin' => ?_
  · simp [tightRun, opened, chat, say] at hmem
  · obtain rfl := Option.some.inj (hwin.symm.trans hwin')
    refine ⟨rfl, fun bt hbt => ?_⟩
    have hdefault : getBuildTypeConfig defaultConfig tightWindow.buildType = .ok {} := by decide +kernel
    obtain rfl := Except.ok.inj (hbt.symm.trans hdefault)
    exact affords_tightRun

/-- One more message and pass, and a second chunk row of eight tokens: 16 of 11. -/
theorem summaries_within_allocation_false :
    ¬ ∀ (evs : List Event) (w : Id) (config : Config),
      EveryPass evs w (fun config' env _ _ =>
        config' = config ∧ Succeeds env ∧ ∀ i, ∃ text, env.chunkReply i = .ok text) →
      ∀ (pre post : List Event) (env : Env) (win : Window) (bt : BuildTypeConfig)
        (o : StateGraph.Outcome Node PassState Exn), evs = pre ++ .pass config w env :: post →
        (broker.run pre).window? w = some win → getBuildTypeConfig config win.buildType = .ok bt →
        passOutcome config env (broker.run pre) w = some o →
        (summaryTotal (broker.run (pre ++ [.pass config w env])) w : Int) ≤ allocation win bt := by
  intro h
  let pre := tightRun ++ [.pass defaultConfig 1 (calm longReply)] ++ [say "b" 32]
  have hsome : (passOutcome defaultConfig (calm longReply) (broker.run pre) 1).isSome = true := by
    decide +kernel
  have hle := h (pre ++ [.pass defaultConfig 1 (calm longReply)]) 1 defaultConfig
    (.of_mem fun config env win db hmem => ?_) pre [] (calm longReply)
    { tightWindow with lastAssembledAt := some 0 } {} _ rfl (by decide +kernel) (by decide +kernel)
    (Option.some_get hsome).symm
  · revert hle
    decide +kernel
  · simp [pre, tightRun, opened, chat, say] at hmem
    obtain ⟨rfl, rfl⟩ := hmem
    refine ⟨rfl, ?_, fun _ => ⟨_, rfl⟩⟩
    constructor <;> first | rfl | exact fun _ => ⟨_, rfl, by decide⟩

end ContextBroker
