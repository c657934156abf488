import ContextBroker.L3Assembly.Runs

/-!
# A window's full compaction commits once

`run_full_compaction` retires the old archival rows and inserts the new ones.
Its header row always has the key (window, 3, 0, 0), and
`idx_summaries_window_tier_seq` covers retired rows, so the first committed
header blocks every later one: the insert raises `UniqueViolationError`,
which the node does not catch.

`compaction_commits_iff`: with enough chunk rows and every call succeeding,
the transaction commits exactly if no header row of the window is stored yet.
The archival row never collides: its range starts at 1 or later, and a
window without a header row has no archival row either (`Valid.header`).
-/
namespace ContextBroker

open Rows StandardTiered

/-- Node `n` of a pass on window `w`, after the run `evs`, is entered with `s`. -/
def Entered (evs : List Event) (config : Config) (env : Env) (w : Id) (n : Node) (s : PassState) :
    Prop :=
  ∃ win, (broker.run evs).window? w = some win ∧ usesTiers win.buildType = true ∧
    (assemblyGraph config env).Visits
      ⟨broker.run evs, { contextWindowId := w, conversationId := win.conversationId }⟩ n s

/-- No call of full compaction raises, and both LLM calls return a text. -/
structure Succeeds (env : Env) : Prop where
  activeChunks : env.fault .activeChunks = none
  archival : env.fault .archival = none
  archivalPrompt : env.fault .archivalPrompt = none
  archiver : env.fault .archiver = none
  commit : env.fault .commit = none
  recentReply : ∀ p, ∃ text, env.recentReply p = .ok text ∧ text ≠ []
  headerReply : ∀ p, ∃ text, env.headerReply p = .ok text ∧ text ≠ []

/-- `tier_2_min_chunks` of the pass. -/
def minChunks (s : PassState) : Int :=
  (extractDeadbandConfig (s.st.buildTypeConfig.getD {})).tier2MinChunks

/-- More active chunk rows than are kept. -/
def Enough (s : PassState) : Prop :=
  minChunks s < (s.db.active s.st.contextWindowId .two).length ∧
    s.db.active s.st.contextWindowId .two ≠ []

instance (s : PassState) : Decidable (Enough s) := inferInstanceAs (Decidable (_ ∧ _))

/-- The chunk rows full compaction consolidates. -/
def toConsolidate (s : PassState) : List Summary :=
  consolidated (s.db.active s.st.contextWindowId .two) (minChunks s - 1)

/-- The transaction commits and the node returns. -/
def Commits (env : Env) (s : PassState) : Prop :=
  ∃ header recent db' st', archiveTransaction s.db s.st (toConsolidate s) header recent = .ok db' ∧
    runFullCompaction env s.db s.st = (db', .ok st')

/-- The header row of window `w` is stored, active or retired. -/
def HasHeader (db : Db) (w : Id) : Prop := ∃ r ∈ db.summaries, r.key = Summary.headerKey w

theorem hasHeader_congr {db db' : Db} (h : db'.summaries = db.summaries) (w : Id) :
    HasHeader db' w ↔ HasHeader db w := by
  simp only [HasHeader, h]

section

variable {db db' : Db} {s : PassState} {env : Env}

/-! ## The transaction -/

theorem insertSummary_isOk_iff {row : Summary} :
    (∃ db', db.insertSummary row = .ok db') ↔ row.key ∉ db.summaries.map Summary.key := by
  constructor
  · intro ⟨db', h⟩ hmem
    obtain ⟨r, hr, hk⟩ := List.mem_map.mp hmem
    exact (Db.insertSummary_eq_ok.mp h).1 r hr hk
  · intro hnot
    refine ⟨_, Db.insertSummary_eq_ok.mpr ⟨fun r hr hk => hnot ?_, rfl⟩⟩
    exact hk ▸ List.mem_map_of_mem hr

/-- The transaction over the `k` oldest chunks fails on a stored header. -/
theorem archiveTransaction_raises {st : AssemblyState} {k : Nat} {header recent : Text}
    (h : HasHeader db st.contextWindowId) :
    archiveTransaction db st ((db.active st.contextWindowId .two).take k) header recent =
      .error .uniqueViolationError := by
  have hblocked : ¬ ∃ db', (retire db st ((db.active st.contextWindowId .two).take k)).insertSummary
      (headerRow st header) = .ok db' := by
    rw [insertSummary_isOk_iff, keys_retire, not_not]
    exact List.mem_map.mpr h
  unfold archiveTransaction
  show (retire db st ((db.active st.contextWindowId .two).take k)).insertSummary (headerRow st header) >>= _ = _
  cases hins : (retire db st ((db.active st.contextWindowId .two).take k)).insertSummary (headerRow st header) with
  | ok db' => exact absurd ⟨db', hins⟩ hblocked
  | error e =>
    obtain ⟨rfl, _⟩ := Db.insertSummary_eq_error hins
    rfl

/-- Without a header row it commits: no archival row is in the way either. -/
theorem archiveTransaction_commits (hv : Valid db) {st : AssemblyState} {k : Nat} (header recent : Text)
    (h : ¬ HasHeader db st.contextWindowId) (hne : (db.active st.contextWindowId .two).take k ≠ []) :
    ∃ db', archiveTransaction db st ((db.active st.contextWindowId .two).take k) header recent =
      .ok db' := by
  obtain ⟨db₁, hheader⟩ : ∃ db₁, (retire db st ((db.active st.contextWindowId .two).take k)).insertSummary
      (headerRow st header) = .ok db₁ := by
    rw [insertSummary_isOk_iff, keys_retire]
    intro hmem
    exact h (List.mem_map.mp hmem)
  obtain ⟨first, hfirst⟩ : ∃ r, ((db.active st.contextWindowId .two).take k).head? = some r :=
    ⟨_, List.head?_eq_some_head hne⟩
  obtain ⟨last, hlast⟩ : ∃ r, ((db.active st.contextWindowId .two).take k).getLast? = some r :=
    ⟨_, List.getLast?_eq_some_getLast hne⟩
  have hpos := hv.active_two_pos (List.mem_of_mem_take (List.mem_of_head? hfirst))
  obtain ⟨db₂, harchival⟩ : ∃ db₂, db₁.insertSummary
      (archivalRow st ((db.active st.contextWindowId .two).take k) first last recent) = .ok db₂ := by
    rw [insertSummary_isOk_iff, Db.keys_insertSummary hheader, keys_retire]
    intro hmem
    rcases List.mem_append.mp hmem with hold | hnew
    · obtain ⟨r, hr, hk⟩ := List.mem_map.mp hold
      obtain ⟨hw, ht, _, _⟩ := Summary.key_inj hk
      obtain ⟨x, hx, hxk⟩ := hv.header r hr ht
      exact h ⟨x, hx, by rw [hxk, hw]; rfl⟩
    · obtain ⟨_, _, hfrom, _⟩ := Summary.key_inj (List.mem_singleton.mp hnew)
      have hzero : first.fromSeq = 0 := hfrom
      omega
  refine ⟨db₂, ?_⟩
  unfold archiveTransaction
  show (retire db st ((db.active st.contextWindowId .two).take k)).insertSummary (headerRow st header) >>= _ = _
  simp only [hheader, bind, Except.bind, hfirst, hlast]
  exact harchival

/-! ## The node -/

theorem perform_of_none {α : Type} {site : Site} {v : α} (h : env.fault site = none) :
    perform env.fault site v = .ok v := by
  simp [perform, h]

/-- The node up to the transaction. -/
theorem runFullCompaction_eq (henv : Succeeds env) (hs : Enough s) (hv : Valid s.db) :
    ∃ header recent, runFullCompaction env s.db s.st =
      match archiveTransaction s.db s.st (toConsolidate s) header recent with
      | .ok db' => (db', .ok { s.st with tier3Summary := some (header ++ "\n\n".toList ++ recent) })
      | .error e =>
        if e.caughtBy [.openaiApiError, .httpxHttpError, .valueError] then
          (s.db, .ok { s.st with tier3Summary := none, hadErrors := true })
        else (s.db, .error e) := by
  obtain ⟨recent, hrecent, hrne⟩ := henv.recentReply (recentPrompt (toConsolidate s))
  obtain ⟨header, hheader, hhne⟩ := henv.headerReply (headerPrompt
    (orderDesc (·.toSeq) (s.db.active s.st.contextWindowId .three)).head? recent)
  have henough : ¬ (((s.db.active s.st.contextWindowId .two).length : Int) ≤ minChunks s ∨
      ((s.db.active s.st.contextWindowId .two).length : Int) ≤ minChunks s - 1) := by
    have := hs.1
    omega
  refine ⟨header, recent, ?_⟩
  unfold runFullCompaction
  simp only [perform_of_none henv.activeChunks, perform_of_none henv.archival,
    perform_of_none henv.archivalPrompt, perform_of_none henv.archiver, hv.orderAsc_active]
  rw [minChunks] at henough
  rw [if_neg henough]
  simp only [toConsolidate, minChunks] at hrecent ⊢
  simp only [archive, hrecent, hheader, perform_of_none henv.commit, bind, Except.bind, hrne, hhne,
    or_self, if_false]
  cases archiveTransaction s.db s.st
    (consolidated (s.db.active s.st.contextWindowId .two)
      ((extractDeadbandConfig (s.st.buildTypeConfig.getD {})).tier2MinChunks - 1)) header recent <;> rfl

theorem toConsolidate_eq_take (hs : Enough s) :
    ∃ k, toConsolidate s = (s.db.active s.st.contextWindowId .two).take k ∧
      (s.db.active s.st.contextWindowId .two).take k ≠ [] := by
  obtain ⟨hmin, hne⟩ := hs
  have hpos := List.length_pos_iff.mpr hne
  refine ⟨_, consolidated_eq _ _, List.ne_nil_of_length_pos ?_⟩
  rw [List.length_take]
  omega

theorem commits_iff (henv : Succeeds env) (hs : Enough s) (hv : Valid s.db) :
    Commits env s ↔ ¬ HasHeader s.db s.st.contextWindowId := by
  obtain ⟨k, hk, hne⟩ := toConsolidate_eq_take hs
  obtain ⟨header, recent, heq⟩ := runFullCompaction_eq henv hs hv
  rw [hk] at heq
  constructor
  · intro ⟨header', recent', db', st', htx, _⟩ hhas
    rw [hk, archiveTransaction_raises hhas] at htx
    cases htx
  · intro hno
    obtain ⟨db', htx⟩ := archiveTransaction_commits hv header recent hno hne
    rw [htx] at heq
    exact ⟨header, recent, db', _, hk ▸ htx, heq⟩

end

/-! ## Over a run -/

/-- **Full compaction in a run.** Whenever a pass reaches it with enough chunk
rows and its calls succeed, its transaction commits exactly if no header row
of the window is stored. -/
theorem compaction_commits_iff (evs : List Event) (config : Config) (env : Env) (w : Id)
    (s : PassState) (hs : Entered evs config env w .runFullCompaction s) (henv : Succeeds env)
    (hen : Enough s) : Commits env s ↔ ¬ HasHeader s.db w := by
  obtain ⟨win, hw, _, hvisit⟩ := hs
  obtain rfl : win.id = w := eq_of_beq (List.find?_some hw :)
  have hbefore : StandardTiered.Before win (broker.run evs) ⟨broker.run evs,
      { contextWindowId := win.id, conversationId := win.conversationId }⟩ :=
    ⟨valid_run evs, .refl _, rfl, rfl, reaches_nil (valid_run evs).consecutive, stretch_nil⟩
  have heff : PassEffect config env win (broker.run evs) s := (outline hw).visits hbefore hvisit
  rw [← heff.windowId]
  exact commits_iff henv hen heff.valid

/-! ## The first and the second full compaction -/

/-- Chunks of one message. -/
def singleConfig : Config :=
  { defaultConfig with tuning := fun k => if k = .chunkSize then some 1 else none }

/-- Six messages of two tokens over a ceiling of five; the pass stores four chunks. -/
def beforeFirst : List Event :=
  opened .tieredSummary 8 ++ chat 6 8 ++ [.pass singleConfig 1 (calm ['s'])]

/-- The pass that runs full compaction, then two more messages and their chunks. -/
def beforeSecond : List Event :=
  beforeFirst ++ [.pass singleConfig 1 (calm ['s'])] ++ chat 2 8 ++ [.pass singleConfig 1 (calm ['s'])]

/-- The state the next pass enters full compaction with. -/
def atCompaction (evs : List Event) : PassState :=
  [Node.acquireAssemblyLock, .loadWindowConfig, .loadMessages, .calculateCompactionState].foldl
    (fun s n => (node singleConfig (calm ['s']) n s).1)
    ⟨broker.run evs, { contextWindowId := 1, conversationId := 0 }⟩

theorem succeeds_calm : Succeeds (calm ['s']) := by
  constructor <;> first | rfl | exact fun _ => ⟨_, rfl, by decide⟩

theorem entered_first :
    Entered beforeFirst singleConfig (calm ['s']) 1 .runFullCompaction (atCompaction beforeFirst) := by
  refine ⟨{ sampleWindow with lastAssembledAt := some 0 }, by decide +kernel, rfl, ?_⟩
  exact StateGraph.Visits.follow .entry (by decide +kernel)

theorem compaction_commits_iff_first :
    Commits (calm ['s']) (atCompaction beforeFirst) ↔ ¬ HasHeader (atCompaction beforeFirst).db 1 :=
  compaction_commits_iff beforeFirst singleConfig (calm ['s']) 1 (atCompaction beforeFirst)
    entered_first succeeds_calm (by decide +kernel)

theorem entered_second :
    Entered beforeSecond singleConfig (calm ['s']) 1 .runFullCompaction (atCompaction beforeSecond) := by
  refine ⟨{ sampleWindow with lastAssembledAt := some 0 }, by decide +kernel, rfl, ?_⟩
  exact StateGraph.Visits.follow .entry (by decide +kernel)

/-- The second full compaction of a window raises, with every call succeeding. -/
theorem compaction_commits_again_false :
    ¬ ∀ (evs : List Event) (config : Config) (env : Env) (w : Id) (s : PassState),
      Entered evs config env w .runFullCompaction s → Succeeds env → Enough s → Commits env s := by
  intro h
  obtain ⟨_, _, _, _, _, hret⟩ :=
    h _ _ _ _ _ entered_second succeeds_calm (by decide +kernel)
  have hraise : (runFullCompaction (calm ['s']) (atCompaction beforeSecond).db
      (atCompaction beforeSecond).st).2 = .error .uniqueViolationError := by
    decide +kernel
  rw [hret] at hraise
  cases hraise

end ContextBroker
