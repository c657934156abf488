import ContextBroker.L4Retrieval.ToolExchanges

/-!
# When a retrieval returns

A message may have no content (an assistant message with only tool calls).
The loaders size it by its stored count or `content or ""`, and so does the
passthrough graph; assembly calls `_estimate_tokens(None)`, which raises. So
a tiered retrieval goes through exactly when its second fill reads no such
message (`Readable`), next to what must hold of the window, the settings
and the calls (`Tiered.Servable`).

`retrieve_total_iff`: for every build type, after every run.
-/
namespace ContextBroker.Retrieval

open Rows

/-! ## The calls -/

/-- No call raises what a node lets through. -/
structure Env.Answers (env : Env) : Prop where
  queries : ∀ site, site ≠ .wait → env.fault site = none
  wait : ∀ e ∈ env.fault .wait, e.caughtBy [.connectionError, .osError, .runtimeError] = true

section

variable {config : Config} {env : Env} {db : Db} {w : Id} {domain : Option Text} {st st' : RetrievalState}

theorem perform_of_none {α : Type} {site : Site} (h : env.fault site = none) (v : α) : perform env.fault site v = .ok v := by
  simp only [perform, h]

theorem fault_of_perform {α : Type} {site : Site} {v a : α} (h : perform env.fault site v = .ok a) : env.fault site = none := by
  unfold perform at h
  split at h
  · cases h
  · assumption

theorem wait_of_ok (h : waitForAssembly env st = .ok st') :
    ∀ e ∈ env.fault .wait, e.caughtBy [.connectionError, .osError, .runtimeError] = true := by
  intro e he
  unfold waitForAssembly at h
  rw [perform, show env.fault .wait = some e from he] at h
  dsimp only at h
  split at h
  · assumption
  · cases h

theorem waitForAssembly_answered (henv : env.Answers) (st : RetrievalState) :
    ∃ status warnings, waitForAssembly env st = .ok { st with assemblyStatus := status, warnings := warnings } := by
  unfold waitForAssembly
  cases hf : env.fault .wait with
  | some e =>
    simp only [perform, hf, if_pos (henv.wait e hf)]
    exact ⟨_, _, rfl⟩
  | none =>
    simp only [perform, hf]
    cases env.timedOut <;> exact ⟨_, _, rfl⟩

theorem loadSummaries_answered (henv : env.Answers) (db : Db) (st : RetrievalState) :
    ∃ st', loadSummaries env db st = .ok st' := by
  unfold loadSummaries
  rw [perform_of_none (henv.queries .summaries (by simp))]
  exact ⟨_, rfl⟩

theorem Tiered.loadRecent_answered {g : Tiered} {limit : Int} (henv : env.Answers) (db : Db)
    (hrows : g.rowLimit config (st.buildTypeConfig.getD {}) st.maxTokenBudget st.tier2Summaries.length = .ok limit)
    (hlimit : 0 ≤ limit) : ∃ st', g.loadRecent config env db st = .ok st' := by
  unfold Tiered.loadRecent loadRecentMessages
  simp only [perform_of_none (henv.queries .highest (by simp)), perform_of_none (henv.queries .messages (by simp)),
    hrows, limitRows, if_neg (Int.not_lt.mpr hlimit), bind, Except.bind]
  exact ⟨_, rfl⟩

/-! ## The second fill -/

/-- The places in a list: the first, and those in the rest. -/
theorem forall_split_cons {α : Type} {P : List α → α → Prop} {a : α} {l : List α} :
    (∀ before x after, a :: l = before ++ x :: after → P before x) ↔
      P [] a ∧ ∀ before x after, l = before ++ x :: after → P (a :: before) x := by
  constructor
  · intro h
    exact ⟨h [] a l rfl, fun before x after hl => h (a :: before) x after (by rw [hl]; rfl)⟩
  · intro ⟨hfirst, hrest⟩ before x after hsplit
    cases before with
    | nil =>
      obtain ⟨rfl, _⟩ := List.cons.inj hsplit
      exact hfirst
    | cons y before =>
      obtain ⟨rfl, hl⟩ := List.cons.inj hsplit
      exact hrest before x after hl

/-- The fill raises at the first message without content it comes to. -/
theorem truncateRecent_ok_iff {remaining : Int} :
    ∀ {used : Nat} {l : List Message}, (∀ m ∈ l, messageTokens m = estimateTokens (m.content.getD [])) →
      (used : Int) ≤ remaining →
        ((∃ out, truncateRecent (some remaining) used l = .ok out) ↔
          ∀ newer m older, l = newer ++ m :: older → m.content = none →
            remaining < used + total messageTokens newer)
  | used, [], _, _ => by simp [truncateRecent]
  | used, m :: rest, hcount, hused => by
    rw [forall_split_cons (P := fun newer m => m.content = none → remaining < used + total messageTokens newer)]
    cases hm : m.content with
    | none =>
      simp only [truncateRecent, hm, reduceCtorEq, exists_false, false_iff]
      intro ⟨hfirst, _⟩
      have hbeyond := hfirst trivial
      simp only [total_nil] at hbeyond
      omega
    | some text =>
      have htokens : messageTokens m = estimateTokens text := by
        rw [hcount m List.mem_cons_self, hm]
        rfl
      have hfurther : ∀ newer, (used : Int) + total messageTokens (m :: newer) =
          ((used + estimateTokens text : Nat) : Int) + total messageTokens newer := by
        intro newer
        rw [total_cons, htokens]
        omega
      simp only [reduceCtorEq, false_implies, true_and, hfurther]
      simp only [truncateRecent, hm, Option.any_some, decide_eq_true_eq]
      split
      · rename_i hfull
        refine ⟨fun _ newer x older _ _ => by omega, fun _ => ⟨[], rfl⟩⟩
      · rename_i hfits
        rw [← truncateRecent_ok_iff (fun x hx => hcount x (List.mem_cons_of_mem _ hx)) (by omega)]
        constructor
        · intro ⟨out, hout⟩
          obtain ⟨tail, htail, _⟩ := bind_eq_ok.mp hout
          exact ⟨tail, htail⟩
        · intro ⟨tail, htail⟩
          exact ⟨m :: tail, by rw [htail]; rfl⟩

/-! ## The system entries -/

/-- `int(inf * 4)` is what can raise. -/
theorem sections_ok_iff {tier3 : Option Text} {tier2 : List Text} {maxBudget : Int} :
    (∃ texts, sections tier3 tier2 domain maxBudget = .ok texts) ↔ truthy domain = none ∨ maxBudget ≠ 0 := by
  unfold sections domainSection remainingAfter
  cases truthy domain with
  | none => exact ⟨fun _ => .inl rfl, fun _ => ⟨_, rfl⟩⟩
  | some text =>
    by_cases hb : maxBudget = 0
    · simp only [if_pos hb]
      constructor
      · intro ⟨_, h⟩
        cases h
      · rintro (h | h)
        · cases h
        · exact absurd hb h
    · simp only [if_neg hb]
      exact ⟨fun _ => .inr hb, fun _ => ⟨_, rfl⟩⟩

/-- The system entries of a tiered graph. -/
def systemTexts (db : Db) (w : Id) (domain : Option Text) (budget : Int) : List Text :=
  (sections (tier3Text db w) (tier2Texts db w) domain budget).toOption.getD []

/-! ## What a tiered graph needs -/

/-- No message without content is loaded while everything after it fits the
second cap. -/
def Readable (limits : Limits) (second : Int) (l : List Message) : Prop :=
  ∀ older m newer, l = older ++ m :: newer → m.content = none → limits.Fit (m :: newer) →
    second < total messageTokens newer

/-- The second fill of what the first one has taken. -/
theorem fill_ok_iff {limits : Limits} {l kept : List Message} (hk : Longest limits.Fit l kept) {budget : Int}
    (hcap : budget = 0 → limits.tokens ≤ 0) {texts : List Text}
    (hcount : ∀ m ∈ kept, messageTokens m = estimateTokens (m.content.getD [])) :
    (∃ out, truncateRecent (remainingAfter budget (total estimateTokens texts)) 0 kept.reverse = .ok out) ↔
      Readable limits (secondCap budget texts) l := by
  obtain ⟨front, hfront⟩ := hk.suffix
  by_cases hb : budget = 0
  · have hnone : ∀ m newer, ¬ limits.Fit (m :: newer) := by
      intro m newer ⟨_, _, htokens⟩
      have hpos := messageTokens_pos m
      have hnonpos := hcap hb
      rw [total_cons] at htokens
      omega
    have hkept : kept = [] := by
      cases hl : kept with
      | nil => rfl
      | cons m newer => exact absurd (hl ▸ hk.holds) (hnone m newer)
    rw [hkept]
    exact ⟨fun _ older m newer _ _ hfit => absurd hfit (hnone m newer), fun _ => ⟨[], rfl⟩⟩
  · rw [remainingAfter, if_neg hb, truncateRecent_ok_iff (fun m hm => hcount m (List.mem_reverse.mp hm)) (by omega)]
    constructor
    · intro h older m newer hsplit hm hfit
      obtain ⟨before, hbefore⟩ := hk.longest (m :: newer) ⟨older, hsplit.symm⟩ hfit
      have := h newer.reverse m before.reverse (by rw [← hbefore]; simp) hm
      rw [total_reverse] at this
      unfold secondCap
      omega
    · intro h newer m older hsplit hm
      have hkept : kept = older.reverse ++ m :: newer.reverse := by
        rw [← List.reverse_inj, hsplit]
        simp
      have hfit := hk.holds.of_suffix ⟨older.reverse, hkept.symm⟩
      have := h (front ++ older.reverse) m newer.reverse (by rw [← hfront, hkept]; simp) hm hfit
      rw [total_reverse] at this
      unfold secondCap at this
      omega

/-- What a tiered retrieval of window `win` needs to go through. -/
structure Tiered.Servable (g : Tiered) (config : Config) (env : Env) (db : Db) (w : Id) (domain : Option Text)
    (win : Window) (bt : BuildTypeConfig) (limit : Int) : Prop where
  answers : env.Answers
  window : db.window? w = some win
  accepted : getBuildTypeConfig config win.buildType = .ok bt
  rows : g.rowLimit config bt (windowBudget win bt) (tier2Texts db w).length = .ok limit
  limit_nonneg : 0 ≤ limit
  text : truthy (g.domain domain) = none ∨ windowBudget win bt ≠ 0
  readable : Readable ⟨db.watermark w, limit.toNat, g.firstCap bt db w (windowBudget win bt)⟩
    (secondCap (windowBudget win bt) (systemTexts db w (g.domain domain) (windowBudget win bt)))
    (db.messagesOf win.conversationId)

variable {g : Tiered}

/-- The nodes before the last one return. -/
theorem Tiered.reaches_assembly {win : Window} {bt : BuildTypeConfig} {limit : Int} (hdb : db.Consecutive)
    (henv : env.Answers) (hwin : db.window? w = some win) (hbt : getBuildTypeConfig config win.buildType = .ok bt)
    (hrows : g.rowLimit config bt (windowBudget win bt) (tier2Texts db w).length = .ok limit) (hlimit : 0 ≤ limit) :
    ∃ st : RetrievalState, g.retrieve config env db w domain = assembleContext (g.domain domain) st ∧
      st.tier3Summary = tier3Text db w ∧ st.tier2Summaries = tier2Texts db w ∧
      st.maxTokenBudget = windowBudget win bt ∧
      st.recentMessages = (takeWithin messageTokens (g.firstCap bt db w (windowBudget win bt)) 0
        ((liveTail db w win.conversationId).reverse.take limit.toNat)).reverse := by
  have hload : loadWindow config env db { contextWindowId := w, domainContext := domain } =
      .ok { contextWindowId := w, domainContext := domain, buildTypeConfig := some bt
            conversationId := win.conversationId, maxTokenBudget := windowBudget win bt } := by
    unfold loadWindow
    rw [perform_of_none (henv.queries .window (by simp)), perform_of_none (henv.queries .touch (by simp))]
    simp only [hwin, hbt, bind, Except.bind]
    rfl
  obtain ⟨status, warnings, hwait⟩ := waitForAssembly_answered henv
    { contextWindowId := w, domainContext := domain, buildTypeConfig := some bt
      conversationId := win.conversationId, maxTokenBudget := windowBudget win bt }
  obtain ⟨st₃, h₃⟩ := loadSummaries_answered henv db
    { contextWindowId := w, domainContext := domain, buildTypeConfig := some bt
      conversationId := win.conversationId, maxTokenBudget := windowBudget win bt
      assemblyStatus := status, warnings := warnings }
  have hst₃ := loadSummaries_ok h₃
  obtain ⟨st₄, h₄⟩ : ∃ st₄, g.loadRecent config env db st₃ = .ok st₄ := by
    subst hst₃
    exact Tiered.loadRecent_answered henv db hrows hlimit
  have hgraph : g.retrieve config env db w domain = assembleContext (g.domain st₄.domainContext) st₄ := by
    unfold Tiered.retrieve
    rw [hload]
    simp only [bind, Except.bind, hwait, h₃]
    cases g <;> simp only [retLoadRecentMessages, keLoadRecentMessages, h₄] <;> rfl
  subst hst₃
  obtain ⟨limit', _, hlimit', _, rfl, rfl⟩ := Tiered.loadRecent_ok hdb rfl rfl h₄
  obtain rfl : limit' = limit := Except.ok.inj (hlimit'.symm.trans hrows)
  exact ⟨_, hgraph, rfl, rfl, rfl, rfl⟩

/-- Assembly returns when the system entries do and the second fill does. -/
theorem assembleContext_total_iff :
    (∃ st', assembleContext domain st = .ok st' ∧ st'.contextMessages.isSome = true) ↔
      ∃ texts, sections st.tier3Summary st.tier2Summaries domain st.maxTokenBudget = .ok texts ∧
        ∃ out, truncateRecent (remainingAfter st.maxTokenBudget (total estimateTokens texts)) 0
          st.recentMessages.reverse = .ok out := by
  constructor
  · intro ⟨st', h, _⟩
    obtain ⟨texts, htexts, h⟩ := bind_eq_ok.mp h
    obtain ⟨out, hout, _⟩ := bind_eq_ok.mp h
    exact ⟨texts, htexts, out, hout⟩
  · intro ⟨texts, htexts, out, hout⟩
    unfold assembleContext
    simp only [htexts, hout, bind, Except.bind]
    exact ⟨_, rfl, rfl⟩

/-- The calls a retrieval that goes through has made. -/
theorem Tiered.calls_of_ok {win : Window} (hwin : db.window? w = some win)
    (h : g.retrieve config env db w domain = .ok st) (herr : st.error = none) :
    env.Answers := by
  obtain ⟨st₁, h₁, h⟩ := bind_eq_ok.mp h
  obtain ⟨found, hwindow, hbody⟩ := bind_eq_ok.mp h₁
  obtain rfl := perform_eq_ok hwindow
  dsimp only at hbody
  rw [hwin] at hbody
  obtain ⟨_, htouch, _⟩ := bind_eq_ok.mp hbody
  rcases loadWindow_ok h₁ with ⟨e, rfl⟩ | ⟨_, bt, _, _, rfl⟩
  · obtain rfl := Except.ok.inj h
    cases herr
  · obtain ⟨st₂, hwait, h⟩ := bind_eq_ok.mp h
    obtain ⟨st₃, h₃, h⟩ := bind_eq_ok.mp h
    obtain ⟨_, hsummaries, _⟩ := bind_eq_ok.mp h₃
    obtain ⟨st₄, h₄⟩ : ∃ st₄, g.loadRecent config env db st₃ = .ok st₄ := by
      cases g <;> exact ⟨_, (bind_eq_ok.mp h).choose_spec.1⟩
    obtain ⟨_, hhighest, h₄⟩ := bind_eq_ok.mp h₄
    obtain ⟨_, hmessages, _⟩ := bind_eq_ok.mp h₄
    refine ⟨fun site hsite => ?_, wait_of_ok hwait⟩
    cases site with
    | window => exact fault_of_perform hwindow
    | touch => exact fault_of_perform htouch
    | wait => exact absurd rfl hsite
    | summaries => exact fault_of_perform hsummaries
    | highest => exact fault_of_perform hhighest
    | messages => exact fault_of_perform hmessages

/-- With the calls answered and the settings good, it is up to the messages. -/
theorem Tiered.goes_through_iff {win : Window} {bt : BuildTypeConfig} {limit : Int} (hdb : db.Consecutive)
    (hcount : db.Counted) (henv : env.Answers) (hwin : db.window? w = some win)
    (hbt : getBuildTypeConfig config win.buildType = .ok bt)
    (hrows : g.rowLimit config bt (windowBudget win bt) (tier2Texts db w).length = .ok limit) (hlimit : 0 ≤ limit) :
    (∃ st, g.retrieve config env db w domain = .ok st ∧ st.contextMessages.isSome = true) ↔
      g.Servable config env db w domain win bt limit := by
  obtain ⟨st, hgraph, h3, h2, hbudget, hrecent⟩ := Tiered.reaches_assembly hdb henv hwin hbt hrows hlimit
  have hkept := longest_liveTail (w := w) hdb win.conversationId limit.toNat
    (le_max_left 0 _ : 0 ≤ g.firstCap bt db w (windowBudget win bt))
  have hzero : windowBudget win bt = 0 → g.firstCap bt db w (windowBudget win bt) ≤ 0 := by
    intro h
    unfold Tiered.firstCap
    rw [h]
    omega
  have hsized : ∀ m ∈ (takeWithin messageTokens (g.firstCap bt db w (windowBudget win bt)) 0
      ((liveTail db w win.conversationId).reverse.take limit.toNat)).reverse,
        messageTokens m = estimateTokens (m.content.getD []) :=
    fun m hm => hcount m (mem_liveTail (mem_of_newest hm))
  rw [hgraph, assembleContext_total_iff, h3, h2, hbudget, hrecent]
  constructor
  · intro ⟨texts, htexts, hout⟩
    refine ⟨henv, hwin, hbt, hrows, hlimit, sections_ok_iff.mp ⟨texts, htexts⟩, ?_⟩
    rw [systemTexts, htexts]
    exact (fill_ok_iff hkept hzero hsized).mp hout
  · intro hs
    obtain ⟨texts, htexts⟩ := sections_ok_iff.mpr hs.text
    have hreadable := hs.readable
    rw [systemTexts, htexts] at hreadable
    exact ⟨texts, htexts, (fill_ok_iff hkept hzero hsized).mpr hreadable⟩

/-- **A tiered retrieval goes through** exactly when it is servable. -/
theorem Tiered.total_iff (hdb : db.Consecutive) (hcount : db.Counted) :
    (∃ st, g.retrieve config env db w domain = .ok st ∧ st.contextMessages.isSome = true) ↔
      ∃ win bt limit, g.Servable config env db w domain win bt limit := by
  constructor
  · intro ⟨st, h, hsome⟩
    rcases Tiered.retrieve_ok hdb hcount h with ⟨_, hnone⟩ | ⟨p, hp⟩
    · rw [hnone] at hsome
      cases hsome
    · have henv := Tiered.calls_of_ok p.window h hp.error
      exact ⟨p.win, p.bt, p.limit, (Tiered.goes_through_iff hdb hcount henv p.window p.accepted p.rows
        p.limit_nonneg).mp ⟨st, h, hsome⟩⟩
  · intro ⟨win, bt, limit, hs⟩
    exact (Tiered.goes_through_iff hdb hcount hs.answers hs.window hs.accepted hs.rows hs.limit_nonneg).mpr hs

/-! ## Passthrough -/

/-- What a passthrough retrieval needs: nothing of the messages. -/
structure PtServable (config : Config) (env : Env) (db : Db) (w : Id) : Prop where
  answers : ∀ site ∈ [Site.window, Site.touch, Site.messages], env.fault site = none
  window : (db.window? w).isSome = true
  limit_nonneg : 0 ≤ getTuning config .maxMessagesToLoad 1000

theorem ptRetrieve_total_iff :
    (∃ st, ptRetrieve config env db w domain = .ok st ∧ st.contextMessages.isSome = true) ↔
      PtServable config env db w := by
  constructor
  · intro ⟨st, h, hsome⟩
    obtain ⟨st₁, h₁, h⟩ := bind_eq_ok.mp h
    obtain ⟨found, hwindow, h₁⟩ := bind_eq_ok.mp h₁
    obtain rfl := perform_eq_ok hwindow
    dsimp only at h₁
    cases hwin : db.window? w with
    | none =>
      rw [hwin] at h₁
      obtain rfl := Except.ok.inj h₁
      obtain rfl := Except.ok.inj h
      cases hsome
    | some win =>
      rw [hwin] at h₁
      obtain ⟨_, htouch, h₁⟩ := bind_eq_ok.mp h₁
      obtain rfl := Except.ok.inj h₁
      obtain ⟨rows, hmessages, h⟩ := bind_eq_ok.mp h
      obtain ⟨cut, hcut, _⟩ := bind_eq_ok.mp h
      refine ⟨?_, by simp [hwin], (limitRows_ok hcut).1⟩
      simp [fault_of_perform hwindow, fault_of_perform htouch, fault_of_perform hmessages]
  · intro ⟨hanswers, hwindow, hlimit⟩
    obtain ⟨win, hwin⟩ := Option.isSome_iff_exists.mp hwindow
    unfold ptRetrieve ptLoadWindow ptLoadRecent
    simp only [perform_of_none (hanswers .window (by simp)), perform_of_none (hanswers .touch (by simp)),
      perform_of_none (hanswers .messages (by simp)), hwin, limitRows, if_neg (Int.not_lt.mpr hlimit), bind, Except.bind]
    exact ⟨_, rfl, rfl⟩

end

/-! ## Every build type -/

def Servable (config : Config) (env : Env) (db : Db) (w : Id) (domain : Option Text) : BuildType → Prop
  | .slidingWindow => PtServable config env db w
  | .tieredSummary => ∃ win bt limit, Tiered.standard.Servable config env db w domain win bt limit
  | .enriched => ∃ win bt limit, Tiered.enriched.Servable config env db w domain win bt limit
  | .other _ => False

/-- **A retrieval returns a context** exactly when it is servable, after every
run. -/
theorem retrieve_total_iff (evs : List Event) (config : Config) (env : Env) (w : Id) (domain : Option Text)
    (buildType : BuildType) :
    (∃ st, retrieve config env (broker.run evs) w domain buildType = .ok st ∧ st.contextMessages.isSome = true) ↔
      Servable config env (broker.run evs) w domain buildType := by
  have hv := valid_run evs
  cases buildType with
  | slidingWindow => exact ptRetrieve_total_iff
  | tieredSummary => exact Tiered.total_iff (g := .standard) hv.consecutive hv.counted
  | enriched => exact Tiered.total_iff (g := .enriched) hv.consecutive hv.counted
  | other name => simp [retrieve, Servable]

/-- An assistant message with nothing but a tool call. -/
def silentCall : List Event :=
  opened .tieredSummary 80 ++
    [.store (.message 0 { conversationIdInput := some 0, role := .assistant, sender := "imperator".toList
                          content := none, toolCalls := some ['k'] })]

/-- A call without content: the retrieval of a window of 80 raises. -/
theorem retrieve_total_false :
    ¬ ∀ (evs : List Event) (config : Config) (env : Env) (w : Id) (buildType : BuildType) (win : Window),
      (broker.run evs).window? w = some win → win.buildType = buildType → env.Answers →
        (getBuildTypeConfig config buildType).isOk = true →
          ∃ st, retrieve config env (broker.run evs) w none buildType = .ok st ∧ st.contextMessages.isSome = true := by
  intro h
  have hwin : ((broker.run silentCall).window? 1).any (fun win : Window => win.buildType = .tieredSummary) = true := by
    decide +kernel
  have hraises : (retrieve defaultConfig {} (broker.run silentCall) 1 none .tieredSummary).isOk = false := by
    decide +kernel
  obtain ⟨win, hwin, htype⟩ := (Option.any_eq_true _ _).mp hwin
  obtain ⟨st, hst, _⟩ := h silentCall defaultConfig {} 1 .tieredSummary win hwin (of_decide_eq_true htype)
    ⟨fun _ _ => rfl, by simp⟩ (by decide +kernel)
  rw [hst] at hraises
  cases hraises

end ContextBroker.Retrieval
