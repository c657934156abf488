import ContextBroker.L4Retrieval.GetContext

/-!
# The current prompt in the answer

`get_context` stores the prompt first, so that it is the newest message when
the retrieval runs. From then on it is one message among others: it has to be
above the watermark, within the row limit and within both caps of the fill.

`prompt_last_iff`: the answer ends with the prompt exactly when the newest
message fits (`PromptKept`), in every state a run reaches.
-/
namespace ContextBroker.GetContext

open Rows Retrieval

/-! ## The newest message -/

section

variable {db db' : Db} {now : Time} {c w : Id} {prompt : Text}

theorem storePrompt_store (h : storePrompt now db c prompt = .ok db') :
    db' = db.store (.prompt now c prompt) := by
  simp only [Db.store, h]

theorem getLast?_inserted {row : Message} (h : db'.messages = db.messages ++ [row])
    (hc : row.conversationId = c) : (db'.messagesOf c).getLast? = some row := by
  rw [Db.messagesOf_append h, if_pos hc, List.getLast?_concat]

/-- **A stored prompt is the newest message**, inserted or collapsed. -/
theorem storePrompt_last (hv : Valid db) (h : storePrompt now db c prompt = .ok db') :
    ∃ m, db'.lastMessage c = some m ∧ m ∈ db'.messages ∧ m.content = some prompt := by
  have hv' : Valid db' := storePrompt_store h ▸ hv.store _
  suffices hlast : ∃ m, (db'.messagesOf c).getLast? = some m ∧ m.content = some prompt by
    obtain ⟨m, hm, hcontent⟩ := hlast
    exact ⟨m, (hv'.consecutive.lastMessage c).trans hm,
      List.mem_of_mem_filter (List.mem_of_getLast? hm), hcontent⟩
  unfold storePrompt at h
  split at h
  · rename_i last hlast
    obtain ⟨hlast, hsame⟩ := Option.filter_eq_some_iff.mp hlast
    simp only [Bool.and_eq_true, beq_iff_eq] at hsame
    rw [hv.consecutive.lastMessage] at hlast
    obtain rfl := Except.ok.inj h
    rw [messagesOf_setRepeatCount, List.getLast?_map, hlast]
    refine ⟨_, rfl, ?_⟩
    dsimp only
    split <;> exact hsame.2
  · obtain ⟨db₁, hins, h⟩ := bind_eq_ok.mp h
    obtain ⟨_, _, rfl⟩ := Db.insertMessage_eq_ok.mp hins
    obtain rfl := Except.ok.inj h
    exact ⟨{ promptRow now db c prompt with id := db.nextId }, getLast?_inserted rfl rfl, rfl⟩

/-- The last message of the live tail is the newest one, if any is live. -/
theorem liveTail_getLast? (h : db.Consecutive) (hne : liveTail db w c ≠ []) :
    (liveTail db w c).getLast? = db.lastMessage c := by
  unfold liveTail at hne ⊢
  rw [h.lastMessage, (h c).filter_above] at *
  rw [List.getLast?_drop, if_neg]
  intro hle
  exact hne (List.drop_eq_nil_of_le hle)

end

/-! ## The last entry -/

def lastContent (entries : List Entry) : Option Text := entries.getLast?.bind (·.content)

theorem lastContent_messages (l : List Message) :
    lastContent (l.map messageEntry) = l.getLast?.bind (·.content) := by
  unfold lastContent
  rw [List.getLast?_map]
  cases l.getLast? <;> rfl

/-- The newest message is live, and within the row limit and both caps. -/
structure NewestFits {g : Tiered} {config : Config} {db : Db} {w : Id} {domain : Option Text}
    (p : g.Plan config db w domain) (tokens : Nat) : Prop where
  live : p.tail ≠ []
  row : 1 ≤ p.limit
  first : (tokens : Int) ≤ p.firstCap
  second : (tokens : Int) ≤ p.secondCap

theorem recent_getLast? {g : Tiered} {config : Config} {db : Db} {w : Id} {domain : Option Text}
    (p : g.Plan config db w domain) (hdb : db.Consecutive) {m : Message}
    (hm : db.lastMessage p.win.conversationId = some m) :
    (NewestFits p (messageTokens m) ∧ p.recent.getLast? = some m) ∨
      (¬ NewestFits p (messageTokens m) ∧ p.recent.getLast? = none) := by
  have hlimit := p.limit_nonneg
  unfold Tiered.Plan.recent
  rw [getLast?_newest]
  by_cases hlive : p.tail = []
  · refine .inr ⟨fun h => h.live hlive, ?_⟩
    rw [hlive]
    split <;> rfl
  · have hlast : p.tail.getLast? = some m := (liveTail_getLast? hdb hlive).trans hm
    rw [hlast]
    by_cases hrow : 1 ≤ p.limit
    · rw [if_neg (by omega)]
      by_cases hfits : (messageTokens m : Int) ≤ min p.firstCap p.secondCap
      · exact .inl ⟨⟨hlive, hrow, by omega, by omega⟩, by simp [Option.filter, hfits]⟩
      · refine .inr ⟨fun h => hfits (le_min h.first h.second), ?_⟩
        rw [Option.filter, decide_eq_false hfits]
        rfl
    · exact .inr ⟨fun h => hrow h.row, by rw [if_pos (by omega)]⟩

/-- The last entry of a tiered answer. -/
theorem lastContent_entries {g : Tiered} {config : Config} {db : Db} {w : Id} {domain : Option Text}
    (p : g.Plan config db w domain) (hdb : db.Consecutive) {m : Message} {prompt : Text}
    (hm : db.lastMessage p.win.conversationId = some m) (hcontent : m.content = some prompt) :
    lastContent p.entries = some prompt ↔
      NewestFits p (messageTokens m) ∨ p.texts.getLast? = some prompt := by
  unfold lastContent Tiered.Plan.entries
  rw [List.getLast?_append, List.getLast?_map, List.getLast?_map]
  rcases recent_getLast? p hdb hm with ⟨hfits, hlast⟩ | ⟨hnot, hlast⟩
  · rw [hlast]
    exact ⟨fun _ => .inl hfits, fun _ => hcontent⟩
  · rw [hlast]
    cases p.texts.getLast? <;> simp [hnot, systemEntry]

/-! ## The result -/

/-- The prompt is within what the retrieval returns, in the tables that hold
it already. Failing that, an answer can still end with a system entry of the
same text. -/
def PromptKept (config : Config) (db : Db) (w : Id) (domain : Option Text) (prompt : Text) :
    BuildType → Prop
  | .slidingWindow => ∃ win, db.window? w = some win ∧ 1 ≤ getTuning config .maxMessagesToLoad 1000 ∧
      (estimateTokens prompt : Int) ≤ effectiveBudget win.maxTokenBudget EFFECTIVE_UTILIZATION_DEFAULT
  | .tieredSummary => ∃ p : Tiered.standard.Plan config db w domain,
      NewestFits p (estimateTokens prompt) ∨ p.texts.getLast? = some prompt
  | .enriched => ∃ p : Tiered.enriched.Plan config db w domain,
      NewestFits p (estimateTokens prompt) ∨ p.texts.getLast? = some prompt
  | .other _ => False

section

variable {config : Config} {env : Retrieval.Env} {db : Db} {w c : Id} {domain : Option Text}
  {prompt : Text} {m : Message} {x : Window}

theorem tiered_lastContent_iff {g : Tiered} {st : RetrievalState} (hv : Valid db)
    (hwin : db.window? w = some x) (hm : db.lastMessage x.conversationId = some m)
    (htokens : messageTokens m = estimateTokens prompt) (hcontent : m.content = some prompt)
    (h : g.retrieve config env db w domain = .ok st) (herr : st.error = none) :
    ∃ entries, st.contextMessages = some entries ∧
      (lastContent entries = some prompt ↔ ∃ p : g.Plan config db w domain,
        NewestFits p (estimateTokens prompt) ∨ p.texts.getLast? = some prompt) := by
  rcases Tiered.retrieve_ok hv.consecutive hv.counted h with ⟨hsome, _⟩ | ⟨p, hp⟩
  · rw [herr] at hsome
    cases hsome
  · have hx : p.win = x := Option.some.inj (p.window.symm.trans hwin)
    refine ⟨_, hp.entries, (lastContent_entries p hv.consecutive (hx ▸ hm) hcontent).trans ?_⟩
    rw [htokens]
    constructor
    · exact fun hkept => ⟨p, hkept⟩
    · intro ⟨p', hkept⟩
      rwa [p.unique p']

theorem slide_lastContent_iff (hdb : db.Consecutive) (hm : db.lastMessage x.conversationId = some m)
    (htokens : messageTokens m = estimateTokens prompt) (hcontent : m.content = some prompt) :
    lastContent ((ptRecent config db x).map messageEntry) = some prompt ↔
      1 ≤ getTuning config .maxMessagesToLoad 1000 ∧
        (estimateTokens prompt : Int) ≤ effectiveBudget x.maxTokenBudget EFFECTIVE_UTILIZATION_DEFAULT := by
  rw [lastContent_messages, ptRecent, getLast?_newest, ← hdb.lastMessage, hm]
  by_cases hrow : 1 ≤ getTuning config .maxMessagesToLoad 1000
  · rw [if_neg (by omega), Option.filter, htokens]
    by_cases hfits : (estimateTokens prompt : Int) ≤
        effectiveBudget x.maxTokenBudget EFFECTIVE_UTILIZATION_DEFAULT
    · rw [decide_eq_true hfits]
      exact ⟨fun _ => ⟨hrow, hfits⟩, fun _ => hcontent⟩
    · rw [decide_eq_false hfits]
      exact ⟨fun hlast => (nomatch hlast), fun hkept => absurd hkept.2 hfits⟩
  · rw [if_pos (by omega)]
    exact ⟨fun hlast => (nomatch hlast), fun hkept => absurd hkept.1 hrow⟩

/-- What a retrieval does with the newest message, by build type. -/
theorem retrieve_lastContent_iff {st : RetrievalState} {buildType : BuildType} (hv : Valid db)
    (hwin : db.window? w = some x) (hm : db.lastMessage x.conversationId = some m)
    (hmem : m ∈ db.messages) (hcontent : m.content = some prompt)
    (h : retrieve config env db w domain buildType = .ok st) (herr : st.error = none) :
    ∃ entries, st.contextMessages = some entries ∧
      (lastContent entries = some prompt ↔ PromptKept config db w domain prompt buildType) := by
  have htokens : messageTokens m = estimateTokens prompt := by
    rw [hv.counted m hmem, hcontent]
    rfl
  cases buildType with
  | slidingWindow =>
    rcases ptRetrieve_ok hv.consecutive h with ⟨hsome, _⟩ | ⟨win, hw, _, _, hentries⟩
    · rw [herr] at hsome
      cases hsome
    · obtain rfl := Option.some.inj (hwin.symm.trans hw)
      refine ⟨_, hentries, (slide_lastContent_iff hv.consecutive hm htokens hcontent).trans ?_⟩
      constructor
      · exact fun hkept => ⟨x, hwin, hkept⟩
      · intro ⟨x', hx', hkept⟩
        obtain rfl := Option.some.inj (hwin.symm.trans hx')
        exact hkept
  | tieredSummary => exact tiered_lastContent_iff hv hwin hm htokens hcontent h herr
  | enriched => exact tiered_lastContent_iff hv hwin hm htokens hcontent h herr
  | other name => cases h

end

/-! ## The last node -/

section

variable {config : Config} {env : Env} {db db' : Db} {st st' : GetContextState} {w c : Id} {prompt : Text}

theorem storeUserPrompt_ok (hv : Valid db) (hprompt : truthy st.userPrompt = some prompt)
    (hc : st.conversationId = some c) (h : storeUserPrompt env db st = .ok db') :
    Valid db' ∧ db.Grows db' ∧
      ∃ m, db'.lastMessage c = some m ∧ m ∈ db'.messages ∧ m.content = some prompt := by
  simp only [storeUserPrompt, hprompt, hc] at h
  obtain ⟨_, _, h⟩ := bind_eq_ok.mp h
  have hstore := storePrompt_store h
  exact ⟨hstore ▸ hv.store _, hstore ▸ store_grows db (.prompt env.now c prompt), storePrompt_last hv h⟩

theorem invokeRetrieval_ok (hw : st.contextWindowId = some w)
    (h : invokeRetrieval config env db st = .ok st') :
    ∃ result, retrieve config env.retrieval db w st.domainContext st.buildType = .ok result ∧
      (st'.error = none → result.error = none) ∧ st'.contextWindowId = some w ∧
      st'.contextMessages = result.contextMessages := by
  simp only [invokeRetrieval, hw] at h
  obtain ⟨result, hresult, h⟩ := bind_eq_ok.mp h
  obtain rfl := Except.ok.inj h
  exact ⟨result, hresult, fun herr => by simpa using herr, rfl, rfl⟩

end

/-- `get_context` stores the prompt: the transaction of the last node commits. -/
def storesPrompt (config : Config) (env : Env) (db : Db) (inp : GetContextInput) : Bool :=
  match beforeRetrieve config env db inp with
  | (_, .error _) => false
  | (db₁, .ok st₁) => (storeUserPrompt env db₁ st₁).isOk

/-- A `get_context` that stored its prompt went through all its nodes. -/
theorem getContext_eq {config : Config} {env : Env} {db db' : Db} {inp : GetContextInput}
    {st : GetContextState} (hstored : storesPrompt config env db inp = true)
    (h : getContext config env db inp = (db', .ok st)) (herr : st.error = none) :
    ∃ db₁ st₁, beforeRetrieve config env db inp = (db₁, .ok st₁) ∧ st₁.error = none ∧
      storeUserPrompt env db₁ st₁ = .ok db' ∧ invokeRetrieval config env db' st₁ = .ok st := by
  unfold getContext andThen at h
  unfold storesPrompt at hstored
  split at h
  · cases h
  · rename_i db₁ st₁ hbefore
    rw [hbefore] at hstored
    by_cases herr₁ : st₁.error = none
    · cases hstore : storeUserPrompt env db₁ st₁ with
      | error e =>
        simp only [hstore] at hstored
        cases hstored
      | ok db₂ =>
        simp only [herr₁, Option.isSome_none, Bool.false_eq_true, if_false, retrieveContextNode, hstore] at h
        obtain ⟨rfl, hst⟩ := Prod.mk.inj h
        exact ⟨db₁, st₁, hbefore, herr₁, hstore, hst⟩
    · have hsome : st₁.error.isSome = true := Option.isSome_iff_ne_none.mpr herr₁
      simp only [hsome, if_true] at h
      cases h
      exact absurd herr herr₁

/-- The retrieval of a `get_context` that stored its prompt. -/
theorem getContext_ok {config : Config} {env : Env} {db db' : Db} {inp : GetContextInput}
    {st : GetContextState} {prompt : Text} (hr : Reached db) (hprompt : inp.userPrompt = some prompt)
    (hne : prompt ≠ []) (hstored : storesPrompt config env db inp = true)
    (h : getContext config env db inp = (db', .ok st)) (herr : st.error = none) :
    Valid db' ∧ ∃ w x m result, db'.window? w = some x ∧ db'.lastMessage x.conversationId = some m ∧
      m ∈ db'.messages ∧ m.content = some prompt ∧
      retrieve config env.retrieval db' w inp.domainContext inp.buildType = .ok result ∧
      result.error = none ∧ st.contextWindowId = some w ∧ st.contextMessages = result.contextMessages := by
  obtain ⟨db₁, st₁, hbefore, herr₁, hstore, hret⟩ := getContext_eq hstored h herr
  obtain ⟨hr₁, c, w, hinp, hloc⟩ := beforeRetrieve_ok hr hbefore herr₁
  obtain ⟨x, hx, hxc⟩ := hloc.row
  have huser : truthy st₁.userPrompt = some prompt := by
    rw [congrArg GetContextInput.userPrompt hinp, hprompt]
    exact truthy_some hne
  obtain ⟨hv, hgrows, m, hlast, hmem, hcontent⟩ := storeUserPrompt_ok hr₁.valid huser hloc.conversation hstore
  obtain ⟨result, hresult, hnone, hw, hmessages⟩ := invokeRetrieval_ok hloc.window hret
  rw [congrArg GetContextInput.domainContext hinp, congrArg GetContextInput.buildType hinp] at hresult
  exact ⟨hv, w, x, m, result, by rw [hgrows.window?, hx], by rw [hxc, hlast], hmem, hcontent, hresult,
    hnone herr, hw, hmessages⟩

/-- **The current prompt**, in every run: a `get_context` that stored it ends
its answer with it exactly when the newest message fits. -/
theorem prompt_last_iff (evs : List Event) (config : Config) (env : Env) (inp : GetContextInput)
    (prompt : Text) (db' : Db) (st : GetContextState) (hprompt : inp.userPrompt = some prompt)
    (hne : prompt ≠ []) (hstored : storesPrompt config env (broker.run evs) inp = true)
    (h : getContext config env (broker.run evs) inp = (db', .ok st)) (herr : st.error = none) :
    ∃ w entries, st.contextWindowId = some w ∧ st.contextMessages = some entries ∧
      (lastContent entries = some prompt ↔
        PromptKept config db' w inp.domainContext prompt inp.buildType) := by
  obtain ⟨hv, w, x, m, result, hx, hlast, hmem, hcontent, hresult, hnone, hw, hmessages⟩ :=
    getContext_ok ⟨evs, rfl⟩ hprompt hne hstored h herr
  obtain ⟨entries, hentries, hiff⟩ := retrieve_lastContent_iff hv hx hlast hmem hcontent hresult hnone
  exact ⟨w, entries, hw, hmessages.trans hentries, hiff⟩

/-- A first call for a new conversation, every call answered. -/
def calmEnv : Env := { assembly := calm ['s'] }

def ask (buildType : BuildType) (budget : Int) (length : Nat) : GetContextInput :=
  { buildType, budget, userPrompt := some (List.replicate length 'x') }

theorem prompt_last_iff_hello :
    ∃ db' st, getContext defaultConfig calmEnv (broker.run []) (ask .tieredSummary 8 5) = (db', .ok st) ∧
      ∃ w entries, st.contextWindowId = some w ∧ st.contextMessages = some entries ∧
        (lastContent entries = some (List.replicate 5 'x') ↔
          PromptKept defaultConfig db' w none (List.replicate 5 'x') .tieredSummary) := by
  obtain ⟨st, hst, herr⟩ := exists_ok
    (x := (getContext defaultConfig calmEnv (broker.run []) (ask .tieredSummary 8 5)).2)
    (p := fun st => decide (st.error = none)) (by decide +kernel)
  exact ⟨_, st, Prod.ext rfl hst, prompt_last_iff [] defaultConfig calmEnv (ask .tieredSummary 8 5)
    (List.replicate 5 'x') _ st rfl (by decide) (by decide +kernel) (Prod.ext rfl hst)
    (of_decide_eq_true herr)⟩

/-- A first prompt of 697 tokens is over the tier-1 budget of 696 that an
enriched window of the smallest bucket has: the answer is empty. -/
theorem prompt_last_false :
    ¬ ∀ (evs : List Event) (config : Config) (env : Env) (inp : GetContextInput) (prompt : Text) (db' : Db)
        (st : GetContextState),
      inp.userPrompt = some prompt → prompt ≠ [] → prompt.length ≤ 10000 → 1 ≤ inp.budget →
        storesPrompt config env (broker.run evs) inp = true →
          getContext config env (broker.run evs) inp = (db', .ok st) → st.error = none →
            ∃ entries, st.contextMessages = some entries ∧ lastContent entries = some prompt := by
  intro h
  have hlost : (getContext defaultConfig calmEnv (broker.run []) (ask .enriched 1 2788)).2.toOption.any
      (fun st => st.error = none ∧ st.contextMessages = some []) = true := by
    decide +kernel
  obtain ⟨st, hst, hlost⟩ := exists_ok hlost
  obtain ⟨herr, hempty⟩ := of_decide_eq_true hlost
  obtain ⟨entries, hentries, hlast⟩ := h [] defaultConfig calmEnv (ask .enriched 1 2788)
    (List.replicate 2788 'x') _ st rfl (mt (List.replicate_eq_nil_iff _).mp (by decide))
    (List.length_replicate.trans_le (by decide)) (by decide) (by decide +kernel) (Prod.ext rfl hst) herr
  obtain rfl := Option.some.inj (hempty.symm.trans hentries)
  cases hlast

end ContextBroker.GetContext
