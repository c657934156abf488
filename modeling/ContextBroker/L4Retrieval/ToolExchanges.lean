import ContextBroker.Core.Exchanges
import ContextBroker.L3Assembly.Runs
import ContextBroker.L4Retrieval.RetrievalSpecs

/-!
# Tool exchanges in the answer

A tool message answers a call of an assistant message, and providers refuse
one without the other. Retrieval cuts the stored messages at the watermark,
by a row limit and by token counts, and looks at no role while it does:
nothing drops the tool messages that a cut has left in front, as
`llm_call_node` does after its own (CB-R3-06).

What a retrieval returns is the longest part at the end of the conversation
within its `Limits` (`Tiered.Plan.longest`, `ptRecent_longest`). So the
answer is well formed exactly when the limits never let a tool message in
without the assistant message it answers: `exchanges_kept_iff`.
-/
namespace ContextBroker.Retrieval

open Rows Exchanges

/-- Who calls a tool and who answers: `ids` reads the call ids out of
`tool_calls`. -/
def exchange (ids : Text → List Text) : Rules Entry Text where
  passes e := e.role == .tool
  asks e k := e.role = .assistant ∧ k ∈ e.toolCalls.elim [] ids
  answers e := if e.role = .tool then e.toolCallId else none

/-- Every tool message with an id follows an assistant message with a call
of that id, only tool messages between. -/
def StoredWellFormed (ids : Text → List Text) (l : List Message) : Prop :=
  (exchange ids).WellFormed (l.map messageEntry)

/-! ## Limits -/

structure Limits where
  watermark : Nat
  rows : Nat
  tokens : Int
  deriving DecidableEq, Repr

def Limits.Fit (limits : Limits) (l : List Message) : Prop :=
  (∀ m ∈ l, limits.watermark < m.sequenceNumber) ∧ l.length ≤ limits.rows ∧ (total messageTokens l : Int) ≤ limits.tokens

theorem Limits.Fit.of_suffix {limits : Limits} {l l' : List Message} (hs : l' <:+ l) (h : limits.Fit l) :
    limits.Fit l' := by
  obtain ⟨habove, hlen, htokens⟩ := h
  have htotal := total_sublist messageTokens hs.sublist
  exact ⟨fun m hm => habove m (hs.subset hm), hs.length_le.trans hlen, by omega⟩

/-- Whenever a tool message and all after it are within the limits, so are
the assistant message it answers and all after that. -/
def Limits.KeepExchanges (limits : Limits) (l : List Message) : Prop :=
  ∀ pre a mid m post, l = pre ++ a :: (mid ++ m :: post) → a.role ≠ .tool → (∀ x ∈ mid, x.role = .tool) →
    m.role = .tool → (truthy m.toolCallId).isSome → limits.Fit (m :: post) → limits.Fit (a :: (mid ++ m :: post))

/-- The longest part within the limits. -/
theorem keepExchanges_iff {ids : Text → List Text} {limits : Limits} {l kept : List Message}
    (hl : StoredWellFormed ids l) (hk : Longest limits.Fit l kept) :
    (exchange ids).WellFormed (kept.map messageEntry) ↔ limits.KeepExchanges l := by
  rw [wellFormed_map, wellFormed_longest_iff (fun _ _ => Limits.Fit.of_suffix) ((wellFormed_map _ _).mp hl) hk]
  have hanswers : ∀ m, (((exchange ids).comap messageEntry).answers m).isSome = true ↔
      m.role = .tool ∧ (truthy m.toolCallId).isSome = true := by
    intro m
    by_cases h : m.role = .tool
    · simp [Rules.comap, exchange, messageEntry, h]
    · simp [Rules.comap, exchange, messageEntry, h]
  simp only [Limits.KeepExchanges, hanswers, and_imp]
  simp [Rules.comap, exchange, messageEntry]

/-- System entries are no part of an exchange. -/
theorem exchange_systemEntries {ids : Text → List Text} (texts : List Text) (l : List Entry) :
    (exchange ids).WellFormed (texts.map systemEntry ++ l) ↔ (exchange ids).WellFormed l := by
  refine wellFormed_append_left (fun e he => ?_) fun e he k => ?_
  · obtain ⟨text, _, rfl⟩ := List.mem_map.mp he
    rfl
  · obtain ⟨text, _, rfl⟩ := List.mem_map.mp he
    simp [exchange, systemEntry]

/-! ## The graphs and their limits -/

section

variable {g : Tiered} {config : Config} {db : Db} {w : Id} {domain : Option Text}

/-- The newest live messages up to a row limit and a cap. -/
theorem longest_liveTail (hdb : db.Consecutive) (c : Id) (limit : Nat) {cap : Int} (hcap : 0 ≤ cap) :
    Longest (Limits.mk (db.watermark w) limit cap).Fit (db.messagesOf c)
      (takeWithin messageTokens cap 0 ((liveTail db w c).reverse.take limit)).reverse := by
  have hnewest := @longest_newest _ messageTokens cap hcap limit (liveTail db w c)
  have hsuffix : liveTail db w c <:+ db.messagesOf c := by
    unfold liveTail
    rw [Numbered.filter_above (hdb c) (db.watermark w)]
    exact List.drop_suffix _ _
  have hlive := hnewest.filter hsuffix
  simp only [decide_eq_true_eq] at hlive
  exact hlive

/-- mirrors build_types/standard_tiered.py:1131-1176,1208-1218 -/
def Tiered.Plan.limits (p : g.Plan config db w domain) : Limits :=
  ⟨db.watermark w, p.limit.toNat, min p.firstCap p.secondCap⟩

theorem Tiered.Plan.longest (p : g.Plan config db w domain) (hdb : db.Consecutive) :
    Longest p.limits.Fit (db.messagesOf p.win.conversationId) p.recent :=
  longest_liveTail hdb _ _ (le_min p.firstCap_nonneg p.secondCap_nonneg)

/-- mirrors build_types/passthrough.py:266-290 -/
def ptLimits (config : Config) (win : Window) : Limits :=
  ⟨0, (getTuning config .maxMessagesToLoad 1000).toNat,
    max 0 (effectiveBudget win.maxTokenBudget EFFECTIVE_UTILIZATION_DEFAULT)⟩

theorem ptRecent_longest (hdb : db.Consecutive) (win : Window) :
    Longest (ptLimits config win).Fit (db.messagesOf win.conversationId) (ptRecent config db win) := by
  have hfill : ∀ cap : Int, ∀ l, takeWithin messageTokens cap 0 l = takeWithin messageTokens (max 0 cap) 0 l := by
    intro cap l
    rcases Int.le_total 0 cap with h | h
    · rw [max_eq_right h]
    · rw [max_eq_left h, takeWithin_nonpos h, takeWithin_nonpos (Int.le_refl 0)]
  have hnewest := @longest_newest _ messageTokens _
    (le_max_left 0 (effectiveBudget win.maxTokenBudget EFFECTIVE_UTILIZATION_DEFAULT))
    (getTuning config .maxMessagesToLoad 1000).toNat (db.messagesOf win.conversationId)
  rw [← hfill] at hnewest
  have hpos : ∀ m ∈ db.messagesOf win.conversationId, 0 < m.sequenceNumber := by
    intro m hm
    have := (Numbered.mem (hdb win.conversationId) hm).1
    omega
  refine ⟨hnewest.suffix, ⟨fun m hm => hpos m (hnewest.suffix.subset hm), hnewest.holds⟩, fun l' hs hfit => ?_⟩
  exact hnewest.longest l' hs hfit.2

end

/-- What a retrieval of window `w` cuts by. -/
inductive LimitsOf (config : Config) (db : Db) (w : Id) (domain : Option Text) : BuildType → Limits → Prop
  | slidingWindow (win : Window) :
    db.window? w = some win → LimitsOf config db w domain .slidingWindow (ptLimits config win)
  | tieredSummary (p : Tiered.standard.Plan config db w domain) :
    LimitsOf config db w domain .tieredSummary p.limits
  | enriched (p : Tiered.enriched.Plan config db w domain) : LimitsOf config db w domain .enriched p.limits

/-- The answer of a tiered graph. -/
theorem tiered_exchanges_iff {g : Tiered} {config : Config} {env : Env} {db : Db} {w : Id} {domain : Option Text}
    {st : RetrievalState} {entries : List Entry} {win : Window} {ids : Text → List Text} (hdb : db.Consecutive)
    (hcount : db.Counted) (h : g.retrieve config env db w domain = .ok st) (hout : st.contextMessages = some entries)
    (hwin : db.window? w = some win) (hl : StoredWellFormed ids (db.messagesOf win.conversationId)) :
    ∃ p : g.Plan config db w domain,
      (exchange ids).WellFormed entries ↔ p.limits.KeepExchanges (db.messagesOf win.conversationId) := by
  rcases Tiered.retrieve_ok hdb hcount h with ⟨_, hnone⟩ | ⟨p, hp⟩
  · rw [hnone] at hout
    cases hout
  · obtain rfl := Option.some.inj (hp.entries.symm.trans hout)
    obtain rfl := Option.some.inj (p.window.symm.trans hwin)
    exact ⟨p, (exchange_systemEntries p.texts _).trans (keepExchanges_iff hl (p.longest hdb))⟩

/-- **Tool exchanges in an answer**, in every run: none is cut exactly when
the limits of the retrieval cut none. -/
theorem exchanges_kept_iff (ids : Text → List Text) (evs : List Event) (config : Config) (env : Env) (w : Id)
    (domain : Option Text) (buildType : BuildType) (st : RetrievalState) (entries : List Entry) (win : Window)
    (h : retrieve config env (broker.run evs) w domain buildType = .ok st)
    (hout : st.contextMessages = some entries) (hwin : (broker.run evs).window? w = some win)
    (hl : StoredWellFormed ids ((broker.run evs).messagesOf win.conversationId)) :
    ∃ limits, LimitsOf config (broker.run evs) w domain buildType limits ∧
      ((exchange ids).WellFormed entries ↔
        limits.KeepExchanges ((broker.run evs).messagesOf win.conversationId)) := by
  have hv := valid_run evs
  cases buildType with
  | slidingWindow =>
    rcases ptRetrieve_ok hv.consecutive h with ⟨_, hnone⟩ | ⟨win', hwin', _, _, hentries⟩
    · rw [hnone] at hout
      cases hout
    · obtain rfl := Option.some.inj (hentries.symm.trans hout)
      obtain rfl := Option.some.inj (hwin'.symm.trans hwin)
      exact ⟨_, .slidingWindow win' hwin, keepExchanges_iff hl (ptRecent_longest hv.consecutive win')⟩
  | tieredSummary =>
    obtain ⟨p, hp⟩ := tiered_exchanges_iff (g := .standard) hv.consecutive hv.counted h hout hwin hl
    exact ⟨_, .tieredSummary p, hp⟩
  | enriched =>
    obtain ⟨p, hp⟩ := tiered_exchanges_iff (g := .enriched) hv.consecutive hv.counted h hout hwin hl
    exact ⟨_, .enriched p, hp⟩
  | other name => cases h

/-- A call in a text of `n` characters, and its answer. -/
def askTool (n : Nat) : List Event :=
  [.store (.message 0 { conversationIdInput := some 0, role := .assistant, sender := "imperator".toList
                        content := some (List.replicate n 'x'), toolCalls := some ['k'] }),
   .store (.message 0 { conversationIdInput := some 0, role := .tool, sender := "search".toList
                        content := some ['r'], toolCallId := some ['k'] })]

/-- The messages of a call and its answer. -/
theorem stored_askTool {l : List Message}
    (h : l.map (fun m => (m.role, m.toolCalls, m.toolCallId)) =
      [(.assistant, some ['k'], none), (.tool, none, some ['k'])]) : StoredWellFormed (fun calls => [calls]) l := by
  obtain ⟨call, rest, rfl, hcall, hrest⟩ := List.map_eq_cons_iff.mp h
  obtain ⟨answer, rest', rfl, hanswer, hnil⟩ := List.map_eq_cons_iff.mp hrest
  obtain rfl := List.map_eq_nil_iff.mp hnil
  simp only [Prod.mk.injEq] at hcall hanswer
  refine WellFormed.snoc (l := [messageEntry call]) (WellFormed.snoc (l := []) wellFormed_nil ?_) ?_
  · simp [exchange, messageEntry, hcall.1]
  · intro k hk
    refine ⟨[], messageEntry call, [], rfl, ?_, ⟨hcall.1, ?_⟩, by simp⟩
    · simp [exchange, messageEntry, hcall.1]
    · obtain rfl : ['k'] = k := by simpa [exchange, messageEntry, hanswer, truthy_some] using hk
      simp [messageEntry, hcall.2.1, truthy_some]

theorem exchanges_kept_iff_askTool :
    ∃ st entries, retrieve defaultConfig {} (broker.run (opened .slidingWindow 80 ++ askTool 40)) 1 none
        .slidingWindow = .ok st ∧ st.contextMessages = some entries ∧
      ∃ (win : Window) (limits : Limits),
        LimitsOf defaultConfig (broker.run (opened .slidingWindow 80 ++ askTool 40)) 1 none .slidingWindow limits ∧
          ((exchange fun calls => [calls]).WellFormed entries ↔ limits.KeepExchanges
            ((broker.run (opened .slidingWindow 80 ++ askTool 40)).messagesOf win.conversationId)) := by
  obtain ⟨st, hst, hsome⟩ := exists_ok
    (x := retrieve defaultConfig {} (broker.run (opened .slidingWindow 80 ++ askTool 40)) 1 none .slidingWindow)
    (p := fun st => st.contextMessages.isSome) (by decide +kernel)
  have hwin : ((broker.run (opened .slidingWindow 80 ++ askTool 40)).window? 1).any (fun win : Window =>
      ((broker.run (opened .slidingWindow 80 ++ askTool 40)).messagesOf win.conversationId).map
          (fun m => (m.role, m.toolCalls, m.toolCallId)) =
        [(Role.assistant, some ['k'], none), (Role.tool, none, some ['k'])]) = true := by decide +kernel
  obtain ⟨win, hwin, hstored⟩ := (Option.any_eq_true _ _).mp hwin
  exact ⟨st, _, hst, (Option.some_get hsome).symm, win,
    exchanges_kept_iff (fun calls => [calls]) _ defaultConfig {} 1 none .slidingWindow st _ win hst
      (Option.some_get hsome).symm hwin (stored_askTool (of_decide_eq_true hstored))⟩

/-- The answer fits the effective budget of 6, the call of 10 tokens does not. -/
theorem exchanges_kept_false :
    ¬ ∀ (ids : Text → List Text) (evs : List Event) (config : Config) (env : Env) (w : Id) (domain : Option Text)
        (buildType : BuildType) (st : RetrievalState) (entries : List Entry) (win : Window),
      retrieve config env (broker.run evs) w domain buildType = .ok st → st.contextMessages = some entries →
        (broker.run evs).window? w = some win →
          StoredWellFormed ids ((broker.run evs).messagesOf win.conversationId) → (exchange ids).WellFormed entries := by
  intro h
  have hwin : ((broker.run (opened .slidingWindow 8 ++ askTool 40)).window? 1).any (fun win : Window =>
      ((broker.run (opened .slidingWindow 8 ++ askTool 40)).messagesOf win.conversationId).map
          (fun m => (m.role, m.toolCalls, m.toolCallId)) =
        [(Role.assistant, some ['k'], none), (Role.tool, none, some ['k'])]) = true := by decide +kernel
  have hcut : (retrieve defaultConfig {} (broker.run (opened .slidingWindow 8 ++ askTool 40)) 1 none
      .slidingWindow).toOption.any (fun st => st.contextMessages =
        some [{ role := .tool, content := some ['r'], toolCallId := some ['k'], name := some "search".toList }]) =
          true := by
    decide +kernel
  obtain ⟨win, hwin, hstored⟩ := (Option.any_eq_true _ _).mp hwin
  obtain ⟨st, hst, hout⟩ := exists_ok hcut
  have hwell := h (fun calls => [calls]) _ defaultConfig {} 1 none .slidingWindow st _ win hst (of_decide_eq_true hout)
    hwin (stored_askTool (of_decide_eq_true hstored))
  obtain ⟨pre, call, mid, hnil, _⟩ := hwell [] _ [] rfl ['k'] rfl
  simp at hnil

end ContextBroker.Retrieval
