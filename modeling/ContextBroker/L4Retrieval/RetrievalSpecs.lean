import ContextBroker.Core.StateGraph
import ContextBroker.L2Store.Invariant
import ContextBroker.L4Retrieval.Retrieval

/-!
# What retrieval returns

A tiered retrieval fills twice with the newest messages: up to the first cap
(tier-1 budget, summary tokens) and up to the second (what the system entries
leave). Stored token counts agree with the estimate (`Db.Counted`), so both
fills together are one fill up to the smaller cap (`Tiered.retrieve_ok`).
-/
namespace ContextBroker.Retrieval

open Rows

/-! ## The state a retrieval reads -/

/-- `ret_load_summaries`: the last archival text, the chunk texts in order. -/
def tier3Text (db : Db) (w : Id) : Option Text :=
  (orderAsc (·.fromSeq) (db.active w .three)).getLast?.map (·.summaryText)

def tier2Texts (db : Db) (w : Id) : List Text :=
  (orderAsc (·.fromSeq) (db.active w .two)).map (·.summaryText)

/-- Messages of conversation `c` that no active chunk of window `w` covers. -/
def liveTail (db : Db) (w c : Id) : List Message :=
  (db.messagesOf c).filter (db.watermark w < ·.sequenceNumber)

theorem mem_liveTail {db : Db} {w c : Id} {m : Message} (h : m ∈ liveTail db w c) : m ∈ db.messages :=
  List.mem_of_mem_filter (List.mem_of_mem_filter h)

/-- The first cap. -/
def Tiered.firstCap (g : Tiered) (bt : BuildTypeConfig) (db : Db) (w : Id) (maxBudget : Int) : Int :=
  max 0 (min (g.tier1Budget bt maxBudget (tier2Texts db w).length)
    (maxBudget - summaryTokens (tier3Text db w) (tier2Texts db w)))

/-- The second cap, under the system entries `texts`. -/
def secondCap (maxBudget : Int) (texts : List Text) : Int := max 0 (maxBudget - total estimateTokens texts)

/-- The effective budget of a window. -/
def windowBudget (win : Window) (bt : BuildTypeConfig) : Int :=
  effectiveBudget win.maxTokenBudget (bt.effectiveUtilization.getD EFFECTIVE_UTILIZATION_DEFAULT)

section

variable {config : Config} {env : Env} {db : Db} {w : Id} {st st' : RetrievalState} {domain : Option Text}

/-! ## Nodes -/

theorem loadWindow_ok (h : loadWindow config env db st = .ok st') :
    (∃ e, st' = { st with error := some e, assemblyStatus := .error }) ∨
      ∃ win bt, db.window? st.contextWindowId = some win ∧
        getBuildTypeConfig config win.buildType = .ok bt ∧
        st' = { st with buildTypeConfig := some bt, conversationId := win.conversationId
                        maxTokenBudget := windowBudget win bt } := by
  obtain ⟨found, hfound, h⟩ := bind_eq_ok.mp h
  obtain rfl := perform_eq_ok hfound
  cases hw : db.window? st.contextWindowId with
  | none =>
    rw [hw] at h
    exact .inl ⟨_, (Except.ok.inj h).symm⟩
  | some win =>
    rw [hw] at h
    obtain ⟨_, _, h⟩ := bind_eq_ok.mp h
    cases hbt : getBuildTypeConfig config win.buildType with
    | error e =>
      rw [hbt] at h
      exact .inl ⟨_, (Except.ok.inj h).symm⟩
    | ok bt =>
      rw [hbt] at h
      exact .inr ⟨win, bt, rfl, hbt, (Except.ok.inj h).symm⟩

/-- A window of an accepted build type gives no error. -/
theorem loadWindow_accepted {win : Window} {bt : BuildTypeConfig} (hwin : db.window? st.contextWindowId = some win)
    (hbt : getBuildTypeConfig config win.buildType = .ok bt) (h : loadWindow config env db st = .ok st') :
    st'.error = st.error := by
  obtain ⟨found, hfound, h⟩ := bind_eq_ok.mp h
  obtain rfl := perform_eq_ok hfound
  rw [hwin] at h
  obtain ⟨_, _, h⟩ := bind_eq_ok.mp h
  rw [hbt] at h
  rw [← Except.ok.inj h]

theorem waitForAssembly_ok (h : waitForAssembly env st = .ok st') :
    ∃ status warnings, st' = { st with assemblyStatus := status, warnings := warnings } := by
  unfold waitForAssembly at h
  split at h
  · split at h
    · exact ⟨_, _, (Except.ok.inj h).symm⟩
    · cases h
  · exact ⟨_, _, (Except.ok.inj h).symm⟩
  · exact ⟨_, _, (Except.ok.inj h).symm⟩

theorem foldl_addSummary_two {l : List Summary} (h : ∀ r ∈ l, r.tier = .two) (st : RetrievalState) :
    l.foldl addSummary st = { st with tier2Summaries := st.tier2Summaries ++ l.map (·.summaryText) } := by
  induction l generalizing st with
  | nil => simp
  | cons r l ih =>
    have hr : addSummary st r = { st with tier2Summaries := st.tier2Summaries ++ [r.summaryText] } := by
      simp [addSummary, h r List.mem_cons_self]
    rw [List.foldl_cons, hr, ih fun x hx => h x (List.mem_cons_of_mem _ hx)]
    simp

theorem foldl_addSummary_three {l : List Summary} (h : ∀ r ∈ l, r.tier = .three) (st : RetrievalState) :
    l.foldl addSummary st =
      { st with tier3Summary := (l.getLast?.map (·.summaryText)).or st.tier3Summary } := by
  induction l generalizing st with
  | nil => simp
  | cons r l ih =>
    have hr : addSummary st r = { st with tier3Summary := some r.summaryText } := by
      simp [addSummary, h r List.mem_cons_self]
    rw [List.foldl_cons, hr, ih fun x hx => h x (List.mem_cons_of_mem _ hx)]
    cases l with
    | nil => simp
    | cons s l => rw [List.getLast?_cons_cons, List.getLast?_eq_some_getLast (List.cons_ne_nil s l)]; rfl

theorem mem_orderAsc {key : Summary → Nat} {l : List Summary} {r : Summary} :
    r ∈ orderAsc key l ↔ r ∈ l := List.mem_insertionSort _

theorem loadSummaries_ok (h : loadSummaries env db st = .ok st') :
    st' = { st with tier3Summary := tier3Text db st.contextWindowId
                    tier2Summaries := tier2Texts db st.contextWindowId } := by
  obtain ⟨rows, hrows, h⟩ := bind_eq_ok.mp h
  obtain rfl := perform_eq_ok hrows
  obtain rfl := Except.ok.inj h
  have htier : ∀ t, ∀ r ∈ orderAsc (·.fromSeq) (db.active st.contextWindowId t), r.tier = t :=
    fun t r hr => (Db.mem_active.mp (mem_orderAsc.mp hr)).2.2.1
  unfold activeSummaries
  rw [List.foldl_append, foldl_addSummary_two (htier .two), foldl_addSummary_three (htier .three)]
  simp [tier3Text, tier2Texts]

theorem filter_newestFirst (hdb : db.Consecutive) (c : Id) :
    (db.newestFirst c).filter (db.watermark w < ·.sequenceNumber) = (liveTail db w c).reverse := by
  rw [hdb.newestFirst, List.filter_reverse]
  rfl

/-- The recent messages before the second cap, newest first. -/
theorem Tiered.loadRecent_ok {g : Tiered} (hdb : db.Consecutive)
    (h3 : st.tier3Summary = tier3Text db st.contextWindowId)
    (h2 : st.tier2Summaries = tier2Texts db st.contextWindowId)
    (h : g.loadRecent config env db st = .ok st') :
    ∃ limit loaded, g.rowLimit config (st.buildTypeConfig.getD {}) st.maxTokenBudget
        (tier2Texts db st.contextWindowId).length = .ok limit ∧ 0 ≤ limit ∧
      loaded = takeWithin messageTokens
        (g.firstCap (st.buildTypeConfig.getD {}) db st.contextWindowId st.maxTokenBudget) 0
        ((liveTail db st.contextWindowId st.conversationId).reverse.take limit.toNat) ∧
      st' = { st with
        recentMessages := loaded.reverse
        totalTokensUsed := summaryTokens (tier3Text db st.contextWindowId) (tier2Texts db st.contextWindowId) +
          total messageTokens loaded } := by
  unfold Tiered.loadRecent loadRecentMessages at h
  obtain ⟨highest, hhighest, h⟩ := bind_eq_ok.mp h
  obtain rfl := perform_eq_ok hhighest
  obtain ⟨rows, hrows, h⟩ := bind_eq_ok.mp h
  obtain rfl := perform_eq_ok hrows
  obtain ⟨limit, hlimit, h⟩ := bind_eq_ok.mp h
  obtain ⟨cut, hcut, h⟩ := bind_eq_ok.mp h
  obtain ⟨hpos, rfl⟩ := limitRows_ok hcut
  obtain rfl := Except.ok.inj h
  rw [filter_newestFirst hdb, h2, h3]
  exact ⟨limit, _, h2 ▸ hlimit, hpos, rfl, rfl⟩

/-- The second fill, on stored counts. -/
theorem truncateRecent_ok {remaining : Int} :
    ∀ {used : Nat} {l out : List Message},
      (∀ m ∈ l, messageTokens m = estimateTokens (m.content.getD [])) →
      truncateRecent (some remaining) used l = .ok out → out = takeWithin messageTokens remaining used l
  | used, [], out, _, h => (Except.ok.inj h).symm
  | used, m :: rest, out, hcount, h => by
    unfold truncateRecent at h
    split at h
    · cases h
    · rename_i text htext
      have htokens : messageTokens m = estimateTokens text := by
        rw [hcount m List.mem_cons_self, htext]
        rfl
      simp only [Option.any_some, decide_eq_true_eq] at h
      unfold takeWithin
      rw [htokens]
      split at h
      · rw [if_neg (by omega)]
        exact (Except.ok.inj h).symm
      · rw [if_pos (by omega)]
        obtain ⟨tail, htail, h⟩ := bind_eq_ok.mp h
        obtain rfl := Except.ok.inj h
        have := truncateRecent_ok (fun x hx => hcount x (List.mem_cons_of_mem _ hx)) htail
        rw [this]
        push_cast
        rfl

/-- Nothing fits a budget of 0. -/
theorem takeWithin_nonpos {cap : Int} (hcap : cap ≤ 0) (l : List Message) :
    takeWithin messageTokens cap 0 l = [] := by
  cases l with
  | nil => rfl
  | cons m l =>
    have hpos := messageTokens_pos m
    unfold takeWithin
    rw [if_neg (by omega)]

/-- Both fills together. Without a budget nothing was loaded to fill with. -/
theorem fill_ok {budget cap : Int} {texts : List Text} {rows out : List Message}
    (hcount : ∀ m ∈ rows, messageTokens m = estimateTokens (m.content.getD []))
    (hzero : budget = 0 → cap ≤ 0)
    (h : truncateRecent (remainingAfter budget (total estimateTokens texts)) 0
      (takeWithin messageTokens cap 0 rows) = .ok out) :
    out = takeWithin messageTokens (min cap (secondCap budget texts)) 0 rows := by
  by_cases hb : budget = 0
  · have hcap := hzero hb
    rw [takeWithin_nonpos hcap] at h
    rw [takeWithin_nonpos (by omega)]
    exact (Except.ok.inj h).symm
  · rw [remainingAfter, if_neg hb] at h
    rw [← takeWithin_takeWithin]
    exact truncateRecent_ok (fun m hm => hcount m ((prefix_takeWithin _ _).subset hm)) h

end

/-! ## The graph -/

/-- The domain text a graph reads. -/
def Tiered.domain (g : Tiered) (domain : Option Text) : Option Text :=
  match g with
  | .standard => none
  | .enriched => domain

/-- What a tiered retrieval works out before it fills: window, configuration,
row limit, system entries. -/
structure Tiered.Plan (g : Tiered) (config : Config) (db : Db) (w : Id) (domain : Option Text) where
  win : Window
  bt : BuildTypeConfig
  limit : Int
  texts : List Text
  window : db.window? w = some win
  accepted : getBuildTypeConfig config win.buildType = .ok bt
  rows : g.rowLimit config bt (windowBudget win bt) (tier2Texts db w).length = .ok limit
  limit_nonneg : 0 ≤ limit
  system : sections (tier3Text db w) (tier2Texts db w) (g.domain domain) (windowBudget win bt) = .ok texts

namespace Tiered.Plan

variable {g : Tiered} {config : Config} {env : Env} {db : Db} {w : Id} {domain : Option Text}
  (p : g.Plan config db w domain)

def budget : Int := windowBudget p.win p.bt

def tail : List Message := liveTail db w p.win.conversationId

def firstCap : Int := g.firstCap p.bt db w p.budget

def secondCap : Int := Retrieval.secondCap p.budget p.texts

/-- The newest live messages that fit. -/
def recent : List Message :=
  (takeWithin messageTokens (min p.firstCap p.secondCap) 0 (p.tail.reverse.take p.limit.toNat)).reverse

def entries : List Entry := p.texts.map systemEntry ++ p.recent.map messageEntry

/-- What the first fill takes, newest first. -/
def loaded : List Message := takeWithin messageTokens p.firstCap 0 (p.tail.reverse.take p.limit.toNat)

/-- The count `load_recent_messages` leaves. -/
def used : Nat := summaryTokens (tier3Text db w) (tier2Texts db w) + total messageTokens p.loaded

/-- `st` is the answer along the plan. -/
structure Served (st : RetrievalState) : Prop where
  error : st.error = none
  budget : st.maxTokenBudget = p.budget
  entries : st.contextMessages = some p.entries
  tiers : st.contextTiers = some
    { archivalSummary := tier3Text db w, chunkSummaries := tier2Texts db w
      domainContext := g.domain domain, recentMessages := p.recent.map recentMessage }

/-- There is one plan at most. -/
theorem unique (p p' : g.Plan config db w domain) : p = p' := by
  obtain ⟨win, bt, limit, texts, hwin, hbt, hlimit, _, htexts⟩ := p
  obtain ⟨win', bt', limit', texts', hwin', hbt', hlimit', _, htexts'⟩ := p'
  obtain rfl := Option.some.inj (hwin.symm.trans hwin')
  obtain rfl := Except.ok.inj (hbt.symm.trans hbt')
  obtain rfl := Except.ok.inj (hlimit.symm.trans hlimit')
  obtain rfl := Except.ok.inj (htexts.symm.trans htexts')
  rfl

theorem firstCap_nonneg : 0 ≤ p.firstCap := le_max_left _ _

theorem secondCap_nonneg : 0 ≤ p.secondCap := le_max_left _ _

theorem firstCap_of_budget (h : p.budget = 0) : p.firstCap ≤ 0 := by
  unfold firstCap Tiered.firstCap
  rw [h]
  omega

end Tiered.Plan

/-- **What a tiered retrieval returns:** an error and no entries, or what its
plan says, with the count of the first fill. -/
theorem Tiered.retrieve_used {g : Tiered} {config : Config} {env : Env} {db : Db} {w : Id}
    {domain : Option Text} {st : RetrievalState} (hdb : db.Consecutive) (hcount : db.Counted)
    (h : g.retrieve config env db w domain = .ok st) :
    (st.error.isSome ∧ st.contextMessages = none ∧ st.totalTokensUsed = 0 ∧ IsEmpty (g.Plan config db w domain)) ∨
      ∃ p : g.Plan config db w domain, p.Served st ∧ st.totalTokensUsed = p.used := by
  obtain ⟨st₁, h₁, h⟩ := bind_eq_ok.mp h
  rcases loadWindow_ok h₁ with ⟨e, rfl⟩ | ⟨win, bt, hwin, hbt, rfl⟩
  · obtain rfl := Except.ok.inj h
    refine .inl ⟨rfl, rfl, rfl, ⟨fun p => ?_⟩⟩
    have hnone := @loadWindow_accepted _ _ _ { contextWindowId := w, domainContext := domain } _ _ _ p.window p.accepted h₁
    cases hnone
  · refine .inr ?_
    obtain ⟨st₂, h₂, h⟩ := bind_eq_ok.mp h
    obtain ⟨status, warnings, rfl⟩ := waitForAssembly_ok h₂
    obtain ⟨st₃, h₃, h⟩ := bind_eq_ok.mp h
    have hst₃ := loadSummaries_ok h₃
    obtain ⟨st₄, h₄, h⟩ : ∃ st₄, g.loadRecent config env db st₃ = .ok st₄ ∧
        assembleContext (g.domain st₄.domainContext) st₄ = .ok st := by
      cases g <;> exact bind_eq_ok.mp h
    subst hst₃
    obtain ⟨limit, _, hlimit, hpos, rfl, rfl⟩ := Tiered.loadRecent_ok hdb rfl rfl h₄
    obtain ⟨texts, htexts, h⟩ := bind_eq_ok.mp h
    obtain ⟨out, hout, h⟩ := bind_eq_ok.mp h
    obtain rfl := Except.ok.inj h
    let p : g.Plan config db w domain := ⟨win, bt, limit, texts, hwin, hbt, hlimit, hpos, htexts⟩
    dsimp only at hout
    rw [List.reverse_reverse] at hout
    have hrows : ∀ m ∈ p.tail.reverse.take limit.toNat,
        messageTokens m = estimateTokens (m.content.getD []) := by
      intro m hm
      exact hcount m (mem_liveTail (List.mem_reverse.mp (List.mem_of_mem_take hm)))
    have hfill := fill_ok hrows p.firstCap_of_budget hout
    exact ⟨p, ⟨rfl, rfl, by rw [hfill]; rfl, by rw [hfill]; rfl⟩, rfl⟩

theorem Tiered.retrieve_ok {g : Tiered} {config : Config} {env : Env} {db : Db} {w : Id}
    {domain : Option Text} {st : RetrievalState} (hdb : db.Consecutive) (hcount : db.Counted)
    (h : g.retrieve config env db w domain = .ok st) :
    (st.error.isSome ∧ st.contextMessages = none) ∨ ∃ p : g.Plan config db w domain, p.Served st := by
  rcases Tiered.retrieve_used hdb hcount h with ⟨herror, hnone, _, _⟩ | ⟨p, hp, _⟩
  · exact .inl ⟨herror, hnone⟩
  · exact .inr ⟨p, hp⟩

/-- The newest messages that fit a passthrough budget. -/
def ptRecent (config : Config) (db : Db) (win : Window) : List Message :=
  (takeWithin messageTokens (effectiveBudget win.maxTokenBudget EFFECTIVE_UTILIZATION_DEFAULT) 0
    ((db.messagesOf win.conversationId).reverse.take
      (getTuning config .maxMessagesToLoad 1000).toNat)).reverse

/-- **What a passthrough retrieval returns.** -/
theorem ptRetrieve_ok {config : Config} {env : Env} {db : Db} {w : Id} {domain : Option Text}
    {st : RetrievalState} (hdb : db.Consecutive) (h : ptRetrieve config env db w domain = .ok st) :
    (st.error.isSome ∧ st.contextMessages = none) ∨
      ∃ win, db.window? w = some win ∧ st.error = none ∧
        st.maxTokenBudget = effectiveBudget win.maxTokenBudget EFFECTIVE_UTILIZATION_DEFAULT ∧
        st.contextMessages = some ((ptRecent config db win).map messageEntry) := by
  obtain ⟨st₁, h₁, h⟩ := bind_eq_ok.mp h
  obtain ⟨found, hfound, h₁⟩ := bind_eq_ok.mp h₁
  obtain rfl := perform_eq_ok hfound
  dsimp only at h₁
  cases hw : db.window? w with
  | none =>
    rw [hw] at h₁
    obtain rfl := Except.ok.inj h₁
    obtain rfl := Except.ok.inj h
    exact .inl ⟨rfl, rfl⟩
  | some win =>
    rw [hw] at h₁
    obtain ⟨_, _, h₁⟩ := bind_eq_ok.mp h₁
    obtain rfl := Except.ok.inj h₁
    obtain ⟨rows, hrows, h⟩ := bind_eq_ok.mp h
    obtain rfl := perform_eq_ok hrows
    obtain ⟨cut, hcut, h⟩ := bind_eq_ok.mp h
    obtain ⟨_, rfl⟩ := limitRows_ok hcut
    obtain rfl := Except.ok.inj h
    rw [hdb.newestFirst]
    exact .inr ⟨win, rfl, rfl, rfl, rfl⟩

end ContextBroker.Retrieval
