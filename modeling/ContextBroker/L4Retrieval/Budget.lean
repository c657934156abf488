import ContextBroker.L3Assembly.Runs
import ContextBroker.L4Retrieval.RetrievalSpecs

/-!
# The token budget of the answer

Recent messages only fill what the system entries leave of the budget, so an
answer is over its budget exactly when the system entries alone are. Nothing
cuts the summaries to size on the way out, and the domain text is cut before
its heading is put in front (`domain_within_iff`).

`entries_within_iff`: the estimates of all entries of an answer sum up to at
most the effective budget if and only if the archival and chunk entries do
(`tiered-summary`), and the domain text, if there is one, stays 16
characters under what they leave (`enriched`).
-/
namespace ContextBroker.Retrieval

open Rows

/-- `_estimate_tokens` of an entry. -/
def entryTokens (e : Entry) : Nat := estimateTokens (e.content.getD [])

/-- The archival and the chunk entry. -/
def summaryEntryTokens (db : Db) (w : Id) : Nat :=
  total estimateTokens (archivalSection (tier3Text db w) ++ chunkSection (tier2Texts db w))

/-- There is no domain text, or no room for any of it, or room for all of it
and its heading. -/
def DomainFits (domain : Option Text) (budget : Int) (used : Nat) : Prop :=
  (domain.getD []).length = 0 ∨ used = budget ∨ (domain.getD []).length + 16 ≤ 4 * (budget - used)

/-- The system entries keep to the budget. -/
def Affordable (db : Db) (w : Id) (domain : Option Text) (budget : Int) : BuildType → Prop
  | .slidingWindow => 0 ≤ budget
  | .tieredSummary => summaryEntryTokens db w ≤ budget
  | .enriched =>
    summaryEntryTokens db w ≤ budget ∧ DomainFits domain budget (summaryEntryTokens db w)
  | .other _ => False

/-- The effective budget `load_window` computes. -/
def retrievalBudget (config : Config) (db : Db) (w : Id) (buildType : BuildType) : Option Int :=
  match db.window? w with
  | none => none
  | some win =>
    match buildType, getBuildTypeConfig config win.buildType with
    | .slidingWindow, _ => some (effectiveBudget win.maxTokenBudget EFFECTIVE_UTILIZATION_DEFAULT)
    | _, .ok bt => some (windowBudget win bt)
    | _, .error _ => none

/-! ## The domain text -/

theorem estimateTokens_heading (text : Text) :
    estimateTokens ("[Domain knowledge]\n".toList ++ text) = (19 + text.length) / 4 := by
  have h : ("[Domain knowledge]\n".toList ++ text).length = 19 + text.length := by
    rw [List.length_append]
    rfl
  unfold estimateTokens
  rw [h]
  omega

/-- **The domain text and the budget**, on top of `used` tokens of summaries. -/
theorem domain_within_iff {domain : Option Text} {budget : Int} {used : Nat} {texts : List Text}
    (h : domainSection domain budget used = .ok texts) :
    ((used + total estimateTokens texts : Nat) : Int) ≤ budget ↔
      (used : Int) ≤ budget ∧ DomainFits domain budget used := by
  unfold domainSection at h
  unfold DomainFits
  cases domain with
  | none =>
    obtain rfl := Except.ok.inj h
    simp
  | some text =>
    by_cases hnil : text = []
    · subst hnil
      obtain rfl := Except.ok.inj h
      simp
    · have hpos := List.length_pos_iff.mpr hnil
      rw [truthy_some hnil] at h
      by_cases hb : budget = 0
      · simp [remainingAfter, hb] at h
      · simp only [remainingAfter, if_neg hb] at h
        obtain rfl := (Except.ok.inj h).symm
        simp only [Option.getD_some]
        by_cases hcut : text.take (max 0 (budget - used) * 4).toNat = []
        · have hlen := congrArg List.length hcut
          rw [List.length_take, List.length_nil] at hlen
          rw [if_pos hcut, total_nil]
          omega
        · have hlen := List.length_pos_iff.mpr hcut
          rw [List.length_take] at hlen
          rw [if_neg hcut, total_cons, total_nil, estimateTokens_heading, List.length_take]
          omega

/-! ## The entries -/

theorem total_systemEntry (texts : List Text) :
    total entryTokens (texts.map systemEntry) = total estimateTokens texts := by
  rw [total_map]
  rfl

/-- Stored counts are the estimates of the entries. -/
theorem total_messageEntry {db : Db} (hcount : db.Counted) {l : List Message}
    (hl : ∀ m ∈ l, m ∈ db.messages) :
    total entryTokens (l.map messageEntry) = total messageTokens l := by
  rw [total_map]
  exact total_congr _ fun m hm => (hcount m (hl m hm)).symm

namespace Tiered.Plan

variable {g : Tiered} {config : Config} {db : Db} {w : Id} {domain : Option Text}
  (p : g.Plan config db w domain)

theorem mem_recent {m : Message} (h : m ∈ p.recent) : m ∈ db.messages := mem_liveTail (mem_of_newest h)

/-- The recent messages fill what the system entries leave, at most. -/
theorem entries_iff_texts (hcount : db.Counted) :
    (total entryTokens p.entries : Int) ≤ p.budget ↔ (total estimateTokens p.texts : Int) ≤ p.budget := by
  have hrecent : (total messageTokens p.recent : Int) ≤ max 0 (min p.firstCap p.secondCap) := by
    unfold recent
    rw [total_reverse]
    exact total_takeWithin_le _
  have hsecond : p.secondCap = max 0 (p.budget - total estimateTokens p.texts) := rfl
  have hfirst := p.firstCap_nonneg
  unfold entries
  rw [total_append, total_systemEntry, total_messageEntry hcount fun _ => p.mem_recent]
  omega

/-- The system entries: summaries, then the domain text. -/
theorem texts_within_iff : (total estimateTokens p.texts : Int) ≤ p.budget ↔
    (summaryEntryTokens db w : Int) ≤ p.budget ∧
      DomainFits (g.domain domain) p.budget (summaryEntryTokens db w) := by
  obtain ⟨dtexts, hd, htexts⟩ := bind_eq_ok.mp p.system
  obtain htexts := Except.ok.inj htexts
  rw [← htexts, total_append]
  exact domain_within_iff hd

end Tiered.Plan

/-- The answer of a tiered graph. -/
theorem tiered_within_iff {g : Tiered} {config : Config} {env : Env} {db : Db} {w : Id}
    {domain : Option Text} {st : RetrievalState} {entries : List Entry} (hdb : db.Consecutive)
    (hcount : db.Counted) (h : g.retrieve config env db w domain = .ok st)
    (hout : st.contextMessages = some entries) :
    ∃ win bt, db.window? w = some win ∧ getBuildTypeConfig config win.buildType = .ok bt ∧
      st.maxTokenBudget = windowBudget win bt ∧
      ((total entryTokens entries : Int) ≤ windowBudget win bt ↔
        (summaryEntryTokens db w : Int) ≤ windowBudget win bt ∧
          DomainFits (g.domain domain) (windowBudget win bt) (summaryEntryTokens db w)) := by
  rcases Tiered.retrieve_ok hdb hcount h with ⟨_, hnone⟩ | ⟨p, hp⟩
  · rw [hnone] at hout
    cases hout
  · obtain rfl := Option.some.inj (hp.entries.symm.trans hout)
    exact ⟨p.win, p.bt, p.window, p.accepted, hp.budget,
      (p.entries_iff_texts hcount).trans p.texts_within_iff⟩

/-- The answer of the passthrough graph. -/
theorem slide_within_iff {config : Config} {db : Db} {win : Window} (hcount : db.Counted) :
    (total entryTokens ((ptRecent config db win).map messageEntry) : Int) ≤
        effectiveBudget win.maxTokenBudget EFFECTIVE_UTILIZATION_DEFAULT ↔
      0 ≤ effectiveBudget win.maxTokenBudget EFFECTIVE_UTILIZATION_DEFAULT := by
  have hmem : ∀ m ∈ ptRecent config db win, m ∈ db.messages :=
    fun _ hm => List.mem_of_mem_filter (mem_of_newest hm)
  have hle : (total messageTokens (ptRecent config db win) : Int) ≤
      max 0 (effectiveBudget win.maxTokenBudget EFFECTIVE_UTILIZATION_DEFAULT) := by
    unfold ptRecent
    rw [total_reverse]
    exact total_takeWithin_le _
  rw [total_messageEntry hcount hmem]
  omega

/-- **The budget of an answer**, in every run: kept exactly when the system
entries keep to it. -/
theorem entries_within_iff (evs : List Event) (config : Config) (env : Env) (w : Id)
    (domain : Option Text) (buildType : BuildType) (st : RetrievalState) (entries : List Entry)
    (h : retrieve config env (broker.run evs) w domain buildType = .ok st)
    (hout : st.contextMessages = some entries) :
    ∃ budget, retrievalBudget config (broker.run evs) w buildType = some budget ∧
      st.maxTokenBudget = budget ∧
      ((total entryTokens entries : Int) ≤ budget ↔
        Affordable (broker.run evs) w domain budget buildType) := by
  have hv := valid_run evs
  cases buildType with
  | slidingWindow =>
    rcases ptRetrieve_ok hv.consecutive h with ⟨_, hnone⟩ | ⟨win, hwin, _, hbudget, hentries⟩
    · rw [hnone] at hout
      cases hout
    · obtain rfl := Option.some.inj (hentries.symm.trans hout)
      exact ⟨_, by simp only [retrievalBudget, hwin], hbudget, slide_within_iff hv.counted⟩
  | tieredSummary =>
    obtain ⟨win, bt, hwin, hbt, hbudget, hiff⟩ :=
      tiered_within_iff (g := .standard) hv.consecutive hv.counted h hout
    refine ⟨_, by simp only [retrievalBudget, hwin, hbt], hbudget, hiff.trans ?_⟩
    simp [Affordable, DomainFits, Tiered.domain]
  | enriched =>
    obtain ⟨win, bt, hwin, hbt, hbudget, hiff⟩ :=
      tiered_within_iff (g := .enriched) hv.consecutive hv.counted h hout
    exact ⟨_, by simp only [retrievalBudget, hwin, hbt], hbudget, hiff⟩
  | other name => cases h

/-- Three messages, a pass whose summary is `reply`. -/
def summarizedRun (reply : Text) : List Event :=
  opened .tieredSummary 8 ++ chat 3 8 ++ [.pass defaultConfig 1 (calm reply)]

theorem entries_within_iff_chat :
    ∃ st entries, retrieve defaultConfig {} (broker.run (summarizedRun ['s'])) 1 none .tieredSummary = .ok st ∧
      st.contextMessages = some entries ∧
      ∃ budget, retrievalBudget defaultConfig (broker.run (summarizedRun ['s'])) 1 .tieredSummary = some budget ∧
        st.maxTokenBudget = budget ∧
        ((total entryTokens entries : Int) ≤ budget ↔
          Affordable (broker.run (summarizedRun ['s'])) 1 none budget .tieredSummary) := by
  obtain ⟨st, hst, hsome⟩ := exists_ok
    (x := retrieve defaultConfig {} (broker.run (summarizedRun ['s'])) 1 none .tieredSummary)
    (p := fun st => st.contextMessages.isSome) (by decide +kernel)
  have hout := (Option.some_get hsome).symm
  exact ⟨st, _, hst, hout, entries_within_iff (summarizedRun ['s']) defaultConfig {} 1 none .tieredSummary
    st _ hst hout⟩

/-- One summary of 100 characters overruns an effective budget of 6. -/
theorem entries_within_false :
    ¬ ∀ (evs : List Event) (config : Config) (env : Env) (w : Id) (domain : Option Text)
        (buildType : BuildType) (st : RetrievalState) (entries : List Entry),
      retrieve config env (broker.run evs) w domain buildType = .ok st →
        st.contextMessages = some entries → (total entryTokens entries : Int) ≤ st.maxTokenBudget := by
  intro h
  have hover : (retrieve defaultConfig {} (broker.run (summarizedRun (List.replicate 100 's'))) 1 none
      .tieredSummary).toOption.any (fun st => ∃ entries ∈ st.contextMessages,
        st.maxTokenBudget < (total entryTokens entries : Int)) = true := by
    decide +kernel
  obtain ⟨st, hst, hover⟩ := exists_ok hover
  obtain ⟨entries, hout, hlt⟩ := of_decide_eq_true hover
  have := h _ _ _ _ _ _ st entries hst hout
  omega

end ContextBroker.Retrieval
