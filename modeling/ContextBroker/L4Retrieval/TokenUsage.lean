import ContextBroker.L4Retrieval.Budget

/-!
# The reported token usage

`total_tokens_used` is counted by `load_recent_messages`, from the bare
summaries and the messages of the first fill. What is returned has headings
and the domain text as well, and only the messages of the second fill.
`ke_distill_context` replaces the entries and their count together.

`usage_reported_iff`: the count is that of the entries returned exactly if
they are an error's, passthrough or distilled, or the tokens that the system
entries add to the summaries' are those of the messages crowded out by them.
Without summaries and domain text both are nothing (`balanced_of_plain`);
with them and nothing crowded out the count is too low
(`not_balanced_of_room`).
-/
namespace ContextBroker.Retrieval

open Rows

/-! ## Distillation -/

/-- What the caller hands over for a distillation: whether a model is given,
the prompt, and what the model replies (key, client and call may raise). -/
structure Distiller where
  model : Bool := false
  userPrompt : Text := []
  reply : Text → Except Exn Text

/-- `model` and `user_prompt` are both truthy. -/
def Distiller.requested (m : Distiller) : Bool := m.model && m.userPrompt ≠ []

/-- mirrors build_types/knowledge_enriched.py:408-415 -/
def rawContext (entries : List Entry) : Text :=
  List.intercalate "\n\n".toList (entries.filterMap fun e => truthy e.content)

/-- mirrors build_types/knowledge_enriched.py:433-441 -/
def distillationPrompt (userPrompt raw : Text) : Text :=
  "You are a context distillation assistant. Given the following retrieval ".toList ++
    "results, extract ONLY what is relevant to the user's current question. ".toList ++
    "Be concise — summarize facts, not raw text. Skip irrelevant content.\n\n".toList ++
    "User's question: ".toList ++ userPrompt ++ "\n\nRetrieved context:\n".toList ++ raw.take 20000 ++
    "\n\nRelevant summary:".toList

/-- mirrors build_types/knowledge_enriched.py:388-466 -/
def keDistillContext (m : Distiller) (st : RetrievalState) : Except Exn RetrievalState :=
  if !m.requested then .ok st
  else
    let entries := st.contextMessages.getD []
    if entries = [] then .ok st
    else if strip (rawContext entries) = [] then .ok st
    else
      match m.reply (distillationPrompt m.userPrompt (rawContext entries)) with
      | .error e => if e.caughtBy [.runtimeError, .osError, .valueError] then .ok st else .error e
      | .ok content =>
        let distilled := strip content
        if distilled = [] then .ok st
        else .ok { st with
          contextMessages := some [{ role := .assistant, content := some distilled }]
          totalTokensUsed := max 1 (distilled.length / 4) }

section Graphs

variable (config : Config) (env : Env) (m : Distiller) (db : Db) (w : Id) (domain : Option Text)

/-- The enriched graph, distillation included.
mirrors build_types/knowledge_enriched.py:469-523 -/
def keRetrieve : Except Exn RetrievalState := do
  let st ← Tiered.enriched.retrieve config env db w domain
  if st.error.isSome then return st
  else if m.requested then keDistillContext m st
  else return st

/-- `retrieve` for callers that may pass a model. -/
def retrieveFor (buildType : BuildType) : Except Exn RetrievalState :=
  match buildType with
  | .enriched => keRetrieve config env m db w domain
  | _ => retrieve config env db w domain buildType

end Graphs

/-- The model's text takes the place of `entries`. -/
def Distiller.Replaces (m : Distiller) (entries : List Entry) : Prop :=
  m.requested = true ∧ entries ≠ [] ∧ strip (rawContext entries) ≠ [] ∧
    ∃ content, m.reply (distillationPrompt m.userPrompt (rawContext entries)) = .ok content ∧ strip content ≠ []

/-- The count is the estimate of what is returned. -/
def Reported (st : RetrievalState) : Prop :=
  st.totalTokensUsed = total entryTokens (st.contextMessages.getD [])

section

variable {config : Config} {env : Env} {m : Distiller} {db : Db} {w : Id} {domain : Option Text}
  {st st' : RetrievalState}

/-- **Distillation** leaves the answer alone, or replaces entries and count. -/
theorem keDistillContext_cases (h : keDistillContext m st = .ok st') :
    m.Replaces (st.contextMessages.getD []) ∧ Reported st' ∨
      ¬m.Replaces (st.contextMessages.getD []) ∧ st' = st := by
  unfold keDistillContext at h
  split at h
  · rename_i hnot
    exact .inr ⟨fun hr => by simp [hr.1] at hnot, (Except.ok.inj h).symm⟩
  · rename_i hrequested
    dsimp only at h
    split at h
    · rename_i hnil
      exact .inr ⟨fun hr => hr.2.1 hnil, (Except.ok.inj h).symm⟩
    · rename_i hne
      split at h
      · rename_i hblank
        exact .inr ⟨fun hr => hr.2.2.1 hblank, (Except.ok.inj h).symm⟩
      · rename_i hraw
        split at h
        · rename_i e herror
          have hnot : ¬m.Replaces (st.contextMessages.getD []) := by
            rintro ⟨_, _, _, content, hcontent, _⟩
            rw [herror] at hcontent
            cases hcontent
          split at h
          · exact .inr ⟨hnot, (Except.ok.inj h).symm⟩
          · cases h
        · rename_i content hcontent
          split at h
          · rename_i hempty
            refine .inr ⟨?_, (Except.ok.inj h).symm⟩
            rintro ⟨_, _, _, content', hcontent', hne'⟩
            obtain rfl := Except.ok.inj (hcontent.symm.trans hcontent')
            exact hne' hempty
          · rename_i hdistilled
            obtain rfl := Except.ok.inj h
            have hrequested' : m.requested = true := by simpa using hrequested
            exact .inl ⟨⟨hrequested', hne, hraw, content, hcontent, hdistilled⟩, rfl⟩

end

/-! ## The two fills -/

namespace Tiered.Plan

variable {g : Tiered} {config : Config} {db : Db} {w : Id} {domain : Option Text}
  (p : g.Plan config db w domain)

/-- The messages of the first fill that the second one leaves out. -/
def crowdedOut : List Message := p.loaded.drop p.recent.length

/-- The system entries count for more than the summaries by what they crowd out. -/
def Balanced : Prop :=
  total estimateTokens p.texts =
    summaryTokens (tier3Text db w) (tier2Texts db w) + total messageTokens p.crowdedOut

theorem recent_prefix : p.recent.reverse <+: p.loaded := by
  rw [recent, List.reverse_reverse, loaded, ← takeWithin_takeWithin]
  exact prefix_takeWithin _ _

theorem total_loaded :
    total messageTokens p.loaded = total messageTokens p.recent + total messageTokens p.crowdedOut := by
  obtain ⟨rest, hrest⟩ := p.recent_prefix
  have hdrop : p.crowdedOut = rest := by
    rw [crowdedOut, ← hrest, ← @List.length_reverse _ p.recent, List.drop_left]
  rw [hdrop, ← hrest, total_append, total_reverse]

theorem used_eq_iff (hcount : db.Counted) : p.used = total entryTokens p.entries ↔ p.Balanced := by
  have hloaded := p.total_loaded
  have hentries : total entryTokens p.entries = total estimateTokens p.texts + total messageTokens p.recent := by
    rw [entries, total_append, total_systemEntry, total_messageEntry hcount fun _ => p.mem_recent]
  unfold used Balanced
  omega

end Tiered.Plan

/-! ## What headings add -/

theorem total_div_le (l : List Text) : total (fun s => s.length / 4) l ≤ (List.intercalate "\n\n".toList l).length / 4 := by
  induction l with
  | nil => exact Nat.zero_le _
  | cons s l ih =>
    cases l with
    | nil => simp
    | cons t l =>
      rw [List.intercalate_cons_cons, List.length_append, List.length_append]
      rw [total_cons]
      have hsep : "\n\n".toList.length = 2 := rfl
      omega

theorem archivalSection_tokens (tier3 : Option Text) :
    (tier3.getD []).length / 4 + (archivalSection tier3).length ≤ total estimateTokens (archivalSection tier3) := by
  unfold archivalSection
  cases tier3 with
  | none => simp [truthy]
  | some text =>
    by_cases hnil : text = []
    · subst hnil
      exact Nat.zero_le _
    · rw [truthy_some hnil]
      have hlen : ("[Archival context]\n".toList ++ text).length = 19 + text.length := by
        rw [List.length_append]
        rfl
      simp only [Option.map_some, Option.toList_some, Option.getD_some, total_cons, total_nil, List.length_singleton,
        estimateTokens, hlen]
      omega

theorem chunkSection_tokens (tier2 : List Text) :
    total (fun s => s.length / 4) tier2 + (chunkSection tier2).length ≤ total estimateTokens (chunkSection tier2) := by
  unfold chunkSection
  split
  · rename_i hnil
    simp [hnil]
  · have hdiv := total_div_le tier2
    have hlen : ("[Recent summaries]\n".toList ++ List.intercalate "\n\n".toList tier2).length =
        19 + (List.intercalate "\n\n".toList tier2).length := by
      rw [List.length_append]
      rfl
    simp only [total_cons, total_nil, List.length_singleton, estimateTokens, hlen]
    omega

theorem length_le_total (texts : List Text) : texts.length ≤ total estimateTokens texts := by
  induction texts with
  | nil => exact Nat.le_refl 0
  | cons t texts ih =>
    have hpos : 1 ≤ estimateTokens t := le_max_left _ _
    simp only [List.length_cons, total_cons]
    omega

namespace Tiered.Plan

variable {g : Tiered} {config : Config} {db : Db} {w : Id} {domain : Option Text}
  (p : g.Plan config db w domain)

/-- Each system entry counts for more than what it quotes. -/
theorem summaryTokens_add_le :
    summaryTokens (tier3Text db w) (tier2Texts db w) + p.texts.length ≤ total estimateTokens p.texts := by
  obtain ⟨dtexts, _, htexts⟩ := bind_eq_ok.mp p.system
  have harchival := archivalSection_tokens (tier3Text db w)
  have hchunks := chunkSection_tokens (tier2Texts db w)
  have hdomain := length_le_total dtexts
  rw [← Except.ok.inj htexts]
  simp only [total_append, List.length_append, summaryTokens]
  omega

/-- **With room for all messages**, the system entries are counted too low. -/
theorem not_balanced_of_room (htexts : p.texts ≠ []) (hroom : p.crowdedOut = []) : ¬p.Balanced := by
  have hmore := p.summaryTokens_add_le
  have hpos := List.length_pos_iff.mpr htexts
  rw [Balanced, hroom, total_nil]
  omega

/-- **Without system entries** both fills are one. -/
theorem balanced_of_plain (htexts : p.texts = []) : p.Balanced := by
  have hmore := p.summaryTokens_add_le
  have hzero : summaryTokens (tier3Text db w) (tier2Texts db w) = 0 := by
    simpa [htexts] using hmore
  have hcaps : min p.firstCap p.secondCap = p.firstCap := by
    refine min_eq_left ?_
    unfold firstCap secondCap Tiered.firstCap Retrieval.secondCap
    rw [hzero, htexts, total_nil]
    omega
  have hloaded := p.total_loaded
  have hsame : p.recent.reverse = p.loaded := by
    rw [recent, List.reverse_reverse, loaded, hcaps]
  have htotal : total messageTokens p.loaded = total messageTokens p.recent := by
    rw [← hsame, total_reverse]
  rw [Balanced, htexts, hzero, total_nil]
  omega

end Tiered.Plan

/-! ## The result -/

/-- When the count is right, for an answer of `buildType`. -/
def UsageBalanced (config : Config) (m : Distiller) (db : Db) (w : Id) (domain : Option Text) : BuildType → Prop
  | .tieredSummary => ∀ p : Tiered.standard.Plan config db w domain, p.Balanced
  | .enriched => ∀ p : Tiered.enriched.Plan config db w domain, m.Replaces p.entries ∨ p.Balanced
  | _ => True

/-- The count of a tiered answer. -/
theorem tiered_reported_iff {g : Tiered} {config : Config} {env : Env} {db : Db} {w : Id} {domain : Option Text}
    {st : RetrievalState} (hdb : db.Consecutive) (hcount : db.Counted)
    (h : g.retrieve config env db w domain = .ok st) :
    Reported st ↔ ∀ p : g.Plan config db w domain, p.Balanced := by
  unfold Reported
  rcases Tiered.retrieve_used hdb hcount h with ⟨_, hnone, hzero, hempty⟩ | ⟨p, hp, hused⟩
  · rw [hnone, hzero]
    exact iff_of_true rfl hempty.elim
  · rw [hp.entries, hused, Option.getD_some, p.used_eq_iff hcount]
    exact ⟨fun hb p' => p.unique p' ▸ hb, fun hall => hall p⟩

theorem ke_reported_iff {config : Config} {env : Env} {m : Distiller} {db : Db} {w : Id} {domain : Option Text}
    {st : RetrievalState} (hdb : db.Consecutive) (hcount : db.Counted)
    (h : keRetrieve config env m db w domain = .ok st) :
    Reported st ↔ ∀ p : Tiered.enriched.Plan config db w domain, m.Replaces p.entries ∨ p.Balanced := by
  obtain ⟨raw, hraw, h⟩ := bind_eq_ok.mp h
  have hiff := tiered_reported_iff hdb hcount hraw
  rcases Tiered.retrieve_used hdb hcount hraw with ⟨herror, _, _, hempty⟩ | ⟨p, hp, _⟩
  · rw [if_pos herror] at h
    obtain rfl := Except.ok.inj h
    exact iff_of_true (hiff.mpr hempty.elim) hempty.elim
  · have hdistill : m.Replaces p.entries ∧ Reported st ∨ ¬m.Replaces p.entries ∧ st = raw := by
      rw [if_neg (by simp [hp.error])] at h
      split at h
      · have hcases := keDistillContext_cases h
        rwa [hp.entries] at hcases
      · rename_i hnot
        exact .inr ⟨fun hr => hnot hr.1, (Except.ok.inj h).symm⟩
    rcases hdistill with ⟨hreplaces, hreported⟩ | ⟨hnot, rfl⟩
    · exact iff_of_true hreported fun p' => .inl (p.unique p' ▸ hreplaces)
    · rw [hiff]
      refine ⟨fun hall p' => .inr (hall p'), fun hall p' => ?_⟩
      exact (hall p').resolve_left fun hr => hnot (p.unique p' ▸ hr)

/-- A passthrough answer is counted as it is filled. -/
theorem ptRetrieve_reported {config : Config} {env : Env} {db : Db} {w : Id} {domain : Option Text}
    {st : RetrievalState} (hdb : db.Consecutive) (hcount : db.Counted)
    (h : ptRetrieve config env db w domain = .ok st) : Reported st := by
  obtain ⟨st₁, h₁, h⟩ := bind_eq_ok.mp h
  obtain ⟨found, hfound, h₁⟩ := bind_eq_ok.mp h₁
  obtain rfl := perform_eq_ok hfound
  cases hw : db.window? w with
  | none =>
    simp only [hw] at h₁
    obtain rfl := Except.ok.inj h₁
    obtain rfl := Except.ok.inj h
    rfl
  | some win =>
    simp only [hw] at h₁
    obtain ⟨_, _, h₁⟩ := bind_eq_ok.mp h₁
    obtain rfl := Except.ok.inj h₁
    obtain ⟨rows, hrows, h⟩ := bind_eq_ok.mp h
    obtain rfl := perform_eq_ok hrows
    obtain ⟨cut, hcut, h⟩ := bind_eq_ok.mp h
    obtain ⟨_, rfl⟩ := limitRows_ok hcut
    obtain rfl := Except.ok.inj h
    unfold Reported
    rw [Option.getD_some, total_messageEntry hcount, total_reverse]
    intro msg hmsg
    have hrow := List.mem_of_mem_take ((prefix_takeWithin _ _).subset (List.mem_reverse.mp hmsg))
    rw [hdb.newestFirst] at hrow
    exact List.mem_of_mem_filter (List.mem_reverse.mp hrow)

/-- **The reported usage**, in every run: the count is that of the entries
returned exactly when it is balanced. -/
theorem usage_reported_iff (evs : List Event) (config : Config) (env : Env) (m : Distiller) (w : Id)
    (domain : Option Text) (buildType : BuildType) (st : RetrievalState)
    (h : retrieveFor config env m (broker.run evs) w domain buildType = .ok st) :
    Reported st ↔ UsageBalanced config m (broker.run evs) w domain buildType := by
  have hv := valid_run evs
  cases buildType with
  | slidingWindow => exact iff_of_true (ptRetrieve_reported hv.consecutive hv.counted h) trivial
  | tieredSummary => exact tiered_reported_iff hv.consecutive hv.counted h
  | enriched => exact ke_reported_iff hv.consecutive hv.counted h
  | other name => cases h

/-- No model passed. -/
def noModel : Distiller := { reply := fun _ => .ok [] }

/-- An answer of three messages and nothing else. -/
theorem usage_reported_chat :
    ∃ st, retrieveFor defaultConfig {} noModel (broker.run (opened .tieredSummary 8000 ++ chat 3 8)) 1 none
        .tieredSummary = .ok st ∧
      (Reported st ↔ UsageBalanced defaultConfig noModel (broker.run (opened .tieredSummary 8000 ++ chat 3 8)) 1 none
        .tieredSummary) := by
  obtain ⟨st, hst, _⟩ := exists_ok
    (x := retrieveFor defaultConfig {} noModel (broker.run (opened .tieredSummary 8000 ++ chat 3 8)) 1 none
      .tieredSummary) (p := fun st => st.contextMessages.isSome) (by decide +kernel)
  exact ⟨st, hst, usage_reported_iff _ _ _ _ _ _ _ st hst⟩

/-- A chunk summary of one character is counted as 0 tokens and returned as 5. -/
theorem usage_reported_false :
    ¬ ∀ (evs : List Event) (config : Config) (env : Env) (m : Distiller) (w : Id) (domain : Option Text)
        (buildType : BuildType) (st : RetrievalState),
      retrieveFor config env m (broker.run evs) w domain buildType = .ok st → Reported st := by
  intro h
  have hwrong : (retrieveFor defaultConfig {} noModel (broker.run (summarizedRun ['s'])) 1 none
      .tieredSummary).toOption.any (fun st =>
        st.totalTokensUsed ≠ total entryTokens (st.contextMessages.getD [])) = true := by
    decide +kernel
  obtain ⟨st, hst, hne⟩ := exists_ok hwrong
  exact of_decide_eq_true hne (h _ _ _ _ _ _ _ st hst)

end ContextBroker.Retrieval
