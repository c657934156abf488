import ContextBroker.L3Assembly.LiveZone
import ContextBroker.L4Retrieval.RetrievalSpecs

/-!
# The live tail in retrieval

No active chunk covers the messages above the watermark, so whatever a
retrieval leaves out of them is not in the answer at all. Assembly and
retrieval size tier 1 on their own: a pass fills up to the ceiling for the
chunks it found, retrieval up to the ceiling for the chunks there are now
(standard) or to the floor (enriched), less what the summaries really take,
and under its own row limit.

`live_tail_returned`: a retrieval returns the newest part of the live tail,
and the whole of it exactly when it keeps to the row limit and both caps. A
pass that left nothing older unsummarized leaves a tail within its ceiling.
-/
namespace ContextBroker.Retrieval

open Rows StandardTiered

/-! ## What a retrieval returns of the tail -/

namespace Tiered.Plan

variable {g : Tiered} {config : Config} {db : Db} {w : Id} {domain : Option Text}
  (p : g.Plan config db w domain)

/-- The live tail keeps to every limit of the retrieval. -/
structure Whole : Prop where
  rows : (p.tail.length : Int) ≤ p.limit
  first : (total messageTokens p.tail : Int) ≤ p.firstCap
  second : (total messageTokens p.tail : Int) ≤ p.secondCap

theorem recent_suffix : p.recent <:+ p.tail := by
  have h : p.recent.reverse <+: p.tail.reverse := by
    unfold recent
    rw [List.reverse_reverse]
    exact (prefix_takeWithin _ _).trans (List.take_prefix _ _)
  exact List.reverse_prefix.mp h

theorem recent_eq_tail_iff : p.recent = p.tail ↔ p.Whole := by
  have hcap : 0 ≤ min p.firstCap p.secondCap := le_min p.firstCap_nonneg p.secondCap_nonneg
  have hlimit := p.limit_nonneg
  unfold recent
  rw [List.reverse_eq_iff, takeWithin_take_eq_self_iff hcap, List.length_reverse, total_reverse]
  constructor
  · intro ⟨hrows, hfit⟩
    exact ⟨by omega, by omega, by omega⟩
  · intro ⟨hrows, hfirst, hsecond⟩
    exact ⟨by omega, by omega⟩

/-- A message is in the answer under its own number only. -/
theorem all_recent_iff (hdb : db.Consecutive) :
    (∀ m ∈ p.tail, recentMessage m ∈ p.recent.map recentMessage) ↔ p.Whole := by
  rw [← p.recent_eq_tail_iff]
  constructor
  · intro hall
    have hasc : Ascending (·.sequenceNumber) p.tail :=
      (hdb p.win.conversationId).ascending.sublist List.filter_sublist
    refine hasc.suffix_eq p.recent_suffix fun m hm => ?_
    obtain ⟨x, hx, hxm⟩ := List.mem_map.mp (hall m hm)
    exact ⟨x, hx, congrArg RecentMessage.sequenceNumber hxm⟩
  · intro heq m hm
    rw [heq]
    exact List.mem_map_of_mem hm

end Tiered.Plan

/-! ## What a pass leaves live -/

/-- The pass loaded the whole live tail, and every older message it loaded is
below the watermark: no LLM failure and no stop of the budget guard left one
without a summary. -/
structure Settled (w c : Id) (s : PassState) : Prop where
  loaded : liveTail s.db w c = liveMessages s.db w s.st.allMessages
  summarized : ∀ m ∈ s.st.olderMessages, m.sequenceNumber ≤ s.db.watermark w

theorem Settled.total_le {w c : Id} {s : PassState} {ceiling : Int} (h : Settled w c s)
    (hfill : Filled ceiling s.st) : (total messageTokens (liveTail s.db w c) : Int) ≤ max 0 ceiling := by
  have holder : s.st.olderMessages.filter (s.db.watermark w < ·.sequenceNumber) = [] := by
    refine List.filter_eq_nil_iff.mpr fun m hm => ?_
    have := h.summarized m hm
    simp only [decide_eq_true_eq]
    omega
  have hsub : List.Sublist (s.st.tier1Messages.filter (s.db.watermark w < ·.sequenceNumber))
      s.st.tier1Messages := List.filter_sublist
  have hle := total_sublist messageTokens hsub
  have hfits := hfill.fits
  rw [h.loaded, liveMessages, ← hfill.append, List.filter_append, holder, List.nil_append]
  omega

theorem passCeiling_congr {win win' : Window} {bt : BuildTypeConfig} {db : Db} (hid : win'.id = win.id)
    (h : SameWindow win win') : passCeiling bt win' db = passCeiling bt win db := by
  unfold passCeiling
  rw [hid, h.2.2]

theorem run_pass {pre : List Event} {config : Config} {penv : StandardTiered.Env} {w : Id}
    {o : StateGraph.Outcome Node PassState Exn}
    (h : passOutcome config penv (broker.run pre) w = some o) :
    broker.run (pre ++ [.pass config w penv]) = o.final.db := by
  rw [Machine.run_snoc]
  show Event.apply (broker.run pre) (.pass config w penv) = _
  simp only [Event.apply, h]

/-- A settled pass leaves a tail within its ceiling. -/
theorem settled_pass {pre : List Event} {config : Config} {penv : StandardTiered.Env} {w : Id}
    {o : StateGraph.Outcome Node PassState Exn} {win' : Window} {bt : BuildTypeConfig}
    (ho : passOutcome config penv (broker.run pre) w = some o) (hraised : o.raised = none)
    (hwin' : (broker.run (pre ++ [.pass config w penv])).window? w = some win')
    (hbt : getBuildTypeConfig config win'.buildType = .ok bt)
    (hsettled : Settled w win'.conversationId o.final) :
    (total messageTokens (liveTail (broker.run (pre ++ [.pass config w penv])) w win'.conversationId) : Int) ≤
      max 0 (passCeiling bt win' (broker.run pre)) := by
  rw [run_pass ho] at hwin' ⊢
  obtain ⟨win, hwin, rfl, _, rfl⟩ := passOutcome_eq_some ho
  have hv := valid_run pre
  have heff : PassEffect config penv win _ _ := assemble_effect hv hwin
  obtain ⟨x, hx, hsame⟩ := heff.evolves.windows _ _ hwin
  obtain rfl : x = win' := Option.some.inj (hx.symm.trans hwin')
  have hid : x.id = win.id := eq_of_beq (List.find?_some hwin' :)
  rw [hsame.2.1] at hbt
  rw [passCeiling_congr hid hsame]
  exact hsettled.total_le (assemble_filled hv hwin hraised hbt)

/-- What a retrieval along `p`, after the run `evs`, returns of the live tail. -/
structure TailReturned (evs : List Event) {g : Tiered} {config : Config} {w : Id} {domain : Option Text}
    (p : g.Plan config (broker.run evs) w domain) (recent : List RecentMessage) : Prop where
  /-- Only the oldest messages can be missing. -/
  newest : ∃ lost, p.tail.map recentMessage = lost ++ recent
  whole : (∀ m ∈ p.tail, recentMessage m ∈ recent) ↔ p.Whole
  /-- Right after a settled pass the tail is within the ceiling of the pass. -/
  ceiling : ∀ pre penv o, evs = pre ++ [.pass config w penv] →
    passOutcome config penv (broker.run pre) w = some o → o.raised = none →
      Settled w p.win.conversationId o.final →
        (total messageTokens p.tail : Int) ≤ max 0 (passCeiling p.bt p.win (broker.run pre))

/-- **The live tail in a retrieval**, in every run. -/
theorem live_tail_returned (evs : List Event) (config : Config) (env : Env) (g : Tiered) (w : Id)
    (domain : Option Text) (st : RetrievalState)
    (h : g.retrieve config env (broker.run evs) w domain = .ok st) (herr : st.error = none) :
    ∃ (p : g.Plan config (broker.run evs) w domain) (tiers : ContextTiers),
      st.contextTiers = some tiers ∧ TailReturned evs p tiers.recentMessages := by
  have hv := valid_run evs
  rcases Tiered.retrieve_ok hv.consecutive hv.counted h with ⟨hsome, _⟩ | ⟨p, hp⟩
  · rw [herr] at hsome
    cases hsome
  · refine ⟨p, _, hp.tiers, ?_, p.all_recent_iff hv.consecutive, ?_⟩
    · obtain ⟨lost, hlost⟩ := p.recent_suffix
      exact ⟨lost.map recentMessage, by rw [← hlost, List.map_append]⟩
    · rintro pre penv o rfl ho hraised hsettled
      exact settled_pass ho hraised p.window p.accepted hsettled

/-- Three messages and a pass. -/
def settledRun : List Event :=
  opened .tieredSummary 8 ++ chat 3 8 ++ [.pass defaultConfig 1 (calm ['s'])]

theorem live_tail_returned_settledRun :
    ∃ st, Tiered.standard.retrieve defaultConfig {} (broker.run settledRun) 1 none = .ok st ∧
      ∃ (p : Tiered.standard.Plan defaultConfig (broker.run settledRun) 1 none) (tiers : ContextTiers),
        st.contextTiers = some tiers ∧ TailReturned settledRun p tiers.recentMessages := by
  obtain ⟨st, hst, herr⟩ := exists_ok
    (x := Tiered.standard.retrieve defaultConfig {} (broker.run settledRun) 1 none)
    (p := fun st => decide (st.error = none)) (by decide +kernel)
  exact ⟨st, hst, live_tail_returned settledRun defaultConfig {} .standard 1 none st hst
    (of_decide_eq_true herr)⟩

/-- A pass on `w` without LLM failure or stop of the budget guard, every chunk
of it summarized, and nothing stored meanwhile. -/
structure CleanPass (config : Config) (penv : StandardTiered.Env) (db : Db) (w : Id)
    (o : StateGraph.Outcome Node PassState Exn) : Prop where
  outcome : passOutcome config penv db w = some o
  returned : o.raised = none
  finalized : Node.finalizeAssembly ∈ o.trace
  chunkReplies : ∀ i, (penv.chunkReply i).isOk = true
  archivalReplies : ∀ text, (penv.recentReply text).isOk = true ∧ (penv.headerReply text).isOk = true
  summarized : o.final.st.tier2Summaries.length = o.final.st.chunks.length
  alone : ∀ n, penv.arrivals n = []

/-- 51 short messages fit the ceiling, so a pass summarizes nothing; the row
limit of the retrieval leaves out the first of them. -/
theorem tail_returned_false :
    ¬ ∀ (evs : List Event) (config : Config) (penv : StandardTiered.Env) (env : Env) (g : Tiered) (w : Id)
        (domain : Option Text) (o : StateGraph.Outcome Node PassState Exn) (st : RetrievalState),
      CleanPass config penv (broker.run evs) w o →
        g.retrieve config env o.final.db w domain = .ok st → st.error = none →
          ∀ win ∈ o.final.db.window? w, ∀ m ∈ liveTail o.final.db w win.conversationId,
            ∃ tiers ∈ st.contextTiers, recentMessage m ∈ tiers.recentMessages := by
  intro h
  have hlost : ∃ o ∈ passOutcome defaultConfig (calm ['s'])
        (broker.run (opened .tieredSummary 80 ++ chat 51 1)) 1,
      o.raised = none ∧ Node.finalizeAssembly ∈ o.trace ∧
        o.final.st.tier2Summaries.length = o.final.st.chunks.length ∧
        (Tiered.standard.retrieve defaultConfig {} o.final.db 1 none).toOption.any (fun st =>
          st.error = none ∧ ∃ win ∈ o.final.db.window? 1,
            ∃ m ∈ liveTail o.final.db 1 win.conversationId,
              ¬ ∃ tiers ∈ st.contextTiers, recentMessage m ∈ tiers.recentMessages) = true := by
    decide +kernel
  obtain ⟨o, ho, hraised, hfinal, hsummarized, hmissing⟩ := hlost
  obtain ⟨st, hst, hmissing⟩ := exists_ok hmissing
  obtain ⟨herr, win, hwin, m, hm, hnot⟩ := of_decide_eq_true hmissing
  exact hnot (h _ defaultConfig (calm ['s']) {} .standard 1 none o st
    ⟨ho, hraised, hfinal, fun _ => rfl, fun _ => ⟨rfl, rfl⟩, hsummarized, fun _ => rfl⟩ hst herr win hwin m hm)

end ContextBroker.Retrieval
