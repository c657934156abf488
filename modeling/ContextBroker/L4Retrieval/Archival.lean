import Mathlib.Data.List.Infix
import ContextBroker.L3Assembly.FullCompaction
import ContextBroker.L4Retrieval.RetrievalSpecs

/-!
# Which archival texts a retrieval shows

A full compaction leaves two active tier-3 rows, the header at sequence 0 and
the recent archival row. The loaders of both tiered graphs read them in
sequence order into one field, so the last one stays.

`summaries_shown_iff`: in every state a run reaches, everything active is
shown exactly when the text of every archival row is part of the last one's
text. The chunk texts are always shown, in order.
-/
namespace ContextBroker.Retrieval

open Rows StandardTiered

/-- `text` is part of the archival summary. -/
def InArchival (st : RetrievalState) (text : Text) : Prop :=
  ∃ shown, st.tier3Summary = some shown ∧ text <:+: shown

/-- What the loaded state shows of the active rows of window `w`. -/
structure ShowsActive (db : Db) (w : Id) (st : RetrievalState) : Prop where
  archival : ∀ r ∈ db.active w .three, InArchival st r.summaryText
  chunks : st.tier2Summaries = (orderAsc (·.fromSeq) (db.active w .two)).map (·.summaryText)

/-- The last archival row in sequence order repeats the texts of all. -/
def LastHasAll (db : Db) (w : Id) : Prop :=
  ∀ last ∈ (orderAsc (·.fromSeq) (db.active w .three)).getLast?,
    ∀ r ∈ db.active w .three, r.summaryText <:+: last.summaryText

instance (db : Db) (w : Id) : Decidable (LastHasAll db w) := by
  unfold LastHasAll
  infer_instance

section

variable {env : Env} {db : Db} {w : Id} {st st' : RetrievalState}

theorem exists_lastArchival {r : Summary} (hr : r ∈ db.active w .three) :
    ∃ last, (orderAsc (·.fromSeq) (db.active w .three)).getLast? = some last := by
  have hne : orderAsc (·.fromSeq) (db.active w .three) ≠ [] := List.ne_nil_of_mem (mem_orderAsc.mpr hr)
  exact ⟨_, List.getLast?_eq_some_getLast hne⟩

theorem inArchival_iff (h : st.tier3Summary = tier3Text db w) {last : Summary} {text : Text}
    (hlast : (orderAsc (·.fromSeq) (db.active w .three)).getLast? = some last) :
    InArchival st text ↔ text <:+: last.summaryText := by
  rw [tier3Text, hlast, Option.map_some] at h
  simp [InArchival, h]

theorem loadSummaries_shows_iff (h : loadSummaries env db st = .ok st') :
    ShowsActive db st.contextWindowId st' ↔ LastHasAll db st.contextWindowId := by
  have h3 : st'.tier3Summary = tier3Text db st.contextWindowId := by rw [loadSummaries_ok h]
  have h2 : st'.tier2Summaries = tier2Texts db st.contextWindowId := by rw [loadSummaries_ok h]
  constructor
  · intro hall last hlast r hr
    exact (inArchival_iff h3 hlast).mp (hall.archival r hr)
  · intro hlastall
    refine ⟨fun r hr => ?_, h2⟩
    obtain ⟨last, hlast⟩ := exists_lastArchival hr
    exact (inArchival_iff h3 hlast).mpr (hlastall last hlast r hr)

end

/-- **What both loaders show**, in every state a run reaches. -/
theorem summaries_shown_iff (evs : List Event) (env : Env) (st st' : RetrievalState)
    (h : retLoadSummaries env (broker.run evs) st = .ok st' ∨
      keLoadSummaries env (broker.run evs) st = .ok st') :
    ShowsActive (broker.run evs) st.contextWindowId st' ↔
      LastHasAll (broker.run evs) st.contextWindowId := by
  rcases h with h | h
  · exact loadSummaries_shows_iff h
  · exact loadSummaries_shows_iff h

/-- A pass whose two archival prompts get different replies. -/
def twoTexts : StandardTiered.Env :=
  { calm ['s'] with recentReply := fun _ => .ok ['r'], headerReply := fun _ => .ok ['h'] }

/-- The state a retrieval on window 1 loads the summaries into. -/
def loadingSummaries : RetrievalState := { contextWindowId := 1 }

/-- The summaries as loaded after the run `evs`. -/
def shownAfter (evs : List Event) : RetrievalState :=
  { loadingSummaries with
    tier3Summary := tier3Text (broker.run evs) 1, tier2Summaries := tier2Texts (broker.run evs) 1 }

theorem summaries_shown_iff_beforeFirst :
    ShowsActive (broker.run beforeFirst) 1 (shownAfter beforeFirst) ↔
      LastHasAll (broker.run beforeFirst) 1 :=
  summaries_shown_iff beforeFirst {} loadingSummaries (shownAfter beforeFirst)
    (.inl (by decide +kernel))

/-- The header of the first full compaction is not shown. -/
theorem summaries_shown_false :
    ¬ ∀ (evs : List Event) (env : Env) (st st' : RetrievalState),
      retLoadSummaries env (broker.run evs) st = .ok st' ∨
        keLoadSummaries env (broker.run evs) st = .ok st' →
      ShowsActive (broker.run evs) st.contextWindowId st' := by
  intro h
  have hload : retLoadSummaries {} (broker.run (beforeFirst ++ [.pass singleConfig 1 twoTexts]))
      loadingSummaries = .ok (shownAfter (beforeFirst ++ [.pass singleConfig 1 twoTexts])) := by
    decide +kernel
  have hlast : ¬ LastHasAll (broker.run (beforeFirst ++ [.pass singleConfig 1 twoTexts])) 1 := by
    decide +kernel
  exact hlast ((loadSummaries_shows_iff hload).mp (h _ _ _ _ (.inl hload)))

end ContextBroker.Retrieval
