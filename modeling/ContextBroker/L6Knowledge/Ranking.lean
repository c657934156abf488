import ContextBroker.Core.Ranked
import ContextBroker.L1Data.Schema
import ContextBroker.L6Knowledge.MemoryQuality
import Mathlib.Data.Rat.Floor
import Mathlib.Data.List.Perm.Subperm

/-!
# Ranking with exploration (`context_broker_te/cea_enrichment_flow.py`)

`_rank_results` scores every trusted result, sorts those with enough feedback
and lets a share of the others in, over exact rationals. The two groups are
cut from the trusted results by one test, so that the output is a selection
of the input whatever the configuration is.

* `ranking_faithful`: descending scores, a selection of the input, every
  well-rated result, and the share of the under-explored ones. An exploration
  rate of 0 leaves these out altogether.
-/
namespace ContextBroker.Ranking
open MemoryQuality Ranked

/-- `_metadata` of a result. -/
structure Metadata where
  durability : Option Rat := none
  confidence : Option Rat := none
  sourceType : Option String := none
  deriving DecidableEq, Repr

/-- A search result: a fact has an `id` and a `memory`, a relation has a
`relation_id` and its ends. `rankScore` is `_score`, 0 until it is ranked. -/
structure Result where
  id : Option Text := none
  relationId : Option Text := none
  memory : Option Text := none
  source : Option Text := none
  relationship : Option Text := none
  destination : Option Text := none
  score : Option Rat := none
  metadata : Metadata := {}
  usefulness : UsefulnessData := {}
  rankScore : Rat := 0
  deriving DecidableEq, Repr

/-- `cea.ranking` and `cea.source_type_weights` of the configuration. -/
structure Config extends RankingConfig where
  explorationRate : Option Rat := none
  explorationMinFeedback : Option Rat := none
  trustworthinessMinThreshold : Option Rat := none
  sourceTypeWeights : List (String × Rat) := []

namespace Config

def rate (config : Config) : Rat := config.explorationRate.getD (1 / 10)

def minFeedback (config : Config) : Rat := config.explorationMinFeedback.getD 3

def trustMin (config : Config) : Rat := config.trustworthinessMinThreshold.getD (1 / 10)

/-- mirrors app/config.py:593-603,618-622 -/
structure Accepted (config : Config) : Prop where
  crossover : config.toRankingConfig.Valid
  rate_nonneg : 0 ≤ config.rate
  rate_le_one : config.rate ≤ 1
  trustMin_nonneg : 0 ≤ config.trustMin
  trustMin_le_one : config.trustMin ≤ 1
  weights : ∀ w ∈ config.sourceTypeWeights, 0 ≤ w.2 ∧ w.2 ≤ 1

end Config

def defaultWeights : List (String × Rat) :=
  [("decision", 1), ("instruction", 95 / 100), ("preference", 9 / 10), ("observation", 8 / 10),
    ("speculation", 5 / 10)]

/-- mirrors cea_enrichment_flow.py:117-128 -/
def computeTrustworthiness (confidence : Rat) (sourceType : String) (config : Config) : Rat :=
  let sourceWeight :=
    (config.sourceTypeWeights.lookup sourceType).getD ((defaultWeights.lookup sourceType).getD (7 / 10))
  sourceWeight * confidence

namespace Result

variable (r : Result) (config : Config)

def trustworthiness : Rat :=
  computeTrustworthiness (r.metadata.confidence.getD (1 / 2)) (r.metadata.sourceType.getD "observation") config

def memoryQuality : Rat :=
  computeMemoryQuality (r.metadata.durability.getD (1 / 2)) r.usefulness config.toRankingConfig

/-- Its trustworthiness reaches the threshold. -/
def trusted : Bool := decide (config.trustMin ≤ r.trustworthiness config)

/-- It has less feedback than the exploration asks for. -/
def fewEvents : Bool := decide ((r.usefulness.totalEvents : Rat) < config.minFeedback)

/-- `{**r, "_score": score}` -/
def withScore : Result :=
  { r with rankScore := r.score.getD (1 / 2) * r.trustworthiness config * r.memoryQuality config }

def wellRated : Bool := r.trusted config && !r.fewEvents config

def underexplored : Bool := r.trusted config && r.fewEvents config

end Result

/-- How many under-explored results `s` well-rated ones let in. -/
def nExplore (config : Config) (s : Nat) : Nat :=
  max 1 (s * config.rate / (1 - config.rate + 1 / 1000)).floor.toNat

/-- mirrors cea_enrichment_flow.py:131-177 -/
def rankResults (results : List Result) (config : Config) : List Result :=
  let scored := sortDesc Result.rankScore ((results.filter (·.wellRated config)).map (·.withScore config))
  let underexplored :=
    sortDesc Result.rankScore ((results.filter (·.underexplored config)).map (·.withScore config))
  if 0 < config.rate ∧ underexplored ≠ [] then
    sortDesc Result.rankScore (scored ++ underexplored.take (nExplore config scored.length))
  else scored

/-- A share of the exploration among other results is let in. -/
example :
    (rankResults
      [{ score := some (9 / 10), metadata := ⟨some (9 / 10), some 1, some "decision"⟩
         usefulness := { totalEvents := 10, used := 10 } },
       { score := some (1 / 2), metadata := ⟨some (1 / 2), some (1 / 2), some "observation"⟩
         usefulness := { totalEvents := 1 } }]
      { explorationRate := some (1 / 2), explorationMinFeedback := some 3 }).length = 2 := by decide +kernel

variable (config : Config) {results : List Result}

@[simp] theorem wellRated_withScore (r : Result) : (r.withScore config).wellRated config = r.wellRated config := rfl

@[simp] theorem underexplored_withScore (r : Result) :
    (r.withScore config).underexplored config = r.underexplored config := rfl

theorem wellRated_not_underexplored {r : Result} (h : r.wellRated config = true) :
    r.underexplored config = false := by
  simp only [Result.wellRated, Result.underexplored, Bool.and_eq_true, Bool.not_eq_true'] at h ⊢
  simp [h.2]

theorem underexplored_not_wellRated {r : Result} (h : r.underexplored config = true) :
    r.wellRated config = false := by
  simp only [Result.wellRated, Result.underexplored, Bool.and_eq_true] at h ⊢
  simp [h.2]

/-- The well-rated results, best first. -/
def ratedPart (results : List Result) : List Result :=
  sortDesc Result.rankScore ((results.filter (·.wellRated config)).map (·.withScore config))

/-- The under-explored results that are let in. -/
def exploredPart (results : List Result) : List Result :=
  if 0 < config.rate then
    (sortDesc Result.rankScore ((results.filter (·.underexplored config)).map (·.withScore config))).take
      (nExplore config (results.filter (·.wellRated config)).length)
  else []

/-- The output is the two parts merged. -/
theorem rankResults_perm (results : List Result) :
    (rankResults results config).Perm (ratedPart config results ++ exploredPart config results) := by
  unfold rankResults exploredPart ratedPart
  simp only [length_sortDesc, List.length_map]
  by_cases hrate : 0 < config.rate
  · by_cases hnone : sortDesc Result.rankScore
        ((results.filter (·.underexplored config)).map (·.withScore config)) = []
    · simp [hrate, hnone]
    · rw [if_pos ⟨hrate, hnone⟩, if_pos hrate]
      exact sortDesc_perm _ _
  · simp [hrate]

theorem rankResults_sorted (results : List Result) :
    (rankResults results config).Pairwise fun a b => b.rankScore ≤ a.rankScore := by
  unfold rankResults
  dsimp only
  split
  · exact sortDesc_sorted _ _
  · exact sortDesc_sorted _ _

theorem wellRated_of_mem_ratedPart {r : Result} (h : r ∈ ratedPart config results) :
    r.wellRated config = true := by
  obtain ⟨r', hr', rfl⟩ := List.mem_map.mp (mem_sortDesc.mp h)
  exact (List.mem_filter.mp hr').2

theorem underexplored_of_mem_exploredPart {r : Result} (h : r ∈ exploredPart config results) :
    r.underexplored config = true := by
  unfold exploredPart at h
  split at h
  · obtain ⟨r', hr', rfl⟩ := List.mem_map.mp (mem_sortDesc.mp (List.mem_of_mem_take h))
    exact (List.mem_filter.mp hr').2
  · cases h

/-- No result is in both parts. -/
theorem split_subperm (results : List Result) :
    (results.filter (·.wellRated config) ++ results.filter (·.underexplored config)).Subperm results := by
  refine List.Subperm.trans ?_ (List.filter_append_perm (·.wellRated config) results).subperm
  refine (List.subperm_append_left _).mpr (List.Sublist.subperm ?_)
  induction results with
  | nil => exact List.Sublist.slnil
  | cons r results ih =>
    simp only [List.filter_cons]
    by_cases hr : r.underexplored config = true
    · simpa [hr, underexplored_not_wellRated config hr] using ih
    · simp only [hr, Bool.false_eq_true, if_false]
      split
      · exact ih.cons _
      · exact ih

theorem rankResults_subperm (results : List Result) :
    (rankResults results config).Subperm (results.map (·.withScore config)) := by
  refine List.Subperm.trans (rankResults_perm config results).subperm ?_
  have hexplored : (exploredPart config results).Subperm
      ((results.filter (·.underexplored config)).map (·.withScore config)) := by
    unfold exploredPart
    split
    · exact (List.take_sublist _ _).subperm.trans (sortDesc_perm _ _).subperm
    · exact List.nil_subperm
  refine (((List.subperm_append_right _).mpr (sortDesc_perm _ _).subperm).trans
    ((List.subperm_append_left _).mpr hexplored)).trans ?_
  obtain ⟨l, hperm, hsub⟩ := split_subperm config results
  rw [← List.map_append]
  exact ⟨l.map _, hperm.map _, hsub.map _⟩

/-- Every well-rated result stays. -/
theorem rankResults_wellRated (results : List Result) :
    ((rankResults results config).filter (·.wellRated config)).Perm
      ((results.filter (·.wellRated config)).map (·.withScore config)) := by
  refine ((rankResults_perm config results).filter _).trans ?_
  have hrated := List.filter_eq_self.mpr fun r (hr : r ∈ ratedPart config results) =>
    wellRated_of_mem_ratedPart config hr
  have hexplored := List.filter_eq_nil_iff.mpr fun r (hr : r ∈ exploredPart config results) =>
    Bool.eq_false_iff.mp (underexplored_not_wellRated config (underexplored_of_mem_exploredPart config hr))
  rw [List.filter_append, hrated, hexplored, List.append_nil]
  exact sortDesc_perm _ _

/-- The under-explored results of the output are those let in. -/
theorem rankResults_underexplored (results : List Result) :
    ((rankResults results config).filter (·.underexplored config)).length = (exploredPart config results).length := by
  rw [((rankResults_perm config results).filter _).length_eq, List.filter_append]
  have hrated := List.filter_eq_nil_iff.mpr fun r (hr : r ∈ ratedPart config results) =>
    Bool.eq_false_iff.mp (wellRated_not_underexplored config (wellRated_of_mem_ratedPart config hr))
  have hexplored := List.filter_eq_self.mpr fun r (hr : r ∈ exploredPart config results) =>
    underexplored_of_mem_exploredPart config hr
  rw [hrated, hexplored, List.nil_append]

theorem length_exploredPart (results : List Result) (hrate : 0 < config.rate) :
    (exploredPart config results).length =
      min (nExplore config (results.filter (·.wellRated config)).length)
        (results.filter (·.underexplored config)).length := by
  simp [exploredPart, hrate]

/-- Truncation and the smoothing constant only lower the share. -/
theorem nExplore_le (s : Nat) (hrate : 0 ≤ config.rate) (h : config.rate < 1) :
    (nExplore config s : Rat) ≤ max 1 (s * config.rate / (1 - config.rate)) := by
  have hpos : 0 < 1 - config.rate := sub_pos.mpr h
  have hnum : 0 ≤ s * config.rate := mul_nonneg (Nat.cast_nonneg _) hrate
  have hsmooth : s * config.rate / (1 - config.rate + 1 / 1000) ≤ s * config.rate / (1 - config.rate) :=
    div_le_div_of_nonneg_left hnum hpos (by norm_num)
  have hq : 0 ≤ s * config.rate / (1 - config.rate + 1 / 1000) := div_nonneg hnum (by linarith)
  have hfloor : ((s * config.rate / (1 - config.rate + 1 / 1000)).floor.toNat : Rat)
      ≤ s * config.rate / (1 - config.rate + 1 / 1000) := by
    have hnat : (((s * config.rate / (1 - config.rate + 1 / 1000)).floor.toNat : Int) : Rat)
        = (s * config.rate / (1 - config.rate + 1 / 1000)).floor := by
      rw [Int.toNat_of_nonneg (Rat.le_floor_iff.mpr (by exact_mod_cast hq))]
    calc ((s * config.rate / (1 - config.rate + 1 / 1000)).floor.toNat : Rat)
        = (s * config.rate / (1 - config.rate + 1 / 1000)).floor := by exact_mod_cast hnat
      _ ≤ _ := Rat.floor_le _
  rw [nExplore, Nat.cast_max, Nat.cast_one]
  exact max_le_max (le_refl _) (hfloor.trans hsmooth)

/-- The share of the under-explored results. -/
theorem underexplored_share (results : List Result) (h : config.rate < 1) :
    (((rankResults results config).filter (·.underexplored config)).length : Rat)
      ≤ max 1 ((results.filter (·.wellRated config)).length * config.rate / (1 - config.rate)) := by
  rw [rankResults_underexplored]
  by_cases hrate : 0 < config.rate
  · rw [length_exploredPart config results hrate, Nat.cast_min]
    exact (min_le_left _ _).trans (nExplore_le config _ hrate.le h)
  · rw [exploredPart, if_neg hrate, List.length_nil, Nat.cast_zero]
    exact le_max_of_le_left zero_le_one

/-- Without a well-rated result one under-explored result is let in. -/
theorem underexplored_alone (hrate : 0 < config.rate) (h : results.filter (·.wellRated config) = []) :
    ((rankResults results config).filter (·.underexplored config)).length =
      min 1 (results.filter (·.underexplored config)).length := by
  have hone : nExplore config 0 = 1 := by
    have hfloor : (((0 : Nat) : Rat) * config.rate / (1 - config.rate + 1 / 1000)).floor = 0 := by
      rw [Nat.cast_zero, zero_mul, zero_div]
      exact Rat.floor_intCast 0
    rw [nExplore, hfloor]
    rfl
  rw [rankResults_underexplored, length_exploredPart config results hrate, h, List.length_nil, hone]

/-- **A sorted, faithful selection**, for every accepted configuration: no
division by zero; descending scores; input results with their score, each at most as often as in the input;
every well-rated one; up to the share of under-explored ones for a rate below
1, and without a well-rated one exactly one of them if there is any. A rate of
0 turns the exploration off. -/
theorem ranking_faithful (config : Config) (hconfig : config.Accepted) (results : List Result) :
    0 < 1 - config.rate + 1 / 1000 ∧
    (rankResults results config).Pairwise (fun a b => b.rankScore ≤ a.rankScore) ∧
    (rankResults results config).Subperm (results.map (·.withScore config)) ∧
    ((rankResults results config).filter (·.wellRated config)).Perm
      ((results.filter (·.wellRated config)).map (·.withScore config)) ∧
    (config.rate < 1 →
      (((rankResults results config).filter (·.underexplored config)).length : Rat)
        ≤ max 1 ((results.filter (·.wellRated config)).length * config.rate / (1 - config.rate))) ∧
    (0 < config.rate → results.filter (·.wellRated config) = [] →
      ((rankResults results config).filter (·.underexplored config)).length =
        min 1 (results.filter (·.underexplored config)).length) ∧
    (config.rate = 0 → (rankResults results config).filter (·.underexplored config) = []) := by
  have hrate := hconfig.rate_le_one
  refine ⟨by linarith, rankResults_sorted config results, rankResults_subperm config results,
    rankResults_wellRated config results, underexplored_share config results,
    fun hrate h => underexplored_alone config hrate h, fun h0 => ?_⟩
  rw [← List.length_eq_zero_iff, rankResults_underexplored, exploredPart, h0]
  simp

/-- One fact without feedback, and it is shown. -/
theorem ranking_faithful_unrated :
    ((rankResults [{ id := some "f1".toList }] {}).filter (·.underexplored {})).length = 1 := by
  have haccepted : ({} : Config).Accepted :=
    ⟨show (0 : Rat) < 10 by decide +kernel, by decide +kernel, by decide +kernel, by decide +kernel,
      by decide +kernel, by simp⟩
  have hfaithful := ranking_faithful {} haccepted [{ id := some "f1".toList }]
  have hlength : min 1 (([{ id := some "f1".toList }] : List Result).filter (·.underexplored {})).length = 1 := by
    decide +kernel
  exact (hfaithful.2.2.2.2.2.1 (by decide +kernel) (by decide +kernel)).trans hlength

/-- With the exploration off, a result without feedback is not shown even when
there is no other. -/
theorem rate_zero_suppresses :
    ¬ ∀ config : Config, config.Accepted → ∀ results : List Result,
      results.filter (·.wellRated config) = [] →
        min 1 (results.filter (·.underexplored config)).length
          ≤ ((rankResults results config).filter (·.underexplored config)).length := by
  intro h
  have hconfig : ({ explorationRate := some 0 } : Config).Accepted :=
    ⟨show (0 : Rat) < 10 by decide +kernel, by decide +kernel, by decide +kernel, by decide +kernel,
      by decide +kernel, by simp⟩
  exact absurd (h _ hconfig [{ id := some "f1".toList }] (by decide +kernel)) (by decide +kernel)

end ContextBroker.Ranking
