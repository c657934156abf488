import ContextBroker.Core.Blend
import ContextBroker.L1Data.Quality
import Mathlib.Algebra.Order.Ring.Rat
import Mathlib.Data.Rat.Cast.Order
import Mathlib.Tactic.NormNum

/-!
# The memory quality (`context_broker_te/cea_enrichment_flow.py`)

`_compute_memory_quality` blends the durability of an item with the
usefulness its feedback shows, over exact rationals. An event changes the
usefulness and the weight at once: below the crossover it also moves weight
from the durability to a usefulness that one added to the denominator keeps
small.

* `memory_quality_bounded`: the quality of well-counted data lies in [0, 1].
* `memory_quality_response`: from the crossover on, a used event never lowers
  the quality and a negative one never raises it; below it, exactly on one
  side of a break-even durability each.
-/
namespace ContextBroker.MemoryQuality
open Blend

/-- `cea.ranking.usefulness_crossover_events` of the configuration, default 10. -/
structure RankingConfig where
  usefulnessCrossoverEvents : Option Rat := none

def RankingConfig.crossover (config : RankingConfig) : Rat := config.usefulnessCrossoverEvents.getD 10

/-- `ranking` as `validate_cea_config` lets it through. mirrors app/config.py:597-599 -/
def RankingConfig.Valid (config : RankingConfig) : Prop := 0 < config.crossover

/-- The events that count against an item. -/
inductive Negative where
  | discarded | contradicted | superseded | invalidated | conflicted
  deriving DecidableEq, Repr

/-- The counts of one target, as `_get_usefulness_batch` returns them. -/
structure UsefulnessData where
  totalEvents : Nat := 0
  used : Nat := 0
  discarded : Nat := 0
  contradicted : Nat := 0
  superseded : Nat := 0
  invalidated : Nat := 0
  conflicted : Nat := 0
  deriving DecidableEq, Repr

namespace UsefulnessData

def negative (d : UsefulnessData) : Rat :=
  d.discarded * (3 / 10) + d.contradicted * (8 / 10) + d.superseded * (5 / 10) + d.invalidated * (9 / 10)
    + d.conflicted * (4 / 10)

def usefulness (d : UsefulnessData) : Rat := d.used / (d.used + d.negative + 1)

def usefulnessWeight (d : UsefulnessData) (config : RankingConfig) : Rat :=
  min 1 (d.totalEvents / config.crossover)

/-- `total_events` is the sum of the counts. -/
def Counted (d : UsefulnessData) : Prop :=
  d.totalEvents = d.used + d.discarded + d.contradicted + d.superseded + d.invalidated + d.conflicted

/-- One more `used` event. -/
def addUsed (d : UsefulnessData) : UsefulnessData :=
  { d with totalEvents := d.totalEvents + 1, used := d.used + 1 }

/-- One more negative event. -/
def addNegative (d : UsefulnessData) : Negative → UsefulnessData
  | .discarded => { d with totalEvents := d.totalEvents + 1, discarded := d.discarded + 1 }
  | .contradicted => { d with totalEvents := d.totalEvents + 1, contradicted := d.contradicted + 1 }
  | .superseded => { d with totalEvents := d.totalEvents + 1, superseded := d.superseded + 1 }
  | .invalidated => { d with totalEvents := d.totalEvents + 1, invalidated := d.invalidated + 1 }
  | .conflicted => { d with totalEvents := d.totalEvents + 1, conflicted := d.conflicted + 1 }

end UsefulnessData

/-- mirrors cea_enrichment_flow.py:81-114 -/
def computeMemoryQuality (durability : Rat) (data : UsefulnessData) (config : RankingConfig) : Rat :=
  if data.totalEvents = 0 then durability
  else
    let usefulnessWeight := data.usefulnessWeight config
    let durabilityWeight := 1 - usefulnessWeight
    durability * durabilityWeight + data.usefulness * usefulnessWeight

namespace UsefulnessData

variable {d : UsefulnessData} {config : RankingConfig}

theorem negative_nonneg (d : UsefulnessData) : 0 ≤ d.negative := by
  unfold negative
  positivity

theorem usefulness_eq (d : UsefulnessData) : d.usefulness = smoothed (d.used : Rat) d.negative := rfl

theorem weight_nonneg (d : UsefulnessData) (hc : config.Valid) : 0 ≤ d.usefulnessWeight config :=
  le_min zero_le_one (div_nonneg (Nat.cast_nonneg _) (le_of_lt hc))

theorem weight_le_one (d : UsefulnessData) : d.usefulnessWeight config ≤ 1 := min_le_left _ _

/-- From the crossover on the weight is 1. -/
theorem weight_saturated (hc : config.Valid) (h : config.crossover ≤ d.totalEvents) :
    d.usefulnessWeight config = 1 :=
  min_eq_left ((one_le_div hc).mpr h)

/-- Below it an event makes the weight grow. -/
theorem weight_lt (hc : config.Valid) (h : (d.totalEvents : Rat) < config.crossover) {d' : UsefulnessData}
    (hd : d'.totalEvents = d.totalEvents + 1) : d.usefulnessWeight config < d'.usefulnessWeight config := by
  have hbelow : (d.totalEvents : Rat) / config.crossover < 1 := (div_lt_one hc).mpr h
  have hnext : (d.totalEvents : Rat) / config.crossover < d'.totalEvents / config.crossover := by
    refine div_lt_div_of_pos_right ?_ hc
    rw [hd]
    exact_mod_cast Nat.lt_succ_self _
  exact lt_min (lt_of_le_of_lt (min_le_right _ _) hbelow) (lt_of_le_of_lt (min_le_right _ _) hnext)

theorem usefulness_addUsed (d : UsefulnessData) : d.usefulness ≤ d.addUsed.usefulness := by
  have hused : (d.used : Rat) ≤ d.addUsed.used := by
    exact_mod_cast Nat.le_succ d.used
  exact smoothed_le_smoothed (Nat.cast_nonneg _) d.addUsed.negative_nonneg hused (le_refl _)

/-- A negative event adds its own penalty. -/
theorem negative_le_addNegative (d : UsefulnessData) (kind : Negative) :
    d.negative ≤ (d.addNegative kind).negative := by
  cases kind <;> · simp only [negative, addNegative, Nat.cast_add, Nat.cast_one]; linarith

theorem used_addNegative (d : UsefulnessData) (kind : Negative) : (d.addNegative kind).used = d.used := by
  cases kind <;> rfl

theorem totalEvents_addNegative (d : UsefulnessData) (kind : Negative) :
    (d.addNegative kind).totalEvents = d.totalEvents + 1 := by
  cases kind <;> rfl

theorem usefulness_addNegative (d : UsefulnessData) (kind : Negative) :
    (d.addNegative kind).usefulness ≤ d.usefulness := by
  rw [usefulness_eq, usefulness_eq, used_addNegative]
  exact smoothed_le_smoothed (Nat.cast_nonneg _) d.negative_nonneg (le_refl _) (negative_le_addNegative d kind)

theorem Counted.addUsed (h : d.Counted) : d.addUsed.Counted := by
  simp only [Counted, UsefulnessData.addUsed] at h ⊢
  omega

theorem Counted.addNegative (h : d.Counted) (kind : Negative) : (d.addNegative kind).Counted := by
  cases kind <;> · simp only [Counted, UsefulnessData.addNegative] at h ⊢; omega

end UsefulnessData

variable {durability : Rat} {d d' : UsefulnessData} {config : RankingConfig}

/-- No events give the weight 0, so the early return is a case of the blend. -/
theorem computeMemoryQuality_eq (durability : Rat) (d : UsefulnessData) (config : RankingConfig) :
    computeMemoryQuality durability d config = blend durability d.usefulness (d.usefulnessWeight config) := by
  unfold computeMemoryQuality
  split
  · rename_i h0
    have hw : d.usefulnessWeight config = 0 := by
      rw [UsefulnessData.usefulnessWeight, h0, Nat.cast_zero, zero_div]
      exact min_eq_right zero_le_one
    rw [hw, blend_zero]
  · rfl

theorem memory_quality_bounded (hc : config.Valid) (h0 : 0 ≤ durability) (h1 : durability ≤ 1) :
    0 ≤ computeMemoryQuality durability d config ∧ computeMemoryQuality durability d config ≤ 1 := by
  have hused : (0 : Rat) ≤ d.used := Nat.cast_nonneg _
  rw [computeMemoryQuality_eq]
  exact ⟨blend_nonneg h0 (smoothed_nonneg hused d.negative_nonneg) (d.weight_nonneg hc) d.weight_le_one,
    blend_le_one h1 (smoothed_le_one hused d.negative_nonneg) (d.weight_nonneg hc) d.weight_le_one⟩

/-- The durability at which one event changes nothing: the weighted usefulness
it adds, over the weight it adds. -/
def breakEvenDurability (config : RankingConfig) (d d' : UsefulnessData) : Rat :=
  breakEven d.usefulness (d.usefulnessWeight config) d'.usefulness (d'.usefulnessWeight config)

/-- From the crossover on the quality is the usefulness. -/
theorem quality_saturated (hc : config.Valid) (h : config.crossover ≤ d.totalEvents) :
    computeMemoryQuality durability d config = d.usefulness := by
  rw [computeMemoryQuality_eq, d.weight_saturated hc h, blend_one]

theorem crossover_le_succ (hd : d'.totalEvents = d.totalEvents + 1) (h : config.crossover ≤ d.totalEvents) :
    config.crossover ≤ d'.totalEvents := by
  refine le_trans h ?_
  rw [hd]
  exact_mod_cast Nat.le_succ _

/-- **An event that betters the usefulness** raises the quality up to the
break-even durability. -/
theorem quality_le_iff (hc : config.Valid) (hd : d'.totalEvents = d.totalEvents + 1)
    (hu : d.usefulness ≤ d'.usefulness) :
    computeMemoryQuality durability d config ≤ computeMemoryQuality durability d' config ↔
      config.crossover ≤ d.totalEvents ∨ durability ≤ breakEvenDurability config d d' := by
  by_cases h : config.crossover ≤ d.totalEvents
  · rw [quality_saturated hc h, quality_saturated hc (crossover_le_succ hd h)]
    exact iff_of_true hu (.inl h)
  · rw [computeMemoryQuality_eq, computeMemoryQuality_eq, or_iff_right h]
    exact blend_le_blend_iff (UsefulnessData.weight_lt hc (not_le.mp h) hd)

/-- **An event that worsens it** lowers the quality from there on. -/
theorem quality_ge_iff (hc : config.Valid) (hd : d'.totalEvents = d.totalEvents + 1)
    (hu : d'.usefulness ≤ d.usefulness) :
    computeMemoryQuality durability d' config ≤ computeMemoryQuality durability d config ↔
      config.crossover ≤ d.totalEvents ∨ breakEvenDurability config d d' ≤ durability := by
  by_cases h : config.crossover ≤ d.totalEvents
  · rw [quality_saturated hc h, quality_saturated hc (crossover_le_succ hd h)]
    exact iff_of_true hu (.inl h)
  · rw [computeMemoryQuality_eq, computeMemoryQuality_eq, or_iff_right h]
    exact blend_ge_blend_iff (UsefulnessData.weight_lt hc (not_le.mp h) hd)

/-- Where the item is no better than what its feedback shows, a used event
never lowers the quality. -/
theorem quality_le_addUsed_of_le (hc : config.Valid) (h : durability ≤ d.addUsed.usefulness) :
    computeMemoryQuality durability d config ≤ computeMemoryQuality durability d.addUsed config := by
  refine (quality_le_iff hc rfl d.usefulness_addUsed).mpr ?_
  refine (le_or_gt config.crossover d.totalEvents).imp_right fun hbelow => le_trans h ?_
  exact le_breakEven (d.weight_nonneg hc) (UsefulnessData.weight_lt hc hbelow rfl) d.usefulness_addUsed

/-- Where it is no worse, a negative event never raises it. -/
theorem addNegative_quality_le_of_ge (hc : config.Valid) (kind : Negative)
    (h : (d.addNegative kind).usefulness ≤ durability) :
    computeMemoryQuality durability (d.addNegative kind) config ≤ computeMemoryQuality durability d config := by
  have hd := d.totalEvents_addNegative kind
  refine (quality_ge_iff hc hd (d.usefulness_addNegative kind)).mpr ?_
  refine (le_or_gt config.crossover d.totalEvents).imp_right fun hbelow => le_trans ?_ h
  exact breakEven_le (d.weight_nonneg hc) (UsefulnessData.weight_lt hc hbelow hd) (d.usefulness_addNegative kind)

/-- **The response to one event**, for every durability in [0, 1], positive
crossover and counts: the quality stays in [0, 1], a used event never lowers
it from the crossover on or up to the break-even durability, and a negative
event never raises it from the crossover on or from its break-even durability
upwards; elsewhere they do. -/
theorem memory_quality_response (config : RankingConfig) (hc : config.Valid) (durability : Rat)
    (h0 : 0 ≤ durability) (h1 : durability ≤ 1) (d : UsefulnessData) :
    (0 ≤ computeMemoryQuality durability d config ∧ computeMemoryQuality durability d config ≤ 1) ∧
      (computeMemoryQuality durability d config ≤ computeMemoryQuality durability d.addUsed config ↔
        config.crossover ≤ d.totalEvents ∨ durability ≤ breakEvenDurability config d d.addUsed) ∧
      ∀ kind : Negative,
        (computeMemoryQuality durability (d.addNegative kind) config ≤ computeMemoryQuality durability d config ↔
          config.crossover ≤ d.totalEvents ∨ breakEvenDurability config d (d.addNegative kind) ≤ durability) :=
  ⟨memory_quality_bounded hc h0 h1, quality_le_iff hc rfl d.usefulness_addUsed,
    fun kind => quality_ge_iff hc (d.totalEvents_addNegative kind) (d.usefulness_addNegative kind)⟩

/-- One `used` event of a fact whose durability is 1, with the default crossover. -/
theorem memory_quality_response_once :
    (0 ≤ computeMemoryQuality 1 { totalEvents := 1, used := 1 } {} ∧
      computeMemoryQuality 1 { totalEvents := 1, used := 1 } {} ≤ 1) ∧
      computeMemoryQuality 1 { totalEvents := 1, used := 1 } {} = 19 / 20 :=
  ⟨(memory_quality_response {} (by norm_num [RankingConfig.Valid, RankingConfig.crossover]) 1 zero_le_one le_rfl
    { totalEvents := 1, used := 1 }).1, by decide +kernel⟩

/-- A second `used` event takes a fact of durability 1 from 19/20 to 14/15; a
sixth event that discards takes one of durability 0 from 5/12 to 10/21. -/
theorem feedback_not_monotone :
    (¬ ∀ config : RankingConfig, config.Valid → ∀ durability : Rat, 0 ≤ durability → durability ≤ 1 →
      ∀ d : UsefulnessData, d.Counted →
        computeMemoryQuality durability d config ≤ computeMemoryQuality durability d.addUsed config) ∧
    ¬ ∀ config : RankingConfig, config.Valid → ∀ durability : Rat, 0 ≤ durability → durability ≤ 1 →
      ∀ d : UsefulnessData, d.Counted → ∀ kind : Negative,
        computeMemoryQuality durability (d.addNegative kind) config ≤ computeMemoryQuality durability d config := by
  have hdefault : ({} : RankingConfig).Valid := by norm_num [RankingConfig.Valid, RankingConfig.crossover]
  refine ⟨fun h => ?_, fun h => ?_⟩
  · have hlowered : ¬ computeMemoryQuality 1 { totalEvents := 1, used := 1 } {} ≤
        computeMemoryQuality 1 { totalEvents := 2, used := 2 } {} := by decide +kernel
    exact hlowered (h {} hdefault 1 zero_le_one le_rfl { totalEvents := 1, used := 1 } rfl)
  · have hraised : ¬ computeMemoryQuality 0 { totalEvents := 6, used := 5, discarded := 1 } {} ≤
        computeMemoryQuality 0 { totalEvents := 5, used := 5 } {} := by decide +kernel
    exact hraised (h {} hdefault 0 le_rfl zero_le_one { totalEvents := 5, used := 5 } rfl .discarded)

end ContextBroker.MemoryQuality
