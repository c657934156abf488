import ContextBroker.Core.Binary64
import ContextBroker.L1Data.Schema

/-!
# Configuration, budgets and tier arithmetic

`te.yml` as the flows see it: per-build-type percentages and chunk counts
(absent keys are `none` and take the source's default), and tuning numbers
looked up in three sections. A percentage is a double, so a product such as
`max_budget * tier3_pct` rounds (`Binary64.mul`) before `int()` cuts it
(`Binary64.trunc`); `int()` and `max` are what the tier sizes are made of.

`calculateTier1Ceiling` never drops below the floor
(`floor_le_calculateTier1Ceiling`), whatever the percentages are.
-/
namespace ContextBroker

open Binary64

/-! ## Configuration -/

/-- The keys of a build type's section that the flows read. -/
structure BuildTypeConfig where
  tier1FloorPct : Option Rat := none
  tier2ChunkPct : Option Rat := none
  tier2MinChunks : Option Int := none
  tier2MaxChunks : Option Int := none
  tier3Pct : Option Rat := none
  tier3HeaderPct : Option Rat := none
  effectiveUtilization : Option Rat := none
  initialLookbackMultiplier : Option Rat := none
  maxLookbackTokens : Option Int := none
  semanticRetrievalPct : Option Rat := none
  knowledgeGraphPct : Option Rat := none
  deriving DecidableEq, Repr

inductive TuningKey where
  | tokensPerMessageEstimate | chunkSize | maxMessagesToLoad
  deriving DecidableEq, Repr

structure Config where
  buildTypes : List (BuildType × BuildTypeConfig)
  tuning : TuningKey → Option Int := fun _ => none
  workers : TuningKey → Option Int := fun _ => none
  locks : TuningKey → Option Int := fun _ => none

/-- mirrors app/config.py:400-417 -/
def getTuning (config : Config) (key : TuningKey) (default : Int) : Int :=
  match config.tuning key with
  | some v => v
  | none =>
    match config.workers key with
    | some v => v
    | none => (config.locks key).getD default

/-- `app.budget.EFFECTIVE_UTILIZATION_DEFAULT`. -/
def EFFECTIVE_UTILIZATION_DEFAULT : Rat := ofRat (85 / 100)

/-- mirrors app/budget.py:10-22 -/
def BUDGET_BUCKETS : List Int :=
  [4096, 8192, 16384, 32768, 65536, 131072, 204800, 262144, 524288, 1048576, 2097152]

/-- mirrors app/budget.py:29-39 -/
def snapBudget (requested : Int) : Int :=
  (BUDGET_BUCKETS.find? fun bucket => requested ≤ bucket).getD 2097152

/-- What `get_build_type_config` raises. -/
inductive BuildTypeError where
  | notFound (buildType : BuildType)
  | overAllocated (buildType : BuildType) (totalPct util : Rat)
  deriving DecidableEq, Repr

/-- mirrors app/config.py:366-397 -/
def getBuildTypeConfig (config : Config) (name : BuildType) :
    Except BuildTypeError BuildTypeConfig :=
  match config.buildTypes.lookup name with
  | none => .error (.notFound name)
  | some bt =>
    let floor := bt.tier1FloorPct.getD (ofRat (20 / 100))
    let tier2Max := mul (bt.tier2ChunkPct.getD (ofRat (2 / 100))) (bt.tier2MaxChunks.getD 6)
    let tier3 := bt.tier3Pct.getD (ofRat (2 / 100))
    let rag := add (bt.semanticRetrievalPct.getD 0) (bt.knowledgeGraphPct.getD 0)
    let totalPct := add (add (add floor tier2Max) tier3) rag
    let util := bt.effectiveUtilization.getD EFFECTIVE_UTILIZATION_DEFAULT
    if util < totalPct then .error (.overAllocated name totalPct util) else .ok bt

/-- `int(raw_budget * utilization)`.
mirrors build_types/standard_tiered.py:191-195 -/
def effectiveBudget (rawBudget : Int) (utilization : Rat) : Int := trunc (mul rawBudget utilization)

/-! ## The deadband -/

/-- mirrors build_types/tier_scaling.py:13-23 -/
structure DeadbandConfig where
  tier1FloorPct : Rat
  tier2ChunkPct : Rat
  tier2MinChunks : Int
  tier2MaxChunks : Int
  tier3Pct : Rat
  tier3HeaderPct : Rat
  effectiveUtilization : Rat
  deriving DecidableEq, Repr

/-- mirrors build_types/tier_scaling.py:13-23 -/
def extractDeadbandConfig (bt : BuildTypeConfig) : DeadbandConfig where
  tier1FloorPct := bt.tier1FloorPct.getD (ofRat (20 / 100))
  tier2ChunkPct := bt.tier2ChunkPct.getD (ofRat (2 / 100))
  tier2MinChunks := bt.tier2MinChunks.getD 3
  tier2MaxChunks := bt.tier2MaxChunks.getD 6
  tier3Pct := bt.tier3Pct.getD (ofRat (2 / 100))
  tier3HeaderPct := bt.tier3HeaderPct.getD (ofRat (25 / 10000))
  effectiveUtilization := bt.effectiveUtilization.getD EFFECTIVE_UTILIZATION_DEFAULT

/-- `int(max_budget * db["tier1_floor_pct"])`. -/
def tier1Floor (maxBudget : Int) (dc : DeadbandConfig) : Int := trunc (mul maxBudget dc.tier1FloorPct)

/-- mirrors build_types/tier_scaling.py:26-52 -/
def calculateTier1Ceiling (maxBudget : Int) (dc : DeadbandConfig) (currentTier2Chunks : Option Nat) :
    Int :=
  let tier3Tokens := trunc (mul maxBudget dc.tier3Pct)
  let chunkCount : Int := match currentTier2Chunks with
    | some n => n
    | none => dc.tier2MaxChunks
  let tier2Tokens := trunc (mul (mul maxBudget dc.tier2ChunkPct) chunkCount)
  let ceiling := trunc (mul maxBudget dc.effectiveUtilization) - tier2Tokens - tier3Tokens
  max ceiling (tier1Floor maxBudget dc)

theorem floor_le_calculateTier1Ceiling (maxBudget : Int) (dc : DeadbandConfig) (n : Option Nat) :
    tier1Floor maxBudget dc ≤ calculateTier1Ceiling maxBudget dc n :=
  le_max_right _ _

/-- `a // b`: floor division, an exception for a zero divisor. -/
def floorDiv (a b : Int) : Except Exn Int :=
  if b = 0 then .error .zeroDivisionError else .ok (a.fdiv b)

/-- R2-F11: rows to load for a tier-1 ceiling, at least 50.
mirrors build_types/standard_tiered.py:218-220,1143-1145 -/
def adaptiveLimit (config : Config) (tier1Ceiling : Int) : Except Exn Int := do
  return max 50 (← floorDiv tier1Ceiling (getTuning config .tokensPerMessageEstimate 150))

/-- The default section at a 4K window: floor, ceiling with two chunks, static ceiling. -/
example :
    let dc := extractDeadbandConfig {}
    let budget := effectiveBudget 4096 dc.effectiveUtilization
    (budget, tier1Floor budget dc, calculateTier1Ceiling budget dc (some 2),
      calculateTier1Ceiling budget dc none) = (3481, 696, 2750, 2472) := by
  decide +kernel

end ContextBroker
