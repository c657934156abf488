import ContextBroker.L1Data.Config
import Mathlib.Data.Rat.Floor
import Mathlib.Tactic.Linarith

/-!
# Tier arithmetic with exact percentages

`L1Data.Config` computes with doubles. Here the operations are a parameter:
`double` gives those functions back (`double_calculateTier1Ceiling` and the
two lemmas beside it), `exact` reads a percentage as the rational it is
written as.

What the validator of `get_build_type_config` lets pass cannot be
over-allocated then, whatever `int()` cuts off (`Arithmetic.exact_bounds`):
with the ceiling from the subtraction the three parts add up to the cap, and
with the ceiling from the floor the validator's inequality bounds them.
-/
namespace ContextBroker

open Binary64

/-- How a literal is read, and what `+` and `*` give. -/
structure Arithmetic where
  lit : Rat → Rat
  add : Rat → Rat → Rat
  mul : Rat → Rat → Rat

namespace Arithmetic

def double : Arithmetic := ⟨ofRat, Binary64.add, Binary64.mul⟩

def exact : Arithmetic := ⟨id, (· + ·), (· * ·)⟩

variable (A : Arithmetic)

/-- mirrors build_types/tier_scaling.py:13-23 -/
def extractDeadbandConfig (bt : BuildTypeConfig) : DeadbandConfig where
  tier1FloorPct := bt.tier1FloorPct.getD (A.lit (20 / 100))
  tier2ChunkPct := bt.tier2ChunkPct.getD (A.lit (2 / 100))
  tier2MinChunks := bt.tier2MinChunks.getD 3
  tier2MaxChunks := bt.tier2MaxChunks.getD 6
  tier3Pct := bt.tier3Pct.getD (A.lit (2 / 100))
  tier3HeaderPct := bt.tier3HeaderPct.getD (A.lit (25 / 10000))
  effectiveUtilization := bt.effectiveUtilization.getD (A.lit (85 / 100))

/-- mirrors app/config.py:366-397 -/
def getBuildTypeConfig (config : Config) (name : BuildType) : Except BuildTypeError BuildTypeConfig :=
  match config.buildTypes.lookup name with
  | none => .error (.notFound name)
  | some bt =>
    let floor := bt.tier1FloorPct.getD (A.lit (20 / 100))
    let tier2Max := A.mul (bt.tier2ChunkPct.getD (A.lit (2 / 100))) (bt.tier2MaxChunks.getD 6)
    let tier3 := bt.tier3Pct.getD (A.lit (2 / 100))
    let rag := A.add (bt.semanticRetrievalPct.getD 0) (bt.knowledgeGraphPct.getD 0)
    let totalPct := A.add (A.add (A.add floor tier2Max) tier3) rag
    let util := bt.effectiveUtilization.getD (A.lit (85 / 100))
    if util < totalPct then .error (.overAllocated name totalPct util) else .ok bt

/-- `int(max_budget * pct)`. -/
def share (budget : Int) (pct : Rat) : Int := trunc (A.mul budget pct)

/-- `int(max_budget * tier2_chunk_pct * chunk_count)`. -/
def tier2Share (budget : Int) (dc : DeadbandConfig) (chunks : Int) : Int :=
  trunc (A.mul (A.mul budget dc.tier2ChunkPct) chunks)

/-- mirrors build_types/tier_scaling.py:26-52 -/
def calculateTier1Ceiling (maxBudget : Int) (dc : DeadbandConfig) (currentTier2Chunks : Option Nat) : Int :=
  let tier3Tokens := A.share maxBudget dc.tier3Pct
  let chunkCount : Int := match currentTier2Chunks with
    | some n => n
    | none => dc.tier2MaxChunks
  let ceiling := A.share maxBudget dc.effectiveUtilization - A.tier2Share maxBudget dc chunkCount - tier3Tokens
  max ceiling (A.share maxBudget dc.tier1FloorPct)

/-! ## The flows' own functions -/

theorem double_extractDeadbandConfig : double.extractDeadbandConfig = ContextBroker.extractDeadbandConfig := rfl

theorem double_getBuildTypeConfig : double.getBuildTypeConfig = ContextBroker.getBuildTypeConfig := rfl

theorem double_calculateTier1Ceiling : double.calculateTier1Ceiling = ContextBroker.calculateTier1Ceiling := rfl

end Arithmetic

/-! ## `int()` -/

theorem trunc_eq_floor {q : Rat} (h : 0 ≤ q) : trunc q = ⌊q⌋ := by
  rw [Rat.floor_def', trunc, Int.tdiv_eq_ediv_of_nonneg (Rat.num_nonneg.mpr h)]

/-- What is cut off three parts is not gained by cutting their sum. -/
theorem floor_add_add_le (x y z : Rat) : ⌊x⌋ + ⌊y⌋ + ⌊z⌋ ≤ ⌊x + y + z⌋ := by
  refine Int.le_floor.mpr ?_
  push_cast
  have hx := Int.floor_le x
  have hy := Int.floor_le y
  have hz := Int.floor_le z
  linarith

/-- Three cuts lose less than three. -/
theorem floor_sub_sub_le (u x y u' x' y' : Rat) (h : u - x - y ≤ u' - x' - y') :
    ⌊u⌋ - ⌊x⌋ - ⌊y⌋ ≤ ⌊u'⌋ - ⌊x'⌋ - ⌊y'⌋ + 2 := by
  have hlt : ((⌊u⌋ - ⌊x⌋ - ⌊y⌋ : Int) : Rat) < ((⌊u'⌋ - ⌊x'⌋ - ⌊y'⌋ + 3 : Int) : Rat) := by
    push_cast
    have hu := Int.floor_le u
    have hx := Int.lt_floor_add_one x
    have hy := Int.lt_floor_add_one y
    have hu' := Int.lt_floor_add_one u'
    have hx' := Int.floor_le x'
    have hy' := Int.floor_le y'
    linarith
  have := Int.cast_lt.mp hlt
  omega

namespace Arithmetic

/-! ## Non-negative settings -/

/-- No percentage and no chunk count that is set is negative. -/
structure NonNegative (bt : BuildTypeConfig) : Prop where
  floor : ∀ q ∈ bt.tier1FloorPct, 0 ≤ q
  chunk : ∀ q ∈ bt.tier2ChunkPct, 0 ≤ q
  tier3 : ∀ q ∈ bt.tier3Pct, 0 ≤ q
  utilization : ∀ q ∈ bt.effectiveUtilization, 0 ≤ q
  semantic : ∀ q ∈ bt.semanticRetrievalPct, 0 ≤ q
  graph : ∀ q ∈ bt.knowledgeGraphPct, 0 ≤ q
  minChunks : ∀ n ∈ bt.tier2MinChunks, 0 ≤ n
  maxChunks : ∀ n ∈ bt.tier2MaxChunks, 0 ≤ n

/-- What an accepted configuration without negative settings satisfies. -/
structure Admitted (dc : DeadbandConfig) : Prop where
  floor : 0 ≤ dc.tier1FloorPct
  chunk : 0 ≤ dc.tier2ChunkPct
  tier3 : 0 ≤ dc.tier3Pct
  utilization : 0 ≤ dc.effectiveUtilization
  fits : dc.tier1FloorPct + dc.tier2ChunkPct * dc.tier2MaxChunks + dc.tier3Pct ≤ dc.effectiveUtilization

theorem getD_nonneg {α : Type} [Preorder α] [Zero α] {o : Option α} {d : α} (h : ∀ q ∈ o, 0 ≤ q) (hd : 0 ≤ d) :
    0 ≤ o.getD d := by
  cases o with
  | none => exact hd
  | some q => exact h q rfl

theorem admitted_of_accepted {config : Config} {name : BuildType} {bt : BuildTypeConfig}
    (h : exact.getBuildTypeConfig config name = .ok bt) (hbt : NonNegative bt) :
    Admitted (exact.extractDeadbandConfig bt) := by
  unfold getBuildTypeConfig at h
  split at h
  · cases h
  · dsimp only at h
    split at h
    · cases h
    · rename_i hfits
      obtain rfl := Except.ok.inj h
      have hsemantic := getD_nonneg hbt.semantic (le_refl 0)
      have hgraph := getD_nonneg hbt.graph (le_refl 0)
      refine ⟨getD_nonneg hbt.floor (by norm_num [exact]), getD_nonneg hbt.chunk (by norm_num [exact]),
        getD_nonneg hbt.tier3 (by norm_num [exact]), getD_nonneg hbt.utilization (by norm_num [exact]), ?_⟩
      simp only [exact, not_lt] at hfits
      simp only [exact, extractDeadbandConfig]
      linarith

/-! ## The bounds -/

variable {dc : DeadbandConfig} {b b' : Int}

theorem share_eq {q : Rat} (hb : 0 ≤ b) (hq : 0 ≤ q) : exact.share b q = ⌊(b : Rat) * q⌋ :=
  trunc_eq_floor (mul_nonneg (Int.cast_nonneg hb) hq)

theorem tier2Share_eq (hdc : Admitted dc) (hb : 0 ≤ b) (n : Nat) :
    exact.tier2Share b dc n = ⌊(b : Rat) * dc.tier2ChunkPct * (n : Int)⌋ :=
  trunc_eq_floor (mul_nonneg (mul_nonneg (Int.cast_nonneg hb) hdc.chunk) (Int.cast_nonneg (Int.natCast_nonneg n)))

theorem ceiling_eq (hdc : Admitted dc) (hb : 0 ≤ b) (n : Nat) :
    exact.calculateTier1Ceiling b dc (some n) =
      max (⌊(b : Rat) * dc.effectiveUtilization⌋ - ⌊(b : Rat) * dc.tier2ChunkPct * (n : Int)⌋ - ⌊(b : Rat) * dc.tier3Pct⌋)
        ⌊(b : Rat) * dc.tier1FloorPct⌋ := by
  rw [← share_eq hb hdc.utilization, ← share_eq hb hdc.tier3, ← share_eq hb hdc.floor, ← tier2Share_eq hdc hb n]
  rfl

/-- `n` chunks take no more than the validator has counted for them. -/
theorem chunks_fit (hdc : Admitted dc) {n : Nat} (hn : (n : Int) ≤ dc.tier2MaxChunks) :
    dc.tier1FloorPct + dc.tier2ChunkPct * (n : Int) + dc.tier3Pct ≤ dc.effectiveUtilization := by
  have hmax : ((n : Int) : Rat) ≤ dc.tier2MaxChunks := Int.cast_le.mpr hn
  have hchunks := mul_le_mul_of_nonneg_left hmax hdc.chunk
  linarith [hdc.fits]

/-- **Nothing is over-allocated.** -/
theorem parts_le_cap (hdc : Admitted dc) (hb : 0 ≤ b) {n : Nat} (hn : (n : Int) ≤ dc.tier2MaxChunks) :
    exact.calculateTier1Ceiling b dc (some n) + exact.tier2Share b dc n + exact.share b dc.tier3Pct ≤
      exact.share b dc.effectiveUtilization := by
  have hfloor : ⌊(b : Rat) * dc.tier1FloorPct⌋ + ⌊(b : Rat) * dc.tier2ChunkPct * (n : Int)⌋ + ⌊(b : Rat) * dc.tier3Pct⌋ ≤
      ⌊(b : Rat) * dc.effectiveUtilization⌋ := by
    refine (floor_add_add_le _ _ _).trans (Int.floor_le_floor ?_)
    have h := mul_le_mul_of_nonneg_left (chunks_fit hdc hn) (Int.cast_nonneg (R := Rat) hb)
    linarith
  rw [ceiling_eq hdc hb, tier2Share_eq hdc hb, share_eq hb hdc.tier3, share_eq hb hdc.utilization]
  omega

/-- More chunks, no higher ceiling. -/
theorem ceiling_antitone (hdc : Admitted dc) (hb : 0 ≤ b) {n n' : Nat} (hn : n ≤ n') :
    exact.calculateTier1Ceiling b dc (some n') ≤ exact.calculateTier1Ceiling b dc (some n) := by
  rw [ceiling_eq hdc hb, ceiling_eq hdc hb]
  have hcast : ((n : Int) : Rat) ≤ (n' : Int) := Int.cast_le.mpr (Int.ofNat_le.mpr hn)
  have hshare := Int.floor_le_floor
    (mul_le_mul_of_nonneg_left hcast (mul_nonneg (Int.cast_nonneg (R := Rat) hb) hdc.chunk))
  omega

/-- A larger budget lowers the ceiling by two at most. -/
theorem ceiling_mono (hdc : Admitted dc) (hb : 0 ≤ b) (hbb : b ≤ b') {n : Nat} (hn : (n : Int) ≤ dc.tier2MaxChunks) :
    exact.calculateTier1Ceiling b dc (some n) ≤ exact.calculateTier1Ceiling b' dc (some n) + 2 := by
  rw [ceiling_eq hdc hb, ceiling_eq hdc (hb.trans hbb)]
  have hcast : (b : Rat) ≤ b' := Int.cast_le.mpr hbb
  have hrest : 0 ≤ dc.effectiveUtilization - dc.tier2ChunkPct * (n : Int) - dc.tier3Pct := by
    linarith [chunks_fit hdc hn, hdc.floor]
  have hdiff := floor_sub_sub_le (b * dc.effectiveUtilization) (b * dc.tier2ChunkPct * (n : Int)) (b * dc.tier3Pct)
    (b' * dc.effectiveUtilization) (b' * dc.tier2ChunkPct * (n : Int)) (b' * dc.tier3Pct)
    (by linarith [mul_le_mul_of_nonneg_right hcast hrest])
  have hfloor := Int.floor_le_floor (mul_le_mul_of_nonneg_right hcast hdc.floor)
  omega

/-- **Tier arithmetic** over the configurations that are accepted. -/
theorem exact_bounds (config : Config) (name : BuildType) (bt : BuildTypeConfig)
    (h : exact.getBuildTypeConfig config name = .ok bt) (hbt : NonNegative bt) (b : Int) (hb : 0 ≤ b) (n : Nat)
    (hn : (n : Int) ≤ (exact.extractDeadbandConfig bt).tier2MaxChunks) :
    let dc := exact.extractDeadbandConfig bt
    exact.calculateTier1Ceiling b dc (some n) + exact.tier2Share b dc n + exact.share b dc.tier3Pct ≤
        exact.share b dc.effectiveUtilization ∧
      exact.share b dc.tier1FloorPct ≤ exact.calculateTier1Ceiling b dc (some n) ∧
      0 ≤ exact.calculateTier1Ceiling b dc (some n) ∧
      (∀ n' ≤ n, exact.calculateTier1Ceiling b dc (some n) ≤ exact.calculateTier1Ceiling b dc (some n')) ∧
      ∀ b', b ≤ b' → exact.calculateTier1Ceiling b dc (some n) ≤ exact.calculateTier1Ceiling b' dc (some n) + 2 := by
  have hdc := admitted_of_accepted h hbt
  have hfloor : exact.share b (exact.extractDeadbandConfig bt).tier1FloorPct ≤
      exact.calculateTier1Ceiling b (exact.extractDeadbandConfig bt) (some n) := le_max_right _ _
  have hnonneg : 0 ≤ exact.share b (exact.extractDeadbandConfig bt).tier1FloorPct := by
    rw [share_eq hb hdc.floor]
    exact Int.floor_nonneg.mpr (mul_nonneg (Int.cast_nonneg hb) hdc.floor)
  exact ⟨parts_le_cap hdc hb hn, hfloor, hnonneg.trans hfloor, fun n' hn' => ceiling_antitone hdc hb hn',
    fun b' hbb => ceiling_mono hdc hb hbb hn⟩

/-- The default section in a window of 3481 effective tokens, with two chunks. -/
theorem exact_bounds_default :
    let dc := exact.extractDeadbandConfig {}
    exact.calculateTier1Ceiling 3481 dc (some 2) + exact.tier2Share 3481 dc 2 + exact.share 3481 dc.tier3Pct ≤
        exact.share 3481 dc.effectiveUtilization ∧
      exact.share 3481 dc.tier1FloorPct ≤ exact.calculateTier1Ceiling 3481 dc (some 2) ∧
      0 ≤ exact.calculateTier1Ceiling 3481 dc (some 2) ∧
      (∀ n' ≤ 2, exact.calculateTier1Ceiling 3481 dc (some 2) ≤ exact.calculateTier1Ceiling 3481 dc (some n')) ∧
      ∀ b', 3481 ≤ b' →
        exact.calculateTier1Ceiling 3481 dc (some 2) ≤ exact.calculateTier1Ceiling b' dc (some 2) + 2 :=
  exact_bounds ⟨[(.tieredSummary, {})], fun _ => none, fun _ => none, fun _ => none⟩ .tieredSummary {} (by decide +kernel)
    ⟨by simp, by simp, by simp, by simp, by simp, by simp, by simp, by simp⟩ 3481 (by decide) 2 (by decide)

end Arithmetic

end ContextBroker
