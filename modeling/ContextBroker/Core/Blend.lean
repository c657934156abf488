import Mathlib.Algebra.Order.Field.Basic
import Mathlib.Tactic.Linarith
import Mathlib.Tactic.Positivity
import Mathlib.Tactic.FieldSimp
import Mathlib.Tactic.Ring

/-!
# Blending a prior with an observed ratio

`blend prior observed w` moves from the prior to the observation as the
weight grows from 0 to 1; `smoothed p n` is the share of `p` in `p + n` with
one added below.

* `blend_le_of_le`, `smoothed_le_smoothed`: at one weight the blend follows
  the observation, and the observation follows its two masses.
* `blend_le_blend_iff`, `blend_ge_blend_iff`: when the weight grows as well,
  the prior decides. Below the break-even value the blend rises, above it it
  falls.
-/
namespace ContextBroker.Blend

variable {K : Type} [Field K]

def blend (prior observed w : K) : K := prior * (1 - w) + observed * w

def smoothed (p n : K) : K := p / (p + n + 1)

/-- The prior at which a step from one observation and weight to another
leaves the blend as it is. -/
def breakEven (u w u' w' : K) : K := (w' * u' - w * u) / (w' - w)

@[simp] theorem blend_zero (d u : K) : blend d u 0 = d := by simp [blend]

@[simp] theorem blend_one (d u : K) : blend d u 1 = u := by simp [blend]

theorem blend_sub_blend (d u w u' w' : K) :
    blend d u' w' - blend d u w = w' * u' - w * u - d * (w' - w) := by
  unfold blend
  ring

variable [LinearOrder K] [IsStrictOrderedRing K]

theorem blend_nonneg {d u w : K} (hd : 0 ≤ d) (hu : 0 ≤ u) (h0 : 0 ≤ w) (h1 : w ≤ 1) : 0 ≤ blend d u w :=
  add_nonneg (mul_nonneg hd (sub_nonneg.mpr h1)) (mul_nonneg hu h0)

theorem blend_le_one {d u w : K} (hd : d ≤ 1) (hu : u ≤ 1) (h0 : 0 ≤ w) (h1 : w ≤ 1) : blend d u w ≤ 1 := by
  have hprior : d * (1 - w) ≤ 1 * (1 - w) := mul_le_mul_of_nonneg_right hd (sub_nonneg.mpr h1)
  have hobserved : u * w ≤ 1 * w := mul_le_mul_of_nonneg_right hu h0
  unfold blend
  linarith

theorem blend_le_blend_iff {d u w u' w' : K} (h : w < w') :
    blend d u w ≤ blend d u' w' ↔ d ≤ breakEven u w u' w' := by
  rw [← sub_nonneg, blend_sub_blend, sub_nonneg, breakEven, le_div_iff₀ (sub_pos.mpr h)]

theorem blend_ge_blend_iff {d u w u' w' : K} (h : w < w') :
    blend d u' w' ≤ blend d u w ↔ breakEven u w u' w' ≤ d := by
  rw [← sub_nonpos, blend_sub_blend, sub_nonpos, breakEven, div_le_iff₀ (sub_pos.mpr h)]

/-- The break-even value is at least the new observation when that is the
better one, and at most it when it is the worse one. -/
theorem le_breakEven {u w u' w' : K} (h0 : 0 ≤ w) (h : w < w') (hu : u ≤ u') : u' ≤ breakEven u w u' w' := by
  have hmass : w * u ≤ w * u' := mul_le_mul_of_nonneg_left hu h0
  rw [breakEven, le_div_iff₀ (sub_pos.mpr h)]
  linarith

theorem breakEven_le {u w u' w' : K} (h0 : 0 ≤ w) (h : w < w') (hu : u' ≤ u) : breakEven u w u' w' ≤ u' := by
  have hmass : w * u' ≤ w * u := mul_le_mul_of_nonneg_left hu h0
  rw [breakEven, div_le_iff₀ (sub_pos.mpr h)]
  linarith

theorem smoothed_nonneg {p n : K} (hp : 0 ≤ p) (hn : 0 ≤ n) : 0 ≤ smoothed p n :=
  div_nonneg hp (by positivity)

theorem smoothed_le_one {p n : K} (hp : 0 ≤ p) (hn : 0 ≤ n) : smoothed p n ≤ 1 :=
  div_le_one_of_le₀ (by linarith) (by positivity)

/-- The share grows with the positive mass and shrinks with the negative one. -/
theorem smoothed_le_smoothed {p n p' n' : K} (hp : 0 ≤ p) (hn' : 0 ≤ n') (hpos : p ≤ p') (hneg : n' ≤ n) :
    smoothed p n ≤ smoothed p' n' := by
  have hn : 0 ≤ n := le_trans hn' hneg
  have hp' : 0 ≤ p' := le_trans hp hpos
  have hden : (0 : K) < p + n + 1 := by positivity
  have hden' : (0 : K) < p' + n' + 1 := by positivity
  have hcross : p * n' ≤ p' * n := mul_le_mul hpos hneg hn' hp'
  unfold smoothed
  rw [div_le_div_iff₀ hden hden']
  linarith [mul_comm p p']

end ContextBroker.Blend
