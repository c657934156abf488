import Mathlib.Algebra.Order.Field.Rat
import Mathlib.Data.List.Nodup
import Mathlib.Algebra.Order.Field.Basic
import Mathlib.Tactic.Positivity
import Mathlib.Tactic.Linarith

/-!
# Reciprocal rank fusion

Two rankings of items are merged: an item gets `1 / (k + rank)` from each
ranking it is in, ranks counted from one, and the sum is its score.

* `mem_fused`: the merged list has the items of both.
* `score_lt_of_consensus`: an item among the first `k + 1` of both rankings
  scores above every item of only one.
* `score_lt_of_ahead`: an item ahead in one ranking and not behind in the other
  scores above.
-/
namespace ContextBroker.RankFusion

variable {α : Type} [DecidableEq α] {k : Nat} {l v b : List α} {x y : α}

/-- The rank of `x`, from one. -/
def rankOf (l : List α) (x : α) : Option Nat := if x ∈ l then some (l.idxOf x + 1) else none

/-- `COALESCE(1.0 / (k + rank), 0)`. -/
def share (k : Nat) (rank : Option Nat) : Rat :=
  match rank with
  | some r => 1 / ((k : Rat) + r)
  | none => 0

def score (k : Nat) (v b : List α) (x : α) : Rat := share k (rankOf v x) + share k (rankOf b x)

/-- The full outer join of the two rankings. -/
def fused (v b : List α) : List α := v ++ b.filter (· ∉ v)

theorem mem_fused : x ∈ fused v b ↔ x ∈ v ∨ x ∈ b := by
  by_cases hx : x ∈ v <;> simp [fused, hx]

/-- Neither ranking counts for more. -/
theorem score_comm (k : Nat) (v b : List α) (x : α) : score k v b x = score k b v x := by
  rw [score, score, add_comm]

theorem rankOf_pos {r : Nat} (h : rankOf l x = some r) : 1 ≤ r := by
  unfold rankOf at h
  split at h
  · obtain rfl := Option.some.inj h
    exact Nat.le_add_left _ _
  · cases h

theorem rankOf_eq_none : rankOf l x = none ↔ x ∉ l := by
  simp [rankOf]

theorem rankOf_isSome : (∃ r, rankOf l x = some r) ↔ x ∈ l := by
  simp [rankOf]

theorem share_nonneg (k : Nat) (rank : Option Nat) : 0 ≤ share k rank := by
  cases rank with
  | none => exact le_refl _
  | some r =>
    simp only [share]
    positivity

theorem share_pos {r : Nat} (hr : 1 ≤ r) : 0 < share k (some r) := by
  have hr' : (0 : Rat) < r := by exact_mod_cast hr
  simp only [share]
  positivity

/-- Everything found has a positive score. -/
theorem score_pos (h : x ∈ fused v b) : 0 < score k v b x := by
  rcases mem_fused.mp h with hx | hx
  · obtain ⟨r, hr⟩ := rankOf_isSome.mpr hx
    have hpos := share_pos (k := k) (rankOf_pos hr)
    have hnonneg := share_nonneg k (rankOf b x)
    rw [score, hr]
    linarith
  · obtain ⟨r, hr⟩ := rankOf_isSome.mpr hx
    have hpos := share_pos (k := k) (rankOf_pos hr)
    have hnonneg := share_nonneg k (rankOf v x)
    rw [score, hr]
    linarith

/-- A lower rank has a larger share. -/
theorem share_anti {r s : Nat} (hr : 1 ≤ r) (h : r ≤ s) : share k (some s) ≤ share k (some r) := by
  have hr' : (0 : Rat) < (k : Rat) + r := by
    have hpos : (0 : Rat) < r := by exact_mod_cast hr
    positivity
  have hle : (k : Rat) + r ≤ (k : Rat) + s := by
    have hrs : (r : Rat) ≤ s := by exact_mod_cast h
    linarith
  exact one_div_le_one_div_of_le hr' hle

theorem share_strictAnti {r s : Nat} (hr : 1 ≤ r) (h : r < s) : share k (some s) < share k (some r) := by
  have hr' : (0 : Rat) < (k : Rat) + r := by
    have hpos : (0 : Rat) < r := by exact_mod_cast hr
    positivity
  have hlt : (k : Rat) + r < (k : Rat) + s := by
    have hrs : (r : Rat) < s := by exact_mod_cast h
    linarith
  exact one_div_lt_one_div_of_lt hr' hlt

/-- No share is larger than that of the first place. -/
theorem share_le_first (rank : Option Nat) (h : ∀ r, rank = some r → 1 ≤ r) :
    share k rank ≤ 1 / ((k : Rat) + 1) := by
  cases rank with
  | none =>
    simp only [share]
    positivity
  | some r =>
    have hle := share_anti (k := k) (Nat.le_refl 1) (h r rfl)
    simpa [share] using hle

/-- A place among the first `k + 1` is worth more than half the first place. -/
theorem half_first_lt {r : Nat} (hr : 1 ≤ r) (h : r ≤ k + 1) : 1 / ((k : Rat) + 1) < 2 * share k (some r) := by
  have hlast := share_anti (k := k) hr h
  have hpos : (0 : Rat) < (k : Rat) + 1 := by positivity
  have hhalf : 1 / ((k : Rat) + 1) < 2 * share k (some (k + 1)) := by
    simp only [share]
    push_cast
    rw [mul_one_div, div_lt_div_iff₀ hpos (by positivity)]
    linarith
  linarith

/-- **Consensus wins**: an item among the first `k + 1` of both rankings scores above
every item of only one. -/
theorem score_lt_of_consensus {r s : Nat} (hv : rankOf v x = some r) (hb : rankOf b x = some s) (hr : r ≤ k + 1)
    (hs : s ≤ k + 1) (hone : y ∉ v ∨ y ∉ b) : score k v b y < score k v b x := by
  have hhalfv := half_first_lt (rankOf_pos hv) hr
  have hhalfb := half_first_lt (rankOf_pos hb) hs
  have hfirstv := share_le_first (k := k) (rankOf v y) fun _ => rankOf_pos
  have hfirstb := share_le_first (k := k) (rankOf b y) fun _ => rankOf_pos
  rw [score, score, hv, hb]
  rcases hone with hnone | hnone
  · rw [rankOf_eq_none.mpr hnone]
    rw [show share k none = 0 from rfl]
    linarith
  · rw [rankOf_eq_none.mpr hnone]
    rw [show share k none = 0 from rfl]
    linarith

/-- `x` comes before `y` in a ranking that has it. -/
def Ahead (l : List α) (x y : α) : Prop := x ∈ l ∧ (y ∈ l → l.idxOf x < l.idxOf y)

theorem share_lt_of_ahead (h : Ahead l x y) : share k (rankOf l y) < share k (rankOf l x) := by
  by_cases hy : y ∈ l
  · simp only [rankOf, h.1, hy, if_true]
    exact share_strictAnti (Nat.le_add_left _ _) (Nat.succ_lt_succ (h.2 hy))
  · simp only [rankOf, h.1, hy, if_true, if_false]
    exact share_pos (Nat.le_add_left _ _)

/-- Ahead in one ranking, and ahead or just as absent in the other. -/
def Dominates (v b : List α) (x y : α) : Prop := Ahead v x y ∧ (Ahead b x y ∨ x ∉ b ∧ y ∉ b)

/-- **Dominance**. -/
theorem score_lt_of_ahead (h : Dominates v b x y) : score k v b y < score k v b x := by
  have hvlt := share_lt_of_ahead (k := k) h.1
  rcases h.2 with hb | ⟨hx, hy⟩
  · have hblt := share_lt_of_ahead (k := k) hb
    rw [score, score]
    linarith
  · rw [score, score, rankOf_eq_none.mpr hx, rankOf_eq_none.mpr hy]
    linarith

end ContextBroker.RankFusion
