import ContextBroker.Core.Ranked
import Mathlib.Algebra.Order.Field.Rat
import Mathlib.Tactic.Linarith

/-!
# Recency bias (`context_broker_ae/search_flow.py`)

The two searches of `hybrid_search_messages` return their score as different
types: the hybrid one a Postgres `numeric`, which is a `Decimal`, the text-only
one a `real`, which is a `float`. The loop multiplies each with a float, and
passes over a row for which that raises. The arithmetic is exact; the types are
the ones Python has.

`recency_applied_iff`: the scores carry the penalty exactly on the text-only
path with a decay of at least a day, or when no row is old.
-/
namespace ContextBroker.Recency
open Ranked

/-! ## Numbers -/

/-- What asyncpg decodes a `numeric` and a `real` as. -/
inductive Number where
  | decimal (q : Rat)
  | float (q : Rat)
  deriving DecidableEq, Repr

def Number.value : Number → Rat
  | .decimal q => q
  | .float q => q

/-- `number * f` with a float `f`; none is a `TypeError`. -/
def Number.mulFloat : Number → Rat → Option Number
  | .decimal _, _ => none
  | .float q, f => some (.float (q * f))

/-- `int(q)` -/
def truncate (q : Rat) : Int := if 0 ≤ q then q.floor else -(-q).floor

/-! ## The search -/

/-- A row that matches. Times are in seconds; a match has a positive score. -/
structure Row where
  id : Nat
  createdAt : Rat
  score : Rat
  positive : 0 < score
  deriving DecidableEq

inductive Path where
  | hybrid | textOnly
  deriving DecidableEq, Repr

/-- A candidate: its row, and `score` as it stands. -/
structure Candidate where
  row : Row
  score : Number
  deriving DecidableEq

/-- `recency_decay_days` and `recency_max_penalty`. -/
structure Settings where
  recencyDecayDays : Rat := 90
  recencyMaxPenalty : Rat := 1 / 5

/-- `ORDER BY score DESC LIMIT limit * 5` over the matching rows, in the order
the scan meets them. mirrors search_flow.py:379-447 -/
def fetch (scan : List Row) (limit : Nat) : List Row := (sortDesc Row.score scan).take (limit * 5)

/-- The type of the score column. -/
def candidate (path : Path) (row : Row) : Candidate :=
  ⟨row, match path with
    | .hybrid => .decimal row.score
    | .textOnly => .float row.score⟩

def ageDays (now : Rat) (row : Row) : Rat := max 0 ((now - row.createdAt) / 86400)

/-- mirrors search_flow.py:470-473 -/
def penaltyOf (decayDays maxPenalty age : Rat) : Rat := min maxPenalty (age / decayDays * maxPenalty)

/-- One pass of the loop; a `TypeError` is passed over. mirrors search_flow.py:464-483 -/
def adjust (settings : Settings) (now : Rat) (c : Candidate) : Candidate :=
  let penalty := penaltyOf (truncate settings.recencyDecayDays) settings.recencyMaxPenalty (ageDays now c.row)
  match c.score.mulFloat (1 - penalty) with
  | some score => { c with score }
  | none => c

/-- mirrors search_flow.py:449-487 -/
def hybridSearchMessages (path : Path) (settings : Settings) (now : Rat) (scan : List Row) (limit : Nat) :
    List Candidate :=
  let candidates := (fetch scan limit).map (candidate path)
  if candidates ≠ [] ∧ 0 < truncate settings.recencyDecayDays ∧ 0 < settings.recencyMaxPenalty then
    sortDesc (·.score.value) (candidates.map (adjust settings now))
  else candidates

/-! ## The bias meant -/

/-- The days over which the penalty grows: whole ones, from one day on. -/
def decayDays (settings : Settings) : Rat :=
  if 1 ≤ settings.recencyDecayDays then truncate settings.recencyDecayDays else settings.recencyDecayDays

/-- The base score less the penalty for the age. -/
def biased (settings : Settings) (now : Rat) (row : Row) : Rat :=
  row.score * (1 - penaltyOf (decayDays settings) settings.recencyMaxPenalty (ageDays now row))

/-- `out` has the rows that were fetched with their biased scores, best first. -/
structure Applied (settings : Settings) (now : Rat) (fetched : List Row) (out : List Candidate) : Prop where
  scores : (out.map fun c => (c.row, c.score.value)).Perm (fetched.map fun r => (r, biased settings now r))
  sorted : out.Pairwise fun a b => b.score.value ≤ a.score.value

section

variable {path : Path} {settings : Settings} {now : Rat} {scan : List Row} {limit : Nat} {r : Row}

@[simp] theorem value_candidate (path : Path) (row : Row) : (candidate path row).score.value = row.score := by
  cases path <;> rfl

theorem one_le_truncate {q : Rat} (h : 1 ≤ q) : 1 ≤ truncate q := by
  rw [truncate, if_pos (zero_le_one.trans h)]
  exact Rat.le_floor_iff.mpr (by exact_mod_cast h)

theorem truncate_eq_zero {q : Rat} (h0 : 0 < q) (h : ¬ 1 ≤ q) : truncate q = 0 := by
  rw [truncate, if_pos h0.le]
  have hle : 0 ≤ q.floor := Rat.le_floor_iff.mpr (by exact_mod_cast h0.le)
  have hlt : q.floor < 1 := Rat.floor_lt_iff.mpr (by exact_mod_cast not_le.mp h)
  omega

theorem decayDays_pos (h : 0 < settings.recencyDecayDays) : 0 < decayDays settings := by
  unfold decayDays
  split
  · rename_i h1
    have hone := one_le_truncate h1
    exact_mod_cast lt_of_lt_of_le Int.zero_lt_one hone
  · exact h

theorem ageDays_eq_zero (h : now ≤ r.createdAt) : ageDays now r = 0 :=
  max_eq_left (div_nonpos_of_nonpos_of_nonneg (sub_nonpos.mpr h) (by norm_num))

theorem ageDays_pos (h : r.createdAt < now) : 0 < ageDays now r :=
  lt_max_of_lt_right (div_pos (sub_pos.mpr h) (by norm_num))

theorem penaltyOf_zero {d m : Rat} (hm : 0 < m) : penaltyOf d m 0 = 0 := by
  rw [penaltyOf, zero_div, zero_mul]
  exact min_eq_right hm.le

theorem penaltyOf_pos {d m age : Rat} (hd : 0 < d) (hm : 0 < m) (ha : 0 < age) : 0 < penaltyOf d m age :=
  lt_min hm (mul_pos (div_pos ha hd) hm)

/-- A row that is not old keeps its score. -/
theorem biased_of_new (hm : 0 < settings.recencyMaxPenalty) (h : now ≤ r.createdAt) :
    biased settings now r = r.score := by
  rw [biased, ageDays_eq_zero h, penaltyOf_zero hm, sub_zero, mul_one]

/-- An old one does not. -/
theorem biased_lt_of_old (hd : 0 < settings.recencyDecayDays) (hm : 0 < settings.recencyMaxPenalty)
    (h : r.createdAt < now) : biased settings now r < r.score := by
  have hpenalty := penaltyOf_pos (decayDays_pos hd) hm (ageDays_pos h)
  calc biased settings now r < r.score * 1 := mul_lt_mul_of_pos_left (by linarith) r.positive
    _ = r.score := mul_one _

@[simp] theorem row_adjust (settings : Settings) (now : Rat) (c : Candidate) : (adjust settings now c).row = c.row := by
  unfold adjust
  dsimp only
  split <;> rfl

/-- A decimal score is passed over. -/
theorem adjust_hybrid : adjust settings now (candidate .hybrid r) = candidate .hybrid r := rfl

/-- A float one is multiplied. -/
theorem adjust_textOnly (h : 1 ≤ settings.recencyDecayDays) :
    (adjust settings now (candidate .textOnly r)).score.value = biased settings now r := by
  rw [biased, decayDays, if_pos h]
  rfl

theorem adjust_new (hm : 0 < settings.recencyMaxPenalty) (h : now ≤ r.createdAt) :
    (adjust settings now (candidate path r)).score.value = r.score := by
  cases path with
  | hybrid => rfl
  | textOnly =>
    show r.score * (1 - penaltyOf _ _ (ageDays now r)) = r.score
    rw [ageDays_eq_zero h, penaltyOf_zero hm, sub_zero, mul_one]

/-- Where the bias is switched on. -/
theorem search_eq_adjusted (h : 1 ≤ settings.recencyDecayDays) (hm : 0 < settings.recencyMaxPenalty) :
    hybridSearchMessages path settings now scan limit =
      sortDesc (·.score.value) (((fetch scan limit).map (candidate path)).map (adjust settings now)) := by
  unfold hybridSearchMessages
  by_cases hnone : (fetch scan limit).map (candidate path) = []
  · simp [hnone]
  · have hone := one_le_truncate h
    exact if_pos ⟨hnone, by omega, hm⟩

/-- A decay of less than a day switches it off. -/
theorem search_eq_fetched (h0 : 0 < settings.recencyDecayDays) (h : ¬ 1 ≤ settings.recencyDecayDays) :
    hybridSearchMessages path settings now scan limit = (fetch scan limit).map (candidate path) :=
  if_neg fun hon => absurd hon.2.1 (by rw [truncate_eq_zero h0 h]; exact lt_irrefl 0)

theorem fetch_sorted (scan : List Row) (limit : Nat) : (fetch scan limit).Pairwise fun a b => b.score ≤ a.score :=
  (sortDesc_sorted Row.score scan).sublist (List.take_sublist _ _)

/-- The scores that come out are those of a map over the rows. -/
theorem search_perm (f : Row → Rat)
    (hadjust : ∀ r ∈ fetch scan limit, 1 ≤ settings.recencyDecayDays →
      (adjust settings now (candidate path r)).score.value = f r)
    (hbase : ¬ 1 ≤ settings.recencyDecayDays → ∀ r ∈ fetch scan limit, r.score = f r)
    (h0 : 0 < settings.recencyDecayDays) (hm : 0 < settings.recencyMaxPenalty) :
    ((hybridSearchMessages path settings now scan limit).map fun c => (c.row, c.score.value)).Perm
      ((fetch scan limit).map fun r => (r, f r)) := by
  by_cases h : 1 ≤ settings.recencyDecayDays
  · rw [search_eq_adjusted h hm]
    refine ((sortDesc_perm _ _).map _).trans ?_
    rw [List.map_map, List.map_map]
    refine List.Perm.of_eq (List.map_congr_left fun r hr => ?_)
    exact Prod.ext (row_adjust settings now _) (hadjust r hr h)
  · rw [search_eq_fetched h0 h, List.map_map]
    refine List.Perm.of_eq (List.map_congr_left fun r hr => ?_)
    exact Prod.ext rfl ((value_candidate path r).trans (hbase h r hr))

/-- The candidates are in non-increasing score order on every path. -/
theorem search_sorted (h0 : 0 < settings.recencyDecayDays) (hm : 0 < settings.recencyMaxPenalty) :
    (hybridSearchMessages path settings now scan limit).Pairwise fun a b => b.score.value ≤ a.score.value := by
  by_cases h : 1 ≤ settings.recencyDecayDays
  · rw [search_eq_adjusted h hm]
    exact sortDesc_sorted _ _
  · rw [search_eq_fetched h0 h, List.pairwise_map]
    simpa using fetch_sorted scan limit

/-- Elsewhere the base scores come out. -/
theorem search_base (h : ¬ (path = .textOnly ∧ 1 ≤ settings.recencyDecayDays)) (h0 : 0 < settings.recencyDecayDays)
    (hm : 0 < settings.recencyMaxPenalty) :
    ((hybridSearchMessages path settings now scan limit).map fun c => (c.row, c.score.value)).Perm
      ((fetch scan limit).map fun r => (r, r.score)) := by
  refine search_perm Row.score (fun r _ h1 => ?_) (fun _ _ _ => rfl) h0 hm
  cases path with
  | hybrid => rfl
  | textOnly => exact absurd ⟨rfl, h1⟩ h

end

/-- **The recency bias is applied** exactly on the text-only path with a decay
of at least a day, or where no row fetched is old. -/
theorem recency_applied_iff (path : Path) (settings : Settings) (now : Rat) (scan : List Row) (limit : Nat)
    (hdecay : 0 < settings.recencyDecayDays) (hpenalty : 0 < settings.recencyMaxPenalty) :
    Applied settings now (fetch scan limit) (hybridSearchMessages path settings now scan limit) ↔
      (path = .textOnly ∧ 1 ≤ settings.recencyDecayDays) ∨ ∀ r ∈ fetch scan limit, now ≤ r.createdAt := by
  constructor
  · intro h
    by_contra hnot
    obtain ⟨hpath, hold⟩ := not_or.mp hnot
    push Not at hold
    obtain ⟨r, hr, hage⟩ := hold
    -- the base score of an old row is among the biased ones
    have hperm := (search_base hpath hdecay hpenalty).symm.trans h.scores
    obtain ⟨r', _, hr'⟩ := List.mem_map.mp (hperm.subset (List.mem_map_of_mem hr))
    obtain ⟨rfl, hsame⟩ := Prod.mk.inj hr'
    exact absurd hsame (biased_lt_of_old hdecay hpenalty hage).ne
  · intro h
    refine ⟨?_, search_sorted hdecay hpenalty⟩
    rcases h with ⟨rfl, h1⟩ | hnew
    · exact search_perm _ (fun r _ _ => adjust_textOnly h1) (fun hnot => absurd h1 hnot) hdecay hpenalty
    · exact search_perm _
        (fun r hr _ => (adjust_new hpenalty (hnew r hr)).trans (biased_of_new hpenalty (hnew r hr)).symm)
        (fun _ r hr => (biased_of_new hpenalty (hnew r hr)).symm) hdecay hpenalty

/-- A message two days old when the time is 172800. -/
def oldRow : Row := ⟨1, 0, 1 / 2, by norm_num⟩

theorem recency_applied_textOnly :
    Applied {} 172800 (fetch [oldRow] 10) (hybridSearchMessages .textOnly {} 172800 [oldRow] 10) :=
  (recency_applied_iff .textOnly {} 172800 [oldRow] 10 (by norm_num) (by norm_num)).mpr (.inl ⟨rfl, by norm_num⟩)

/-- Found by the hybrid search, it keeps its score. -/
theorem hybrid_without_bias :
    ¬ ∀ (path : Path) (settings : Settings) (now : Rat) (scan : List Row) (limit : Nat),
      0 < settings.recencyDecayDays → 0 < settings.recencyMaxPenalty →
        Applied settings now (fetch scan limit) (hybridSearchMessages path settings now scan limit) := by
  intro h
  have hscores := (h .hybrid {} 172800 [oldRow] 10 (by norm_num) (by norm_num)).scores
  have hmem : (⟨oldRow, .decimal (1 / 2)⟩ : Candidate) ∈ hybridSearchMessages .hybrid {} 172800 [oldRow] 10 := by
    decide +kernel
  have hbiased := hscores.subset (List.mem_map_of_mem hmem)
  revert hbiased
  decide +kernel

end ContextBroker.Recency
