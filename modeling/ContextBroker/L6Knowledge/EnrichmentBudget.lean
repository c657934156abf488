import ContextBroker.L6Knowledge.Enrichment
import Mathlib.Data.Nat.Digits.Defs

/-!
# The token budget of the enrichment

`evaluate_and_rank` charges an item the tokens of its memory (or source) and
one more; `assemble_context` renders its score, its relationship and its
destination besides. Both are totals over the same initial part of the
ranking, so what decides is what the lines cost over the estimates
(`overhead`), by the lengths of their fields: at least a token for every fact
that has a memory.

`budget_iff`: the rendered lines stay within the budget exactly if what the
estimates leave of it covers the overhead.
-/
namespace ContextBroker.Enrichment
open Ranking Rows

/-! ## What is rendered -/

/-- The lines among the segments. -/
def itemLines (segments : List Segment) : List Text :=
  segments.filterMap fun
    | .item r => some (line r)
    | .text _ => none

/-- The fact and relation lines of the ranked items. -/
def renderedLines (ranked : List Result) : List Text :=
  itemLines (linesOf (ranked.filter (!·.isRelation))) ++ itemLines (linesOf (ranked.filter (·.isRelation)))

/-- The estimated tokens of lines, one by one. -/
def tokens (lines : List Text) : Nat := total (fun l => l.length / 4) lines

/-- The estimated tokens of their text. -/
def textTokens (lines : List Text) : Nat := total List.length lines / 4

/-! ## What a line costs over its estimate -/

/-- The characters of an item's line: a relation's three fields and twelve more,
a fact's memory, its score and six more. -/
def width (r : Result) : Nat :=
  if r.isRelation then
    (r.source.getD ['?']).length + (r.relationship.getD ['?']).length + (r.destination.getD ['?']).length + 12
  else (twoDecimals r.rankScore).length + (r.memory.getD []).length + 6

/-- The characters that the estimate is of. -/
def charged (r : Result) : Nat := (r.memory.getD (r.source.getD [])).length

def overhead (r : Result) : Int := (width r / 4 : Nat) - (charged r / 4 + 1 : Nat)

/-- In characters. -/
def excess (r : Result) : Int := width r - 4 * (charged r / 4 + 1 : Nat)

def sumOf (f : Result → Int) : List Result → Int
  | [] => 0
  | r :: rs => f r + sumOf f rs

/-- The estimates of the items. -/
def estimated (part : List Result) : Nat := total Result.tokensEst part

section

variable {budget : Nat} {ranked part : List Result} {r : Result}

theorem four_le_length_twoDecimals (q : Rat) : 4 ≤ (twoDecimals q).length := by
  have hpos : 0 < (Nat.toDigits 10 (hundredths q / 100)).length := Nat.length_toDigits_pos
  simp only [twoDecimals, List.length_append, List.length_cons, List.length_nil]
  omega

theorem length_line (r : Result) : (line r).length = width r := by
  unfold line width
  split
  · simp
    omega
  · simp
    omega

/-- The estimate of a fact is always too low. -/
theorem one_le_overhead {memory : Text} (hr : r.isRelation = false) (hm : r.memory = some memory) :
    1 ≤ overhead r := by
  have hscore := four_le_length_twoDecimals r.rankScore
  simp only [overhead, width, charged, hr, hm, Bool.false_eq_true, if_false, Option.getD_some]
  omega

/-! ## Totals -/

theorem itemLines_linesOf (rs : List Result) : itemLines (linesOf rs) = rs.map line := by
  unfold linesOf
  split
  · rename_i h
    subst h
    rfl
  · rw [itemLines, List.filterMap_map]
    exact congrFun List.filterMap_eq_map rs

theorem total_partition (size : Result → Nat) (p : Result → Bool) (l : List Result) :
    total size (l.filter (!p ·)) + total size (l.filter p) = total size l := by
  induction l with
  | nil => rfl
  | cons r l ih =>
    cases h : p r <;> simp only [List.filter_cons, h, Bool.not_true, Bool.not_false, Bool.false_eq_true, if_true,
      if_false, total_cons] <;> omega

/-- A total of the lines is one over the items. -/
theorem total_renderedLines (size : Text → Nat) (ranked : List Result) :
    total size (renderedLines ranked) = total (fun r => size (line r)) ranked := by
  rw [renderedLines, itemLines_linesOf, itemLines_linesOf, total_append, total_map, total_map]
  exact total_partition _ _ _

theorem sumOf_overhead (part : List Result) :
    sumOf overhead part = (total (fun r => (line r).length / 4) part : Int) - estimated part := by
  induction part with
  | nil => rfl
  | cons r part ih =>
    simp only [sumOf, estimated, total_cons, ih, overhead, length_line, Result.tokensEst, charged]
    omega

theorem sumOf_excess (part : List Result) :
    sumOf excess part = (total (fun r => (line r).length) part : Int) - 4 * estimated part := by
  induction part with
  | nil => rfl
  | cons r part ih =>
    simp only [sumOf, estimated, total_cons, ih, excess, length_line, Result.tokensEst, charged]
    omega

theorem total_le_of_initial {size : Result → Nat} (h : part <+: ranked) : total size part ≤ total size ranked := by
  obtain ⟨rest, rfl⟩ := h
  rw [total_append]
  omega

/-- The cut keeps the longest part that fits. -/
theorem prefix_withinBudget (hp : part <+: ranked) (hfit : estimated part ≤ budget) :
    part <+: withinBudget budget ranked := by
  have hkept : withinBudget budget ranked <+: ranked := prefix_takeWithin _ _
  rcases List.prefix_or_prefix_of_prefix hp hkept with h | h
  · exact h
  · obtain ⟨rest, rfl⟩ := h
    cases rest with
    | nil => simp
    | cons a rest =>
      obtain ⟨rest', hranked⟩ := hp
      rw [List.append_assoc, List.cons_append] at hranked
      have hstop := @takeWithin_stop _ Result.tokensEst (budget : Int) 0 ranked a _ hranked.symm
      rw [estimated, total_append, total_cons] at hfit
      change (budget : Int) < 0 + total Result.tokensEst (withinBudget budget ranked) + _ at hstop
      omega

theorem estimated_withinBudget (budget : Nat) (ranked : List Result) :
    estimated (withinBudget budget ranked) ≤ budget := by
  have := @takeWithin_sum _ Result.tokensEst budget 0 ranked (Int.natCast_nonneg _)
  rw [estimated, withinBudget]
  omega

/-- A total over the kept part is within a bound if it is over every part that
fits. -/
theorem total_withinBudget_iff (size : Result → Nat) (bound : Nat) :
    total size (withinBudget budget ranked) ≤ bound ↔
      ∀ part, part <+: ranked → estimated part ≤ budget → total size part ≤ bound := by
  constructor
  · intro h part hp hfit
    exact (total_le_of_initial (prefix_withinBudget hp hfit)).trans h
  · intro h
    exact h _ (prefix_takeWithin _ _) (estimated_withinBudget budget ranked)

end

/-- **The lines stay within the budget** exactly when every initial part of the
ranking whose estimates fit leaves room for its overhead: counted line by line,
and counted over the whole text. -/
theorem budget_iff (budget : Nat) (ranked : List Result) :
    (tokens (renderedLines (withinBudget budget ranked)) ≤ budget ↔
      ∀ part, part <+: ranked → estimated part ≤ budget →
        sumOf overhead part ≤ (budget : Int) - estimated part) ∧
    (textTokens (renderedLines (withinBudget budget ranked)) ≤ budget ↔
      ∀ part, part <+: ranked → estimated part ≤ budget →
        sumOf excess part ≤ 4 * ((budget : Int) - estimated part) + 3) := by
  constructor
  · rw [tokens, total_renderedLines, total_withinBudget_iff]
    refine forall_congr' fun part => forall_congr' fun _ => forall_congr' fun _ => ?_
    rw [sumOf_overhead]
    omega
  · have hdiv : textTokens (renderedLines (withinBudget budget ranked)) ≤ budget ↔
        total (fun r => (line r).length) (withinBudget budget ranked) ≤ 4 * budget + 3 := by
      rw [textTokens, total_renderedLines]
      omega
    rw [hdiv, total_withinBudget_iff]
    refine forall_congr' fun part => forall_congr' fun _ => forall_congr' fun _ => ?_
    rw [sumOf_excess]
    omega

/-- A fact of 396 characters is charged 100 tokens and rendered in 101. -/
theorem budget_exceeded :
    ¬ ∀ (budget : Nat) (ranked : List Result),
      tokens (renderedLines (withinBudget budget ranked)) ≤ budget ∨
        textTokens (renderedLines (withinBudget budget ranked)) ≤ budget := by
  intro h
  have := h 100 [{ memory := some (List.replicate 396 'a'), rankScore := 1 / 2 }]
  revert this
  decide +kernel

end ContextBroker.Enrichment
