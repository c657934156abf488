import ContextBroker.Core.Workflow
import ContextBroker.L6Knowledge.Ranking
import Mathlib.Algebra.Order.Group.Unbundled.Abs

/-!
# The enrichment flow (`context_broker_te/cea_enrichment_flow.py`)

The agent searches, ranks and cuts what it has found, and searches again with
a query of the language model until that says DONE or the iteration limit is
reached; then the context is assembled and the feedback recorded. The query of
the state is the one to search for next: it is overwritten in every round, and
cleared to end the loop.

What the search and the language model return is an input, one answer a round.
The enriched context is a list of segments, so that it is known which item a
line is of; `Segment.render` is its text.
-/
namespace ContextBroker

namespace Ranking.Result

/-- A value that counts as true. -/
def nonempty (t : Option Text) : Option Text := t.filter (!·.isEmpty)

/-- `r.get("id") or r.get("relation_id")`; none where that is no id. -/
def rid (r : Result) : Option Text := (nonempty r.id).or (nonempty r.relationId)

def hasId (r : Result) : Bool := r.rid.isSome

/-- It has a relationship and a destination. -/
def isRelation (r : Result) : Bool := r.relationship.isSome && r.destination.isSome

/-- `len(text) // 4 + 1` of the memory or else the source. -/
def tokensEst (r : Result) : Nat := (r.memory.getD (r.source.getD [])).length / 4 + 1

end Ranking.Result

namespace Enrichment
open Ranking Rows

inductive TargetType where
  | fact | relation
  deriving DecidableEq, Repr

inductive EventType where
  | used | discarded
  deriving DecidableEq, Repr

structure FeedbackEvent where
  targetType : TargetType
  targetId : Text
  eventType : EventType
  query : Text
  deriving DecidableEq, Repr

/-! ## Lines -/

/-- `abs(q) * 100`, rounded to even. -/
def hundredths (q : Rat) : Nat :=
  let n := (|q| * 100).floor.toNat
  let rest := |q| * 100 - n
  if rest < 1 / 2 then n else if 1 / 2 < rest then n + 1 else if n % 2 = 0 then n else n + 1

/-- `f"{q:.2f}"` -/
def twoDecimals (q : Rat) : Text :=
  (if q < 0 then ['-'] else []) ++ Nat.toDigits 10 (hundredths q / 100) ++
    ['.', Nat.digitChar (hundredths q % 100 / 10), Nat.digitChar (hundredths q % 10)]

/-- mirrors cea_enrichment_flow.py:344-358 -/
def line (r : Result) : Text :=
  if r.isRelation then
    "- ".toList ++ r.source.getD ['?'] ++ " --[".toList ++ r.relationship.getD ['?'] ++ "]--> ".toList ++
      r.destination.getD ['?'] ++ ['\n']
  else "- [".toList ++ twoDecimals r.rankScore ++ "] ".toList ++ r.memory.getD [] ++ ['\n']

/-- A piece of the enriched context: a text of the template, or the line of an
item. -/
inductive Segment where
  | text (t : Text)
  | item (r : Result)
  deriving DecidableEq, Repr

def Segment.render : Segment → Text
  | .text t => t
  | .item r => line r

/-- `facts_text` or `rels_text`. -/
def linesOf (rs : List Result) : List Segment := if rs = [] then [.text "(none)\n".toList] else rs.map .item

/-- What `str.format` puts together. -/
inductive Piece where
  | lit (t : Text)
  | vectorFacts
  | graphRelations
  deriving DecidableEq, Repr

/-- The output template: it shows the facts and the relations. -/
structure Template where
  pieces : List Piece
  facts_mem : .vectorFacts ∈ pieces
  relations_mem : .graphRelations ∈ pieces

def fallback : Template where
  pieces := [.lit "## Retrieved Knowledge\n\n### Facts\n".toList, .vectorFacts, .lit "\n### Relationships\n".toList,
    .graphRelations]
  facts_mem := by decide
  relations_mem := by decide

def Piece.format (facts relations : List Segment) : Piece → List Segment
  | .lit t => [.text t]
  | .vectorFacts => facts
  | .graphRelations => relations

/-! ## State -/

/-- A message of the context the agent already has. -/
structure Tier where
  role : Option Text := none
  content : Option Text := none

/-- `retrieved`, `executed` and `recorded` are ghosts: what the searches
returned, the queries they were called with, and the events the feedback
function was called with. -/
structure State where
  tiers : List Tier
  query : Text
  searchResults : List Result := []
  searchQueries : List Text := []
  rankedResults : List Result := []
  enrichedContext : List Segment := []
  feedbackEvents : List FeedbackEvent := []
  iterationCount : Nat := 0
  retrieved : List Result := []
  executed : List Text := []
  recorded : List FeedbackEvent := []

/-- The configuration and the callables of the state. `search k` and `llm k`
are what they return when `iteration_count` is `k`, none if they raise, and
`template` is a template or none if it cannot be loaded or formatted. -/
structure Env where
  config : Ranking.Config := {}
  maxIterations : Nat := 3
  maxTokenBudget : Nat := 8000
  search : Option (Nat → Option (List Result × List Result)) := none
  llm : Option (Nat → Option Text) := none
  template : Option Template := none
  hasFeedbackFn : Bool := true
  recursionLimit : Nat := 25

/-! ## Nodes -/

/-- The last user message of the context. -/
def tierQuery (tiers : List Tier) : Text :=
  ((tiers.reverse.findSome? fun msg =>
    if msg.role = some "user".toList then Result.nonempty msg.content else none).getD []).take 500

/-- `str.strip('"')` -/
def stripQuotes (t : Text) : Text := ((t.dropWhile (· == '"')).reverse.dropWhile (· == '"')).reverse

variable (env : Env)

/-- The follow-up query of the language model, none for DONE, an empty answer,
an exception, or when there is no model. mirrors cea_enrichment_flow.py:212-250 -/
def refinement (k : Nat) : Option Text := do
  let llm ← env.llm
  let response ← llm k
  let newQuery := stripQuotes (strip response)
  if newQuery.map Char.toUpper = "DONE".toList ∨ newQuery = [] then none else some newQuery

/-- mirrors cea_enrichment_flow.py:184-254 -/
def decideSearch (s : State) : State :=
  if s.iterationCount = 0 then
    let query := if s.query = [] then tierQuery s.tiers else s.query
    { s with query, searchQueries := s.searchQueries ++ [query] }
  else
    match refinement env s.iterationCount with
    | none => { s with query := [] }
    | some query => { s with query, searchQueries := s.searchQueries ++ [query] }

/-- mirrors cea_enrichment_flow.py:284-291 -/
def accumulate (accumulated : List Result) (r : Result) : List Result :=
  if r.hasId && !(accumulated.map Result.rid).contains r.rid then accumulated ++ [r] else accumulated

/-- mirrors cea_enrichment_flow.py:257-297 -/
def executeSearch (s : State) : State :=
  if s.query = [] then { s with iterationCount := s.iterationCount + 1 }
  else
    match env.search with
    | none => { s with iterationCount := s.iterationCount + 1 }
    | some search =>
      let newResults :=
        match search s.iterationCount with
        | some (facts, relations) => facts ++ relations
        | none => []
      { s with searchResults := newResults.foldl accumulate s.searchResults
               iterationCount := s.iterationCount + 1
               retrieved := s.retrieved ++ newResults
               executed := s.executed ++ [s.query] }

/-- mirrors cea_enrichment_flow.py:315-325 -/
def withinBudget (maxTokenBudget : Nat) (ranked : List Result) : List Result :=
  takeWithin Result.tokensEst maxTokenBudget 0 ranked

/-- mirrors cea_enrichment_flow.py:300-327 -/
def evaluateAndRank (s : State) : State :=
  { s with rankedResults := withinBudget env.maxTokenBudget (rankResults s.searchResults env.config) }

/-- mirrors cea_enrichment_flow.py:336-372 -/
def enriched (ranked : List Result) : List Segment :=
  (env.template.getD fallback).pieces.flatMap
    (Piece.format (linesOf (ranked.filter (!·.isRelation))) (linesOf (ranked.filter (·.isRelation))))

def targetType (r : Result) : TargetType := if (Result.nonempty r.relationId).isSome then .relation else .fact

/-- mirrors cea_enrichment_flow.py:374-389 -/
def feedback (query : Text) (ranked results : List Result) : List FeedbackEvent :=
  results.filterMap fun r => r.rid.map fun rid =>
    { targetType := targetType r, targetId := rid, query
      eventType := if (ranked.map Result.rid).contains (some rid) then .used else .discarded }

def assembleContext (s : State) : State :=
  { s with enrichedContext := enriched env s.rankedResults
           feedbackEvents := feedback s.query s.rankedResults s.searchResults }

/-- mirrors cea_enrichment_flow.py:394-429 -/
def recordFeedback (s : State) : State :=
  { s with recorded := if env.hasFeedbackFn then s.feedbackEvents else [] }

/-! ## The flow -/

inductive Node where
  | decideSearch | executeSearch | evaluateAndRank | assembleContext | recordFeedback
  deriving DecidableEq, Repr

inductive FlowError where
  | recursionLimit
  deriving DecidableEq, Repr

/-- mirrors cea_enrichment_flow.py:432-455 -/
def shouldIterate (s : State) : Node :=
  if env.maxIterations ≤ s.iterationCount then .assembleContext
  else if s.query = [] then .assembleContext
  else if 0 < s.iterationCount then .decideSearch
  else .assembleContext

/-- mirrors cea_enrichment_flow.py:461-487 -/
def flow : Workflow Node State FlowError where
  node
    | .decideSearch, s => (decideSearch env s, none)
    | .executeSearch, s => (executeSearch env s, none)
    | .evaluateAndRank, s => (evaluateAndRank env s, none)
    | .assembleContext, s => (assembleContext env s, none)
    | .recordFeedback, s => (recordFeedback env s, none)
  route
    | .decideSearch, _ => some .executeSearch
    | .executeSearch, _ => some .evaluateAndRank
    | .evaluateAndRank, s => some (shouldIterate env s)
    | .assembleContext, _ => some .recordFeedback
    | .recordFeedback, _ => none
  limitError := .recursionLimit

/-- The state a run of the flow leaves, and the error if it has used up its
nodes. mirrors imperator_flow.py:495-510 -/
def run (tiers : List Tier) (query : Text) : State × Option FlowError :=
  (flow env).run env.recursionLimit .decideSearch { tiers, query }

/-! ## One round -/

def finish (s : State) : State := recordFeedback env (assembleContext env s)

/-- What the search returns in round `k`. -/
def found (k : Nat) : List Result :=
  match env.search with
  | none => []
  | some search =>
    match search k with
    | some (facts, relations) => facts ++ relations
    | none => []

/-- What the first `n` rounds return. -/
def gathered (n : Nat) : List Result := (List.range n).flatMap (found env)

/-- The query of round `k`, if the loop gets there. -/
def queryAt (tiers : List Tier) (query : Text) : Nat → Text
  | 0 => if query = [] then tierQuery tiers else query
  | k + 1 => (refinement env (k + 1)).getD []

end Enrichment

end ContextBroker
