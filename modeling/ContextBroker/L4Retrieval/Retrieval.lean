import ContextBroker.L1Data.Config

/-!
# The retrieval graphs

The nodes of the standard-tiered, knowledge-enriched and passthrough
retrieval graphs, on one snapshot of the tables. The two tiered graphs are
the same but for the tier-1 budget, the row limit and the domain text, so
each node is one definition, applied per graph under the source's name.

Every graph is a straight line that ends early when `load_window` sets
`error`. A database call that raises (`Env.fault`) ends it with that
exception, except in `wait_for_assembly`. Here no `model` is passed; the
distillation by it is in `TokenUsage`.
-/
namespace ContextBroker.Retrieval

open Rows

/-! ## State -/

inductive Site where
  | window | touch | wait | summaries | highest | messages
  deriving DecidableEq, Repr

structure Env where
  fault : Site → Option Exn := fun _ => none
  /-- The lock was still taken at the deadline of the wait. -/
  timedOut : Bool := false

inductive AssemblyStatus where
  | pending | ready | timeout | error
  deriving DecidableEq, Repr

inductive RetrievalError where
  | windowNotFound (w : Id)
  | buildType (e : BuildTypeError)
  deriving DecidableEq, Repr

/-- An entry of `context_messages`; absent keys are `none`. -/
structure Entry where
  role : Role
  content : Option Text
  toolCalls : Option Text := none
  toolCallId : Option Text := none
  name : Option Text := none
  deriving DecidableEq, Repr

/-- An entry of `context_tiers["recent_messages"]`. -/
structure RecentMessage where
  id : Id
  role : Role
  sender : Text
  content : Option Text
  sequenceNumber : Nat
  deriving DecidableEq, Repr

structure ContextTiers where
  archivalSummary : Option Text := none
  chunkSummaries : List Text := []
  domainContext : Option Text := none
  recentMessages : List RecentMessage
  deriving DecidableEq, Repr

/-- mirrors build_types/standard_tiered.py:941-963,
build_types/knowledge_enriched.py:53-80 -/
structure RetrievalState where
  contextWindowId : Id
  domainContext : Option Text := none
  buildTypeConfig : Option BuildTypeConfig := none
  conversationId : Id := 0
  maxTokenBudget : Int := 0
  tier3Summary : Option Text := none
  tier2Summaries : List Text := []
  recentMessages : List Message := []
  assemblyStatus : AssemblyStatus := .pending
  contextMessages : Option (List Entry) := none
  contextTiers : Option ContextTiers := none
  totalTokensUsed : Nat := 0
  warnings : List Text := []
  error : Option RetrievalError := none
  deriving DecidableEq, Repr

/-! ## Window, wait, summaries -/

section Nodes

variable (config : Config) (env : Env)

/-- mirrors build_types/standard_tiered.py:966-1025,
build_types/knowledge_enriched.py:83-142 -/
def loadWindow (db : Db) (st : RetrievalState) : Except Exn RetrievalState := do
  match ← perform env.fault .window (db.window? st.contextWindowId) with
  | none => return { st with error := some (.windowNotFound st.contextWindowId), assemblyStatus := .error }
  | some window =>
    perform env.fault .touch ()
    match getBuildTypeConfig config window.buildType with
    | .error e => return { st with error := some (.buildType e), assemblyStatus := .error }
    | .ok bt =>
      let utilization := bt.effectiveUtilization.getD EFFECTIVE_UTILIZATION_DEFAULT
      return { st with buildTypeConfig := some bt, conversationId := window.conversationId
                       maxTokenBudget := effectiveBudget window.maxTokenBudget utilization }

def staleWarning : Text :=
  "Context assembly was still in progress at retrieval time; context may be stale.".toList

/-- mirrors build_types/standard_tiered.py:1028-1080,
build_types/knowledge_enriched.py:145-198 -/
def waitForAssembly (st : RetrievalState) : Except Exn RetrievalState :=
  match perform env.fault .wait env.timedOut with
  | .error e =>
    if e.caughtBy [.connectionError, .osError, .runtimeError] then .ok { st with assemblyStatus := .ready }
    else .error e
  | .ok true => .ok { st with assemblyStatus := .timeout, warnings := st.warnings ++ [staleWarning] }
  | .ok false => .ok { st with assemblyStatus := .ready }

/-- `WHERE context_window_id = $1 AND is_active ORDER BY tier, summarizes_from_seq`. -/
def activeSummaries (db : Db) (w : Id) : List Summary :=
  orderAsc (·.fromSeq) (db.active w .two) ++ orderAsc (·.fromSeq) (db.active w .three)

/-- One row of the loop: a later archival row replaces an earlier one. -/
def addSummary (st : RetrievalState) (row : Summary) : RetrievalState :=
  match row.tier with
  | .three => { st with tier3Summary := some row.summaryText }
  | .two => { st with tier2Summaries := st.tier2Summaries ++ [row.summaryText] }

/-- mirrors build_types/standard_tiered.py:1083-1106,
build_types/knowledge_enriched.py:201-224 -/
def loadSummaries (db : Db) (st : RetrievalState) : Except Exn RetrievalState := do
  let rows ← perform env.fault .summaries (activeSummaries db st.contextWindowId)
  return rows.foldl addSummary { st with tier3Summary := none, tier2Summaries := [] }

/-- mirrors build_types/standard_tiered.py:1083-1106 -/
def retLoadSummaries : Db → RetrievalState → Except Exn RetrievalState := loadSummaries env

/-- mirrors build_types/knowledge_enriched.py:201-224 -/
def keLoadSummaries : Db → RetrievalState → Except Exn RetrievalState := loadSummaries env

/-! ## Recent messages -/

/-- `len(s) // 4` over the summaries.
mirrors build_types/standard_tiered.py:1122-1127 -/
def summaryTokens (tier3 : Option Text) (tier2 : List Text) : Nat :=
  (tier3.getD []).length / 4 + total (fun s => s.length / 4) tier2

/-- The newest messages above the watermark, `limit` rows of them at most, as
far as they fit. mirrors build_types/standard_tiered.py:1122-1176 -/
def loadRecentMessages (tier1Budget : Int) (limit : Except Exn Int) (db : Db) (st : RetrievalState) :
    Except Exn RetrievalState := do
  let used := summaryTokens st.tier3Summary st.tier2Summaries
  let remaining := max 0 (min tier1Budget (st.maxTokenBudget - used))
  let highest ← perform env.fault .highest (db.watermark st.contextWindowId)
  let rows ← perform env.fault .messages
    ((db.newestFirst st.conversationId).filter (highest < ·.sequenceNumber))
  let recent := takeWithin messageTokens remaining 0 (← limitRows rows (← limit))
  return { st with recentMessages := recent.reverse, totalTokensUsed := used + total messageTokens recent }

/-- The two tiered graphs. -/
inductive Tiered where
  | standard | enriched
  deriving DecidableEq, Repr

/-- The tier-1 budget, with `chunks` active chunk summaries: the ceiling of
the deadband, or its floor.
mirrors build_types/standard_tiered.py:1119-1120,
build_types/knowledge_enriched.py:239-240 -/
def Tiered.tier1Budget (g : Tiered) (bt : BuildTypeConfig) (maxBudget : Int) (chunks : Nat) : Int :=
  match g with
  | .standard => calculateTier1Ceiling maxBudget (extractDeadbandConfig bt) (some chunks)
  | .enriched =>
    Binary64.trunc (Binary64.mul maxBudget (bt.tier1FloorPct.getD (Binary64.ofRat (20 / 100))))

/-- The LIMIT of the message query.
mirrors build_types/standard_tiered.py:1144-1145,
build_types/knowledge_enriched.py:263 -/
def Tiered.rowLimit (g : Tiered) (bt : BuildTypeConfig) (maxBudget : Int) (chunks : Nat) : Except Exn Int :=
  match g with
  | .standard => adaptiveLimit config (g.tier1Budget bt maxBudget chunks)
  | .enriched => .ok (getTuning config .maxMessagesToLoad 1000)

def Tiered.loadRecent (g : Tiered) (db : Db) (st : RetrievalState) : Except Exn RetrievalState :=
  let bt := st.buildTypeConfig.getD {}
  loadRecentMessages env (g.tier1Budget bt st.maxTokenBudget st.tier2Summaries.length)
    (g.rowLimit config bt st.maxTokenBudget st.tier2Summaries.length) db st

/-- mirrors build_types/standard_tiered.py:1109-1176 -/
def retLoadRecentMessages : Db → RetrievalState → Except Exn RetrievalState :=
  Tiered.standard.loadRecent config env

/-- mirrors build_types/knowledge_enriched.py:227-294 -/
def keLoadRecentMessages : Db → RetrievalState → Except Exn RetrievalState :=
  Tiered.enriched.loadRecent config env

end Nodes

/-! ## The context -/

/-- A value that is falsy when empty. -/
def truthy (text : Option Text) : Option Text := text.filter (· ≠ [])

theorem truthy_some {text : Text} (h : text ≠ []) : truthy (some text) = some text := by simp [truthy, h]

/-- mirrors build_types/standard_tiered.py:1195-1198 -/
def archivalSection (tier3 : Option Text) : List Text :=
  ((truthy tier3).map ("[Archival context]\n".toList ++ ·)).toList

/-- mirrors build_types/standard_tiered.py:1201-1204 -/
def chunkSection (tier2 : List Text) : List Text :=
  if tier2 = [] then [] else ["[Recent summaries]\n".toList ++ List.intercalate "\n\n".toList tier2]

/-- `max(0, max_budget - cumulative_tokens) if max_budget else inf`. -/
def remainingAfter (maxBudget : Int) (cumulative : Nat) : Option Int :=
  if maxBudget = 0 then none else some (max 0 (maxBudget - cumulative))

/-- The caller's text, cut at four characters a remaining token: `int(inf * 4)`
overflows. mirrors build_types/knowledge_enriched.py:328-337 -/
def domainSection (domain : Option Text) (maxBudget : Int) (cumulative : Nat) : Except Exn (List Text) :=
  match truthy domain with
  | none => .ok []
  | some text =>
    match remainingAfter maxBudget cumulative with
    | none => .error .overflowError
    | some remaining =>
      let cut := text.take (remaining * 4).toNat
      .ok (if cut = [] then [] else ["[Domain knowledge]\n".toList ++ cut])

/-- M-08: the newest messages within `remaining`, newest first. A message
without content makes `len` raise.
mirrors build_types/standard_tiered.py:1208-1218 -/
def truncateRecent (remaining : Option Int) : Nat → List Message → Except Exn (List Message)
  | _, [] => .ok []
  | used, m :: rest =>
    match m.content with
    | none => .error .typeError
    | some text =>
      if remaining.any (· < ((used + estimateTokens text : Nat) : Int)) then .ok []
      else do return m :: (← truncateRecent remaining (used + estimateTokens text) rest)

def systemEntry (content : Text) : Entry := { role := .system, content := some content }

/-- mirrors build_types/standard_tiered.py:1219-1228 -/
def messageEntry (m : Message) : Entry :=
  { role := m.role, content := m.content, toolCalls := truthy m.toolCalls
    toolCallId := truthy m.toolCallId, name := truthy (some m.sender) }

def recentMessage (m : Message) : RecentMessage :=
  { id := m.id, role := m.role, sender := m.sender, content := m.content
    sequenceNumber := m.sequenceNumber }

/-- The system entries: archival summary, chunk summaries, domain text. -/
def sections (tier3 : Option Text) (tier2 : List Text) (domain : Option Text) (maxBudget : Int) :
    Except Exn (List Text) := do
  let summaries := archivalSection tier3 ++ chunkSection tier2
  return summaries ++ (← domainSection domain maxBudget (total estimateTokens summaries))

/-- mirrors build_types/standard_tiered.py:1179-1251,
build_types/knowledge_enriched.py:303-385 -/
def assembleContext (domain : Option Text) (st : RetrievalState) : Except Exn RetrievalState := do
  let texts ← sections st.tier3Summary st.tier2Summaries domain st.maxTokenBudget
  let newestFirst ← truncateRecent (remainingAfter st.maxTokenBudget (total estimateTokens texts)) 0
    st.recentMessages.reverse
  let recent := newestFirst.reverse
  return { st with
    contextMessages := some (texts.map systemEntry ++ recent.map messageEntry)
    contextTiers := some { archivalSummary := st.tier3Summary, chunkSummaries := st.tier2Summaries
                           domainContext := domain, recentMessages := recent.map recentMessage } }

/-- mirrors build_types/standard_tiered.py:1179-1251 -/
def retAssembleContext : RetrievalState → Except Exn RetrievalState := assembleContext none

/-- mirrors build_types/knowledge_enriched.py:303-385 -/
def keAssembleContext (st : RetrievalState) : Except Exn RetrievalState :=
  assembleContext st.domainContext st

/-! ## The graphs -/

section Graphs

variable (config : Config) (env : Env) (db : Db) (w : Id) (domain : Option Text)

/-- mirrors build_types/standard_tiered.py:1254-1290,
build_types/knowledge_enriched.py:476-523 -/
def Tiered.retrieve (g : Tiered) : Except Exn RetrievalState := do
  let st ← loadWindow config env db { contextWindowId := w, domainContext := domain }
  if st.error.isSome then return st
  else
    let st ← waitForAssembly env st
    let st ← loadSummaries env db st
    match g with
    | .standard => retAssembleContext (← retLoadRecentMessages config env db st)
    | .enriched => keAssembleContext (← keLoadRecentMessages config env db st)

/-- mirrors build_types/passthrough.py:203-249 -/
def ptLoadWindow (st : RetrievalState) : Except Exn RetrievalState := do
  match ← perform env.fault .window (db.window? st.contextWindowId) with
  | none => return { st with error := some (.windowNotFound st.contextWindowId) }
  | some window =>
    perform env.fault .touch ()
    return { st with conversationId := window.conversationId
                     maxTokenBudget := effectiveBudget window.maxTokenBudget EFFECTIVE_UTILIZATION_DEFAULT }

/-- mirrors build_types/passthrough.py:252-317 -/
def ptLoadRecent (st : RetrievalState) : Except Exn RetrievalState := do
  let rows ← perform env.fault .messages (db.newestFirst st.conversationId)
  let newestFirst := takeWithin messageTokens st.maxTokenBudget 0
    (← limitRows rows (getTuning config .maxMessagesToLoad 1000))
  let messages := newestFirst.reverse
  return { st with
    contextMessages := some (messages.map messageEntry)
    contextTiers := some { recentMessages := messages.map recentMessage }
    totalTokensUsed := total messageTokens newestFirst }

/-- mirrors build_types/passthrough.py:320-341 -/
def ptRetrieve : Except Exn RetrievalState := do
  let st ← ptLoadWindow env db { contextWindowId := w, domainContext := domain }
  if st.error.isSome then return st else ptLoadRecent config env db st

/-- `get_retrieval_graph`, and its graph. mirrors
app/flows/build_type_registry.py:57-81,109-121 -/
def retrieve (buildType : BuildType) : Except Exn RetrievalState :=
  match buildType with
  | .slidingWindow => ptRetrieve config env db w domain
  | .tieredSummary => Tiered.standard.retrieve config env db w domain
  | .enriched => Tiered.enriched.retrieve config env db w domain
  | .other _ => .error .valueError

end Graphs

end ContextBroker.Retrieval
