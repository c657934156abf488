import ContextBroker.Core.KeyedMerge
import ContextBroker.Core.Workflow
import ContextBroker.L4Retrieval.GetContext
import Mathlib.Data.List.Infix

/-!
# The Imperator

One turn of the agent: `init_context_node` loads the identity prompt and the
history, the model and the tools take turns, and two nodes store the
messages. The nodes share the message list, which `add_messages` merges by
id: what a node returns under an id of the state takes its place, the rest is
appended.

`invoke` runs the graph over the tables and the state, with langgraph's limit
on the number of nodes. What is outside is a parameter (`Env`): the prompt
file, the embeddings and the domain table, the language model, the tools, and
the fault of each store. A turn is on its own: nothing else stores messages
while it runs.
-/
namespace ContextBroker.Imperator

open KeyedMerge Retrieval

/-! ## Messages -/

structure ToolCall where
  id : Text
  name : Text
  args : Text
  deriving DecidableEq, Repr

/-- `SystemMessage`, `HumanMessage`, `AIMessage` and `ToolMessage`. -/
inductive Body where
  | system (content : Text)
  | human (content : Text)
  | ai (content : Text) (toolCalls : List ToolCall)
  | tool (content : Text) (toolCallId : Text)
  deriving DecidableEq, Repr

namespace Body

def isTool : Body → Bool
  | .tool _ _ => true
  | _ => false

def human? : Body → Option Text
  | .human content => some content
  | _ => none

/-- The text of an `AIMessage` without tool calls. -/
def reply? : Body → Option Text
  | .ai content [] => some content
  | _ => none

end Body

/-- An id stands for a `uuid4`. -/
structure AnyMessage where
  id : Nat
  body : Body
  deriving DecidableEq, Repr

/-- A message a node returns; one it has made has no id yet. -/
structure Returned where
  id : Option Nat := none
  body : Body
  deriving DecidableEq, Repr

def made (body : Body) : Returned := { body }

/-- `uuid4` for the messages without an id. -/
def assignIds : Nat → List Returned → List AnyMessage
  | _, [] => []
  | next, ⟨some id, body⟩ :: rest => ⟨id, body⟩ :: assignIds next rest
  | next, ⟨none, body⟩ :: rest => ⟨next, body⟩ :: assignIds (next + 1) rest

/-! ## State -/

inductive TurnError where
  | promptLoading (e : Exn)
  | model (e : Exn)
  deriving DecidableEq, Repr

/-- `contextWindowId`: none if there is none, `some none` if it is not a
UUID. mirrors imperator_flow.py:55-71 -/
structure ImperatorState where
  messages : List AnyMessage := []
  nextId : Nat := 0
  contextWindowId : Option (Option Id) := none
  responseText : Option Text := none
  error : Option TurnError := none
  iterationCount : Nat := 0
  userMessageStored : Bool := false
  ceacContextMessages : List Entry := []
  deriving DecidableEq, Repr

/-- `add_messages`. -/
def ImperatorState.add (s : ImperatorState) (right : List Returned) : ImperatorState :=
  { s with messages := merge (·.id) s.messages (assignIds s.nextId right)
           nextId := s.nextId + right.length }

/-- The state the chat route builds from the messages of a client.
mirrors app/routes/chat.py:116-150 -/
def initialState (client : List Body) (contextWindowId : Option (Option Id)) : ImperatorState :=
  ({ contextWindowId } : ImperatorState).add (client.map made)

/-- The content of the last `HumanMessage`. -/
def lastHuman (messages : List AnyMessage) : Option Text := (messages.reverse.findSome? (·.body.human?))

/-- The tables and the state of a turn. -/
structure Turn where
  db : Db
  state : ImperatorState

/-! ## Configuration and environment -/

/-- The section `imperator`, the tuning numbers the flow reads, and the host
name. `maxContextTokens` is none when it is not an `int`. -/
structure ImperatorConfig where
  buildType : BuildType := .tieredSummary
  maxContextTokens : Option Int := some 8192
  requestUser : Text := "unknown".toList
  hostname : Text
  ceacEnabled : Bool := false
  maxIterations : Int := 10
  maxReactMessages : Int := 40
  recursionLimit : Nat := 25

/-- A response of the language model. -/
structure ModelReply where
  content : Text
  toolCalls : List ToolCall := []
  deriving DecidableEq, Repr

structure Env where
  config : Config
  now : Time := 0
  /-- `async_load_prompt`. -/
  prompt : Except Exn Text
  /-- The embedding of the query and the rows of domain_information. -/
  domainRows : Except Exn (List (Text × Rat))
  /-- `_get_flow("get_context")`. -/
  getContextFlow : Option Exn := none
  getContext : GetContext.Env
  /-- What `AIMessage` makes of `tool_calls`; none if it refuses them. -/
  toolCalls : Text → Option (List ToolCall)
  /-- The CEAc flow. -/
  enrichment : Except Exn Text := .ok []
  /-- By iteration and attempt. -/
  model : Nat → Nat → List Body → Except Exn ModelReply
  tool : Nat → ToolCall → Except Exn Text
  storeUser : Option Exn := none
  storeAssistant : Option Exn := none
  alone : ∀ n, getContext.assembly.arrivals n = []

/-! ## Tool calls of the flow -/

def BuildType.text : BuildType → Text
  | .slidingWindow => "sliding-window".toList
  | .tieredSummary => "tiered-summary".toList
  | .enriched => "enriched".toList
  | .other name => name

/-- The fields of `GetContextInput` with a bound.
mirrors app/models.py:157-186 -/
def validGetContext (inp : GetContext.GetContextInput) : Bool :=
  let n := (BuildType.text inp.buildType).length
  1 ≤ n && n ≤ 100 && 1 ≤ inp.budget && inp.userPrompt.all (·.length ≤ 10000) &&
    inp.domainContext.all (·.length ≤ 50000)

/-- `dispatch_tool("get_context")`, down to its `context`. A
`ValidationError` is a `ValueError`.
mirrors app/flows/tool_dispatch.py:121-158 -/
def dispatchGetContext (env : Env) (db : Db) (key : Option Id) (inp : GetContext.GetContextInput) :
    Db × Except Exn (Option (List Entry)) :=
  match key with
  | none => (db, .error .valueError)
  | some c =>
    if !validGetContext inp then (db, .error .valueError)
    else
      match env.getContextFlow with
      | some e => (db, .error e)
      | none =>
        match GetContext.getContext env.config env.getContext db { inp with conversationId := some c } with
        | (db', .error e) => (db', .error e)
        | (db', .ok st) =>
          if st.error.isSome then (db', .error .valueError) else (db', .ok st.contextMessages)

/-- The fields of `StoreMessageCoreInput` with a bound.
mirrors app/models.py:189-200 -/
def validStoreMessage (sender recipient : Text) : Bool :=
  1 ≤ sender.length && sender.length ≤ 255 && recipient.length ≤ 255

/-- `dispatch_tool("store_message")`; `fault` is what the flow raises besides.
mirrors app/flows/tool_dispatch.py:160-185 -/
def dispatchStoreMessage (now : Time) (fault : Option Exn) (db : Db) (key : Option Id) (role : Role)
    (sender recipient content : Text) : Db × Except Exn Unit :=
  match key with
  | none => (db, .error .valueError)
  | some c =>
    if !validStoreMessage sender recipient then (db, .error .valueError)
    else
      match fault with
      | some e => (db, .error e)
      | none =>
        match storeMessage now db
            { conversationIdInput := some c, role, sender, recipient := some recipient, content := some content } with
        | (.ok _, db') => (db', .ok ())
        | (.error _, db') => (db', .error .valueError)

/-! ## init_context_node -/

section Init

variable (env : Env) (config : ImperatorConfig)

def configurationError : Text := "I encountered a configuration error.".toList

/-- mirrors imperator_flow.py:328-331 -/
def domainContext (rows : List (Text × Rat)) : Option Text :=
  let relevant := (rows.filter fun r => Binary64.ofRat (3 / 10) < r.2).map (·.1)
  if relevant = [] then none
  else some (List.intercalate "\n".toList (relevant.map ("- ".toList ++ ·)))

/-- mirrors imperator_flow.py:309-333 -/
def domainLookup (userQuery : Option Text) : Except Exn (Option Text) :=
  match truthy userQuery, env.domainRows with
  | none, _ => .ok none
  | some _, .ok rows => .ok (domainContext rows)
  | some _, .error e => if e.caughtBy [.runtimeError, .osError, .valueError] then .ok none else .error e

/-- The message an entry becomes, if it becomes one; a class that refuses the
entry raises a `ValidationError`.
mirrors imperator_flow.py:372-392 -/
def historyMessage (systemContent : Text) (entry : Entry) : Except Exn (Option Body) :=
  match entry.role, entry.content with
  | .assistant, some content =>
    match entry.toolCalls with
    | none => .ok (some (.ai content []))
    | some t =>
      match env.toolCalls t with
      | some calls => .ok (some (.ai content calls))
      | none => .error .valueError
  | .tool, content =>
    .ok (some (.tool (content.getD "None".toList) (entry.toolCallId.getD "unknown".toList)))
  | .system, some content =>
    if content ≠ [] ∧ strip content = strip systemContent then .ok none else .ok (some (.system content))
  | .user, some content | .other _, some content => .ok (some (.human content))
  | _, none => .error .valueError

/-- `history_messages` when the loop ends or is left.
mirrors imperator_flow.py:371-394 -/
def historyMessages (systemContent : Text) : List Entry → List Body
  | [] => []
  | entry :: rest =>
    match historyMessage env systemContent entry with
    | .error _ => []
    | .ok none => historyMessages systemContent rest
    | .ok (some body) => body :: historyMessages systemContent rest

/-- mirrors imperator_flow.py:341-361 -/
def getContextArgs (userQuery domain : Option Text) : GetContext.GetContextInput :=
  { buildType := config.buildType, budget := config.maxContextTokens.getD 8192, userPrompt := truthy userQuery
    domainContext := truthy domain }

/-- The entries of `get_context`, or none of them. A `context` of `None` is
iterated all the same.
mirrors imperator_flow.py:335-394 -/
def loadContext (t : Turn) (userQuery domain : Option Text) : Db × Except Exn (List Entry) :=
  match t.state.contextWindowId with
  | none => (t.db, .ok [])
  | some key =>
    match dispatchGetContext env t.db key (getContextArgs config userQuery domain) with
    | (db, .ok (some entries)) => (db, .ok entries)
    | (db, .ok none) => (db, .error .typeError)
    | (db, .error e) =>
      if e.caughtBy [.valueError, .runtimeError, .osError] then (db, .ok []) else (db, .error e)

/-- The current message, found from the end. -/
def currentUserMsg (messages : List AnyMessage) : Option AnyMessage :=
  messages.reverse.find? (·.body.human?.isSome)

/-- "If get_context already stored the current user message".
mirrors imperator_flow.py:418-427 -/
def dropStored (history : List Body) (messages : List AnyMessage) : List Body :=
  match history.getLast?, messages.getLast? with
  | some (.human stored), some ⟨_, .human current⟩ => if stored = current then history.dropLast else history
  | _, _ => history

/-- History and messages as they are assembled (#549).
mirrors imperator_flow.py:408-427 -/
def reconcile (history : List Body) (messages : List AnyMessage) : List Body × List AnyMessage :=
  if history = [] ∨ messages = [] then (history, messages)
  else
    let messages := match currentUserMsg messages with
      | some m => [m]
      | none => messages
    (dropStored history messages, messages)

/-- `[system_msg] + history_messages + messages`.
mirrors imperator_flow.py:429-430 -/
def assembled (systemContent : Text) (history : List Body) (messages : List AnyMessage) : List Returned :=
  let r := reconcile history messages
  made (.system systemContent) :: r.1.map made ++ r.2.map fun m => ⟨some m.id, m.body⟩

/-- mirrors imperator_flow.py:267-433 -/
def initContextNode (t : Turn) : Turn × Option Exn :=
  match env.prompt with
  | .error e =>
    if e.caughtBy [.runtimeError] then
      ({ t with state := { t.state.add [made (.ai configurationError [])] with
                             responseText := some configurationError, error := some (.promptLoading e) } }, none)
    else (t, some e)
  | .ok systemContent =>
    let userQuery := lastHuman t.state.messages
    match domainLookup env userQuery with
    | .error e => (t, some e)
    | .ok domain =>
      match loadContext env config t userQuery domain with
      | (db, .error e) => ({ t with db }, some e)
      | (db, .ok entries) =>
        let s := t.state.add (assembled systemContent (historyMessages env systemContent entries) t.state.messages)
        ({ db, state := { s with ceacContextMessages := entries
                                 userMessageStored := s.userMessageStored ||
                                   (truthy userQuery).isSome && t.state.contextWindowId.isSome } }, none)

end Init

/-! ## The loop -/

section Loop

variable (env : Env) (config : ImperatorConfig)

/-- `except Exception` lets a cancellation through.
mirrors imperator_flow.py:436-523 -/
def ceacEnrichmentNode (t : Turn) : Turn × Option Exn :=
  if !config.ceacEnabled || t.state.ceacContextMessages.isEmpty ||
      (truthy (lastHuman t.state.messages)).isNone then (t, none)
  else
    match env.enrichment with
    | .ok enriched =>
      if strip enriched = [] then (t, none)
      else ({ t with state := t.state.add [made (.system enriched)] }, none)
    | .error e => (t, if e.isA .cancelledError then some e else none)

/-- CB-R3-06. mirrors imperator_flow.py:556-566 -/
def truncateMessages (maxReactMessages : Int) (messages : List Body) : List Body :=
  if maxReactMessages < messages.length then
    let cut := (messages.length - (maxReactMessages - 1)).toNat
    messages.take 1 ++ (messages.drop cut).dropWhile (·.isTool)
  else messages

/-- One message of the sanitized list: of two `HumanMessage`s or `AIMessage`s
in a row the later one is kept. mirrors imperator_flow.py:571-592 -/
def sanitizeOne (sanitized : List Body) (msg : Body) : List Body :=
  match sanitized.getLast?, msg with
  | some (.human _), .human _ => sanitized.dropLast ++ [msg]
  | some (.ai _ _), .ai _ _ => sanitized.dropLast ++ [msg]
  | _, _ => sanitized ++ [msg]

def sanitize (messages : List Body) : List Body := messages.foldl sanitizeOne []

/-- Text content or tool calls. -/
def ModelReply.isValid (r : ModelReply) : Bool := strip r.content ≠ [] || r.toolCalls ≠ []

/-- `left` more attempts follow an empty response.
mirrors imperator_flow.py:608-639 -/
def invokeModel (iteration : Nat) (messages : List Body) : Nat → Nat → Except Exn ModelReply
  | attempt, 0 => env.model iteration attempt messages
  | attempt, left + 1 => do
    let r ← env.model iteration attempt messages
    if r.isValid then return r else invokeModel iteration messages (attempt + 1) left

def modelError : Text := "I encountered an error processing your request.".toList

/-- mirrors imperator_flow.py:526-644 -/
def llmCallNode (t : Turn) : Turn × Option Exn :=
  let messages := sanitize (truncateMessages config.maxReactMessages (t.state.messages.map (·.body)))
  match invokeModel env t.state.iterationCount messages 0 2 with
  | .ok r =>
    ({ t with state := { t.state.add [made (.ai r.content r.toolCalls)] with
                           iterationCount := t.state.iterationCount + 1 } }, none)
  | .error e =>
    if e.caughtBy [.openaiApiError, .httpxHttpError, .valueError, .runtimeError] then
      ({ t with state := { t.state.add [made (.ai modelError [])] with
                             responseText := some modelError, error := some (.model e) } }, none)
    else (t, some e)

def IDENTITY_MARKER : Text := "Imperator".toList

/-- The message keeps `init_context_node` from running. -/
def isIdentity : Body → Bool
  | .system content => decide (IDENTITY_MARKER <:+: content)
  | _ => false

inductive Node where
  | initContextNode | ceacEnrichmentNode | llmCallNode | toolNode | maxIterationsFallback
  | storeUserMessage | storeAssistantMessage
  deriving DecidableEq, Repr

/-- mirrors imperator_flow.py:647-664 -/
def needsInit (s : ImperatorState) : Node :=
  if s.messages.any (isIdentity ·.body) then .llmCallNode else .initContextNode

/-- The tool calls of the last message. -/
def pendingCalls (s : ImperatorState) : List ToolCall :=
  match s.messages.getLast? with
  | some ⟨_, .ai _ calls⟩ => calls
  | _ => []

/-- mirrors imperator_flow.py:667-693 -/
def shouldContinue (s : ImperatorState) : Node :=
  if s.error.isSome || (pendingCalls s).isEmpty then .storeUserMessage
  else if config.maxIterations ≤ s.iterationCount then .maxIterationsFallback
  else .toolNode

/-- `ToolNode`: one message for each call. -/
def toolNode (t : Turn) : Turn × Option Exn :=
  match (pendingCalls t.state).mapM fun call => (env.tool t.state.iterationCount call).map (Body.tool · call.id) with
  | .ok bodies => ({ t with state := t.state.add (bodies.map made) }, none)
  | .error e => (t, some e)

def fallbackText : Text :=
  "I was unable to complete that request within the allowed number of steps. Please try again, or break the request into smaller parts.".toList

/-- mirrors imperator_flow.py:696-712 -/
def maxIterationsFallback (t : Turn) : Turn × Option Exn :=
  ({ t with state := t.state.add [made (.ai fallbackText [])] }, none)

end Loop

/-! ## The store nodes -/

section Stores

variable (env : Env) (config : ImperatorConfig)

/-- `except (ValueError, RuntimeError, OSError)` around a store. -/
def storeOutcome (t : Turn) (out : Db × Except Exn Unit) : Turn × Option Exn :=
  match out with
  | (db, .ok ()) => ({ t with db }, none)
  | (db, .error e) =>
    ({ t with db }, if e.caughtBy [.valueError, .runtimeError, .osError] then none else some e)

/-- mirrors imperator_flow.py:715-764 -/
def storeUserMessage (t : Turn) : Turn × Option Exn :=
  match t.state.contextWindowId, truthy (lastHuman t.state.messages) with
  | some key, some content =>
    if t.state.userMessageStored then (t, none)
    else
      storeOutcome t
        (dispatchStoreMessage env.now env.storeUser t.db key .user config.requestUser config.hostname content)
  | _, _ => (t, none)

def emptyReply : Text :=
  "I was unable to generate a response. This may be due to a temporary provider issue. Please try again.".toList

/-- mirrors imperator_flow.py:774-805 -/
def replyText (messages : List AnyMessage) : Text :=
  let text := (messages.reverse.findSome? (·.body.reply?)).getD []
  if strip text = [] then emptyReply else text

def isFallback (text : Text) : Bool := "I was unable to generate".toList.isPrefixOf text

/-- A fallback text is not kept.
mirrors imperator_flow.py:767-834 -/
def storeAssistantMessage (t : Turn) : Turn × Option Exn :=
  let text := replyText t.state.messages
  let t := { t with state := { t.state with responseText := some text } }
  match t.state.contextWindowId with
  | none => (t, none)
  | some key =>
    if isFallback text then (t, none)
    else
      storeOutcome t
        (dispatchStoreMessage env.now env.storeAssistant t.db key .assistant config.hostname config.requestUser text)

end Stores

/-! ## The graph -/

def runNode (env : Env) (config : ImperatorConfig) : Node → Turn → Turn × Option Exn
  | .initContextNode => initContextNode env config
  | .ceacEnrichmentNode => ceacEnrichmentNode env config
  | .llmCallNode => llmCallNode env config
  | .toolNode => toolNode env
  | .maxIterationsFallback => maxIterationsFallback
  | .storeUserMessage => storeUserMessage env config
  | .storeAssistantMessage => storeAssistantMessage env config

/-- mirrors imperator_flow.py:874-899 -/
def route (config : ImperatorConfig) : Node → Turn → Option Node
  | .initContextNode, _ => some .ceacEnrichmentNode
  | .ceacEnrichmentNode, _ => some .llmCallNode
  | .llmCallNode, t => some (shouldContinue config t.state)
  | .toolNode, _ => some .llmCallNode
  | .maxIterationsFallback, _ => some .storeUserMessage
  | .storeUserMessage, _ => some .storeAssistantMessage
  | .storeAssistantMessage, _ => none

/-- `GraphRecursionError` is a `RuntimeError`.
mirrors imperator_flow.py:840-903 -/
def imperatorFlow (env : Env) (config : ImperatorConfig) : Workflow Node Turn Exn :=
  { node := runNode env config, route := route config, limitError := .runtimeError }

def invoke (env : Env) (config : ImperatorConfig) (t : Turn) : Turn × Option Exn :=
  (imperatorFlow env config).run config.recursionLimit (needsInit t.state) t

/-! ## Sample environment -/

/-- Every call is answered, and the model says "Hello.". -/
def plainEnv : Env :=
  { config := defaultConfig, prompt := .ok "You are the Imperator.".toList, domainRows := .ok []
    getContext := { assembly := calm ['s'] }, toolCalls := fun _ => none
    model := fun _ _ _ => .ok { content := "Hello.".toList }, tool := fun _ _ => .ok [], alone := fun _ => rfl }

def plainConfig : ImperatorConfig := { requestUser := "mira".toList, hostname := "broker".toList }

/-- Conversation 0 with one message. -/
def greetedDb : Db := broker.run [.createConversation none 0, say "mira" 3]

end ContextBroker.Imperator
