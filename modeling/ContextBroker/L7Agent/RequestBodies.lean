import ContextBroker.L1Data.JsonValues

/-!
# Request bodies

`POST /mcp` and `POST /v1/chat/completions`: a body is decoded, validated against
its model, and answered. Some of the stages are inside a `try`, and each clause
takes its own classes. The models' fields are checked as pydantic checks them;
what it makes of a scalar, langchain's messages, the tools and the flow are
parameters.

Every answer is a JSONResponse, which raises a ValueError for what no JSON in UTF-8
stands for: half of a surrogate pair, or a number that is not finite.

`bodies_answered_iff` says which bodies are answered. A value that is no object
raises a TypeError in `Model(**body)`, and so do arguments that are null.
-/
namespace ContextBroker.RequestBodies

/-! ## Bodies -/

/-- What `request.json()` makes of a JSON value. -/
inductive Reading where
  | read
  /-- An integer of too many digits, a ValueError. -/
  | refused
  /-- A RecursionError. -/
  | tooDeep
  deriving DecidableEq, Repr

inductive Body where
  /-- A JSONDecodeError or a UnicodeDecodeError. -/
  | notJson
  | json (v : JsonValue) (reading : Reading)

abbrev Fields := List (PyStr × JsonValue)

/-- `body.get("id")` -/
def idOf (fields : Fields) : JsonValue := (lookupKey fields "id").getD .null

/-! ### Rendering -/

mutual

/-- `json.dumps(value, ensure_ascii=False, allow_nan=False).encode("utf-8")` -/
def renders : JsonValue → Bool
  | .null => true
  | .bool _ => true
  | .number n => n.finite
  | .str s => s.encodable
  | .arr items => rendersItems items
  | .obj fields => rendersFields fields

def rendersItems : List JsonValue → Bool
  | [] => true
  | v :: items => renders v && rendersItems items

def rendersFields : List (PyStr × JsonValue) → Bool
  | [] => true
  | (key, v) :: fields => key.encodable && renders v && rendersFields fields

end

/-! ## Exceptions -/

/-- An exception by the clauses that take it, with its text. A ValidationError is a
ValueError, a RecursionError a RuntimeError, a ConnectionError an OSError. -/
inductive Raised where
  | value (text : PyStr)
  | runtime (text : PyStr)
  | os (text : PyStr)
  | other
  deriving DecidableEq, Repr

/-- `await request.json()` -/
def Body.decoded : Body → Except Raised JsonValue
  | .notJson => .error (.value [])
  | .json v reading =>
    match reading with
    | .read => .ok v
    | .refused => .error (.value [])
    | .tooDeep => .error (.runtime [])

/-! ## Models -/

inductive Role where
  | system | user | assistant | tool
  deriving DecidableEq, Repr

structure ChatMessage where
  role : Role
  content : Option PyStr
  toolCalls : Option (List Fields)
  toolCallId : Option PyStr

structure ChatCompletionRequest where
  model : PyStr
  messages : List ChatMessage
  stream : Bool

structure MCPToolCall where
  id : JsonValue
  method : PyStr
  params : Fields

structure Lib where
  /-- Pydantic takes the string for a `str`. -/
  str : PyStr → Bool
  /-- Its lax `bool`; none is a ValidationError. -/
  bool : JsonValue → Option Bool
  /-- `Optional[float] = Field(None, ge=0.0, le=2.0)` -/
  temperature : JsonValue → Bool
  /-- `Optional[int] = Field(None, ge=1)` -/
  maxTokens : JsonValue → Bool
  /-- `Optional[str] = Field(None, max_length=255)` -/
  user : JsonValue → Bool
  /-- `str(exc)` of the ValidationError of a chat request. -/
  invalid : Fields → Text
  /-- langchain's class takes content and tool calls. -/
  message : ChatMessage → Bool
  /-- `str(value)` of a value that is no string. -/
  format : JsonValue → Text
  /-- `str(exc)` of the ValueError of a JSONResponse. -/
  unrendered : Text

section

variable (lib : Lib)

def strField (fallback : Option PyStr) : Option JsonValue → Option PyStr
  | none => fallback
  | some (.str s) => if lib.str s then some s else none
  | some _ => none

/-- `Optional[str] = None` -/
def optionalStr : Option JsonValue → Option (Option PyStr)
  | none => some none
  | some .null => some none
  | some (.str s) => if lib.str s then some (some s) else none
  | some _ => none

/-- `dict` -/
def dict : JsonValue → Option Fields
  | .obj fields => some fields
  | _ => none

/-- `^(system|user|assistant|tool)$` -/
def roleField : Option JsonValue → Option Role
  | some (.str s) =>
    [("system", Role.system), ("user", .user), ("assistant", .assistant), ("tool", .tool)].findSome? fun (name, role) =>
      if s = pyStr name.toList then some role else none
  | _ => none

/-- `Optional[list[dict]] = None` -/
def toolCallsField : Option JsonValue → Option (Option (List Fields))
  | none => some none
  | some .null => some none
  | some (.arr items) => (items.mapM dict).map some
  | some _ => none

/-- mirrors app/models.py:306-312 -/
def chatMessage (v : JsonValue) : Option ChatMessage := do
  let fields ← dict v
  let role ← roleField (lookupKey fields "role")
  let content ← optionalStr lib (lookupKey fields "content")
  let toolCalls ← toolCallsField (lookupKey fields "tool_calls")
  let toolCallId ← optionalStr lib (lookupKey fields "tool_call_id")
  some { role, content, toolCalls, toolCallId }

/-- `list[ChatMessage] = Field(..., min_length=1)` -/
def messagesField : Option JsonValue → Option (List ChatMessage)
  | some (.arr items) => if items.isEmpty then none else items.mapM (chatMessage lib)
  | _ => none

/-- mirrors app/models.py:315-323 -/
def chatCompletionRequest (fields : Fields) : Option ChatCompletionRequest := do
  let model ← strField lib (some (pyStr "context-broker".toList)) (lookupKey fields "model")
  let messages ← messagesField lib (lookupKey fields "messages")
  let stream ← (lookupKey fields "stream").elim (some false) lib.bool
  guard ((lookupKey fields "temperature").all lib.temperature)
  guard ((lookupKey fields "max_tokens").all lib.maxTokens)
  guard ((lookupKey fields "user").all lib.user)
  some { model, messages, stream }

/-- `dict[str, Any]` with the default of no params. -/
def paramsField : Option JsonValue → Option Fields
  | none => some []
  | some (.obj fields) => if fields.all fun field => lib.str field.1 then some fields else none
  | some _ => none

/-- mirrors app/models.py:331-337 -/
def mcpToolCall (fields : Fields) : Option MCPToolCall := do
  let _ ← strField lib (some (pyStr "2.0".toList)) (lookupKey fields "jsonrpc")
  let method ← strField lib none (lookupKey fields "method")
  let params ← paramsField lib (lookupKey fields "params")
  some { id := idOf fields, method, params }

end

/-! ## `POST /mcp` -/

inductive Result where
  | handshake
  /-- The schemas name the build types; `rendered` if JSON stands for the names. -/
  | tools (rendered : Bool)
  | content (text : PyStr)
  | queued
  deriving DecidableEq, Repr

inductive Outcome where
  | result (r : Result)
  | error (code : Int) (message : PyStr)
  deriving DecidableEq, Repr

/-- `{"jsonrpc": "2.0", "id": id, "result" or "error": …}` -/
structure Envelope where
  status : Nat
  id : JsonValue
  outcome : Outcome

def Outcome.encodable : Outcome → Bool
  | .result (.content text) => text.encodable
  | .result (.tools rendered) => rendered
  | .result _ => true
  | .error _ message => message.encodable

def Envelope.renders (e : Envelope) : Bool := RequestBodies.renders e.id && e.outcome.encodable

/-- `JSONResponse(…)`; none is an exception that leaves the handler. -/
def respond (e : Envelope) : Option Envelope := if e.renders then some e else none

/-- `config["imperator"]` -/
inductive Section where
  | missing | mapping | other
  deriving DecidableEq, Repr

/-- `load_config().get("build_types", {})` -/
inductive BuildTypes where
  | missing
  | mapping (rendered : Bool)
  /-- Null or a list. -/
  | other
  deriving DecidableEq, Repr

/-- The session the query names; the id is not empty. -/
inductive Session where
  | sessionless
  | unknown (id : Text)
  | disconnected (id : Text)
  | full
  | queued
  deriving DecidableEq, Repr

def toolNames : List String :=
  ["get_context", "store_message", "search_messages", "search_knowledge", "conv_create_conversation",
   "conv_delete_conversation", "conv_rename_conversation", "conv_list_conversations", "conv_store_message",
   "conv_retrieve_context", "conv_create_context_window", "conv_search", "conv_search_messages", "conv_get_history",
   "conv_search_context_windows", "query_logs", "search_logs", "knowledge_search", "imperator_chat", "knowledge_add",
   "knowledge_list", "knowledge_feedback", "metrics_get", "install_stategraph"]

/-- What an MCP request meets. -/
structure Mcp where
  /-- `async_load_config()` -/
  config : Except Raised Section
  /-- The tool's input model and flow, and the text of the result. -/
  run : String → Fields → Except Raised PyStr
  session : Session
  /-- What `load_te_config()` raises. -/
  teConfig : Option Raised := none
  buildTypes : Except Raised BuildTypes := .ok .missing

section

variable (lib : Lib) (env : Mcp)

def str (text : String) : PyStr := pyStr text.toList

/-- `f"{value}"` -/
def formatted : JsonValue → PyStr
  | .str s => s
  | v => pyStr (lib.format v)

def toolOf : JsonValue → Option String
  | .str s => toolNames.find? fun name => s = str name
  | _ => none

/-- mirrors app/flows/tool_dispatch.py:121-816 -/
def dispatchTool (toolName arguments : JsonValue) : Except Raised PyStr :=
  match toolOf toolName with
  | none => .error (.value (str "Unknown tool: " ++ formatted lib toolName))
  | some tool =>
    match arguments with
    | .obj fields =>
      if tool = "install_stategraph" ∧ ((lookupKey fields "package_name").getD (.str [])).isTrue = false then
        .error (.value (str "package_name is required"))
      else env.run tool fields
    -- `Input(**arguments)` is a TypeError, `arguments.get` an AttributeError
    | _ => .error .other

/-- mirrors app/routes/mcp.py:269-342 -/
def sessionReply (id : JsonValue) (text : PyStr) : Session → Envelope
  | .sessionless => ⟨200, id, .result (.content text)⟩
  | .unknown session => ⟨404, id, .error (-32001) (str "Session not found: " ++ pyStr session)⟩
  | .disconnected session => ⟨404, id, .error (-32001) (str "Session disconnected: " ++ pyStr session)⟩
  | .full => ⟨503, id, .error (-32000) (str "Session queue full — client is not consuming events fast enough")⟩
  | .queued => ⟨200, id, .result .queued⟩

/-- The `try` of a tool call, after the tool; the ValueError of a response in it is
caught too. mirrors app/routes/mcp.py:269-363 -/
def ranReply (id : JsonValue) (session : Session) : Except Raised PyStr → Option Envelope
  | .ok text =>
    (respond (sessionReply id text session)).or (respond ⟨400, id, .error (-32602) (pyStr lib.unrendered)⟩)
  | .error (.value text) => respond ⟨400, id, .error (-32602) text⟩
  | .error (.runtime text) | .error (.os text) => respond ⟨500, id, .error (-32000) text⟩
  | .error .other => none

/-- mirrors app/routes/mcp.py:264-267 -/
def toolReply (id toolName arguments : JsonValue) : Option Envelope :=
  ranReply lib id env.session (dispatchTool lib env toolName arguments)

/-- Whether JSON stands for the list; none is an exception that leaves the handler.
mirrors app/routes/mcp.py:368-392 -/
def getToolList : Option Bool :=
  match env.teConfig, env.buildTypes with
  | some .other, _ | _, .error .other => none
  | _, .error _ | _, .ok .missing => some true
  | _, .ok (.mapping rendered) => some rendered
  -- `keys` is an AttributeError
  | _, .ok .other => none

/-- mirrors app/routes/mcp.py:194-262 -/
def callReply (call : MCPToolCall) : Option Envelope :=
  if call.method = str "initialize" then respond ⟨200, call.id, .result .handshake⟩
  else if call.method = str "tools/list" then
    (getToolList env).bind fun rendered => respond ⟨200, call.id, .result (.tools rendered)⟩
  else if call.method ≠ str "tools/call" then
    respond ⟨400, call.id, .error (-32601) (str "Method not found: " ++ call.method)⟩
  else
    match env.config with
    | .error (.value text) | .error (.runtime text) | .error (.os text) =>
      respond ⟨500, call.id, .error (-32000) (str "Configuration unavailable: " ++ text)⟩
    | .error .other => none
    -- `**config.get("imperator", {})`
    | .ok .other => none
    | .ok _ =>
      toolReply lib env call.id ((lookupKey call.params "name").getD (.str (str "unknown")))
        ((lookupKey call.params "arguments").getD (.obj []))

/-- mirrors app/routes/mcp.py:181-192 -/
def objectReply (fields : Fields) : Option Envelope :=
  match mcpToolCall lib fields with
  | none => respond ⟨400, idOf fields, .error (-32600) (str "Invalid Request")⟩
  | some call => callReply lib env call

/-- mirrors app/routes/mcp.py:156-192 -/
def mcpToolCallReply (body : Body) : Option Envelope :=
  match body.decoded with
  | .error (.value _) => respond ⟨400, .null, .error (-32700) (str "Parse error")⟩
  | .error _ => none
  | .ok (.obj fields) => objectReply lib env fields
  -- `MCPToolCall(**body)` is a TypeError
  | .ok _ => none

end

/-! ## `POST /v1/chat/completions` -/

inductive Chunk where
  | token (content : PyStr)
  | stop
  /-- "An error occurred processing your request." -/
  | failed
  deriving DecidableEq, Repr

inductive ChatReply where
  | completion (model : PyStr) (content : Option PyStr)
  /-- The chunks, and "[DONE]" after them. -/
  | stream (chunks : List Chunk)
  /-- `{"error": {"message": …, "type": …}}` -/
  | error (status : Nat) (message : PyStr) (kind : String)
  deriving DecidableEq, Repr

def ChatReply.renders : ChatReply → Bool
  | .completion model content => model.encodable && content.all PyStr.encodable
  | .stream _ => true
  | .error _ message _ => message.encodable

def respondChat (r : ChatReply) : Option ChatReply := if r.renders then some r else none

structure FlowResult where
  /-- Empty for None. -/
  error : PyStr
  responseText : Option PyStr
  deriving DecidableEq, Repr

/-- What a chat request meets. -/
structure Chat where
  config : Except Raised Section
  /-- One of the headers names a window. -/
  header : Bool
  /-- `imperator_manager.get_context_window_id()`; none without a manager. -/
  manager : Option (Except Raised (Option Id))
  /-- `invoke_with_metrics(initial_state)` -/
  flow : Except Raised FlowResult
  tokens : List PyStr
  /-- What ends the tokens of a stream. -/
  failure : Option Raised

section

variable (lib : Lib) (env : Chat)

/-- mirrors app/routes/chat.py:99-106 -/
def windowGiven (fields : Fields) : Bool :=
  env.header || ((lookupKey fields "context_window_id").any JsonValue.isTrue ||
    (lookupKey fields "conversation_id").any JsonValue.isTrue)

/-- mirrors app/routes/chat.py:194-265 -/
def streamReply : Option ChatReply :=
  let tokens := (env.tokens.filter (· ≠ [])).map Chunk.token
  match env.failure with
  | none => some (.stream (tokens ++ [.stop]))
  | some (.runtime _) | some (.os _) => some (.stream (tokens ++ [.failed]))
  | some _ => none

/-- mirrors app/routes/chat.py:152-191 -/
def completionReply (request : ChatCompletionRequest) : Option ChatReply :=
  if request.stream then streamReply env
  else
    match env.flow with
    | .ok result =>
      if result.error ≠ [] then respondChat (.error 500 result.error "internal_error")
      else respondChat (.completion request.model result.responseText)
    | .error (.runtime _) | .error (.os _) =>
      respondChat (.error 500 (str "Internal server error") "internal_error")
    | .error _ => none

/-- mirrors app/routes/chat.py:82-142 -/
def requestReply (imperator : Section) (fields : Fields) (request : ChatCompletionRequest) : Option ChatReply :=
  if request.messages.all fun m => m.role ≠ .user then
    respondChat (.error 400 (str "At least one user message is required") "invalid_request_error")
  else
    match if windowGiven env fields then none else env.manager with
    | some (.error _) => none
    | _ =>
      -- `**config.get("imperator", {})` again
      if request.messages.all lib.message ∧ imperator ≠ .other then completionReply env request else none

/-- mirrors app/routes/chat.py:51-78 -/
def chatObjectReply (fields : Fields) : Option ChatReply :=
  match chatCompletionRequest lib fields with
  | none => respondChat (.error 422 (pyStr (lib.invalid fields)) "invalid_request_error")
  | some request =>
    match env.config with
    | .error .other => none
    | .error _ => respondChat (.error 500 (str "Configuration unavailable") "internal_error")
    | .ok imperator => requestReply lib env imperator fields request

/-- mirrors app/routes/chat.py:33-78 -/
def chatCompletions (body : Body) : Option ChatReply :=
  match body.decoded with
  | .error (.value _) => respondChat (.error 400 (str "Invalid JSON") "invalid_request_error")
  | .error _ => none
  | .ok (.obj fields) => chatObjectReply lib env fields
  | .ok _ => none

end

/-! ## What is expected -/

/-- An envelope, with the id of the body if that is an object. -/
def McpAnswered (body : Body) (reply : Option Envelope) : Prop :=
  ∃ e, reply = some e ∧ ∀ fields reading, body = .json (.obj fields) reading → e.id = idOf fields

/-- A completion or an error object. -/
def ChatAnswered (reply : Option ChatReply) : Prop := ∃ r, reply = some r

/-- The clauses of `POST /mcp` take it, and its text can be sent. -/
def Raised.Sendable : Raised → Prop
  | .value text | .runtime text | .os text => text.encodable = true
  | .other => False

/-- The clauses of a chat request take it. -/
def Raised.Broken : Raised → Prop
  | .runtime _ | .os _ => True
  | .value _ | .other => False

section

variable (lib : Lib) (env : Mcp) (chat : Chat)

/-- The arguments of a tool are an object, and its run raises nothing else. -/
def ToolFits (toolName arguments : JsonValue) : Prop :=
  match toolOf toolName with
  | none => (formatted lib toolName).encodable = true
  | some tool => ∃ fields, arguments = .obj fields ∧
    (tool = "install_stategraph" ∧ ((lookupKey fields "package_name").getD (.str [])).isTrue = false ∨
      ∀ e, env.run tool fields = .error e → e.Sendable)

/-- The build types are missing, or a mapping with names that JSON stands for, or the
load raises what is taken. -/
def ListFits : Prop :=
  env.teConfig ≠ some .other ∧
    match env.buildTypes with
    | .error e => e ≠ .other
    | .ok buildTypes => buildTypes = .missing ∨ buildTypes = .mapping true

def CallFits (call : MCPToolCall) : Prop :=
  call.method = str "initialize" ∨
    if call.method = str "tools/list" then ListFits env
    else if call.method = str "tools/call" then
      match env.config with
      | .error e => e.Sendable
      | .ok imperator => imperator ≠ .other ∧
        ToolFits lib env ((lookupKey call.params "name").getD (.str (str "unknown")))
          ((lookupKey call.params "arguments").getD (.obj []))
    else call.method.encodable = true

/-- An object whose id JSON stands for, and if it is valid, a call that fits. What
cannot be decoded is answered without an id. -/
def McpFits : Body → Prop
  | .notJson => True
  | .json v reading =>
    match reading with
    | .refused => ∀ fields, v = .obj fields → idOf fields = .null
    | .tooDeep => False
    | .read => ∃ fields, v = .obj fields ∧ renders (idOf fields) = true ∧
      ∀ call, mcpToolCall lib fields = some call → CallFits lib env call

/-- The flow, or the stream, ends as the clauses have it. -/
def FlowFits (request : ChatCompletionRequest) : Prop :=
  if request.stream then ∀ e, chat.failure = some e → e.Broken
  else match chat.flow with
    | .error e => e.Broken
    | .ok result =>
      if result.error ≠ [] then result.error.encodable = true
      else request.model.encodable = true ∧ ∀ text, result.responseText = some text → text.encodable = true

/-- No user message, or: the window is found, langchain takes the messages, and the
flow fits. -/
def RequestFits (imperator : Section) (fields : Fields) (request : ChatCompletionRequest) : Prop :=
  (∀ m ∈ request.messages, m.role ≠ .user) ∨
    (windowGiven chat fields = true ∨ ∀ e, chat.manager ≠ some (.error e)) ∧
    (∀ m ∈ request.messages, lib.message m = true) ∧ imperator ≠ .other ∧ FlowFits chat request

def ChatFits : Body → Prop
  | .notJson => True
  | .json v reading =>
    match reading with
    | .refused => True
    | .tooDeep => False
    | .read => ∃ fields, v = .obj fields ∧ ∀ request, chatCompletionRequest lib fields = some request →
      match chat.config with
      | .error e => e ≠ .other
      | .ok imperator => RequestFits lib chat imperator fields request

end

section

variable {lib : Lib} {env : Mcp} {chat : Chat} {id : JsonValue} {e : Envelope}

/-! ### Answers of `POST /mcp` -/

theorem encodable_append (s t : PyStr) : PyStr.encodable (s ++ t) = (s.encodable && t.encodable) := List.all_append

theorem encodable_str_append (text : String) (s : PyStr) : PyStr.encodable (str text ++ s) = s.encodable := by
  rw [encodable_append, str, encodable_pyStr, Bool.true_and]

/-- An envelope with this id. -/
def Echoes (id : JsonValue) (reply : Option Envelope) : Prop := ∃ e, reply = some e ∧ e.id = id

/-- A response echoes its id exactly if it can be rendered. -/
theorem echoes_respond {status : Nat} {outcome : Outcome} : Echoes id (respond ⟨status, id, outcome⟩) ↔
    renders id = true ∧ outcome.encodable = true := by
  rw [← Bool.and_eq_true]
  constructor
  · rintro ⟨e, heq, _⟩
    exact (Option.ite_none_right_eq_some.mp heq).1
  · exact fun h => ⟨_, if_pos h, rfl⟩

theorem not_echoes_none : ¬ Echoes id none := fun ⟨_, h, _⟩ => nomatch h

theorem sessionReply_id (text : PyStr) (session : Session) : (sessionReply id text session).id = id := by
  cases session <;> rfl

/-- The text of a tool is sent, or the error that it cannot be. -/
theorem echoes_sent {text : PyStr} {session : Session} :
    Echoes id (ranReply lib id session (.ok text)) ↔ renders id = true := by
  rw [ranReply]
  have herror : Echoes id (respond ⟨400, id, .error (-32602) (pyStr lib.unrendered)⟩) ↔
      renders id = true ∧ (pyStr lib.unrendered).encodable = true := echoes_respond
  by_cases hsent : (sessionReply id text session).renders = true
  · rw [respond, if_pos hsent, Option.some_or]
    have hid := (Bool.and_eq_true_iff.mp hsent).1
    rw [sessionReply_id] at hid
    exact iff_of_true ⟨_, rfl, sessionReply_id text session⟩ hid
  · rw [respond, if_neg hsent, Option.none_or, herror]
    exact and_iff_left (encodable_pyStr _)

/-- What the run of a tool comes to is answered exactly if the clauses take it. -/
theorem echoes_ran {r : Except Raised PyStr} {session : Session} :
    Echoes id (ranReply lib id session r) ↔ renders id = true ∧ ∀ e, r = .error e → e.Sendable := by
  cases r with
  | ok text => exact echoes_sent.trans (and_iff_left fun _ h => nomatch h).symm
  | error e =>
    have hforall : (∀ e', (Except.error e : Except Raised PyStr) = .error e' → e'.Sendable) ↔ e.Sendable :=
      ⟨fun h => h e rfl, fun h e' heq => Except.error.inj heq ▸ h⟩
    rw [hforall]
    cases e with
    | value text | runtime text | os text => exact echoes_respond
    | other => exact iff_of_false not_echoes_none And.right

theorem echoes_toolReply {toolName arguments : JsonValue} : Echoes id (toolReply lib env id toolName arguments) ↔
    renders id = true ∧ ToolFits lib env toolName arguments := by
  unfold toolReply
  rw [echoes_ran]
  refine and_congr_right fun _ => ?_
  unfold dispatchTool ToolFits
  cases toolOf toolName with
  | none =>
    simp only [Except.error.injEq, forall_eq', Raised.Sendable, encodable_str_append]
  | some tool =>
    cases arguments with
    | obj fields =>
      simp only [JsonValue.obj.injEq, exists_eq_left']
      split
      · rename_i hmissing
        simp only [Except.error.injEq, forall_eq', Raised.Sendable]
        exact iff_of_true (encodable_pyStr _) (.inl hmissing)
      · rename_i hrun
        exact (or_iff_right hrun).symm
    | null | bool _ | number _ | str _ | arr _ => simp [Raised.Sendable]

/-- The list of tools is answered exactly if the build types allow it. -/
theorem echoes_toolList :
    Echoes id ((getToolList env).bind fun rendered => respond ⟨200, id, .result (.tools rendered)⟩) ↔
      renders id = true ∧ ListFits env := by
  have hlist : getToolList env = some true ↔ ListFits env := by
    unfold getToolList ListFits
    cases env.teConfig with
    | none =>
      cases env.buildTypes with
      | error e => cases e <;> simp
      | ok buildTypes => cases buildTypes <;> simp
    | some te =>
      cases env.buildTypes with
      | error e => cases te <;> cases e <;> simp
      | ok buildTypes => cases te <;> cases buildTypes <;> simp
  rw [← hlist]
  cases getToolList env with
  | none => exact iff_of_false not_echoes_none fun h => nomatch h.2
  | some rendered =>
    rw [Option.bind_some, echoes_respond, Outcome.encodable, Option.some.injEq]

theorem echoes_callReply {call : MCPToolCall} :
    Echoes call.id (callReply lib env call) ↔ renders call.id = true ∧ CallFits lib env call := by
  unfold callReply CallFits
  by_cases hinitialize : call.method = str "initialize"
  · rw [if_pos hinitialize, echoes_respond]
    exact and_congr_right fun _ => iff_of_true rfl (.inl hinitialize)
  rw [if_neg hinitialize, or_iff_right hinitialize]
  by_cases hlist : call.method = str "tools/list"
  · rw [if_pos hlist, if_pos hlist]
    exact echoes_toolList
  rw [if_neg hlist, if_neg hlist]
  by_cases hcall : call.method = str "tools/call"
  · rw [if_neg (not_not_intro hcall), if_pos hcall]
    cases env.config with
    | error e =>
      cases e with
      | value text | runtime text | os text =>
        exact echoes_respond.trans (and_congr_right fun _ => by rw [Outcome.encodable, encodable_str_append]; rfl)
      | other => exact iff_of_false not_echoes_none And.right
    | ok imperator =>
      cases imperator with
      | other => exact iff_of_false not_echoes_none fun h => h.2.1 rfl
      | missing | mapping =>
        exact echoes_toolReply.trans (and_congr_right fun _ => (and_iff_right Section.noConfusion).symm)
  · rw [if_pos hcall, if_neg hcall, echoes_respond, Outcome.encodable, encodable_str_append]

theorem mcpToolCall_id {fields : Fields} {call : MCPToolCall} (h : mcpToolCall lib fields = some call) :
    call.id = idOf fields := by
  obtain ⟨_, _, h⟩ := Option.bind_eq_some_iff.mp h
  obtain ⟨_, _, h⟩ := Option.bind_eq_some_iff.mp h
  obtain ⟨_, _, h⟩ := Option.bind_eq_some_iff.mp h
  exact Option.some.inj h ▸ rfl

theorem echoes_objectReply {fields : Fields} : Echoes (idOf fields) (objectReply lib env fields) ↔
    renders (idOf fields) = true ∧ ∀ call, mcpToolCall lib fields = some call → CallFits lib env call := by
  unfold objectReply
  cases hcall : mcpToolCall lib fields with
  | none => exact echoes_respond.trans (and_congr_right fun _ => iff_of_true (encodable_pyStr _) fun _ h => nomatch h)
  | some call =>
    rw [← mcpToolCall_id hcall, echoes_callReply]
    simp only [Option.some.injEq, forall_eq']

/-- **`POST /mcp`** answers exactly the bodies that fit. -/
theorem mcpAnswered_iff (body : Body) :
    McpAnswered body (mcpToolCallReply lib env body) ↔ McpFits lib env body := by
  have hparse : respond ⟨400, .null, .error (-32700) (str "Parse error")⟩ =
      some ⟨400, .null, .error (-32700) (str "Parse error")⟩ := if_pos rfl
  cases body with
  | notJson => exact iff_of_true ⟨_, hparse, fun _ _ h => nomatch h⟩ trivial
  | json v reading =>
    cases reading with
    | refused =>
      constructor
      · rintro ⟨e, heq, hid⟩ fields rfl
        obtain rfl := Option.some.inj (hparse.symm.trans heq)
        exact (hid fields _ rfl).symm
      · intro h
        refine ⟨_, hparse, fun fields reading heq => ?_⟩
        exact (h fields (Body.json.inj heq).1).symm
    | tooDeep => exact iff_of_false (fun ⟨_, h, _⟩ => nomatch h) id
    | read =>
      cases v with
      | obj fields =>
        have hechoes : McpAnswered (.json (.obj fields) .read) (objectReply lib env fields) ↔
            Echoes (idOf fields) (objectReply lib env fields) := by
          constructor
          · exact fun ⟨e, heq, hid⟩ => ⟨e, heq, hid fields _ rfl⟩
          · rintro ⟨e, heq, hid⟩
            refine ⟨e, heq, fun fields' _ hfields => ?_⟩
            exact JsonValue.obj.inj (Body.json.inj hfields).1 ▸ hid
        refine hechoes.trans (echoes_objectReply.trans ?_)
        simp only [McpFits, JsonValue.obj.injEq, exists_eq_left']
      | null | bool _ | number _ | str _ | arr _ =>
        exact iff_of_false (fun ⟨_, h, _⟩ => nomatch h) fun ⟨_, h, _⟩ => nomatch h

/-! ### Answers of a chat request -/

theorem chatAnswered_respond {r : ChatReply} : ChatAnswered (respondChat r) ↔ r.renders = true := by
  constructor
  · exact fun ⟨_, h⟩ => (Option.ite_none_right_eq_some.mp h).1
  · exact fun h => ⟨r, if_pos h⟩

theorem not_chatAnswered_none : ¬ ChatAnswered none := fun ⟨_, h⟩ => nomatch h

theorem chatAnswered_streamReply : ChatAnswered (streamReply chat) ↔ ∀ e, chat.failure = some e → e.Broken := by
  unfold streamReply
  cases chat.failure with
  | none => exact iff_of_true ⟨_, rfl⟩ fun _ h => nomatch h
  | some e =>
    simp only [Option.some.injEq, forall_eq']
    cases e with
    | runtime _ | os _ => exact iff_of_true ⟨_, rfl⟩ trivial
    | value _ | other => exact iff_of_false not_chatAnswered_none id

theorem chatAnswered_completionReply {request : ChatCompletionRequest} :
    ChatAnswered (completionReply chat request) ↔ FlowFits chat request := by
  unfold completionReply FlowFits
  split
  · exact chatAnswered_streamReply
  cases chat.flow with
  | ok result =>
    dsimp only
    split
    · exact chatAnswered_respond
    · rw [chatAnswered_respond, ChatReply.renders, Bool.and_eq_true, Option.all_eq_true]
  | error e =>
    cases e with
    | runtime _ | os _ => exact iff_of_true (chatAnswered_respond.mpr (encodable_pyStr _)) trivial
    | value _ | other => exact iff_of_false not_chatAnswered_none id

theorem chatAnswered_requestReply {imperator : Section} {fields : Fields} {request : ChatCompletionRequest} :
    ChatAnswered (requestReply lib chat imperator fields request) ↔
      RequestFits lib chat imperator fields request := by
  have husers : (request.messages.all fun m => m.role ≠ .user) = true ↔ ∀ m ∈ request.messages, m.role ≠ .user := by
    simp only [List.all_eq_true, decide_eq_true_eq]
  unfold requestReply RequestFits
  by_cases hnone : ∀ m ∈ request.messages, m.role ≠ .user
  · rw [if_pos (husers.mpr hnone)]
    exact iff_of_true (chatAnswered_respond.mpr (encodable_pyStr _)) (.inl hnone)
  rw [if_neg (mt husers.mp hnone), or_iff_right hnone]
  have hconverted : ChatAnswered
        (if request.messages.all lib.message ∧ imperator ≠ .other then completionReply chat request else none) ↔
      (∀ m ∈ request.messages, lib.message m = true) ∧ imperator ≠ .other ∧ FlowFits chat request := by
    rw [← List.all_eq_true, ← and_assoc, ← chatAnswered_completionReply]
    split
    · rename_i h
      exact (and_iff_right h).symm
    · rename_i h
      exact iff_of_false not_chatAnswered_none fun h' => h h'.1
  by_cases hgiven : windowGiven chat fields = true
  · rw [if_pos hgiven]
    exact hconverted.trans (and_iff_right (.inl hgiven)).symm
  rw [if_neg hgiven, or_iff_right hgiven]
  cases chat.manager with
  | none => exact hconverted.trans (and_iff_right fun _ h => nomatch h).symm
  | some asked =>
    cases asked with
    | ok _ => exact hconverted.trans (and_iff_right fun _ h => nomatch h).symm
    | error e => exact iff_of_false not_chatAnswered_none fun h => h.1 e rfl

theorem chatAnswered_chatObjectReply {fields : Fields} : ChatAnswered (chatObjectReply lib chat fields) ↔
    ∀ request, chatCompletionRequest lib fields = some request →
      match chat.config with
      | .error e => e ≠ .other
      | .ok imperator => RequestFits lib chat imperator fields request := by
  unfold chatObjectReply
  cases chatCompletionRequest lib fields with
  | none => exact iff_of_true (chatAnswered_respond.mpr (encodable_pyStr _)) fun _ h => nomatch h
  | some request =>
    simp only [Option.some.injEq, forall_eq']
    cases chat.config with
    | ok imperator => exact chatAnswered_requestReply
    | error e =>
      cases e with
      | other => exact iff_of_false not_chatAnswered_none fun h => h rfl
      | value _ | runtime _ | os _ =>
        exact iff_of_true (chatAnswered_respond.mpr (encodable_pyStr _)) Raised.noConfusion

/-- **A chat request** is answered exactly if its body fits. -/
theorem chatAnswered_iff (body : Body) : ChatAnswered (chatCompletions lib chat body) ↔ ChatFits lib chat body := by
  have hinvalid : ChatAnswered (respondChat (.error 400 (str "Invalid JSON") "invalid_request_error")) :=
    chatAnswered_respond.mpr rfl
  cases body with
  | notJson => exact iff_of_true hinvalid trivial
  | json v reading =>
    cases reading with
    | refused => exact iff_of_true hinvalid trivial
    | tooDeep => exact iff_of_false not_chatAnswered_none id
    | read =>
      cases v with
      | obj fields =>
        refine Iff.trans (@chatAnswered_chatObjectReply lib chat fields) ?_
        simp only [ChatFits, JsonValue.obj.injEq, exists_eq_left']
      | null | bool _ | number _ | str _ | arr _ =>
        exact iff_of_false not_chatAnswered_none fun ⟨_, h, _⟩ => nomatch h

end

/-- **Bodies**: a body posted to `/mcp` gets an envelope that echoes its id, and one
posted to `/v1/chat/completions` a completion or an error object, exactly if it
fits the endpoint. -/
theorem bodies_answered_iff (lib : Lib) (mcp : Mcp) (chat : Chat) (body : Body) :
    (McpAnswered body (mcpToolCallReply lib mcp body) ↔ McpFits lib mcp body) ∧
      (ChatAnswered (chatCompletions lib chat body) ↔ ChatFits lib chat body) :=
  ⟨mcpAnswered_iff body, chatAnswered_iff body⟩

/-! ## A list as a body -/

/-- Pydantic and langchain, on what is not read twice: a message needs its content. -/
def plainLib : Lib where
  str := PyStr.encodable
  bool := fun
    | .bool b => some b
    | _ => none
  temperature _ := false
  maxTokens _ := false
  user _ := false
  invalid _ := []
  message m := m.content.isSome && m.toolCalls.isNone
  format _ := []
  unrendered := []

def quietMcp : Mcp := ⟨.ok .mapping, fun _ _ => .ok [], .sessionless, none, .ok .missing⟩

def quietChat : Chat := ⟨.ok .mapping, true, none, .ok ⟨[], some []⟩, [], none⟩

def field (key : String) (v : JsonValue) : PyStr × JsonValue := (str key, v)

/-- A call of `metrics_get` with null arguments. -/
def nullArguments : Body :=
  .json (.obj [field "method" (.str (str "tools/call")),
    field "params" (.obj [field "name" (.str (str "metrics_get")), field "arguments" .null])]) .read

/-- A user message with null content. -/
def nullContent : Body :=
  .json (.obj [field "messages" (.arr [.obj [field "role" (.str (str "user")), field "content" .null]])]) .read

/-- Neither endpoint answers `[]`, nor are null arguments or null content answered. -/
theorem list_not_answered :
    mcpToolCallReply plainLib quietMcp (.json (.arr []) .read) = none ∧
      chatCompletions plainLib quietChat (.json (.arr []) .read) = none ∧
      (mcpToolCallReply plainLib quietMcp nullArguments).isNone = true ∧
      chatCompletions plainLib quietChat nullContent = none ∧
      ¬ ∀ lib mcp chat body, McpAnswered body (mcpToolCallReply lib mcp body) ∧
        ChatAnswered (chatCompletions lib chat body) := by
  refine ⟨rfl, rfl, by decide +kernel, by decide +kernel, fun h => ?_⟩
  obtain ⟨⟨_, hmcp, _⟩, _⟩ := h plainLib quietMcp quietChat (.json (.arr []) .read)
  cases hmcp

end ContextBroker.RequestBodies
