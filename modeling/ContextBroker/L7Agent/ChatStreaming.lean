import ContextBroker.L7Agent.Fallbacks

/-!
# The chat endpoint, streaming and not

`chat_completions` runs the Imperator's flow. Without streaming it answers with
the `response_text` of the final state. With streaming it sends the content of
the `on_chat_model_stream` events of the run. Which events a model emits is
LangChain's part and a parameter; `Documented` is what `get_chat_model` says of
it, that only a model constructed to stream emits any. None is: the flow takes
such a model when the state has `_streaming`, which neither path puts there, and
the kernel's context could not make one.

`agree_iff`: so, if that is so, a run that comes to its end is streamed as a
finished answer without content, whether it has a response or an error.
-/
namespace ContextBroker.ChatStreaming

open Imperator
open Retrieval (truthy)

/-! ## Chat models and their events -/

structure ChatModel where
  streaming : Bool
  deriving DecidableEq, Repr

/-- mirrors app/config.py:469-514 -/
def getChatModel (streaming : Bool := false) : ChatModel := { streaming }

/-- The kernel's context has no parameter for streaming.
mirrors _kernel_ctx.py:58-61 -/
def ctxGetChatModel : ChatModel := getChatModel

/-- `_streaming` in the initial state. -/
def initialStreaming : Option Bool := none

/-- The model of `llm_call_node`, or the `TypeError` of the context.
mirrors imperator_flow.py:541-552 -/
def turnLlm (streaming : Option Bool) : Except Exn ChatModel :=
  if streaming = some true then .error .typeError else .ok ctxGetChatModel

/-- What the models answer, in chunks of content, and the `on_chat_model_stream`
events of a call that is answered so. -/
structure Chunks where
  /-- The Imperator's model, by iteration and attempt. -/
  attempt : Nat → Nat → List Text
  /-- The calls inside `get_context`, the CEAc flow and the tools. -/
  nested : Node → Turn → List (List Text)
  events : ChatModel → List Text → List Text

/-- `streaming`: "Required for astream_events to emit on_chat_model_stream
events." app/config.py:482-483 -/
def Chunks.Documented (chunks : Chunks) : Prop :=
  ∀ model answer, model.streaming = false → chunks.events model answer = []

variable (env : Env) (config : ImperatorConfig) (chunks : Chunks)

/-- The attempts of `invokeModel`. -/
def attemptsMade (iteration : Nat) (messages : List Body) : Nat → Nat → List Nat
  | attempt, 0 => [attempt]
  | attempt, left + 1 =>
    match env.model iteration attempt messages with
    | .error _ => [attempt]
    | .ok r => if r.isValid then [attempt] else attempt :: attemptsMade iteration messages (attempt + 1) left

def ownEvents (t : Turn) : List Text :=
  match turnLlm initialStreaming with
  | .error _ => []
  | .ok model =>
    let messages := sanitize (truncateMessages config.maxReactMessages (t.state.messages.map (·.body)))
    (attemptsMade env t.state.iterationCount messages 0 2).flatMap fun attempt =>
      chunks.events model (chunks.attempt t.state.iterationCount attempt)

def nodeEvents (visit : Node × Turn) : List Text :=
  (chunks.nested visit.1 visit.2).flatMap (chunks.events ctxGetChatModel) ++
    if visit.1 = .llmCallNode then ownEvents env config chunks visit.2 else []

/-- The events of a run, as `astream_events` reports them. -/
def turnEvents (t : Turn) : List Text := (turnVisits env config t).flatMap (nodeEvents env config chunks)

/-! ## The endpoint -/

structure ChatMessage where
  role : Role
  content : Option Text
  /-- What `AIMessage` makes of `tool_calls or []`. -/
  toolCalls : Except Exn (List ToolCall) := .ok []
  toolCallId : Option Text := none

/-- What a stream has sent: the content deltas, and whether the last chunk with
`finish_reason` "stop" has followed or an exception has ended it. -/
structure Sent where
  deltas : List Text
  finished : Bool := false
  raised : Option Exn := none
  deriving DecidableEq, Repr

inductive Failure where
  | answered (status : Nat) (message : Text)
  | raised (e : Exn)
  deriving DecidableEq, Repr

inductive Response where
  | failed (failure : Failure)
  /-- 500, with the flow's own error. -/
  | flowError (e : TurnError)
  | completion (content : Text)
  | stream (sent : Sent)
  deriving DecidableEq, Repr

/-- The LangChain message of a client's message. A class that refuses the content
raises a `ValidationError`.
mirrors app/routes/chat.py:110-132 -/
def toBody (m : ChatMessage) : Except Exn Body :=
  match m.role, m.content with
  | .tool, content => .ok (.tool (content.getD "None".toList) ((truthy m.toolCallId).getD "unknown".toList))
  | .assistant, some content => m.toolCalls.map (.ai content)
  | .system, some content => .ok (.system content)
  | .user, some content | .other _, some content => .ok (.human content)
  | _, none => .error .valueError

/-- Up to the initial state of the flow. The request is none if it is not JSON,
and the text of its `ValidationError`; `key` is the window it names or the
Imperator's own.
mirrors app/routes/chat.py:40-150 -/
def prepare (request : Option (Except Text (List ChatMessage))) (config : Except Exn ImperatorConfig)
    (key : Except Exn (Option (Option Id))) : Except Failure (ImperatorConfig × ImperatorState) :=
  match request with
  | none => .error (.answered 400 "Invalid JSON".toList)
  | some (.error message) => .error (.answered 422 message)
  | some (.ok messages) =>
    match config with
    | .error e =>
      if e.caughtBy [.osError, .runtimeError, .valueError] then
        .error (.answered 500 "Configuration unavailable".toList)
      else .error (.raised e)
    | .ok config =>
      if messages.all (·.role ≠ .user) then .error (.answered 400 "At least one user message is required".toList)
      else
        match key, messages.mapM toBody with
        | .error e, _ | _, .error e => .error (.raised e)
        | .ok key, .ok client => .ok (config, initialState client key)

def clientErrors : List Exn := [.runtimeError, .connectionError, .osError]

def streamError : Text := "An error occurred processing your request.".toList

/-- mirrors app/routes/chat.py:194-265 -/
def streamImperatorResponse (events : List Text) (raised : Option Exn) : Sent :=
  let tokens := events.filter (· ≠ [])
  match raised with
  | none => { deltas := tokens, finished := true }
  | some e =>
    if e.caughtBy clientErrors then { deltas := tokens ++ [streamError], finished := true }
    else { deltas := tokens, raised := some e }

/-- mirrors app/routes/chat.py:34-191 -/
def chatCompletions (request : Option (Except Text (List ChatMessage))) (stream : Bool)
    (config : Except Exn ImperatorConfig) (key : Except Exn (Option (Option Id))) (db : Db) : Response :=
  match prepare request config key with
  | .error failure => .failed failure
  | .ok (config, state) =>
    let (t, raised) := invoke env config ⟨db, state⟩
    if stream then .stream (streamImperatorResponse (turnEvents env config chunks ⟨db, state⟩) raised)
    else
      match raised, t.state.error with
      | some e, _ =>
        .failed (if e.caughtBy clientErrors then .answered 500 "Internal server error".toList else .raised e)
      | none, some e => .flowError e
      | none, none => .completion (t.state.responseText.getD [])

/-- The two answers to one request: the same content, and an error not as a
finished answer without content. -/
def Agree : Response → Response → Prop
  | .completion content, .stream sent => sent.deltas.flatten = content
  | _, .stream sent => ¬ (sent.finished ∧ sent.deltas.flatten = [])
  | answer, other => answer = other

/-! ## No events -/

variable {env config chunks}

theorem nodeEvents_nil (h : chunks.Documented) (visit : Node × Turn) : nodeEvents env config chunks visit = [] := by
  have hnested : (chunks.nested visit.1 visit.2).flatMap (chunks.events ctxGetChatModel) = [] :=
    List.flatMap_eq_nil_iff.mpr fun answer _ => h _ answer rfl
  have hown : ownEvents env config chunks visit.2 = [] := List.flatMap_eq_nil_iff.mpr fun attempt _ => h _ _ rfl
  rw [nodeEvents, hnested, hown, ite_self, List.append_nil]

/-- No model of a run was constructed to stream. -/
theorem turnEvents_nil (h : chunks.Documented) (t : Turn) : turnEvents env config chunks t = [] :=
  List.flatMap_eq_nil_iff.mpr fun visit _ => nodeEvents_nil h visit

/-! ## The end of a run -/

/-- The run comes to `store_assistant_message`, which lets no exception out. -/
def Ends (env : Env) (config : ImperatorConfig) (t : Turn) : Prop :=
  ∃ t', (Node.storeAssistantMessage, t') ∈ turnVisits env config t ∧ (storeAssistantMessage env config t').2 = none

theorem replyText_ne_nil (messages : List AnyMessage) : replyText messages ≠ [] := by
  unfold replyText
  dsimp only
  split
  · decide
  · rename_i hstrip
    intro hnil
    rw [hnil] at hstrip
    exact hstrip rfl

theorem storeAssistantMessage_responseText (t : Turn) :
    (storeAssistantMessage env config t).1.state.responseText = some (replyText t.state.messages) := by
  unfold storeAssistantMessage storeOutcome
  dsimp only
  split
  · rfl
  · split
    · rfl
    · split <;> rfl

theorem route_none {n : Node} {t : Turn} (h : route config n t = none) : n = .storeAssistantMessage := by
  cases n <;> first | rfl | cases h

/-- Before the last node the path does not have it; the run ends well exactly
if it is there and lets nothing out, and then there is a text. -/
theorem traced_ends :
    (imperatorFlow env config).traced.Annotated (fun _ x => ∀ t', (Node.storeAssistantMessage, t') ∉ x.2)
      fun e x =>
        (e = none ↔ ∃ t', (Node.storeAssistantMessage, t') ∈ x.2 ∧ (storeAssistantMessage env config t').2 = none) ∧
          (e = none → ∃ text, text ≠ [] ∧ x.1.state.responseText = some text) := by
  apply Workflow.traced_annotated
  case raises =>
    intro n t t' e path hpath hnode
    refine ⟨iff_of_false (by simp) ?_, by simp⟩
    intro ⟨t₀, hmem, hquiet⟩
    rcases List.mem_append.mp hmem with hmem | hmem
    · exact hpath t₀ hmem
    · obtain ⟨rfl, rfl⟩ := Prod.mk.inj (List.mem_singleton.mp hmem)
      have hraised : (storeAssistantMessage env config t₀).2 = some e := congrArg Prod.snd hnode
      rw [hquiet] at hraised
      cases hraised
  case ends =>
    intro n t t' path hpath hnode hroute
    obtain rfl := route_none hroute
    have hquiet : (storeAssistantMessage env config t).2 = none := congrArg Prod.snd hnode
    have hstate : (storeAssistantMessage env config t).1 = t' := congrArg Prod.fst hnode
    refine ⟨iff_of_true rfl ⟨t, by simp, hquiet⟩, fun _ => ?_⟩
    exact ⟨_, replyText_ne_nil t.state.messages, hstate ▸ storeAssistantMessage_responseText t⟩
  case moves =>
    intro n t t' m path hpath _ hroute t₀ hmem
    rcases List.mem_append.mp hmem with hmem | hmem
    · exact hpath t₀ hmem
    · obtain ⟨rfl, rfl⟩ := Prod.mk.inj (List.mem_singleton.mp hmem)
      cases hroute
  case stops =>
    intro n t path hpath
    exact ⟨iff_of_false (by simp) fun ⟨t₀, hmem, _⟩ => hpath t₀ hmem, by simp⟩

theorem invoke_ends (t : Turn) :
    ((invoke env config t).2 = none ↔ Ends env config t) ∧
      ((invoke env config t).2 = none →
        ∃ text, text ≠ [] ∧ (invoke env config t).1.state.responseText = some text) := by
  have hrun := (@traced_ends env config).run config.recursionLimit (needsInit t.state) (t, []) fun _ => List.not_mem_nil
  have heq := @Workflow.run_traced _ _ _ (imperatorFlow env config) config.recursionLimit (needsInit t.state) t []
  have hstate : ((imperatorFlow env config).traced.run config.recursionLimit (needsInit t.state) (t, [])).1.1 =
      (invoke env config t).1 := congrArg Prod.fst heq
  have hraised : ((imperatorFlow env config).traced.run config.recursionLimit (needsInit t.state) (t, [])).2 =
      (invoke env config t).2 := congrArg Prod.snd heq
  rw [hraised, hstate] at hrun
  exact hrun

/-! ## Agreement -/

/-- What the two paths answer to one run. -/
theorem agree_run (h : chunks.Documented) (t : Turn) (out : Turn × Option Exn) (hout : invoke env config t = out) :
    Agree
        (match out.2, out.1.state.error with
          | some e, _ =>
            .failed (if e.caughtBy clientErrors then .answered 500 "Internal server error".toList else .raised e)
          | none, some e => .flowError e
          | none, none => .completion (out.1.state.responseText.getD []))
        (.stream (streamImperatorResponse (turnEvents env config chunks t) out.2)) ↔
      ¬ Ends env config t := by
  obtain ⟨hends, htext⟩ := @invoke_ends env config t
  rw [hout] at hends htext
  rw [turnEvents_nil h]
  obtain ⟨t', raised⟩ := out
  cases raised with
  | some e =>
    refine iff_of_true ?_ fun h => by cases hends.mpr h
    unfold streamImperatorResponse
    by_cases hcaught : e.caughtBy clientErrors
    · simp only [hcaught, if_true]
      exact fun h => absurd h.2 (by decide)
    · simp only [hcaught, Bool.false_eq_true, if_false]
      exact fun h => by cases h.1
  | none =>
    refine iff_of_false ?_ fun h => h (hends.mp rfl)
    cases herror : t'.state.error with
    | some e => exact fun h => h ⟨rfl, rfl⟩
    | none =>
      obtain ⟨text, hne, heq⟩ := htext rfl
      intro h
      rw [heq] at h
      exact hne (h : [] = text).symm

/-- **Streaming and non-streaming chat** agree on a request exactly if no run
comes to its end on it. -/
theorem agree_iff (env : Env) (chunks : Chunks) (hchunks : chunks.Documented)
    (request : Option (Except Text (List ChatMessage))) (config : Except Exn ImperatorConfig)
    (key : Except Exn (Option (Option Id))) (db : Db) :
    Agree (chatCompletions env chunks request false config key db)
        (chatCompletions env chunks request true config key db) ↔
      ∀ c state, prepare request config key = .ok (c, state) → ¬ Ends env c ⟨db, state⟩ := by
  unfold chatCompletions
  cases hprepare : prepare request config key with
  | error failure => exact iff_of_true rfl fun _ _ h => by cases h
  | ok prepared =>
    obtain ⟨c, state⟩ := prepared
    have hrun := @agree_run env c chunks hchunks ⟨db, state⟩ _ rfl
    constructor
    · intro h c' state' heq
      obtain ⟨rfl, rfl⟩ := Prod.mk.inj (Except.ok.inj heq)
      exact hrun.mp h
    · exact fun h => hrun.mpr (h c state rfl)

def hiRequest : Option (Except Text (List ChatMessage)) := some (.ok [{ role := .user, content := some "Hi".toList }])

def helloChunks : Chunks where
  attempt _ _ := ["Hel".toList, "lo.".toList]
  nested _ _ := []
  events model answer := if model.streaming then answer else []

theorem helloChunks_documented : helloChunks.Documented := by
  intro model answer h
  simp [helloChunks, h]

theorem hello_answers :
    chatCompletions plainEnv helloChunks hiRequest false (.ok plainConfig) (.ok (some (some 0))) greetedDb =
        .completion "Hello.".toList ∧
      chatCompletions plainEnv helloChunks hiRequest true (.ok plainConfig) (.ok (some (some 0))) greetedDb =
        .stream { deltas := [], finished := true } := by
  decide +kernel

theorem agree_iff_hello : ∃ c state, prepare hiRequest (.ok plainConfig) (.ok (some (some 0))) = .ok (c, state) ∧
    Ends plainEnv c ⟨greetedDb, state⟩ := by
  by_contra hnone
  have hagree := (agree_iff plainEnv helloChunks helloChunks_documented hiRequest (.ok plainConfig)
    (.ok (some (some 0))) greetedDb).mpr fun c state hprepare hends => hnone ⟨c, state, hprepare, hends⟩
  rw [hello_answers.1, hello_answers.2] at hagree
  have hne : ([] : List Text).flatten ≠ "Hello.".toList := by decide
  exact hne hagree

/-- "Hello." is answered and not streamed; and a model that cannot be reached
is an error, and the same empty stream. -/
theorem hello_not_streamed : helloChunks.Documented ∧
    ¬ Agree (chatCompletions plainEnv helloChunks hiRequest false (.ok plainConfig) (.ok (some (some 0))) greetedDb)
        (chatCompletions plainEnv helloChunks hiRequest true (.ok plainConfig) (.ok (some (some 0))) greetedDb) ∧
      ¬ Agree (chatCompletions mutedEnv helloChunks hiRequest false (.ok plainConfig) (.ok (some (some 0))) greetedDb)
        (chatCompletions mutedEnv helloChunks hiRequest true (.ok plainConfig) (.ok (some (some 0))) greetedDb) := by
  have herror : chatCompletions mutedEnv helloChunks hiRequest false (.ok plainConfig) (.ok (some (some 0))) greetedDb =
      .flowError (.model .openaiApiError) := by decide +kernel
  have hempty : chatCompletions mutedEnv helloChunks hiRequest true (.ok plainConfig) (.ok (some (some 0))) greetedDb =
      .stream { deltas := [], finished := true } := by decide +kernel
  rw [hello_answers.1, hello_answers.2, herror, hempty]
  refine ⟨helloChunks_documented, fun h => ?_, fun h => h ⟨rfl, rfl⟩⟩
  have hne : ([] : List Text).flatten ≠ "Hello.".toList := by decide
  exact hne h

end ContextBroker.ChatStreaming
