import ContextBroker.L1Data.Json
import ContextBroker.L3Assembly.Unrolled
import ContextBroker.L7Agent.Imperator

/-!
# Tool calls in the history

`store_message` writes `tool_calls` as JSON text into a JSONB column. asyncpg
hands a JSONB column back as text unless the connection has a codec, and
`init_postgres` registers none, so every retrieval returns a string where a
list was stored (`tool_calls_never_survive`). `Included.survives_iff` is for
any codec: the list comes back exactly when the codec reads it from the text.

`AIMessage` refuses a string, and the loop over the context is left with the
exception: the history ends before that message (`history_ends`).
-/
namespace ContextBroker.Imperator

open Retrieval RunLength

/-! ## The column -/

/-- `jsonb` is the text Postgres has for a JSON document.
mirrors message_pipeline.py:237-241 -/
def encodeToolCalls (jsonb : Text → Text) (calls : List Json) : Option Text :=
  if calls = [] then none else some (jsonb (dumps (.arr calls)))

/-- A JSONB column as asyncpg returns it: its text, or what the codec of the
connection makes of it. -/
def columnValue (codec : Option (Text → Json)) (text : Text) : Json :=
  match codec with
  | none => .str text
  | some loads => loads text

/-- No codec is registered. mirrors app/database.py:22-45 -/
def poolCodec : Option (Text → Json) := none

/-- `tool_calls` of an entry. -/
def toolCallsValue (codec : Option (Text → Json)) (e : Entry) : Option Json := e.toolCalls.map (columnValue codec)

/-- An entry has the list that was stored, and the id. -/
structure Survives (codec : Option (Text → Json)) (calls : List Json) (callId : Option Text) (e : Entry) : Prop where
  toolCalls : toolCallsValue codec e = some (.arr calls)
  toolCallId : e.toolCallId = callId

/-! ## Messages in an answer -/

/-- After the run `evs`, the message `x` with the tool calls `calls` is in the
answer of a retrieval, as the entry `e` of the row it is kept in. -/
structure Included (jsonb : Text → Text) (evs : List Event) (buildType : BuildType) (calls : List Json) (x : Payload)
    (e : Entry) : Prop where
  calls_ne_nil : calls ≠ []
  encoded : x.toolCalls = encodeToolCalls jsonb calls
  answer : ∃ config env w domain st entries win,
    retrieve config env (broker.run evs) w domain buildType = .ok st ∧ st.contextMessages = some entries ∧
      e ∈ entries ∧ (broker.run evs).window? w = some win ∧ x ∈ acceptedIn win.conversationId evs ∧
        ∃ m ∈ (broker.run evs).messagesOf win.conversationId,
          (m.payload = x ∨ sameMessage m.payload x = true) ∧ e = messageEntry m

section

variable {jsonb : Text → Text} {evs : List Event} {buildType : BuildType} {calls : List Json} {x : Payload} {e : Entry}

/-- The entry has the columns of the first message of a run. -/
theorem Included.first (h : Included jsonb evs buildType calls x e) :
    ∃ c, ∃ first ∈ acceptedIn c evs, x ∈ acceptedIn c evs ∧ (first = x ∨ sameMessage first x = true) ∧
      e.toolCalls = truthy first.toolCalls ∧ e.toolCallId = truthy first.toolCallId := by
  obtain ⟨_, _, _, _, _, _, win, _, _, _, _, hx, m, hm, hrow, rfl⟩ := h.answer
  refine ⟨_, m.payload, ?_, hx, hrow, rfl, rfl⟩
  have hrun : m.payload ∈ ((broker.run evs).runs win.conversationId).map Prod.fst :=
    List.mem_map_of_mem (List.mem_map_of_mem hm)
  rw [(runs_run evs win.conversationId).2] at hrun
  exact (map_fst_pushAll _).subset hrun

/-- **Tool calls and the codec** of the pool. -/
theorem survives_iff (codec : Option (Text → Json)) (callId : Option Text) :
    Survives codec calls callId e ↔ ∃ loads text, codec = some loads ∧ e.toolCalls = some text ∧
      loads text = .arr calls ∧ e.toolCallId = callId := by
  constructor
  · intro ⟨hcalls, hid⟩
    obtain ⟨text, htext, hvalue⟩ := Option.map_eq_some_iff.mp hcalls
    cases codec with
    | none => cases hvalue
    | some loads => exact ⟨loads, text, rfl, htext, hvalue, hid⟩
  · rintro ⟨loads, text, rfl, htext, hvalue, hid⟩
    refine ⟨?_, hid⟩
    rw [toolCallsValue, htext, Option.map_some, ← hvalue]
    rfl

/-- **Tool calls never survive**, in any run and any build type: an entry has
the text of the first message of its run. -/
theorem tool_calls_never_survive (jsonb : Text → Text) (evs : List Event) (buildType : BuildType) (calls : List Json)
    (x : Payload) (e : Entry) (h : Included jsonb evs buildType calls x e) :
    ¬ Survives poolCodec calls x.toolCallId e ∧
      ∃ c, ∃ first ∈ acceptedIn c evs, x ∈ acceptedIn c evs ∧ (first = x ∨ sameMessage first x = true) ∧
        toolCallsValue poolCodec e = (truthy first.toolCalls).map .str ∧ e.toolCallId = truthy first.toolCallId := by
  refine ⟨fun hs => ?_, ?_⟩
  · obtain ⟨loads, _, hcodec, _⟩ := (survives_iff poolCodec _).mp hs
    cases hcodec
  · obtain ⟨c, first, hfirst, hx, hrow, htext, hid⟩ := h.first
    exact ⟨c, first, hfirst, hx, hrow, by rw [toolCallsValue, htext]; rfl, hid⟩

end

/-- One call. -/
def sampleCalls : List Json := [.obj [("id".toList, .str "k".toList), ("name".toList, .str "search".toList)]]

/-- An assistant message with it, in conversation 0. -/
def sampleCallRun : List Event :=
  opened .tieredSummary 80 ++
    [.store (.message 0 { conversationIdInput := some 0, role := .assistant, sender := "m".toList
                          content := some "ok".toList, toolCalls := encodeToolCalls id sampleCalls })]

def samplePayload : Payload :=
  { role := .assistant, sender := "m".toList, recipient := "user".toList, content := some "ok".toList
    toolCalls := encodeToolCalls id sampleCalls, toolCallId := none, modelName := none }

def sampleEntry : Entry :=
  { role := .assistant, content := some "ok".toList, toolCalls := encodeToolCalls id sampleCalls, name := some "m".toList }

theorem included_sample : Included id sampleCallRun .tieredSummary sampleCalls samplePayload sampleEntry := by
  obtain ⟨st, hst, hout⟩ := exists_ok
    (x := retrieve defaultConfig {} (broker.run sampleCallRun) 1 none .tieredSummary)
    (p := fun st => decide (st.contextMessages = some [sampleEntry])) (by decide +kernel)
  have hrow : ((broker.run sampleCallRun).window? 1).any (fun win : Window =>
      samplePayload ∈ acceptedIn win.conversationId sampleCallRun ∧
        ∃ m ∈ (broker.run sampleCallRun).messagesOf win.conversationId,
          (m.payload = samplePayload ∨ sameMessage m.payload samplePayload = true) ∧ sampleEntry = messageEntry m) =
        true := by
    decide +kernel
  obtain ⟨win, hwin, hrow⟩ := (Option.any_eq_true _ _).mp hrow
  obtain ⟨hx, hm⟩ := of_decide_eq_true hrow
  exact ⟨List.cons_ne_nil _ _, rfl, defaultConfig, {}, 1, none, st, [sampleEntry], win, hst, of_decide_eq_true hout,
    List.mem_singleton_self _, hwin, hx, hm⟩

theorem tool_calls_never_survive_sample :
    ¬ Survives poolCodec sampleCalls samplePayload.toolCallId sampleEntry ∧
      ∃ c, ∃ first ∈ acceptedIn c sampleCallRun, samplePayload ∈ acceptedIn c sampleCallRun ∧
        (first = samplePayload ∨ sameMessage first samplePayload = true) ∧
          toolCallsValue poolCodec sampleEntry = (truthy first.toolCalls).map .str ∧
            sampleEntry.toolCallId = truthy first.toolCallId :=
  tool_calls_never_survive id sampleCallRun .tieredSummary sampleCalls samplePayload sampleEntry included_sample

/-- The call comes back as its text, a string. -/
theorem tool_calls_survive_false :
    ¬ ∀ (jsonb : Text → Text) (evs : List Event) (buildType : BuildType) (calls : List Json) (x : Payload) (e : Entry),
      Included jsonb evs buildType calls x e → Survives poolCodec calls x.toolCallId e := by
  intro h
  have hsurvives := h _ _ _ _ _ _ included_sample
  obtain ⟨_, _, hcodec, _⟩ := (survives_iff poolCodec none).mp hsurvives
  cases hcodec

/-! ## The history -/

/-- **The history ends** at the first entry a message class refuses. -/
theorem history_ends {env : Env} {systemContent : Text} {e : Entry} {exn : Exn}
    (h : historyMessage env systemContent e = .error exn) (before after : List Entry) :
    historyMessages env systemContent (before ++ e :: after) = historyMessages env systemContent before := by
  induction before with
  | nil => simp [historyMessages, h]
  | cons b before ih =>
    simp only [List.cons_append, historyMessages, ih]

/-- `AIMessage` refuses a string as `tool_calls`. -/
theorem history_ends_at_calls {env : Env} (hrefuses : ∀ text, env.toolCalls text = none) (systemContent : Text)
    {e : Entry} (hrole : e.role = .assistant) (hcalls : (toolCallsValue poolCodec e).isSome) (before after : List Entry) :
    historyMessages env systemContent (before ++ e :: after) = historyMessages env systemContent before := by
  obtain ⟨text, htext⟩ : ∃ text, e.toolCalls = some text := by
    simpa [toolCallsValue, Option.isSome_iff_exists] using hcalls
  have hrefused : historyMessage env systemContent e = .error .valueError := by
    unfold historyMessage
    cases hcontent : e.content with
    | none => simp [hrole]
    | some content => simp [hrole, htext, hrefuses]
  exact history_ends hrefused before after

end ContextBroker.Imperator
