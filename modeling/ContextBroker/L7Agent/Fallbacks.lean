import ContextBroker.L7Agent.PromptOrder

/-!
# The flow's own replies

Four nodes have a text of their own for when things go wrong: a prompt that
does not load, a model call that raises, the iteration limit, an empty
response. "Do not persist fallback error messages", says the node that
stores, and tells them by the prefix of the last one; the first three are
`AIMessage`s like any other to it.

`model_speaks_iff`: the text a turn stores is the model's exactly when every
model call of the turn answers, and no answer with tool calls comes after a
prompt that did not load or at the iteration limit; otherwise it is one of
the three.
-/
namespace ContextBroker.Imperator

open Retrieval

/-- What `llm_call_node` gets from the model.
mirrors imperator_flow.py:551-639 -/
def modelReply (env : Env) (config : ImperatorConfig) (t : Turn) : Except Exn ModelReply :=
  invokeModel env t.state.iterationCount
    (sanitize (truncateMessages config.maxReactMessages (t.state.messages.map (·.body)))) 0 2

/-- The message `store_assistant_message` reads.
mirrors imperator_flow.py:774-780 -/
def lastReply (messages : List AnyMessage) : Option AnyMessage := messages.reverse.find? (·.body.reply?.isSome)

/-- The text the node has stored.
mirrors imperator_flow.py:803-832 -/
def persisted (env : Env) (config : ImperatorConfig) (t : Turn) : Option Text :=
  let text := replyText t.state.messages
  match t.state.contextWindowId with
  | none => none
  | some key =>
    if isFallback text then none
    else
      match dispatchStoreMessage env.now env.storeAssistant t.db key .assistant config.hostname config.requestUser
          text with
      | (_, .ok ()) => some text
      | (_, .error _) => none

def flowReplies : List Text := [configurationError, modelError, fallbackText]

/-- The nodes of a turn. -/
abbrev Path := List (Node × Turn)

section

variable (env : Env) (config : ImperatorConfig)

def turnVisits (t : Turn) : Path := (imperatorFlow env config).visits config.recursionLimit (needsInit t.state) t

/-- The message read in `t` is what a model call on the path has answered, and
`text` is its text. -/
def FromModel (path : Path) (t : Turn) (text : Text) : Prop :=
  ∃ t₀ r, (Node.llmCallNode, t₀) ∈ path ∧ modelReply env config t₀ = .ok r ∧ r.toolCalls = [] ∧ r.content = text ∧
    lastReply t.state.messages = some ⟨t₀.state.nextId, .ai text []⟩

/-- The model call in `t` answers, and if it has tool calls they can run. -/
def Sound (t : Turn) : Prop :=
  ∃ r, modelReply env config t = .ok r ∧
    (r.toolCalls = [] ∨ t.state.error = none ∧ t.state.iterationCount + 1 < config.maxIterations)

def AllSound (path : Path) : Prop := ∀ t, (Node.llmCallNode, t) ∈ path → Sound env config t

end

/-! ## The last reply -/

section

variable {env : Env} {config : ImperatorConfig} {t t' : Turn} {messages : List AnyMessage}

theorem findSome?_eq_bind {α β : Type} (f : α → Option β) (l : List α) :
    l.findSome? f = (l.find? fun a => (f a).isSome).bind f := by
  induction l with
  | nil => rfl
  | cons a l ih => cases h : f a <;> simp [h, ih]

theorem replyText_of_lastReply {id : Nat} {content : Text} (h : lastReply messages = some ⟨id, .ai content []⟩) :
    replyText messages = if strip content = [] then emptyReply else content := by
  have hfind : messages.reverse.findSome? (·.body.reply?) = some content := by
    rw [findSome?_eq_bind]
    show (lastReply messages).bind _ = _
    rw [h]
    rfl
  rw [replyText, hfind]
  rfl

theorem lastReply_append (messages new : List AnyMessage) :
    lastReply (messages ++ new) = (lastReply new).or (lastReply messages) := by
  rw [lastReply, List.reverse_append, List.find?_append]
  rfl

/-- Messages that are no replies. -/
theorem lastReply_add (hs : t.state.Identified) (bodies : List Body) (h : ∀ b ∈ bodies, b.reply? = none) :
    lastReply (t.state.add (bodies.map made)).messages = lastReply t.state.messages := by
  have hnone : lastReply (assignIds t.state.nextId (bodies.map made)) = none := by
    refine List.find?_eq_none.mpr fun m hm => ?_
    have hbody : m.body ∈ (assignIds t.state.nextId (bodies.map made)).map (·.body) :=
      List.mem_map_of_mem (List.mem_reverse.mp hm)
    rw [assignIds_bodies] at hbody
    simp [h m.body hbody]
  rw [add_made hs, lastReply_append, hnone, Option.none_or]

/-- A reply. -/
theorem lastReply_add_ai (hs : t.state.Identified) (content : Text) :
    lastReply (t.state.add [made (.ai content [])]).messages = some ⟨t.state.nextId, .ai content []⟩ := by
  have hadd := add_made hs [.ai content []]
  rw [List.map_singleton] at hadd
  rw [hadd, lastReply_append]
  rfl

@[simp] theorem add_error (s : ImperatorState) (right : List Returned) : (s.add right).error = s.error := rfl

/-- What a node returns of the state keeps the ids apart. -/
theorem add_known_identified {s : ImperatorState} (hs : s.Identified) (bodies : List Body) {ms : List AnyMessage}
    (hms : ms ⊆ s.messages) : (s.add (bodies.map made ++ ms.map fun m => ⟨some m.id, m.body⟩)).Identified := by
  have hmade := add_made_identified hs bodies
  constructor
  · rw [add_known hs bodies hms]
    exact hmade.nodup
  · intro m hm
    rw [add_known hs bodies hms] at hm
    have hfresh := hmade.fresh m hm
    simp only [ImperatorState.add, List.length_append, List.length_map] at hfresh ⊢
    omega

/-! ## The nodes -/

/-- An error so far comes from the prompt, and the reply to it is the last one. -/
def Blamed (t : Turn) : Prop :=
  t.state.error.isSome = true → ∃ id, lastReply t.state.messages = some ⟨id, .ai configurationError []⟩

theorem initContextNode_blamed (hs : t.state.Identified) (herr : t.state.error = none)
    (h : initContextNode env config t = (t', none)) : t'.state.Identified ∧ Blamed t' := by
  unfold initContextNode at h
  split at h
  · split at h
    · obtain ⟨rfl, _⟩ := Prod.mk.inj h
      have hid := add_made_identified hs [.ai configurationError []]
      exact ⟨⟨hid.nodup, hid.fresh⟩, fun _ => ⟨_, lastReply_add_ai hs configurationError⟩⟩
    · cases h
  · rename_i systemContent _
    dsimp only at h
    split at h
    · cases h
    · split at h
      · cases h
      · rename_i db entries _
        obtain ⟨rfl, _⟩ := Prod.mk.inj h
        have hid := add_known_identified hs
          (.system systemContent :: (reconcile (historyMessages env systemContent entries) t.state.messages).1)
          (reconcile_subset (historyMessages env systemContent entries) t.state.messages)
        refine ⟨⟨hid.nodup, hid.fresh⟩, fun hsome => ?_⟩
        simp [herr] at hsome

theorem ceacEnrichmentNode_blamed (hs : t.state.Identified) (hb : Blamed t)
    (h : ceacEnrichmentNode env config t = (t', none)) : t'.state.Identified ∧ Blamed t' := by
  unfold ceacEnrichmentNode at h
  split at h
  · obtain ⟨rfl, _⟩ := Prod.mk.inj h
    exact ⟨hs, hb⟩
  · split at h
    · rename_i enriched _
      split at h
      · obtain ⟨rfl, _⟩ := Prod.mk.inj h
        exact ⟨hs, hb⟩
      · obtain ⟨rfl, _⟩ := Prod.mk.inj h
        refine ⟨add_made_identified hs [.system enriched], fun hsome => ?_⟩
        obtain ⟨id, hlast⟩ := hb hsome
        exact ⟨id, (lastReply_add hs [.system enriched] (by simp [Body.reply?])).trans hlast⟩
    · obtain ⟨rfl, _⟩ := Prod.mk.inj h
      exact ⟨hs, hb⟩

/-- What a model call leaves: the answer, or the error and the reply to it. -/
theorem llmCallNode_cases (h : llmCallNode env config t = (t', none)) :
    (∃ r, modelReply env config t = .ok r ∧
      t' = { t with state := { t.state.add [made (.ai r.content r.toolCalls)] with
                                 iterationCount := t.state.iterationCount + 1 } }) ∨
      ∃ e, modelReply env config t = .error e ∧
        t' = { t with state := { t.state.add [made (.ai modelError [])] with
                                   responseText := some modelError, error := some (.model e) } } := by
  unfold llmCallNode at h
  dsimp only at h
  split at h
  · rename_i r hr
    exact .inl ⟨r, hr, (Prod.mk.inj h).1.symm⟩
  · rename_i e he
    split at h
    · exact .inr ⟨e, he, (Prod.mk.inj h).1.symm⟩
    · cases h

theorem toolNode_identified (hs : t.state.Identified) (h : toolNode env t = (t', none)) :
    t'.state.Identified ∧ t'.state.error = t.state.error := by
  unfold toolNode at h
  split at h
  · rename_i bodies _
    obtain ⟨rfl, _⟩ := Prod.mk.inj h
    exact ⟨add_made_identified hs bodies, rfl⟩
  · cases h

theorem storeOutcome_state (t : Turn) (out : Db × Except Exn Unit) : (storeOutcome t out).1.state = t.state := by
  obtain ⟨db, _ | _⟩ := out <;> rfl

theorem storeUserMessage_state (h : storeUserMessage env config t = (t', none)) : t'.state = t.state := by
  have hfst := congrArg Prod.fst h
  unfold storeUserMessage at hfst
  split at hfst
  · split at hfst
    · exact congrArg Turn.state hfst.symm
    · exact (congrArg Turn.state hfst).symm.trans (storeOutcome_state t _)
  · exact congrArg Turn.state hfst.symm

/-- The calls that wait after an answer. -/
theorem pendingCalls_add (hs : t.state.Identified) (content : Text) (calls : List ToolCall) :
    pendingCalls (t.state.add [made (.ai content calls)]) = calls := by
  have hadd := add_made hs [.ai content calls]
  rw [List.map_singleton] at hadd
  rw [pendingCalls, hadd]
  simp [assignIds, made]

/-- Where the graph goes from an answer. -/
theorem shouldContinue_answer (hs : t.state.Identified) (r : ModelReply) :
    shouldContinue config { t.state.add [made (.ai r.content r.toolCalls)] with
        iterationCount := t.state.iterationCount + 1 } =
      if t.state.error.isSome || r.toolCalls.isEmpty then .storeUserMessage
      else if config.maxIterations ≤ (t.state.iterationCount + 1 : Nat) then .maxIterationsFallback
      else .toolNode := by
  have hpending : pendingCalls { t.state.add [made (.ai r.content r.toolCalls)] with
      iterationCount := t.state.iterationCount + 1 } = r.toolCalls := pendingCalls_add hs r.content r.toolCalls
  rw [shouldContinue, hpending]
  rfl

/-! ## The path -/

/-- The calls so far have answers, with tool calls that could run. -/
def Calling (env : Env) (config : ImperatorConfig) (path : Path) : Prop :=
  ∀ t, (Node.llmCallNode, t) ∈ path → Sound env config t ∧ ∀ r, modelReply env config t = .ok r → r.toolCalls ≠ []

/-- What the path says of the reply that is read in `t`. -/
def Settled (env : Env) (config : ImperatorConfig) (path : Path) (t : Turn) : Prop :=
  ((∃ text, FromModel env config path t text) ∧ AllSound env config path) ∨
    ((∀ text, ¬ FromModel env config path t text) ∧ ¬ AllSound env config path ∧
      replyText t.state.messages ∈ flowReplies)

/-- What holds before each node of a turn. -/
def OnPath (env : Env) (config : ImperatorConfig) : Node → Turn × Path → Prop
  | .initContextNode, (t, path) => t.state.Identified ∧ t.state.error = none ∧ path = []
  | .ceacEnrichmentNode, (t, path) | .llmCallNode, (t, path) =>
    t.state.Identified ∧ Blamed t ∧ Calling env config path ∧ ∀ t₀, (Node.storeAssistantMessage, t₀) ∉ path
  | .toolNode, (t, path) =>
    t.state.Identified ∧ t.state.error = none ∧ Calling env config path ∧
      ∀ t₀, (Node.storeAssistantMessage, t₀) ∉ path
  | .maxIterationsFallback, (t, path) =>
    t.state.Identified ∧ ¬ AllSound env config path ∧
      (∀ t₀ r, (Node.llmCallNode, t₀) ∈ path → modelReply env config t₀ = .ok r → r.toolCalls ≠ []) ∧
        ∀ t₀, (Node.storeAssistantMessage, t₀) ∉ path
  | .storeUserMessage, (t, path) | .storeAssistantMessage, (t, path) =>
    Settled env config path t ∧ ∀ t₀, (Node.storeAssistantMessage, t₀) ∉ path

variable {path : Path} {n : Node}

/-- Another node makes no call. -/
theorem mem_call_snoc (hn : n ≠ .llmCallNode) {t₀ : Turn} :
    (Node.llmCallNode, t₀) ∈ path ++ [(n, t)] ↔ (Node.llmCallNode, t₀) ∈ path := by
  simp [hn.symm]

theorem Calling.snoc (h : Calling env config path) (hn : n ≠ .llmCallNode) :
    Calling env config (path ++ [(n, t)]) := fun t₀ ht₀ => h t₀ ((mem_call_snoc hn).mp ht₀)

theorem Settled.snoc (h : Settled env config path t') (hn : n ≠ .llmCallNode) :
    Settled env config (path ++ [(n, t)]) t' := by
  simpa only [Settled, FromModel, AllSound, mem_call_snoc hn] using h

theorem no_store_snoc (h : ∀ t₀, (Node.storeAssistantMessage, t₀) ∉ path) (hn : n ≠ .storeAssistantMessage)
    (t₀ : Turn) : (Node.storeAssistantMessage, t₀) ∉ path ++ [(n, t)] := by
  simp [h t₀, hn.symm]

/-- No reply without tool calls, none to read. -/
theorem not_fromModel (h : ∀ t₀ r, (Node.llmCallNode, t₀) ∈ path → modelReply env config t₀ = .ok r → r.toolCalls ≠ []) :
    ∀ text, ¬ FromModel env config path t text := by
  intro text ⟨t₀, r, ht₀, hr, hnone, _⟩
  exact h t₀ r ht₀ hr hnone

theorem replyText_mem_flowReplies {id : Nat} {content : Text} (hmem : content ∈ flowReplies)
    (h : lastReply messages = some ⟨id, .ai content []⟩) : replyText messages ∈ flowReplies := by
  have htext : ∀ text ∈ flowReplies, strip text ≠ [] := by decide +kernel
  rw [replyText_of_lastReply h, if_neg (htext content hmem)]
  exact hmem

/-- A call more, and it is sound. -/
theorem Calling.allSound (hc : Calling env config path) (ht : Sound env config t) :
    AllSound env config (path ++ [(.llmCallNode, t)]) := by
  intro t₀ ht₀
  rcases List.mem_append.mp ht₀ with ht₀ | ht₀
  · exact (hc t₀ ht₀).1
  · obtain rfl := (Prod.mk.inj (List.mem_singleton.mp ht₀)).2
    exact ht

/-- A call more, and no answer to it is a reply. -/
theorem Calling.calls (hc : Calling env config path)
    (ht : ∀ r, modelReply env config t = .ok r → r.toolCalls ≠ []) (t₀ : Turn) (r : ModelReply)
    (ht₀ : (Node.llmCallNode, t₀) ∈ path ++ [(.llmCallNode, t)]) (hr : modelReply env config t₀ = .ok r) :
    r.toolCalls ≠ [] := by
  rcases List.mem_append.mp ht₀ with ht₀ | ht₀
  · exact (hc t₀ ht₀).2 r hr
  · obtain rfl := (Prod.mk.inj (List.mem_singleton.mp ht₀)).2
    exact ht r hr

/-- A call more that is not sound, and the flow replies. -/
theorem Calling.settled_own (hc : Calling env config path)
    (ht : ∀ r, modelReply env config t = .ok r → r.toolCalls ≠ []) (hunsound : ¬ Sound env config t)
    (hown : replyText t'.state.messages ∈ flowReplies) :
    Settled env config (path ++ [(.llmCallNode, t)]) t' :=
  .inr ⟨not_fromModel (hc.calls ht), fun hall => hunsound (hall t (by simp)), hown⟩

/-- An answer with tool calls is sound when they can run. -/
theorem sound_of_calls {r : ModelReply} (hr : modelReply env config t = .ok r) (hcalls : r.toolCalls ≠ [])
    (h : Sound env config t) : t.state.error = none ∧ t.state.iterationCount + 1 < config.maxIterations := by
  obtain ⟨r', hr', h⟩ := h
  obtain rfl := Except.ok.inj (hr.symm.trans hr')
  exact h.resolve_left hcalls

/-- Tool calls are no reply. -/
theorem lastReply_add_calls (hs : t.state.Identified) (content : Text) {calls : List ToolCall} (h : calls ≠ []) :
    lastReply (t.state.add [made (.ai content calls)]).messages = lastReply t.state.messages := by
  refine lastReply_add hs [.ai content calls] fun b hb => ?_
  obtain rfl := List.mem_singleton.mp hb
  cases calls with
  | nil => exact absurd rfl h
  | cons call calls => rfl

/-- **A model call**, after calls with tool calls that ran: it is answered
without tool calls, or with calls that run, or the flow replies itself. -/
theorem llmCallNode_onPath (hs : t.state.Identified) (hb : Blamed t) (hc : Calling env config path)
    (hstore : ∀ t₀, (Node.storeAssistantMessage, t₀) ∉ path) (h : llmCallNode env config t = (t', none)) :
    OnPath env config (shouldContinue config t'.state) (t', path ++ [(.llmCallNode, t)]) := by
  have hstore' := no_store_snoc (t := t) hstore (n := .llmCallNode) (by simp)
  rcases llmCallNode_cases h with ⟨r, hr, rfl⟩ | ⟨e, he, rfl⟩
  · have hid := add_made_identified hs [.ai r.content r.toolCalls]
    dsimp only
    rw [shouldContinue_answer hs]
    by_cases hnone : r.toolCalls = []
    · -- the answer is the last reply
      rw [hnone, List.isEmpty_nil, Bool.or_true, if_pos rfl]
      exact ⟨.inl ⟨⟨_, t, r, by simp, hr, hnone, rfl, lastReply_add_ai hs r.content⟩,
        hc.allSound ⟨r, hr, .inl hnone⟩⟩, hstore'⟩
    · have hcalls : ∀ r', modelReply env config t = .ok r' → r'.toolCalls ≠ [] := by
        intro r' hr'
        obtain rfl := Except.ok.inj (hr.symm.trans hr')
        exact hnone
      rw [List.isEmpty_eq_false_iff.mpr hnone, Bool.or_false]
      cases herr : t.state.error with
      | some e =>
        -- the calls do not run, and the reply to the prompt is still the last one
        obtain ⟨id, hlast⟩ := hb (by rw [herr]; rfl)
        rw [Option.isSome_some, if_pos rfl]
        refine ⟨hc.settled_own hcalls (fun hsound => ?_) ?_, hstore'⟩
        · have hno := (sound_of_calls hr hnone hsound).1
          rw [herr] at hno
          cases hno
        · have hconfig : configurationError ∈ flowReplies := by simp [flowReplies]
          exact replyText_mem_flowReplies hconfig ((lastReply_add_calls hs r.content hnone).trans hlast)
      | none =>
        rw [Option.isSome_none, if_neg (by simp)]
        split
        · rename_i hmax
          refine ⟨⟨hid.nodup, hid.fresh⟩, fun hall => ?_, hc.calls hcalls, hstore'⟩
          have hcount := (sound_of_calls hr hnone (hall t (by simp))).2
          push_cast at hmax
          omega
        · rename_i hmax
          push_cast at hmax
          have hsound : Sound env config t := ⟨r, hr, .inr ⟨herr, by omega⟩⟩
          exact ⟨⟨hid.nodup, hid.fresh⟩, herr,
            fun t₀ ht₀ => ⟨hc.allSound hsound t₀ ht₀, fun r' hr' => hc.calls hcalls t₀ r' ht₀ hr'⟩, hstore'⟩
  · -- the reply to the exception is the last one
    have hnever : ∀ r, modelReply env config t ≠ .ok r := by simp [he]
    have hmodel : modelError ∈ flowReplies := by simp [flowReplies]
    exact ⟨hc.settled_own (fun r hr => absurd hr (hnever r)) (fun ⟨r, hr, _⟩ => hnever r hr)
      (replyText_mem_flowReplies hmodel (lastReply_add_ai hs modelError)), hstore'⟩

/-- Nothing has been stored before. -/
theorem OnPath.not_stored (h : OnPath env config n (t, path)) (t₀ : Turn) : (Node.storeAssistantMessage, t₀) ∉ path := by
  cases n with
  | initContextNode =>
    obtain ⟨_, _, rfl⟩ := h
    exact List.not_mem_nil
  | ceacEnrichmentNode | llmCallNode | toolNode | maxIterationsFallback => exact h.2.2.2 t₀
  | storeUserMessage | storeAssistantMessage => exact h.2 t₀

/-- The node that stores, when it is the last one of the path. -/
theorem OnPath.stored (h : OnPath env config n (t, path)) (t₀ : Turn)
    (ht₀ : (Node.storeAssistantMessage, t₀) ∈ path ++ [(n, t)]) : Settled env config (path ++ [(n, t)]) t₀ := by
  rcases List.mem_append.mp ht₀ with ht₀ | ht₀
  · exact absurd ht₀ (h.not_stored t₀)
  · obtain ⟨rfl, rfl⟩ := Prod.mk.inj (List.mem_singleton.mp ht₀)
    exact h.1.snoc (by simp)

/-- **Along an edge** of the graph. -/
theorem OnPath.moves {m : Node} (h : OnPath env config n (t, path))
    (hnode : (imperatorFlow env config).node n t = (t', none))
    (hroute : (imperatorFlow env config).route n t' = some m) : OnPath env config m (t', path ++ [(n, t)]) := by
  have hstore : n ≠ .storeAssistantMessage → ∀ t₀, (Node.storeAssistantMessage, t₀) ∉ path ++ [(n, t)] :=
    no_store_snoc h.not_stored
  cases n with
  | initContextNode =>
    obtain ⟨hs, herr, rfl⟩ := h
    obtain rfl := Option.some.inj hroute
    obtain ⟨hs', hb⟩ := initContextNode_blamed hs herr hnode
    exact ⟨hs', hb, fun _ h => by simp at h, hstore (by simp)⟩
  | ceacEnrichmentNode =>
    obtain ⟨hs, hb, hc, _⟩ := h
    obtain rfl := Option.some.inj hroute
    obtain ⟨hs', hb'⟩ := ceacEnrichmentNode_blamed hs hb hnode
    exact ⟨hs', hb', hc.snoc (by simp), hstore (by simp)⟩
  | llmCallNode =>
    obtain ⟨hs, hb, hc, hst⟩ := h
    obtain rfl := Option.some.inj hroute
    exact llmCallNode_onPath hs hb hc hst hnode
  | toolNode =>
    obtain ⟨hs, herr, hc, _⟩ := h
    obtain rfl := Option.some.inj hroute
    obtain ⟨hs', herr'⟩ := toolNode_identified hs hnode
    refine ⟨hs', fun hsome => ?_, hc.snoc (by simp), hstore (by simp)⟩
    rw [herr', herr] at hsome
    cases hsome
  | maxIterationsFallback =>
    obtain ⟨hs, hsound, hcalls, _⟩ := h
    obtain rfl := Option.some.inj hroute
    obtain ⟨rfl, _⟩ := Prod.mk.inj hnode
    have hsettled : Settled env config path { t with state := t.state.add [made (.ai fallbackText [])] } :=
      .inr ⟨not_fromModel hcalls, hsound,
        replyText_mem_flowReplies (by simp [flowReplies]) (lastReply_add_ai hs fallbackText)⟩
    exact ⟨hsettled.snoc (by simp), hstore (by simp)⟩
  | storeUserMessage =>
    obtain rfl := Option.some.inj hroute
    have hstate := storeUserMessage_state hnode
    refine ⟨?_, hstore (by simp)⟩
    simpa only [Settled, FromModel, hstate] using h.1.snoc (t := t) (n := .storeUserMessage) (by simp)
  | storeAssistantMessage => cases hroute

theorem turn_onPath : (imperatorFlow env config).traced.Annotated (OnPath env config) fun _ x =>
    ∀ t, (Node.storeAssistantMessage, t) ∈ x.2 → Settled env config x.2 t := by
  apply Workflow.traced_annotated
  case moves => exact fun _ _ _ _ _ h hnode hroute => h.moves hnode hroute
  case raises => exact fun _ _ _ _ _ h _ => h.stored
  case ends => exact fun _ _ _ _ h _ _ => h.stored
  case stops => exact fun _ _ _ h t₀ ht₀ => absurd ht₀ (h.not_stored t₀)

theorem settled_of_visit {db : Db} {client : List Body} {key : Option (Option Id)}
    (hvisit : (Node.storeAssistantMessage, t) ∈ turnVisits env config ⟨db, initialState client key⟩) :
    Settled env config (turnVisits env config ⟨db, initialState client key⟩) t := by
  have hid := initialState_identified client key
  have hstart : OnPath env config (needsInit (initialState client key)) (⟨db, initialState client key⟩, []) := by
    rcases needsInit_eq (initialState client key) with ⟨hskip, _⟩ | ⟨hinit, _⟩
    · rw [hskip]
      have hblamed : Blamed ⟨db, initialState client key⟩ := by
        intro hsome
        simp [initialState] at hsome
      exact ⟨hid, hblamed, fun _ h => absurd h List.not_mem_nil, fun _ => List.not_mem_nil⟩
    · rw [hinit]
      exact ⟨hid, rfl, rfl⟩
  exact turn_onPath.run config.recursionLimit _ _ hstart t hvisit

theorem persisted_eq_some {text : Text} (h : persisted env config t = some text) :
    text = replyText t.state.messages ∧ isFallback text = false := by
  unfold persisted at h
  dsimp only at h
  split at h
  · cases h
  · split at h
    · cases h
    · rename_i hfallback
      split at h
      · obtain rfl := Option.some.inj h
        exact ⟨rfl, by simpa using hfallback⟩
      · cases h

/-- **Whose text a turn stores**: the model's exactly when every model call of
the turn answers and its tool calls can run, and one of the flow's own
otherwise. -/
theorem model_speaks_iff (env : Env) (config : ImperatorConfig) (db : Db) (client : List Body)
    (key : Option (Option Id)) (t : Turn) (text : Text)
    (hvisit : (Node.storeAssistantMessage, t) ∈ turnVisits env config ⟨db, initialState client key⟩)
    (hstored : persisted env config t = some text) :
    (FromModel env config (turnVisits env config ⟨db, initialState client key⟩) t text ↔
        AllSound env config (turnVisits env config ⟨db, initialState client key⟩)) ∧
      (¬ AllSound env config (turnVisits env config ⟨db, initialState client key⟩) → text ∈ flowReplies) := by
  obtain ⟨rfl, hfallback⟩ := persisted_eq_some hstored
  rcases settled_of_visit hvisit with ⟨⟨content, hfrom⟩, hsound⟩ | ⟨hnot, hunsound, hown⟩
  · refine ⟨⟨fun _ => hsound, fun _ => ?_⟩, fun hunsound => absurd hsound hunsound⟩
    obtain ⟨t₀, r, ht₀, hr, hnone, hcontent, hlast⟩ := hfrom
    have htext := replyText_of_lastReply hlast
    split at htext
    · -- an empty reply is replaced, and that text is not stored
      have hempty : isFallback emptyReply = true := by decide
      rw [htext, hempty] at hfallback
      cases hfallback
    · rw [htext]
      exact ⟨t₀, r, ht₀, hr, hnone, hcontent, hlast⟩
  · exact ⟨⟨fun hfrom => absurd hfrom (hnot _), fun hsound => absurd hsound hunsound⟩, fun _ => hown⟩

end

/-- "Hi" to the Imperator, in conversation 0. -/
def hiStart : Turn := ⟨greetedDb, initialState [.human "Hi".toList] (some (some 0))⟩

theorem model_speaks_iff_hi :
    ∃ t, (FromModel plainEnv plainConfig (turnVisits plainEnv plainConfig hiStart) t "Hello.".toList ↔
        AllSound plainEnv plainConfig (turnVisits plainEnv plainConfig hiStart)) ∧
      (¬ AllSound plainEnv plainConfig (turnVisits plainEnv plainConfig hiStart) → "Hello.".toList ∈ flowReplies) := by
  have hvisit : (turnVisits plainEnv plainConfig hiStart).any (fun v =>
      v.1 = .storeAssistantMessage ∧ persisted plainEnv plainConfig v.2 = some "Hello.".toList) = true := by
    decide +kernel
  obtain ⟨⟨n, t⟩, hmem, hv⟩ := List.any_eq_true.mp hvisit
  obtain ⟨rfl, hstored⟩ := of_decide_eq_true hv
  exact ⟨t, model_speaks_iff plainEnv plainConfig greetedDb [.human "Hi".toList] (some (some 0)) t _ hmem hstored⟩

/-- A model that is out of reach. -/
def mutedEnv : Env := { plainEnv with model := fun _ _ _ => .error .openaiApiError }

/-- The conversation gets "I encountered an error processing your request.". -/
theorem model_speaks_false :
    ¬ ∀ (env : Env) (config : ImperatorConfig) (db : Db) (client : List Body) (key : Option (Option Id)) (t : Turn)
        (text : Text), (Node.storeAssistantMessage, t) ∈ turnVisits env config ⟨db, initialState client key⟩ →
      persisted env config t = some text →
        FromModel env config (turnVisits env config ⟨db, initialState client key⟩) t text := by
  intro h
  have hvisit : (turnVisits mutedEnv plainConfig hiStart).any (fun v =>
      v.1 = .storeAssistantMessage ∧ persisted mutedEnv plainConfig v.2 = some modelError) = true := by
    decide +kernel
  obtain ⟨⟨n, t⟩, hmem, hv⟩ := List.any_eq_true.mp hvisit
  obtain ⟨rfl, hstored⟩ := of_decide_eq_true hv
  obtain ⟨t₀, r, _, hr, _⟩ := h mutedEnv plainConfig greetedDb [.human "Hi".toList] (some (some 0)) t modelError hmem
    hstored
  cases hr

end ContextBroker.Imperator
