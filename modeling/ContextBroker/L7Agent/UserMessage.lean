import ContextBroker.L4Retrieval.StorePaths
import ContextBroker.L4Retrieval.WindowBudget
import ContextBroker.L7Agent.PromptOrder

/-!
# The user's message

Two places can store the message of a turn: `get_context`, inline, and
`store_user_message` at the end, which stands back when
`_user_message_stored` is set. The flag is set by `init_context_node` as soon
as it has a query and a conversation, whether `get_context` got to its store
or not.

`copies` counts the rows of a text from the user, with `repeat_count`.
`turn_copies`: a turn adds one copy if the one path it takes stores the
message, and one more if the reply is the same text under the same name.
`stored_once_iff`: so the message is stored once, if either path could have
stored it, exactly when the inline store goes through, or the flag stays
unset, or the other store would have failed as well.
-/
namespace ContextBroker

open Rows RunLength Retrieval

/-! ## Counting copies -/

section

variable {db db' : Db} {c : Id}

/-- How many messages of conversation `c` pass the test, with
`repeat_count`. -/
def Db.tally (db : Db) (c : Id) (p : Payload → Bool) : Nat := (db.unrolled c).countP p

/-- A test that messages with the same sender and content pass alike. -/
def Respects (p : Payload → Bool) : Prop := ∀ a x, sameMessage a x = true → p a = p x

theorem tally_pushAll {p : Payload → Bool} (hp : Respects p) {xs : List Payload}
    (h : db'.runs c = pushAll sameMessage (db.runs c) xs) : db'.tally c p = db.tally c p + xs.countP p := by
  have hemitted : (emitted sameMessage (current (db.runs c)) xs).countP p = xs.countP p := by
    have hmap := congrArg (List.countP id) (map_emitted (f := p) hp (current (db.runs c)) xs)
    simpa only [List.countP_map, Function.id_comp] using hmap
  rw [Db.tally, Db.tally, Db.unrolled, Db.unrolled, h, expand_pushAll, List.countP_append, hemitted]

/-- One store adds what it accepts. -/
theorem tally_store {p : Payload → Bool} (hp : Respects p) (hfit : Fit db) (s : Store) :
    Fit (db.store s) ∧ (db.store s).tally c p = db.tally c p + (db.accepted c [s]).countP p := by
  have hevent := event_runs (.store s) hfit c
  exact ⟨hevent.1, tally_pushAll hp hevent.2⟩

/-- The rows of every conversation stay. -/
def KeepsRuns (db db' : Db) : Prop := Fit db → Fit db' ∧ ∀ c, db'.runs c = db.runs c

theorem KeepsRuns.refl (db : Db) : KeepsRuns db db := fun hfit => ⟨hfit, fun _ => rfl⟩

theorem KeepsRuns.trans {db'' : Db} (h : KeepsRuns db db') (h' : KeepsRuns db' db'') : KeepsRuns db db'' := by
  intro hfit
  obtain ⟨hfit', hruns⟩ := h hfit
  obtain ⟨hfit'', hruns'⟩ := h' hfit'
  exact ⟨hfit'', fun c => (hruns' c).trans (hruns c)⟩

theorem KeepsRuns.tally (h : KeepsRuns db db') (hfit : Fit db) (c : Id) (p : Payload → Bool) :
    db'.tally c p = db.tally c p := by
  rw [Db.tally, Db.tally, Db.unrolled, Db.unrolled, (h hfit).2 c]

/-- An event in which nothing is accepted. -/
theorem KeepsRuns.of_event (db : Db) (e : Event) (h : ∀ c, e.accepted db c = []) : KeepsRuns db (e.apply db) := by
  intro hfit
  refine ⟨(event_runs e hfit 0).1, fun c => ?_⟩
  rw [(event_runs e hfit c).2, h c]
  rfl

end

namespace GetContext

open StandardTiered

/-! ## get_context up to its store -/

section

variable {config : Config} {env : Env} {db db' : Db} {st st' : GetContextState} {c : Id}

theorem collect_nil {N S E B : Type} (g : StateGraph N S E) {f : N → S → List B} (hf : ∀ n s, f n s = []) (s : S) :
    g.collect f s = [] := by
  have hfrom : ∀ (k : Nat) (n : N) (s : S), g.collectFrom f k n s = [] := by
    intro k
    induction k with
    | zero => exact fun _ _ => rfl
    | succ k ih =>
      intro n s
      simp only [StateGraph.collectFrom, hf, List.nil_append]
      split
      · rfl
      · split
        · rfl
        · exact ih _ _
  exact hfrom _ _ s

/-- Up to its store `get_context` stores no message, if none arrives
meanwhile. -/
theorem Prepares.accepts_none (halone : ∀ n, env.assembly.arrivals n = []) {e : Event} (h : Prepares config env e)
    (db : Db) (c : Id) : e.accepted db c = [] := by
  cases h with
  | createConversation | createWindow | slide => rfl
  | pass w =>
    have hnone : ∀ n s, arrivalsAt config env.assembly c n s = [] := by
      intro n s
      rw [arrivalsAt, halone n]
      rfl
    simp only [Event.accepted, collect_nil _ hnone, ite_self]
    cases db.window? w <;> rfl

theorem beforeRetrieve_keeps (halone : ∀ n, env.assembly.arrivals n = []) (inp : GetContextInput) (hv : Valid db) :
    KeepsRuns db (beforeRetrieve config env db inp).1 :=
  (beforeRetrieve_later config env inp hv).fold KeepsRuns.refl (fun _ _ _ => KeepsRuns.trans) fun db e he =>
    .of_event db e (he.accepts_none halone db)

/-- The state before the retrieval has the conversation and the prompt. -/
theorem beforeRetrieve_asked (hr : Reached db) {inp : GetContextInput} {q : Text} (hc : inp.conversationId = some c)
    (hq : inp.userPrompt = some q) (hne : q ≠ []) (h : beforeRetrieve config env db inp = (db', .ok st))
    (herr : st.error = none) : st.conversationId = some c ∧ truthy st.userPrompt = some q := by
  obtain ⟨-, c', w, hinp, hloc⟩ := beforeRetrieve_ok hr h herr
  have hgiven : ensureConversationNode env db { toGetContextInput := inp } =
      (db, .ok { toGetContextInput := inp }) := by simp [ensureConversationNode, hc]
  constructor
  · unfold beforeRetrieve at h
    rw [hgiven] at h
    obtain ⟨-, hkept, -⟩ := findOrCreateWindowNode_ok hr hc h herr
    exact (congrArg GetContextInput.conversationId hkept).trans hc
  · rw [congrArg GetContextInput.userPrompt hinp, hq]
    exact truthy_some hne

/-- `get_context` gets to its store, and that commits. -/
def storesInline (config : Config) (env : Env) (db : Db) (inp : GetContextInput) : Bool :=
  match beforeRetrieve config env db inp with
  | (db₁, .ok st) => st.error.isNone && (storeUserPrompt env db₁ st).toOption.isSome
  | (_, .error _) => false

/-- **get_context adds the prompt**, if its store goes through, and nothing
else. -/
theorem getContext_tally (halone : ∀ n, env.assembly.arrivals n = []) (hr : Reached db) (hfit : Fit db)
    {inp : GetContextInput} {q : Text} (hc : inp.conversationId = some c) (hq : inp.userPrompt = some q)
    (hne : q ≠ []) {p : Payload → Bool} (hp : Respects p) :
    Fit (getContext config env db inp).1 ∧ (getContext config env db inp).1.tally c p =
      db.tally c p + if storesInline config env db inp && p (promptPayload q) then 1 else 0 := by
  have hkeeps := @beforeRetrieve_keeps config env db halone inp (hr.valid)
  have hsame : ∀ db', KeepsRuns db db' → Fit db' ∧ db'.tally c p = db.tally c p + 0 :=
    fun db' h => ⟨(h hfit).1, h.tally hfit c p⟩
  unfold getContext storesInline
  cases hbefore : beforeRetrieve config env db inp with
  | mk db₁ out =>
  rw [hbefore] at hkeeps
  cases out with
  | error e => exact hsame db₁ hkeeps
  | ok st =>
    dsimp only [andThen]
    by_cases hsome : st.error.isSome = true
    · simp only [hsome, if_true, Option.isNone_eq_false_iff.mpr hsome, Bool.false_and, Bool.false_eq_true, if_false]
      exact hsame db₁ hkeeps
    · have herr : st.error = none := Option.not_isSome_iff_eq_none.mp hsome
      obtain ⟨hst, hprompt⟩ := beforeRetrieve_asked hr hc hq hne hbefore herr
      simp only [herr, Option.isSome_none, Bool.false_eq_true, if_false, Option.isNone_none, Bool.true_and]
      unfold retrieveContextNode
      cases hstore : storeUserPrompt env db₁ st with
      | error e =>
        dsimp only
        split <;> exact hsame db₁ hkeeps
      | ok db₂ =>
        have hprompted : storePrompt env.now db₁ c q = .ok db₂ := by
          simp only [storeUserPrompt, hprompt, hst] at hstore
          obtain ⟨_, _, hstored⟩ := bind_eq_ok.mp hstore
          exact hstored
        have hdb₂ : db₂ = db₁.store (.prompt env.now c q) := by simp only [Db.store, hprompted]
        obtain ⟨hfit₂, htally⟩ := tally_store (c := c) hp (hkeeps hfit).1 (.prompt env.now c q)
        rw [← hdb₂] at hfit₂ htally
        refine ⟨hfit₂, ?_⟩
        rw [htally, hkeeps.tally hfit]
        simp [Db.accepted, Store.accepted, hprompted, List.countP_cons, Except.toOption]

end

end GetContext

namespace Imperator

open GetContext KeyedMerge

/-! ## The two stores -/

/-- The message under either name a store gives its sender. -/
def isCopy (config : ImperatorConfig) (q : Text) (x : Payload) : Bool :=
  x.content == some q && (x.sender == "user".toList || x.sender == config.requestUser)

/-- The rows of the message, counted with `repeat_count`. -/
def copies (config : ImperatorConfig) (db : Db) (c : Id) (q : Text) : Nat := db.tally c (isCopy config q)

/-- `dispatch_tool("store_message")` goes through. -/
def accepts (fault : Option Exn) (db : Db) (c : Id) (sender recipient : Text) : Bool :=
  validStoreMessage sender recipient && fault.isNone && (db.conversation? c).isSome

section

variable {env : Env} {config : ImperatorConfig} {db : Db} {c : Id} {q : Text}

theorem isCopy_respects : Respects (isCopy config q) := by
  intro a x h
  obtain ⟨hsender, hcontent, _⟩ := sameMessage_iff.mp h
  simp only [isCopy, hsender, hcontent]

/-- What a dispatched `store_message` adds. -/
theorem dispatchStoreMessage_copies (hfit : Fit db) (now : Time) (fault : Option Exn) (role : Role)
    (sender recipient content : Text) :
    let out := (dispatchStoreMessage now fault db (some c) role sender recipient content).1
    Fit out ∧ (out.conversation? c).isSome = (db.conversation? c).isSome ∧
      copies config out c q = copies config db c q +
        if accepts fault db c sender recipient && content == q &&
          (sender == "user".toList || sender == config.requestUser) then 1 else 0 := by
  unfold dispatchStoreMessage accepts
  cases hvalid : validStoreMessage sender recipient with
  | false => exact ⟨hfit, rfl, by simp⟩
  | true =>
    cases fault with
    | some e => exact ⟨hfit, rfl, by simp⟩
    | none =>
      let inp : StoreInput :=
        { conversationIdInput := some c, role, sender, recipient := some recipient, content := some content }
      have hstored : ∀ out, storeMessage now db inp = out →
          Fit out.2 ∧ (out.2.conversation? c).isSome = (db.conversation? c).isSome ∧
            copies config out.2 c q = copies config db c q +
              if (db.conversation? c).isSome && content == q &&
                (sender == "user".toList || sender == config.requestUser) then 1 else 0 := by
        rintro out rfl
        obtain ⟨hfit', htally⟩ := tally_store (c := c) (@isCopy_respects config q) hfit (.message now inp)
        refine ⟨hfit', conversation?_storeMessage now db inp c, htally.trans ?_⟩
        have hcopy : isCopy config q inp.payload =
            (content == q && (sender == "user".toList || sender == config.requestUser)) := by
          simp [isCopy, inp, StoreInput.payload]
        rw [Db.accepted, accepted_message rfl rfl]
        cases (db.conversation? c).isSome <;> simp [copies, hcopy, Db.accepted, List.countP_cons]
      have hout := hstored _ rfl
      simp only [Bool.not_true, Bool.false_eq_true, if_false, Option.isNone_none, Bool.true_and]
      cases hstore : storeMessage now db inp with
      | mk result db' =>
        rw [hstore] at hout
        cases result <;> exact hout

end

/-! ## The condition -/

section

variable (env : Env) (config : ImperatorConfig) (db : Db) (client : List Body) (c : Id) (q : Text)

/-- `init_context_node` runs, and has its prompt. -/
def initRuns : Bool := !client.any isIdentity && env.prompt.isOk

/-- What `get_context` is asked for. -/
def turnArgs : GetContextInput :=
  { getContextArgs config (some q) ((domainLookup env (some q)).toOption.getD none) with conversationId := some c }

/-- `get_context` is dispatched, gets to its store, and that commits. -/
def inlineSucceeds : Bool :=
  validGetContext (turnArgs env config c q) && env.getContextFlow.isNone &&
    storesInline env.config env.getContext db (turnArgs env config c q)

/-- The tables `store_user_message` finds. -/
def dbAtStore : Db :=
  if initRuns env client then (dispatchGetContext env db (some c) (turnArgs env config c q)).1 else db

/-- `store_message` would accept the message. -/
def storeSucceeds : Bool :=
  accepts env.storeUser (dbAtStore env config db client c q) c config.requestUser config.hostname

/-- One of the two stores would go through. -/
def storable : Bool :=
  initRuns env client && inlineSucceeds env config db c q || storeSucceeds env config db client c q

/-- The store the turn leaves the message to goes through. -/
def attemptSucceeds : Bool :=
  if initRuns env client then inlineSucceeds env config db c q else storeSucceeds env config db client c q

/-- The reply is stored as the same text under the name of the user. -/
def echoes (reply : Option Text) : Bool :=
  reply.any fun text =>
    !isFallback text && (accepts env.storeAssistant (dbAtStore env config db client c q) c config.hostname
      config.requestUser && text == q && (config.hostname == "user".toList || config.hostname == config.requestUser))

end

/-! ## The turn, node by node -/

section

variable {env : Env} {config : ImperatorConfig} {db db₁ : Db} {client : List Body} {c : Id} {q : Text} {flag : Bool}
  {t t' : Turn}

/-- The tables, the flag, and the message as long as the flag is not set. -/
structure Carried (db₁ : Db) (c : Id) (q : Text) (flag : Bool) (t : Turn) : Prop where
  tables : t.db = db₁
  key : t.state.contextWindowId = some (some c)
  stored : t.state.userMessageStored = flag
  identified : flag = false → t.state.Identified
  query : flag = false → lastHuman t.state.messages = some q

theorem lastHuman_append (messages : List AnyMessage) (n : Nat) {bodies : List Body}
    (h : ∀ b ∈ bodies, b.human? = none) :
    lastHuman (messages ++ assignIds n (bodies.map made)) = lastHuman messages := by
  have hnone : (assignIds n (bodies.map made)).reverse.findSome? (·.body.human?) = none := by
    rw [List.findSome?_eq_none_iff]
    intro m hm
    have hbody : m.body ∈ (assignIds n (bodies.map made)).map (·.body) :=
      List.mem_map_of_mem (List.mem_reverse.mp hm)
    rw [assignIds_bodies] at hbody
    exact h m.body hbody
  simp only [lastHuman, List.reverse_append, List.findSome?_append, hnone, Option.none_or]

/-- A node that adds messages, none of them a human one. -/
theorem Carried.add (h : Carried db₁ c q flag t) (bodies : List Body) (hbodies : ∀ b ∈ bodies, b.human? = none)
    (htables : t'.db = t.db) (hmessages : t'.state.messages = (t.state.add (bodies.map made)).messages)
    (hnext : t'.state.nextId = (t.state.add (bodies.map made)).nextId)
    (hkey : t'.state.contextWindowId = t.state.contextWindowId)
    (hstored : t'.state.userMessageStored = t.state.userMessageStored) : Carried db₁ c q flag t' := by
  refine ⟨htables.trans h.tables, hkey.trans h.key, hstored.trans h.stored, fun hflag => ?_, fun hflag => ?_⟩
  · have hs := add_made_identified (h.identified hflag) bodies
    exact ⟨hmessages ▸ hs.nodup, hmessages ▸ hnext ▸ hs.fresh⟩
  · rw [hmessages, add_made (h.identified hflag), lastHuman_append _ _ hbodies]
    exact h.query hflag

theorem ceacEnrichmentNode_carried (h : Carried db₁ c q flag t) (hnode : ceacEnrichmentNode env config t = (t', none)) :
    Carried db₁ c q flag t' := by
  unfold ceacEnrichmentNode at hnode
  split at hnode
  · obtain ⟨rfl, _⟩ := Prod.mk.inj hnode
    exact h
  · split at hnode
    · rename_i enriched _
      split at hnode
      · obtain ⟨rfl, _⟩ := Prod.mk.inj hnode
        exact h
      · obtain ⟨rfl, _⟩ := Prod.mk.inj hnode
        exact h.add [.system enriched] (by simp [Body.human?]) rfl rfl rfl rfl rfl
    · obtain ⟨rfl, _⟩ := Prod.mk.inj hnode
      exact h

theorem llmCallNode_carried (h : Carried db₁ c q flag t) (hnode : llmCallNode env config t = (t', none)) :
    Carried db₁ c q flag t' := by
  unfold llmCallNode at hnode
  dsimp only at hnode
  split at hnode
  · rename_i r _
    obtain ⟨rfl, _⟩ := Prod.mk.inj hnode
    exact h.add [.ai r.content r.toolCalls] (by simp [Body.human?]) rfl rfl rfl rfl rfl
  · split at hnode
    · obtain ⟨rfl, _⟩ := Prod.mk.inj hnode
      exact h.add [.ai modelError []] (by simp [Body.human?]) rfl rfl rfl rfl rfl
    · cases hnode

theorem toolNode_carried (h : Carried db₁ c q flag t) (hnode : toolNode env t = (t', none)) :
    Carried db₁ c q flag t' := by
  unfold toolNode at hnode
  split at hnode
  · rename_i bodies hbodies
    obtain ⟨rfl, _⟩ := Prod.mk.inj hnode
    refine h.add bodies (fun b hb => ?_) rfl rfl rfl rfl rfl
    obtain ⟨call, _, hb⟩ := mapM_eq_ok hbodies b hb
    cases hcall : env.tool t.state.iterationCount call with
    | error e => simp [hcall, Except.map] at hb
    | ok content =>
      obtain rfl : Body.tool content call.id = b := by simpa [hcall, Except.map] using hb
      rfl
  · cases hnode

theorem maxIterationsFallback_carried (h : Carried db₁ c q flag t)
    (hnode : maxIterationsFallback t = (t', none)) : Carried db₁ c q flag t' := by
  obtain ⟨rfl, _⟩ := Prod.mk.inj hnode
  exact h.add [.ai fallbackText []] (by simp [Body.human?]) rfl rfl rfl rfl rfl

theorem loadContext_fst (env : Env) (config : ImperatorConfig) {t : Turn} {key : Option Id}
    (hkey : t.state.contextWindowId = some key) (userQuery domain : Option Text) :
    (loadContext env config t userQuery domain).1 =
      (dispatchGetContext env t.db key (getContextArgs config userQuery domain)).1 := by
  unfold loadContext
  rw [hkey]
  dsimp only
  split
  · rename_i hout
    rw [hout]
  · rename_i hout
    rw [hout]
  · rename_i hout
    rw [hout]
    split <;> rfl

/-- The turn begins. -/
def start (db : Db) (client : List Body) (c : Id) : Turn := ⟨db, initialState client (some (some c))⟩

/-- The flag is set once `init_context_node` has its prompt. -/
theorem initContextNode_carried (hfresh : client.any isIdentity = false)
    (hquery : lastHuman (start db client c).state.messages = some q) (hne : q ≠ [])
    (hnode : initContextNode env config (start db client c) = (t', none)) :
    Carried (dbAtStore env config db client c q) c q (initRuns env client) t' := by
  unfold initContextNode at hnode
  cases hprompt : env.prompt with
  | error e =>
    have hruns : initRuns env client = false := by simp [initRuns, hprompt, Except.isOk, Except.toBool]
    have hstart : Carried db c q false (start db client c) :=
      ⟨rfl, rfl, rfl, fun _ => initialState_identified client _, fun _ => hquery⟩
    rw [hprompt] at hnode
    dsimp only at hnode
    split at hnode
    · obtain ⟨rfl, _⟩ := Prod.mk.inj hnode
      rw [dbAtStore, hruns]
      exact hstart.add [.ai configurationError []] (by simp [Body.human?]) rfl rfl rfl rfl rfl
    · cases hnode
  | ok systemContent =>
    have hruns : initRuns env client = true := by simp [initRuns, hprompt, hfresh, Except.isOk, Except.toBool]
    rw [hprompt] at hnode
    dsimp only at hnode
    rw [hquery] at hnode
    split at hnode
    · cases hnode
    · rename_i domain hdomain
      have hfst := loadContext_fst env config (t := start db client c) rfl (some q) domain
      have hargs : (dispatchGetContext env db (some c) (getContextArgs config (some q) domain)).1 =
          dbAtStore env config db client c q := by
        rw [dbAtStore, hruns, if_pos rfl, turnArgs, hdomain]
        rfl
      split at hnode
      · cases hnode
      · rename_i db' entries hload
        rw [hload] at hfst
        obtain ⟨rfl, _⟩ := Prod.mk.inj hnode
        rw [hruns]
        refine ⟨hfst.trans hargs, rfl, ?_, by simp, by simp⟩
        simp [truthy_some hne, start, initialState, ImperatorState.add]

/-- The tables after `store_user_message`. -/
def dbAfterUser (env : Env) (config : ImperatorConfig) (db₁ : Db) (c : Id) (q : Text) (flag : Bool) : Db :=
  if flag then db₁
  else (dispatchStoreMessage env.now env.storeUser db₁ (some c) .user config.requestUser config.hostname q).1

theorem storeOutcome_fst (t : Turn) (out : Db × Except Exn Unit) :
    (storeOutcome t out).1 = { t with db := out.1 } := by
  obtain ⟨db, _ | _⟩ := out <;> rfl

theorem storeUserMessage_db (h : Carried db₁ c q flag t) (hne : q ≠ [])
    (hnode : storeUserMessage env config t = (t', none)) :
    t'.db = dbAfterUser env config db₁ c q flag ∧ t'.state.contextWindowId = some (some c) := by
  have hfst := congrArg Prod.fst hnode
  unfold storeUserMessage at hfst
  rw [h.key] at hfst
  cases flag with
  | true =>
    rw [h.stored] at hfst
    split at hfst
    · obtain rfl : t = t' := hfst
      exact ⟨h.tables, h.key⟩
    · obtain rfl : t = t' := hfst
      exact ⟨h.tables, h.key⟩
  | false =>
    rw [h.stored, h.query rfl, truthy_some hne] at hfst
    dsimp only at hfst
    rw [if_neg Bool.false_ne_true, storeOutcome_fst, h.tables] at hfst
    rw [← hfst]
    exact ⟨rfl, h.key⟩

/-- The tables after the turn, and its reply. -/
def Finished (env : Env) (config : ImperatorConfig) (db₂ : Db) (c : Id) (t : Turn) : Prop :=
  ∃ text, t.state.responseText = some text ∧ t.db =
    if isFallback text then db₂
    else (dispatchStoreMessage env.now env.storeAssistant db₂ (some c) .assistant config.hostname config.requestUser
      text).1

theorem storeAssistantMessage_finished (hkey : t.state.contextWindowId = some (some c))
    (hnode : storeAssistantMessage env config t = (t', none)) : Finished env config t.db c t' := by
  have hfst := congrArg Prod.fst hnode
  unfold storeAssistantMessage at hfst
  dsimp only at hfst
  rw [hkey] at hfst
  dsimp only at hfst
  refine ⟨replyText t.state.messages, ?_⟩
  split at hfst
  · rename_i hprefix
    rw [if_pos hprefix, ← hfst]
    exact ⟨rfl, rfl⟩
  · rename_i hprefix
    rw [if_neg hprefix, ← hfst, storeOutcome_fst]
    exact ⟨rfl, rfl⟩

end

/-! ## The turn -/

section

variable {env : Env} {config : ImperatorConfig} {db : Db} {client : List Body} {c : Id} {q : Text}

/-- What holds before each node of a turn. -/
def Before (env : Env) (config : ImperatorConfig) (db : Db) (client : List Body) (c : Id) (q : Text) :
    Node → Turn → Prop
  | .initContextNode, t => t = start db client c ∧ client.any isIdentity = false
  | .storeAssistantMessage, t =>
    t.db = dbAfterUser env config (dbAtStore env config db client c q) c q (initRuns env client) ∧
      t.state.contextWindowId = some (some c)
  | _, t => Carried (dbAtStore env config db client c q) c q (initRuns env client) t

theorem Before.of_carried {t : Turn}
    (h : Carried (dbAtStore env config db client c q) c q (initRuns env client) t) {n : Node}
    (hinit : n ≠ .initContextNode) (hassistant : n ≠ .storeAssistantMessage) :
    Before env config db client c q n t := by
  cases n with
  | initContextNode => exact absurd rfl hinit
  | storeAssistantMessage => exact absurd rfl hassistant
  | ceacEnrichmentNode | llmCallNode | toolNode | maxIterationsFallback | storeUserMessage => exact h

theorem shouldContinue_cases (config : ImperatorConfig) (s : ImperatorState) :
    shouldContinue config s ≠ .initContextNode ∧ shouldContinue config s ≠ .storeAssistantMessage := by
  unfold shouldContinue
  split
  · simp
  · split <;> simp

/-- **The turn keeps them**, along every edge of the graph. -/
theorem turn_annotated (hquery : lastHuman (start db client c).state.messages = some q) (hne : q ≠ []) :
    (imperatorFlow env config).Annotated (Before env config db client c q) fun e t =>
      e = none → Finished env config
        (dbAfterUser env config (dbAtStore env config db client c q) c q (initRuns env client)) c t := by
  constructor
  case raises => exact fun _ _ _ _ _ _ h => nomatch h
  case stops => exact fun _ _ _ h => nomatch h
  case ends =>
    intro n t t' hbefore hnode hroute _
    cases n with
    | storeAssistantMessage =>
      obtain ⟨htables, hkey⟩ := hbefore
      rw [← htables]
      exact storeAssistantMessage_finished hkey hnode
    | initContextNode | ceacEnrichmentNode | llmCallNode | toolNode | maxIterationsFallback | storeUserMessage =>
      cases hroute
  case moves =>
    intro n t t' m hbefore hnode hroute
    cases n with
    | initContextNode =>
      obtain ⟨rfl, hfresh⟩ := hbefore
      obtain rfl := Option.some.inj hroute
      exact initContextNode_carried hfresh hquery hne hnode
    | ceacEnrichmentNode =>
      obtain rfl := Option.some.inj hroute
      exact ceacEnrichmentNode_carried hbefore hnode
    | llmCallNode =>
      obtain rfl := Option.some.inj hroute
      obtain ⟨hinit, hassistant⟩ := shouldContinue_cases config t'.state
      exact .of_carried (llmCallNode_carried hbefore hnode) hinit hassistant
    | toolNode =>
      obtain rfl := Option.some.inj hroute
      exact toolNode_carried hbefore hnode
    | maxIterationsFallback =>
      obtain rfl := Option.some.inj hroute
      exact maxIterationsFallback_carried hbefore hnode
    | storeUserMessage =>
      obtain rfl := Option.some.inj hroute
      exact storeUserMessage_db hbefore hne hnode
    | storeAssistantMessage => cases hroute

/-- The tables of a turn that ran to its end. -/
theorem invoke_finished (hquery : lastHuman (start db client c).state.messages = some q) (hne : q ≠ []) {out : Turn}
    (hinvoke : invoke env config (start db client c) = (out, none)) :
    Finished env config (dbAfterUser env config (dbAtStore env config db client c q) c q (initRuns env client)) c
      out := by
  have hany : (start db client c).state.messages.any (isIdentity ·.body) = client.any isIdentity := by
    conv_rhs => rw [← initialState_bodies client (some (some c))]
    rw [List.any_map]
    rfl
  have hbefore : Before env config db client c q (needsInit (start db client c).state) (start db client c) := by
    rcases needsInit_eq (start db client c).state with ⟨hskip, hmarked⟩ | ⟨hinit, hunmarked⟩
    · have hruns : initRuns env client = false := by simp [initRuns, ← hany, hmarked]
      rw [hskip]
      refine ⟨?_, rfl, hruns.symm, fun _ => initialState_identified client _, fun _ => hquery⟩
      rw [dbAtStore, hruns]
      rfl
    · rw [hinit]
      exact ⟨rfl, hany ▸ hunmarked⟩
  have hrun := (turn_annotated hquery hne).run config.recursionLimit _ _ hbefore
  rw [← invoke, hinvoke] at hrun
  exact hrun rfl

end

/-! ## Once -/

section

variable {env : Env} {config : ImperatorConfig} {db : Db} {client : List Body} {c : Id} {q : Text}

theorem dispatchGetContext_copies (hr : Reached db) (hfit : Fit db) (hne : q ≠ []) :
    Fit (dispatchGetContext env db (some c) (turnArgs env config c q)).1 ∧
      copies config (dispatchGetContext env db (some c) (turnArgs env config c q)).1 c q =
        copies config db c q + if inlineSucceeds env config db c q then 1 else 0 := by
  have hprompt : (turnArgs env config c q).userPrompt = some q := truthy_some hne
  have hget := @getContext_tally env.config env.getContext db c env.alone hr hfit (turnArgs env config c q) q rfl
    hprompt hne _ (@isCopy_respects config q)
  have hcopy : isCopy config q (promptPayload q) = true := by simp [isCopy, promptPayload]
  rw [hcopy, Bool.and_true] at hget
  unfold dispatchGetContext inlineSucceeds
  cases hvalid : validGetContext (turnArgs env config c q) with
  | false => exact ⟨hfit, by simp⟩
  | true =>
    cases hflow : env.getContextFlow with
    | some e => exact ⟨hfit, by simp⟩
    | none =>
      have hsame : { turnArgs env config c q with conversationId := some c } = turnArgs env config c q := rfl
      simp only [Bool.not_true, Bool.false_eq_true, if_false, Option.isNone_none, Bool.true_and, hsame]
      cases hout : getContext env.config env.getContext db (turnArgs env config c q) with
      | mk db' result =>
        rw [hout] at hget
        cases result with
        | error e => exact hget
        | ok st =>
          dsimp only
          split <;> exact hget

/-- The tables `store_user_message` finds. -/
theorem dbAtStore_copies (hr : Reached db) (hfit : Fit db) (hne : q ≠ []) :
    Fit (dbAtStore env config db client c q) ∧ copies config (dbAtStore env config db client c q) c q =
      copies config db c q + if initRuns env client && inlineSucceeds env config db c q then 1 else 0 := by
  unfold dbAtStore
  cases initRuns env client with
  | false => exact ⟨hfit, by simp⟩
  | true =>
    rw [if_pos rfl, Bool.true_and]
    exact dispatchGetContext_copies hr hfit hne

/-- **A turn adds** a copy if the store it leaves the message to goes
through, and one more if the reply is an echo. -/
theorem turn_copies (hr : Reached db) (hfit : Fit db)
    (hquery : lastHuman (start db client c).state.messages = some q) (hne : q ≠ []) {out : Turn}
    (hinvoke : invoke env config (start db client c) = (out, none)) :
    copies config out.db c q = copies config db c q +
      (if attemptSucceeds env config db client c q then 1 else 0) +
      if echoes env config db client c q out.state.responseText then 1 else 0 := by
  obtain ⟨text, hreply, hout⟩ := invoke_finished hquery hne hinvoke
  obtain ⟨hfit₁, hcopies₁⟩ := @dbAtStore_copies env config db client c q hr hfit hne
  have huser := @dispatchStoreMessage_copies config _ c q hfit₁ env.now env.storeUser .user config.requestUser
    config.hostname q
  -- the store of the user node
  have hafter : Fit (dbAfterUser env config (dbAtStore env config db client c q) c q (initRuns env client)) ∧
      ((dbAfterUser env config (dbAtStore env config db client c q) c q (initRuns env client)).conversation?
        c).isSome = ((dbAtStore env config db client c q).conversation? c).isSome ∧
      copies config (dbAfterUser env config (dbAtStore env config db client c q) c q (initRuns env client)) c q =
        copies config db c q + if attemptSucceeds env config db client c q then 1 else 0 := by
    unfold dbAfterUser attemptSucceeds
    cases hruns : initRuns env client with
    | true =>
      rw [hruns, Bool.true_and] at hcopies₁
      exact ⟨hfit₁, rfl, hcopies₁⟩
    | false =>
      rw [hruns, Bool.false_and, if_neg Bool.false_ne_true, Nat.add_zero] at hcopies₁
      rw [hcopies₁] at huser
      simpa [storeSucceeds] using huser
  obtain ⟨hfit₂, hconv, hcopies₂⟩ := hafter
  have hassistant := (@dispatchStoreMessage_copies config _ c q hfit₂ env.now env.storeAssistant .assistant
    config.hostname config.requestUser text).2.2
  rw [hout, hreply]
  have hecho : echoes env config db client c q (some text) = (!isFallback text && (accepts env.storeAssistant
      (dbAfterUser env config (dbAtStore env config db client c q) c q (initRuns env client)) c config.hostname
      config.requestUser && text == q &&
      (config.hostname == "user".toList || config.hostname == config.requestUser))) := by
    rw [echoes, Option.any_some, accepts, accepts, hconv]
  rw [hecho]
  cases hfallback : isFallback text with
  | true =>
    rw [if_pos rfl, hcopies₂]
    simp
  | false => rw [if_neg Bool.false_ne_true, hassistant, hcopies₂, Bool.not_false, Bool.true_and]

end

/-- **The message of a turn is stored once**, if either store would go
through, exactly when the store the turn leaves it to does and the reply is
no echo of it; or, the other way round, when the reply alone is a copy. -/
theorem stored_once_iff (evs : List Event) (env : Env) (config : ImperatorConfig) (client : List Body) (c : Id)
    (q : Text) (out : Turn)
    (hquery : lastHuman (start (broker.run evs) client c).state.messages = some q) (hne : q ≠ [])
    (hinvoke : invoke env config (start (broker.run evs) client c) = (out, none)) :
    (storable env config (broker.run evs) client c q = true →
        copies config out.db c q = copies config (broker.run evs) c q + 1) ↔
      (storable env config (broker.run evs) client c q = true →
        (attemptSucceeds env config (broker.run evs) client c q = true ↔
          ¬echoes env config (broker.run evs) client c q out.state.responseText = true)) := by
  have hcopies := turn_copies ⟨evs, rfl⟩ (runs_run evs 0).1 hquery hne hinvoke
  refine imp_congr_right fun _ => ?_
  rw [hcopies]
  cases attemptSucceeds env config (broker.run evs) client c q <;>
    cases echoes env config (broker.run evs) client c q out.state.responseText <;> simp

/-! ## Sample turns -/

/-- The events of `greetedDb`. -/
def greetedRun : List Event := [.createConversation none 0, say "mira" 3]

/-- The inline store fails: a `PostgresError`, which `get_context` logs. -/
def faultyEnv : Env :=
  { plainEnv with
    getContext := { plainEnv.getContext with fault := fun s => if s = .prompt then some .postgresError else none }
    alone := fun _ => rfl }

/-- "hi" on conversation 0. -/
def hiTurn (env : Env) : Turn × Option Exn :=
  invoke env plainConfig (start (broker.run greetedRun) [.human "hi".toList] 0)

theorem stored_once_iff_greeted :
    (storable plainEnv plainConfig (broker.run greetedRun) [.human "hi".toList] 0 "hi".toList = true →
        copies plainConfig (hiTurn plainEnv).1.db 0 "hi".toList =
          copies plainConfig (broker.run greetedRun) 0 "hi".toList + 1) ↔
      (storable plainEnv plainConfig (broker.run greetedRun) [.human "hi".toList] 0 "hi".toList = true →
        (attemptSucceeds plainEnv plainConfig (broker.run greetedRun) [.human "hi".toList] 0 "hi".toList = true ↔
          ¬echoes plainEnv plainConfig (broker.run greetedRun) [.human "hi".toList] 0 "hi".toList
            (hiTurn plainEnv).1.state.responseText = true)) :=
  stored_once_iff greetedRun plainEnv plainConfig [.human "hi".toList] 0 "hi".toList (hiTurn plainEnv).1
    (by decide +kernel) (by decide) (Prod.ext rfl (by decide +kernel))

/-- `store_message` would have stored it, and nothing did. -/
theorem hiTurn_lost : (hiTurn faultyEnv).2 = none ∧
    storable faultyEnv plainConfig (broker.run greetedRun) [.human "hi".toList] 0 "hi".toList = true ∧
    copies plainConfig (broker.run greetedRun) 0 "hi".toList = 0 ∧
    copies plainConfig (hiTurn faultyEnv).1.db 0 "hi".toList = 0 := by decide +kernel

theorem stored_once_false :
    ¬∀ (evs : List Event) (env : Env) (config : ImperatorConfig) (client : List Body) (c : Id) (q : Text)
        (out : Turn), (∀ last, (broker.run evs).lastMessage c = some last → last.content ≠ some q) →
      lastHuman (start (broker.run evs) client c).state.messages = some q → q ≠ [] →
      invoke env config (start (broker.run evs) client c) = (out, none) →
      storable env config (broker.run evs) client c q = true →
        copies config out.db c q = copies config (broker.run evs) c q + 1 := by
  intro h
  obtain ⟨hends, hstorable, hbefore, hafter⟩ := hiTurn_lost
  have hlast : ∀ last, (broker.run greetedRun).lastMessage 0 = some last → last.content ≠ some "hi".toList := by
    have hrow : ((broker.run greetedRun).lastMessage 0).all (·.content ≠ some "hi".toList) = true := by decide +kernel
    intro last hmem
    simpa [hmem] using hrow
  have honce := h greetedRun faultyEnv plainConfig [.human "hi".toList] 0 "hi".toList (hiTurn faultyEnv).1 hlast
    (by decide +kernel) (by decide) (Prod.ext rfl hends) hstorable
  rw [hbefore, hafter] at honce
  omega

end Imperator

end ContextBroker
