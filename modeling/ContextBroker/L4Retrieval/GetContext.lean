import ContextBroker.L3Assembly.Runs
import ContextBroker.L4Retrieval.RetrievalSpecs

/-!
# get_context

The core tool: creates the conversation and the window if there are none
(with an assembly pass inline), stores the prompt, and runs the retrieval
graph of the build type. `get_context` is a straight line of nodes over
tables and state that ends early on `error`; an exception of a node escapes
the flow. The lookup by (conversation, participant, build type) has no ORDER
BY: which of several rows it gets is left open.

`beforeRetrieve_ok`: whatever `get_context` did up to the retrieval, events of
a run could have done, and it has a window of its conversation.
-/
namespace ContextBroker.GetContext

open StandardTiered Retrieval

/-! ## State -/

inductive Site where
  | conversation | lookup | conversationExists | recover | window | prompt
  deriving DecidableEq, Repr

/-- `SELECT ... LIMIT 1` without an order returns any of the rows: the `k`-th, for
some `k`. -/
def anyRow {α : Type} (rows : List α) (k : Nat) : Option α := rows[k % rows.length]?

theorem anyRow_mem {α : Type} {rows : List α} {k : Nat} {x : α} (h : anyRow rows k = some x) : x ∈ rows :=
  List.mem_of_getElem? h

structure Env where
  now : Time := 0
  fault : Site → Option Exn := fun _ => none
  /-- Which row the lookup of the window gets. -/
  lookupRow : Nat := 0
  /-- The inline assembly of a new window. -/
  assembly : StandardTiered.Env
  slide : Passthrough.Env := {}
  retrieval : Retrieval.Env := {}

/-- mirrors app/models.py:157-186 -/
structure GetContextInput where
  buildType : BuildType
  budget : Int
  conversationId : Option Id := none
  userPrompt : Option Text := none
  domainContext : Option Text := none
  deriving DecidableEq, Repr

inductive GetContextError where
  | buildType (e : BuildTypeError)
  | retrieval (e : RetrievalError)
  deriving DecidableEq, Repr

/-- mirrors conversation_ops_flow.py:422-443 -/
structure GetContextState extends GetContextInput where
  snappedBudget : Int := 0
  contextWindowId : Option Id := none
  contextMessages : Option (List Entry) := none
  contextTiers : Option ContextTiers := none
  totalTokensUsed : Nat := 0
  assemblyStatus : AssemblyStatus := .pending
  warnings : List Text := []
  error : Option GetContextError := none
  deriving DecidableEq, Repr

/-! ## Nodes -/

section Nodes

variable (config : Config) (env : Env) (db : Db) (st : GetContextState)

/-- mirrors conversation_ops_flow.py:446-458 -/
def ensureConversationNode : Db × Except Exn GetContextState :=
  if st.conversationId.isSome then (db, .ok st)
  else
    match perform env.fault .conversation () with
    | .error e => (db, .error e)
    | .ok () =>
      (db.createConversation none env.now, .ok { st with conversationId := some db.nextId })

/-- mirrors conversation_ops_flow.py:461-472 -/
def snapBudgetNode : Db × Except Exn GetContextState :=
  (db, .ok { st with snappedBudget := snapBudget st.budget })

/-- RB-27: the pass on a new window, and the exception that ended it.
mirrors conversation_ops_flow.py:555-566 -/
def inlineAssembly (w c : Id) (buildType : BuildType) : Db × Option Exn :=
  match buildType with
  | .slidingWindow =>
    let o := Passthrough.assemble env.slide db w
    (o.final.db, o.raised)
  | .tieredSummary | .enriched =>
    let o := StandardTiered.assemble config env.assembly db w c
    (o.final.db, o.raised)
  | .other _ => (db, some .valueError)

/-- The INSERT, or the row it conflicts with; `except Exception` lets a
cancellation through. mirrors conversation_ops_flow.py:528-588 -/
def createWindowNode (c : Id) : Db × Except Exn GetContextState :=
  match perform env.fault .window (db.windows.find? fun x =>
      x.conversationId == c && x.buildType == st.buildType && x.maxTokenBudget == st.snappedBudget) with
  | .error e => (db, .error e)
  | .ok (some x) => (db, .ok { st with contextWindowId := some x.id })
  | .ok none =>
    let created := db.createWindow c "auto".toList st.buildType st.snappedBudget
    match inlineAssembly config env created db.nextId c st.buildType with
    | (db', some .cancelledError) => (db', .error .cancelledError)
    | (db', _) => (db', .ok { st with contextWindowId := some db.nextId })

/-- The windows that the lookup may get. mirrors conversation_ops_flow.py:498-508 -/
def lookupRows (db : Db) (c : Id) (buildType : BuildType) : List Window :=
  db.windows.filter fun x => x.conversationId == c && x.participantId == "auto".toList && x.buildType == buildType

/-- mirrors conversation_ops_flow.py:475-589 -/
def findOrCreateWindowNode : Db × Except Exn GetContextState :=
  match getBuildTypeConfig config st.buildType, st.conversationId with
  | .error e, _ => (db, .ok { st with error := some (.buildType e) })
  | .ok _, none => (db, .error .typeError)
  | .ok _, some c =>
    match perform env.fault .lookup (anyRow (lookupRows db c st.buildType) env.lookupRow) with
    | .error e => (db, .error e)
    | .ok (some x) => (db, .ok { st with contextWindowId := some x.id })
    | .ok none =>
      match perform env.fault .conversationExists (db.conversation? c).isSome with
      | .error e => (db, .error e)
      | .ok true => createWindowNode config env db st c
      | .ok false =>
        -- PG-43: a deleted conversation is recreated
        match perform env.fault .recover () with
        | .error e => (db, .error e)
        | .ok () => createWindowNode config env (db.createConversation (some c) env.now) st c

/-- The transaction that stores the prompt.
mirrors conversation_ops_flow.py:602-661 -/
def storeUserPrompt : Except Exn Db :=
  match truthy st.userPrompt, st.conversationId with
  | some prompt, some c => do
    perform env.fault .prompt ()
    storePrompt env.now db c prompt
  | _, _ => .ok db

/-- mirrors conversation_ops_flow.py:665-702 -/
def invokeRetrieval : Except Exn GetContextState :=
  match st.contextWindowId with
  | none => .error .keyError
  | some w => do
    let result ← retrieve config env.retrieval db w st.domainContext st.buildType
    return { st with contextMessages := result.contextMessages, contextTiers := result.contextTiers
                     totalTokensUsed := result.totalTokensUsed, assemblyStatus := result.assemblyStatus
                     warnings := result.warnings, error := result.error.map .retrieval }

/-- mirrors conversation_ops_flow.py:592-702 -/
def retrieveContextNode : Db × Except Exn GetContextState :=
  match storeUserPrompt env db st with
  | .ok db' => (db', invokeRetrieval config env db' st)
  | .error e =>
    if e.caughtBy [.postgresError, .valueError, .runtimeError, .osError] then
      (db, invokeRetrieval config env db st)
    else (db, .error e)

end Nodes

/-! ## The flow -/

/-- The edge to the next node. -/
def andThen (out : Db × Except Exn GetContextState)
    (next : Db → GetContextState → Db × Except Exn GetContextState) : Db × Except Exn GetContextState :=
  match out with
  | (db, .error e) => (db, .error e)
  | (db, .ok st) => next db st

/-- The nodes up to the window. -/
def beforeRetrieve (config : Config) (env : Env) (db : Db) (inp : GetContextInput) :
    Db × Except Exn GetContextState :=
  andThen (andThen (ensureConversationNode env db { toGetContextInput := inp }) snapBudgetNode)
    (findOrCreateWindowNode config env)

/-- mirrors conversation_ops_flow.py:705-731 -/
def getContext (config : Config) (env : Env) (db : Db) (inp : GetContextInput) :
    Db × Except Exn GetContextState :=
  andThen (beforeRetrieve config env db inp) fun db st =>
    if st.error.isSome then (db, .ok st) else retrieveContextNode config env db st

/-! ## Up to the retrieval -/

/-- A run of the broker gets to `db`. -/
def Reached (db : Db) : Prop := ∃ evs, broker.run evs = db

/-- `st` is about window `w` of conversation `c`. -/
structure Located (db : Db) (st : GetContextState) (w c : Id) : Prop where
  conversation : st.conversationId = some c
  window : st.contextWindowId = some w
  row : ∃ x, db.window? w = some x ∧ x.conversationId = c

section

variable {config : Config} {env : Env} {db db' : Db} {st st' : GetContextState} {w c : Id}

theorem Reached.valid (h : Reached db) : Valid db := by
  obtain ⟨evs, rfl⟩ := h
  exact valid_run evs

theorem Reached.event (h : Reached db) (e : Event) : Reached (e.apply db) := by
  obtain ⟨evs, rfl⟩ := h
  exact ⟨evs ++ [e], Machine.run_snoc broker evs e⟩

theorem window?_of_mem (hv : Valid db) {x : Window} (hx : x ∈ db.windows) : db.window? x.id = some x :=
  Rows.find?_key hv.windowNodup hx

theorem mem_lookupRows {buildType : BuildType} {x : Window} :
    x ∈ lookupRows db c buildType ↔ x ∈ db.windows ∧ x.conversationId = c ∧ x.participantId = "auto".toList ∧
      x.buildType = buildType := by
  simp [lookupRows, and_assoc]

/-- A row the flow looked up by its conversation. -/
theorem located_of_mem (hv : Valid db) (hc : st.conversationId = some c) {x : Window} (hx : x ∈ db.windows)
    (hconv : x.conversationId = c) : Located db { st with contextWindowId := some x.id } x.id c :=
  ⟨hc, rfl, x, window?_of_mem hv hx, hconv⟩

/-- A recreated conversation is there. -/
theorem createConversation_isSome (db : Db) (c : Id) (now : Time) :
    ((db.createConversation (some c) now).conversation? c).isSome = true := by
  unfold Db.createConversation
  dsimp only [Option.getD_some]
  split
  · rename_i hsome
    exact hsome
  · simp [Db.conversation?, List.find?_append]

/-- A window that is not there yet is created under the next id. -/
theorem createWindow_new (hv : Valid db) (hconv : (db.conversation? c).isSome = true)
    {buildType : BuildType} {budget : Int}
    (hnew : ∀ x ∈ db.windows, ¬(x.conversationId == c && x.buildType == buildType && x.maxTokenBudget == budget) = true)
    (participant : Text) :
    (db.createWindow c participant buildType budget).window? db.nextId =
      some { id := db.nextId, conversationId := c, participantId := participant, buildType
             maxTokenBudget := budget } := by
  have hnone : db.window? db.nextId = none := by
    refine List.find?_eq_none.mpr fun x hx => ?_
    have := (hv.windowIds x hx).ne
    simpa using this
  have hany : db.windows.any (fun x => x.conversationId == c && x.buildType == buildType &&
      x.maxTokenBudget == budget) = false := by
    simpa only [List.any_eq_false] using hnew
  have hsome : (db.conversation? c).isNone = false := by simpa using hconv
  unfold Db.createWindow
  rw [hsome, hany]
  simp only [Bool.false_eq_true, if_false, Db.window?, List.find?_append] at hnone ⊢
  rw [hnone]
  simp

/-- The inline pass is a pass of a run. -/
theorem inlineAssembly_spec (hr : Reached db) {win : Window} (hwin : db.window? w = some win)
    {e : Option Exn}
    (h : inlineAssembly config env db w win.conversationId win.buildType = (db', e)) :
    Reached db' ∧ ∃ x, db'.window? w = some x ∧ x.conversationId = win.conversationId := by
  have hevent : ∀ ev : Event, ev.apply db = db' →
      Reached db' ∧ ∃ x, db'.window? w = some x ∧ x.conversationId = win.conversationId := by
    rintro ev rfl
    obtain ⟨x, hx, hsame⟩ := (event_keeps hr.valid ev).windows w win hwin
    exact ⟨hr.event ev, x, hx, hsame.1⟩
  unfold inlineAssembly at h
  cases hb : win.buildType with
  | slidingWindow =>
    rw [hb] at h
    refine hevent (.slide w env.slide) ?_
    simp only [Event.apply, hwin, hb, if_true]
    exact congrArg Prod.fst h
  | tieredSummary | enriched =>
    rw [hb] at h
    refine hevent (.pass config w env.assembly) ?_
    simp only [Event.apply, passOutcome, hwin, hb, usesTiers, if_true]
    exact congrArg Prod.fst h
  | other name =>
    rw [hb] at h
    obtain rfl := congrArg Prod.fst h
    exact ⟨hr, win, hwin, rfl⟩

theorem createWindowNode_ok (hr : Reached db) (hconv : (db.conversation? c).isSome = true)
    (hc : st.conversationId = some c) (h : createWindowNode config env db st c = (db', .ok st')) :
    Reached db' ∧ st'.toGetContextInput = st.toGetContextInput ∧ ∃ w, Located db' st' w c := by
  unfold createWindowNode at h
  split at h
  · cases h
  · rename_i x hx
    cases h
    have hfind := (perform_eq_ok hx).symm
    have hkey := List.find?_some hfind
    simp only [Bool.and_eq_true, beq_iff_eq] at hkey
    exact ⟨hr, rfl, x.id, located_of_mem hr.valid hc (List.mem_of_find?_eq_some hfind) hkey.1.1⟩
  · rename_i hnone
    have hnew := List.find?_eq_none.mp (perform_eq_ok hnone).symm
    have hwin := createWindow_new hr.valid hconv hnew "auto".toList
    have hr' : Reached (db.createWindow c "auto".toList st.buildType st.snappedBudget) :=
      hr.event (.createWindow c "auto".toList st.buildType st.snappedBudget)
    dsimp only at h
    split at h
    · cases h
    · rename_i db₁ e hinline
      cases h
      obtain ⟨hr₁, x, hx, hcx⟩ := inlineAssembly_spec hr' hwin hinline
      exact ⟨hr₁, rfl, _, hc, rfl, x, hx, hcx⟩

theorem findOrCreateWindowNode_ok (hr : Reached db) (hc : st.conversationId = some c)
    (h : findOrCreateWindowNode config env db st = (db', .ok st')) (herr : st'.error = none) :
    Reached db' ∧ st'.toGetContextInput = st.toGetContextInput ∧ ∃ w, Located db' st' w c := by
  unfold findOrCreateWindowNode at h
  rw [hc] at h
  split at h
  · cases h
    cases herr
  · rename_i hnone
    cases hnone
  · rename_i c' _ hc'
    cases hc'
    split at h
    · cases h
    · rename_i x hx
      cases h
      obtain ⟨hmem, hconv, -⟩ := mem_lookupRows.mp (anyRow_mem (perform_eq_ok hx).symm)
      exact ⟨hr, rfl, x.id, located_of_mem hr.valid hc hmem hconv⟩
    · split at h
      · cases h
      · rename_i hsome
        exact createWindowNode_ok hr (perform_eq_ok hsome).symm hc h
      · split at h
        · cases h
        · exact createWindowNode_ok (hr.event (.createConversation (some c) env.now))
            (createConversation_isSome db c env.now) hc h

theorem ensureConversationNode_ok (hr : Reached db) (h : ensureConversationNode env db st = (db', .ok st')) :
    Reached db' ∧ st'.error = st.error ∧ ∃ c, st'.toGetContextInput =
      { st.toGetContextInput with conversationId := some c } := by
  unfold ensureConversationNode at h
  split at h
  · rename_i hsome
    cases h
    obtain ⟨c, hc⟩ := Option.isSome_iff_exists.mp hsome
    exact ⟨hr, rfl, c, by rw [← hc]⟩
  · split at h
    · cases h
    · cases h
      exact ⟨hr.event (.createConversation none env.now), rfl, _, rfl⟩

end

/-- **Up to the retrieval** `get_context` does what a run could do, and has a
window of its conversation. -/
theorem beforeRetrieve_ok {config : Config} {env : Env} {db db' : Db} {inp : GetContextInput}
    {st : GetContextState} (hr : Reached db) (h : beforeRetrieve config env db inp = (db', .ok st))
    (herr : st.error = none) :
    Reached db' ∧ ∃ c w, st.toGetContextInput = { inp with conversationId := some c } ∧
      Located db' st w c := by
  unfold beforeRetrieve andThen at h
  split at h
  · cases h
  · rename_i db₂ st₂ h₂
    split at h₂
    · cases h₂
    · rename_i db₁ st₁ h₁
      obtain ⟨hr₁, _, c, hinp⟩ := ensureConversationNode_ok hr h₁
      cases h₂
      have hc : ({ st₁ with snappedBudget := snapBudget st₁.budget } : GetContextState).conversationId = some c :=
        congrArg GetContextInput.conversationId hinp
      obtain ⟨hr', hinp', w, hloc⟩ := findOrCreateWindowNode_ok hr₁ hc h herr
      exact ⟨hr', c, w, hinp'.trans hinp, hloc⟩

end ContextBroker.GetContext
