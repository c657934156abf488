import ContextBroker.L4Retrieval.CurrentPrompt

/-!
# The budget of the window

A window is identified by conversation, build type and budget; the lookup of
`get_context` goes by conversation, participant and build type, as before
migration 13. So a window made with another budget is reused; where several
have that key, which one is left open.

`Later`: whatever a call does to the tables, events of a run could have done,
also when it raises. `window_budget_iff`: in a run, the windows `get_context`
returns have the requested budget exactly when each lookup behind them gets
nothing or a window of that budget.
-/
namespace ContextBroker.GetContext

open LTS StandardTiered

/-! ## conv_create_context_window -/

/-- mirrors app/models.py:53-59 -/
structure CreateContextWindowInput where
  conversationId : Id
  participantId : Text
  buildType : BuildType
  maxTokens : Option Int := none
  deriving DecidableEq, Repr

/-- `resolved` is what the build type or the provider says, or the fallback. -/
structure CreateEnv where
  resolved : Int := 8192
  fault : Option Exn := none

/-- mirrors app/token_budget.py:44-64 -/
def resolveTokenBudget (resolved : Int) (callerOverride : Option Int) : Int :=
  match callerOverride with
  | some budget => if 0 < budget then budget else resolved
  | none => resolved

/-- The dispatch raises on an error of the flow.
mirrors conversation_ops_flow.py:110-184, tool_dispatch.py:433-452 -/
def createContextWindow (config : Config) (env : CreateEnv) (db : Db) (inp : CreateContextWindowInput) :
    Db × Except Exn Id :=
  match getBuildTypeConfig config inp.buildType, env.fault with
  | .error _, _ => (db, .error .valueError)
  | .ok _, some e => (db, .error e)
  | .ok _, none =>
    let budget := resolveTokenBudget env.resolved inp.maxTokens
    if (db.conversation? inp.conversationId).isNone then (db, .error .valueError)
    else
      match db.windows.find? fun x => x.conversationId == inp.conversationId &&
          x.buildType == inp.buildType && x.maxTokenBudget == budget with
      | some x => (db, .ok x.id)
      | none =>
        (db.createWindow inp.conversationId inp.participantId inp.buildType budget, .ok db.nextId)

/-! ## Runs -/

inductive Call where
  | getContext (config : Config) (env : Env) (inp : GetContextInput)
  | createContextWindow (config : Config) (env : CreateEnv) (inp : CreateContextWindowInput)
  /-- Any other work of the broker. -/
  | event (e : Event)

def Call.apply (db : Db) : Call → Db
  | .getContext config env inp => (GetContext.getContext config env db inp).1
  | .createContextWindow config env inp => (GetContext.createContextWindow config env db inp).1
  | .event e => e.apply db

def callStep (db : Db) (call : Call) : Option Db := some (call.apply db)

/-- The window a `get_context` returns, if it returns one. -/
def returnedWindow (config : Config) (env : Env) (db : Db) (inp : GetContextInput) : Option Id :=
  match (getContext config env db inp).2 with
  | .ok st => st.contextWindowId
  | .error _ => none

/-- The row the lookup gets, if there is one, has the requested budget. A call
without a conversation gets a new one, under the next id. -/
def LookupFits (env : Env) (db : Db) (inp : GetContextInput) : Prop :=
  ∀ x, anyRow (lookupRows db (inp.conversationId.getD db.nextId) inp.buildType) env.lookupRow = some x →
    x.maxTokenBudget = snapBudget inp.budget

/-! ## What a call does to the tables -/

/-- Events of a run, all of the kind `P`, lead from `db` to `db'`. -/
def Later (P : Event → Prop) (db db' : Db) : Prop :=
  ∃ evs : List Event, (∀ e ∈ evs, P e) ∧ evs.foldl Event.apply db = db'

/-- The events behind `get_context` up to its store. -/
inductive Prepares (config : Config) (env : Env) : Event → Prop where
  | createConversation (id : Option Id) : Prepares config env (.createConversation id env.now)
  | createWindow (c : Id) (participant : Text) (buildType : BuildType) (budget : Int) :
      Prepares config env (.createWindow c participant buildType budget)
  | slide (w : Id) : Prepares config env (.slide w env.slide)
  | pass (w : Id) : Prepares config env (.pass config w env.assembly)

section

variable {P Q : Event → Prop} {config : Config} {env : Env} {db db' db'' : Db} {inp : GetContextInput}
  {st st' : GetContextState} {w c : Id}

theorem Later.refl (db : Db) : Later P db db := ⟨[], List.forall_mem_nil P, rfl⟩

theorem Later.event (db : Db) {e : Event} (he : P e) : Later P db (e.apply db) :=
  ⟨[e], List.forall_mem_singleton.mpr he, rfl⟩

theorem Later.trans (h : Later P db db') (h' : Later P db' db'') : Later P db db'' := by
  obtain ⟨evs, hevs, rfl⟩ := h
  obtain ⟨evs', hevs', rfl⟩ := h'
  exact ⟨evs ++ evs', List.forall_mem_append.mpr ⟨hevs, hevs'⟩, List.foldl_append⟩

theorem Later.mono (h : Later P db db') (hPQ : ∀ e, P e → Q e) : Later Q db db' := by
  obtain ⟨evs, hevs, heq⟩ := h
  exact ⟨evs, fun e he => hPQ e (hevs e he), heq⟩

/-- What every event keeps and chains. -/
theorem Later.fold {R : Db → Db → Prop} (h : Later P db db') (hrefl : ∀ db, R db db)
    (htrans : ∀ db db' db'', R db db' → R db' db'' → R db db'') (hevent : ∀ db e, P e → R db (e.apply db)) :
    R db db' := by
  obtain ⟨evs, hevs, rfl⟩ := h
  induction evs generalizing db with
  | nil => exact hrefl db
  | cons e evs ih =>
    obtain ⟨he, hevs⟩ := List.forall_mem_cons.mp hevs
    exact htrans db (e.apply db) _ (hevent db e he) (ih hevs)

theorem Later.valid (h : Later P db db') (hv : Valid db) : Valid db' :=
  h.fold (R := fun db db' => Valid db → Valid db') (fun _ => id) (fun _ _ _ h h' => h' ∘ h)
    (fun _ e _ hv => valid_apply hv e) hv

theorem Later.keeps (h : Later P db db') (hv : Valid db) : Keeps db db' :=
  (h.fold (R := fun db db' => Valid db → Valid db' ∧ Keeps db db') (fun db hv => ⟨hv, .refl db⟩)
    (fun _ _ _ h h' hv => ⟨(h' (h hv).1).1, (h hv).2.trans (h' (h hv).1).2⟩)
    (fun _ e _ hv => ⟨valid_apply hv e, event_keeps hv e⟩) hv).2

theorem ensureConversationNode_later (config : Config) (env : Env) (db : Db) (st : GetContextState) :
    Later (Prepares config env) db (ensureConversationNode env db st).1 := by
  unfold ensureConversationNode
  split
  · exact .refl db
  · split
    · exact .refl db
    · exact .event db (Prepares.createConversation none)

theorem inlineAssembly_later (config : Config) (env : Env) {win : Window} (hwin : db.window? w = some win) :
    Later (Prepares config env) db (inlineAssembly config env db w win.conversationId win.buildType).1 := by
  unfold inlineAssembly
  cases hb : win.buildType with
  | slidingWindow =>
    refine ⟨[.slide w env.slide], List.forall_mem_singleton.mpr (.slide w), ?_⟩
    simp only [List.foldl, Event.apply, hwin, hb, if_true]
  | tieredSummary | enriched =>
    refine ⟨[.pass config w env.assembly], List.forall_mem_singleton.mpr (.pass w), ?_⟩
    simp only [List.foldl, Event.apply, passOutcome, hwin, hb, usesTiers, if_true]
  | other name => exact .refl db

/-- No window has the identity of the one to create. -/
theorem createWindowNode_new {x : Option Window} (h : perform env.fault .window (db.windows.find? fun x =>
      x.conversationId == c && x.buildType == st.buildType && x.maxTokenBudget == st.snappedBudget) = .ok x)
    (hx : x = none) (hv : Valid db) (hconv : (db.conversation? c).isSome = true) :
    (db.createWindow c "auto".toList st.buildType st.snappedBudget).window? db.nextId =
      some { id := db.nextId, conversationId := c, participantId := "auto".toList, buildType := st.buildType
             maxTokenBudget := st.snappedBudget } :=
  createWindow_new hv hconv (List.find?_eq_none.mp ((perform_eq_ok h).symm.trans hx)) _

theorem createWindowNode_later (hv : Valid db) (hconv : (db.conversation? c).isSome = true) :
    Later (Prepares config env) db (createWindowNode config env db st c).1 := by
  unfold createWindowNode
  split
  · exact .refl db
  · exact .refl db
  · rename_i hnone
    have hwin := createWindowNode_new hnone rfl hv hconv
    have hcreated : Later (Prepares config env) db (db.createWindow c "auto".toList st.buildType st.snappedBudget) :=
      .event db (Prepares.createWindow c "auto".toList st.buildType st.snappedBudget)
    have hlater := hcreated.trans (inlineAssembly_later config env hwin)
    dsimp only at hlater ⊢
    split
    · rename_i db₁ hinline
      exact (congrArg Prod.fst hinline) ▸ hlater
    · rename_i db₁ e hinline
      exact (congrArg Prod.fst hinline) ▸ hlater

theorem findOrCreateWindowNode_later (hv : Valid db) :
    Later (Prepares config env) db (findOrCreateWindowNode config env db st).1 := by
  unfold findOrCreateWindowNode
  split
  · exact .refl db
  · exact .refl db
  · rename_i c _ _
    split
    · exact .refl db
    · exact .refl db
    · split
      · exact .refl db
      · rename_i hsome
        exact createWindowNode_later hv (perform_eq_ok hsome).symm
      · have hcreated : Later (Prepares config env) db (db.createConversation (some c) env.now) :=
          .event db (Prepares.createConversation (some c))
        split
        · exact .refl db
        · exact hcreated.trans (createWindowNode_later (hcreated.valid hv) (createConversation_isSome db c env.now))

theorem retrieveContextNode_later (config : Config) (env : Env) (db : Db) (st : GetContextState) :
    Later (fun _ => True) db (retrieveContextNode config env db st).1 := by
  have hstore : ∀ db', storeUserPrompt env db st = .ok db' → Later (fun _ => True) db db' := by
    intro db' h
    unfold storeUserPrompt at h
    split at h
    · rename_i prompt c _ _
      obtain ⟨_, _, h⟩ := bind_eq_ok.mp h
      rw [storePrompt_store h]
      exact Later.event (e := .store (.prompt env.now c prompt)) db trivial
    · obtain rfl := Except.ok.inj h
      exact .refl db
  unfold retrieveContextNode
  split
  · rename_i db' h
    exact hstore db' h
  · split <;> exact .refl db

theorem beforeRetrieve_later (config : Config) (env : Env) (inp : GetContextInput) (hv : Valid db) :
    Later (Prepares config env) db (beforeRetrieve config env db inp).1 := by
  have hensure := ensureConversationNode_later config env db { toGetContextInput := inp }
  unfold beforeRetrieve
  generalize ensureConversationNode env db { toGetContextInput := inp } = out at hensure ⊢
  obtain ⟨db₁, e | st₁⟩ := out
  · exact hensure
  · exact hensure.trans (findOrCreateWindowNode_later (hensure.valid hv))

/-- **What `get_context` does to the tables** events of a run could have done. -/
theorem getContext_later (config : Config) (env : Env) (inp : GetContextInput) (hv : Valid db) :
    Later (fun _ => True) db (getContext config env db inp).1 := by
  have hbefore := (beforeRetrieve_later config env inp hv).mono (Q := fun _ => True) fun _ _ => trivial
  unfold getContext
  generalize beforeRetrieve config env db inp = out at hbefore ⊢
  obtain ⟨db₁, e | st₁⟩ := out
  · exact hbefore
  · simp only [andThen]
    split
    · exact hbefore
    · exact hbefore.trans (retrieveContextNode_later config env db₁ st₁)

theorem createContextWindow_later (config : Config) (env : CreateEnv) (db : Db)
    (inp : CreateContextWindowInput) : Later (fun _ => True) db (createContextWindow config env db inp).1 := by
  unfold createContextWindow
  split
  · exact .refl db
  · exact .refl db
  · dsimp only
    split
    · exact .refl db
    · split
      · exact .refl db
      · exact Later.event (e := .createWindow inp.conversationId inp.participantId inp.buildType _) db trivial

theorem Call.apply_valid (hv : Valid db) (call : Call) : Valid (call.apply db) := by
  cases call with
  | getContext config env inp => exact (getContext_later config env inp hv).valid hv
  | createContextWindow config env inp => exact (createContextWindow_later config env db inp).valid hv
  | event e => exact valid_apply hv e

/-! ## The window of a call -/

theorem createWindowNode_window (hv : Valid db) (hconv : (db.conversation? c).isSome = true)
    (h : createWindowNode config env db st c = (db', .ok st')) :
    ∃ w x, st'.contextWindowId = some w ∧ db'.window? w = some x ∧ x.buildType = st.buildType ∧
      x.maxTokenBudget = st.snappedBudget := by
  unfold createWindowNode at h
  split at h
  · cases h
  · rename_i x hfind
    cases h
    have hx := (perform_eq_ok hfind).symm
    have hkey := List.find?_some hx
    simp only [Bool.and_eq_true, beq_iff_eq] at hkey
    exact ⟨x.id, x, rfl, window?_of_mem hv (List.mem_of_find?_eq_some hx), hkey.1.2, hkey.2⟩
  · rename_i hnone
    have hwin := createWindowNode_new hnone rfl hv hconv
    have hv₁ := hv.createWindow c "auto".toList st.buildType st.snappedBudget
    have hkeeps := (inlineAssembly_later config env hwin).keeps hv₁
    dsimp only at h hkeeps
    split at h
    · cases h
    · rename_i db₁ e hinline
      cases h
      obtain ⟨x, hx, hsame⟩ := (congrArg Prod.fst hinline ▸ hkeeps).windows _ _ hwin
      exact ⟨db.nextId, x, rfl, hx, hsame.2.1, hsame.2.2⟩

theorem findOrCreateWindowNode_window (hv : Valid db) (hc : st.conversationId = some c)
    (hnone : st.contextWindowId = none) (h : findOrCreateWindowNode config env db st = (db', .ok st'))
    (hw : st'.contextWindowId = some w) :
    ∃ x, db'.window? w = some x ∧ x.buildType = st.buildType ∧
      (x.maxTokenBudget = st.snappedBudget ↔
        ∀ y, anyRow (lookupRows db c st.buildType) env.lookupRow = some y → y.maxTokenBudget = st.snappedBudget) := by
  have hcreated : ∀ db₁ : Db, Valid db₁ → (db₁.conversation? c).isSome = true →
      createWindowNode config env db₁ st c = (db', .ok st') →
      ∃ x, db'.window? w = some x ∧ x.buildType = st.buildType ∧ x.maxTokenBudget = st.snappedBudget := by
    intro db₁ hv₁ hconv h
    obtain ⟨w', x, hw', hx⟩ := createWindowNode_window hv₁ hconv h
    obtain rfl := Option.some.inj (hw.symm.trans hw')
    exact ⟨x, hx⟩
  unfold findOrCreateWindowNode at h
  rw [hc] at h
  split at h
  · cases h
    exact nomatch hnone.symm.trans hw
  · cases h
  · rename_i c' _ hc'
    cases hc'
    split at h
    · cases h
    · rename_i x hfind
      cases h
      have hx := (perform_eq_ok hfind).symm
      obtain rfl := Option.some.inj hw
      obtain ⟨hmem, _, _, hbuild⟩ := mem_lookupRows.mp (anyRow_mem hx)
      refine ⟨x, window?_of_mem hv hmem, hbuild, ?_⟩
      simp only [hx, Option.some.injEq, forall_eq']
    · rename_i hfind
      have hx := (perform_eq_ok hfind).symm
      simp only [hx, reduceCtorEq, false_implies, implies_true, iff_true]
      split at h
      · cases h
      · rename_i hsome
        exact hcreated db hv (perform_eq_ok hsome).symm h
      · split at h
        · cases h
        · exact hcreated _ (hv.createConversation (some c) env.now) (createConversation_isSome db c env.now) h

theorem retrieveContextNode_window (h : retrieveContextNode config env db st = (db', .ok st')) :
    st'.contextWindowId = st.contextWindowId := by
  have hret : ∀ db₁, invokeRetrieval config env db₁ st = .ok st' →
      st'.contextWindowId = st.contextWindowId := by
    intro db₁ h
    unfold invokeRetrieval at h
    split at h
    · cases h
    · obtain ⟨_, _, h⟩ := bind_eq_ok.mp h
      obtain rfl := Except.ok.inj h
      rfl
  unfold retrieveContextNode at h
  split at h
  · exact hret _ (Prod.mk.inj h).2
  · split at h
    · exact hret _ (Prod.mk.inj h).2
    · cases h

theorem ensureConversationNode_eq
    (h : ensureConversationNode env db { toGetContextInput := inp } = (db', .ok st)) :
    st = { toGetContextInput := { inp with conversationId := some (inp.conversationId.getD db.nextId) } } ∧
      db'.windows = db.windows := by
  unfold ensureConversationNode at h
  split at h
  · rename_i hsome
    obtain ⟨c, hc⟩ := Option.isSome_iff_exists.mp hsome
    cases h
    have hc : inp.conversationId = some c := hc
    exact ⟨by rw [hc, Option.getD_some, ← hc], rfl⟩
  · rename_i hnone
    have hnone : inp.conversationId = none := by simpa using hnone
    split at h
    · cases h
    · cases h
      exact ⟨by rw [hnone]; rfl, (createConversation_grows db none env.now).windows⟩

theorem beforeRetrieve_window (hv : Valid db) (h : beforeRetrieve config env db inp = (db', .ok st))
    (hw : st.contextWindowId = some w) :
    ∃ x, db'.window? w = some x ∧ x.buildType = inp.buildType ∧
      (x.maxTokenBudget = snapBudget inp.budget ↔ LookupFits env db inp) := by
  have hlater := ensureConversationNode_later config env db { toGetContextInput := inp }
  unfold beforeRetrieve at h
  generalize hout : ensureConversationNode env db { toGetContextInput := inp } = out at h hlater
  obtain ⟨db₁, e | st₁⟩ := out
  · cases h
  · obtain ⟨rfl, hwindows⟩ := ensureConversationNode_eq hout
    have hfind := findOrCreateWindowNode_window (hlater.valid hv) rfl rfl h hw
    simpa only [LookupFits, lookupRows, hwindows] using hfind

/-- **The window of one call**: its build type is the requested one, and its
budget is exactly when the lookup fits. -/
theorem getContext_window (hv : Valid db) (h : returnedWindow config env db inp = some w) :
    ∃ x, (getContext config env db inp).1.window? w = some x ∧ x.buildType = inp.buildType ∧
      (x.maxTokenBudget = snapBudget inp.budget ↔ LookupFits env db inp) := by
  have hlater := beforeRetrieve_later config env inp hv
  unfold returnedWindow getContext at h
  unfold getContext
  generalize hout : beforeRetrieve config env db inp = out at h hlater ⊢
  obtain ⟨db₁, e | st₁⟩ := out
  · cases h
  · simp only [andThen] at h ⊢
    split at h
    · rename_i st hst
      split at hst
      · rename_i herr
        obtain rfl := Except.ok.inj hst
        rw [if_pos herr]
        exact beforeRetrieve_window hv hout h
      · rename_i herr
        rw [if_neg herr]
        have hkept := retrieveContextNode_window (Prod.ext rfl hst)
        obtain ⟨x, hx, hbuild, hbudget⟩ := beforeRetrieve_window hv hout (hkept.symm.trans h)
        have hkeeps := (retrieveContextNode_later config env db₁ st₁).keeps (hlater.valid hv)
        obtain ⟨x', hx', hsame⟩ := hkeeps.windows _ _ hx
        exact ⟨x', hx', hsame.2.1.trans hbuild, by rw [hsame.2.2, hbudget]⟩
    · cases h

/-- **Windows and budgets**, in every run: each window a `get_context` returns
has the requested build type, and all of them have the requested budget
exactly when each lookup behind one gets nothing or a window of that budget. -/
theorem window_budget_iff (calls : List Call) :
    (∀ db config env inp db' w, Takes callStep {} calls db (.getContext config env inp) db' →
      returnedWindow config env db inp = some w →
      ∃ x, db'.window? w = some x ∧ x.buildType = inp.buildType ∧
        x.maxTokenBudget = snapBudget inp.budget) ↔
      ∀ db config env inp db', Takes callStep {} calls db (.getContext config env inp) db' →
        (returnedWindow config env db inp).isSome → LookupFits env db inp := by
  have hvalid : ∀ db call db', Takes callStep {} calls db call db' → Valid db := by
    intro db call db' h
    refine h.passes.1.inv (fun s l s' hv hs => ?_) .empty
    obtain rfl := Option.some.inj hs
    exact l.apply_valid hv
  constructor
  · intro h db config env inp db' htakes hsome
    obtain ⟨w, hw⟩ := Option.isSome_iff_exists.mp hsome
    obtain ⟨x, hx, _, hbudget⟩ := getContext_window (hvalid _ _ _ htakes) hw
    obtain rfl := Option.some.inj htakes.enabled
    obtain ⟨x', hx', _, hfits⟩ := h db config env inp _ w htakes hw
    obtain rfl := Option.some.inj (hx.symm.trans hx')
    exact hbudget.mp hfits
  · intro h db config env inp db' w htakes hw
    obtain ⟨x, hx, hbuild, hbudget⟩ := getContext_window (hvalid _ _ _ htakes) hw
    have hfits := h db config env inp db' htakes (Option.isSome_iff_exists.mpr ⟨w, hw⟩)
    obtain rfl := Option.some.inj htakes.enabled
    exact ⟨x, hx, hbuild, hbudget.mpr hfits⟩

end

/-- A window of 8K is made first; the call that asks for 200K gets it. -/
theorem window_budget_false :
    ¬ ∀ (calls : List Call) (db : Db) (config : Config) (env : Env) (inp : GetContextInput) (db' : Db) (w : Id),
      1 ≤ inp.budget → Takes callStep {} calls db (.getContext config env inp) db' →
        returnedWindow config env db inp = some w →
          ∃ x, db'.window? w = some x ∧ x.buildType = inp.buildType ∧
            x.maxTokenBudget = snapBudget inp.budget := by
  intro h
  let first : GetContextInput := { buildType := .slidingWindow, budget := 8000, conversationId := some 7 }
  let second : GetContextInput := { first with budget := 200000 }
  let db := (getContext defaultConfig calmEnv {} first).1
  have hw : returnedWindow defaultConfig calmEnv db second = some 1 := by decide +kernel
  have htakes : Takes callStep {} [.getContext defaultConfig calmEnv first, .getContext defaultConfig calmEnv second]
      db (.getContext defaultConfig calmEnv second) _ := .next rfl (.here [] rfl)
  obtain ⟨x, hx, _, hbudget⟩ := h _ db defaultConfig calmEnv second _ 1 (by decide) htakes hw
  have hrow : ((getContext defaultConfig calmEnv db second).1.window? 1).any
      (fun x => x.maxTokenBudget == 8192) = true := by decide +kernel
  rw [show (getContext defaultConfig calmEnv db second).1.window? 1 = some x from hx] at hrow
  have hsmall : x.maxTokenBudget = 8192 := eq_of_beq hrow
  exact absurd (hsmall.symm.trans hbudget) (by decide)

end ContextBroker.GetContext
