import ContextBroker.L7Agent.Imperator

/-!
# The order of the prompt

`init_context_node` assembles the identity prompt, the history and the
current message, in this order, but it returns the list to a reducer that
merges by id. The client's messages have ids, so they stay where they are, in
front, and the identity and the history come after them.

`prompt_ordered_iff`: the first model call gets the messages in the order
they were assembled in exactly when nothing is assembled: the client has sent
the identity itself, and one message.
-/
namespace ContextBroker.Imperator

open KeyedMerge Retrieval

/-! ## The reducer -/

/-- Ids are drawn once. -/
structure ImperatorState.Identified (s : ImperatorState) : Prop where
  nodup : (s.messages.map (·.id)).Nodup
  fresh : ∀ m ∈ s.messages, m.id < s.nextId

section

variable {s : ImperatorState}

theorem assignIds_known (n : Nat) (ms : List AnyMessage) :
    assignIds n (ms.map fun m => ⟨some m.id, m.body⟩) = ms := by
  induction ms with
  | nil => rfl
  | cons m ms ih => simp [assignIds, ih]

theorem assignIds_append (n : Nat) (bodies : List Body) (rest : List Returned) :
    assignIds n (bodies.map made ++ rest) =
      assignIds n (bodies.map made) ++ assignIds (n + bodies.length) rest := by
  induction bodies generalizing n with
  | nil => rfl
  | cons b bodies ih =>
    simp only [List.map_cons, List.cons_append, made, assignIds, List.length_cons, List.cons.injEq, true_and]
    have hn : n + (bodies.length + 1) = n + 1 + bodies.length := by omega
    rw [hn]
    exact ih (n + 1)

theorem assignIds_bodies (n : Nat) (bodies : List Body) : (assignIds n (bodies.map made)).map (·.body) = bodies := by
  induction bodies generalizing n with
  | nil => rfl
  | cons b bodies ih => simp [made, assignIds, ih (n + 1)]

theorem assignIds_ids (n : Nat) (bodies : List Body) :
    (assignIds n (bodies.map made)).map (·.id) = List.range' n bodies.length := by
  induction bodies generalizing n with
  | nil => rfl
  | cons b bodies ih => simp [made, assignIds, List.range'_succ, ih (n + 1)]

/-- New messages come last. -/
theorem add_made (hs : s.Identified) (bodies : List Body) :
    (s.add (bodies.map made)).messages = s.messages ++ assignIds s.nextId (bodies.map made) := by
  refine merge_of_new ?_ fun a ha hmem => ?_
  · rw [assignIds_ids]
    exact List.nodup_range'
  · have hnew : a.id ∈ List.range' s.nextId bodies.length := assignIds_ids s.nextId bodies ▸ List.mem_map_of_mem ha
    obtain ⟨m, hm, hid⟩ := List.mem_map.mp hmem
    have hold := hs.fresh m hm
    rw [List.mem_range'_1] at hnew
    omega

theorem add_made_identified (hs : s.Identified) (bodies : List Body) : (s.add (bodies.map made)).Identified := by
  have hids := assignIds_ids s.nextId bodies
  constructor
  · rw [add_made hs, List.map_append, hids, List.nodup_append]
    refine ⟨hs.nodup, List.nodup_range', fun a ha b hb hab => ?_⟩
    obtain ⟨m, hm, rfl⟩ := List.mem_map.mp ha
    have hold := hs.fresh m hm
    rw [List.mem_range'_1] at hb
    omega
  · intro m hm
    rw [add_made hs] at hm
    simp only [ImperatorState.add, List.length_map]
    rcases List.mem_append.mp hm with hold | hnew
    · have := hs.fresh m hold
      omega
    · have hid : m.id ∈ List.range' s.nextId bodies.length := hids ▸ List.mem_map_of_mem hnew
      rw [List.mem_range'_1] at hid
      omega

/-- What a node returns of the state stays in its place. -/
theorem add_known (hs : s.Identified) (bodies : List Body) {ms : List AnyMessage} (hms : ms ⊆ s.messages) :
    (s.add (bodies.map made ++ ms.map fun m => ⟨some m.id, m.body⟩)).messages =
      (s.add (bodies.map made)).messages := by
  show merge _ s.messages (assignIds s.nextId _) = merge _ s.messages (assignIds s.nextId _)
  rw [assignIds_append, assignIds_known, merge_append]
  refine merge_of_subset (add_made_identified hs bodies).nodup fun m hm => ?_
  show m ∈ (s.add (bodies.map made)).messages
  rw [add_made hs]
  exact List.mem_append_left _ (hms hm)

theorem initialState_messages (client : List Body) (key : Option (Option Id)) :
    (initialState client key).messages = assignIds 0 (client.map made) :=
  add_made (s := { contextWindowId := key }) ⟨List.nodup_nil, fun _ h => nomatch h⟩ client

theorem initialState_identified (client : List Body) (key : Option (Option Id)) :
    (initialState client key).Identified :=
  add_made_identified (s := { contextWindowId := key }) ⟨List.nodup_nil, fun _ h => nomatch h⟩ client

theorem initialState_bodies (client : List Body) (key : Option (Option Id)) :
    (initialState client key).messages.map (·.body) = client := by
  rw [initialState_messages, assignIds_bodies]

end

/-! ## What is assembled -/

theorem currentUserMsg_mem {messages : List AnyMessage} {m : AnyMessage} (h : currentUserMsg messages = some m) :
    m ∈ messages := List.mem_reverse.mp (List.mem_of_find?_eq_some h)

theorem reconcile_subset (history : List Body) (messages : List AnyMessage) :
    (reconcile history messages).2 ⊆ messages := by
  unfold reconcile
  split
  · exact fun _ h => h
  · intro m hm
    dsimp only at hm
    split at hm
    · rename_i current hcurrent
      obtain rfl := List.mem_singleton.mp hm
      exact currentUserMsg_mem hcurrent
    · exact hm

/-- **The merged list**: the messages of the state, the identity, the
history. -/
theorem add_assembled {s : ImperatorState} (hs : s.Identified) (identity : Text) (history : List Body) :
    (s.add (assembled identity history s.messages)).messages.map (·.body) =
      s.messages.map (·.body) ++ .system identity :: (reconcile history s.messages).1 := by
  have hsplit : assembled identity history s.messages =
      (.system identity :: (reconcile history s.messages).1).map made ++
        (reconcile history s.messages).2.map fun m => ⟨some m.id, m.body⟩ := rfl
  rw [hsplit, add_known hs _ (reconcile_subset history s.messages), add_made hs, List.map_append, assignIds_bodies]

/-- The history without the stored copy of the current message. -/
def withoutStored (current : Text) (history : List Body) : List Body :=
  if history.getLast? = some (.human current) then history.dropLast else history

theorem reconcile_history {messages : List AnyMessage} {history : List Body} {current : Text} {m : AnyMessage}
    (hlast : messages.getLast? = some m) (hbody : m.body = .human current) :
    (reconcile history messages).1 = withoutStored current history := by
  have hne : messages ≠ [] := by
    rintro rfl
    cases hlast
  have hcurrent : currentUserMsg messages = some m := by
    obtain ⟨init, rfl⟩ := List.getLast?_eq_some_iff.mp hlast
    simp [currentUserMsg, hbody, Body.human?]
  obtain ⟨id, body⟩ := m
  subst hbody
  unfold reconcile withoutStored
  by_cases hhistory : history = []
  · simp [hhistory]
  · rw [if_neg (by simp [hhistory, hne]), hcurrent]
    dsimp only [dropStored, List.getLast?_singleton]
    cases hend : history.getLast? with
    | none => rfl
    | some body =>
      cases body with
      | human stored => by_cases hsame : stored = current <;> simp [hsame]
      | system _ | ai _ _ | tool _ _ => simp

/-! ## The first call of the model -/

/-- The turn when `llm_call_node` is first entered, or the exception that
kept it from being. -/
def atFirstCall (env : Env) (config : ImperatorConfig) (t : Turn) : Turn × Option Exn :=
  match needsInit t.state with
  | .llmCallNode => (t, none)
  | _ =>
    match initContextNode env config t with
    | (t', some e) => (t', some e)
    | (t', none) => ceacEnrichmentNode env config t'

section

variable {env : Env} {config : ImperatorConfig} {t t' : Turn}

theorem needsInit_eq (s : ImperatorState) :
    needsInit s = .llmCallNode ∧ s.messages.any (isIdentity ·.body) = true ∨
      needsInit s = .initContextNode ∧ s.messages.any (isIdentity ·.body) = false := by
  unfold needsInit
  cases h : s.messages.any (isIdentity ·.body) <;> simp

/-- `invoke` goes on from there. -/
theorem invoke_eq (h : atFirstCall env config t = (t', none)) {n : Nat} (hlimit : config.recursionLimit = n + 2) :
    ∃ k, n ≤ k ∧ invoke env config t = (imperatorFlow env config).run k .llmCallNode t' := by
  unfold atFirstCall at h
  rcases needsInit_eq t.state with ⟨hskip, _⟩ | ⟨hinit, _⟩
  · rw [hskip] at h
    obtain ⟨rfl, _⟩ := Prod.mk.inj h
    exact ⟨n + 2, by omega, by rw [invoke, hskip, hlimit]⟩
  · rw [hinit] at h
    dsimp only at h
    split at h
    · cases h
    · rename_i t₁ hnode
      refine ⟨n, le_refl n, ?_⟩
      rw [invoke, hinit, hlimit]
      simp only [Workflow.run, imperatorFlow, runNode, route, hnode, h]

/-- With CEAc disabled the node changes nothing. -/
theorem ceac_disabled (h : config.ceacEnabled = false) : ceacEnrichmentNode env config t = (t, none) := by
  simp [ceacEnrichmentNode, h]

/-- What the node that ran to its end has loaded and merged. -/
theorem initContextNode_ok (hs : t.state.Identified) (h : initContextNode env config t = (t', none)) :
    (∃ identity, env.prompt = .ok identity ∧ t'.state.messages.map (·.body) =
      t.state.messages.map (·.body) ++ .system identity ::
        (reconcile (historyMessages env identity t'.state.ceacContextMessages) t.state.messages).1) ∨
      ∃ e, env.prompt = .error e := by
  unfold initContextNode at h
  cases hprompt : env.prompt with
  | error e => exact .inr ⟨e, rfl⟩
  | ok identity =>
    rw [hprompt] at h
    refine .inl ⟨identity, rfl, ?_⟩
    dsimp only at h
    split at h
    · cases h
    · split at h
      · cases h
      · rename_i entries _
        obtain ⟨rfl, _⟩ := Prod.mk.inj h
        exact add_assembled hs identity (historyMessages env identity entries)

end

/-- The messages in order: the identity, the history that was loaded without
the stored copy of the current message, the current message. -/
def WellOrdered (env : Env) (current : Text) (s : ImperatorState) : Prop :=
  ∃ identity, env.prompt = .ok identity ∧ s.messages.map (·.body) =
    .system identity :: withoutStored current (historyMessages env identity s.ceacContextMessages) ++ [.human current]

/-- **The prompt is well ordered** only if the client has ordered it: it sent
the identity prompt, with the marker in it, and its message. -/
theorem prompt_ordered_iff (env : Env) (config : ImperatorConfig) (db : Db) (client : List Body)
    (key : Option (Option Id)) (current : Text) (t : Turn) (hclient : client.getLast? = some (.human current))
    (hceac : config.ceacEnabled = false)
    (hfirst : atFirstCall env config ⟨db, initialState client key⟩ = (t, none)) :
    WellOrdered env current t.state ↔
      ∃ identity, env.prompt = .ok identity ∧ client = [.system identity, .human current] ∧
        IDENTITY_MARKER <:+: identity := by
  have hbodies := initialState_bodies client key
  have hany : (initialState client key).messages.any (isIdentity ·.body) = client.any isIdentity := by
    conv_rhs => rw [← hbodies]
    rw [List.any_map]
    rfl
  unfold atFirstCall at hfirst
  rcases needsInit_eq (initialState client key) with ⟨hskip, hmarked⟩ | ⟨hinit, hunmarked⟩
  · rw [hskip] at hfirst
    obtain ⟨rfl, _⟩ := Prod.mk.inj hfirst
    rw [hany] at hmarked
    constructor
    · intro ⟨identity, hprompt, hordered⟩
      have hshape : client = [.system identity, .human current] := hbodies.symm.trans hordered
      refine ⟨identity, hprompt, hshape, ?_⟩
      simpa [hshape, isIdentity] using hmarked
    · rintro ⟨identity, hprompt, rfl, _⟩
      exact ⟨identity, hprompt, hbodies⟩
  · rw [hany] at hunmarked
    rw [hinit] at hfirst
    dsimp only at hfirst
    split at hfirst
    · cases hfirst
    · rename_i t₁ hnode
      rw [ceac_disabled hceac] at hfirst
      obtain ⟨rfl, _⟩ := Prod.mk.inj hfirst
      constructor
      · intro ⟨identity, hprompt, hordered⟩
        obtain ⟨identity', hprompt', hmerged⟩ | ⟨e, hfailed⟩ :=
          initContextNode_ok (initialState_identified client key) hnode
        · obtain rfl := Except.ok.inj (hprompt.symm.trans hprompt')
          obtain ⟨m, hlast, hbody⟩ : ∃ m, (initialState client key).messages.getLast? = some m ∧
              m.body = .human current := by
            rw [← hbodies, List.getLast?_map] at hclient
            exact Option.map_eq_some_iff.mp hclient
          rw [hmerged, hbodies, reconcile_history hlast hbody] at hordered
          -- the client has sent one message, and that is in front
          have hone : client.length = 1 := by
            have hlen := congrArg List.length hordered
            simp only [List.length_append, List.length_cons, List.length_nil] at hlen
            omega
          obtain ⟨b, rfl⟩ := List.length_eq_one_iff.mp hone
          obtain rfl : b = .human current := by simpa using hclient
          simp at hordered
        · rw [hprompt] at hfailed
          cases hfailed
      · rintro ⟨identity, _, rfl, hmarker⟩
        simp [isIdentity, hmarker] at hunmarked

/-! ## Sample turn -/

/-- A turn of the plain environment on conversation 0. -/
def greeting : Turn × Option Exn :=
  atFirstCall plainEnv plainConfig ⟨greetedDb, initialState [.human "hi".toList] (some (some 0))⟩

theorem greeting_messages : greeting.2 = none ∧ greeting.1.state.messages.map (·.body) =
    [.human "hi".toList, .system "You are the Imperator.".toList, .human "xxx".toList] := by decide +kernel

theorem prompt_ordered_iff_greeting :
    WellOrdered plainEnv "hi".toList greeting.1.state ↔
      ∃ identity, plainEnv.prompt = .ok identity ∧
        [Body.human "hi".toList] = [.system identity, .human "hi".toList] ∧ IDENTITY_MARKER <:+: identity :=
  prompt_ordered_iff plainEnv plainConfig greetedDb [.human "hi".toList] (some (some 0)) "hi".toList greeting.1 rfl
    rfl (Prod.ext rfl greeting_messages.1)

/-- The current message comes first. -/
theorem prompt_ordered_false :
    ¬∀ (env : Env) (config : ImperatorConfig) (db : Db) (client : List Body) (key : Option (Option Id))
        (current : Text) (t : Turn), client.getLast? = some (.human current) → config.ceacEnabled = false →
      atFirstCall env config ⟨db, initialState client key⟩ = (t, none) → WellOrdered env current t.state := by
  intro h
  obtain ⟨identity, _, hordered⟩ := h plainEnv plainConfig greetedDb [.human "hi".toList] (some (some 0)) "hi".toList
    greeting.1 rfl rfl (Prod.ext rfl greeting_messages.1)
  rw [greeting_messages.2] at hordered
  simp at hordered

end ContextBroker.Imperator
