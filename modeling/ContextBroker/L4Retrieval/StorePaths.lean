import ContextBroker.L3Assembly.Unrolled
import ContextBroker.L4Retrieval.CurrentPrompt

/-!
# The two store paths

`get_context` repeats the pipeline of `store_message` inline, but does not
look for tool errors, does not touch `updated_at` when it collapses, and
stores nothing for an empty prompt.

`store_paths_agree_iff`: the rows of the conversation are as `store_message`
would have left them exactly when none of the three matters.
-/
namespace ContextBroker.GetContext

open Rows RunLength Retrieval

/-- The call `store_message(role="user", sender="user", content=text)`. -/
def promptInput (c : Id) (text : Text) : StoreInput :=
  { conversationIdInput := some c, role := .user, sender := "user".toList, content := some text }

/-- The same conversation row and message rows of `c`. -/
def SameRows (c : Id) (db db' : Db) : Prop :=
  db.messagesOf c = db'.messagesOf c ∧ db.conversation? c = db'.conversation? c

/-- The last message is the prompt. -/
def Repeats (db : Db) (c : Id) (text : Text) (last : Message) : Prop :=
  db.lastMessage c = some last ∧ last.sender = "user".toList ∧ last.content = some text

section

variable {db : Db} {c : Id} {x : Conversation} {text : Text} {now : Time} {last : Message}

/-! ## What both paths do -/

theorem conversation?_updateConversation (db : Db) (c : Id) {f : Conversation → Conversation}
    (hf : ∀ x, (f x).id = x.id) : (db.updateConversation c f).conversation? c = (db.conversation? c).map f := by
  simp only [Db.conversation?, Db.updateConversation]
  induction db.conversations with
  | nil => rfl
  | cons x l ih =>
    cases hx : x.id == c with
    | true =>
      have hfx : ((f x).id == c) = true := by rw [hf, hx]
      simp only [List.map_cons, List.find?_cons, hx, if_true, hfx, Option.map_some]
    | false => simp only [List.map_cons, List.find?_cons, hx, if_false, Bool.false_eq_true, ih]

/-- Both paths test the last message the same way. -/
theorem collapses_prompt (last : Message) (c : Id) (text : Text) :
    collapses last (promptInput c text) = (last.sender == "user".toList && last.content == some text) := by
  simp [collapses, promptInput]

theorem resolve_promptInput (db : Db) (c : Id) (text : Text) :
    resolveConversation db (promptInput c text) = .ok c := rfl

theorem filter_repeats : (db.lastMessage c).filter (fun m => m.sender == "user".toList && m.content == some text) =
    some last ↔ Repeats db c text last := by
  simp [Option.filter_eq_some_iff, Repeats]

theorem filter_no_repeats (h : ¬ ∃ last, Repeats db c text last) :
    (db.lastMessage c).filter (fun m => m.sender == "user".toList && m.content == some text) = none := by
  cases hf : (db.lastMessage c).filter (fun m => m.sender == "user".toList && m.content == some text) with
  | none => rfl
  | some last => exact absurd ⟨last, filter_repeats.mp hf⟩ h

/-- `updated_at = NOW()`. -/
def stamp (now : Time) (x : Conversation) : Conversation := { x with updatedAt := now }

variable (now) in
/-- A repeated prompt, by the inline path and by `store_message`. -/
theorem stores_repeat (hconv : (db.conversation? c).isSome = true) (hlast : Repeats db c text last)
    (hpos : 0 < last.repeatCount) :
    storePrompt now db c text = .ok (db.setRepeatCount last.id (last.repeatCount + 1)) ∧
      db.store (.message now (promptInput c text)) =
        (db.setRepeatCount last.id (last.repeatCount + 1)).updateConversation c (stamp now) := by
  have hf := filter_repeats.mpr hlast
  have hnone : ¬ (db.conversation? c).isNone = true :=
    Bool.eq_false_iff.mp (Option.isNone_eq_false_iff.mpr hconv)
  constructor
  · rw [storePrompt, hf]
  · simp only [Db.store, storeMessage, resolve_promptInput, if_neg hnone, collapses_prompt, hf,
      if_neg (Nat.ne_of_gt hpos)]
    rfl

/-- `INSERT` of `row` and the counters that go with it. -/
def inserted (now : Time) (db : Db) (c : Id) (row : Message) (text : Text) : Db :=
  Db.countMessage { db with messages := db.messages ++ [{ row with id := db.nextId }], nextId := db.nextId + 1 }
    c (estimateTokens text) now

variable (now) in
/-- A new prompt, by the inline path and by `store_message`. -/
theorem stores_new (hconv : (db.conversation? c).isSome = true) (hnew : ¬ ∃ last, Repeats db c text last)
    (hne : text ≠ []) :
    storePrompt now db c text = .ok (inserted now db c (promptRow now db c text) text) ∧
      db.store (.message now (promptInput c text)) =
        inserted now db c (storeRow now db c (promptInput c text)) text := by
  have hf := filter_no_repeats hnew
  have hnone : ¬ (db.conversation? c).isNone = true :=
    Bool.eq_false_iff.mp (Option.isNone_eq_false_iff.mpr hconv)
  have htokens : effectiveTokenCount (some text) = estimateTokens text := by
    cases text with
    | nil => exact absurd rfl hne
    | cons a l => rfl
  constructor
  · have hins := @Db.insertMessage_next db (promptRow now db c text) hconv rfl
    rw [storePrompt, hf]
    simp only [hins]
    rfl
  · have hins := @Db.insertMessage_next db (storeRow now db c (promptInput c text)) hconv rfl
    simp only [Db.store, storeMessage, resolve_promptInput, if_neg hnone, collapses_prompt, hf, hins]
    rw [inserted, ← htokens]
    rfl

/-- `store_message` accepts any message for a conversation that exists. -/
theorem accepted_message {inp : StoreInput} (hwindow : inp.contextWindowId = none)
    (hc : inp.conversationIdInput = some c) :
    (Store.message now inp).accepted db =
      if (db.conversation? c).isSome then some (c, inp.payload) else none := by
  have hresolve : resolveConversation db inp = .ok c := by simp only [resolveConversation, hwindow, hc]
  simp only [Store.accepted, storeMessage, hresolve]
  cases hconv : (db.conversation? c).isSome with
  | false =>
    have hnone : (db.conversation? c).isNone = true := by simpa using hconv
    simp [hnone]
  | true =>
    have hsome : (db.conversation? c).isNone = false := Option.isNone_eq_false_iff.mpr hconv
    have hins := @Db.insertMessage_next db (storeRow now db c inp) hconv rfl
    simp only [hsome, Bool.false_eq_true, if_false, if_true]
    cases (db.lastMessage c).filter (collapses · inp) with
    | some last => rfl
    | none => simp only [hins]

/-- An empty prompt too. -/
theorem accepted_promptInput (hconv : (db.conversation? c).isSome = true) :
    (Store.message now (promptInput c text)).accepted db = some (c, (promptInput c text).payload) := by
  rw [accepted_message rfl rfl, if_pos hconv]

theorem isSome_updateConversation (db : Db) (c c' : Id) {f : Conversation → Conversation}
    (hf : ∀ x, (f x).id = x.id) :
    ((db.updateConversation c f).conversation? c').isSome = (db.conversation? c').isSome := by
  have hid : ∀ x : Conversation, (if x.id == c then f x else x).id = x.id := by
    intro x
    split
    · exact hf x
    · rfl
  simp only [Db.conversation?, Db.updateConversation, List.isSome_find?, List.any_map]
  congr 1
  funext x
  simp only [Function.comp_apply, hid]

/-- A store creates no conversation, and drops none. -/
theorem conversation?_storeMessage (now : Time) (db : Db) (inp : StoreInput) (c : Id) :
    (((storeMessage now db inp).2).conversation? c).isSome = (db.conversation? c).isSome := by
  unfold storeMessage
  split
  · rfl
  · split
    · rfl
    · split
      · dsimp only
        rw [isSome_updateConversation]
        · rfl
        · exact fun _ => rfl
      · dsimp only
        split
        · rfl
        · rename_i db' hins
          obtain ⟨_, _, rfl⟩ := Db.insertMessage_eq_ok.mp hins
          dsimp only [Db.countMessage]
          rw [isSome_updateConversation]
          · rfl
          · exact fun _ => rfl

/-! ## When the rows agree -/

theorem sameRows_repeat (hx : db.conversation? c = some x) (n : Nat) :
    SameRows c (db.setRepeatCount last.id n) ((db.setRepeatCount last.id n).updateConversation c (stamp now)) ↔
      x.updatedAt = now := by
  have hx' : (db.setRepeatCount last.id n).conversation? c = some x := hx
  rw [SameRows, conversation?_updateConversation _ c (f := stamp now) fun _ => rfl, hx', Option.map_some]
  constructor
  · intro ⟨_, h⟩
    exact congrArg Conversation.updatedAt (Option.some.inj h)
  · rintro rfl
    exact ⟨rfl, rfl⟩

theorem messagesOf_inserted (row : Message) (hrow : row.conversationId = c) :
    (inserted now db c row text).messagesOf c = db.messagesOf c ++ [{ row with id := db.nextId }] := by
  rw [@Db.messagesOf_append db (inserted now db c row text) { row with id := db.nextId } rfl, if_pos hrow]

theorem sameRows_new (hne : text ≠ []) :
    SameRows c (inserted now db c (promptRow now db c text) text)
        (inserted now db c (storeRow now db c (promptInput c text)) text) ↔ toolErrorPattern text = false := by
  have hrole : detectToolErrorRole (some text) .user = if toolErrorPattern text then .tool else .user := by
    cases text with
    | nil => exact absurd rfl hne
    | cons a l => simp [detectToolErrorRole]
  rw [SameRows, @messagesOf_inserted db c text now (promptRow now db c text) rfl,
    @messagesOf_inserted db c text now (storeRow now db c (promptInput c text)) rfl]
  cases hp : toolErrorPattern text with
  | true =>
    rw [hp] at hrole
    refine ⟨fun h => ?_, fun h => nomatch h⟩
    have hrows := List.append_cancel_left h.1
    simp [promptRow, storeRow, promptInput, hrole] at hrows
  | false =>
    rw [hp] at hrole
    have hcount : effectiveTokenCount (some text) = estimateTokens text := by
      cases text with
      | nil => exact absurd rfl hne
      | cons a l => rfl
    have hrow : storeRow now db c (promptInput c text) = promptRow now db c text := by
      simp only [storeRow, promptInput, hrole, hcount]
      rfl
    rw [hrow]
    exact ⟨fun _ => rfl, fun _ => ⟨rfl, rfl⟩⟩

/-- An empty prompt is a message for `store_message` only. -/
theorem sameRows_empty (hfit : Fit db) (hconv : (db.conversation? c).isSome = true) :
    ¬ SameRows c db (db.store (.message now (promptInput c text))) := by
  intro ⟨hrows, _⟩
  have hruns := (store_cases db (.message now (promptInput c text))).runs hfit.1 hfit.2 c
  rw [accepted_promptInput hconv, extendRuns, if_pos rfl, Db.runs, ← hrows] at hruns
  exact push_ne _ _ hruns.symm

end

/-! ## get_context -/

section

variable {config : Config} {env : Env} {db db₁ db' : Db} {inp : GetContextInput} {st : GetContextState}
  {c : Id} {text : Text}

theorem storeUserPrompt_eq (hprompt : st.userPrompt = some text) (hc : st.conversationId = some c)
    (hcalm : env.fault .prompt = none) :
    storeUserPrompt env db st = if text = [] then .ok db else storePrompt env.now db c text := by
  by_cases hne : text = []
  · simp [storeUserPrompt, hprompt, truthy, Option.filter, hne]
  · simp only [storeUserPrompt, hprompt, truthy_some hne, hc, perform, hcalm, if_neg hne]
    rfl

/-- `get_context` leaves the tables as its store did; the retrieval reads. -/
theorem getContext_fst (hbefore : beforeRetrieve config env db inp = (db₁, .ok st)) (herr : st.error = none)
    (hstore : storeUserPrompt env db₁ st = .ok db') : (getContext config env db inp).1 = db' := by
  simp only [getContext, andThen, hbefore, herr, Option.isSome_none, Bool.false_eq_true, if_false,
    retrieveContextNode, hstore]

end

/-- **When the two paths agree**, in every run: a `get_context` whose store
transaction goes through leaves the rows of the conversation as
`store_message` would exactly if the prompt is not empty, a repeat of the last
message finds `updated_at` at the current time already, and anything else does
not look like a tool error. -/
theorem store_paths_agree_iff (evs : List Event) (config : Config) (env : Env) (inp : GetContextInput)
    (text : Text) (db₁ : Db) (st : GetContextState) (c : Id) (x : Conversation)
    (hprompt : inp.userPrompt = some text)
    (hbefore : beforeRetrieve config env (broker.run evs) inp = (db₁, .ok st)) (herr : st.error = none)
    (hcalm : env.fault .prompt = none) (hc : st.conversationId = some c)
    (hx : db₁.conversation? c = some x) :
    SameRows c (getContext config env (broker.run evs) inp).1
        (db₁.store (.message env.now (promptInput c text))) ↔
      text ≠ [] ∧ ((∃ last, Repeats db₁ c text last) → x.updatedAt = env.now) ∧
        ((¬ ∃ last, Repeats db₁ c text last) → toolErrorPattern text = false) := by
  obtain ⟨⟨evs₁, rfl⟩, c', w, hinp, _⟩ := beforeRetrieve_ok ⟨evs, rfl⟩ hbefore herr
  have hfit := (runs_run evs₁ c).1
  have hconv : ((broker.run evs₁).conversation? c).isSome = true := by rw [hx]; rfl
  have hstore := @storeUserPrompt_eq env (broker.run evs₁) st c text
    ((congrArg GetContextInput.userPrompt hinp).trans hprompt) hc hcalm
  by_cases hne : text = []
  · rw [if_pos hne] at hstore
    rw [getContext_fst hbefore herr hstore]
    exact ⟨fun h => absurd h (sameRows_empty hfit hconv), fun h => absurd hne h.1⟩
  · rw [if_neg hne] at hstore
    by_cases hrepeat : ∃ last, Repeats (broker.run evs₁) c text last
    · obtain ⟨last, hlast⟩ := hrepeat
      have hmem := List.mem_of_getLast? ((hfit.2.lastMessage c).symm.trans hlast.1)
      have hpos := hfit.1.counts last (mem_messagesOf.mp hmem).1
      obtain ⟨hinline, hpipeline⟩ := stores_repeat env.now hconv hlast hpos
      rw [getContext_fst hbefore herr (hstore.trans hinline), hpipeline, sameRows_repeat hx]
      exact ⟨fun h => ⟨hne, fun _ => h, fun hnew => absurd ⟨last, hlast⟩ hnew⟩, fun h => h.2.1 ⟨last, hlast⟩⟩
    · obtain ⟨hinline, hpipeline⟩ := stores_new env.now hconv hrepeat hne
      rw [getContext_fst hbefore herr (hstore.trans hinline), hpipeline, sameRows_new hne]
      exact ⟨fun h => ⟨hne, fun hlast => absurd hlast hrepeat, fun _ => h⟩, fun h => h.2.2 hrepeat⟩

/-- A first call of `get_context` with the prompt `text`. -/
def askWith (text : String) : GetContextInput :=
  { buildType := .tieredSummary, budget := 8, userPrompt := some text.toList }

theorem store_paths_agree_iff_hello :
    ∃ db₁ st, ∃ x : Conversation, beforeRetrieve defaultConfig calmEnv (broker.run []) (askWith "hello") = (db₁, .ok st) ∧
      (SameRows 0 (getContext defaultConfig calmEnv (broker.run []) (askWith "hello")).1
          (db₁.store (.message 0 (promptInput 0 "hello".toList))) ↔
        "hello".toList ≠ [] ∧ ((∃ last, Repeats db₁ 0 "hello".toList last) → x.updatedAt = 0) ∧
          ((¬ ∃ last, Repeats db₁ 0 "hello".toList last) → toolErrorPattern "hello".toList = false)) := by
  obtain ⟨st, hst, hok⟩ := exists_ok
    (x := (beforeRetrieve defaultConfig calmEnv (broker.run []) (askWith "hello")).2)
    (p := fun st => decide (st.error = none ∧ st.conversationId = some 0)) (by decide +kernel)
  obtain ⟨herr, hc⟩ := of_decide_eq_true hok
  exact ⟨_, st, { id := 0 }, Prod.ext rfl hst, store_paths_agree_iff [] defaultConfig calmEnv
    (askWith "hello") "hello".toList _ st 0 { id := 0 } rfl (Prod.ext rfl hst) herr rfl hc (by decide +kernel)⟩

/-- `store_message` files an answer of a tool under role `tool`, `get_context`
under role `user`. -/
theorem store_paths_agree_false :
    ¬ ∀ (evs : List Event) (config : Config) (env : Env) (inp : GetContextInput) (text : Text) (db₁ : Db)
        (st : GetContextState) (c : Id) (x : Conversation),
      inp.userPrompt = some text → beforeRetrieve config env (broker.run evs) inp = (db₁, .ok st) →
        st.error = none → env.fault .prompt = none → st.conversationId = some c →
          db₁.conversation? c = some x →
            SameRows c (getContext config env (broker.run evs) inp).1
              (db₁.store (.message env.now (promptInput c text))) := by
  intro h
  obtain ⟨st, hst, hok⟩ := exists_ok
    (x := (beforeRetrieve defaultConfig calmEnv (broker.run []) (askWith "Error reading x")).2)
    (p := fun st => decide (st.error = none ∧ st.conversationId = some 0)) (by decide +kernel)
  obtain ⟨herr, hc⟩ := of_decide_eq_true hok
  have hsame := h [] defaultConfig calmEnv (askWith "Error reading x") "Error reading x".toList _ st 0
    { id := 0 } rfl (Prod.ext rfl hst) herr rfl hc (by decide +kernel)
  exact absurd hsame.1 (by decide +kernel)

end ContextBroker.GetContext
