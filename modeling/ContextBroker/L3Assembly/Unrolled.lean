import ContextBroker.L2Store.Collapse
import ContextBroker.L3Assembly.SummaryRows

/-!
# The conversation behind the collapsed rows

The messages a conversation accepted in a run, in order (`acceptedIn`),
through either store path and whether a pass was under way or not, against
its rows. `runs_run`: the rows are the runs of the accepted messages.

`unrolled_run`: replacing every row with `repeat_count` copies gives every
column of the accepted messages, in order, exactly when messages that follow
one another with the same sender and content agree in all of them; otherwise a
message has the other columns of the first one of its run, and with them still
its own role, sender and content if repeats come with the role they had.
-/
namespace ContextBroker

open Rows RunLength StandardTiered

/-! ## What a table with the same messages keeps -/

section

variable {db db' : Db}

theorem StandardTiered.SameMessages.messagesOf (h : SameMessages db db') (c : Id) : db'.messagesOf c = db.messagesOf c := by
  simp only [Db.messagesOf, h.messages]

theorem StandardTiered.SameMessages.tracked (h : SameMessages db db') (hdb : db.Tracked) : db'.Tracked := by
  refine ⟨h.messages ▸ hdb.nodup, ?_, h.messages ▸ hdb.counts⟩
  rw [h.messages]
  exact fun m hm => Nat.lt_of_lt_of_le (hdb.ids m hm) h.nextId

theorem StandardTiered.SameMessages.consecutive (h : SameMessages db db') (hdb : db.Consecutive) : db'.Consecutive := by
  intro c
  rw [h.messagesOf]
  exact hdb c

theorem StandardTiered.SameMessages.runs (h : SameMessages db db') (c : Id) : db'.runs c = db.runs c := by
  rw [Db.runs, Db.runs, h.messagesOf]

end

/-! ## Accepted in a run -/

/-- What conversation `c` accepts while node `n` runs. -/
def StandardTiered.arrivalsAt (config : Config) (env : StandardTiered.Env) (c : Id) (n : Node) (s : PassState) :
    List Payload :=
  (nodeBody config env n s.db s.st).1.accepted c (env.arrivals n)

/-- What conversation `c` accepts in an event. -/
def Event.accepted (db : Db) (c : Id) : Event → List Payload
  | .store s => db.accepted c [s]
  | .pass config w env =>
    match db.window? w with
    | none => []
    | some win =>
      if usesTiers win.buildType then
        (assemblyGraph config env).collect (arrivalsAt config env c)
          ⟨db, { contextWindowId := w, conversationId := win.conversationId }⟩
      else []
  | .createConversation _ _ | .createWindow _ _ _ _ | .slide _ _ => []

/-- The messages conversation `c` accepted in the run, in order. -/
def acceptedIn (c : Id) (evs : List Event) : List Payload :=
  (evs.foldl (fun x e => (e.apply x.1, x.2 ++ e.accepted x.1 c)) (({} : Db), [])).2

theorem acceptedIn_snoc (c : Id) (evs : List Event) (e : Event) :
    acceptedIn c (evs ++ [e]) = acceptedIn c evs ++ e.accepted (broker.run evs) c := by
  have hdb : (evs.foldl (fun x e => (e.apply x.1, x.2 ++ e.accepted x.1 c)) (({} : Db), [])).1 =
      broker.run evs := by
    induction evs using List.reverseRecOn with
    | nil => rfl
    | append_singleton evs e ih => rw [List.foldl_concat, Machine.run_snoc, ih]; rfl
  rw [acceptedIn, List.foldl_concat, hdb]
  rfl

section

variable {db : Db} {c : Id}

theorem pushAll_append (runs : List (Payload × Nat)) (xs ys : List Payload) :
    pushAll sameMessage (pushAll sameMessage runs xs) ys = pushAll sameMessage runs (xs ++ ys) :=
  (List.foldl_append ..).symm

theorem node_db (config : Config) (env : StandardTiered.Env) (n : Node) (s : PassState) :
    (node config env n s).1.db = (nodeBody config env n s.db s.st).1.storeAll (env.arrivals n) := by
  unfold node
  split <;> rename_i hb <;> rw [hb]

/-- The message table is fit to collapse in. -/
def Fit (db : Db) : Prop := db.Tracked ∧ db.Consecutive

theorem StandardTiered.SameMessages.fit {db' : Db} (h : SameMessages db db') (hdb : Fit db) : Fit db' :=
  ⟨h.tracked hdb.1, h.consecutive hdb.2⟩

/-- A node extends the runs by what arrived while it ran. -/
theorem node_runs (config : Config) (env : StandardTiered.Env) (n : Node) {s : PassState} (hs : Fit s.db)
    (c : Id) :
    Fit (node config env n s).1.db ∧ (node config env n s).1.db.runs c =
      pushAll sameMessage (s.db.runs c) (arrivalsAt config env c n s) := by
  have hsame := nodeBody_sameMessages config env n s.db s.st
  obtain ⟨htracked, hcons⟩ := hsame.fit hs
  rw [node_db, runs_storeAll _ htracked hcons, hsame.runs]
  exact ⟨⟨storeAll_tracked _ htracked, storeAll_consecutive _ hcons⟩, rfl⟩

theorem fit_outline (config : Config) (env : StandardTiered.Env) :
    (assemblyGraph config env).Outline (fun _ s => Fit s.db) (fun _ s => Fit s.db) := by
  have hstep : ∀ n s s' e, Fit s.db → node config env n s = (s', e) → Fit s'.db := by
    intro n s s' e hs hn
    have hfit := (node_runs config env n hs 0).1
    rwa [hn] at hfit
  exact ⟨fun n s s' _ => hstep n s s' _, fun n s s' hs hn _ => hstep n s s' _ hs hn,
    fun n s s' _ hs hn _ => hstep n s s' _ hs hn⟩

/-- A pass extends the runs by what arrived during it. -/
theorem invoke_runs (config : Config) (env : StandardTiered.Env) {s : PassState} (hs : Fit s.db) (c : Id) :
    Fit ((assemblyGraph config env).invoke s).final.db ∧
      ((assemblyGraph config env).invoke s).final.db.runs c =
        pushAll sameMessage (s.db.runs c) ((assemblyGraph config env).collect (arrivalsAt config env c) s) :=
  ⟨(fit_outline config env).invoke hs,
    StateGraph.measure_invoke (g := assemblyGraph config env) (arrivalsAt config env c)
      (fun s => s.db.runs c) (pushAll sameMessage) (fun s => Fit s.db) (fun _ => rfl) pushAll_append
      (fun n _ hs => node_runs config env n hs c) s hs⟩

/-- **One event extends the runs** by what the conversation accepts in it. -/
theorem event_runs (e : Event) (hdb : Fit db) (c : Id) :
    Fit (e.apply db) ∧ (e.apply db).runs c = pushAll sameMessage (db.runs c) (e.accepted db c) := by
  have hsame : ∀ {db'}, SameMessages db db' → Fit db' ∧ db'.runs c = pushAll sameMessage (db.runs c) [] :=
    fun h => ⟨h.fit hdb, h.runs c⟩
  cases e with
  | createConversation supplied now =>
    refine hsame ?_
    simp only [Event.apply, Db.createConversation]
    split <;> exact .of_summaries rfl (Nat.le_succ _) rfl
  | createWindow c' participant buildType budget =>
    have hwindows := (createWindow_quiet db c' participant buildType budget 0).windows
    refine hsame ?_
    simp only [Event.apply]
    unfold Db.createWindow at hwindows ⊢
    split
    · exact .refl db
    · rename_i hconv
      split
      · exact .refl db
      · rename_i hdup
        simp only [if_neg hconv, if_neg hdup] at hwindows
        exact ⟨rfl, Nat.le_succ _, hwindows⟩
  | store s =>
    refine ⟨⟨(store_cases db s).tracked hdb.1, store_consecutive hdb.2 s⟩, ?_⟩
    exact runs_storeAll [s] hdb.1 hdb.2 c
  | slide v env =>
    refine hsame ?_
    simp only [Event.apply]
    split
    · split
      · rcases Passthrough.assemble_final env db v with h | ⟨u, now, h⟩ <;> rw [h]
        · exact .refl db
        · exact ⟨rfl, Nat.le_refl _, (Keeps.of_stampAssembled _ _).windows⟩
      · exact .refl db
    · exact .refl db
  | pass config w env =>
    simp only [Event.apply, Event.accepted, passOutcome]
    cases db.window? w with
    | none => exact hsame (.refl db)
    | some win =>
      dsimp only
      by_cases htiers : usesTiers win.buildType = true
      · simp only [if_pos htiers]
        exact invoke_runs config env (s := ⟨db, { contextWindowId := w, conversationId := win.conversationId }⟩) hdb c
      · simp only [if_neg htiers]
        exact hsame (.refl db)

/-- The rows of a conversation are the runs of what it accepted. -/
theorem runs_run (evs : List Event) (c : Id) :
    Fit (broker.run evs) ∧ (broker.run evs).runs c = pushAll sameMessage [] (acceptedIn c evs) := by
  refine Machine.run_hist (M := broker) (P := fun evs db => Fit db ∧
    db.runs c = pushAll sameMessage [] (acceptedIn c evs)) ?_ (fun evs e ih => ?_) evs
  · exact ⟨⟨⟨List.nodup_nil, (fun _ h => nomatch h), fun _ h => nomatch h⟩, fun _ => rfl⟩, rfl⟩
  · obtain ⟨hfit, hruns⟩ := event_runs e ih.1 c
    refine ⟨hfit, ?_⟩
    rw [acceptedIn_snoc, ← pushAll_append, ← ih.2]
    exact hruns

end

/-- **The rows unrolled** are the accepted messages, each as the first of its
run: with role, sender and content as accepted when a repeat comes with the role
it had, and with every column exactly if repeats agree in all of them. -/
theorem unrolled_run (evs : List Event) (c : Id) :
    (broker.run evs).unrolled c = emitted sameMessage none (acceptedIn c evs) ∧
      (((acceptedIn c evs).IsChain fun a x => sameMessage a x = true → a.role = x.role) →
        ((broker.run evs).unrolled c).map (fun x => (x.role, x.sender, x.content)) =
          (acceptedIn c evs).map (fun x => (x.role, x.sender, x.content))) ∧
      ((broker.run evs).unrolled c = acceptedIn c evs ↔
        (acceptedIn c evs).IsChain fun a x => sameMessage a x = true → a = x) := by
  have hemitted : (broker.run evs).unrolled c = emitted sameMessage none (acceptedIn c evs) := by
    rw [Db.unrolled, (runs_run evs c).2, expand_pushAll, expand_nil, List.nil_append]
    rfl
  refine ⟨hemitted, fun hrole => ?_, ?_⟩
  · rw [hemitted]
    refine map_emitted_of_isChain sameMessage_euclid none _ (hrole.imp fun a x h hs => ?_)
    obtain ⟨hsender, hcontent, _⟩ := sameMessage_iff.mp hs
    rw [h hs, hsender, hcontent]
  · rw [hemitted]
    exact emitted_eq_iff none _

/-- An assistant message of conversation 0 with a tool call. -/
def callTool (call : String) : Event :=
  .store (.message 0 { conversationIdInput := some 0, role := .assistant, sender := "m".toList
                       content := some "ok".toList, toolCalls := some call.toList })

/-- A repeat with another tool call. -/
def toolRun : List Event := opened .tieredSummary 8 ++ [say "a" 8, say "a" 8, callTool "f", callTool "g"]

theorem unrolled_run_toolRun :
    (broker.run toolRun).unrolled 0 = emitted sameMessage none (acceptedIn 0 toolRun) ∧
      ((broker.run toolRun).unrolled 0).map (fun x => (x.role, x.sender, x.content)) =
        (acceptedIn 0 toolRun).map (fun x => (x.role, x.sender, x.content)) ∧
      ((broker.run toolRun).unrolled 0 = acceptedIn 0 toolRun ↔
        (acceptedIn 0 toolRun).IsChain fun a x => sameMessage a x = true → a = x) :=
  ⟨(unrolled_run toolRun 0).1, (unrolled_run toolRun 0).2.1 (by decide +kernel), (unrolled_run toolRun 0).2.2⟩

/-- The second tool call is lost. -/
theorem unrolled_run_false : ¬ ∀ (evs : List Event) (c : Id), (broker.run evs).unrolled c = acceptedIn c evs := by
  intro h
  have hlost : (broker.run toolRun).unrolled 0 ≠ acceptedIn 0 toolRun := by decide +kernel
  exact hlost (h toolRun 0)

end ContextBroker
