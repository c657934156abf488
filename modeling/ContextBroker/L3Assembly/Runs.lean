import ContextBroker.Core.LTS
import ContextBroker.L3Assembly.Pass
import ContextBroker.L3Assembly.Passthrough

/-!
# Runs of the broker

A run is a list of events from the empty database: conversations and windows
created, messages and prompts stored, assembly passes. Passes are serial (the
next event starts when the pass has ended), each with its own configuration
and environment; messages may also arrive while a pass runs
(`Env.arrivals`). `get_assembly_graph` picks the graph by the window's build
type.

`valid_run`: every database a run reaches is `Valid`. `event_cases`: for one
window, an event is either a pass on it, with the effect `PassEffect`, or
`Quiet`: it leaves the window's active chunks alone.
-/
namespace ContextBroker

open StandardTiered

inductive Event where
  | createConversation (supplied : Option Id) (now : Time)
  | createWindow (c : Id) (participant : Text) (buildType : BuildType) (budget : Int)
  | store (s : Store)
  | pass (config : Config) (w : Id) (env : StandardTiered.Env)
  | slide (w : Id) (env : Passthrough.Env)

/-- The build types `register.py` gives the standard-tiered assembly graph. -/
def usesTiers : BuildType → Bool
  | .tieredSummary => true
  | .enriched => true
  | .slidingWindow => false
  | .other _ => false

/-- The standard-tiered pass on window `w`, if there is such a window.
mirrors app/workers/db_worker.py:530-548 -/
def passOutcome (config : Config) (env : StandardTiered.Env) (db : Db) (w : Id) :
    Option (StateGraph.Outcome Node PassState Exn) :=
  match db.window? w with
  | none => none
  | some win =>
    if usesTiers win.buildType then some (assemble config env db w win.conversationId) else none

def Event.apply (db : Db) : Event → Db
  | .createConversation supplied now => db.createConversation supplied now
  | .createWindow c participant buildType budget => db.createWindow c participant buildType budget
  | .store s => db.store s
  | .pass config w env =>
    match passOutcome config env db w with
    | some o => o.final.db
    | none => db
  | .slide w env =>
    match db.window? w with
    | some win =>
      if win.buildType = .slidingWindow then (Passthrough.assemble env db w).final.db else db
    | none => db

def broker : Machine Db Event := ⟨{}, Event.apply⟩

/-! ## One event -/

/-- The active rows of window `w` are as before, and nothing stored was lost. -/
structure Quiet (w : Id) (db db' : Db) : Prop extends Keeps db db' where
  active : ∀ t, db'.active w t = db.active w t

section

variable {db db' : Db} {w : Id}

theorem Quiet.refl (w : Id) (db : Db) : Quiet w db db := ⟨.refl db, fun _ => rfl⟩

theorem Quiet.of_evolves {v : Id} (h : Evolves v db db') (hv : w ≠ v) : Quiet w db db' :=
  ⟨h.toKeeps, h.others w hv⟩

theorem Quiet.of_grows (h : db.Grows db') : Quiet w db db' := ⟨.of_grows h, h.active w⟩

theorem Quiet.watermark (h : Quiet w db db') : db'.watermark w = db.watermark w := by
  simp only [Db.watermark, h.active]

theorem createConversation_grows (db : Db) (supplied : Option Id) (now : Time) :
    db.Grows (db.createConversation supplied now) := by
  unfold Db.createConversation
  dsimp only
  split <;> exact ⟨rfl, rfl, Nat.le_succ _, fun _ => ⟨[], (List.append_nil _).symm⟩⟩

theorem createWindow_quiet (db : Db) (c : Id) (participant : Text) (buildType : BuildType)
    (budget : Int) (w : Id) : Quiet w db (db.createWindow c participant buildType budget) := by
  have hkeep : ∀ v x, db.window? v = some x → ∃ x',
      (db.createWindow c participant buildType budget).window? v = some x' ∧ SameWindow x x' :=
    fun v x hx => ⟨x, window?_createWindow hx, rfl, rfl, rfl⟩
  unfold Db.createWindow at hkeep ⊢
  split
  · exact .refl w db
  · rename_i hconv
    split
    · exact .refl w db
    · rename_i hdup
      simp only [if_neg hconv, if_neg hdup] at hkeep
      exact ⟨⟨fun _ => ⟨[], (List.append_nil _).symm⟩, hkeep, fun r hr => ⟨r, hr, rfl⟩⟩,
        fun _ => rfl⟩

theorem slide_quiet (w v : Id) (env : Passthrough.Env) (db : Db) :
    Quiet w db (Event.apply db (.slide v env)) := by
  simp only [Event.apply]
  split
  · split
    · rcases Passthrough.assemble_final env db v with h | ⟨u, now, h⟩
      · rw [h]; exact .refl w db
      · rw [h]; exact ⟨.of_stampAssembled u now, fun _ => rfl⟩
    · exact .refl w db
  · exact .refl w db

theorem passOutcome_eq_some {config : Config} {env : StandardTiered.Env}
    {o : StateGraph.Outcome Node PassState Exn} (h : passOutcome config env db w = some o) :
    ∃ win, db.window? w = some win ∧ win.id = w ∧ usesTiers win.buildType = true ∧
      o = assemble config env db w win.conversationId := by
  unfold passOutcome at h
  split at h
  · cases h
  · rename_i win hwin
    split at h
    · rename_i htiers
      exact ⟨win, hwin, eq_of_beq (List.find?_some hwin :), htiers, (Option.some.inj h).symm⟩
    · cases h

/-- The effect of a pass, by window id. -/
theorem passOutcome_effect {config : Config} {env : StandardTiered.Env} (hv : Valid db)
    {o : StateGraph.Outcome Node PassState Exn} (h : passOutcome config env db w = some o) :
    ∃ win, db.window? w = some win ∧ win.id = w ∧ PassEffect config env win db o.final := by
  obtain ⟨win, hwin, rfl, _, rfl⟩ := passOutcome_eq_some h
  exact ⟨win, hwin, rfl, assemble_effect hv hwin⟩

/-- **One event, seen from window `w`:** a pass on it, or quiet. -/
theorem event_cases (hv : Valid db) (e : Event) (w : Id) :
    (∃ config env o, e = .pass config w env ∧ passOutcome config env db w = some o ∧
        e.apply db = o.final.db) ∨
      Quiet w db (e.apply db) := by
  cases e with
  | createConversation supplied now => exact .inr (.of_grows (createConversation_grows db supplied now))
  | createWindow c participant buildType budget => exact .inr (createWindow_quiet db c _ _ _ w)
  | store s => exact .inr (.of_grows (store_grows db s))
  | slide v env => exact .inr (slide_quiet w v env db)
  | pass config v env =>
    simp only [Event.apply]
    cases ho : passOutcome config env db v with
    | none => exact .inr (.refl w db)
    | some o =>
      by_cases hvw : w = v
      · subst hvw
        exact .inl ⟨config, env, o, rfl, ho, rfl⟩
      · obtain ⟨win, _, hid, heff⟩ := passOutcome_effect hv ho
        exact .inr (.of_evolves heff.evolves (hid ▸ hvw))

theorem valid_apply (hv : Valid db) (e : Event) : Valid (e.apply db) := by
  cases e with
  | createConversation supplied now => exact hv.createConversation supplied now
  | createWindow c participant buildType budget => exact hv.createWindow c _ _ _
  | store s => exact hv.store s
  | slide v env =>
    simp only [Event.apply]
    split
    · split
      · rcases Passthrough.assemble_final env db v with h | ⟨u, now, h⟩
        · rw [h]; exact hv
        · rw [h]; exact hv.stampAssembled u now
      · exact hv
    · exact hv
  | pass config v env =>
    simp only [Event.apply]
    split
    · rename_i o ho
      obtain ⟨_, _, _, heff⟩ := passOutcome_effect hv ho
      exact heff.valid
    · exact hv

end

theorem valid_run (evs : List Event) : Valid (broker.run evs) :=
  Machine.run_inv (M := broker) (P := Valid) .empty (fun _ e hv => valid_apply hv e) evs

/-- One event keeps what is stored. -/
theorem event_keeps {db : Db} (hv : Valid db) (e : Event) : Keeps db (e.apply db) := by
  rcases event_cases hv e 0 with ⟨config, env, o, rfl, ho, happ⟩ | hq
  · obtain ⟨_, _, _, heff⟩ := passOutcome_effect hv ho
    exact happ ▸ heff.evolves.toKeeps
  · exact hq.toKeeps

/-! ## Sample runs -/

/-- Every build type with its default section. -/
def defaultConfig : Config :=
  { buildTypes := [(.slidingWindow, {}), (.tieredSummary, {}), (.enriched, {})] }

/-- A pass in which no call raises and every LLM reply is `reply`. -/
def calm (reply : Text) : StandardTiered.Env :=
  { chunkReply := fun _ => .ok reply, recentReply := fun _ => .ok reply
    headerReply := fun _ => .ok reply, genuine := by simp }

/-- `sender` stores a text of `n` characters in conversation 0. -/
def say (sender : String) (n : Nat) : Event :=
  .store (.message 0 { conversationIdInput := some 0, role := .user, sender := sender.toList
                       content := some (List.replicate n 'x') })

/-- Conversation 0 with window 1 over it. -/
def opened (buildType : BuildType) (budget : Int) : List Event :=
  [.createConversation none 0, .createWindow 0 "auto".toList buildType budget]

/-- The window of `opened .tieredSummary 8`. -/
def sampleWindow : Window :=
  { id := 1, conversationId := 0, participantId := "auto".toList
    buildType := .tieredSummary, maxTokenBudget := 8 }

/-- `k` messages of `n` characters by alternating senders. -/
def chat (k n : Nat) : List Event :=
  (List.range k).map fun i => say (if i % 2 = 0 then "a" else "b") n

end ContextBroker
