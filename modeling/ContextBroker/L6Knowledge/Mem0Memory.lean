import ContextBroker.Core.LTS
import ContextBroker.L1Data.Schema
import Mathlib.Logic.Function.Basic

/-!
# Mem0's memories

`Memory.add` of the fork asks the LLM for facts, searches the memories near each
of them, asks the LLM what to do with those it found, and does it, action by
action. Calls run in threads, several at a time: a search, a read, a write and
the line in the history are one step each, and between two of them other calls
and deletions come in. What the LLM answers is left open, and so is which
memories a search finds, except that they match the filters it is given.

* `others_untouched`: the memories of a user are not touched by the calls of
  others, whatever the LLM answers.
* `data_hashed`: every memory carries the hash of its text; and the vector of its
  text, if no call is for an agent or a run.
* `results_replay`: the results of a call that runs alone and loses no line of
  the history, read in order, give the memories it leaves.

The graph and the raw storage of `infer=False`, which no caller asks for, are
left out.
-/
namespace ContextBroker.Mem0

open LTS

/-! ## Memories -/

/-- A payload: a key is absent, null or a string. -/
abbrev Payload := String → Option (Option Text)

/-- `payload.get(key)` -/
def Payload.get (p : Payload) (key : String) : Option Text := (p key).join

def Payload.set (p : Payload) (key : String) (value : Option Text) : Payload := Function.update p key (some value)

structure Memory (V : Type) where
  payload : Payload
  vector : V

/-- The vector store, with the next `uuid4`. -/
structure Store (V : Type) where
  memories : Id → Option (Memory V) := fun _ => none
  next : Id := 0

/-- The identifiers of a session, each if given. -/
structure Session where
  userId : Option Text := none
  agentId : Option Text := none
  runId : Option Text := none
  deriving DecidableEq, Repr

structure Env (V : Type) where
  md5 : Text → Text
  embed : Text → V
  /-- `_normalize_iso_timestamp_to_utc` -/
  normalize : Option Text → Option Text

/-! ## Actions -/

inductive ActionEvent where
  | add | update | delete | none | other
  deriving DecidableEq, Repr

/-- An entry of the LLM's list; `id` is the number it was given, if it is a
string. -/
inductive Action where
  | malformed
  | entry (text : Text) (event : ActionEvent) (id : Option Text) (oldMemory : Option Text)
  deriving DecidableEq, Repr

structure Result where
  id : Id
  memory : Text
  event : ActionEvent
  previousMemory : Option Text := none
  deriving DecidableEq, Repr

structure HistoryEntry where
  id : Id
  oldMemory : Option Text
  newMemory : Option Text
  event : ActionEvent
  deriving DecidableEq, Repr

/-- What is left of an action after its reads. -/
inductive Write where
  | insert (data : Text) (payload : Payload)
  | update (id : Id) (data : Text) (payload : Payload) (prev oldMemory : Option Text)
  | delete (id : Id) (text : Text) (prev : Option Text)
  | session (id : Id) (payload : Payload)

/-- The merge of `_update_memory`. mirrors mem0/memory/main.py:1301-1309 -/
def mergeMetadata (old new : Payload) : Payload := fun key =>
  match new key with
  | none => old key
  | some none => none
  | some (some value) => some (some value)

/-- `temp_uuid_mapping`: the memories found, by their number. -/
def tempUuidMapping (old : List Id) (id : Option Text) : Option Id :=
  id.bind fun key => (old.zipIdx.find? fun x => (toString x.2).toList == key).map Prod.fst

/-- `unique_data`: one item for an id, the last one, where the first was. -/
def uniqueData (items : List (Id × Text)) : List (Id × Text) :=
  items.foldl (fun unique item =>
    if item.1 ∈ unique.map Prod.fst then unique.map fun x => if x.1 = item.1 then item else x
    else unique ++ [item]) []

section Actions

variable {V : Type} (env : Env V)

/-- mirrors mem0/memory/main.py:1220-1223 -/
def createPayload (metadata : Payload) (data now : Text) : Payload :=
  ((metadata.set "data" (some data)).set "hash" (some (env.md5 data))).set "created_at" (some now)

/-- mirrors mem0/memory/main.py:1299-1315 -/
def updatePayload (existing metadata : Payload) (data now : Text) : Payload :=
  ((((mergeMetadata existing metadata).set "data" (some data)).set "hash" (some (env.md5 data))).set "created_at"
    (env.normalize (existing.get "created_at"))).set "updated_at" (some now)

def setGiven (p : Payload) (key : String) : Option Text → Payload
  | some value => p.set key (some value)
  | none => p

/-- `metadata.get(key)`, if it is true. -/
def Payload.given (p : Payload) (key : String) : Option Text := (p.get key).filter (· ≠ [])

def Payload.scoped (p : Payload) : Bool := (p.given "agent_id").isSome || (p.given "run_id").isSome

/-- mirrors mem0/memory/main.py:677-685 -/
def sessionPayload (existing metadata : Payload) (now : Text) : Payload :=
  ((setGiven (setGiven existing "agent_id" (metadata.given "agent_id")) "run_id" (metadata.given "run_id")).set
    "created_at" (env.normalize (existing.get "created_at"))).set "updated_at" (some now)

/-- An action up to its write; `none` if nothing is written: the entry is
skipped, or an exception ends it. mirrors mem0/memory/main.py:620-698 -/
def plan (store : Store V) (metadata : Payload) (old : List Id) (now : Text) :
    Action → Option Write
  | .malformed => none
  | .entry text event id oldMemory =>
    if text = [] then none
    else match event with
      | .add => some (.insert text (createPayload env metadata text now))
      | .update => do
        let memoryId ← tempUuidMapping old id
        let existing ← store.memories memoryId
        return .update memoryId text (updatePayload env existing.payload metadata text now)
          (existing.payload.get "data") oldMemory
      | .delete => do
        let memoryId ← tempUuidMapping old id
        let existing ← store.memories memoryId
        return .delete memoryId text (existing.payload.get "data")
      | .none => do
        let memoryId ← tempUuidMapping old id
        let existing ← (store.memories memoryId).filter fun _ => metadata.scoped
        return .session memoryId (sessionPayload env existing.payload metadata now)
      | .other => none

def Store.set (store : Store V) (id : Id) (m : Option (Memory V)) : Store V :=
  { store with memories := Function.update store.memories id m }

/-- The statement of the vector store; a memory that is gone is not updated. -/
def Store.apply (store : Store V) : Write → Store V
  | .insert data payload => { store.set store.next (some ⟨payload, env.embed data⟩) with next := store.next + 1 }
  | .update id data payload _ _ => store.set id ((store.memories id).map fun _ => ⟨payload, env.embed data⟩)
  | .delete id _ _ => store.set id none
  | .session id payload => store.set id ((store.memories id).map fun m => ⟨payload, m.vector⟩)

/-- The line of the history and the result of a write. -/
def report (next : Id) : Write → Option (HistoryEntry × Result)
  | .insert data _ => some (⟨next, none, some data, .add⟩, { id := next, memory := data, event := .add })
  | .update id data _ prev oldMemory =>
    some (⟨id, prev, some data, .update⟩, { id, memory := data, event := .update, previousMemory := oldMemory })
  | .delete id text prev => some (⟨id, some (prev.getD []), none, .delete⟩, { id, memory := text, event := .delete })
  | .session _ _ => none

end Actions

/-! ## Calls -/

/-- The arguments of `add` that scope it. -/
structure Call where
  userId : Option Text := none
  agentId : Option Text := none
  runId : Option Text := none
  metadata : Payload := fun _ => none

/-- `none` without an identifier. mirrors mem0/memory/main.py:162-239 -/
def buildFiltersAndMetadata (c : Call) : Option (Payload × Session) :=
  let given (id : Option Text) : Option Text := id.filter (· ≠ [])
  let session : Session := { userId := given c.userId, agentId := given c.agentId, runId := given c.runId }
  if session = {} then none
  else some (setGiven (setGiven (setGiven c.metadata "user_id" session.userId) "agent_id" session.agentId) "run_id"
    session.runId, session)

/-- A call after its second question: the memories it found, the actions left,
the results so far. -/
structure Ctx where
  metadata : Payload
  old : List Id
  rest : List Action
  results : List Result

inductive Phase where
  | idle
  | extracting (session : Session) (metadata : Payload)
  | searching (session : Session) (metadata : Payload) (facts : List Text) (found : List (Id × Text))
  | asking (metadata : Payload) (old : List (Id × Text))
  | acting (ctx : Ctx)
  | writing (ctx : Ctx) (w : Write)
  | logging (ctx : Ctx) (entry : HistoryEntry) (result : Result)

structure State (V : Type) where
  store : Store V := {}
  history : List HistoryEntry := []
  tasks : Nat → Phase := fun _ => .idle
  returned : List (Nat × List Result) := []

/-- `facts`, `search` and `answer` without a value, and a failed `act`, `write` or
`log`: an exception. The first three end the call, the others the action. -/
inductive Event where
  | call (t : Nat) (c : Call)
  | facts (t : Nat) (facts : Option (List Text))
  | search (t : Nat) (hits : Option (List (Id × Text)))
  | answer (t : Nat) (actions : Option (List Action))
  | act (t : Nat) (now : Text) (fails : Bool)
  | write (t : Nat) (fails : Bool)
  | log (t : Nat) (fails : Bool)
  | finish (t : Nat)
  /-- `Memory.delete` -/
  | delete (id : Id)

/-- An exception that ends the call of task `t`. -/
def Event.Raises (t : Nat) : Event → Prop
  | .facts u none | .search u none | .answer u none => u = t
  | _ => False

/-- A memory found matches the filters. -/
def Session.accepts (session : Session) (p : Payload) : Bool :=
  session.userId.all (fun id => p.get "user_id" == some id) &&
    session.agentId.all (fun id => p.get "agent_id" == some id) &&
    session.runId.all fun id => p.get "run_id" == some id

/-- What a search can return: at most five memories that are there, match the
filters, and come with their texts. -/
def Store.finds {V : Type} (store : Store V) (session : Session) (hits : List (Id × Text)) : Bool :=
  hits.length ≤ 5 && hits.all fun hit =>
    (store.memories hit.1).any fun m => session.accepts m.payload && (m.payload.get "data").getD [] == hit.2

section Step

variable {V : Type} (env : Env V)

def State.goto (s : State V) (t : Nat) (phase : Phase) : State V :=
  { s with tasks := Function.update s.tasks t phase }

/-- After the facts: a search for each, then the second question if there is a
fact; without one there are no actions. -/
def search (session : Session) (metadata : Payload) (found : List (Id × Text)) : List Text → Phase
  | [] => .asking metadata (uniqueData found)
  | facts => .searching session metadata facts found

/-- mirrors mem0/memory/main.py:495-706 -/
def step (s : State V) : Event → Option (State V)
  | .call t c =>
    match s.tasks t with
    | .idle => (buildFiltersAndMetadata c).elim (some s) fun (metadata, session) =>
      some (s.goto t (.extracting session metadata))
    | _ => none
  | .facts t facts =>
    match s.tasks t, facts with
    | .extracting _ _, none => some (s.goto t .idle)
    | .extracting _ metadata, some [] =>
      some (s.goto t (.acting { metadata, old := [], rest := [], results := [] }))
    | .extracting session metadata, some facts => some (s.goto t (search session metadata [] facts))
    | _, _ => none
  | .search t hits =>
    match s.tasks t, hits with
    | .searching _ _ _ _, none => some (s.goto t .idle)
    | .searching session metadata facts found, some hits =>
      if s.store.finds session hits then some (s.goto t (search session metadata (found ++ hits) facts.tail)) else none
    | _, _ => none
  | .answer t actions =>
    match s.tasks t, actions with
    | .asking _ _, none => some (s.goto t .idle)
    | .asking metadata old, some actions =>
      some (s.goto t (.acting { metadata, old := old.map Prod.fst, rest := actions, results := [] }))
    | _, _ => none
  | .act t now fails =>
    match s.tasks t with
    | .acting ctx =>
      match ctx.rest with
      | [] => none
      | action :: rest =>
        match if fails then none else plan env s.store ctx.metadata ctx.old now action with
        | none => some (s.goto t (.acting { ctx with rest }))
        | some w => some (s.goto t (.writing { ctx with rest } w))
    | _ => none
  | .write t fails =>
    match s.tasks t with
    | .writing ctx w =>
      if fails then some (s.goto t (.acting ctx))
      else match report s.store.next w with
        | none => some ({ s with store := s.store.apply env w }.goto t (.acting ctx))
        | some (entry, result) => some ({ s with store := s.store.apply env w }.goto t (.logging ctx entry result))
    | _ => none
  | .log t fails =>
    match s.tasks t with
    | .logging ctx entry result =>
      if fails then some (s.goto t (.acting ctx))
      else some ({ s with history := s.history ++ [entry] }.goto t (.acting { ctx with results := ctx.results ++ [result] }))
    | _ => none
  | .finish t =>
    match s.tasks t with
    | .acting ctx =>
      if ctx.rest = [] then some ({ s with returned := (t, ctx.results) :: s.returned }.goto t .idle) else none
    | _ => none
  | .delete id => some { s with store := s.store.set id none }

end Step

/-! ## What a step can do -/

section

variable {V : Type} {env : Env V} {s s' : State V} {e : Event}

@[simp] theorem goto_store {t : Nat} {phase : Phase} : (s.goto t phase).store = s.store := rfl

/-- It waits for the LLM or the vector store, outside the actions. -/
def Phase.Waits : Phase → Prop
  | .extracting _ _ | .searching _ _ _ _ | .asking _ _ => True
  | _ => False

/-- Everything a step may do: start a call, get on with the questions and
searches, plan the write of an action or skip it, write, log, return; or a
deletion. -/
inductive Turn (env : Env V) (s : State V) : Event → State V → Prop where
  | refused {t : Nat} {c : Call} : buildFiltersAndMetadata c = none → Turn env s (.call t c) s
  | call {t : Nat} {c : Call} {metadata : Payload} {session : Session} :
    buildFiltersAndMetadata c = some (metadata, session) →
    Turn env s (.call t c) (s.goto t (.extracting session metadata))
  | raised {t : Nat} {e : Event} (he : e.Raises t) : (s.tasks t).Waits → Turn env s e (s.goto t .idle)
  | noFacts {t : Nat} {session : Session} {metadata : Payload} : s.tasks t = .extracting session metadata →
    Turn env s (.facts t (some [])) (s.goto t (.acting { metadata, old := [], rest := [], results := [] }))
  | facts {t : Nat} {session : Session} {metadata : Payload} {facts : List Text} :
    s.tasks t = .extracting session metadata →
    Turn env s (.facts t (some facts)) (s.goto t (search session metadata [] facts))
  | search {t : Nat} {session : Session} {metadata : Payload} {facts : List Text} {found hits : List (Id × Text)} :
    s.tasks t = .searching session metadata facts found → s.store.finds session hits = true →
    Turn env s (.search t (some hits)) (s.goto t (search session metadata (found ++ hits) facts.tail))
  | answer {t : Nat} {metadata : Payload} {old : List (Id × Text)} {actions : List Action} :
    s.tasks t = .asking metadata old →
    Turn env s (.answer t (some actions))
      (s.goto t (.acting { metadata, old := old.map Prod.fst, rest := actions, results := [] }))
  | skip {t : Nat} {now : Text} {fails : Bool} {ctx : Ctx} {action : Action} {rest : List Action} :
    s.tasks t = .acting ctx → ctx.rest = action :: rest →
    Turn env s (.act t now fails) (s.goto t (.acting { ctx with rest }))
  | plan {t : Nat} {now : Text} {ctx : Ctx} {action : Action} {rest : List Action} {w : Write} :
    s.tasks t = .acting ctx → ctx.rest = action :: rest →
    plan env s.store ctx.metadata ctx.old now action = some w →
    Turn env s (.act t now false) (s.goto t (.writing { ctx with rest } w))
  | writeFails {t : Nat} {ctx : Ctx} {w : Write} : s.tasks t = .writing ctx w →
    Turn env s (.write t true) (s.goto t (.acting ctx))
  | writeQuietly {t : Nat} {ctx : Ctx} {w : Write} : s.tasks t = .writing ctx w → report s.store.next w = none →
    Turn env s (.write t false) ({ s with store := s.store.apply env w }.goto t (.acting ctx))
  | write {t : Nat} {ctx : Ctx} {w : Write} {entry : HistoryEntry} {result : Result} : s.tasks t = .writing ctx w →
    report s.store.next w = some (entry, result) →
    Turn env s (.write t false) ({ s with store := s.store.apply env w }.goto t (.logging ctx entry result))
  | logFails {t : Nat} {ctx : Ctx} {entry : HistoryEntry} {result : Result} : s.tasks t = .logging ctx entry result →
    Turn env s (.log t true) (s.goto t (.acting ctx))
  | log {t : Nat} {ctx : Ctx} {entry : HistoryEntry} {result : Result} : s.tasks t = .logging ctx entry result →
    Turn env s (.log t false)
      ({ s with history := s.history ++ [entry] }.goto t (.acting { ctx with results := ctx.results ++ [result] }))
  | finish {t : Nat} {ctx : Ctx} : s.tasks t = .acting ctx → ctx.rest = [] →
    Turn env s (.finish t) ({ s with returned := (t, ctx.results) :: s.returned }.goto t .idle)
  | delete {id : Id} : Turn env s (.delete id) { s with store := s.store.set id none }

theorem step_turn (hs : step env s e = some s') : Turn env s e s' := by
  cases e with
  | call t c =>
    cases ht : s.tasks t <;> simp only [step, ht, reduceCtorEq] at hs
    cases hc : buildFiltersAndMetadata c with
    | none =>
      rw [hc] at hs
      exact Option.some.inj hs ▸ .refused hc
    | some x =>
      rw [hc] at hs
      exact Option.some.inj hs ▸ .call hc
  | facts t facts =>
    cases ht : s.tasks t <;> cases facts <;> simp only [step, ht, reduceCtorEq] at hs
    next => exact Option.some.inj hs ▸ .raised rfl (by rw [ht]; trivial)
    next facts =>
      cases facts with
      | nil => exact Option.some.inj hs ▸ .noFacts ht
      | cons => exact Option.some.inj hs ▸ .facts ht
  | search t hits =>
    cases ht : s.tasks t <;> cases hits <;> simp only [step, ht, reduceCtorEq] at hs
    next => exact Option.some.inj hs ▸ .raised rfl (by rw [ht]; trivial)
    next =>
      obtain ⟨hfinds, hs⟩ := Option.ite_none_right_eq_some.mp hs
      exact Option.some.inj hs ▸ .search ht hfinds
  | answer t actions =>
    cases ht : s.tasks t <;> cases actions <;> simp only [step, ht, reduceCtorEq] at hs
    next => exact Option.some.inj hs ▸ .raised rfl (by rw [ht]; trivial)
    next => exact Option.some.inj hs ▸ .answer ht
  | act t now fails =>
    cases ht : s.tasks t <;> simp only [step, ht, reduceCtorEq] at hs
    next ctx =>
      cases hrest : ctx.rest with
      | nil =>
        rw [hrest] at hs
        cases hs
      | cons action rest =>
        simp only [hrest] at hs
        cases fails with
        | true =>
          simp only [if_true] at hs
          exact Option.some.inj hs ▸ .skip ht hrest
        | false =>
          simp only [Bool.false_eq_true, if_false] at hs
          cases hplan : plan env s.store ctx.metadata ctx.old now action with
          | none =>
            rw [hplan] at hs
            exact Option.some.inj hs ▸ .skip ht hrest
          | some w =>
            rw [hplan] at hs
            exact Option.some.inj hs ▸ .plan ht hrest hplan
  | write t fails =>
    cases ht : s.tasks t <;> simp only [step, ht, reduceCtorEq] at hs
    next ctx w =>
      cases fails with
      | true => exact Option.some.inj hs ▸ .writeFails ht
      | false =>
        simp only [Bool.false_eq_true, if_false] at hs
        cases hreport : report s.store.next w with
        | none =>
          rw [hreport] at hs
          exact Option.some.inj hs ▸ .writeQuietly ht hreport
        | some x =>
          rw [hreport] at hs
          exact Option.some.inj hs ▸ .write ht hreport
  | log t fails =>
    cases ht : s.tasks t <;> simp only [step, ht, reduceCtorEq] at hs
    next =>
      cases fails with
      | true => exact Option.some.inj hs ▸ .logFails ht
      | false => exact Option.some.inj hs ▸ .log ht
  | finish t =>
    cases ht : s.tasks t <;> simp only [step, ht, reduceCtorEq] at hs
    next =>
      obtain ⟨hrest, hs⟩ := Option.ite_none_right_eq_some.mp hs
      exact Option.some.inj hs ▸ .finish ht hrest
  | delete id => exact Option.some.inj hs ▸ .delete

end

/-! ## Whose memories -/

section

variable {V : Type} {env : Env V} {store : Store V} {u v : Text}

def Memory.user (m : Memory V) : Option Text := m.payload.get "user_id"

/-- The memories of `u`. -/
def Store.ofUser (store : Store V) (u : Text) (id : Id) : Option (Memory V) :=
  (store.memories id).filter fun m => m.user == some u

/-- The memory is one of `v`, or gone. -/
def Store.Theirs (store : Store V) (v : Text) (id : Id) : Prop :=
  id < store.next ∧ ∀ m, store.memories id = some m → m.user = some v

def Store.Bounded (store : Store V) : Prop := ∀ id, store.next ≤ id → store.memories id = none

def Write.Owned (store : Store V) (v : Text) : Write → Prop
  | .insert _ payload => payload.get "user_id" = some v
  | .update id _ payload _ _ => store.Theirs v id ∧ payload.get "user_id" = some v
  | .delete id _ _ => store.Theirs v id
  | .session id payload => store.Theirs v id ∧ payload.get "user_id" = some v

/-! ### One write -/

theorem get_set_of_ne {p : Payload} {key key' : String} (h : key' ≠ key) (value : Option Text) :
    (p.set key value).get key' = p.get key' := by
  simp only [Payload.get, Payload.set, Function.update_of_ne h]

theorem get_setGiven_of_ne {p : Payload} {key key' : String} (h : key' ≠ key) (value : Option Text) :
    (setGiven p key value).get key' = p.get key' := by
  cases value with
  | none => rfl
  | some value => exact get_set_of_ne h _

theorem user_createPayload (metadata : Payload) (data now : Text) :
    (createPayload env metadata data now).get "user_id" = metadata.get "user_id" := by
  simp only [createPayload]
  rw [get_set_of_ne (by decide), get_set_of_ne (by decide), get_set_of_ne (by decide)]

theorem user_updatePayload {existing metadata : Payload} (h : metadata.get "user_id" = some v) (data now : Text) :
    (updatePayload env existing metadata data now).get "user_id" = some v := by
  simp only [updatePayload]
  rw [get_set_of_ne (by decide), get_set_of_ne (by decide), get_set_of_ne (by decide), get_set_of_ne (by decide)]
  have hkey : metadata "user_id" = some (some v) := Option.join_eq_some_iff.mp h
  simp only [Payload.get, mergeMetadata, hkey]
  rfl

theorem user_sessionPayload (existing metadata : Payload) (now : Text) :
    (sessionPayload env existing metadata now).get "user_id" = existing.get "user_id" := by
  simp only [sessionPayload]
  rw [get_set_of_ne (by decide), get_set_of_ne (by decide), get_setGiven_of_ne (by decide),
    get_setGiven_of_ne (by decide)]

/-- The LLM's numbers lead to memories that were found, or nowhere. -/
theorem mem_of_tempUuidMapping {old : List Id} {key : Option Text} {id : Id} (h : tempUuidMapping old key = some id) :
    id ∈ old := by
  obtain ⟨key, -, h⟩ := Option.bind_eq_some_iff.mp h
  obtain ⟨x, hx, rfl⟩ := Option.map_eq_some_iff.mp h
  exact (List.mem_zipIdx' (List.mem_of_find?_eq_some hx)).2 ▸ List.getElem_mem _

theorem plan_owned {metadata : Payload} {old : List Id} {now : Text} {action : Action} {w : Write}
    (hmetadata : metadata.get "user_id" = some v) (hold : ∀ id ∈ old, store.Theirs v id)
    (h : plan env store metadata old now action = some w) : w.Owned store v := by
  cases action with
  | malformed => cases h
  | entry text event id oldMemory =>
    simp only [plan] at h
    split at h
    · cases h
    · cases event with
      | add =>
        obtain rfl := Option.some.inj h
        exact (user_createPayload metadata text now).trans hmetadata
      | update =>
        obtain ⟨mid, hmid, h⟩ := Option.bind_eq_some_iff.mp h
        obtain ⟨existing, _, h⟩ := Option.bind_eq_some_iff.mp h
        obtain rfl := Option.some.inj h
        exact ⟨hold mid (mem_of_tempUuidMapping hmid), user_updatePayload hmetadata text now⟩
      | delete =>
        obtain ⟨mid, hmid, h⟩ := Option.bind_eq_some_iff.mp h
        obtain ⟨existing, _, h⟩ := Option.bind_eq_some_iff.mp h
        obtain rfl := Option.some.inj h
        exact hold mid (mem_of_tempUuidMapping hmid)
      | none =>
        obtain ⟨mid, hmid, h⟩ := Option.bind_eq_some_iff.mp h
        obtain ⟨existing, hexisting, h⟩ := Option.bind_eq_some_iff.mp h
        have hexisting := (Option.filter_eq_some_iff.mp hexisting).1
        obtain rfl := Option.some.inj h
        have htheirs := hold mid (mem_of_tempUuidMapping hmid)
        exact ⟨htheirs, (user_sessionPayload _ metadata now).trans (htheirs.2 existing hexisting)⟩
      | other => cases h

@[simp] theorem set_next (id : Id) (m : Option (Memory V)) : (store.set id m).next = store.next := rfl

theorem set_self (id : Id) (m : Option (Memory V)) : (store.set id m).memories id = m := Function.update_self ..

theorem set_of_ne {id id' : Id} (h : id' ≠ id) (m : Option (Memory V)) :
    (store.set id m).memories id' = store.memories id' := Function.update_of_ne h ..

theorem next_apply (w : Write) : store.next ≤ (store.apply env w).next := by
  cases w with
  | insert _ _ => exact Nat.le_succ _
  | update _ _ _ _ _ | delete _ _ _ | session _ _ => exact Nat.le_refl _

theorem bounded_set (h : store.Bounded) {id : Id} (hid : id < store.next) (m : Option (Memory V)) :
    (store.set id m).Bounded := fun id' hid' => by
  rw [set_of_ne (Nat.ne_of_gt (Nat.lt_of_lt_of_le hid hid'))]
  exact h id' hid'

theorem bounded_apply (h : store.Bounded) {w : Write} (hw : w.Owned store v) : (store.apply env w).Bounded := by
  cases w with
  | insert data payload =>
    intro id hid
    have hlt : store.next < id := hid
    simp only [Store.apply]
    rw [set_of_ne (Nat.ne_of_gt hlt)]
    exact h id (Nat.le_of_lt hlt)
  | update _ _ _ _ _ => exact bounded_set h hw.1.1 _
  | delete _ _ _ => exact bounded_set h hw.1 _
  | session _ _ => exact bounded_set h hw.1.1 _

/-- A memory that was there before a write is its user's after it. -/
theorem theirs_apply {w : Write} {v' : Text} {id : Id} (hw : w.Owned store v') (h : store.Theirs v id) :
    (store.apply env w).Theirs v id := by
  refine ⟨Nat.lt_of_lt_of_le h.1 (next_apply w), fun m hm => ?_⟩
  -- the written payload has the user of the memory it replaces
  have hreplaced : ∀ {id' : Id} {payload : Payload} {f : Memory V → V}, store.Theirs v' id' →
      payload.get "user_id" = some v' →
      (store.set id' ((store.memories id').map fun m => ⟨payload, f m⟩)).memories id = some m → m.user = some v := by
    intro id' payload f htheirs huser hm
    by_cases hid : id = id'
    · subst hid
      rw [set_self] at hm
      obtain ⟨m', hm', rfl⟩ := Option.map_eq_some_iff.mp hm
      exact huser.trans ((htheirs.2 m' hm').symm.trans (h.2 m' hm'))
    · rw [set_of_ne hid] at hm
      exact h.2 m hm
  cases w with
  | insert data payload =>
    simp only [Store.apply] at hm
    rw [set_of_ne (Nat.ne_of_lt h.1)] at hm
    exact h.2 m hm
  | update id' data payload _ _ => exact hreplaced (f := fun _ => env.embed data) hw.1 hw.2 hm
  | delete id' _ _ =>
    by_cases hid : id = id'
    · subst hid
      rw [Store.apply, set_self] at hm
      cases hm
    · rw [Store.apply, set_of_ne hid] at hm
      exact h.2 m hm
  | session id' payload => exact hreplaced (f := fun m => m.vector) hw.1 hw.2 hm

theorem ofUser_set {id : Id} {m : Option (Memory V)} (hold : store.ofUser u id = none)
    (hnew : m.filter (fun m => m.user == some u) = none) (id' : Id) :
    (store.set id m).ofUser u id' = store.ofUser u id' := by
  unfold Store.ofUser at hold ⊢
  by_cases hid : id' = id
  · subst hid
    rw [set_self, hnew, hold]
  · rw [set_of_ne hid]

theorem ofUser_of_theirs {id : Id} (h : store.Theirs v id) (hne : v ≠ u) : store.ofUser u id = none := by
  unfold Store.ofUser
  cases hm : store.memories id with
  | none => rfl
  | some m => simp [Option.filter, h.2 m hm, hne]

/-- A write of another user does not touch the memories of `u`. -/
theorem ofUser_apply (hbounded : store.Bounded) {w : Write} (hw : w.Owned store v) (hne : v ≠ u) (id : Id) :
    (store.apply env w).ofUser u id = store.ofUser u id := by
  have hmap : ∀ {o : Option (Memory V)} {payload : Payload} {f : Memory V → V}, payload.get "user_id" = some v →
      (o.map fun m => (⟨payload, f m⟩ : Memory V)).filter (fun m => m.user == some u) = none := by
    intro o payload f huser
    cases o with
    | none => rfl
    | some m => simp [Option.filter, Memory.user, huser, hne]
  cases w with
  | insert data payload =>
    have hnew : store.ofUser u store.next = none := by
      unfold Store.ofUser
      rw [hbounded _ (Nat.le_refl _)]
      rfl
    exact ofUser_set hnew (hmap (o := some ⟨payload, env.embed data⟩) (f := fun m => m.vector) hw) id
  | update id' data payload _ _ =>
    exact ofUser_set (ofUser_of_theirs hw.1 hne) (hmap (f := fun _ => env.embed data) hw.2) id
  | delete id' _ _ => exact ofUser_set (ofUser_of_theirs hw hne) rfl id
  | session id' payload => exact ofUser_set (ofUser_of_theirs hw.1 hne) (hmap (f := fun m => m.vector) hw.2) id

end

/-! ### Calls of a user -/

section

variable {V : Type} {env : Env V} {store : Store V} {s s' : State V} {e : Event} {u v : Text}

def Ctx.Owned (store : Store V) (v : Text) (ctx : Ctx) : Prop :=
  ctx.metadata.get "user_id" = some v ∧ ∀ id ∈ ctx.old, store.Theirs v id

/-- A call for `v` holds on to memories of `v` only. -/
def Phase.Owned (store : Store V) (v : Text) : Phase → Prop
  | .idle => True
  | .extracting session metadata => session.userId = some v ∧ metadata.get "user_id" = some v
  | .searching session metadata _ found =>
    session.userId = some v ∧ metadata.get "user_id" = some v ∧ ∀ x ∈ found, store.Theirs v x.1
  | .asking metadata old => metadata.get "user_id" = some v ∧ ∀ x ∈ old, store.Theirs v x.1
  | .acting ctx => ctx.Owned store v
  | .writing ctx w => ctx.Owned store v ∧ w.Owned store v
  | .logging ctx _ _ => ctx.Owned store v

structure Owning (s : State V) : Prop where
  bounded : s.store.Bounded
  tasks : ∀ t, ∃ v, (s.tasks t).Owned s.store v

/-- The user a task is about to write for. -/
def Phase.writer : Phase → Option Text
  | .writing ctx _ => ctx.metadata.get "user_id"
  | _ => none

/-- The step neither writes for `u` nor deletes a memory of `u`. -/
def Others (u : Text) (s : State V) : Event → Prop
  | .write t _ => (s.tasks t).writer ≠ some u
  | .delete id => s.store.ofUser u id = none
  | _ => True

/-- Every caller passes a user. -/
def Event.ForUser : Event → Prop
  | .call _ c => ∃ v, v ≠ [] ∧ c.userId = some v
  | _ => True

theorem Write.Owned.mono {store' : Store V} (hmono : ∀ id, store.Theirs v id → store'.Theirs v id) {w : Write}
    (h : w.Owned store v) : w.Owned store' v := by
  cases w with
  | insert _ _ => exact h
  | update _ _ _ _ _ => exact ⟨hmono _ h.1, h.2⟩
  | delete _ _ _ => exact hmono _ h
  | session _ _ => exact ⟨hmono _ h.1, h.2⟩

theorem Phase.Owned.mono {store' : Store V} (hmono : ∀ id, store.Theirs v id → store'.Theirs v id) {phase : Phase}
    (h : phase.Owned store v) : phase.Owned store' v := by
  cases phase with
  | idle => trivial
  | extracting _ _ => exact h
  | searching _ _ _ _ => exact ⟨h.1, h.2.1, fun x hx => hmono _ (h.2.2 x hx)⟩
  | asking _ _ => exact ⟨h.1, fun x hx => hmono _ (h.2 x hx)⟩
  | acting _ | logging _ _ _ => exact ⟨h.1, fun x hx => hmono _ (h.2 x hx)⟩
  | writing _ _ => exact ⟨⟨h.1.1, fun x hx => hmono _ (h.1.2 x hx)⟩, h.2.mono hmono⟩

theorem Owning.goto (h : Owning s) {t : Nat} {phase : Phase} (hphase : ∃ v, phase.Owned s.store v) :
    Owning (s.goto t phase) := by
  refine ⟨h.bounded, fun t' => ?_⟩
  simp only [State.goto]
  by_cases ht : t' = t
  · subst ht
    rw [Function.update_self]
    exact hphase
  · rw [Function.update_of_ne ht]
    exact h.tasks t'

theorem Owning.withStore (h : Owning s) {store' : Store V} (hbounded : store'.Bounded)
    (hmono : ∀ v id, s.store.Theirs v id → store'.Theirs v id) : Owning { s with store := store' } := by
  refine ⟨hbounded, fun t => ?_⟩
  obtain ⟨v, hv⟩ := h.tasks t
  exact ⟨v, hv.mono (hmono v)⟩

theorem buildFiltersAndMetadata_user {c : Call} {metadata : Payload} {session : Session} (hne : v ≠ [])
    (huser : c.userId = some v) (h : buildFiltersAndMetadata c = some (metadata, session)) :
    session.userId = some v ∧ metadata.get "user_id" = some v := by
  simp only [buildFiltersAndMetadata, huser, Option.ite_none_left_eq_some] at h
  obtain ⟨-, h⟩ := h
  obtain ⟨rfl, rfl⟩ := Prod.mk.inj (Option.some.inj h)
  have hgiven : (some v).filter (fun id => decide (id ≠ [])) = some v := by simp [Option.filter, hne]
  refine ⟨hgiven, ?_⟩
  rw [get_setGiven_of_ne (by decide), get_setGiven_of_ne (by decide)]
  simp only [hgiven, setGiven, Payload.get, Payload.set, Function.update_self]
  rfl

theorem mem_uniqueData {items : List (Id × Text)} {x : Id × Text} (h : x ∈ uniqueData items) : x ∈ items := by
  have hfold : ∀ (items unique : List (Id × Text)), x ∈ items.foldl (fun unique item =>
      if item.1 ∈ unique.map Prod.fst then unique.map fun x => if x.1 = item.1 then item else x
      else unique ++ [item]) unique → x ∈ unique ∨ x ∈ items := by
    intro items
    induction items with
    | nil => exact fun unique h => .inl h
    | cons item items ih =>
      intro unique h
      rcases ih _ h with h | h
      · dsimp only at h
        split at h
        · obtain ⟨y, hy, hyx⟩ := List.mem_map.mp h
          split at hyx
          · exact .inr (hyx ▸ List.mem_cons_self)
          · exact .inl (hyx ▸ hy)
        · rcases List.mem_append.mp h with h | h
          · exact .inl h
          · exact .inr (List.mem_singleton.mp h ▸ List.mem_cons_self)
      · exact .inr (List.mem_cons_of_mem _ h)
  exact (hfold items [] h).resolve_left (by simp)

/-- What a search under the user's filter finds is the user's. -/
theorem theirs_of_finds (hbounded : store.Bounded) {session : Session} {hits : List (Id × Text)}
    (huser : session.userId = some v) (h : store.finds session hits = true) : ∀ hit ∈ hits, store.Theirs v hit.1 := by
  intro hit hhit
  have hany := List.all_eq_true.mp (Bool.and_eq_true _ _ ▸ h).2 hit hhit
  obtain ⟨m, hm, hmatch⟩ := (Option.any_eq_true _ _).mp hany
  refine ⟨?_, fun m' hm' => ?_⟩
  · by_contra hlt
    have hnone := hbounded hit.1 (Nat.le_of_not_lt hlt)
    exact absurd (hnone.symm.trans hm) (by simp)
  · obtain rfl := Option.some.inj (hm.symm.trans hm')
    simp only [Session.accepts, huser, Option.all_some, Bool.and_eq_true, beq_iff_eq] at hmatch
    exact hmatch.1.1.1

theorem owned_search {session : Session} {metadata : Payload} {found : List (Id × Text)}
    (huser : session.userId = some v) (hmetadata : metadata.get "user_id" = some v)
    (hfound : ∀ x ∈ found, store.Theirs v x.1) (facts : List Text) :
    (search session metadata found facts).Owned store v := by
  cases facts with
  | nil => exact ⟨hmetadata, fun x hx => hfound x (mem_uniqueData hx)⟩
  | cons _ _ => exact ⟨huser, hmetadata, hfound⟩

theorem owning_step (h : Owning s) (huser : e.ForUser) (hs : step env s e = some s') : Owning s' := by
  -- what a task holds on to before the step
  have howned : ∀ {t : Nat} {phase : Phase}, s.tasks t = phase → ∃ v, phase.Owned s.store v := fun {t _} ht =>
    ht ▸ h.tasks t
  have happly : ∀ {w : Write} {v : Text}, w.Owned s.store v → Owning { s with store := s.store.apply env w } :=
    fun {w v} hw => h.withStore (bounded_apply h.bounded hw) fun _ _ => theirs_apply hw
  cases step_turn hs with
  | refused _ => exact h
  | call hc =>
    obtain ⟨v, hne, hv⟩ := huser
    exact h.goto ⟨v, buildFiltersAndMetadata_user hne hv hc⟩
  | raised _ _ => exact h.goto ⟨[], trivial⟩
  | noFacts ht =>
    obtain ⟨v, -, hmetadata⟩ := howned ht
    exact h.goto ⟨v, hmetadata, fun id hid => absurd hid (by simp)⟩
  | facts ht =>
    obtain ⟨v, hsession, hmetadata⟩ := howned ht
    exact h.goto ⟨v, owned_search hsession hmetadata (fun x hx => absurd hx (by simp)) _⟩
  | search ht hfinds =>
    obtain ⟨v, hsession, hmetadata, hfound⟩ := howned ht
    refine h.goto ⟨v, owned_search hsession hmetadata (fun x hx => ?_) _⟩
    rcases List.mem_append.mp hx with hx | hx
    · exact hfound x hx
    · exact theirs_of_finds h.bounded hsession hfinds x hx
  | answer ht =>
    obtain ⟨v, hmetadata, hold⟩ := howned ht
    refine h.goto ⟨v, hmetadata, fun id hid => ?_⟩
    obtain ⟨x, hx, rfl⟩ := List.mem_map.mp hid
    exact hold x hx
  | skip ht _ =>
    obtain ⟨v, hctx⟩ := howned ht
    exact h.goto ⟨v, hctx⟩
  | plan ht _ hplan =>
    obtain ⟨v, hctx⟩ := howned ht
    exact h.goto ⟨v, hctx, plan_owned hctx.1 hctx.2 hplan⟩
  | writeFails ht =>
    obtain ⟨v, hctx, _⟩ := howned ht
    exact h.goto ⟨v, hctx⟩
  | writeQuietly ht _ | write ht _ =>
    obtain ⟨v, hctx, hw⟩ := howned ht
    exact (happly hw).goto ⟨v, hctx.1, fun id hid => theirs_apply hw (hctx.2 id hid)⟩
  | logFails ht =>
    obtain ⟨v, hctx⟩ := howned ht
    exact h.goto ⟨v, hctx⟩
  | @log t ctx entry result ht =>
    obtain ⟨v, hctx⟩ := howned ht
    have hlogged : Owning { s with history := s.history ++ [entry] } := ⟨h.bounded, h.tasks⟩
    exact hlogged.goto ⟨v, hctx⟩
  | @finish t ctx _ _ =>
    have hreturned : Owning { s with returned := (t, ctx.results) :: s.returned } := ⟨h.bounded, h.tasks⟩
    exact hreturned.goto ⟨[], trivial⟩
  | @delete id =>
    refine h.withStore (fun id' hid' => ?_) fun v id' htheirs => ⟨htheirs.1, fun m hm => ?_⟩
    · by_cases hid : id' = id
      · rw [hid, set_self]
      · rw [set_of_ne hid]
        exact h.bounded id' hid'
    · by_cases hid : id' = id
      · subst hid
        rw [set_self] at hm
        cases hm
      · rw [set_of_ne hid] at hm
        exact htheirs.2 m hm

theorem ofUser_step (h : Owning s) (hothers : Others u s e) (hs : step env s e = some s') (id : Id) :
    s'.store.ofUser u id = s.store.ofUser u id := by
  cases step_turn hs with
  | refused _ | call _ | raised _ _ | noFacts _ | facts _ | search _ _ | answer _ => rfl
  | skip _ _ | plan _ _ _ | writeFails _ | logFails _ | log _ | finish _ _ => rfl
  | writeQuietly ht _ | write ht _ =>
    obtain ⟨v, hv⟩ := h.tasks _
    rw [ht] at hv
    refine ofUser_apply h.bounded hv.2 (fun heq => hothers ?_) id
    rw [ht]
    exact hv.1.1.trans (congrArg some heq)
  | delete => exact ofUser_set hothers rfl id

/-- **Memories of a user.** If every call is for a user, the memories of `u` stay
what they are, through steps of any calls in any order and whatever the LLM
answers, until a call for `u` writes or one of them is deleted. -/
theorem others_untouched (env : Env V) (u : Text) {es₀ es : List Event} {s s' : State V}
    (h₀ : exec (step env) {} es₀ = some s) (h : exec (step env) s es = some s')
    (huser : ∀ e ∈ es₀ ++ es, e.ForUser)
    (hothers : ∀ a e b, Takes (step env) s es a e b → Others u a e) :
    ∀ id, s'.store.ofUser u id = s.store.ofUser u id := by
  have hstart : Owning s := by
    refine exec_inv (C := fun _ e => e.ForUser) (fun a e b ha he hs => owning_step ha he hs) h₀
      (fun a e b htakes => huser e (List.mem_append_left es htakes.mem)) ⟨fun _ _ => rfl, fun t => ⟨[], trivial⟩⟩
  have hinv : Owning s' ∧ ∀ id, s'.store.ofUser u id = s.store.ofUser u id := by
    refine exec_inv (I := fun a => Owning a ∧ ∀ id, a.store.ofUser u id = s.store.ofUser u id)
      (C := fun a e => e.ForUser ∧ Others u a e) (fun a e b ha he hs => ⟨owning_step ha.1 he.1 hs, fun id => ?_⟩) h
      (fun a e b htakes => ⟨huser e (List.mem_append_right es₀ htakes.mem), hothers a e b htakes⟩)
      ⟨hstart, fun _ => rfl⟩
    exact (ofUser_step ha.1 he.2 hs id).trans (ha.2 id)
  exact hinv.2

/-! ### Two users -/

def sampleEnv : Env Text where
  md5 data := data.reverse
  embed data := data
  normalize time := time

def alice : Text := "alice".toList

/-- Alice's call leaves memory 0. -/
def aliceCall : List Event :=
  [.call 0 { userId := some alice }, .facts 0 (some ["tea".toList]), .search 0 (some []),
    .answer 0 (some [.entry "tea".toList .add none none]), .act 0 [] false, .write 0 false, .log 0 false, .finish 0]

/-- Bob's finds nothing, and its LLM makes up the number 0. -/
def bobCall : List Event :=
  [.call 1 { userId := some "bob".toList }, .facts 1 (some ["tea".toList]), .search 1 (some []),
    .answer 1 (some [.entry "tea".toList .delete (some "0".toList) none, .entry "ale".toList .add none none]),
    .act 1 [] false, .act 1 [] false, .write 1 false, .log 1 false, .finish 1]

/-- The step passes `Others`. -/
def othersCheck (u : Text) (s : State Text) : Event → Bool
  | .write t _ => (s.tasks t).writer != some u
  | .delete id => (s.store.ofUser u id).isNone
  | _ => true

theorem others_of_check {u : Text} {s : State Text} {e : Event} (h : othersCheck u s e = true) : Others u s e := by
  cases e with
  | write _ _ => exact bne_iff_ne.mp h
  | delete _ => exact Option.isNone_iff_eq_none.mp h
  | call _ _ | facts _ _ | search _ _ | answer _ _ | act _ _ _ | log _ _ | finish _ => trivial

theorem forUser_aliceBob : ∀ e ∈ aliceCall ++ bobCall, e.ForUser := by
  simp only [aliceCall, bobCall, List.cons_append, List.nil_append, List.forall_mem_cons, Event.ForUser]
  exact ⟨⟨alice, by decide, rfl⟩, trivial, trivial, trivial, trivial, trivial, trivial, trivial,
    ⟨"bob".toList, by decide, rfl⟩, trivial, trivial, trivial, trivial, trivial, trivial, trivial, trivial,
    fun _ h => absurd h List.not_mem_nil⟩

def afterAlice : State Text := (exec (step sampleEnv) {} aliceCall).getD {}

theorem others_untouched_bob : ∃ s', exec (step sampleEnv) afterAlice bobCall = some s' ∧
    s'.store.ofUser alice 0 = afterAlice.store.ofUser alice 0 ∧ (s'.store.ofUser alice 0).isSome = true ∧
    (s'.store.ofUser "bob".toList 1).isSome = true := by
  have halice : exec (step sampleEnv) {} aliceCall = some afterAlice := rfl
  have hbob : exec (step sampleEnv) afterAlice bobCall = some _ := rfl
  refine ⟨_, hbob, ?_, rfl, rfl⟩
  refine others_untouched sampleEnv alice halice hbob forUser_aliceBob (fun a e b htakes => ?_) 0
  exact others_of_check (check_of_takes (othersCheck alice) rfl htakes)

end

/-! ## Texts, hashes and vectors -/

section

variable {V : Type} {env : Env V} {store : Store V} {s s' : State V} {e : Event} {plain : Prop}

/-- The payload holds `data` and its hash. -/
def Payload.Holds (env : Env V) (p : Payload) (data : Text) : Prop :=
  p.get "data" = some data ∧ p.get "hash" = some (env.md5 data)

/-- The memory holds a text and its hash and, if `plain`, the vector of the text. -/
def Memory.Sound (env : Env V) (plain : Prop) (m : Memory V) : Prop :=
  ∃ data, m.payload.Holds env data ∧ (plain → m.vector = env.embed data)

/-- A write keeps the memories sound: the update of a session, which leaves the
vector, is not one of a `plain` run. -/
def Write.Sound (env : Env V) (plain : Prop) : Write → Prop
  | .insert data payload | .update _ data payload _ _ => payload.Holds env data
  | .delete _ _ _ => True
  | .session _ payload => ¬ plain ∧ ∃ data, payload.Holds env data

theorem get_set_self (p : Payload) (key : String) (value : Option Text) : (p.set key value).get key = value := by
  simp only [Payload.get, Payload.set, Function.update_self]
  rfl

theorem holds_createPayload (metadata : Payload) (data now : Text) :
    (createPayload env metadata data now).Holds env data := by
  refine ⟨?_, ?_⟩ <;> simp only [createPayload]
  · rw [get_set_of_ne (by decide), get_set_of_ne (by decide), get_set_self]
  · rw [get_set_of_ne (by decide), get_set_self]

theorem holds_updatePayload (existing metadata : Payload) (data now : Text) :
    (updatePayload env existing metadata data now).Holds env data := by
  refine ⟨?_, ?_⟩ <;> simp only [updatePayload]
  · rw [get_set_of_ne (by decide), get_set_of_ne (by decide), get_set_of_ne (by decide), get_set_self]
  · rw [get_set_of_ne (by decide), get_set_of_ne (by decide), get_set_self]

theorem get_sessionPayload {existing metadata : Payload} {now : Text} {key : String}
    (hkey : key ∉ ["agent_id", "run_id", "created_at", "updated_at"]) :
    (sessionPayload env existing metadata now).get key = existing.get key := by
  simp only [List.mem_cons, List.not_mem_nil, or_false, not_or] at hkey
  simp only [sessionPayload]
  rw [get_set_of_ne hkey.2.2.2, get_set_of_ne hkey.2.2.1, get_setGiven_of_ne hkey.2.1, get_setGiven_of_ne hkey.1]

theorem plan_sound {metadata : Payload} {old : List Id} {now : Text} {action : Action} {w : Write}
    (hstore : ∀ id m, store.memories id = some m → m.Sound env plain) (hplain : plain → metadata.scoped = false)
    (h : plan env store metadata old now action = some w) : w.Sound env plain := by
  cases action with
  | malformed => cases h
  | entry text event id oldMemory =>
    simp only [plan] at h
    split at h
    · cases h
    · cases event with
      | add =>
        obtain rfl := Option.some.inj h
        exact holds_createPayload metadata text now
      | update =>
        obtain ⟨mid, _, h⟩ := Option.bind_eq_some_iff.mp h
        obtain ⟨existing, _, h⟩ := Option.bind_eq_some_iff.mp h
        obtain rfl := Option.some.inj h
        exact holds_updatePayload existing.payload metadata text now
      | delete =>
        obtain ⟨mid, _, h⟩ := Option.bind_eq_some_iff.mp h
        obtain ⟨existing, _, h⟩ := Option.bind_eq_some_iff.mp h
        obtain rfl := Option.some.inj h
        trivial
      | none =>
        obtain ⟨mid, _, h⟩ := Option.bind_eq_some_iff.mp h
        obtain ⟨existing, hexisting, h⟩ := Option.bind_eq_some_iff.mp h
        obtain ⟨hexisting, hscoped⟩ := Option.filter_eq_some_iff.mp hexisting
        obtain rfl := Option.some.inj h
        obtain ⟨data, hdata, -⟩ := hstore mid existing hexisting
        refine ⟨fun hp => absurd hscoped (by simp [hplain hp]), data, ?_, ?_⟩
        · rw [get_sessionPayload (by decide)]
          exact hdata.1
        · rw [get_sessionPayload (by decide)]
          exact hdata.2
      | other => cases h

theorem sound_set {id : Id} {m : Option (Memory V)} (h : ∀ id m, store.memories id = some m → m.Sound env plain)
    (hm : ∀ x ∈ m, x.Sound env plain) : ∀ id' x, (store.set id m).memories id' = some x → x.Sound env plain := by
  intro id' x hx
  by_cases hid : id' = id
  · subst hid
    rw [set_self] at hx
    exact hm x hx
  · rw [set_of_ne hid] at hx
    exact h id' x hx

theorem sound_apply {w : Write} (h : ∀ id m, store.memories id = some m → m.Sound env plain)
    (hw : w.Sound env plain) : ∀ id m, (store.apply env w).memories id = some m → m.Sound env plain := by
  cases w with
  | insert data payload =>
    refine @sound_set _ _ store _ _ _ h fun x hx => ?_
    obtain rfl := Option.some.inj hx
    exact ⟨data, hw, fun _ => rfl⟩
  | update id data payload _ _ =>
    refine sound_set h fun x hx => ?_
    obtain ⟨_, _, rfl⟩ := Option.map_eq_some_iff.mp hx
    exact ⟨data, hw, fun _ => rfl⟩
  | delete id _ _ => exact sound_set h fun x hx => absurd hx (by simp)
  | session id payload =>
    obtain ⟨hplain, data, hdata⟩ := hw
    refine sound_set h fun x hx => ?_
    obtain ⟨_, _, rfl⟩ := Option.map_eq_some_iff.mp hx
    exact ⟨data, hdata, fun hp => absurd hp hplain⟩

/-- The call is not for an agent or a run. -/
def Event.Unscoped : Event → Prop
  | .call _ c => ∀ metadata session, buildFiltersAndMetadata c = some (metadata, session) → metadata.scoped = false
  | _ => True

def Phase.Sound (env : Env V) (plain : Prop) : Phase → Prop
  | .idle => True
  | .extracting _ metadata | .searching _ metadata _ _ | .asking metadata _ => plain → metadata.scoped = false
  | .acting ctx | .logging ctx _ _ => plain → ctx.metadata.scoped = false
  | .writing ctx w => (plain → ctx.metadata.scoped = false) ∧ w.Sound env plain

structure Sound (env : Env V) (plain : Prop) (s : State V) : Prop where
  store : ∀ id m, s.store.memories id = some m → m.Sound env plain
  tasks : ∀ t, (s.tasks t).Sound env plain

theorem Sound.goto (h : Sound env plain s) {t : Nat} {phase : Phase} (hphase : phase.Sound env plain) :
    Sound env plain (s.goto t phase) := by
  refine ⟨h.store, fun t' => ?_⟩
  simp only [State.goto]
  by_cases ht : t' = t
  · subst ht
    rw [Function.update_self]
    exact hphase
  · rw [Function.update_of_ne ht]
    exact h.tasks t'

theorem sound_search {session : Session} {metadata : Payload} {found : List (Id × Text)}
    (h : plain → metadata.scoped = false) (facts : List Text) :
    (search session metadata found facts).Sound env plain := by
  cases facts with
  | nil => exact h
  | cons _ _ => exact h

theorem sound_step (h : Sound env plain s) (hplain : plain → e.Unscoped) (hs : step env s e = some s') :
    Sound env plain s' := by
  have hphase : ∀ {t : Nat} {phase : Phase}, s.tasks t = phase → phase.Sound env plain := fun {t _} ht =>
    ht ▸ h.tasks t
  cases step_turn hs with
  | refused _ => exact h
  | call hc => exact h.goto fun hp => hplain hp _ _ hc
  | raised _ _ => exact h.goto trivial
  | noFacts ht => exact h.goto fun hp => hphase ht hp
  | facts ht => exact h.goto (sound_search (hphase ht) _)
  | search ht _ => exact h.goto (sound_search (hphase ht) _)
  | answer ht => exact h.goto fun hp => hphase ht hp
  | skip ht _ => exact h.goto fun hp => hphase ht hp
  | plan ht _ hplan =>
    have hctx := hphase ht
    exact h.goto ⟨hctx, plan_sound h.store hctx hplan⟩
  | writeFails ht => exact h.goto (hphase ht).1
  | @writeQuietly t ctx w ht _ =>
    have hw := hphase ht
    have hwritten : Sound env plain { s with store := s.store.apply env w } := ⟨sound_apply h.store hw.2, h.tasks⟩
    exact hwritten.goto hw.1
  | @write t ctx w entry result ht _ =>
    have hw := hphase ht
    have hwritten : Sound env plain { s with store := s.store.apply env w } := ⟨sound_apply h.store hw.2, h.tasks⟩
    exact hwritten.goto hw.1
  | logFails ht => exact h.goto fun hp => hphase ht hp
  | @log t ctx entry result ht =>
    have hlogged : Sound env plain { s with history := s.history ++ [entry] } := ⟨h.store, h.tasks⟩
    exact hlogged.goto fun hp => hphase ht hp
  | @finish t ctx _ _ =>
    have hreturned : Sound env plain { s with returned := (t, ctx.results) :: s.returned } := ⟨h.store, h.tasks⟩
    exact hreturned.goto trivial
  | delete => exact ⟨sound_set h.store fun x hx => absurd hx (by simp), h.tasks⟩

/-- **What a memory holds.** Whatever calls interleave, every memory has a text and
the hash of that text; and its vector is the text's in a run without calls for an
agent or a run, whose NONE actions write old payloads back next to new vectors. -/
theorem data_hashed (env : Env V) {es : List Event} {s : State V} (h : exec (step env) {} es = some s) {id : Id}
    {m : Memory V} (hm : s.store.memories id = some m) :
    ∃ data, m.payload.get "data" = some data ∧ m.payload.get "hash" = some (env.md5 data) ∧
      ((∀ e ∈ es, e.Unscoped) → m.vector = env.embed data) := by
  have hsound : Sound env (∀ e ∈ es, e.Unscoped) s := by
    refine exec_inv (C := fun _ e => (∀ e ∈ es, e.Unscoped) → e.Unscoped)
      (fun a e b ha he hs => sound_step ha he hs) h (fun a e b htakes hplain => hplain e htakes.mem) ?_
    exact ⟨fun _ _ hm => absurd hm (by simp), fun _ => trivial⟩
  obtain ⟨data, hdata, hvector⟩ := hsound.store id m hm
  exact ⟨data, hdata.1, hdata.2, hvector⟩

theorem data_hashed_alice : ∃ m, afterAlice.store.memories 0 = some m ∧
    m.payload.get "hash" = some "aet".toList ∧ m.vector = "tea".toList := by
  have hrun : exec (step sampleEnv) {} aliceCall = some afterAlice := rfl
  have hm : afterAlice.store.memories 0 = some _ := rfl
  have hplain : ∀ e ∈ aliceCall, e.Unscoped := by
    simp only [aliceCall, List.forall_mem_cons, Event.Unscoped]
    refine ⟨fun metadata session hc => ?_, trivial, trivial, trivial, trivial, trivial, trivial, trivial,
      fun _ h => absurd h List.not_mem_nil⟩
    obtain ⟨rfl, rfl⟩ := Prod.mk.inj (Option.some.inj hc)
    rfl
  obtain ⟨data, hdata, hhash, hvector⟩ := data_hashed sampleEnv hrun hm
  obtain rfl : "tea".toList = data := Option.some.inj hdata
  exact ⟨_, hm, hhash, hvector hplain⟩

end

/-! ## What a call returns -/

section

variable {V : Type} {env : Env V} {store : Store V} {s₀ s s' : State V} {e : Event} {t : Nat}

/-- The text of a memory. -/
def Store.text (store : Store V) (id : Id) : Option Text := (store.memories id).bind fun m => m.payload.get "data"

/-- What a result says of the texts. -/
def Result.play (r : Result) (texts : Id → Option Text) : Id → Option Text :=
  match r.event with
  | .add | .update => Function.update texts r.id (some r.memory)
  | .delete => Function.update texts r.id none
  | .none | .other => texts

def replay (texts : Id → Option Text) (results : List Result) : Id → Option Text :=
  results.foldl (fun texts r => r.play texts) texts

/-- The task of an event. -/
def Event.task : Event → Option Nat
  | .call t _ | .facts t _ | .search t _ | .answer t _ | .act t _ _ | .write t _ | .log t _ | .finish t => some t
  | .delete _ => none

/-- Planned on the store as it is. -/
def Write.Planned (store : Store V) : Write → Prop
  | .insert data payload => payload.get "data" = some data
  | .update id data payload _ _ => payload.get "data" = some data ∧ (store.memories id).isSome = true
  | .delete _ _ _ => True
  | .session id payload => payload.get "data" = store.text id

theorem plan_planned {metadata : Payload} {old : List Id} {now : Text} {action : Action} {w : Write}
    (h : plan env store metadata old now action = some w) : w.Planned store := by
  cases action with
  | malformed => cases h
  | entry text event id oldMemory =>
    simp only [plan] at h
    split at h
    · cases h
    · cases event with
      | add =>
        obtain rfl := Option.some.inj h
        exact (@holds_createPayload _ env metadata text now).1
      | update =>
        obtain ⟨mid, _, h⟩ := Option.bind_eq_some_iff.mp h
        obtain ⟨existing, hexisting, h⟩ := Option.bind_eq_some_iff.mp h
        obtain rfl := Option.some.inj h
        exact ⟨(@holds_updatePayload _ env existing.payload metadata text now).1, by rw [hexisting]; rfl⟩
      | delete =>
        obtain ⟨mid, _, h⟩ := Option.bind_eq_some_iff.mp h
        obtain ⟨existing, _, h⟩ := Option.bind_eq_some_iff.mp h
        obtain rfl := Option.some.inj h
        trivial
      | none =>
        obtain ⟨mid, _, h⟩ := Option.bind_eq_some_iff.mp h
        obtain ⟨existing, hexisting, h⟩ := Option.bind_eq_some_iff.mp h
        have hexisting := (Option.filter_eq_some_iff.mp hexisting).1
        obtain rfl := Option.some.inj h
        have hkeeps : (sessionPayload env existing.payload metadata now).get "data" = existing.payload.get "data" :=
          get_sessionPayload (by decide)
        exact hkeeps.trans (by rw [Store.text, hexisting]; rfl)
      | other => cases h

theorem text_set (id : Id) (m : Option (Memory V)) :
    (store.set id m).text = Function.update store.text id (m.bind fun m => m.payload.get "data") := by
  funext id'
  unfold Store.text
  by_cases hid : id' = id
  · subst hid
    rw [set_self, Function.update_self]
  · rw [set_of_ne hid, Function.update_of_ne hid]

/-- The texts after a write are what its result says. -/
theorem text_apply {w : Write} (h : w.Planned store) :
    (store.apply env w).text = (report store.next w).elim store.text fun x => x.2.play store.text := by
  cases w with
  | insert data payload =>
    have hset := @text_set _ store store.next (some ⟨payload, env.embed data⟩)
    rw [Option.bind_some, h] at hset
    exact hset
  | update id data payload _ _ =>
    obtain ⟨m, hm⟩ := Option.isSome_iff_exists.mp h.2
    simp only [Store.apply, hm, Option.map_some]
    rw [text_set, Option.bind_some, h.1]
    rfl
  | delete id _ _ =>
    simp only [Store.apply]
    rw [text_set]
    rfl
  | session id payload =>
    simp only [Store.apply]
    rw [text_set]
    have hsame : ((store.memories id).map fun m => (⟨payload, m.vector⟩ : Memory V)).bind
        (fun m => m.payload.get "data") = store.text id := by
      cases hm : store.memories id with
      | none => simp [Store.text, hm]
      | some m => exact h
    rw [hsame, Function.update_eq_self]
    rfl

/-- How far a call that runs alone since `s₀` has come. -/
def Alone (s₀ : State V) (t : Nat) (s : State V) : Prop :=
  match s.tasks t with
  | .idle => s.returned = s₀.returned ∨
      ∃ results, s.returned = (t, results) :: s₀.returned ∧ s.store.text = replay s₀.store.text results
  | .extracting _ _ | .searching _ _ _ _ | .asking _ _ => s.returned = s₀.returned ∧ s.store.text = s₀.store.text
  | .acting ctx => s.returned = s₀.returned ∧ s.store.text = replay s₀.store.text ctx.results
  | .writing ctx w => s.returned = s₀.returned ∧ s.store.text = replay s₀.store.text ctx.results ∧ w.Planned s.store
  | .logging ctx _ r => s.returned = s₀.returned ∧ s.store.text = replay s₀.store.text (ctx.results ++ [r])

theorem replay_snoc (texts : Id → Option Text) (results : List Result) (r : Result) :
    replay texts (results ++ [r]) = r.play (replay texts results) := by
  simp only [replay, List.foldl_append, List.foldl_cons, List.foldl_nil]

theorem tasks_goto (t : Nat) (phase : Phase) : (s.goto t phase).tasks t = phase := Function.update_self ..

theorem alone_search {session : Session} {metadata : Payload} {found : List (Id × Text)} {facts : List Text}
    (h : s.returned = s₀.returned ∧ s.store.text = s₀.store.text) :
    Alone s₀ t (s.goto t (search session metadata found facts)) := by
  unfold Alone
  rw [tasks_goto]
  cases facts with
  | nil => exact h
  | cons _ _ => exact h

theorem alone_step (h : Alone s₀ t s) (htask : e.task = some t) (hcall : ∀ u c, e ≠ .call u c)
    (hlog : ∀ u, e ≠ .log u true) (hs : step env s e = some s') : Alone s₀ t s' := by
  unfold Alone at h ⊢
  cases step_turn hs with
  | refused _ | call _ => exact absurd rfl (hcall _ _)
  | @raised u _ he hwaits =>
    obtain rfl : u = t := by
      cases e with
      | facts _ x | search _ x | answer _ x =>
        cases x with
        | none => exact he.symm.trans (Option.some.inj htask)
        | some _ => exact absurd he id
      | call _ _ | act _ _ _ | write _ _ | log _ _ | finish _ | delete _ => exact absurd he id
    rw [tasks_goto]
    cases ht : s.tasks u with
    | extracting _ _ | searching _ _ _ _ | asking _ _ =>
      rw [ht] at h
      exact .inl h.1
    | idle | acting _ | writing _ _ | logging _ _ _ =>
      rw [ht] at hwaits
      exact absurd hwaits id
  | noFacts ht =>
    obtain rfl := Option.some.inj htask
    rw [ht] at h
    rw [tasks_goto]
    exact h
  | facts ht =>
    obtain rfl := Option.some.inj htask
    rw [ht] at h
    exact alone_search h
  | search ht _ =>
    obtain rfl := Option.some.inj htask
    rw [ht] at h
    exact alone_search h
  | answer ht =>
    obtain rfl := Option.some.inj htask
    rw [ht] at h
    rw [tasks_goto]
    exact h
  | skip ht _ =>
    obtain rfl := Option.some.inj htask
    rw [ht] at h
    rw [tasks_goto]
    exact h
  | plan ht _ hplan =>
    obtain rfl := Option.some.inj htask
    rw [ht] at h
    rw [tasks_goto]
    exact ⟨h.1, h.2, plan_planned hplan⟩
  | writeFails ht =>
    obtain rfl := Option.some.inj htask
    rw [ht] at h
    rw [tasks_goto]
    exact ⟨h.1, h.2.1⟩
  | writeQuietly ht hreport =>
    obtain rfl := Option.some.inj htask
    rw [ht] at h
    rw [tasks_goto]
    have htext := @text_apply _ env _ _ h.2.2
    rw [hreport, Option.elim_none] at htext
    exact ⟨h.1, htext.trans h.2.1⟩
  | write ht hreport =>
    obtain rfl := Option.some.inj htask
    rw [ht] at h
    rw [tasks_goto]
    have htext := @text_apply _ env _ _ h.2.2
    rw [hreport, Option.elim_some, h.2.1, ← replay_snoc] at htext
    exact ⟨h.1, htext⟩
  | logFails _ => exact absurd rfl (hlog _)
  | log ht =>
    obtain rfl := Option.some.inj htask
    rw [ht] at h
    rw [tasks_goto]
    exact h
  | finish ht _ =>
    obtain rfl := Option.some.inj htask
    rw [ht] at h
    rw [tasks_goto]
    exact .inr ⟨_, by rw [← h.1]; rfl, h.2⟩
  | delete => cases htask

/-- **Results.** A call that runs alone, with no other call or deletion in between,
and whose lines of the history all arrive returns what it did: its results, read in
order, turn the texts before the call into those after it. -/
theorem results_replay (env : Env V) {c : Call} {es : List Event} {results : List Result}
    (h : exec (step env) s (.call t c :: es) = some s') (htask : ∀ e ∈ es, e.task = some t)
    (hcall : ∀ e ∈ es, ∀ u c, e ≠ .call u c) (hlog : ∀ e ∈ es, ∀ u, e ≠ .log u true)
    (hreturned : s'.returned = (t, results) :: s.returned) :
    s'.store.text = replay s.store.text results := by
  obtain ⟨s₁, hs₁, hrest⟩ := Option.bind_eq_some_iff.mp h
  have hfirst : Alone s t s₁ := by
    cases step_turn hs₁ with
    | refused _ =>
      unfold Alone
      have hidle : s.tasks t = .idle := by
        cases ht : s.tasks t <;> simp [step, ht] at hs₁ ⊢
      rw [hidle]
      exact .inl rfl
    | call _ =>
      unfold Alone
      rw [tasks_goto]
      exact ⟨rfl, rfl⟩
    | raised he _ => exact absurd he id
  have hend : Alone s t s' := by
    refine exec_inv (C := fun _ e => e.task = some t ∧ (∀ u c, e ≠ .call u c) ∧ ∀ u, e ≠ .log u true)
      (fun a e b ha he hs => alone_step ha he.1 he.2.1 he.2.2 hs) hrest
      (fun a e b htakes => ⟨htask e htakes.mem, hcall e htakes.mem, hlog e htakes.mem⟩) hfirst
  have hnew : s'.returned ≠ s.returned := by
    rw [hreturned]
    exact fun heq => absurd (congrArg List.length heq) (by simp)
  unfold Alone at hend
  cases ht : s'.tasks t with
  | idle =>
    rw [ht] at hend
    rcases hend with hsame | ⟨results', hres, htext⟩
    · exact absurd hsame hnew
    · obtain rfl : results' = results := by
        have heq := hres.symm.trans hreturned
        simpa using heq
      exact htext
  | extracting _ _ | searching _ _ _ _ | asking _ _ | acting _ | writing _ _ | logging _ _ _ =>
    rw [ht] at hend
    exact absurd hend.1 hnew

theorem results_replay_alice : afterAlice.store.text = replay (fun _ => none) [⟨0, "tea".toList, .add, none⟩] := by
  have hrun : exec (step sampleEnv) {} (.call 0 { userId := some alice } :: aliceCall.tail) = some afterAlice := rfl
  refine results_replay sampleEnv hrun ?_ ?_ ?_ rfl
  · simp [aliceCall, Event.task]
  · simp [aliceCall]
  · simp [aliceCall]

end

end ContextBroker.Mem0
