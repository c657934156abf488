import ContextBroker.Core.LTS
import ContextBroker.L1Data.Schema
import Mathlib.Logic.Function.Basic

/-!
# MCP sessions

`GET /mcp` opens a session: a bounded queue and a stream that empties it.
`POST /mcp?sessionId=` dispatches a tool call and then puts the response on
the session's queue. Requests and streams are tasks of one event loop, so a
step is what runs between two suspensions; the blocks under `_session_lock`
do not suspend, so the lock is free whenever a task asks for it. A queue
outlives its entry in `_sessions`: the stream of an evicted session keeps
reading it.

What `dispatch_tool` does is a parameter: a tool call changes the world and
returns a response or raises. `executed` and `enqueued` are ghosts, the calls
dispatched and the calls whose response was queued.

`accounting_exact_iff`: `_total_queued_messages` is the number of queued
responses as long as no stream reads the queue of an evicted session while
the counter is positive, and no longer.
-/
namespace ContextBroker.Mcp

open Rows LTS

/-! ## State -/

abbrev SessionId := Nat

abbrev RequestId := Nat

/-- The tuning of one request. mirrors app/routes/mcp.py:49-51,103-105 -/
structure Limits where
  maxSessions : Int := 1000
  sessionTtl : Int := 3600
  maxTotalQueued : Int := 10000
  deriving DecidableEq, Repr

structure Session where
  id : SessionId
  createdAt : Time
  deriving DecidableEq, Repr

/-- A queued response; it carries the id of its request. -/
structure Payload (R : Type) where
  request : RequestId
  result : R
  deriving DecidableEq, Repr

/-- `_sessions` in insertion order, the queue of each session, and
`_total_queued_messages`. -/
structure Registry (R : Type) where
  sessions : List Session := []
  queue : SessionId → List (Payload R) := fun _ => []
  totalQueued : Int := 0

/-- The generator of a stream: before its `try`, in the loop, or over. -/
inductive Stream where
  | opening | running | closed
  deriving DecidableEq, Repr

inductive Response (R : Type) where
  | result (r : R)
  | queued
  | notFound (id : SessionId)
  | disconnected (id : SessionId)
  | queueFull
  | failed (e : Exn)
  deriving DecidableEq, Repr

/-- The session is unknown, gone, or its queue is full. -/
def Response.isRejection {R : Type} : Response R → Bool
  | .notFound _ => true
  | .disconnected _ => true
  | .queueFull => true
  | .result _ => false
  | .queued => false
  | .failed _ => false

inductive Phase (R : Type) where
  | received
  | dispatched (r : R)
  | located (id : SessionId) (r : R)
  | answered (response : Response R)
  deriving DecidableEq, Repr

/-- A `tools/call` request. -/
structure Call (C R : Type) where
  tool : C
  session : Option SessionId
  phase : Phase R := .received
  deriving DecidableEq, Repr

structure State (C W R : Type) extends Registry R where
  stream : SessionId → Option Stream := fun _ => none
  call : RequestId → Option (Call C R) := fun _ => none
  world : W
  executed : List (RequestId × C) := []
  enqueued : List RequestId := []

/-! ## Eviction -/

section

variable {R : Type}

def qsize (queue : SessionId → List (Payload R)) (x : Session) : Nat := (queue x.id).length

def Registry.ids (g : Registry R) : List SessionId := g.sessions.map (·.id)

/-- mirrors app/routes/mcp.py:69-78 -/
def evictExpired (g : Registry R) (now : Time) (sessionTtl : Int) : Registry R :=
  let stale : Session → Bool := fun x => sessionTtl < (now : Int) - x.createdAt
  { g with sessions := g.sessions.filter fun x => !stale x
           totalQueued := g.totalQueued - (total (qsize g.queue) (g.sessions.filter stale) : Nat) }

/-- `popitem` of an empty dict raises. mirrors app/routes/mcp.py:81-84 -/
def evictOverCap (qsize : Session → Nat) (maxSessions : Int) :
    List Session → Int → List Session × Int × Option Exn
  | [], n => ([], n, if maxSessions < 0 then some .keyError else none)
  | x :: xs, n =>
    if maxSessions < ((x :: xs).length : Nat) then evictOverCap qsize maxSessions xs (n - qsize x)
    else (x :: xs, n, none)

/-- mirrors app/routes/mcp.py:87-90 -/
def evictUnderPressure (qsize : Session → Nat) (maxTotalQueued : Int) :
    List Session → Int → List Session × Int
  | [], n => ([], n)
  | x :: xs, n =>
    if maxTotalQueued < n then evictUnderPressure qsize maxTotalQueued xs (n - qsize x) else (x :: xs, n)

/-- mirrors app/routes/mcp.py:59-90 -/
def evictStaleSessions (g : Registry R) (limits : Limits) (now : Time) : Registry R × Option Exn :=
  let g := evictExpired g now limits.sessionTtl
  match evictOverCap (qsize g.queue) limits.maxSessions g.sessions g.totalQueued with
  | (sessions, totalQueued, some e) => ({ g with sessions, totalQueued }, some e)
  | (sessions, totalQueued, none) =>
    let kept := evictUnderPressure (qsize g.queue) limits.maxTotalQueued sessions totalQueued
    ({ g with sessions := kept.1, totalQueued := kept.2 }, none)

/-! ## Steps -/

/-- `asyncio.Queue(maxsize=100)`. -/
def queueCapacity : Nat := 100

/-- `put_nowait`, and the counter. mirrors app/routes/mcp.py:315-317 -/
def Registry.put (g : Registry R) (id : SessionId) (message : Payload R) : Registry R :=
  { g with queue := Function.update g.queue id (g.queue id ++ [message]), totalQueued := g.totalQueued + 1 }

/-- `get` of a queue that starts with a message, and the counter.
mirrors app/routes/mcp.py:127-130 -/
def Registry.take (g : Registry R) (id : SessionId) : Registry R :=
  { g with queue := Function.update g.queue id (g.queue id).tail, totalQueued := max 0 (g.totalQueued - 1) }

/-- The `finally` block of a stream. mirrors app/routes/mcp.py:135-143 -/
def Registry.remove (g : Registry R) (id : SessionId) : Registry R :=
  if id ∈ g.ids then
    { g with sessions := g.sessions.filter (·.id != id), totalQueued := max 0 (g.totalQueued - (g.queue id).length) }
  else g

end

inductive Label (C : Type) where
  /-- `GET /mcp` at time `now`; `id` is a fresh `uuid4`. -/
  | connect (id : SessionId) (limits : Limits) (now : Time)
  /-- The first event is sent. -/
  | start (id : SessionId)
  | consume (id : SessionId)
  /-- The stream leaves its loop: a disconnect or a cancellation. -/
  | finish (id : SessionId)
  /-- The stream is dropped before its loop. -/
  | drop (id : SessionId)
  | receive (request : RequestId) (tool : C) (session : Option SessionId)
  | dispatch (request : RequestId)
  /-- The first look at `_sessions`. -/
  | lookup (request : RequestId)
  /-- The block under the lock. -/
  | deliver (request : RequestId)
  deriving DecidableEq, Repr

section

variable {C W R : Type} (tool : C → W → W × Except Exn R)

def State.setPhase (s : State C W R) (p : RequestId) (c : Call C R) (phase : Phase R) : State C W R :=
  { s with call := Function.update s.call p (some { c with phase }) }

/-- mirrors app/routes/mcp.py:107-114 -/
def connect (s : State C W R) (id : SessionId) (limits : Limits) (now : Time) : State C W R :=
  match evictStaleSessions s.toRegistry limits now with
  | (g, some _) => { s with toRegistry := g }
  | (g, none) =>
    { s with sessions := g.sessions ++ [⟨id, now⟩], queue := Function.update g.queue id []
             totalQueued := g.totalQueued, stream := Function.update s.stream id (some .opening) }

/-- mirrors app/routes/mcp.py:264-267 -/
def dispatch (s : State C W R) (p : RequestId) (c : Call C R) : State C W R :=
  let (world, result) := tool c.tool s.world
  let phase : Phase R := match result with
    | .ok r => .dispatched r
    | .error e => .answered (.failed e)
  { s.setPhase p c phase with world, executed := s.executed ++ [(p, c.tool)] }

/-- mirrors app/routes/mcp.py:287-300,342 -/
def lookup (s : State C W R) (p : RequestId) (c : Call C R) (r : R) : State C W R :=
  match c.session with
  | none => s.setPhase p c (.answered (.result r))
  | some id => s.setPhase p c (if id ∈ s.ids then .located id r else .answered (.notFound id))

/-- mirrors app/routes/mcp.py:301-340 -/
def deliver (s : State C W R) (p : RequestId) (c : Call C R) (id : SessionId) (r : R) : State C W R :=
  if id ∉ s.ids then s.setPhase p c (.answered (.disconnected id))
  else if queueCapacity ≤ (s.queue id).length then s.setPhase p c (.answered .queueFull)
  else
    { s.setPhase p c (.answered .queued) with
      toRegistry := s.put id ⟨p, r⟩, enqueued := s.enqueued ++ [p] }

def step (s : State C W R) : Label C → Option (State C W R)
  | .connect id limits now => if s.stream id = none then some (connect s id limits now) else none
  | .start id =>
    if s.stream id = some .opening then
      some { s with stream := Function.update s.stream id (some .running) }
    else none
  | .consume id =>
    if s.stream id = some .running ∧ s.queue id ≠ [] then some { s with toRegistry := s.take id } else none
  | .finish id =>
    if s.stream id = some .running then
      some { s with toRegistry := s.remove id, stream := Function.update s.stream id (some .closed) }
    else none
  | .drop id =>
    if s.stream id = some .opening then
      some { s with stream := Function.update s.stream id (some .closed) }
    else none
  | .receive p t session =>
    if s.call p = none then
      some { s with call := Function.update s.call p (some { tool := t, session }) }
    else none
  | .dispatch p =>
    match s.call p with
    | some ⟨t, session, .received⟩ => some (dispatch tool s p ⟨t, session, .received⟩)
    | _ => none
  | .lookup p =>
    match s.call p with
    | some ⟨t, session, .dispatched r⟩ => some (lookup s p ⟨t, session, .dispatched r⟩ r)
    | _ => none
  | .deliver p =>
    match s.call p with
    | some ⟨t, session, .located id r⟩ => some (deliver s p ⟨t, session, .located id r⟩ id r)
    | _ => none

def initial (w : W) : State C W R := { world := w }

def system (w : W) : LTS (State C W R) (Label C) := ofStep (· = initial w) (step tool)

end

/-! ## The counter -/

/-- The number of queued responses, over the sessions in `_sessions`. -/
def Registry.queued {R : Type} (g : Registry R) : Nat := total (qsize g.queue) g.sessions

/-- The accounting is exact. -/
def Registry.Exact {R : Type} (g : Registry R) : Prop := g.totalQueued = g.queued

section

variable {R : Type} {g g' : Registry R} {id : SessionId}

/-- What an eviction does: some sessions go, each with its queue. -/
structure Evicted (g g' : Registry R) : Prop where
  sublist : g'.sessions.Sublist g.sessions
  queue : g'.queue = g.queue
  balance : g'.totalQueued - g'.queued = g.totalQueued - g.queued

theorem Evicted.trans {g'' : Registry R} (h : Evicted g g') (h' : Evicted g' g'') : Evicted g g'' :=
  ⟨h'.sublist.trans h.sublist, h'.queue.trans h.queue, h'.balance.trans h.balance⟩

theorem evictExpired_evicted (g : Registry R) (now : Time) (ttl : Int) :
    Evicted g (evictExpired g now ttl) := by
  refine ⟨List.filter_sublist, rfl, ?_⟩
  have hsplit := total_perm (qsize g.queue) (List.filter_append_perm (fun x : Session =>
    decide (ttl < (now : Int) - x.createdAt)) g.sessions)
  rw [total_append] at hsplit
  simp only [evictExpired, Registry.queued] at hsplit ⊢
  show (g.totalQueued - _) - (total (qsize g.queue) _ : Nat) = _
  omega

theorem evictOverCap_spec (qsize : Session → Nat) (cap : Int) :
    ∀ (xs : List Session) (n : Int), (evictOverCap qsize cap xs n).1.Sublist xs ∧
      (evictOverCap qsize cap xs n).2.1 - total qsize (evictOverCap qsize cap xs n).1 = n - total qsize xs
  | [], n => ⟨List.Sublist.refl _, rfl⟩
  | x :: xs, n => by
    obtain ⟨hsub, hbal⟩ := evictOverCap_spec qsize cap xs (n - qsize x)
    unfold evictOverCap
    split
    · refine ⟨hsub.cons x, ?_⟩
      rw [hbal, total_cons]
      omega
    · exact ⟨List.Sublist.refl _, rfl⟩

theorem evictUnderPressure_spec (qsize : Session → Nat) (cap : Int) :
    ∀ (xs : List Session) (n : Int), (evictUnderPressure qsize cap xs n).1.Sublist xs ∧
      (evictUnderPressure qsize cap xs n).2 - total qsize (evictUnderPressure qsize cap xs n).1 =
        n - total qsize xs
  | [], n => ⟨List.Sublist.refl _, rfl⟩
  | x :: xs, n => by
    obtain ⟨hsub, hbal⟩ := evictUnderPressure_spec qsize cap xs (n - qsize x)
    unfold evictUnderPressure
    split
    · refine ⟨hsub.cons x, ?_⟩
      rw [hbal, total_cons]
      omega
    · exact ⟨List.Sublist.refl _, rfl⟩

theorem evictStaleSessions_evicted (g : Registry R) (limits : Limits) (now : Time) :
    Evicted g (evictStaleSessions g limits now).1 := by
  have hexpired := evictExpired_evicted g now limits.sessionTtl
  unfold evictStaleSessions
  generalize evictExpired g now limits.sessionTtl = g₁ at hexpired ⊢
  have hcap := evictOverCap_spec (qsize g₁.queue) limits.maxSessions g₁.sessions g₁.totalQueued
  dsimp only
  generalize evictOverCap (qsize g₁.queue) limits.maxSessions g₁.sessions g₁.totalQueued = out at hcap ⊢
  obtain ⟨sessions, n, e⟩ := out
  cases e with
  | some e => exact hexpired.trans ⟨hcap.1, rfl, hcap.2⟩
  | none =>
    have hpressure := evictUnderPressure_spec (qsize g₁.queue) limits.maxTotalQueued sessions n
    exact hexpired.trans ⟨hpressure.1.trans hcap.1, rfl, hpressure.2.trans hcap.2⟩

/-- A registered session among the others. -/
theorem sessions_split (hnodup : g.ids.Nodup) (hid : id ∈ g.ids) :
    ∃ l₁ x l₂, g.sessions = l₁ ++ x :: l₂ ∧ x.id = id ∧ ∀ y ∈ l₁ ++ l₂, y.id ≠ id := by
  obtain ⟨x, hx, rfl⟩ := List.mem_map.mp hid
  obtain ⟨l₁, l₂, hl⟩ := List.append_of_mem hx
  refine ⟨l₁, x, l₂, hl, rfl, fun y hy => ?_⟩
  have hmid : (x.id :: (l₁ ++ l₂).map (·.id)).Nodup := by
    rw [Registry.ids, hl, List.map_append, List.map_cons] at hnodup
    rw [List.map_append]
    exact List.nodup_middle.mp hnodup
  exact fun h => (List.nodup_cons.mp hmid).1 (h ▸ List.mem_map_of_mem hy)

theorem queued_update_other (hid : id ∉ g.ids) (q : List (Payload R)) (n : Int) :
    ({ g with queue := Function.update g.queue id q, totalQueued := n } : Registry R).queued = g.queued := by
  refine total_congr _ fun x hx => ?_
  have hne : x.id ≠ id := fun h => hid (h ▸ List.mem_map_of_mem hx)
  simp only [qsize, Function.update_of_ne hne]

theorem queued_update (hnodup : g.ids.Nodup) (hid : id ∈ g.ids) (q : List (Payload R)) (n : Int) :
    ({ g with queue := Function.update g.queue id q, totalQueued := n } : Registry R).queued +
      (g.queue id).length = g.queued + q.length := by
  obtain ⟨l₁, x, l₂, hl, rfl, hne⟩ := sessions_split hnodup hid
  have hsame : ∀ y ∈ l₁ ++ l₂, qsize (Function.update g.queue x.id q) y = qsize g.queue y := fun y hy => by
    simp only [qsize, Function.update_of_ne (hne y hy)]
  have h₁ := total_congr _ fun y hy => hsame y (List.mem_append_left l₂ hy)
  have h₂ := total_congr _ fun y hy => hsame y (List.mem_append_right l₁ hy)
  have hx : qsize (Function.update g.queue x.id q) x = q.length := by simp only [qsize, Function.update_self]
  have hold : qsize g.queue x = (g.queue x.id).length := rfl
  simp only [Registry.queued, hl, total_append, total_cons]
  omega

theorem queued_remove (hnodup : g.ids.Nodup) (hid : id ∈ g.ids) :
    (g.remove id).queued + (g.queue id).length = g.queued := by
  obtain ⟨l₁, x, l₂, hl, rfl, hne⟩ := sessions_split hnodup hid
  have hkeep : (l₁ ++ l₂).filter (fun y => y.id != x.id) = l₁ ++ l₂ :=
    List.filter_eq_self.mpr fun y hy => bne_iff_ne.mpr (hne y hy)
  rw [List.filter_append] at hkeep
  have hold : qsize g.queue x = (g.queue x.id).length := rfl
  simp only [Registry.remove, if_pos hid, Registry.queued, hl, List.filter_append, List.filter_cons, bne_self_eq_false,
    Bool.false_eq_true, if_false, hkeep, total_append, total_cons]
  omega

end

section

variable {C W R : Type} {tool : C → W → W × Except Exn R} {s s' : State C W R} {l : Label C}

/-- What a step can do to the sessions, the queues and the counter. -/
inductive RegistryStep (s : State C W R) : Label C → Registry R → Prop where
  | same {l : Label C} (hl : ∀ id, l ≠ .consume id) : RegistryStep s l s.toRegistry
  | evicted {id : SessionId} {limits : Limits} {now : Time} {g : Registry R}
    (h : Evicted s.toRegistry g) : RegistryStep s (.connect id limits now) g
  | opened {id : SessionId} {limits : Limits} {now : Time} {g : Registry R} (fresh : s.stream id = none)
    (h : Evicted s.toRegistry g) : RegistryStep s (.connect id limits now)
      { sessions := g.sessions ++ [⟨id, now⟩], queue := Function.update g.queue id []
        totalQueued := g.totalQueued }
  | consumed {id : SessionId} (h : s.queue id ≠ []) : RegistryStep s (.consume id) (s.take id)
  | removed {id : SessionId} : RegistryStep s (.finish id) (s.remove id)
  | put {p : RequestId} {id : SessionId} {message : Payload R} (registered : id ∈ s.ids) :
    RegistryStep s (.deliver p) (s.put id message)

/-- Sessions with a stream, and those a step leaves. -/
structure StreamStep (s s' : State C W R) : Prop where
  kept : ∀ id, s.stream id ≠ none → s'.stream id ≠ none
  opened : ∀ id ∈ s'.ids, id ∈ s.ids ∨ s'.stream id ≠ none

theorem StreamStep.of_eq (hs : s'.stream = s.stream) (h : ∀ id ∈ s'.ids, id ∈ s.ids) : StreamStep s s' :=
  ⟨fun _ hid => hs ▸ hid, fun id hid => .inl (h id hid)⟩

theorem StreamStep.of_update {id : SessionId} {phase : Stream}
    (hs : s'.stream = Function.update s.stream id (some phase))
    (h : ∀ k ∈ s'.ids, k ∈ s.ids ∨ k = id) : StreamStep s s' := by
  have hnew : s'.stream id ≠ none := by simp [hs]
  have hkept : ∀ k, s.stream k ≠ none → s'.stream k ≠ none := fun k hk => by
    by_cases hkid : k = id
    · rwa [hkid]
    · rwa [hs, Function.update_of_ne hkid]
  refine ⟨hkept, fun k hk => ?_⟩
  rcases h k hk with hold | rfl
  · exact .inl hold
  · exact .inr hnew

theorem connect_registry {id : SessionId} (hid : s.stream id = none) (limits : Limits) (now : Time) :
    RegistryStep s (.connect id limits now) (connect s id limits now).toRegistry ∧
      StreamStep s (connect s id limits now) := by
  have hev := evictStaleSessions_evicted s.toRegistry limits now
  have hids : ∀ k ∈ (evictStaleSessions s.toRegistry limits now).1.ids, k ∈ s.ids :=
    fun k hk => (hev.sublist.map _).subset hk
  unfold connect
  generalize evictStaleSessions s.toRegistry limits now = out at hev hids ⊢
  obtain ⟨g, e⟩ := out
  cases e with
  | some e => exact ⟨.evicted hev, .of_eq rfl hids⟩
  | none =>
    refine ⟨.opened hid hev, .of_update rfl fun k hk => ?_⟩
    simp only [Registry.ids, List.map_append, List.map_cons, List.map_nil, List.mem_append,
      List.mem_singleton] at hk
    exact hk.imp_left (hids k)

theorem deliver_registry (s : State C W R) (p : RequestId) (c : Call C R) (id : SessionId) (r : R) :
    RegistryStep s (.deliver p) (deliver s p c id r).toRegistry ∧ StreamStep s (deliver s p c id r) := by
  unfold deliver
  split
  · exact ⟨.same (by simp), .of_eq rfl fun _ h => h⟩
  · rename_i hid
    split
    · exact ⟨.same (by simp), .of_eq rfl fun _ h => h⟩
    · exact ⟨.put (not_not.mp hid), .of_eq rfl fun _ h => h⟩

theorem step_registry (h : step tool s l = some s') :
    RegistryStep s l s'.toRegistry ∧ StreamStep s s' := by
  cases l with
  | connect id limits now =>
    obtain ⟨hid, h⟩ := Option.ite_none_right_eq_some.mp h
    obtain rfl := Option.some.inj h
    exact connect_registry hid limits now
  | start id | drop id =>
    obtain ⟨_, h⟩ := Option.ite_none_right_eq_some.mp h
    obtain rfl := Option.some.inj h
    exact ⟨.same (by simp), .of_update rfl fun _ hk => .inl hk⟩
  | consume id =>
    obtain ⟨hq, h⟩ := Option.ite_none_right_eq_some.mp h
    obtain rfl := Option.some.inj h
    exact ⟨.consumed hq.2, .of_eq rfl fun _ hk => hk⟩
  | finish id =>
    obtain ⟨_, h⟩ := Option.ite_none_right_eq_some.mp h
    obtain rfl := Option.some.inj h
    refine ⟨.removed, .of_update rfl fun k hk => .inl ?_⟩
    simp only [Registry.remove] at hk
    split at hk
    · exact (List.filter_sublist.map _).subset hk
    · exact hk
  | receive p t session =>
    obtain ⟨_, h⟩ := Option.ite_none_right_eq_some.mp h
    obtain rfl := Option.some.inj h
    exact ⟨.same (by simp), .of_eq rfl fun _ hk => hk⟩
  | dispatch p =>
    simp only [step] at h
    split at h
    · obtain rfl := Option.some.inj h
      exact ⟨.same (by simp), .of_eq rfl fun _ hk => hk⟩
    · cases h
  | lookup p =>
    simp only [step] at h
    split at h
    · obtain rfl := Option.some.inj h
      unfold lookup
      split <;> exact ⟨.same (by simp), .of_eq rfl fun _ hk => hk⟩
    · cases h
  | deliver p =>
    simp only [step] at h
    split at h
    · obtain rfl := Option.some.inj h
      exact deliver_registry s p _ _ _
    · cases h

/-- Session ids are unique, and a registered one has had its stream. -/
structure Inv (s : State C W R) : Prop where
  nodup : s.ids.Nodup
  streamed : ∀ id ∈ s.ids, s.stream id ≠ none

theorem Inv.initial (w : W) : Inv (Mcp.initial w : State C W R) :=
  ⟨List.nodup_nil, fun _ h => nomatch h⟩

theorem Inv.nodup_step (hI : Inv s) {g : Registry R} (h : RegistryStep s l g) : g.ids.Nodup := by
  cases h with
  | same | consumed | put => exact hI.nodup
  | evicted hev => exact (hev.sublist.map _).nodup hI.nodup
  | @opened id _ _ g hid hev =>
    rw [Registry.ids, List.map_append, List.nodup_append]
    refine ⟨(hev.sublist.map _).nodup hI.nodup, List.nodup_singleton _, fun a ha b hb => ?_⟩
    obtain rfl := List.mem_singleton.mp hb
    rintro rfl
    exact hI.streamed _ ((hev.sublist.map _).subset ha) hid
  | removed =>
    unfold Registry.remove
    split
    · exact (List.filter_sublist.map _).nodup hI.nodup
    · exact hI.nodup

theorem Inv.step (hI : Inv s) (h : step tool s l = some s') : Inv s' := by
  obtain ⟨hreg, hstream⟩ := step_registry h
  exact ⟨hI.nodup_step hreg, fun id hid =>
    (hstream.opened id hid).elim (fun hold => hstream.kept id (hI.streamed id hold)) fun hnew => hnew⟩

/-- The stream that takes a message is that of a session in `_sessions`, or
the counter is at 0. -/
def Counted (s : State C W R) : Label C → Prop
  | .consume id => id ∈ s.ids ∨ s.totalQueued = 0
  | _ => True

theorem exact_take_iff (hI : Inv s) (hP : s.Exact) {id : SessionId} (hq : s.queue id ≠ []) :
    (s.take id).Exact ↔ id ∈ s.ids ∨ s.totalQueued = 0 := by
  have hlen := List.length_pos_iff.mpr hq
  have htail := List.length_tail (l := s.queue id)
  have hP' : s.totalQueued = s.queued := hP
  by_cases hid : id ∈ s.ids
  · have hcount := queued_update hI.nodup hid (s.queue id).tail (max 0 (s.totalQueued - 1))
    refine iff_of_true ?_ (.inl hid)
    show max 0 (s.totalQueued - 1) = ((Registry.take s.toRegistry id).queued : Int)
    simp only [Registry.take]
    omega
  · have hcount := queued_update_other hid (s.queue id).tail (max 0 (s.totalQueued - 1))
    show max 0 (s.totalQueued - 1) = ((Registry.take s.toRegistry id).queued : Int) ↔ _
    simp only [Registry.take, hcount, hid, false_or]
    omega

/-- **One step** keeps the accounting exact, unless a stream takes a message
from a queue that is not counted any more. -/
theorem exact_step_iff (hI : Inv s) (hP : s.Exact) {g : Registry R} (h : RegistryStep s l g) :
    g.Exact ↔ Counted s l := by
  have hP' : s.totalQueued = s.queued := hP
  cases h with
  | same hl =>
    refine iff_of_true hP ?_
    cases l with
    | consume id => exact absurd rfl (hl id)
    | _ => trivial
  | evicted hev =>
    refine iff_of_true ?_ trivial
    have := hev.balance
    unfold Registry.Exact
    omega
  | @opened id _ now g hid hev =>
    refine iff_of_true ?_ trivial
    have hnot : id ∉ g.ids := fun h => hI.streamed id ((hev.sublist.map _).subset h) hid
    have hcount := queued_update_other hnot [] g.totalQueued
    have hbal := hev.balance
    simp only [Registry.Exact, Registry.queued, total_append, total_cons, total_nil, qsize,
      Function.update_self, List.length_nil] at hcount hbal hP' ⊢
    omega
  | consumed hq => exact exact_take_iff hI hP hq
  | @removed id =>
    refine iff_of_true ?_ trivial
    by_cases hid : id ∈ s.ids
    · have hcount := queued_remove hI.nodup hid
      have htotal : (s.remove id).totalQueued = max 0 (s.totalQueued - (s.queue id).length) := by
        simp only [Registry.remove, if_pos hid]
      unfold Registry.Exact
      omega
    · rw [Registry.remove, if_neg hid]
      exact hP
  | @put p id message hid =>
    refine iff_of_true ?_ trivial
    have hcount := queued_update hI.nodup hid (s.queue id ++ [message]) (s.totalQueued + 1)
    rw [List.length_append, List.length_singleton] at hcount
    show s.totalQueued + 1 = ((Registry.put s.toRegistry id message).queued : Int)
    simp only [Registry.put]
    omega

/-- **Queue accounting.** In any interleaving the counter is exact in every
state reached, exactly when no stream takes a message from the queue of an
evicted session while the counter is positive. -/
theorem accounting_exact_iff (tool : C → W → W × Except Exn R) (w : W) (ls : List (Label C)) :
    (∀ s, Passes (step tool) (initial w) ls s → s.Exact) ↔
      ∀ s l s', Takes (step tool) (initial w) ls s l s' → Counted s l :=
  always_iff (I := Inv) (P := fun s => s.Exact) (fun _ _ _ hI _ h => hI.step h)
    (fun _ _ _ hI hP h => exact_step_iff hI hP (step_registry h).1) (.initial w) rfl ls

end

/-! ## Sample run -/

/-- A tool that counts its calls. -/
def countingTool : Unit → Nat → Nat × Except Exn Nat := fun _ n => (n + 1, .ok n)

/-- A `tools/call` for `session`, from its arrival to its answer. -/
def post (p : RequestId) (session : SessionId) : List (Label Unit) :=
  [.receive p () (some session), .dispatch p, .lookup p, .deliver p]

/-- Session 0 gets a response and is evicted after an hour, when session 1
opens; session 1 gets one too, and the stream of session 0 goes on reading. -/
def evictedReader : List (Label Unit) :=
  [.connect 0 {} 0, .start 0] ++ post 0 0 ++ [.connect 1 {} 3601] ++ post 1 1 ++ [.consume 0]

/-- At its end the counter is 0 and one response is queued. -/
theorem accounting_exact_false :
    ¬ ∀ (ls : List (Label Unit)) (s : State Unit Nat Nat),
      Passes (step countingTool) (initial 0) ls s → s.Exact := by
  intro h
  obtain ⟨s, hs, hcount⟩ : ∃ s, exec (step countingTool) (initial 0) evictedReader = some s ∧
      (s.totalQueued = 0 ∧ s.queued = 1) := ⟨_, rfl, by decide⟩
  have hexact : s.totalQueued = s.queued := h evictedReader s (passes_of_exec hs)
  omega

end ContextBroker.Mcp
