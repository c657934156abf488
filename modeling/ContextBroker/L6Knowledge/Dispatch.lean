import ContextBroker.Core.UniqueInsert
import ContextBroker.L6Knowledge.QualityWrapper

/-!
# Dispatching an extraction (`context_broker_ae/cea_extraction_flow.py`)

`dispatch_extraction_results` adds the facts of an extraction to Mem0, one
after the other, and writes the metadata of what Mem0 returns. Mem0, the
database and the clocks answer for each fact as its `Turn` says; a dispatch
that is cancelled has no end.

`created`, `returned`, `last` and `dispatched` are ghosts.

* `dispatchFact_tables`: what one fact does to the metadata, through `sent`
  (Mem0 is asked), `answer` (what it returns) and `writes` (the rows wanted).
* `known_written`: the targets with a row after the writes of one fact.
-/
namespace ContextBroker.Dispatch

open QualityWrapper LTS UniqueInsert

/-! ## Mem0 -/

/-- An entry of a relation list: a dict, or the rows of one query of the
graph store. `relationId` is none when the key is absent or empty. -/
inductive Entry where
  | item (relationId : Option Id)
  | rows (relationIds : List (Option Id))
  deriving DecidableEq, Repr

/-- `result["relations"]`; `added_entities` of the dict. -/
inductive Relations where
  | absent
  | dict (addedEntities : List Entry)
  | list (items : List Entry)
  deriving DecidableEq, Repr

/-- What `mem0.add` returns, with the `id` of each result. -/
inductive Response where
  | dict (results : List (Option Id)) (relations : Relations)
  | list (results : List (Option Id))
  deriving DecidableEq, Repr

/-- `entity.get("relation_id")`, if `entity` is a dict. -/
def Entry.read : Entry → Option Id
  | .item relationId => relationId
  | .rows _ => none

def Entry.ids : Entry → List Id
  | .item relationId => relationId.toList
  | .rows relationIds => relationIds.reduceOption

def Relations.entries : Relations → List Entry
  | .absent => []
  | .dict addedEntities => addedEntities
  | .list items => items

namespace Response

def results : Response → List (Option Id)
  | .dict results _ => results
  | .list results => results

def relations : Response → Relations
  | .dict _ relations => relations
  | .list _ => .absent

/-- mirrors quality_wrapper.py:194-201 -/
def memoryId (r : Response) : Option Id := r.results.head?.join

/-- mirrors quality_wrapper.py:207-218 -/
def relationIds (r : Response) : List Id := r.relations.entries.filterMap Entry.read

/-- Every id in the response. -/
def targets (r : Response) : List Target :=
  r.results.reduceOption.map (TargetType.fact, ·) ++
    (r.relations.entries.flatMap Entry.ids).map (TargetType.relation, ·)

/-- The targets of the `write_metadata` calls. -/
def written (r : Response) : List Target :=
  match r.memoryId with
  | none => []
  | some m => (.fact, m) :: r.relationIds.map (TargetType.relation, ·)

end Response

/-- A `mem0.add`: the memories it stores anew, and how it ends. -/
structure Mem0Add where
  created : List Id := []
  result : Except Exn Response

/-! ## The facts and their turns -/

/-- One entry of `extraction["facts"]`; none: the key is absent, for
`expiresAt` and `relatedFactId` also null or empty. -/
structure Fact where
  relationship : Option Text := none
  content : Text := []
  userId : Option Text := none
  originalUtterance : Option Text := none
  expiresAt : Option Text := none
  durability : Option Rat := none
  confidence : Option Rat := none
  sourceType : Option Text := none
  relatedFactId : Option Id := none
  deriving DecidableEq, Repr

/-- What the outside does while a fact is dispatched. `extractionDate` is
taken when its dispatch begins. -/
structure Turn where
  extractionDate : Time := 0
  now : Time := 0
  monotonic : Time := 0
  lookupFault : Option Exn := none
  expiredFault : Option Exn := none
  /-- `mem0.delete` of an expired fact. -/
  deleteFault : Id → Option Exn := fun _ => none
  purgeFault : Target → Option Exn := fun _ => none
  mem0 : Mem0Add
  conversationExists : Id → Bool := fun _ => true
  /-- The INSERTs of the metadata, numbered. -/
  insertFault : Nat → Option Exn := fun _ => none
  feedbackFault : Nat → Option Exn := fun _ => none

/-- The configuration, the conversation, and functions the flow calls.
`conversationId` is none when it is empty or not a UUID. -/
structure Env extends Settings where
  conversationId : Option Id
  extractionModel : Text := "unknown".toList
  upper : Text → Text
  /-- None: the date is out of range, which raises. -/
  resolveTemporal : Text → Time → Option (Option Time)
  eventDedupKey : Id → Text → Text → Time → Text
  jsonDumps : Text → Id → Text

structure Counts where
  new : Nat := 0
  duplicate : Nat := 0
  supersedes : Nat := 0
  conflicts : Nat := 0
  deriving DecidableEq, Repr

/-- What a fact says about the memory it became. -/
structure Supplied where
  memoryId : Id
  durability : Rat
  confidence : Rat
  sourceType : Text
  expiresAt : Option Time
  deriving DecidableEq, Repr

structure State where
  tables : QualityTables := {}
  lastCleanup : Time := 0
  counts : Counts := {}
  /-- The memories that `mem0.add` has stored anew. -/
  created : List Id := []
  /-- The ids it has returned. -/
  returned : List Target := []
  /-- What the last fact said, if it got an id. -/
  last : Option Supplied := none
  dispatched : List Fact := []

/-! ## `QualityWrapper.add` -/

/-- mirrors quality_wrapper.py:159-179 -/
def lookup (env : Env) (u : Turn) (t : QualityTables) (call : AddCall) : Except Exn Bool :=
  if call.conversationId.isSome && call.dedupUtterance ≠ [] then
    match u.lookupFault with
    | some e => .error e
    | none => .ok (isDuplicate env.toSettings t call)
  else .ok false

/-- `DELETE FROM cea_quality_metadata WHERE target_type = $1 AND target_id = $2`. -/
def deleteRow (t : QualityTables) (x : Target) : QualityTables :=
  { t with metadata := t.metadata.filter (·.target != x) }

/-- mirrors quality_wrapper.py:442-465 -/
def cleanupRows (u : Turn) : QualityTables → List Target → QualityTables × Except Exn Unit
  | t, [] => (t, .ok ())
  | t, x :: rest =>
    match if x.1 = .fact then u.deleteFault x.2 else none with
    | some e =>
      -- "Don't delete metadata if Mem0 delete failed"
      if e.isA .cancelledError then (t, .error e) else cleanupRows u t rest
    | none =>
      match u.purgeFault x with
      | some e => (t, .error e)
      | none => cleanupRows u (deleteRow t x) rest

/-- mirrors quality_wrapper.py:427-440 -/
def cleanupExpired (u : Turn) (t : QualityTables) : QualityTables × Except Exn Unit :=
  match u.expiredFault with
  | some e => (t, .error e)
  | none => cleanupRows u t ((t.metadata.filter (Metadata.expired · u.now)).map (·.target))

/-- With the time of the last clean-up. mirrors quality_wrapper.py:467-473 -/
def maybeCleanup (env : Env) (u : Turn) (t : QualityTables) (lastCleanup : Time) :
    QualityTables × Time × Except Exn Unit :=
  if env.expirationCleanupInterval ≤ (u.monotonic : Rat) - (lastCleanup : Rat) then
    let (t, result) := cleanupExpired u t
    (t, u.monotonic, result)
  else (t, lastCleanup, .ok ())

/-- The call of `mem0.add` in its thread. mirrors quality_wrapper.py:183-223 -/
def callMem0 (u : Turn) (s : State) : State × Except Exn (Option Response) :=
  let s := { s with created := s.created ++ u.mem0.created }
  match u.mem0.result with
  | .error e => if e.isA .cancelledError then (s, .error e) else (s, .ok none)
  | .ok response => ({ s with returned := s.returned ++ response.targets }, .ok (some response))

/-- `{"memory_id", "relation_ids"}` is read off the response; none stands
for `_empty`. mirrors quality_wrapper.py:136-223 -/
def add (env : Env) (u : Turn) (s : State) (call : AddCall) : State × Except Exn (Option Response) :=
  if env.rejects call.content then (s, .ok none)
  else
    match lookup env u s.tables call with
    | .error e => (s, .error e)
    | .ok true => (s, .ok none)
    | .ok false =>
      match maybeCleanup env u s.tables s.lastCleanup with
      | (tables, lastCleanup, .error e) => ({ s with tables, lastCleanup }, .error e)
      | (tables, lastCleanup, .ok ()) => callMem0 u { s with tables, lastCleanup }

/-! ## `dispatch_extraction_results` -/

namespace Fact

def relationshipOf (env : Env) (f : Fact) : Text := env.upper (f.relationship.getD "NEW".toList)

def utterance (f : Fact) : Text := f.originalUtterance.getD []

/-- mirrors cea_extraction_flow.py:264-270 -/
def call (env : Env) (f : Fact) : AddCall where
  content := f.content
  userId := f.userId.getD "unknown".toList
  conversationId := env.conversationId
  dedupUtterance := f.utterance

/-- `resolve_temporal(fact.get("expires_at"), extraction_date)`, which
returns None for a text that is none. -/
def expiry (env : Env) (f : Fact) (date : Time) : Except Exn (Option Time) :=
  match f.expiresAt with
  | none => .ok none
  | some raw =>
    match env.resolveTemporal raw date with
    | none => .error .overflowError
    | some expiresAt => .ok expiresAt

end Fact

/-- `float(value or 0.5)`. -/
def orHalf (value : Option Rat) : Rat :=
  match value with
  | some q => if q = 0 then 1 / 2 else q
  | none => 1 / 2

/-- mirrors cea_extraction_flow.py:276-310 -/
def Fact.metadataFields (env : Env) (f : Fact) (expiresAt : Option Time) (target : Target) : MetadataFields where
  target
  durability := orHalf f.durability
  confidence := orHalf f.confidence
  sourceType := f.sourceType.getD "observation".toList
  originalUtterance := f.utterance
  extractionModel := env.extractionModel
  expiresAt
  userId := f.userId.getD "unknown".toList
  contentHash := some (env.md5 f.content)

/-- What the fact says, with the defaults for what it leaves out. -/
def Fact.supplied (f : Fact) (expiresAt : Option Time) (memoryId : Id) : Supplied where
  memoryId
  durability := f.durability.getD (1 / 2)
  confidence := f.confidence.getD (1 / 2)
  sourceType := f.sourceType.getD "observation".toList
  expiresAt

/-- The `write_metadata` calls for the fact and its relations, from the
`i`-th on. mirrors cea_extraction_flow.py:281-310 -/
def writeAll (env : Env) (u : Turn) (fields : Target → MetadataFields) :
    QualityTables → List Target → Nat → QualityTables × Except Exn Unit
  | t, [], _ => (t, .ok ())
  | t, x :: rest, i =>
    match t.writeMetadata u.conversationExists (u.insertFault i) u.now (fields x) env.conversationId with
    | (t, .error e) => (t, .error e)
    | (t, .ok ()) => writeAll env u fields t rest (i + 1)

/-- `wrapper.record_feedback(target_type="fact", ..., agent_id="ceas", ...)`,
the `i`-th of the turn. -/
def feedback (env : Env) (u : Turn) (i : Nat) (s : State) (id : Id) (eventType key : Text) (other : Id) :
    State × Except Exn Unit :=
  let event : FeedbackEvent :=
    { target := (.fact, id)
      eventType
      agentId := "ceas".toList
      context := some (env.jsonDumps key other)
      createdAt := u.now
      dedupKey := env.eventDedupKey id eventType "ceas".toList u.now }
  let (tables, result) := s.tables.recordFeedback (u.feedbackFault i) event
  ({ s with tables }, result.map fun _ => ())

/-- mirrors cea_extraction_flow.py:312-348 -/
def conclude (env : Env) (u : Turn) (f : Fact) (memoryId : Id) (s : State) : State × Except Exn Unit :=
  if f.relationshipOf env = "NEW".toList then
    ({ s with counts := { s.counts with new := s.counts.new + 1 } }, .ok ())
  else if f.relationshipOf env = "SUPERSEDES".toList then
    let s := { s with counts := { s.counts with supersedes := s.counts.supersedes + 1 } }
    match f.relatedFactId with
    | none => (s, .ok ())
    | some related => feedback env u 0 s related "superseded".toList "replacement_id".toList memoryId
  else if f.relationshipOf env = "CONFLICTS".toList then
    let s := { s with counts := { s.counts with conflicts := s.counts.conflicts + 1 } }
    match f.relatedFactId with
    | none => (s, .ok ())
    | some related =>
      match feedback env u 0 s related "conflicted".toList "conflicting_id".toList memoryId with
      | (s, .error e) => (s, .error e)
      | (s, .ok ()) => feedback env u 1 s memoryId "conflicted".toList "conflicting_id".toList related
  else (s, .ok ())

/-- What follows the add of a fact. mirrors cea_extraction_flow.py:272-348 -/
def afterAdd (env : Env) (u : Turn) (f : Fact) (expiresAt : Option Time) :
    State × Except Exn (Option Response) → State × Except Exn Unit
  | (s, .error e) => (s, .error e)
  | (s, .ok none) => (s, .ok ())
  | (s, .ok (some response)) =>
    match response.memoryId with
    | none => (s, .ok ())
    | some m =>
      let (tables, result) := writeAll env u (f.metadataFields env expiresAt) s.tables response.written 0
      let s := { s with tables, last := some (f.supplied expiresAt m) }
      match result with
      | .error e => (s, .error e)
      | .ok () => conclude env u f m s

/-- The body of the loop over the facts. mirrors cea_extraction_flow.py:245-348 -/
def dispatchFact (env : Env) (u : Turn) (f : Fact) (s : State) : State × Except Exn Unit :=
  if f.relationshipOf env = "DUPLICATE".toList then
    ({ s with counts := { s.counts with duplicate := s.counts.duplicate + 1 } }, .ok ())
  else if f.content = [] then (s, .ok ())
  else
    match f.expiry env u.extractionDate with
    | .error e => (s, .error e)
    | .ok expiresAt => afterAdd env u f expiresAt (add env u s (f.call env))

/-- One fact of the loop: an exception other than a cancellation is logged.
mirrors cea_extraction_flow.py:350-354 -/
def step (env : Env) (s : State) (x : Fact × Turn) : Option State :=
  match dispatchFact env x.2 x.1 { s with last := none, dispatched := s.dispatched ++ [x.1] } with
  | (s', .error e) => if e.isA .cancelledError then none else some s'
  | (s', .ok ()) => some s'

/-- mirrors cea_extraction_flow.py:214-373 -/
def dispatchExtractionResults (env : Env) : State → List (Fact × Turn) → Option State := exec (step env)

/-- Before a dispatch. -/
def State.start (tables : QualityTables) (lastCleanup : Time) : State := { tables, lastCleanup }

/-! ## What one fact does -/

/-- A fact that is to be added. -/
def Fact.Wanted (env : Env) (f : Fact) : Prop :=
  f.relationshipOf env ≠ "DUPLICATE".toList ∧ f.content ≠ [] ∧ env.rejects f.content = false

instance (env : Env) (f : Fact) : Decidable (f.Wanted env) := inferInstanceAs (Decidable (_ ∧ _))

/-- Its turn comes to the clean-up. -/
def Sent (env : Env) (u : Turn) (f : Fact) (s : State) : Prop :=
  f.Wanted env ∧ (f.expiry env u.extractionDate).isOk = true ∧
    (lookup env u s.tables (f.call env)).toOption = some false

instance (env : Env) (u : Turn) (f : Fact) (s : State) : Decidable (Sent env u f s) :=
  inferInstanceAs (Decidable (_ ∧ _))

/-- And to Mem0. -/
def Asked (env : Env) (u : Turn) (f : Fact) (s : State) : Prop :=
  Sent env u f s ∧ (maybeCleanup env u s.tables s.lastCleanup).2.2.isOk = true

instance (env : Env) (u : Turn) (f : Fact) (s : State) : Decidable (Asked env u f s) :=
  inferInstanceAs (Decidable (_ ∧ _))

/-- The tables that the writes of the turn find. -/
def found (env : Env) (u : Turn) (f : Fact) (s : State) : QualityTables :=
  if Sent env u f s then (maybeCleanup env u s.tables s.lastCleanup).1 else s.tables

/-- What Mem0 returns in the turn. -/
def answer (env : Env) (u : Turn) (f : Fact) (s : State) : Option Response :=
  if Asked env u f s then u.mem0.result.toOption else none

/-- The expiry supplied, as the turn resolves it. -/
def Fact.expiresOn (env : Env) (f : Fact) (u : Turn) : Option Time :=
  (f.expiry env u.extractionDate).toOption.join

/-- The tables after the writes. -/
def written (env : Env) (u : Turn) (f : Fact) (t : QualityTables) (xs : List Target) : QualityTables :=
  (writeAll env u (f.metadataFields env (f.expiresOn env u)) t xs 0).1

/-- What a turn leaves. -/
structure Outcome (env : Env) (u : Turn) (f : Fact) (s s' : State) : Prop where
  metadata : s'.tables.metadata =
    (written env u f (found env u f s) (((answer env u f s).map Response.written).getD [])).metadata
  created : s'.created = s.created ++ if Asked env u f s then u.mem0.created else []
  returned : s'.returned = s.returned ++ ((answer env u f s).map Response.targets).getD []
  last : s'.last = (((answer env u f s).bind Response.memoryId).map (f.supplied (f.expiresOn env u))).or s.last
  dispatched : s'.dispatched = s.dispatched

/-- Events and counts apart, nothing has changed. -/
structure Kept (s s' : State) : Prop where
  metadata : s'.tables.metadata = s.tables.metadata
  created : s'.created = s.created
  returned : s'.returned = s.returned
  last : s'.last = s.last
  dispatched : s'.dispatched = s.dispatched

section

variable {env : Env} {u : Turn} {f : Fact} {s s' s'' : State}

theorem Kept.trans (h : Kept s s') (h' : Kept s' s'') : Kept s s'' :=
  ⟨h'.metadata.trans h.metadata, h'.created.trans h.created, h'.returned.trans h.returned, h'.last.trans h.last,
    h'.dispatched.trans h.dispatched⟩

theorem feedback_kept (i : Nat) (id : Id) (eventType key : Text) (other : Id) :
    Kept s (feedback env u i s id eventType key other).1 := by
  refine ⟨?_, rfl, rfl, rfl, rfl⟩
  simp only [feedback, QualityTables.recordFeedback_metadata]

theorem conclude_kept (m : Id) : Kept s (conclude env u f m s).1 := by
  have hcounts : ∀ counts, Kept s { s with counts } := fun _ => ⟨rfl, rfl, rfl, rfl, rfl⟩
  unfold conclude
  split
  · exact hcounts _
  · split
    · cases f.relatedFactId with
      | none => exact hcounts _
      | some related => exact (hcounts _).trans (feedback_kept 0 related _ _ m)
    · split
      · cases f.relatedFactId with
        | none => exact hcounts _
        | some related =>
          dsimp only
          split
          · rename_i h
            exact (hcounts _).trans (h ▸ feedback_kept 0 related _ _ m :)
          · rename_i h
            exact ((hcounts _).trans (h ▸ feedback_kept 0 related _ _ m :)).trans (feedback_kept 1 m _ _ related)
      · exact ⟨rfl, rfl, rfl, rfl, rfl⟩

theorem written_eq_nil {r : Response} (h : r.memoryId = none) : r.written = [] := by
  simp only [Response.written, h]

theorem expiry_error {date : Time} {e : Exn} (h : f.expiry env date = .error e) : e = .overflowError := by
  unfold Fact.expiry at h
  split at h
  · cases h
  · split at h
    · exact (Except.error.inj h).symm
    · cases h

theorem lookup_error {t : QualityTables} {call : AddCall} {e : Exn} (h : lookup env u t call = .error e) :
    u.lookupFault = some e := by
  unfold lookup at h
  split at h
  · split at h
    · rename_i hfault
      exact Except.error.inj h ▸ hfault
    · cases h
  · cases h

/-- The add of a fact that comes to the clean-up. -/
theorem add_of_sent (h : Sent env u f s) :
    add env u s (f.call env) =
      match maybeCleanup env u s.tables s.lastCleanup with
      | (tables, lastCleanup, .error e) => ({ s with tables, lastCleanup }, .error e)
      | (tables, lastCleanup, .ok ()) => callMem0 u { s with tables, lastCleanup } := by
  obtain ⟨⟨-, -, hrejects⟩, -, hlookup⟩ := h
  have hok : lookup env u s.tables (f.call env) = .ok false := by
    cases hl : lookup env u s.tables (f.call env) with
    | error e => simp [hl, Except.toOption] at hlookup
    | ok b => simpa [hl, Except.toOption] using hlookup
  have hcontent : env.rejects (f.call env).content = false := hrejects
  simp only [add, hcontent, Bool.false_eq_true, if_false, hok]

/-- A fact that does not come to it leaves the metadata as they are. -/
theorem dispatchFact_of_not_sent (h : ¬Sent env u f s) :
    Kept s (dispatchFact env u f s).1 ∧
      ∀ e, (dispatchFact env u f s).2 = .error e → e = .overflowError ∨ u.lookupFault = some e := by
  have hkept : Kept s s := ⟨rfl, rfl, rfl, rfl, rfl⟩
  unfold dispatchFact
  split
  · exact ⟨⟨rfl, rfl, rfl, rfl, rfl⟩, nofun⟩
  · rename_i hdup
    split
    · exact ⟨hkept, nofun⟩
    · rename_i hcontent
      cases hexpiry : f.expiry env u.extractionDate with
      | error e =>
        refine ⟨hkept, fun e' he => .inl ?_⟩
        obtain rfl := Except.error.inj he
        exact expiry_error hexpiry
      | ok expiresAt =>
        dsimp only
        unfold add
        by_cases hrejects : env.rejects (f.call env).content = true
        · rw [if_pos hrejects]
          exact ⟨hkept, nofun⟩
        · rw [if_neg hrejects]
          cases hlookup : lookup env u s.tables (f.call env) with
          | error e =>
            refine ⟨hkept, fun e' he => .inr ?_⟩
            obtain rfl := Except.error.inj he
            exact lookup_error hlookup
          | ok duplicate =>
            cases duplicate with
            | true => exact ⟨hkept, nofun⟩
            | false =>
              refine absurd ⟨⟨hdup, hcontent, (Bool.not_eq_true _).mp hrejects⟩, ?_, ?_⟩ h
              · rw [hexpiry]
                rfl
              · rw [hlookup]
                rfl

theorem dispatchFact_of_sent (h : Sent env u f s) :
    dispatchFact env u f s = afterAdd env u f (f.expiresOn env u) (add env u s (f.call env)) := by
  obtain ⟨⟨hdup, hcontent, -⟩, hexpiry, -⟩ := h
  unfold dispatchFact
  rw [if_neg hdup, if_neg hcontent]
  cases hx : f.expiry env u.extractionDate with
  | error e => simp [hx, Except.isOk, Except.toBool] at hexpiry
  | ok expiresAt =>
    have hon : f.expiresOn env u = expiresAt := by simp [Fact.expiresOn, hx, Except.toOption]
    rw [hon]

/-- What Mem0's answer leads to. -/
theorem afterAdd_callMem0 (env : Env) (u : Turn) (f : Fact) (expiresAt : Option Time) (s : State) :
    let s' := (afterAdd env u f expiresAt (callMem0 u s)).1
    let response := u.mem0.result.toOption
    s'.tables.metadata = (writeAll env u (f.metadataFields env expiresAt) s.tables
        ((response.map Response.written).getD []) 0).1.metadata ∧
      s'.created = s.created ++ u.mem0.created ∧
      s'.returned = s.returned ++ (response.map Response.targets).getD [] ∧
      s'.last = ((response.bind Response.memoryId).map (f.supplied expiresAt)).or s.last ∧
      s'.dispatched = s.dispatched := by
  intro s' response
  cases hresult : u.mem0.result with
  | error e =>
    have hresponse : response = none := by
      simp only [response, hresult, Except.toOption]
    have hs' : s' = { s with created := s.created ++ u.mem0.created } := by
      simp only [s', callMem0, hresult]
      by_cases hcancelled : e.isA .cancelledError = true
      · rw [if_pos hcancelled]
        rfl
      · rw [if_neg hcancelled]
        rfl
    rw [hs', hresponse]
    exact ⟨rfl, rfl, (List.append_nil _).symm, rfl, rfl⟩
  | ok r =>
    have hresponse : response = some r := by
      simp only [response, hresult, Except.toOption]
    rw [hresponse]
    simp only [s', callMem0, hresult, afterAdd]
    cases hid : r.memoryId with
    | none =>
      refine ⟨?_, rfl, rfl, ?_, rfl⟩
      · simp only [Option.map_some, Option.getD_some, written_eq_nil hid]
        rfl
      · simp only [Option.bind_some, hid]
        rfl
    | some m =>
      dsimp only
      split
      · exact ⟨rfl, rfl, rfl, by simp [hid], rfl⟩
      · obtain ⟨hmeta, hcreated, hreturned, hlast, hdispatched⟩ := @conclude_kept env u f _ m
        exact ⟨hmeta, hcreated, hreturned, hlast.trans (by simp [hid]), hdispatched⟩

/-- **One fact.** -/
theorem dispatchFact_outcome (env : Env) (u : Turn) (f : Fact) (s : State) :
    Outcome env u f s (dispatchFact env u f s).1 := by
  by_cases hsent : Sent env u f s
  · have hfound : found env u f s = (maybeCleanup env u s.tables s.lastCleanup).1 := if_pos hsent
    rw [dispatchFact_of_sent hsent, add_of_sent hsent]
    cases hclean : maybeCleanup env u s.tables s.lastCleanup with
    | mk t rest =>
      obtain ⟨lastCleanup, result⟩ := rest
      rw [hclean] at hfound
      cases result with
      | error e =>
        have hasked : ¬Asked env u f s := fun h => by simp [Asked, hclean, Except.isOk, Except.toBool] at h
        have hanswer : answer env u f s = none := if_neg hasked
        refine ⟨?_, ?_, ?_, ?_, rfl⟩
        · rw [hanswer, hfound]
          rfl
        · rw [if_neg hasked]
          exact (List.append_nil _).symm
        · rw [hanswer]
          exact (List.append_nil _).symm
        · rw [hanswer]
          rfl
      | ok _ =>
        have hasked : Asked env u f s := ⟨hsent, by rw [hclean]; rfl⟩
        have hanswer : answer env u f s = u.mem0.result.toOption := if_pos hasked
        obtain ⟨hmeta, hcreated, hreturned, hlast, hdispatched⟩ :=
          afterAdd_callMem0 env u f (f.expiresOn env u) { s with tables := t, lastCleanup }
        refine ⟨?_, ?_, ?_, ?_, hdispatched⟩
        · rw [hanswer, hfound]
          exact hmeta
        · rw [if_pos hasked]
          exact hcreated
        · rw [hanswer]
          exact hreturned
        · rw [hanswer]
          exact hlast
  · have hasked : ¬Asked env u f s := fun h => hsent h.1
    have hanswer : answer env u f s = none := if_neg hasked
    have hfound : found env u f s = s.tables := if_neg hsent
    obtain ⟨hmeta, hcreated, hreturned, hlast, hdispatched⟩ := (dispatchFact_of_not_sent hsent).1
    refine ⟨?_, ?_, ?_, ?_, hdispatched⟩
    · rw [hanswer, hfound, hmeta]
      rfl
    · rw [if_neg hasked, hcreated, List.append_nil]
    · rw [hanswer, hreturned]
      exact (List.append_nil _).symm
    · rw [hanswer, hlast]
      rfl

theorem step_outcome {x : Fact × Turn} (h : step env s x = some s') :
    Outcome env x.2 x.1 { s with last := none, dispatched := s.dispatched ++ [x.1] } s' := by
  have hone := dispatchFact_outcome env x.2 x.1 { s with last := none, dispatched := s.dispatched ++ [x.1] }
  unfold step at h
  split at h
  · rename_i hrun
    rw [hrun] at hone
    obtain ⟨-, h⟩ := Option.ite_none_left_eq_some.mp h
    exact Option.some.inj h ▸ hone
  · rename_i hrun
    rw [hrun] at hone
    exact Option.some.inj h ▸ hone

end

/-! ## The writes -/

/-- The conversation, if the rows can refer to it. -/
def conversation (env : Env) (u : Turn) : Option Id := env.conversationId.filter u.conversationExists

/-- The targets whose INSERT the database answers. -/
def Turn.answered (u : Turn) : List Target → Nat → List Target
  | [], _ => []
  | x :: rest, i => if (u.insertFault i).isSome then [] else x :: u.answered rest (i + 1)

/-- The row wanted for a target. -/
def Fact.row (env : Env) (f : Fact) (u : Turn) (c : Id) (x : Target) : Metadata :=
  ⟨f.metadataFields env (f.expiresOn env u) x, c, u.now⟩

/-- Another row holds the natural key of this type. -/
def Fact.Held (env : Env) (f : Fact) (t : QualityTables) (c : Id) (type : TargetType) : Prop :=
  ∃ q ∈ t.metadata, q.naturalKey = some (type, f.userId.getD "unknown".toList, c, f.utterance, env.md5 f.content)

/-- The write for `x` is made, and unless `x` has a row it gets one: the
database answers, the conversation is there, and if the fact has an utterance,
neither a row of the table nor an earlier write holds the natural key. -/
def Accepted (env : Env) (u : Turn) (f : Fact) (t : QualityTables) (xs : List Target) (x : Target) : Prop :=
  ∃ c, conversation env u = some c ∧ ∃ before after, u.answered xs 0 = before ++ x :: after ∧
    (f.utterance = [] ∨
      ¬f.Held env t c x.1 ∧ ∀ y ∈ before, y.1 = x.1 → Known (·.target) t.metadata y)

section

variable {env : Env} {u : Turn} {f : Fact} {s s' : State} {t : QualityTables} {x : Target} {c : Id}

/-- An answered INSERT for a known conversation. -/
theorem writeMetadata_eq (hc : conversation env u = some c) (fields : MetadataFields) :
    t.writeMetadata u.conversationExists none u.now fields env.conversationId =
      ({ t with
          metadata := insert (·.target) Metadata.naturalKey t.metadata
            { fields with conversationId := c, extractedAt := u.now } }, .ok ()) := by
  obtain ⟨hid, hexists⟩ := Option.filter_eq_some_iff.mp hc
  have hknown : t.metadata.any (·.target == fields.target) = true ↔ Known (·.target) t.metadata fields.target := by
    simp [Known]
  have htaken : ∀ row : Metadata, (row.naturalKey.isSome && t.metadata.any (·.naturalKey == row.naturalKey)) = true ↔
      Taken Metadata.naturalKey t.metadata row := by
    simp [Taken]
  rw [hid]
  simp only [QualityTables.writeMetadata, QualityTables.insertMetadata, hknown, htaken, hexists, if_true,
    UniqueInsert.insert]
  by_cases hk : Known (·.target) t.metadata fields.target
  · simp only [hk, if_true]
  · by_cases ht : Taken Metadata.naturalKey t.metadata { fields with conversationId := c, extractedAt := u.now }
    · simp only [hk, ht, if_false, if_true]
      rfl
    · simp only [hk, ht, if_false]

/-- Without one nothing is written. -/
theorem writeMetadata_of_unknown (hc : conversation env u = none) (fault : Option Exn) (fields : MetadataFields) :
    (t.writeMetadata u.conversationExists fault u.now fields env.conversationId).1 = t := by
  rcases t.writeMetadata_cases u.conversationExists fault u.now fields env.conversationId with
    h | ⟨c, hid, hexists, -⟩
  · exact h
  · have hsome : conversation env u = some c := Option.filter_eq_some_iff.mpr ⟨hid, hexists⟩
    exact absurd (hc.symm.trans hsome) (by simp)

theorem writeAll_of_unknown (hc : conversation env u = none) (fields : Target → MetadataFields)
    (xs : List Target) (i : Nat) : (writeAll env u fields t xs i).1 = t := by
  induction xs generalizing i with
  | nil => rfl
  | cons x rest ih =>
    have hsame := @writeMetadata_of_unknown env u t hc (u.insertFault i) (fields x)
    unfold writeAll
    split
    · rename_i hwrite
      rw [hwrite] at hsame
      exact hsame
    · rename_i hwrite
      rw [hwrite] at hsame
      obtain rfl := hsame
      exact ih (i + 1)

/-- **The writes of one fact** are inserts, up to the first that raises. -/
theorem writeAll_metadata (hc : conversation env u = some c) (fields : Target → MetadataFields) (xs : List Target)
    (i : Nat) :
    (writeAll env u fields t xs i).1.metadata = insertAll (·.target) Metadata.naturalKey t.metadata
      ((u.answered xs i).map fun x => ⟨fields x, c, u.now⟩) := by
  induction xs generalizing t i with
  | nil => rfl
  | cons x rest ih =>
    cases hfault : u.insertFault i with
    | some e =>
      obtain ⟨hid, -⟩ := Option.filter_eq_some_iff.mp hc
      have hanswered : u.answered (x :: rest) i = [] := by simp [Turn.answered, hfault]
      simp only [hanswered, writeAll, hfault, hid, QualityTables.writeMetadata]
      rfl
    | none =>
      have hanswered : u.answered (x :: rest) i = x :: u.answered rest (i + 1) := by simp [Turn.answered, hfault]
      rw [hanswered, writeAll, hfault, writeMetadata_eq hc]
      exact ih (i + 1)

@[simp] theorem row_naturalKey : (f.row env u c x).naturalKey =
    if f.utterance = [] then none
    else some (x.1, f.userId.getD "unknown".toList, c, f.utterance, env.md5 f.content) := rfl

theorem written_of_unknown (hc : conversation env u = none) (xs : List Target) : written env u f t xs = t :=
  writeAll_of_unknown hc _ xs 0

theorem written_metadata (hc : conversation env u = some c) (xs : List Target) :
    (written env u f t xs).metadata =
      insertAll (·.target) Metadata.naturalKey t.metadata ((u.answered xs 0).map (f.row env u c)) :=
  writeAll_metadata hc _ xs 0

theorem accepted_iff (hc : conversation env u = some c) (xs : List Target) :
    Accepted env u f t xs x ↔
      Lands (·.target) Metadata.naturalKey t.metadata ((u.answered xs 0).map (f.row env u c)) x := by
  have hheld : ∀ y : Target, f.utterance ≠ [] →
      (Taken Metadata.naturalKey t.metadata (f.row env u c y) ↔ f.Held env t c y.1) := fun y hu => by
    simp [Taken, Fact.Held, hu]
  constructor
  · rintro ⟨c', hc', before, after, hxs, hfree⟩
    obtain rfl := Option.some.inj (hc.symm.trans hc')
    refine ⟨before.map (f.row env u c), f.row env u c x, after.map (f.row env u c), ?_, rfl, ?_⟩
    · rw [hxs, List.map_append, List.map_cons]
    · rcases hfree with hu | ⟨hfree, hbefore⟩
      · exact .inl (by rw [row_naturalKey, if_pos hu])
      · by_cases hu : f.utterance = []
        · exact .inl (by rw [row_naturalKey, if_pos hu])
        · refine .inr ⟨(hheld x hu).not.mpr hfree, fun p hp hkey => ?_⟩
          obtain ⟨y, hy, rfl⟩ := List.mem_map.mp hp
          rw [row_naturalKey, row_naturalKey, if_neg hu, if_neg hu] at hkey
          exact hbefore y hy (by simpa using hkey)
  · rintro ⟨before, r, after, hxs, hr, hfree⟩
    obtain ⟨before, rest, hsplit, rfl, hrest⟩ := List.map_eq_append_iff.mp hxs
    obtain ⟨y, after, rfl, rfl, rfl⟩ := List.map_eq_cons_iff.mp hrest
    obtain rfl : y = x := hr
    refine ⟨c, hc, before, after, hsplit, ?_⟩
    by_cases hu : f.utterance = []
    · exact .inl hu
    · rcases hfree with hnone | ⟨hfree, hbefore⟩
      · rw [row_naturalKey, if_neg hu] at hnone
        cases hnone
      · refine .inr ⟨(hheld y hu).not.mp hfree, fun z hz htype => ?_⟩
        refine hbefore (f.row env u c z) (List.mem_map_of_mem hz) ?_
        rw [row_naturalKey, row_naturalKey, htype]

/-- **The targets with a row** after the writes of a fact. -/
theorem known_written (env : Env) (u : Turn) (f : Fact) (t : QualityTables) (xs : List Target) (x : Target) :
    Known (·.target) (written env u f t xs).metadata x ↔
      Known (·.target) t.metadata x ∨ Accepted env u f t xs x := by
  cases hc : conversation env u with
  | none =>
    rw [written_of_unknown hc]
    refine ⟨.inl, fun h => h.resolve_right ?_⟩
    rintro ⟨c, hc', -⟩
    exact absurd (hc.symm.trans hc') (by simp)
  | some c =>
    rw [written_metadata hc, accepted_iff hc]
    refine key_mem_insertAll fun p hp p' hp' hkey => ?_
    obtain ⟨y, -, rfl⟩ := List.mem_map.mp hp
    obtain ⟨y', -, rfl⟩ := List.mem_map.mp hp'
    obtain rfl : y = y' := hkey
    rfl

theorem metadata_kept (env : Env) (u : Turn) (f : Fact) (t : QualityTables) (xs : List Target) :
    t.metadata <+: (written env u f t xs).metadata := by
  cases hc : conversation env u with
  | none =>
    exact ⟨[], by rw [written_of_unknown hc, List.append_nil]⟩
  | some c =>
    rw [written_metadata hc]
    exact prefix_insertAll _ _ _ _

/-- A new row is one that was wanted. -/
theorem mem_written {q : Metadata} {xs : List Target} (h : q ∈ (written env u f t xs).metadata) :
    q ∈ t.metadata ∨
      ∃ c y, conversation env u = some c ∧ ¬Known (·.target) t.metadata y ∧ q = f.row env u c y := by
  cases hc : conversation env u with
  | none =>
    rw [written_of_unknown hc] at h
    exact .inl h
  | some c =>
    rw [written_metadata hc] at h
    refine (mem_insertAll h).imp_right fun ⟨hq, hnew⟩ => ?_
    obtain ⟨y, -, rfl⟩ := List.mem_map.mp hq
    exact ⟨c, y, rfl, hnew, rfl⟩

theorem metadata?_eq_none : t.metadata? x = none ↔ ¬Known (·.target) t.metadata x := by
  simp [QualityTables.metadata?, Known]

theorem metadata?_of_known {q : Metadata} (h : t.metadata? x = some q) (xs : List Target) :
    (written env u f t xs).metadata? x = some q := by
  cases hc : conversation env u with
  | none => rwa [written_of_unknown hc]
  | some c =>
    have hknown : Known (·.target) t.metadata x := by
      refine not_not.mp (metadata?_eq_none.not.mp ?_)
      rw [h]
      exact nofun
    rw [← h, QualityTables.metadata?, QualityTables.metadata?, written_metadata hc]
    exact find?_insertAll_of_known (fun q => beq_iff_eq) hknown _

theorem metadata?_of_new {q : Metadata} {xs : List Target} (h : t.metadata? x = none)
    (hq : (written env u f t xs).metadata? x = some q) :
    Accepted env u f t xs x ∧ ∃ c, conversation env u = some c ∧ q = f.row env u c x := by
  have hnew : ¬Known (·.target) t.metadata x := metadata?_eq_none.mp h
  have hmem : q ∈ (written env u f t xs).metadata := List.mem_of_find?_eq_some hq
  have htarget : q.target = x := by simpa using List.find?_some hq
  refine ⟨((known_written env u f t xs x).mp ⟨q, hmem, htarget⟩).resolve_left hnew, ?_⟩
  rcases mem_written hmem with hold | ⟨c, y, hc, -, rfl⟩
  · exact absurd ⟨q, hold, htarget⟩ hnew
  · obtain rfl : y = x := htarget
    exact ⟨c, hc, rfl⟩

/-- **The row of a target** after the writes. -/
theorem metadata?_written (env : Env) (u : Turn) (f : Fact) (t : QualityTables) (xs : List Target) (x : Target)
    (q : Metadata) :
    (written env u f t xs).metadata? x = some q ↔
      t.metadata? x = some q ∨ t.metadata? x = none ∧ Accepted env u f t xs x ∧
        ∃ c, conversation env u = some c ∧ q = f.row env u c x := by
  constructor
  · intro hq
    cases hold : t.metadata? x with
    | some q' =>
      rw [metadata?_of_known hold] at hq
      exact .inl hq
    | none => exact .inr ⟨rfl, metadata?_of_new hold hq⟩
  · rintro (hold | ⟨hold, haccepted, c, hc, rfl⟩)
    · exact metadata?_of_known hold xs
    · have hknown := (known_written env u f t xs x).mpr (.inr haccepted)
      obtain ⟨q, hq⟩ := Option.ne_none_iff_exists'.mp (metadata?_eq_none.not.mpr (not_not.mpr hknown))
      obtain ⟨-, c', hc', rfl⟩ := metadata?_of_new hold hq
      obtain rfl := Option.some.inj (hc.symm.trans hc')
      exact hq

end

end ContextBroker.Dispatch
