import ContextBroker.Core.LTS
import ContextBroker.L1Data.Quality
import Mathlib.Logic.Function.Basic

/-!
# The quality wrapper

`QualityWrapper` keeps two stores together: Mem0, which holds the facts and
the graph relations, and the quality tables. Its methods are tasks of one
event loop; `step` runs one of them up to its next call.

Mem0 is seen from outside. `memories` is what it holds; a `mem0.add` under
way stores and removes what it likes, a search finds any part of what is
held, one store after the other, and `mem0.delete` removes the fact it is
given or raises. Both go on in their thread when their caller is cancelled.

`recorded`, `earlier` and `answers` are ghosts: the expiries that were put
on record and not superseded by a later add, those of them older than a
search, and what the searches returned.
-/
namespace ContextBroker.QualityWrapper

open LTS

/-! ## Reading -/

/-- `result[event_type]` and `result["total_events"]`. -/
structure Usefulness where
  totalEvents : Nat := 0
  events : List (Text × Nat) := []
  deriving DecidableEq, Repr

/-- A fact or relation with `_metadata` and `_usefulness`. -/
structure Item where
  target : Target
  metadata : Option Metadata
  usefulness : Option Usefulness
  deriving DecidableEq, Repr

/-- One key of `_get_usefulness_batch`. mirrors quality_wrapper.py:522-546 -/
def usefulness (t : QualityTables) (target : Target) : Option Usefulness :=
  let events := (t.feedback.filter (·.target == target)).map (·.eventType)
  if events = [] then none else some ⟨events.length, events.dedup.map fun e => (e, events.count e)⟩

/-- mirrors quality_wrapper.py:487-510 -/
def getMetadataBatch (t : QualityTables) (targets : List Target) : List Metadata :=
  t.metadata.filter fun q => targets.contains q.target

/-- `meta.get("expires_at") and meta["expires_at"] < now`. -/
def Metadata.expired (q : Metadata) (now : Time) : Bool := q.expiresAt.any (· < now)

/-- mirrors quality_wrapper.py:317-336 -/
def enrich (t : QualityTables) (batch : List Metadata) (now : Time) (hits : List Target) : List Item :=
  hits.filterMap fun x =>
    let row := batch.find? (·.target == x)
    if row.any (Metadata.expired · now) then none else some ⟨x, row, usefulness t x⟩

/-! ## Adding -/

/-- `config["cea"]`, with `re.search` and `hashlib.md5`. -/
structure Settings where
  minFactLength : Int := 10
  patterns : List Text := []
  expirationCleanupInterval : Rat := 3600
  search : Text → Text → Bool
  md5 : Text → Text

/-- mirrors quality_wrapper.py:116-134 -/
def Settings.rejects (settings : Settings) (content : Text) : Bool :=
  ((strip content).length : Int) < settings.minFactLength ||
    settings.patterns.any fun pattern => settings.search pattern content

/-- `conversationId` is none when it is empty or not a UUID. -/
structure AddCall where
  content : Text
  userId : Text
  conversationId : Option Id
  dedupUtterance : Text := []
  deriving DecidableEq, Repr

/-- mirrors quality_wrapper.py:166-179 -/
def isDuplicate (settings : Settings) (t : QualityTables) (call : AddCall) : Bool :=
  t.metadata.any fun q => q.userId == call.userId && some q.conversationId == call.conversationId &&
    q.originalUtterance == call.dedupUtterance && q.contentHash == some (settings.md5 call.content)

/-! ## State -/

/-- A method between two of its calls. `adds`: the cleanup is part of an
`add`. -/
inductive Task where
  /-- `add` asks for the natural key. -/
  | checking (call : AddCall)
  /-- `add` waits for `mem0.add`. -/
  | adding
  /-- `cleanup_expired` asks for the rows expired at `now`. -/
  | fetching (adds : Bool) (now : Time)
  /-- It waits for `mem0.delete`. -/
  | deleting (target : Target) (rest : List Target) (adds : Bool)
  /-- It deletes a metadata row. -/
  | purging (target : Target) (rest : List Target) (adds : Bool)
  /-- `search` waits for Mem0, or asks for the metadata. -/
  | searching (hits : List Target) (earlier : List (Target × Time))
  /-- It asks for the feedback counts. -/
  | enriching (hits : List Target) (batch : List Metadata) (earlier : List (Target × Time))
  deriving DecidableEq, Repr

/-- What a search at `time` returned. -/
structure Answer where
  time : Time
  vectorFacts : List Item
  graphRelations : List Item
  earlier : List (Target × Time)
  deriving DecidableEq, Repr

/-- `writers`: the `mem0.add` calls that have begun. -/
structure State where
  tables : QualityTables := {}
  memories : List Target := []
  now : Time := 0
  monotonic : Time := 0
  lastCleanup : Time := 0
  writers : Nat := 0
  task : Nat → Option Task := fun _ => none
  recorded : List (Target × Time) := []
  answers : List Answer := []

/-- How a call ends; `removed` is what a `mem0.delete` takes out of Mem0
besides, or before it raises. -/
inductive Reply where
  | ok (removed : List Target)
  | raised (e : Exn) (removed : List Target)
  deriving DecidableEq, Repr

inductive Label where
  | tick (now monotonic : Time)
  /-- A `mem0.add` creates or updates memories, and deletes some. -/
  | mem0 (stored removed : List Target)
  /-- A `mem0.delete` without a caller ends. -/
  | forget (removed : List Target)
  | writeMetadata (fields : MetadataFields) (conversationId : Option Id) (conversationExists : Id → Bool)
    (fault : Option Exn)
  | recordFeedback (event : FeedbackEvent) (fault : Option Exn)
  | add (task : Nat) (call : AddCall)
  | maybeCleanup (task : Nat)
  | cleanupExpired (task : Nat)
  | search (task : Nat)
  /-- Mem0 looks one of its stores up for a search. -/
  | find (task : Nat) (hits : List Target)
  | resume (task : Nat) (reply : Reply)

/-! ## Steps -/

/-- An add has stored these. -/
def Task.supersede (stored : List Target) : Task → Task
  | .searching hits earlier => .searching hits (earlier.filter (·.1 ∉ stored))
  | .enriching hits batch earlier => .enriching hits batch (earlier.filter (·.1 ∉ stored))
  | task => task

namespace State

variable (s : State)

def become (i : Nat) (task : Option Task) : State := { s with task := Function.update s.task i task }

/-- A new task, if it is one. -/
def spawn (i : Nat) (s' : State) : Option State := if s.task i = none then some s' else none

def forget (removed : List Target) : State := { s with memories := s.memories.filter (· ∉ removed) }

def callMem0Add (i : Nat) : State := { s.become i (some .adding) with writers := s.writers + 1 }

/-- `now - self._last_cleanup >= interval`. -/
def cleanupIsDue (settings : Settings) : Prop :=
  settings.expirationCleanupInterval ≤ (s.monotonic : Rat) - (s.lastCleanup : Rat)

instance (settings : Settings) : Decidable (s.cleanupIsDue settings) :=
  inferInstanceAs (Decidable (_ ≤ _))

/-- mirrors quality_wrapper.py:467-473,181-193 -/
def beforeMem0Add (settings : Settings) (i : Nat) : State :=
  if s.cleanupIsDue settings then { s.become i (some (.fetching true s.now)) with lastCleanup := s.monotonic }
  else s.callMem0Add i

/-- mirrors quality_wrapper.py:136-181 -/
def add (settings : Settings) (i : Nat) (call : AddCall) : State :=
  if settings.rejects call.content then s
  else if call.conversationId.isSome && call.dedupUtterance ≠ [] then s.become i (some (.checking call))
  else s.beforeMem0Add settings i

/-- mirrors quality_wrapper.py:467-473 -/
def maybeCleanup (settings : Settings) (i : Nat) : State :=
  if s.cleanupIsDue settings then { s.become i (some (.fetching false s.now)) with lastCleanup := s.monotonic }
  else s

/-- The top of the loop. mirrors quality_wrapper.py:442-443,459-465 -/
def nextRow (i : Nat) (adds : Bool) : List Target → State
  | [] => if adds then s.callMem0Add i else s.become i none
  | x :: rest => s.become i (some (if x.1 = .fact then .deleting x rest adds else .purging x rest adds))

/-- mirrors quality_wrapper.py:430-436 -/
def expiredTargets (now : Time) : List Target := (s.tables.metadata.filter (Metadata.expired · now)).map (·.target)

/-- `DELETE FROM cea_quality_metadata WHERE target_type = $1 AND target_id = $2`. -/
def purge (x : Target) : State :=
  { s with tables := { s.tables with metadata := s.tables.metadata.filter (·.target != x) } }

def mem0 (stored removed : List Target) : State :=
  { s.forget removed with
    memories := s.memories.filter (· ∉ removed) ++ stored
    recorded := s.recorded.filter (·.1 ∉ stored)
    task := fun i => (s.task i).map (Task.supersede stored) }

/-- The expiry a row puts on record. -/
def expiry (q : Metadata) : Option (Target × Time) := q.expiresAt.map fun e => (q.target, e)

def writeMetadata (fields : MetadataFields) (conversationId : Option Id) (conversationExists : Id → Bool)
    (fault : Option Exn) : State :=
  let tables := (s.tables.writeMetadata conversationExists fault s.now fields conversationId).1
  { s with
    tables
    recorded := s.recorded ++ (tables.metadata.drop s.tables.metadata.length).filterMap expiry }

/-- mirrors quality_wrapper.py:316-338 -/
def answer (hits : List Target) (batch : List Metadata) (earlier : List (Target × Time)) : Answer :=
  { time := s.now
    vectorFacts := enrich s.tables batch s.now (hits.filter (·.1 = .fact))
    graphRelations := enrich s.tables batch s.now (hits.filter (·.1 = .relation))
    earlier }

/-- The call that a task waits for ends. -/
def resume (settings : Settings) (i : Nat) : Task → Reply → State
  | .checking call, .ok _ =>
    if isDuplicate settings s.tables call then s.become i none else s.beforeMem0Add settings i
  | .adding, _ => s.become i none
  | .fetching adds now, .ok _ => s.nextRow i adds (s.expiredTargets now)
  | .deleting x rest adds, .ok removed => (s.forget (x :: removed)).become i (some (.purging x rest adds))
  | .deleting _ rest adds, .raised e removed =>
    -- "Don't delete metadata if Mem0 delete failed"
    if e.isA .cancelledError then (s.forget removed).become i none else (s.forget removed).nextRow i adds rest
  | .purging x rest adds, .ok _ => (s.purge x).nextRow i adds rest
  | .searching hits earlier, .ok _ =>
    s.become i (some (.enriching hits (getMetadataBatch s.tables hits) earlier))
  | .enriching hits batch earlier, .ok _ =>
    { s.become i none with answers := s.answers ++ [s.answer hits batch earlier] }
  | _, .raised _ _ => s.become i none

end State

def step (settings : Settings) (s : State) : Label → Option State
  | .tick now monotonic =>
    if s.now ≤ now ∧ s.monotonic ≤ monotonic then some { s with now, monotonic } else none
  | .mem0 stored removed => if s.writers = 0 then none else some (s.mem0 stored removed)
  | .forget removed => some (s.forget removed)
  | .writeMetadata fields conversationId conversationExists fault =>
    some (s.writeMetadata fields conversationId conversationExists fault)
  | .recordFeedback event fault => some { s with tables := (s.tables.recordFeedback fault event).1 }
  | .add i call => s.spawn i (s.add settings i call)
  | .maybeCleanup i => s.spawn i (s.maybeCleanup settings i)
  | .cleanupExpired i => s.spawn i (s.become i (some (.fetching false s.now)))
  | .search i => s.spawn i (s.become i (some (.searching [] s.recorded)))
  | .find i hits =>
    match s.task i with
    | some (.searching found earlier) =>
      if hits ⊆ s.memories then some (s.become i (some (.searching (found ++ hits) earlier))) else none
    | _ => none
  | .resume i reply => (s.task i).map fun task => s.resume settings i task reply

/-- Nothing has gone through the wrapper yet. -/
def initial (memories : List Target) (now : Time) : State := { memories, now }

end ContextBroker.QualityWrapper
