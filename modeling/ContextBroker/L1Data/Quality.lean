import ContextBroker.L1Data.Schema

/-!
# The quality tables

`cea_quality_metadata` and `cea_feedback_events` as migrations 23 to 25 leave
them, and the two statements of the quality wrapper that write to them. A
metadata row belongs to a fact or a graph relation (`target`) and refers to
the conversation it was said in; a feedback event refers to no other table.

`writeMetadata_cases`: a write adds its row or leaves the table as it is; a
target that has a row keeps it. `recordFeedback_cases`: an event is recorded
exactly when the database takes it and its key is new.
-/
namespace ContextBroker

/-- `pattern="^(fact|relation)$"`. -/
inductive TargetType where
  | fact | relation
  deriving DecidableEq, Repr

abbrev Target := TargetType × Id

/-- What the callers of `write_metadata` supply, the conversation apart. -/
structure MetadataFields where
  target : Target
  durability : Rat := 1 / 2
  confidence : Rat := 1 / 2
  sourceType : Text := "observation".toList
  originalUtterance : Text := []
  extractionModel : Text
  expiresAt : Option Time := none
  userId : Text
  contentHash : Option Text := none
  deriving DecidableEq, Repr

/-- mirrors app/migrations.py:565-579,646-649 -/
structure Metadata extends MetadataFields where
  conversationId : Id
  extractedAt : Time
  deriving DecidableEq, Repr

/-- The columns of `idx_cea_metadata_natural_dedup`, which is partial.
mirrors app/migrations.py:653-657 -/
def Metadata.naturalKey (q : Metadata) : Option (TargetType × Text × Id × Text × Text) :=
  if q.originalUtterance = [] then none
  else q.contentHash.map fun hash => (q.target.1, q.userId, q.conversationId, q.originalUtterance, hash)

/-- mirrors app/migrations.py:596-605 -/
structure FeedbackEvent where
  target : Target
  eventType : Text
  agentId : Text
  context : Option Text := none
  createdAt : Time
  dedupKey : Text
  deriving DecidableEq, Repr

structure QualityTables where
  metadata : List Metadata := []
  feedback : List FeedbackEvent := []
  deriving DecidableEq, Repr

namespace QualityTables

/-- `INSERT ... ON CONFLICT (target_type, target_id) DO NOTHING`: the natural
key and the foreign key are checked for a row that is inserted.
mirrors quality_wrapper.py:249-268 -/
def insertMetadata (t : QualityTables) (conversationExists : Id → Bool) (row : Metadata) :
    Except Exn QualityTables :=
  if t.metadata.any (·.target == row.target) then .ok t
  else if row.naturalKey.isSome && t.metadata.any (·.naturalKey == row.naturalKey) then
    .error .uniqueViolationError
  else if conversationExists row.conversationId then .ok { t with metadata := t.metadata ++ [row] }
  else .error .postgresError

/-- `conversationId` is none when the text is not a UUID.
mirrors quality_wrapper.py:241-273 -/
def writeMetadata (t : QualityTables) (conversationExists : Id → Bool) (fault : Option Exn) (now : Time)
    (fields : MetadataFields) (conversationId : Option Id) : QualityTables × Except Exn Unit :=
  match conversationId, fault with
  | none, _ => (t, .ok ())
  | some _, some e => (t, .error e)
  | some c, none =>
    match t.insertMetadata conversationExists { fields with conversationId := c, extractedAt := now } with
    | .ok t' => (t', .ok ())
    | .error e => if e.caughtBy [.uniqueViolationError] then (t, .ok ()) else (t, .error e)

/-- `INSERT ... ON CONFLICT (dedup_key) DO NOTHING`; a `PostgresError` is
logged. mirrors quality_wrapper.py:386-421 -/
def recordFeedback (t : QualityTables) (fault : Option Exn) (event : FeedbackEvent) :
    QualityTables × Except Exn Bool :=
  match fault with
  | some e => if e.caughtBy [.postgresError] then (t, .ok false) else (t, .error e)
  | none =>
    if t.feedback.any (·.dedupKey == event.dedupKey) then (t, .ok false)
    else ({ t with feedback := t.feedback ++ [event] }, .ok true)

def feedbackKeys (t : QualityTables) : List Text := t.feedback.map (·.dedupKey)

/-- The metadata row of a target. -/
def metadata? (t : QualityTables) (target : Target) : Option Metadata := t.metadata.find? (·.target == target)

/-- An insert adds its row, or its target has one. -/
theorem insertMetadata_ok {t t' : QualityTables} {conversationExists : Id → Bool} {row : Metadata}
    (h : t.insertMetadata conversationExists row = .ok t') :
    t' = t ∨ conversationExists row.conversationId = true ∧ (∀ q ∈ t.metadata, q.target ≠ row.target) ∧
      t' = { t with metadata := t.metadata ++ [row] } := by
  unfold insertMetadata at h
  split at h
  · exact .inl (Except.ok.inj h).symm
  · rename_i htarget
    split at h
    · cases h
    · split at h
      · rename_i hconv
        refine .inr ⟨hconv, fun q hq heq => htarget ?_, (Except.ok.inj h).symm⟩
        exact List.any_eq_true.mpr ⟨q, hq, beq_iff_eq.mpr heq⟩
      · cases h

/-- **One write** adds the row of a new target, or changes nothing. -/
theorem writeMetadata_cases (t : QualityTables) (conversationExists : Id → Bool) (fault : Option Exn) (now : Time)
    (fields : MetadataFields) (conversationId : Option Id) :
    (t.writeMetadata conversationExists fault now fields conversationId).1 = t ∨
      ∃ c, conversationId = some c ∧ conversationExists c = true ∧ (∀ q ∈ t.metadata, q.target ≠ fields.target) ∧
        (t.writeMetadata conversationExists fault now fields conversationId).1 =
          { t with metadata := t.metadata ++ [{ fields with conversationId := c, extractedAt := now }] } := by
  unfold writeMetadata
  split
  · exact .inl rfl
  · exact .inl rfl
  · rename_i c
    split
    · rename_i t' h
      rcases insertMetadata_ok h with hsame | ⟨hconv, hnew, hrow⟩
      · exact .inl hsame
      · exact .inr ⟨c, rfl, hconv, hnew, hrow⟩
    · split <;> exact .inl rfl

/-- **One feedback event** adds its row and says so, or changes nothing. -/
theorem recordFeedback_cases (t : QualityTables) (fault : Option Exn) (event : FeedbackEvent) :
    ((fault = none ∧ event.dedupKey ∉ t.feedbackKeys) ∧
        t.recordFeedback fault event = ({ t with feedback := t.feedback ++ [event] }, .ok true)) ∨
      ¬(fault = none ∧ event.dedupKey ∉ t.feedbackKeys) ∧ (t.recordFeedback fault event).1 = t ∧
        (t.recordFeedback fault event).2 ≠ .ok true := by
  have hkeys : t.feedback.any (·.dedupKey == event.dedupKey) = true ↔ event.dedupKey ∈ t.feedbackKeys := by
    simp [feedbackKeys]
  unfold recordFeedback
  cases fault with
  | some e =>
    refine .inr ⟨by simp, ?_⟩
    by_cases hcaught : e.caughtBy [.postgresError] = true
    · simp [hcaught]
    · simp [hcaught]
  | none =>
    by_cases hpresent : event.dedupKey ∈ t.feedbackKeys
    · exact .inr ⟨fun h => h.2 hpresent, by simp [hkeys.mpr hpresent]⟩
    · have hnew : ¬t.feedback.any (·.dedupKey == event.dedupKey) = true := fun h => hpresent (hkeys.mp h)
      exact .inl ⟨⟨rfl, hpresent⟩, if_neg hnew⟩

@[simp] theorem recordFeedback_metadata (t : QualityTables) (fault : Option Exn) (event : FeedbackEvent) :
    (t.recordFeedback fault event).1.metadata = t.metadata := by
  rcases recordFeedback_cases t fault event with ⟨-, h⟩ | ⟨-, h, -⟩ <;> rw [h]

end QualityTables

end ContextBroker
