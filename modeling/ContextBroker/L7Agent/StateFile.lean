import ContextBroker.L1Data.JsonValues
import ContextBroker.L7Agent.StateManager

/-!
# The state file at start-up

`initialize` reads the id of the Imperator's conversation from the state file,
keeps it if the conversation exists, and else creates a conversation and writes its
id. What the file holds may be anything. `json.load` and `uuid.UUID` are
parameters.

`tolerated_iff`: start-up ends with the right conversation, and a fresh one is in
the file, exactly if the file is read without an exception the reader does not
catch, and a write that is needed succeeds. A value that is no mapping has no `get`,
and a true id that is no string has no `replace`: both raise AttributeError,
which ends the start-up of the application too.
-/
namespace ContextBroker.StateFile

open StateManager (Conversations WriteOutcome initializeState)

/-! ## The file -/

/-- `json.load(f)` of a file: `invalid` is a UnicodeDecodeError, a JSONDecodeError or
another ValueError, `tooDeep` a RecursionError. -/
inductive Loaded where
  | value (v : JsonValue)
  | invalid
  | tooDeep

structure Python where
  load : List UInt8 → Loaded
  /-- `uuid.UUID(hex)`; none is a ValueError. -/
  uuid : PyStr → Option Id
  /-- `json.dump({"conversation_id": str(id)}, f)` -/
  dump : Id → List UInt8

inductive File where
  | missing
  /-- `open` or reading raises an OSError. -/
  | unreadable
  | bytes (content : List UInt8)

/-- What leaves the reader. -/
inductive Raised where
  | attributeError | recursionError
  deriving DecidableEq, Repr

/-- `except (OSError, RuntimeError, asyncpg.PostgresError)`; a RecursionError is a
RuntimeError. mirrors app/main.py:166 -/
def Raised.caughtAtStartUp : Raised → Bool
  | .recursionError => true
  | .attributeError => false

/-! ## Start-up -/

section

variable (py : Python)

/-- `data.get("conversation_id")`, and what is made of it.
mirrors state_manager.py:102-104 -/
def conversationId : JsonValue → Except Raised (Option Id)
  | .obj fields =>
    match lookupKey fields "conversation_id" with
    | none => .ok none
    | some v =>
      if v.isTrue then
        match v with
        | .str s => .ok (py.uuid s)
        | _ => .error .attributeError
      else .ok none
  | _ => .error .attributeError

/-- mirrors state_manager.py:93-108 -/
def readStateFile : File → Except Raised (Option Id)
  | .missing => .ok none
  | .unreadable => .ok none
  | .bytes content =>
    match py.load content with
    | .value v => conversationId py v
    | .invalid => .ok none
    | .tooDeep => .error .recursionError

/-- The file after a write: what a write that fails leaves is logged, and no more.
mirrors state_manager.py:110-117 -/
def writeStateFile (id : Id) : Option File → File
  | none => .bytes (py.dump id)
  | some left => left

structure Started where
  db : Conversations
  conversationId : Id
  file : File

/-- `failed`: what a failing write leaves. mirrors state_manager.py:36-59 -/
def initializeFrom (file : File) (db : Conversations) (failed : Option File) : Except Raised Started :=
  match readStateFile py file with
  | .error e => .error e
  | .ok saved =>
    match saved.filter (· ∈ db.ids) with
    | some id => .ok { db, conversationId := id, file }
    | none => .ok { db := db.create, conversationId := db.nextId, file := writeStateFile py db.nextId failed }

end

/-! ## What is expected -/

section

variable {py : Python} {file : File} {db : Conversations} {failed : Option File}

/-- The file holds the id. -/
def Holds (py : Python) (file : File) (id : Id) : Prop :=
  ∃ content fields s, file = .bytes content ∧ py.load content = .value (.obj fields) ∧
    lookupKey fields "conversation_id" = some (.str s) ∧ s ≠ [] ∧ py.uuid s = some id

/-- The conversation is there: the saved one, or a fresh one that is in the file. -/
def Tolerated (py : Python) (file : File) (db : Conversations) (failed : Option File) : Prop :=
  ∃ r, initializeFrom py file db failed = .ok r ∧ r.conversationId ∈ r.db.ids ∧
    ((Holds py file r.conversationId ∧ r.db = db) ∨
      ((∀ id ∈ db.ids, ¬ Holds py file id) ∧ r.conversationId ∉ db.ids ∧ r.file = .bytes (py.dump r.conversationId)))

/-- What `json.load` returns is a mapping, in which the id, if it is true, is a string. -/
def Readable (py : Python) (file : File) : Prop :=
  ∀ content, file = .bytes content → py.load content ≠ .tooDeep ∧
    ∀ v, py.load content = .value v → ∃ fields, v = .obj fields ∧
      ∀ w, lookupKey fields "conversation_id" = some w → w.isTrue = true → ∃ s, w = .str s

/-- The conversation that is in memory is that of `StateManager`. -/
theorem initializeFrom_state {r : Started} (h : initializeFrom py file db failed = .ok r) (outcome : WriteOutcome) :
    ∃ saved, readStateFile py file = .ok saved ∧ (initializeState saved db outcome).db = r.db ∧
      (initializeState saved db outcome).conversationId = some r.conversationId := by
  unfold initializeFrom at h
  split at h
  · cases h
  · rename_i saved hread
    refine ⟨saved, hread, ?_⟩
    unfold initializeState
    cases hfilter : saved.filter (· ∈ db.ids) with
    | none | some id =>
      simp only [hfilter] at h
      cases h
      exact ⟨rfl, rfl⟩

/-- The id of a value. -/
theorem conversationId_eq {v : JsonValue} {id : Id} : conversationId py v = .ok (some id) ↔
    ∃ fields s, v = .obj fields ∧ lookupKey fields "conversation_id" = some (.str s) ∧ s ≠ [] ∧ py.uuid s = some id := by
  cases v with
  | obj fields =>
    simp only [conversationId, JsonValue.obj.injEq, exists_eq_left', exists_and_left]
    cases lookupKey fields "conversation_id" with
    | none => simp
    | some w =>
      cases w with
      | str s => by_cases hs : s = [] <;> simp [hs, JsonValue.isTrue]
      | _ => simp [ite_eq_iff]
  | _ => simp [conversationId]

theorem conversationId_ok {v : JsonValue} : (∃ saved, conversationId py v = .ok saved) ↔
    ∃ fields, v = .obj fields ∧
      ∀ w, lookupKey fields "conversation_id" = some w → w.isTrue = true → ∃ s, w = .str s := by
  cases v with
  | obj fields =>
    simp only [conversationId, JsonValue.obj.injEq, exists_eq_left']
    cases lookupKey fields "conversation_id" with
    | none => simp
    | some w =>
      cases w with
      | str s => by_cases hs : s = [] <;> simp [hs, JsonValue.isTrue]
      | _ => simp [ite_eq_iff]
  | _ => simp [conversationId]

theorem holds_iff {id : Id} : Holds py file id ↔ readStateFile py file = .ok (some id) := by
  unfold Holds readStateFile
  cases file with
  | missing | unreadable => simp
  | bytes content =>
    simp only [File.bytes.injEq, ↓existsAndEq, true_and]
    cases hload : py.load content with
    | invalid | tooDeep => simp
    | value v =>
      rw [conversationId_eq]
      simp only [Loaded.value.injEq]

/-- The reader returns. -/
theorem readable_iff : Readable py file ↔ ∃ saved, readStateFile py file = .ok saved := by
  unfold Readable readStateFile
  cases file with
  | missing | unreadable => simp
  | bytes content =>
    simp only [File.bytes.injEq, forall_eq']
    cases hload : py.load content with
    | invalid | tooDeep => simp
    | value v => simp [conversationId_ok]

theorem initializeFrom_resumed {id : Id} (hread : readStateFile py file = .ok (some id)) (hid : id ∈ db.ids) :
    initializeFrom py file db failed = .ok { db, conversationId := id, file } := by
  have hfilter : (some id).filter (· ∈ db.ids) = some id := by simp [hid]
  simp only [initializeFrom, hread, hfilter]

theorem initializeFrom_created {saved : Option Id} (hread : readStateFile py file = .ok saved)
    (hnone : ∀ id ∈ db.ids, saved ≠ some id) : initializeFrom py file db failed =
      .ok { db := db.create, conversationId := db.nextId, file := writeStateFile py db.nextId failed } := by
  have hfilter : saved.filter (· ∈ db.ids) = none :=
    Option.filter_eq_none_iff.mpr fun id hsaved hid => hnone id (of_decide_eq_true hid) hsaved
  simp only [initializeFrom, hread, hfilter]

/-- **Start-up tolerates the state file** exactly if it is readable and a write that is
needed leaves the id in it. -/
theorem tolerated_iff (py : Python) (file : File) (db : Conversations) (failed : Option File) :
    Tolerated py file db failed ↔ Readable py file ∧
      ((∃ id ∈ db.ids, Holds py file id) ∨ ∀ left, failed = some left → left = .bytes (py.dump db.nextId)) := by
  simp only [Tolerated, readable_iff, holds_iff]
  cases hread : readStateFile py file with
  | error e => simp [initializeFrom, hread]
  | ok saved =>
    simp only [Except.ok.injEq, exists_eq', true_and]
    by_cases hsaved : ∃ id ∈ db.ids, saved = some id
    · obtain ⟨id, hid, rfl⟩ := hsaved
      have hstart : initializeFrom py file db failed = .ok { db, conversationId := id, file } :=
        initializeFrom_resumed hread hid
      exact iff_of_true ⟨_, hstart, hid, .inl ⟨rfl, rfl⟩⟩ (.inl ⟨id, hid, rfl⟩)
    · have hnone : ∀ id ∈ db.ids, saved ≠ some id := fun id hid h => hsaved ⟨id, hid, h⟩
      have hfresh : db.nextId ∉ db.ids := fun h => Nat.lt_irrefl _ (db.fresh _ h)
      rw [initializeFrom_created hread hnone]
      simp only [Except.ok.injEq, exists_eq_left', hsaved, false_or]
      constructor
      · rintro ⟨_, ⟨hold, hdb⟩ | ⟨_, _, hfile⟩⟩ left hleft
        · have hids : db.nextId ∈ db.create.ids := List.mem_append_right _ (List.mem_singleton_self _)
          rw [show db.create = db from hdb] at hids
          exact absurd hids hfresh
        · rw [hleft] at hfile
          exact hfile
      · intro hwrite
        refine ⟨List.mem_append_right _ (List.mem_singleton_self _), .inr ⟨hnone, hfresh, ?_⟩⟩
        cases failed with
        | none => rfl
        | some left => exact hwrite left rfl

/-! ## A list in the file -/

/-- Only `[]` is read. -/
def listReader : Python where
  load content := if content = [0x5b, 0x5d] then .value (.arr []) else .invalid
  uuid _ := none
  dump _ := []

/-- With `[]` in the file start-up ends with an exception that nobody catches. -/
theorem list_not_tolerated : readStateFile listReader (.bytes [0x5b, 0x5d]) = .error .attributeError ∧
    Raised.attributeError.caughtAtStartUp = false ∧
    ¬ ∀ (py : Python) (file : File) (db : Conversations) (failed : Option File), Tolerated py file db failed := by
  have hread : readStateFile listReader (.bytes [0x5b, 0x5d]) = .error .attributeError := rfl
  refine ⟨hread, rfl, fun h => ?_⟩
  obtain ⟨r, hr, _⟩ := h listReader (.bytes [0x5b, 0x5d]) ⟨[], 0, by simp⟩ none
  rw [initializeFrom, hread] at hr
  cases hr

end

end ContextBroker.StateFile
