import ContextBroker.L1Data.JsonValues
import ContextBroker.L8Operations.LogQuery
import ContextBroker.L8Operations.LogWriter

/-!
# Bad log lines

What a line can do to the tail that reads it, to the batch its payload gets into
and to the writer. `json.loads` takes more than `jsonb` does (NaN, the escape
of the character 0, huge exponents), and a field `message` is taken as it is.

asyncpg raises a DataError, which is no PostgresError, for a message that is neither
a string nor None, and for one that cannot be encoded; the server refuses the
character 0. `executemany` writes all records of a batch or none.

`lines_safe_iff`: every payload can be inserted, no batch is lost for its values, and no
tail or writer ends, exactly if every line that is read is tame.
-/
namespace ContextBroker.LogLines

open LTS
open LogQuery (LogLine inBraces cleanStamp)
open Imperator (dumps)

/-! ## Payloads -/

/-- `json.loads` of a text in braces: an object, a JSONDecodeError, another ValueError
(an integer that is too long) or a RecursionError. -/
inductive Parsed where
  | value (fields : List (PyStr × JsonValue))
  | decodeError
  | valueError
  | recursionError

structure Lib where
  loads : Text → Parsed
  strptime : Text → Option Time
  /-- A text that the server takes for `$4::jsonb`. -/
  jsonb : Text → Bool

/-- The JSON of a payload: the text of the line, or `json.dumps({"raw": message})`. -/
inductive Data where
  | own (text : Text)
  | raw (message : Text)
  deriving DecidableEq, Repr

def Data.text : Data → Text
  | .own text => text
  | .raw message => dumps (.obj [("raw".toList, .str message)])

structure Payload where
  containerName : Text
  timestamp : Time
  message : JsonValue
  data : Data

/-- What a line comes to: it is passed over, a payload is made of it, or an exception
ends the tail. -/
inductive Line where
  | passed
  | payload (p : Payload)
  | ended

section

variable (lib : Lib)

/-- The message of an object. mirrors log_shipper/shipper.py:182-185 -/
def messageOf (fields : List (PyStr × JsonValue)) (message : Text) : JsonValue :=
  ((lookupKey fields "message").or (lookupKey fields "msg")).getD (.str (pyStr message))

/-- mirrors log_shipper/shipper.py:163-220 -/
def tailLine (l : LogLine) : Line :=
  match l.message with
  | none => .passed
  | some message =>
    let timestamp := (lib.strptime (cleanStamp (l.line.takeWhile (· ≠ ' ')))).getD l.readAt
    let raw : Line := .payload ⟨l.containerName, timestamp, .str (pyStr message), .raw message⟩
    if inBraces message then
      match lib.loads message with
      | .value fields => .payload ⟨l.containerName, timestamp, messageOf fields message, .own message⟩
      | .decodeError => raw
      -- `except (ValueError, KeyError, UnicodeDecodeError)`
      | .valueError => .passed
      -- a RuntimeError, which is caught outside the loop
      | .recursionError => .ended
    else raw

/-! ## Inserts -/

inductive Insert where
  | stored
  /-- The server refuses a value: a PostgresError. -/
  | refused
  | dataError
  deriving DecidableEq, Repr

/-- The parameter of `message TEXT`. -/
def messageParam : JsonValue → Insert
  | .null => .stored
  | .str s => if s.encodable then if 0 ∈ s then .refused else .stored else .dataError
  | _ => .dataError

/-- The JSON of a raw message writes the character 0 as an escape that `jsonb`
refuses. -/
def dataParam : Data → Insert
  | .own text => if lib.jsonb text then .stored else .refused
  | .raw message => if '\x00' ∈ message then .refused else .stored

/-- `conn.executemany` -/
def insert (batch : List Payload) : Insert :=
  if batch.any fun p => messageParam p.message = .dataError then .dataError
  else if batch.all fun p => messageParam p.message = .stored && dataParam lib p.data = .stored then .stored
  else .refused

/-! ## Runs -/

/-- `ended`: the lines that ended their tail. `enqueued` and `lost` are ghosts: the
payloads that got into the queue, and the batches that were refused for their
values. -/
structure State where
  queue : List Payload := []
  table : List Payload := []
  writing : Bool := true
  ended : List LogLine := []
  enqueued : List Payload := []
  lost : List (List Payload) := []

inductive Label where
  /-- A tail reads a line. -/
  | line (l : LogLine)
  /-- The next `n` payloads of the queue are written as a batch; with `fault` the
  connection or the server fails. -/
  | write (n : Nat) (fault : Bool)
  deriving DecidableEq, Repr

/-- `put_nowait`; a payload that finds the queue full is dropped.
mirrors log_shipper/shipper.py:211-217 -/
def State.put (s : State) (p : Payload) : State :=
  if s.queue.length < LogWriter.maxsize then { s with queue := s.queue ++ [p], enqueued := s.enqueued ++ [p] } else s

/-- A DataError passes both clauses and ends the loop.
mirrors log_shipper/shipper.py:234-264,289-293 -/
def State.write (s : State) (n : Nat) (fault : Bool) : State :=
  let batch := s.queue.take n
  let s := { s with queue := s.queue.drop n }
  if fault then s
  else match insert lib batch with
    | .stored => { s with table := s.table ++ batch }
    | .refused => { s with lost := s.lost ++ [batch] }
    | .dataError => { s with writing := false, lost := s.lost ++ [batch] }

def step (s : State) : Label → Option State
  | .line l => some (match tailLine lib l with
    | .passed => s
    | .payload p => s.put p
    | .ended => { s with ended := s.ended ++ [l] })
  | .write n fault => if s.writing ∧ 0 < n ∧ n ≤ s.queue.length then some (s.write lib n fault) else none

/-! ## What is expected -/

/-- Its message is a string that the server takes, and its data are JSON for it. -/
structure Insertable (p : Payload) : Prop where
  message : ∃ s : PyStr, p.message = .str s ∧ s.encodable = true ∧ 0 ∉ s
  data : dataParam lib p.data = .stored

structure Safe (s : State) : Prop where
  payloads : ∀ p ∈ s.enqueued, Insertable lib p
  batches : s.lost = []
  tails : s.ended = []
  writer : s.writing = true

/-- A line that does no harm. What finds the queue full is dropped. -/
def Tame (s : State) : Label → Prop
  | .line l => ∀ message, l.message = some message →
    if inBraces message then
      match lib.loads message with
      | .value fields => s.queue.length < LogWriter.maxsize → lib.jsonb message = true ∧
          ∃ t : PyStr, messageOf fields message = .str t ∧ t.encodable = true ∧ 0 ∉ t
      | .decodeError => s.queue.length < LogWriter.maxsize → '\x00' ∉ message
      | .valueError => True
      | .recursionError => False
    else s.queue.length < LogWriter.maxsize → '\x00' ∉ message
  | .write _ _ => True

end

section

variable {lib : Lib} {s s' : State} {l : Label}

/-! ### Lines -/

theorem insertable_raw {name message : Text} {timestamp : Time} :
    Insertable lib ⟨name, timestamp, .str (pyStr message), .raw message⟩ ↔ '\x00' ∉ message := by
  have hzero : 0 ∈ pyStr message ↔ '\x00' ∈ message := by
    rw [pyStr, List.mem_map]
    constructor
    · rintro ⟨c, hc, hcode⟩
      obtain rfl : c = '\x00' := Char.toNat_inj.mp hcode
      exact hc
    · exact fun h => ⟨_, h, rfl⟩
  constructor
  · intro h hmem
    have hdata := h.data
    rw [dataParam, if_pos hmem] at hdata
    cases hdata
  · intro h
    exact ⟨⟨_, rfl, encodable_pyStr message, fun h0 => h (hzero.mp h0)⟩, if_neg h⟩

theorem insertable_own {name message : Text} {timestamp : Time} {v : JsonValue} :
    Insertable lib ⟨name, timestamp, v, .own message⟩ ↔
      lib.jsonb message = true ∧ ∃ t : PyStr, v = .str t ∧ t.encodable = true ∧ 0 ∉ t := by
  have hdata : dataParam lib (.own message) = .stored ↔ lib.jsonb message = true := by
    rw [dataParam]
    split <;> simp [*]
  exact ⟨fun h => ⟨hdata.mp h.data, h.message⟩, fun h => ⟨h.2, hdata.mpr h.1⟩⟩

/-- A line is tame by what it comes to. -/
theorem tame_line_iff {line : LogLine} : Tame lib s (.line line) ↔
    match tailLine lib line with
    | .passed => True
    | .payload p => s.queue.length < LogWriter.maxsize → Insertable lib p
    | .ended => False := by
  unfold Tame tailLine
  cases hmessage : line.message with
  | none => simp [hmessage]
  | some message =>
    simp only [hmessage, Option.some.injEq, forall_eq']
    by_cases hbraces : inBraces message = true
    · simp only [if_pos hbraces]
      cases lib.loads message with
      | value fields => exact imp_congr_right fun _ => insertable_own.symm
      | decodeError => exact imp_congr_right fun _ => insertable_raw.symm
      | valueError | recursionError => rfl
    · simp only [if_neg hbraces]
      exact imp_congr_right fun _ => insertable_raw.symm

/-! ### Batches -/

/-- What can be inserted is. -/
theorem insert_of_insertable {batch : List Payload} (h : ∀ p ∈ batch, Insertable lib p) :
    insert lib batch = .stored := by
  have hmessage : ∀ p ∈ batch, messageParam p.message = .stored := by
    intro p hp
    obtain ⟨t, heq, hencodable, hzero⟩ := (h p hp).message
    rw [heq, messageParam, if_pos hencodable, if_neg hzero]
  have hnone : (batch.any fun p => messageParam p.message = .dataError) = false := by
    refine List.any_eq_false.mpr fun p hp => ?_
    simp [hmessage p hp]
  have hall : (batch.all fun p => messageParam p.message = .stored && dataParam lib p.data = .stored) = true := by
    refine List.all_eq_true.mpr fun p hp => ?_
    simp [hmessage p hp, (h p hp).data]
  simp [insert, hnone, hall]

/-! ### One step -/

/-- The queue holds what got into it. -/
def Inv (s : State) : Prop := ∀ p ∈ s.queue, p ∈ s.enqueued

theorem write_fields (lib : Lib) (s : State) (n : Nat) (fault : Bool) : (s.write lib n fault).queue = s.queue.drop n ∧
    (s.write lib n fault).enqueued = s.enqueued ∧ (s.write lib n fault).ended = s.ended := by
  unfold State.write
  dsimp only
  split
  · exact ⟨rfl, rfl, rfl⟩
  · split <;> exact ⟨rfl, rfl, rfl⟩

theorem Inv.step (h : Inv s) (hstep : step lib s l = some s') : Inv s' := by
  cases l with
  | line line =>
    obtain rfl := Option.some.inj hstep
    split
    · exact h
    · rename_i p _
      unfold State.put
      split
      · exact fun q hq => (List.mem_append.mp hq).elim (fun hq => List.mem_append_left _ (h q hq))
          fun hq => List.mem_append_right _ hq
      · exact h
    · exact h
  | write n fault =>
    obtain ⟨_, hstep⟩ := Option.ite_none_right_eq_some.mp hstep
    obtain rfl := Option.some.inj hstep
    obtain ⟨hqueue, henqueued, _⟩ := write_fields lib s n fault
    intro p hp
    rw [hqueue] at hp
    rw [henqueued]
    exact h p (List.mem_of_mem_drop hp)

/-- A batch of payloads that can be inserted is not lost for its values. -/
theorem Safe.write (h : Safe lib s) (hI : Inv s) (n : Nat) (fault : Bool) : Safe lib (s.write lib n fault) := by
  have hstored : insert lib (s.queue.take n) = .stored :=
    insert_of_insertable fun p hp => h.payloads p (hI p (List.mem_of_mem_take hp))
  unfold State.write
  dsimp only
  rw [hstored]
  split
  · exact ⟨h.payloads, h.batches, h.tails, h.writer⟩
  · exact ⟨h.payloads, h.batches, h.tails, h.writer⟩

/-- **One step** is safe exactly if its line is tame. -/
theorem Safe.step_iff (h : Safe lib s) (hI : Inv s) (hstep : LogLines.step lib s l = some s') :
    Safe lib s' ↔ Tame lib s l := by
  cases l with
  | line line =>
    rw [tame_line_iff]
    obtain rfl := Option.some.inj hstep
    cases tailLine lib line with
    | passed => exact iff_of_true h trivial
    | ended => exact iff_of_false (fun h' => List.append_ne_nil_of_right_ne_nil _ (List.cons_ne_nil _ _) h'.tails) id
    | payload p =>
      dsimp only
      unfold State.put
      split
      · rename_i hroom
        constructor
        · exact fun h' _ => h'.payloads p (List.mem_append_right _ (List.mem_singleton_self _))
        · intro hp
          refine ⟨List.forall_mem_append.mpr ⟨h.payloads, fun q hq => ?_⟩, h.batches, h.tails, h.writer⟩
          exact List.mem_singleton.mp hq ▸ hp hroom
      · rename_i hfull
        exact iff_of_true h fun hroom => absurd hroom hfull
  | write n fault =>
    obtain ⟨_, hstep⟩ := Option.ite_none_right_eq_some.mp hstep
    exact Option.some.inj hstep ▸ iff_of_true (h.write hI n fault) trivial

/-- **Bad lines**: in every state of a run payloads, batches, tails and the writer are
safe, exactly if every line of the run is tame when it is read. -/
theorem lines_safe_iff (lib : Lib) (ls : List Label) : (∀ s, Passes (step lib) {} ls s → Safe lib s) ↔
    ∀ s l s', Takes (step lib) {} ls s l s' → Tame lib s l := by
  have hI0 : Inv {} := fun _ h => absurd h List.not_mem_nil
  have hsafe0 : Safe lib {} := ⟨fun _ h => absurd h List.not_mem_nil, rfl, rfl, rfl⟩
  exact always_iff (fun _ _ _ hI _ hstep => hI.step hstep) (fun _ _ _ hI h hstep => h.step_iff hI hstep) hI0 hsafe0 ls

end

/-! ## A number as a message -/

/-- The one object read is `{"message": 5}`. -/
def numberLib : Lib where
  loads text :=
    if text = "\x7b\x22message\x22: 5\x7d".toList then .value [(pyStr "message".toList, .number (.int 5))]
    else .decodeError
  strptime _ := none
  jsonb _ := true

def numberLine : LogLine := ⟨"app".toList, "t \x7b\x22message\x22: 5\x7d".toList, 0⟩

/-- It gets into a batch, and the writer ends. -/
theorem number_ends_writer :
    (exec (step numberLib) {} [.line numberLine, .write 1 false]).map State.writing = some false ∧
    ¬ ∀ (lib : Lib) (ls : List Label) (s : State), Passes (step lib) {} ls s → Safe lib s := by
  have hrun : (exec (step numberLib) {} [.line numberLine, .write 1 false]).map State.writing = some false := by
    decide +kernel
  refine ⟨hrun, fun h => ?_⟩
  obtain ⟨s, hs, hwriting⟩ := Option.map_eq_some_iff.mp hrun
  have hsafe := (h numberLib _ s (passes_of_exec hs)).writer
  rw [hwriting] at hsafe
  cases hsafe

end ContextBroker.LogLines
