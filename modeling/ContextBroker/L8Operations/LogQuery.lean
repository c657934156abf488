import ContextBroker.L7Agent.ToolHistory

/-!
# Shipped logs and log queries

The shipper cuts a line into Docker's timestamp and a message. A message that
is a JSON object is stored as `data`, and its field `message` or `msg` as the
message; anything else becomes the object with the one field `raw`. A batch
is written in one transaction. `query_logs` filters the rows by SQL and reads
level and logger of what comes back from `data`.

asyncpg hands `data` over as text, which is no dict: every entry has the
level "unknown" and no logger (`entryOf_level`). It takes a bound for a
timestamptz only as a datetime, and the two bounds are handed on as the
strings they came as, so a query with one of them raises. `agrees_iff` says
when shipper and query agree.
-/
namespace ContextBroker.LogQuery

open Rows
open Retrieval (truthy)
open Imperator (Json dumps columnValue poolCodec)

/-- `value.get(key)` of a dict, `none` for a key it does not have. -/
def valueAt (key : Text) : Json → Option Json
  | .obj fields => fields.lookup key
  | _ => none

def levelKey : Text := "level".toList

def loggerKey : Text := "logger".toList

def messageKey : Text := "message".toList

/-- The JSON and the dates of Python and Postgres. -/
structure Lib where
  /-- `json.loads`; `none` is a `JSONDecodeError`. -/
  loads : Text → Option Json
  /-- `strptime(text, "%Y-%m-%dT%H:%M:%S.%fZ")`; `none` is a `ValueError`. -/
  strptime : Text → Option Time
  /-- The instant an ISO-8601 text stands for. -/
  timestamptz : Text → Option Time
  /-- The text of `$4::jsonb`; `none` is a text that Postgres refuses. -/
  jsonb : Text → Option Text
  /-- `data->>'key'`. -/
  arrow : Text → Text → Option Text
  lower : Text → Text
  /-- Postgres reads the strings of an object that Python reads. -/
  arrow_str : ∀ {text doc key s : Text} {parsed : Json}, loads text = some parsed → jsonb text = some doc →
    valueAt key parsed = some (.str s) → arrow doc key = some s

/-! ## The shipper -/

/-- A line of the stream of a container. -/
structure LogLine where
  /-- `container["Name"]`. -/
  name : Text
  line : Text
  /-- When the tail reads it. -/
  readAt : Time
  deriving DecidableEq, Repr

def LogLine.containerName (l : LogLine) : Text := l.name.dropWhile (· = '/')

/-- `parts[1].strip()`; `none` for a line that is skipped. -/
def LogLine.message (l : LogLine) : Option Text :=
  match l.line.dropWhile (· ≠ ' ') with
  | [] => none
  | _ :: rest => if strip rest = [] then none else some (strip rest)

structure Payload where
  containerName : Text
  timestamp : Time
  message : Json
  data : Text

def inBraces (message : Text) : Bool := message.head? == some '\x7b' && message.getLast? == some '\x7d'

/-- `message` and `data` of the payload. mirrors log_shipper/shipper.py:171-187 -/
def structured (lib : Lib) (message : Text) : Json × Text :=
  let raw := dumps (.obj [("raw".toList, .str message)])
  if inBraces message then
    match lib.loads message with
    | some parsed =>
      (((valueAt messageKey parsed).or (valueAt "msg".toList parsed)).getD (.str message), message)
    | none => (.str message, raw)
  else (.str message, raw)

/-- Cut to microseconds. mirrors log_shipper/shipper.py:193-198 -/
def cleanStamp (stamp : Text) : Text :=
  match stamp.dropWhile (· ≠ '.') with
  | [] => stamp
  | dot :: frac =>
    stamp.takeWhile (· ≠ '.') ++ [dot] ++ ((frac.filter (· ≠ 'Z')).take 6).rightpad 6 '0' ++ ['Z']

/-- The shipper does not tail itself. mirrors log_shipper/shipper.py:135-216 -/
def payloadOf (lib : Lib) (l : LogLine) : Option Payload :=
  if l.containerName = "context-broker-log-shipper".toList then none
  else
    l.message.map fun message =>
      { containerName := l.containerName
        timestamp := (lib.strptime (cleanStamp (l.line.takeWhile (· ≠ ' ')))).getD l.readAt
        message := (structured lib message).1
        data := (structured lib message).2 }

/-! ## The table -/

/-- A row of system_logs. -/
structure Row where
  containerName : Text
  logTimestamp : Time
  message : Option Text
  data : Text
  deriving DecidableEq, Repr

/-- A row, with the line it was made from. -/
structure Stored where
  line : LogLine
  row : Row
  deriving DecidableEq, Repr

/-- A value as the parameter of a text column: asyncpg refuses what is no
string, Postgres the character 0. -/
def textParam : Json → Option (Option Text)
  | .null => some none
  | .str s => if '\x00' ∈ s then none else some (some s)
  | _ => none

/-- The row of a record, when it can be written. -/
def rowOf (lib : Lib) (p : Payload) : Option Row :=
  if p.containerName.length ≤ 255 ∧ '\x00' ∉ p.containerName then
    (textParam p.message).bind fun message =>
      (lib.jsonb p.data).map fun data => ⟨p.containerName, p.timestamp, message, data⟩
  else none

/-- The lines of a batch that become records. -/
def records (lib : Lib) (batch : List LogLine) : List (LogLine × Payload) :=
  batch.filterMap fun l => (payloadOf lib l).map fun p => (l, p)

/-- `executemany` writes all of its records or none, and the error is logged.
mirrors log_shipper/shipper.py:232-264 -/
def writeBatch (lib : Lib) (table : List Stored) (batch : List LogLine) : List Stored :=
  if (records lib batch).all fun r => (rowOf lib r.2).isSome then
    table ++ (records lib batch).filterMap fun r => (rowOf lib r.2).map (Stored.mk r.1)
  else table

inductive Event where
  | write (batch : List LogLine)
  /-- A row is deleted, as the embedding worker does with rows it cannot embed. -/
  | delete (i : Nat)
  deriving DecidableEq, Repr

def step (lib : Lib) (table : List Stored) : Event → List Stored
  | .write batch => writeBatch lib table batch
  | .delete i => table.eraseIdx i

def run (lib : Lib) (evs : List Event) : List Stored := evs.foldl (step lib) []

/-! ## The query -/

inductive Level where
  | debug | info | warn | warning | error
  deriving DecidableEq, Repr

def Level.name : Level → Text
  | .debug => "DEBUG".toList
  | .info => "INFO".toList
  | .warn => "WARN".toList
  | .warning => "WARNING".toList
  | .error => "ERROR".toList

/-- mirrors app/models.py:267-275 -/
structure QueryLogsInput where
  containerName : Option Text := none
  level : Option Level := none
  since : Option Text := none
  until' : Option Text := none
  keyword : Option Text := none
  limit : Nat := 50
  containerName_le : ∀ t ∈ containerName, t.length ≤ 255 := by decide
  keyword_le : ∀ t ∈ keyword, t.length ≤ 500 := by decide
  limit_bounds : 1 ≤ limit ∧ limit ≤ 500 := by decide

/-- `LIKE`. -/
def like : Text → Text → Bool
  | [], text => text.isEmpty
  | '%' :: rest, text => text.tails.any fun t => like rest t
  | '_' :: rest, text => !text.isEmpty && like rest text.tail
  | '\\' :: c :: rest, text => text.head? == some c && like rest text.tail
  | c :: rest, text => text.head? == some c && like rest text.tail

/-- A condition of the WHERE clause with its argument. -/
inductive Condition where
  | containerName (pattern : Text)
  | level (name : Text)
  | since (bound : Text)
  | until' (bound : Text)
  | keyword (pattern : Text)
  deriving DecidableEq, Repr

/-- `f"%{value}%"`. -/
def pattern (value : Text) : Text := '%' :: value ++ ['%']

/-- mirrors app/flows/tool_dispatch.py:558-582 -/
def conditions (inp : QueryLogsInput) : List Condition :=
  ((truthy inp.containerName).map fun t => .containerName (pattern t)).toList ++
    (inp.level.map fun level => .level level.name).toList ++
    ((truthy inp.since).map .since).toList ++
    ((truthy inp.until').map .until').toList ++
    ((truthy inp.keyword).map fun t => .keyword (pattern t)).toList

/-- asyncpg takes the argument: a string for a text, and none for a timestamptz. -/
def Condition.encodes : Condition → Bool
  | .since _ | .until' _ => false
  | _ => true

/-- Postgres takes the argument. -/
def Condition.valid : Condition → Bool
  | .containerName pattern | .keyword pattern => '\x00' ∉ pattern
  | _ => true

def Condition.holds (lib : Lib) (row : Row) : Condition → Bool
  | .containerName pattern => like (lib.lower pattern) (lib.lower row.containerName)
  | .level name => lib.arrow row.data levelKey == some name
  | .since bound => (lib.timestamptz bound).any (· ≤ row.logTimestamp)
  | .until' bound => (lib.timestamptz bound).any (row.logTimestamp ≤ ·)
  | .keyword pattern => row.message.any fun message => like (lib.lower pattern) (lib.lower message)

/-- The rows of the SELECT; `scan` are the rows of the table as it reads them.
mirrors app/flows/tool_dispatch.py:583-595 -/
def fetchLogs (lib : Lib) (scan : List Stored) (inp : QueryLogsInput) : Except Exn (List Stored) :=
  if (conditions inp).any fun c => !c.encodes then .error .dataError
  else if (conditions inp).any fun c => !c.valid then .error .postgresError
  else
    .ok (latest (·.row.logTimestamp) inp.limit
      (scan.filter fun s => (conditions inp).all fun c => c.holds lib s.row))

structure LogEntry where
  timestamp : Time
  containerName : Text
  level : Json
  logger : Json
  message : Text

/-- mirrors app/flows/tool_dispatch.py:596-611 -/
def entryOf (row : Row) : LogEntry :=
  let data : List (Text × Json) :=
    match columnValue poolCodec row.data with
    | .obj fields => fields
    | _ => []
  { timestamp := row.logTimestamp
    containerName := row.containerName
    level := (data.lookup levelKey).getD (.str "unknown".toList)
    logger := (data.lookup loggerKey).getD (.str [])
    message := row.message.getD [] }

def queryLogs (lib : Lib) (scan : List Stored) (inp : QueryLogsInput) : Except Exn (List LogEntry) :=
  (fetchLogs lib scan inp).map fun shown => shown.map fun s => entryOf s.row

/-! ## Agreement -/

structure Fields where
  level : Text
  logger : Text
  message : Text
  deriving DecidableEq, Repr

def stringAt (key : Text) (value : Json) : Option Text :=
  match valueAt key value with
  | some (.str s) => some s
  | _ => none

/-- The fields of a line that is a JSON object with strings for the three of
them, in a container that is tailed. -/
def fieldsOf (lib : Lib) (l : LogLine) : Option Fields := do
  guard (l.containerName ≠ "context-broker-log-shipper".toList)
  let message ← l.message
  guard (inBraces message)
  let parsed ← lib.loads message
  return ⟨← stringAt levelKey parsed, ← stringAt loggerKey parsed, ← stringAt messageKey parsed⟩

/-- The level of a stored line; one without the three fields has what Postgres
reads in its data. -/
def levelOf (lib : Lib) (s : Stored) : Option Text :=
  match fieldsOf lib s.line with
  | some fields => some fields.level
  | none => lib.arrow s.row.data levelKey

/-- What the filters of level and time ask for. -/
def satisfies (lib : Lib) (inp : QueryLogsInput) (s : Stored) : Bool :=
  (inp.level.all fun level => levelOf lib s == some level.name) &&
    (((truthy inp.since).bind lib.timestamptz).all (· ≤ s.row.logTimestamp) &&
      ((truthy inp.until').bind lib.timestamptz).all (s.row.logTimestamp ≤ ·))

/-- What a query may show of a table. -/
structure Answers (lib : Lib) (table : List Stored) (inp : QueryLogsInput) (shown : List Stored) : Prop where
  selected : truthy inp.containerName = none → truthy inp.keyword = none →
    Latest (·.row.logTimestamp) inp.limit (table.filter (satisfies lib inp)) shown
  exact : conditions inp = [] → ∀ s ∈ shown, ∀ fields, fieldsOf lib s.line = some fields →
    (entryOf s.row).level = .str fields.level ∧ (entryOf s.row).logger = .str fields.logger ∧
      (entryOf s.row).message = fields.message

/-- Every line with the three fields is stored with its batch, and the query
answers, in whatever order the rows of the table are read. -/
structure Agrees (lib : Lib) (evs : List Event) (inp : QueryLogsInput) : Prop where
  stored : ∀ batch, .write batch ∈ evs → ∀ l ∈ batch, ∀ fields, fieldsOf lib l = some fields →
    ∃ row, ⟨l, row⟩ ∈ writeBatch lib [] batch
  answered : ∀ scan, scan.Perm (run lib evs) → ∃ shown, fetchLogs lib scan inp = .ok shown ∧
    queryLogs lib scan inp = .ok (shown.map fun s => entryOf s.row) ∧ Answers lib (run lib evs) inp shown

/-- Nothing in the line keeps it out of the table. -/
def Storable (lib : Lib) (l : LogLine) : Prop :=
  ∀ p, payloadOf lib l = some p → p.containerName.length ≤ 255 ∧ '\x00' ∉ p.containerName ∧
    (textParam p.message).isSome ∧ (lib.jsonb p.data).isSome

structure Meets (lib : Lib) (evs : List Event) (inp : QueryLogsInput) : Prop where
  storable : ∀ batch, .write batch ∈ evs → (∃ l ∈ batch, ∃ fields, fieldsOf lib l = some fields) →
    ∀ l ∈ batch, Storable lib l
  unbounded : truthy inp.since = none ∧ truthy inp.until' = none
  clean : ∀ t, truthy inp.containerName = some t ∨ truthy inp.keyword = some t → '\x00' ∉ t
  defaults : conditions inp = [] → ∀ s ∈ run lib evs,
    ((run lib evs).filter fun t => s.row.logTimestamp < t.row.logTimestamp).length < inp.limit →
      ∀ fields, fieldsOf lib s.line = some fields → fields.level = "unknown".toList ∧ fields.logger = []

section

variable {lib : Lib}

/-! ### What is stored -/

theorem stringAt_eq {key s : Text} {value : Json} (h : stringAt key value = some s) :
    valueAt key value = some (.str s) := by
  unfold stringAt at h
  split at h
  · next hvalue => rw [hvalue, Option.some.inj h]
  · cases h

theorem payloadOf_of_fields {l : LogLine} {fields : Fields} (h : fieldsOf lib l = some fields) :
    ∃ p parsed, payloadOf lib l = some p ∧ p.message = .str fields.message ∧ lib.loads p.data = some parsed ∧
      valueAt levelKey parsed = some (.str fields.level) := by
  simp only [fieldsOf, Option.bind_eq_bind, Option.bind_eq_some_iff, Option.guard_eq_some'] at h
  obtain ⟨_, hname, message, hmessage, _, hbraces, parsed, hparsed, level, hlevel, _, _, text, htext, hret⟩ := h
  cases hret
  have hpayload := show payloadOf lib l = _ by rw [payloadOf, if_neg hname, hmessage, Option.map_some]
  have hstructured : structured lib message = (.str text, message) := by
    simp [structured, hbraces, hparsed, stringAt_eq htext]
  refine ⟨_, parsed, hpayload, congrArg Prod.fst hstructured, ?_, stringAt_eq hlevel⟩
  rw [← hparsed]
  exact congrArg (lib.loads ·.2) hstructured

/-- What a batch adds is made from its lines. -/
theorem mem_writeBatch {table : List Stored} {batch : List LogLine} {s : Stored}
    (h : s ∈ writeBatch lib table batch) :
    s ∈ table ∨ s.line ∈ batch ∧ ∃ p, payloadOf lib s.line = some p ∧ rowOf lib p = some s.row := by
  unfold writeBatch at h
  split at h
  · rcases List.mem_append.mp h with h | h
    · exact .inl h
    · obtain ⟨⟨l, p⟩, hr, hs⟩ := List.mem_filterMap.mp h
      obtain ⟨row, hrow, rfl⟩ := Option.map_eq_some_iff.mp hs
      obtain ⟨l', hl, hp⟩ := List.mem_filterMap.mp hr
      obtain ⟨p', hp', heq⟩ := Option.map_eq_some_iff.mp hp
      cases heq
      exact .inr ⟨hl, _, hp', hrow⟩
  · exact .inl h

theorem mem_step {table : List Stored} {ev : Event} {s : Stored} (h : s ∈ step lib table ev) :
    s ∈ table ∨ ∃ p, payloadOf lib s.line = some p ∧ rowOf lib p = some s.row := by
  cases ev with
  | write batch => exact (mem_writeBatch h).imp_right And.right
  | delete i => exact .inl (List.mem_of_mem_eraseIdx h)

/-- Every row of the table is the row of the payload of its line. -/
theorem mem_run {evs : List Event} {s : Stored} (h : s ∈ run lib evs) :
    ∃ p, payloadOf lib s.line = some p ∧ rowOf lib p = some s.row := by
  induction evs using List.reverseRecOn with
  | nil => cases h
  | append_singleton evs ev ih =>
    rw [run, List.foldl_append] at h
    rcases mem_step h with h | h
    · exact ih h
    · exact h

theorem rowOf_eq {p : Payload} {row : Row} (h : rowOf lib p = some row) :
    textParam p.message = some row.message ∧ lib.jsonb p.data = some row.data := by
  unfold rowOf at h
  split at h
  · obtain ⟨message, hmessage, h⟩ := Option.bind_eq_some_iff.mp h
    obtain ⟨data, hdata, rfl⟩ := Option.map_eq_some_iff.mp h
    exact ⟨hmessage, hdata⟩
  · cases h

/-- A stored line has its own message, and Postgres its own level of it. -/
theorem row_of_fields {evs : List Event} {s : Stored} (h : s ∈ run lib evs) {fields : Fields}
    (hfields : fieldsOf lib s.line = some fields) :
    s.row.message = some fields.message ∧ lib.arrow s.row.data levelKey = some fields.level := by
  obtain ⟨p, hp, hrow⟩ := mem_run h
  obtain ⟨p', parsed, hp', hmessage, hloads, hlevel⟩ := payloadOf_of_fields hfields
  rw [hp, Option.some.injEq] at hp'
  subst hp'
  obtain ⟨htext, hdata⟩ := rowOf_eq hrow
  refine ⟨?_, lib.arrow_str hloads hdata hlevel⟩
  rw [hmessage, textParam] at htext
  split at htext
  · cases htext
  · exact (Option.some.inj htext).symm

theorem levelOf_eq {evs : List Event} {s : Stored} (h : s ∈ run lib evs) :
    levelOf lib s = lib.arrow s.row.data levelKey := by
  unfold levelOf
  split
  · next hfields => exact (row_of_fields h hfields).2.symm
  · rfl

theorem isSome_rowOf {l : LogLine} (h : Storable lib l) {p : Payload} (hp : payloadOf lib l = some p) :
    (rowOf lib p).isSome := by
  obtain ⟨hlength, hnul, hmessage, hdata⟩ := h p hp
  obtain ⟨message, hmessage⟩ := Option.isSome_iff_exists.mp hmessage
  obtain ⟨data, hdata⟩ := Option.isSome_iff_exists.mp hdata
  rw [rowOf, if_pos ⟨hlength, hnul⟩, hmessage, hdata]
  rfl

theorem storable_of_isSome {l : LogLine} (h : ∀ p, payloadOf lib l = some p → (rowOf lib p).isSome) :
    Storable lib l := by
  intro p hp
  obtain ⟨row, hrow⟩ := Option.isSome_iff_exists.mp (h p hp)
  obtain ⟨htext, hdata⟩ := rowOf_eq hrow
  unfold rowOf at hrow
  split at hrow
  · next hname => exact ⟨hname.1, hname.2, by rw [htext]; rfl, by rw [hdata]; rfl⟩
  · cases hrow

/-- A batch is written when nothing keeps a line of it out. -/
theorem inserted_iff {batch : List LogLine} {l : LogLine} (hl : l ∈ batch) {p : Payload}
    (hp : payloadOf lib l = some p) :
    (∃ row, ⟨l, row⟩ ∈ writeBatch lib [] batch) ↔ ∀ l' ∈ batch, Storable lib l' := by
  have hmem : ∀ l' ∈ batch, ∀ p', payloadOf lib l' = some p' → (l', p') ∈ records lib batch := fun l' hl' p' hp' =>
    List.mem_filterMap.mpr ⟨l', hl', by rw [hp']; rfl⟩
  constructor
  · intro ⟨row, hrow⟩ l' hl'
    unfold writeBatch at hrow
    split at hrow
    · next hall => exact storable_of_isSome fun p' hp' => List.all_eq_true.mp hall _ (hmem l' hl' p' hp')
    · cases hrow
  · intro hall
    have hsome : ((records lib batch).all fun r => (rowOf lib r.2).isSome) = true := by
      refine List.all_eq_true.mpr fun r hr => ?_
      obtain ⟨l', hl', hr⟩ := List.mem_filterMap.mp hr
      obtain ⟨p', hp', rfl⟩ := Option.map_eq_some_iff.mp hr
      exact isSome_rowOf (hall l' hl') hp'
    obtain ⟨row, hrow⟩ := Option.isSome_iff_exists.mp (isSome_rowOf (hall l hl) hp)
    refine ⟨row, ?_⟩
    rw [writeBatch, if_pos hsome, List.nil_append]
    exact List.mem_filterMap.mpr ⟨_, hmem l hl p hp, by rw [hrow]; rfl⟩

/-! ### What a query answers -/

/-- Without a codec the data is no dict. -/
theorem entryOf_level (row : Row) :
    (entryOf row).level = .str "unknown".toList ∧ (entryOf row).logger = .str [] := ⟨rfl, rfl⟩

variable {inp : QueryLogsInput}

theorem forall_conditions {P : Condition → Prop} :
    (∀ c ∈ conditions inp, P c) ↔
      (∀ t, truthy inp.containerName = some t → P (.containerName (pattern t))) ∧
        (∀ level, inp.level = some level → P (.level level.name)) ∧
          (∀ t, truthy inp.since = some t → P (.since t)) ∧ (∀ t, truthy inp.until' = some t → P (.until' t)) ∧
            ∀ t, truthy inp.keyword = some t → P (.keyword (pattern t)) := by
  simp only [conditions, List.forall_mem_append, Option.mem_toList, Option.map_eq_some_iff, and_assoc,
    forall_exists_index, and_imp]
  simp only [forall_apply_eq_imp_iff₂]

theorem encodes_iff :
    ((conditions inp).any fun c => !c.encodes) = false ↔ truthy inp.since = none ∧ truthy inp.until' = none := by
  rw [List.any_eq_false, forall_conditions]
  simp only [Condition.encodes, Option.eq_none_iff_forall_ne_some]
  simp

theorem nul_mem_pattern (t : Text) : '\x00' ∈ pattern t ↔ '\x00' ∈ t := by simp [pattern]

theorem valid_iff :
    ((conditions inp).any fun c => !c.valid) = false ↔
      ∀ t, truthy inp.containerName = some t ∨ truthy inp.keyword = some t → '\x00' ∉ t := by
  rw [List.any_eq_false, forall_conditions]
  simp only [Condition.valid, nul_mem_pattern, or_imp, forall_and]
  simp

/-- A query raises for a bound and for the character 0, and for nothing else. -/
theorem fetchLogs_eq {scan shown : List Stored} :
    fetchLogs lib scan inp = .ok shown ↔
      (truthy inp.since = none ∧ truthy inp.until' = none) ∧
        (∀ t, truthy inp.containerName = some t ∨ truthy inp.keyword = some t → '\x00' ∉ t) ∧
          shown = latest (·.row.logTimestamp) inp.limit
            (scan.filter fun s => (conditions inp).all fun c => c.holds lib s.row) := by
  rw [← encodes_iff, ← valid_iff]
  unfold fetchLogs
  split
  · next hencodes => simp [hencodes]
  · next hencodes =>
    split
    · next hvalid => simp [hvalid]
    · next hvalid => simp [hencodes, hvalid, eq_comm]

/-- The conditions of a query that has none of its own on names and texts. -/
theorem all_holds_eq {evs : List Event} {s : Stored} (hs : s ∈ run lib evs)
    (hunbounded : truthy inp.since = none ∧ truthy inp.until' = none) (hcontainer : truthy inp.containerName = none)
    (hkeyword : truthy inp.keyword = none) :
    ((conditions inp).all fun c => c.holds lib s.row) = satisfies lib inp s := by
  rw [Bool.eq_iff_iff, List.all_eq_true, forall_conditions, satisfies, levelOf_eq hs, hunbounded.1, hunbounded.2,
    hcontainer, hkeyword]
  simp [Condition.holds, Option.all_eq_true]

/-! ### The condition -/

theorem Meets.agrees {evs : List Event} (h : Meets lib evs inp) : Agrees lib evs inp := by
  constructor
  · intro batch hbatch l hl fields hfields
    obtain ⟨p, _, hp, _⟩ := payloadOf_of_fields hfields
    exact (inserted_iff hl hp).mpr (h.storable batch hbatch ⟨l, hl, fields, hfields⟩)
  · intro scan hscan
    have hfetch := (@fetchLogs_eq lib inp scan _).mpr ⟨h.unbounded, h.clean, rfl⟩
    refine ⟨_, hfetch, by rw [queryLogs, hfetch]; rfl, ?_, ?_⟩
    · intro hcontainer hkeyword
      refine latest_spec ((hscan.filter _).trans (List.Perm.of_eq ?_))
      exact List.filter_congr fun s hs => all_holds_eq hs h.unbounded hcontainer hkeyword
    · intro hnone s hs fields hfields
      simp only [hnone, List.all_nil, List.filter_true] at hs
      obtain ⟨hmem, hnewer⟩ := mem_latest_iff.mp ⟨scan, hscan, hs⟩
      obtain ⟨hlevel, hlogger⟩ := h.defaults hnone s hmem hnewer fields hfields
      rw [hlevel, hlogger]
      refine ⟨(entryOf_level s.row).1, (entryOf_level s.row).2, ?_⟩
      simp only [entryOf, (row_of_fields hmem hfields).1, Option.getD_some]

end

def sampleText : Text := "\x7b\"level\": \"INFO\", \"logger\": \"app\", \"message\": \"started\"\x7d".toList

end ContextBroker.LogQuery
