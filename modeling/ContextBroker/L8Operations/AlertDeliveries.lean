import ContextBroker.L8Operations.AlertDedup

/-!
# Alert deliveries

An event is sent to its channels one after another, and then recorded: a row of
alert_events and one of alert_deliveries for each channel. What a send comes to is
remembered by the channel's type only, and the loop over the channels goes on
after four classes of exceptions.

What is not a string or None is a value of `O`, up to Python's `==`. What HTTP, SMTP,
`str.format` and the server do is a parameter; a send may come out differently at
each channel.

`deliveries_faithful_iff`: the rows are those of the sends, and every channel is tried,
exactly if the values fit their columns, the senders raise only what the loop
catches, and no type has both a send that succeeds and one that fails.
-/
namespace ContextBroker.AlertDeliveries

/-! ## Channels and events -/

inductive Field (O : Type) where
  | null
  | text (t : Text)
  | other (o : O)
  deriving DecidableEq, Repr

abbrev Dict (O : Type) := List (Text × Field O)

def get {O : Type} (d : Dict O) (key : String) (default : Field O) : Field O := (d.lookup key.toList).getD default

/-- A channel of an instruction or of the default channels. -/
abbrev Channel (O : Type) := Dict O

def channelType {O : Type} (c : Channel O) : Field O := get c "type" (.text "log".toList)

/-- What a sender raises. smtplib's `SMTPException` is an `OSError`. -/
inductive SendError where
  | httpError | osError | runtimeError | smtpException
  | invalidUrl | keyError | indexError | typeError | attributeError | valueError | unicodeError
  | other (cls : Text)
  deriving DecidableEq, Repr

/-- mirrors alerter/alerter.py:366 -/
def SendError.caught : SendError → Bool
  | .httpError | .osError | .runtimeError | .smtpException => true
  | _ => false

/-- An event with the texts it is sent with. -/
structure Alert (O : Type) where
  event : Dict O
  message : Field O
  formatted : Field O
  instructionId : Option Nat := none
  channels : List (Channel O)

/-! ## The senders -/

inductive Content (O : Type) where
  | json (fields : Dict O)
  | raw (content : Field O)
  | form (fields : Dict O)
  deriving DecidableEq, Repr

inductive Headers (O : Type) where
  | fields (d : Dict O)
  | given (f : Field O)
  deriving DecidableEq, Repr

structure Request (O : Type) where
  url : Field O
  content : Content O
  headers : Headers O := .fields []
  auth : Option (Field O × Text) := none
  deriving DecidableEq, Repr

/-- No port is 587. -/
structure Mail (O : Type) where
  host : Field O
  port : Option (Field O)
  username : Field O
  password : Text
  subject : Text
  fromAddr : Field O
  toAddr : Field O
  body : Field O
  deriving DecidableEq, Repr

/-- Python, the environment and the network; the `i`-th channel is sent to at `i`. -/
structure World (O : Type) where
  truthy : O → Bool
  str : O → Text
  environ : Text → Text
  /-- `template.format(type=..., source=..., subject=...)` -/
  format : Field O → Field O → Field O → Field O → Except SendError Text
  /-- `value[:1600]` -/
  cut : O → Except SendError (Field O)
  /-- A client posts and looks at the status. -/
  post : Nat → Request O → Except SendError Unit
  /-- The message is built and sent. -/
  mail : Nat → Mail O → Except SendError Unit

section Senders

variable {O : Type} (w : World O)

def World.isTrue : Field O → Bool
  | .null => false
  | .text t => t != []
  | .other o => w.truthy o

def World.text : Field O → Text
  | .null => "None".toList
  | .text t => t
  | .other o => w.str o

/-- `os.environ.get(name, "") if name else ""` -/
def World.secret (name : Field O) : Except SendError Text :=
  if w.isTrue name then
    match name with
    | .text t => .ok (w.environ t)
    | _ => .error .typeError
  else .ok []

/-- `_send_slack` and `_send_discord`. mirrors alerter/alerter.py:511-528 -/
def sendChat (key : String) (config : Channel O) (message : Field O) (i : Nat) : Except SendError Unit :=
  let url := get config "webhook_url" (.text [])
  if w.isTrue url then w.post i { url, content := .json [(key.toList, message)] } else .error .runtimeError

def sendSlack : Channel O → Field O → Nat → Except SendError Unit := sendChat w "text"

def sendDiscord : Channel O → Field O → Nat → Except SendError Unit := sendChat w "content"

/-- mirrors alerter/alerter.py:531-546 -/
def sendNtfy (config : Channel O) (message : Field O) (event : Dict O) (i : Nat) : Except SendError Unit :=
  let url := get config "url" (.text [])
  if w.isTrue url then
    let subject := get event "subject" .null
    let title := if w.isTrue subject then subject else get event "type" (.text "Alert".toList)
    let optional : String → Field O → Dict O := fun header f => if w.isTrue f then [(header.toList, f)] else []
    let headers := [("Title".toList, .text (w.text title))] ++ optional "Priority" (get config "priority" .null) ++
      optional "Tags" (get event "type" .null)
    w.post i { url, content := .raw message, headers := .fields headers }
  else .error .runtimeError

/-- mirrors alerter/alerter.py:549-582 -/
def sendSmtp (config : Channel O) (message : Field O) (event : Dict O) (i : Nat) : Except SendError Unit := do
  let host := get config "host" (.text [])
  let username := get config "username" (.text [])
  let password ← w.secret (get config "password_env" (.text []))
  let toAddr := get config "to" (.text [])
  if w.isTrue host && w.isTrue toAddr then
    let subject ← w.format (get config "subject_template" (.text "Alert: \x7btype\x7d".toList))
      (get event "type" (.text "unknown".toList)) (get event "source" (.text [])) (get event "subject" (.text []))
    w.mail i { host, port := config.lookup "port".toList, username, password, subject
               fromAddr := get config "from" username, toAddr, body := message }
  else .error .runtimeError

/-- mirrors alerter/alerter.py:585-607 -/
def sendTwilio (config : Channel O) (message : Field O) (i : Nat) : Except SendError Unit := do
  let sid := get config "account_sid" (.text [])
  let token ← w.secret (get config "auth_token_env" (.text []))
  let fromNumber := get config "from" (.text [])
  let toNumber := get config "to" (.text [])
  if w.isTrue sid && token != [] && w.isTrue fromNumber && w.isTrue toNumber then
    let body ← match message with
      | .text t => .ok (.text (t.take 1600))
      | .null => .error .typeError
      | .other o => w.cut o
    let url := "https://api.twilio.com/2010-04-01/Accounts/".toList ++ w.text sid ++ "/Messages.json".toList
    w.post i { url := .text url, auth := some (sid, token)
               content := .form [("From".toList, fromNumber), ("To".toList, toNumber), ("Body".toList, body)] }
  else .error .runtimeError

/-- mirrors alerter/alerter.py:610-625 -/
def sendWebhook (config : Channel O) (message : Field O) (event : Dict O) (i : Nat) : Except SendError Unit :=
  let url := get config "url" (.text [])
  if w.isTrue url then
    w.post i
      { url
        content := .json [("type".toList, get event "type" (.text [])), ("message".toList, message),
          ("source".toList, get event "source" (.text [])), ("time".toList, get event "time" (.text []))]
        headers := match config.lookup "headers".toList with
          | some f => .given f
          | none => .fields [] }
  else .error .runtimeError

/-- A log channel and an unknown type only log. mirrors alerter/alerter.py:489-508 -/
def sendToChannel (a : Alert O) (i : Nat) (c : Channel O) : Except SendError Unit :=
  match channelType c with
  | .text t =>
    if t = "slack".toList then sendSlack w c a.formatted i
    else if t = "discord".toList then sendDiscord w c a.formatted i
    else if t = "ntfy".toList then sendNtfy w c a.formatted a.event i
    else if t = "smtp".toList then sendSmtp w c a.formatted a.event i
    else if t = "twilio".toList then sendTwilio w c a.formatted i
    else if t = "webhook".toList then sendWebhook w c a.formatted a.event i
    else .ok ()
  | _ => .ok ()

end Senders

/-! ## Fan-out -/

section FanOut

variable {O : Type} (w : World O) (a : Alert O)

structure FanOut (O : Type) where
  tried : Nat := 0
  succeeded : List (Field O) := []
  failed : List (Field O) := []
  raised : Option SendError := none
  deriving DecidableEq, Repr

/-- mirrors alerter/alerter.py:358-368 -/
def fanOut : Nat → List (Channel O) → FanOut O
  | _, [] => {}
  | i, c :: rest =>
    match sendToChannel w a i c with
    | .ok () =>
      let out := fanOut (i + 1) rest
      { out with tried := out.tried + 1, succeeded := channelType c :: out.succeeded }
    | .error e =>
      if e.caught then
        let out := fanOut (i + 1) rest
        { out with tried := out.tried + 1, failed := channelType c :: out.failed }
      else { tried := 1, raised := some e }

end FanOut

/-! ## Records -/

/-- What asyncpg raises. A `DataError` is for a value of the wrong type. -/
inductive DbError where
  | postgresError | osError | interfaceError | dataError
  deriving DecidableEq, Repr

/-- mirrors alerter/alerter.py:677 -/
def DbError.caught : DbError → Bool
  | .postgresError | .osError => true
  | .interfaceError | .dataError => false

/-- A row of alert_events, without its id. -/
structure EventRow where
  eventType : Option Text
  eventSource : Option Text
  eventSubject : Option Text
  message : Option Text
  formattedMessage : Option Text
  instructionId : Option Nat
  deriving DecidableEq, Repr

structure DeliveryRow where
  eventId : Nat
  channelType : Option Text
  succeeded : Bool
  error : Option Text
  deriving DecidableEq, Repr

structure Db where
  nextId : Nat := 1
  events : List (Nat × EventRow) := []
  deliveries : List DeliveryRow := []
  deriving DecidableEq, Repr

/-- `pool`: there is a connection pool. `fails`: the `k`-th statement fails whatever
its values are. -/
structure Server where
  pool : Bool := true
  fails : Nat → Option DbError := fun _ => none

section Records

variable {O : Type} [DecidableEq O]

omit [DecidableEq O] in
/-- asyncpg takes a string or None for a text. -/
def Field.encodable : Field O → Bool
  | .other _ => false
  | .null | .text _ => true

omit [DecidableEq O] in
/-- A value for a TEXT or VARCHAR column; what is over the length may only be blanks,
and is cut. -/
def column (limit : Option Nat) (notNull : Bool) : Field O → Except DbError (Option Text)
  | .other _ => .error .dataError
  | .null => if notNull then .error .postgresError else .ok none
  | .text t =>
    if '\x00' ∈ t then .error .postgresError
    else match limit with
      | none => .ok (some t)
      | some n => if (t.drop n).all (· == ' ') then .ok (some (t.take n)) else .error .postgresError

/-- `event_type VARCHAR(255) NOT NULL`, ...; asyncpg encodes all values before any
of them is sent. mirrors alerter/alerter.py:134-143,644-659 -/
def eventRow (a : Alert O) : Except DbError EventRow := do
  let type := get a.event "type" (.text [])
  let source := get a.event "source" .null
  let subject := get a.event "subject" .null
  let formatted := if a.formatted ≠ a.message then a.formatted else .null
  if [type, source, subject, a.message, formatted].all Field.encodable then
    return { eventType := ← column (some 255) true type
             eventSource := ← column (some 255) false source
             eventSubject := ← column (some 255) false subject
             message := ← column none false a.message
             formattedMessage := ← column none false formatted
             instructionId := a.instructionId }
  else .error .dataError

/-- mirrors alerter/alerter.py:148-155,663-675 -/
def deliveryRow (eventId : Nat) (succeeded : List (Field O)) (c : Channel O) : Except DbError DeliveryRow := do
  let didSucceed := decide (channelType c ∈ succeeded)
  return { eventId
           channelType := ← column (some 50) true (channelType c)
           succeeded := didSucceed
           error := if didSucceed then none else some "delivery failed".toList }

/-- The rows of the channels, each a statement of its own, up to the first that
fails. mirrors alerter/alerter.py:661-676 -/
def insertDeliveries (server : Server) (eventId : Nat) (succeeded : List (Field O)) :
    Nat → List (Channel O) → List DeliveryRow × Option DbError
  | _, [] => ([], none)
  | k, c :: rest =>
    match server.fails k, deliveryRow eventId succeeded c with
    | none, .ok row =>
      let out := insertDeliveries server eventId succeeded (k + 1) rest
      (row :: out.1, out.2)
    | some e, _ => ([], some e)
    | none, .error e => ([], some e)

/-- The tables, and what leaves the function. mirrors alerter/alerter.py:631-678 -/
def recordEventAndDeliveries (server : Server) (db : Db) (a : Alert O) (succeeded : List (Field O)) :
    Db × Option DbError :=
  if server.pool then
    match server.fails 0, eventRow a with
    | none, .ok row =>
      let out := insertDeliveries server db.nextId succeeded 1 a.channels
      ({ nextId := db.nextId + 1, events := db.events ++ [(db.nextId, row)]
         deliveries := db.deliveries ++ out.1 }, out.2.filter fun e => !e.caught)
    | some e, _ => (db, if e.caught then none else some e)
    | none, .error e => (db, if e.caught then none else some e)
  else (db, none)

/-- mirrors alerter/alerter.py:358-373 -/
def process (w : World O) (server : Server) (db : Db) (a : Alert O) : Db :=
  let out := fanOut w a 0 a.channels
  match out.raised with
  | some _ => db
  | none => (recordEventAndDeliveries server db a out.succeeded).1

end Records

/-! ## Deliveries and records -/

section Spec

variable {O : Type} {w : World O} {server : Server} {db : Db} {a : Alert O}

/-- The row of the channel sent to at a place. -/
structure Matches (w : World O) (a : Alert O) (x : Channel O × Nat) (row : DeliveryRow) : Prop where
  type : column (some 50) true (channelType x.1) = .ok row.channelType
  flag : row.succeeded = true ↔ sendToChannel w a x.2 x.1 = .ok ()

variable [DecidableEq O]

/-- Every channel is tried, and the new rows are those of the channels, in order. -/
structure Faithful (w : World O) (server : Server) (db : Db) (a : Alert O) : Prop where
  tried : (fanOut w a 0 a.channels).tried = a.channels.length
  rows : ∃ rows, (process w server db a).deliveries = db.deliveries ++ rows ∧
    List.Forall₂ (Matches w a) a.channels.zipIdx rows

/-- The database takes the values, and no send raises something else or comes out
otherwise than another of its type. -/
structure Deliverable (w : World O) (server : Server) (a : Alert O) : Prop where
  pool : server.pool = true
  statements : ∀ k ≤ a.channels.length, server.fails k = none
  event : ∃ row, eventRow a = .ok row
  types : ∀ c ∈ a.channels, ∃ t, column (some 50) true (channelType c) = .ok t
  caught : ∀ x ∈ a.channels.zipIdx, ∀ e, sendToChannel w a x.2 x.1 = .error e → e.caught = true
  agreeing : ∀ x ∈ a.channels.zipIdx, ∀ y ∈ a.channels.zipIdx, channelType x.1 = channelType y.1 →
    sendToChannel w a x.2 x.1 = .ok () → sendToChannel w a y.2 y.1 = .ok ()

/-- The flags of the new rows, from the sends. -/
theorem Faithful.flags (h : Faithful w server db a) :
    (process w server db a).deliveries.map DeliveryRow.succeeded = db.deliveries.map DeliveryRow.succeeded ++
      a.channels.zipIdx.map fun x => (sendToChannel w a x.2 x.1).isOk := by
  obtain ⟨_, rows, hrows, hmatch⟩ := h
  rw [hrows, List.map_append, List.append_cancel_left_eq, eq_comm, ← List.forall₂_eq_eq_eq, List.forall₂_map_left_iff,
    List.forall₂_map_right_iff]
  refine hmatch.imp fun x row hx => Bool.eq_iff_iff.mpr (Iff.trans ?_ hx.flag.symm)
  cases sendToChannel w a x.2 x.1 <;> simp [Except.isOk, Except.toBool]

/-! ### The loop over the channels -/

omit [DecidableEq O] in
theorem fanOut_raised : ∀ {i : Nat} {cs : List (Channel O)}, (fanOut w a i cs).raised = none ↔
    ∀ x ∈ cs.zipIdx i, ∀ e, sendToChannel w a x.2 x.1 = .error e → e.caught = true
  | _, [] => by simp [fanOut]
  | i, c :: rest => by
    rw [List.zipIdx_cons, List.forall_mem_cons, fanOut]
    cases hsend : sendToChannel w a i c with
    | ok _ => simpa using fanOut_raised
    | error e =>
      by_cases hcaught : e.caught = true
      · simpa [hcaught] using fanOut_raised
      · simp [hcaught]

omit [DecidableEq O] in
theorem fanOut_tried : ∀ {i : Nat} {cs : List (Channel O)}, (fanOut w a i cs).raised = none →
    (fanOut w a i cs).tried = cs.length
  | _, [], _ => rfl
  | i, c :: rest, h => by
    rw [fanOut] at h ⊢
    cases hsend : sendToChannel w a i c with
    | ok _ =>
      rw [hsend] at h
      exact congrArg (· + 1) (fanOut_tried h)
    | error e =>
      rw [hsend] at h
      dsimp only at h ⊢
      split at h
      · rename_i hcaught
        rw [if_pos hcaught]
        exact congrArg (· + 1) (fanOut_tried h)
      · cases h

omit [DecidableEq O] in
/-- What succeeded is remembered by its type. -/
theorem mem_succeeded {t : Field O} : ∀ {i : Nat} {cs : List (Channel O)}, (fanOut w a i cs).raised = none →
    (t ∈ (fanOut w a i cs).succeeded ↔
      ∃ x ∈ cs.zipIdx i, channelType x.1 = t ∧ sendToChannel w a x.2 x.1 = .ok ())
  | _, [], _ => by simp [fanOut]
  | i, c :: rest, h => by
    rw [fanOut] at h ⊢
    rw [List.zipIdx_cons, List.exists_mem_cons_iff]
    cases hsend : sendToChannel w a i c with
    | ok _ =>
      rw [hsend] at h
      dsimp only at h ⊢
      rw [List.mem_cons, mem_succeeded h]
      simp [eq_comm]
    | error e =>
      rw [hsend] at h
      dsimp only at h ⊢
      split at h
      · rename_i hcaught
        rw [if_pos hcaught]
        dsimp only
        rw [mem_succeeded h]
        simp
      · cases h

/-! ### The statements -/

/-- The new rows are complete exactly if no statement fails. -/
theorem insertDeliveries_iff {R : Channel O × Nat → DeliveryRow → Prop} {eventId : Nat} {succeeded : List (Field O)} :
    ∀ {k i : Nat} {cs : List (Channel O)},
      List.Forall₂ R (cs.zipIdx i) (insertDeliveries server eventId succeeded k cs).1 ↔
        (∀ j < cs.length, server.fails (k + j) = none) ∧
          ∀ x ∈ cs.zipIdx i, ∃ row, deliveryRow eventId succeeded x.1 = .ok row ∧ R x row
  | _, _, [] => by simp [insertDeliveries]
  | k, i, c :: rest => by
    have ih := @insertDeliveries_iff R eventId succeeded (k + 1) (i + 1) rest
    have hshift : (∀ j < rest.length, server.fails (k + 1 + j) = none) ↔
        ∀ j < rest.length, server.fails (k + (j + 1)) = none := by
      simp only [Nat.add_assoc, Nat.add_comm 1]
    rw [List.zipIdx_cons, List.forall_mem_cons, insertDeliveries, List.length_cons, Nat.forall_lt_succ_left, Nat.add_zero]
    cases hfails : server.fails k with
    | some e => simp
    | none =>
      cases hrow : deliveryRow eventId succeeded c with
      | error e => simp
      | ok row =>
        dsimp only
        rw [List.forall₂_cons, ih, hshift]
        constructor
        · rintro ⟨hR, hstatements, hrest⟩
          exact ⟨⟨rfl, hstatements⟩, ⟨row, rfl, hR⟩, hrest⟩
        · rintro ⟨⟨_, hstatements⟩, ⟨row', hrow', hR⟩, hrest⟩
          obtain rfl := Except.ok.inj hrow'
          exact ⟨hR, hstatements, hrest⟩

theorem deliveryRow_matches {eventId : Nat} {succeeded : List (Field O)} {x : Channel O × Nat} :
    (∃ row, deliveryRow eventId succeeded x.1 = .ok row ∧ Matches w a x row) ↔
      (∃ t, column (some 50) true (channelType x.1) = .ok t) ∧
        (channelType x.1 ∈ succeeded ↔ sendToChannel w a x.2 x.1 = .ok ()) := by
  unfold deliveryRow
  cases hcolumn : column (some 50) true (channelType x.1) with
  | error e => simp [bind, Except.bind]
  | ok t =>
    simp only [bind, Except.bind, pure, Except.pure, Except.ok.injEq, exists_eq_left']
    constructor
    · intro h
      simpa using h.flag
    · intro h
      exact ⟨hcolumn, by simpa using h⟩

/-- The rows a delivered event adds. -/
theorem process_deliveries {row : EventRow} (hraised : (fanOut w a 0 a.channels).raised = none)
    (hpool : server.pool = true) (hfails : server.fails 0 = none) (hrow : eventRow a = .ok row) :
    (process w server db a).deliveries =
      db.deliveries ++ (insertDeliveries server db.nextId (fanOut w a 0 a.channels).succeeded 1 a.channels).1 := by
  simp only [process, hraised, recordEventAndDeliveries, hpool, hfails, hrow, if_true]

/-- There are none if the loop is left by an exception, or the event is not recorded. -/
theorem process_unrecorded (h : ¬ ((fanOut w a 0 a.channels).raised = none ∧ server.pool = true ∧
    server.fails 0 = none ∧ ∃ row, eventRow a = .ok row)) : process w server db a = db := by
  unfold process
  dsimp only
  split
  · rfl
  · rename_i hraised
    unfold recordEventAndDeliveries
    split
    · rename_i hpool
      split
      · rename_i row hfails hrow
        exact absurd ⟨hraised, hpool, hfails, row, hrow⟩ h
      · rfl
      · rfl
    · rfl

omit [DecidableEq O] in
/-- The lookup by type is right for every channel. -/
theorem agreeing_iff (hraised : (fanOut w a 0 a.channels).raised = none) :
    (∀ x ∈ a.channels.zipIdx, (channelType x.1 ∈ (fanOut w a 0 a.channels).succeeded ↔
        sendToChannel w a x.2 x.1 = .ok ())) ↔
      ∀ x ∈ a.channels.zipIdx, ∀ y ∈ a.channels.zipIdx, channelType x.1 = channelType y.1 →
        sendToChannel w a x.2 x.1 = .ok () → sendToChannel w a y.2 y.1 = .ok () := by
  constructor
  · intro h x hx y hy htype hsend
    exact (h y hy).mp ((mem_succeeded hraised).mpr ⟨x, hx, htype, hsend⟩)
  · intro h y hy
    constructor
    · intro hmem
      obtain ⟨x, hx, htype, hsend⟩ := (mem_succeeded hraised).mp hmem
      exact h x hx y hy htype hsend
    · exact fun hsend => (mem_succeeded hraised).mpr ⟨y, hy, rfl, hsend⟩

/-- **Delivery records match deliveries**, for every event and every list of channels,
exactly if there are none or the alert is deliverable. -/
theorem deliveries_faithful_iff (w : World O) (server : Server) (db : Db) (a : Alert O) :
    Faithful w server db a ↔ a.channels = [] ∨ Deliverable w server a := by
  by_cases hrecorded : (fanOut w a 0 a.channels).raised = none ∧ server.pool = true ∧
      server.fails 0 = none ∧ ∃ row, eventRow a = .ok row
  · obtain ⟨hraised, hpool, hfails, row, hrow⟩ := hrecorded
    have hrows : Faithful w server db a ↔ List.Forall₂ (Matches w a) a.channels.zipIdx
        (insertDeliveries server db.nextId (fanOut w a 0 a.channels).succeeded 1 a.channels).1 := by
      have hadded : (process w server db a).deliveries = db.deliveries ++
          (insertDeliveries server db.nextId (fanOut w a 0 a.channels).succeeded 1 a.channels).1 :=
        process_deliveries hraised hpool hfails hrow
      constructor
      · rintro ⟨_, rows, heq, hmatch⟩
        rw [hadded, List.append_right_inj] at heq
        exact heq ▸ hmatch
      · exact fun h => ⟨fanOut_tried hraised, _, hadded, h⟩
    rw [hrows, insertDeliveries_iff]
    simp only [deliveryRow_matches]
    constructor
    · rintro ⟨hstatements, hmatch⟩
      refine .inr ⟨hpool, fun k hk => ?_, ⟨row, hrow⟩, fun c hc => ?_, fanOut_raised.mp hraised,
        (agreeing_iff hraised).mp fun x hx => (hmatch x hx).2⟩
      · cases k with
        | zero => exact hfails
        | succ k => exact Nat.add_comm 1 k ▸ hstatements k hk
      · obtain ⟨i, hi, rfl⟩ := List.getElem_of_mem hc
        exact (hmatch (a.channels[i], i) (List.mem_zipIdx_iff_getElem?.mpr (List.getElem?_eq_getElem hi))).1
    · rintro (hnone | h)
      · simp [hnone]
      · refine ⟨fun j hj => h.statements (1 + j) (by omega), fun x hx => ⟨?_, ?_⟩⟩
        · exact h.types x.1 (List.fst_mem_of_mem_zipIdx hx)
        · exact (agreeing_iff hraised).mpr h.agreeing x hx
  · have hsame : process w server db a = db := process_unrecorded hrecorded
    constructor
    · rintro ⟨_, rows, heq, hmatch⟩
      rw [hsame, List.self_eq_append_right] at heq
      rw [heq, List.forall₂_nil_right_iff, List.zipIdx_eq_nil_iff] at hmatch
      exact .inl hmatch
    · rintro (hnone | h)
      · refine ⟨by rw [hnone]; rfl, [], by rw [hsame, List.append_nil], by rw [hnone]; exact .nil⟩
      · exact absurd ⟨fanOut_raised.mpr h.caught, h.pool, h.statements 0 (Nat.zero_le _), h.event⟩ hrecorded

end Spec

/-! ## Two channels -/

/-- The first request is answered, the second fails as given. -/
def secondFails (e : SendError) : World Unit where
  truthy _ := true
  str _ := []
  environ _ := []
  format template _ _ _ := .ok (match template with
    | .text t => t
    | _ => [])
  cut o := .ok (.other o)
  post i _ := if i = 1 then .error e else .ok ()
  mail _ _ := .ok ()

/-- An alert for two Slack channels and the log. -/
def twoSlacks : Alert Unit where
  event := [("type".toList, .text "disk.full".toList)]
  message := .text "m".toList
  formatted := .text "m".toList
  channels := [[("type".toList, .text "slack".toList), ("webhook_url".toList, .text "u".toList)],
    [("type".toList, .text "slack".toList), ("webhook_url".toList, .text "v".toList)],
    [("type".toList, .text "log".toList)]]

/-- The second one fails, and its row says that it succeeded. -/
theorem failed_delivery_succeeded : (process (secondFails .httpError) {} {} twoSlacks).deliveries.map
      DeliveryRow.succeeded = [true, true, true] ∧
    ¬ ∀ (w : World Unit) (server : Server) (db : Db) (a : Alert Unit), Faithful w server db a := by
  have hflags : (process (secondFails .httpError) {} {} twoSlacks).deliveries.map DeliveryRow.succeeded =
      [true, true, true] := by decide
  refine ⟨hflags, fun h => ?_⟩
  have hsent := (h (secondFails .httpError) {} {} twoSlacks).flags
  rw [hflags] at hsent
  exact absurd hsent (by decide)

end ContextBroker.AlertDeliveries
