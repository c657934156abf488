import ContextBroker.Core.LineDecoder
import ContextBroker.L1Data.JsonModes
import ContextBroker.L7Agent.ChatStreaming

/-!
# The chat stream, from the endpoint to the chat panel

The endpoint writes each token as a chunk of JSON on a line of its own. The
client of the UI reads the lines as they come, in whatever parts the text
arrives, and the panel shows the reply as far as it has been read.

* `reply_read`: what is read is an initial part of what was sent, and all of it
  if the client sees no failure.
* `panel_shows`: so is what the panel shows, until an error takes its place.
* `no_reply_shown`: no run streams its reply, if only models constructed to
  stream do, so the panel never shows one.
-/
namespace ContextBroker.ChatClient

open Imperator (Json dumps ImperatorConfig)
open JsonText (loads IsNumber Printable)
open LineDecoder (Decoder lines)
open ChatStreaming

/-! ## What the endpoint writes -/

/-- What the chunks of a stream have in common; `created` by its `repr`. -/
structure Completion where
  id : Text
  created : Text
  model : Text

def Completion.chunk (c : Completion) (delta : List (Text × Json)) (finishReason : Json) : Json :=
  .obj [("id".toList, .str c.id), ("object".toList, .str "chat.completion.chunk".toList),
    ("created".toList, .num c.created), ("model".toList, .str c.model),
    ("choices".toList, .arr [.obj [("index".toList, .num "0".toList), ("delta".toList, .obj delta),
      ("finish_reason".toList, finishReason)]])]

def contentDelta (content : Text) : List (Text × Json) := [("content".toList, .str content)]

def stop : Json := .str "stop".toList

/-- An event of the stream: its data, and an empty line. -/
def event (data : Text) : Text := "data: ".toList ++ (data ++ "\n\n".toList)

/-- The texts that the generator yields.
mirrors app/routes/chat.py:194-265 -/
def Completion.yields (c : Completion) (events : List Text) (raised : Option Exn) : List Text :=
  let tokens := (events.filter (· ≠ [])).map fun token => event (dumps (c.chunk (contentDelta token) .null))
  match raised with
  | none => tokens ++ [event (dumps (c.chunk [] stop)), event "[DONE]".toList]
  | some e =>
    if e.caughtBy clientErrors then
      tokens ++ [event (dumps (c.chunk (contentDelta streamError) stop)), event "[DONE]".toList]
    else tokens

/-! ## What the client reads -/

/-- Why a chunk has no content: a `KeyError` or an `IndexError`, or a `TypeError`
or an `AttributeError`. -/
inductive Missed where
  | lookup | crash
  deriving DecidableEq, Repr

/-- `v[key]` -/
def subscript (key : Text) : Json → Except Missed Json
  | .obj fields => (fields.lookup key).elim (.error .lookup) .ok
  | _ => .error .crash

/-- `v[0]` -/
def first : Json → Except Missed Json
  | .arr (item :: _) => .ok item
  | .str (c :: _) => .ok (.str [c])
  | .arr [] | .str [] | .obj _ => .error .lookup
  | _ => .error .crash

/-- `v.get(key, default)` -/
def getField (key : Text) (default : Json) : Json → Except Missed Json
  | .obj fields => .ok ((fields.lookup key).getD default)
  | _ => .error .crash

def chunkContent (chunk : Json) : Except Missed Json := do
  let choices ← subscript "choices".toList chunk
  let choice ← first choices
  let delta ← getField "delta".toList (.obj []) choice
  getField "content".toList (.str []) delta

inductive Step where
  | skip | stop | crash
  | content (v : Json)

section Client

variable (number : Text → Option Text)

/-- mirrors ui/mad_client.py:122-129 -/
def readData (data : Text) : Step :=
  match loads number data with
  | none => .skip
  | some chunk =>
    match chunkContent chunk with
    | .ok v => if v.truthy then .content v else .skip
    | .error .lookup => .skip
    | .error .crash => .crash

/-- mirrors ui/mad_client.py:116-129 -/
def readLine (line : Text) : Step :=
  if "data: ".toList.isPrefixOf line then
    if line.drop 6 = "[DONE]".toList then .stop else readData number (line.drop 6)
  else .skip

/-- How the loop over the lines is left. -/
inductive Left where
  | stopped | crashed
  deriving DecidableEq, Repr

/-- The contents that are yielded, and how the loop is left before the lines are
over. -/
def readLines : List Text → List Json × Option Left
  | [] => ([], none)
  | line :: rest =>
    match readLine number line with
    | .skip => readLines rest
    | .stop => ([], some .stopped)
    | .crash => ([], some .crashed)
    | .content v => (v :: (readLines rest).1, (readLines rest).2)

/-- The text of a response in the parts in which it arrives, and an exception of
the connection with its text. -/
structure Received where
  parts : List Text
  raised : Option (Exn × Text) := none

/-- `resp.aiter_lines()`: the last line needs no break if the response is over. -/
def Received.lines (r : Received) : List Text :=
  let (lines, d) := Decoder.feedAll {} r.parts
  if r.raised = none then lines ++ d.flush else lines

/-- An exception out of `chat_stream`; a crash is one that nobody catches. -/
inductive Failure where
  | connection (e : Exn) (message : Text)
  | crash
  deriving DecidableEq, Repr

/-- mirrors ui/mad_client.py:93-129 -/
def chatStream (r : Received) : List Json × Option Failure :=
  let (contents, left) := readLines number r.lines
  (contents, match left with
    | some .stopped => none
    | some .crashed => some .crash
    | none => r.raised.map fun raised => .connection raised.1 raised.2)

/-! ## What the panel shows -/

/-- The panel has no other messages. -/
inductive Speaker where
  | user | assistant
  deriving DecidableEq, Repr

structure Entry where
  role : Speaker
  content : Text
  deriving DecidableEq, Repr

/-- `response += chunk` for chunk after chunk: what is shown, and whether a chunk was
no text. -/
def showChunks (asked : List Entry) (response : Text) : List Json → List (List Entry) × Bool
  | [] => ([], false)
  | .str s :: rest =>
    let shown := showChunks asked (response ++ s) rest
    ((asked ++ [⟨.assistant, response ++ s⟩]) :: shown.1, shown.2)
  | _ :: _ => ([], true)

def submitErrors : List Exn := [.httpxHttpError, .runtimeError, .osError]

def showFailure (asked : List Entry) : Option Failure → List (List Entry)
  | some (.connection e message) =>
    if e.caughtBy submitErrors then [asked ++ [⟨.assistant, "Error: ".toList ++ message⟩]] else []
  | _ => []

/-- The histories that a submit shows one after the other; the MAD may be unknown.
mirrors ui/app.py:142-171 -/
def onChatSubmit (message : Text) (history : List Entry) (received : Option Received) : List (List Entry) :=
  match received with
  | none => [history ++ [⟨.user, message⟩, ⟨.assistant, "No MAD selected".toList⟩]]
  | some r =>
    let asked := history ++ [⟨.user, message⟩]
    let (contents, failure) := chatStream number r
    let (shown, crashed) := showChunks asked [] contents
    asked :: (shown ++ if crashed then [] else showFailure asked failure)

end Client

/-! ## Lines of the stream -/

section Written

variable {number : Text → Option Text} {c : Completion} {events : List Text} {raised : Option Exn} {data rest : Text}

/-- The numbers of a chunk are read as they were written. -/
structure Completion.Reads (number : Text → Option Text) (c : Completion) : Prop where
  isNumber : IsNumber c.created
  created : number c.created = some c.created
  index : number "0".toList = some "0".toList

theorem not_break {c : Char} (h : Printable c) : LineDecoder.isBreak c = false := by
  have hc : 0x20 ≤ c.toNat ∧ c.toNat ≤ 0x7e := h
  simp [LineDecoder.isBreak]
  omega

theorem lines_event (h : ∀ c ∈ data, Printable c) (rest : Text) :
    lines (event data ++ rest) = ("data: ".toList ++ data) :: [] :: lines rest := by
  have hline : ∀ c ∈ "data: ".toList ++ data, LineDecoder.isBreak c = false := fun c hc => by
    refine not_break ((List.mem_append.mp hc).elim (fun hc => ?_) (h c))
    have hhead : ∀ c ∈ "data: ".toList, Printable c := by simp [Printable]
    exact hhead c hc
  have htext : event data ++ rest = ("data: ".toList ++ data) ++ '\n' :: ([] ++ '\n' :: rest) := by
    show "data: ".toList ++ (data ++ ['\n', '\n']) ++ rest = _
    simp only [List.append_assoc, List.cons_append, List.nil_append]
  rw [htext, LineDecoder.lines_cons hline, LineDecoder.lines_cons (List.forall_mem_nil _)]

theorem valid_chunk (hc : c.Reads number) {delta : List (Text × Json)} {finishReason : Json}
    (hdelta : JsonText.Valid number (.obj delta)) (hfinish : JsonText.Valid number finishReason) :
    JsonText.Valid number (c.chunk delta finishReason) := by
  have hindex : JsonText.Valid number (.num "0".toList) :=
    .num (.mk (.inl rfl) (.inl rfl) (.inl rfl) (.inl rfl)) hc.index
  have hcreated : JsonText.Valid number (.num c.created) := .num hc.isNumber hc.created
  have hchoiceKeys : ["index".toList, "delta".toList, "finish_reason".toList].Nodup := by decide
  have hchoice : JsonText.Valid number (.obj [("index".toList, .num "0".toList), ("delta".toList, .obj delta),
      ("finish_reason".toList, finishReason)]) := by
    refine .obj hchoiceKeys ?_
    simp only [List.forall_mem_cons, List.not_mem_nil, false_imp_iff, implies_true, and_true]
    exact ⟨hindex, hdelta, hfinish⟩
  have hkeys : ["id".toList, "object".toList, "created".toList, "model".toList, "choices".toList].Nodup := by decide
  refine .obj hkeys ?_
  simp only [List.forall_mem_cons, List.not_mem_nil, false_imp_iff, implies_true, and_true]
  exact ⟨.str _, .str _, hcreated, .str _, .arr (List.forall_mem_singleton.mpr hchoice)⟩

theorem valid_delta (content : Text) : JsonText.Valid number (.obj (contentDelta content)) :=
  .obj (by simp [contentDelta]) (by simp [contentDelta, JsonText.Valid.str])

theorem valid_stop : JsonText.Valid number stop := .str _

theorem readLine_chunk (hc : c.Reads number) {delta : List (Text × Json)} {finishReason : Json}
    (hdelta : JsonText.Valid number (.obj delta)) (hfinish : JsonText.Valid number finishReason) :
    readLine number ("data: ".toList ++ dumps (c.chunk delta finishReason)) =
      if ((delta.lookup "content".toList).getD (.str [])).truthy then
        .content ((delta.lookup "content".toList).getD (.str []))
      else .skip := by
  have hloads : loads number (dumps (c.chunk delta finishReason)) = some (c.chunk delta finishReason) := by
    have hread : loads number ([] ++ (dumps (c.chunk delta finishReason) ++ [])) = _ :=
      JsonText.loads_dumps (valid_chunk hc hdelta hfinish) (by simp) (by simp)
    simpa using hread
  have hcontent : chunkContent (c.chunk delta finishReason) =
      .ok ((delta.lookup "content".toList).getD (.str [])) := rfl
  have hhead : "data: ".toList.isPrefixOf ("data: ".toList ++ dumps (c.chunk delta finishReason)) = true :=
    List.isPrefixOf_iff_prefix.mpr (List.prefix_append _ _)
  have hdrop : ("data: ".toList ++ dumps (c.chunk delta finishReason)).drop 6 = dumps (c.chunk delta finishReason) :=
    rfl
  have hdone : dumps (c.chunk delta finishReason) ≠ "[DONE]".toList := by
    rw [Completion.chunk, JsonText.dumps_obj]
    simp
  rw [readLine, if_pos hhead, hdrop, if_neg hdone, readData, hloads]
  simp only [hcontent]

/-- An event is read as its line: the empty line after it is skipped. -/
theorem readLines_event (h : ∀ c ∈ data, Printable c) (rest : Text) :
    readLines number (lines (event data ++ rest)) = readLines number (("data: ".toList ++ data) :: lines rest) := by
  have hskip : readLines number ([] :: lines rest) = readLines number (lines rest) := rfl
  rw [lines_event h, readLines, hskip, ← readLines]

theorem readLines_token (hc : c.Reads number) {token : Text} (htoken : token ≠ []) {finishReason : Json}
    (hfinish : JsonText.Valid number finishReason) (rest : Text) :
    readLines number (lines (event (dumps (c.chunk (contentDelta token) finishReason)) ++ rest)) =
      (.str token :: (readLines number (lines rest)).1, (readLines number (lines rest)).2) := by
  have hvalid := valid_chunk hc (valid_delta token) hfinish
  have hline := readLine_chunk hc (valid_delta token) hfinish
  have hlookup : ((contentDelta token).lookup "content".toList).getD (.str []) = .str token := rfl
  rw [hlookup, if_pos (by simp [Json.truthy, htoken])] at hline
  rw [readLines_event (JsonText.printable_dumps hvalid), readLines, hline]

theorem readLines_stop (hc : c.Reads number) (rest : Text) :
    readLines number (lines (event (dumps (c.chunk [] stop)) ++ rest)) = readLines number (lines rest) := by
  have hdelta : JsonText.Valid number (.obj []) := .obj List.nodup_nil (List.forall_mem_nil _)
  have hvalid := valid_chunk hc hdelta valid_stop
  have hline := readLine_chunk hc hdelta valid_stop
  rw [List.lookup_nil, Option.getD_none, if_neg (by simp [Json.truthy])] at hline
  rw [readLines_event (JsonText.printable_dumps hvalid), readLines]
  exact hline ▸ rfl

theorem readLines_done (rest : Text) :
    readLines number (lines (event "[DONE]".toList ++ rest)) = ([], some .stopped) := by
  have hprintable : ∀ c ∈ "[DONE]".toList, Printable c := by simp [Printable]
  rw [readLines_event hprintable]
  rfl

theorem readLines_tokens (hc : c.Reads number) {tokens : List Text} (htokens : ∀ token ∈ tokens, token ≠ [])
    (rest : Text) :
    readLines number (lines ((tokens.map fun token => event (dumps (c.chunk (contentDelta token) .null))).flatten ++
        rest)) =
      (tokens.map .str ++ (readLines number (lines rest)).1, (readLines number (lines rest)).2) := by
  induction tokens with
  | nil => rfl
  | cons token tokens ih =>
    obtain ⟨htoken, htokens⟩ := List.forall_mem_cons.mp htokens
    rw [List.map_cons, List.flatten_cons, List.append_assoc, readLines_token hc htoken .null, ih htokens]
    rfl

/-- **The whole text** of a stream is read as what was sent. -/
theorem readLines_yields (hc : c.Reads number) (events : List Text) (raised : Option Exn) :
    readLines number (lines (c.yields events raised).flatten) =
      ((streamImperatorResponse events raised).deltas.map .str,
        if (streamImperatorResponse events raised).finished then some .stopped else none) := by
  have htokens : ∀ token ∈ events.filter (· ≠ []), token ≠ [] := by simp
  have hread := readLines_tokens hc htokens
  unfold Completion.yields streamImperatorResponse
  dsimp only
  cases raised with
  | none =>
    rw [List.flatten_append, hread]
    simp only [List.flatten_cons, List.flatten_nil, readLines_stop hc, readLines_done]
    simp
  | some e =>
    dsimp only
    split
    · have herror : streamError ≠ [] := by decide
      rw [List.flatten_append, hread]
      simp only [List.flatten_cons, List.flatten_nil, readLines_token hc herror valid_stop, readLines_done]
      simp
    · have hall := hread []
      rw [List.append_nil] at hall
      rw [hall]
      simp [lines, readLines]

end Written

/-! ## Any parts, and a connection that may end -/

section Reading

variable {number : Text → Option Text} {c : Completion} {events : List Text} {raised : Option Exn} {r : Received}
  {text : Text}

/-- The client receives the text of a response from its start. Only a response
that the endpoint has finished ends without an exception of the connection. -/
structure Received.Of (r : Received) (text : Text) (finished : Bool) : Prop where
  isPrefix : r.parts.flatten <+: text
  whole : r.raised = none → r.parts.flatten = text ∧ finished = true

/-- Fewer lines are read as a part, and as all once the loop is left. -/
theorem readLines_isPrefix {before after : List Text} (h : before <+: after) :
    (readLines number before).1 <+: (readLines number after).1 ∧
      ((readLines number before).2 ≠ none → readLines number before = readLines number after) := by
  induction before generalizing after with
  | nil => exact ⟨List.nil_prefix, fun h => absurd rfl h⟩
  | cons line before ih =>
    obtain ⟨more, rfl⟩ := h
    obtain ⟨hcontents, hleft⟩ := ih (List.prefix_append before more)
    rw [List.cons_append, readLines, readLines]
    cases readLine number line with
    | skip => exact ⟨hcontents, hleft⟩
    | stop => exact ⟨List.prefix_rfl, fun _ => rfl⟩
    | crash => exact ⟨List.prefix_rfl, fun _ => rfl⟩
    | content v =>
      refine ⟨List.cons_prefix_cons.mpr ⟨rfl, hcontents⟩, fun h => ?_⟩
      show (v :: (readLines number before).1, (readLines number before).2) = _
      rw [hleft h]

theorem lines_received : r.lines = lines r.parts.flatten ++
    if r.raised = none then (Decoder.feed {} r.parts.flatten).2.flush else [] := by
  unfold Received.lines
  rw [LineDecoder.feedAll_flatten]
  dsimp only
  split
  · rfl
  · rw [List.append_nil, lines]

theorem getLast_event (data : Text) : (event data).getLast? = some '\n' := by
  show ("data: ".toList ++ (data ++ ['\n', '\n'])).getLast? = some '\n'
  rw [List.getLast?_append, List.getLast?_append]
  rfl

theorem getLast_yields (h : (streamImperatorResponse events raised).finished = true) :
    (c.yields events raised).flatten.getLast? = some '\n' := by
  unfold streamImperatorResponse at h
  unfold Completion.yields
  dsimp only at h ⊢
  cases raised with
  | none => simp [getLast_event]
  | some e =>
    dsimp only at h ⊢
    split at h
    · rename_i hcaught
      simp [hcaught, getLast_event]
    · cases h

/-- The lines of a stream as it is received: without an exception all of them,
with one the first of them. -/
theorem lines_of (h : r.Of (c.yields events raised).flatten (streamImperatorResponse events raised).finished) :
    r.lines <+: lines (c.yields events raised).flatten ∧
      (r.parts.flatten = (c.yields events raised).flatten → r.lines = lines (c.yields events raised).flatten) := by
  have hlines := lines_received (r := r)
  cases hraised : r.raised with
  | some e =>
    rw [hraised, if_neg (by simp), List.append_nil] at hlines
    rw [hlines]
    exact ⟨LineDecoder.lines_isPrefix h.isPrefix, fun heq => by rw [heq]⟩
  | none =>
    obtain ⟨heq, hfinished⟩ := h.whole hraised
    have hflush : (Decoder.feed {} r.parts.flatten).2.flush = [] := by
      rw [Decoder.flush, heq, LineDecoder.feed_rest (getLast_yields hfinished) _ (.inl rfl), if_pos rfl]
    rw [hflush, ite_self, List.append_nil, heq] at hlines
    exact ⟨hlines ▸ List.prefix_rfl, fun _ => hlines⟩

/-- How far the lines that came are read: up to where the connection broke, or
up to the end of the reply. -/
theorem readLines_received (hc : c.Reads number)
    (h : r.Of (c.yields events raised).flatten (streamImperatorResponse events raised).finished) :
    (readLines number r.lines).1 <+: (streamImperatorResponse events raised).deltas.map .str ∧
      (r.parts.flatten = (c.yields events raised).flatten ∨ (readLines number r.lines).2 ≠ none →
        readLines number r.lines = ((streamImperatorResponse events raised).deltas.map .str,
          if (streamImperatorResponse events raised).finished then some .stopped else none)) := by
  obtain ⟨hinit, hwhole⟩ := lines_of h
  obtain ⟨hcontents, hleft⟩ := @readLines_isPrefix number _ _ hinit
  rw [readLines_yields hc] at hcontents hleft
  refine ⟨hcontents, fun hread => ?_⟩
  rcases hread with heq | hstopped
  · rw [hwhole heq, readLines_yields hc]
  · exact hleft hstopped

theorem chatStream_ended (hc : c.Reads number)
    (h : r.Of (c.yields events raised).flatten (streamImperatorResponse events raised).finished) :
    ((chatStream number r).2 = none →
        (chatStream number r).1 = (streamImperatorResponse events raised).deltas.map .str ∧
          (streamImperatorResponse events raised).finished = true) ∧
      ((chatStream number r).2 ≠ none →
        ∃ e message, r.raised = some (e, message) ∧ (chatStream number r).2 = some (.connection e message)) := by
  have hread := (readLines_received hc h).2
  have hfailure : (chatStream number r).2 = match (readLines number r.lines).2 with
      | some .stopped => none
      | some .crashed => some .crash
      | none => r.raised.map fun raised => .connection raised.1 raised.2 := rfl
  cases hstop : (readLines number r.lines).2 with
  | none =>
    cases hraised : r.raised with
    | none =>
      obtain ⟨heq, hfinished⟩ := h.whole hraised
      have hstopped := congrArg Prod.snd (hread (.inl heq))
      rw [hstop, hfinished] at hstopped
      cases hstopped
    | some e =>
      rw [hstop, hraised] at hfailure
      refine ⟨fun hnone => ?_, fun _ => ⟨e.1, e.2, rfl, hfailure⟩⟩
      rw [hfailure] at hnone
      cases hnone
  | some left =>
    have heq := hread (.inr (by rw [hstop]; exact Option.some_ne_none left))
    have hstopped := congrArg Prod.snd heq
    rw [hstop] at hstopped hfailure
    dsimp only at hstopped
    split at hstopped
    · obtain rfl := Option.some.inj hstopped
      exact ⟨fun _ => ⟨congrArg Prod.fst heq, ‹_›⟩, fun hsome => absurd hfailure hsome⟩
    · cases hstopped

/-- **The reply that is read** is an initial part of what was sent, the whole of it
if the whole text came. The client ends well only if it has the whole of a
finished reply, and fails only with the connection. -/
theorem reply_read (hc : c.Reads number)
    (h : r.Of (c.yields events raised).flatten (streamImperatorResponse events raised).finished) :
    (chatStream number r).1 <+: (streamImperatorResponse events raised).deltas.map .str ∧
      (r.parts.flatten = (c.yields events raised).flatten →
        (chatStream number r).1 = (streamImperatorResponse events raised).deltas.map .str) ∧
      ((chatStream number r).2 = none →
        (chatStream number r).1 = (streamImperatorResponse events raised).deltas.map .str ∧
          (streamImperatorResponse events raised).finished = true) ∧
      ((chatStream number r).2 ≠ none →
        ∃ e message, r.raised = some (e, message) ∧ (chatStream number r).2 = some (.connection e message)) := by
  obtain ⟨hcontents, hread⟩ := readLines_received hc h
  exact ⟨hcontents, fun heq => congrArg Prod.fst (hread (.inl heq)), chatStream_ended hc h⟩

end Reading

def sample : Completion := { id := "chatcmpl-1".toList, created := "1700000000".toList, model := "imperator".toList }

theorem sample_reads : sample.Reads some where
  isNumber := by
    refine @IsNumber.mk [] "1700000000".toList [] [] (.inl rfl) (.inr ⟨'1', "700000000".toList, rfl, ?_⟩) (.inl rfl)
      (.inl rfl)
    have hdigits : "700000000".toList.all JsonText.isDigit = true := by decide
    exact ⟨by decide, by decide, List.all_eq_true.mp hdigits⟩
  created := rfl
  index := rfl

/-- Two tokens, a connection that breaks in the middle of the second one. -/
def broken : Received where
  parts := [((sample.yields ["Hel".toList, "lo.\n".toList] none).flatten).take 250]
  raised := some (.httpxHttpError, "peer closed connection".toList)

theorem reply_read_broken :
    (chatStream some broken).1 <+: [.str "Hel".toList, .str "lo.\n".toList] ∧
      ((chatStream some broken).2 ≠ none → ∃ e message, broken.raised = some (e, message) ∧
        (chatStream some broken).2 = some (.connection e message)) :=
  have hof : broken.Of (sample.yields ["Hel".toList, "lo.\n".toList] none).flatten true :=
    ⟨by rw [broken, List.flatten_singleton]; exact List.take_prefix _ _, fun h => (by cases h)⟩
  have hread := reply_read sample_reads hof
  ⟨hread.1, hread.2.2.2⟩

/-! ## The panel -/

section Panel

variable {number : Text → Option Text} {c : Completion} {events : List Text} {raised : Option Exn} {r : Received}
  {asked shown : List Entry} {response : Text} {tokens : List Text}

theorem showChunks_crashed (asked : List Entry) (response : Text) (tokens : List Text) :
    (showChunks asked response (tokens.map .str)).2 = false := by
  induction tokens generalizing response with
  | nil => rfl
  | cons token tokens ih => exact ih (response ++ token)

theorem mem_showChunks (h : shown ∈ (showChunks asked response (tokens.map .str)).1) :
    ∃ first, first <+: tokens ∧ first ≠ [] ∧ shown = asked ++ [⟨.assistant, response ++ first.flatten⟩] := by
  induction tokens generalizing response with
  | nil => cases h
  | cons token tokens ih =>
    rcases List.mem_cons.mp h with rfl | h
    · exact ⟨[token], by simp, by simp, by simp⟩
    · obtain ⟨first, hfirst, -, rfl⟩ := ih h
      exact ⟨token :: first, List.cons_prefix_cons.mpr ⟨rfl, hfirst⟩, by simp, by simp⟩

theorem mem_showFailure {failure : Option Failure} (h : shown ∈ showFailure asked failure) :
    ∃ e text, failure = some (.connection e text) ∧ shown = asked ++ [⟨.assistant, "Error: ".toList ++ text⟩] := by
  unfold showFailure at h
  split at h
  · split at h
    · exact ⟨_, _, rfl, List.mem_singleton.mp h⟩
    · cases h
  · cases h

theorem getLast_showChunks (h : tokens ≠ []) :
    (showChunks asked response (tokens.map .str)).1.getLast? =
      some (asked ++ [⟨.assistant, response ++ tokens.flatten⟩]) := by
  induction tokens generalizing response with
  | nil => exact absurd rfl h
  | cons token tokens ih =>
    cases tokens with
    | nil => simp [showChunks]
    | cons token' tokens =>
      have hlast := @ih (response ++ token) (by simp)
      rw [List.append_assoc, ← List.flatten_cons] at hlast
      rw [← hlast]
      rfl

/-- What the panel is shown, and what is left to be shown when the reply is read. -/
theorem onChatSubmit_read (hc : c.Reads number)
    (h : r.Of (c.yields events raised).flatten (streamImperatorResponse events raised).finished)
    (message : Text) (history : List Entry) :
    ∃ tokens, tokens <+: (streamImperatorResponse events raised).deltas ∧
      (chatStream number r).1 = tokens.map .str ∧
      onChatSubmit number message history (some r) =
        (history ++ [⟨.user, message⟩]) ::
          ((showChunks (history ++ [⟨.user, message⟩]) [] (tokens.map .str)).1 ++
            showFailure (history ++ [⟨.user, message⟩]) (chatStream number r).2) := by
  obtain ⟨tokens, htokens, hcontents⟩ := List.prefix_map_iff.mp (readLines_received hc h).1
  change (chatStream number r).1 = tokens.map .str at hcontents
  have hshow : onChatSubmit number message history (some r) =
      (history ++ [⟨.user, message⟩]) :: ((showChunks (history ++ [⟨.user, message⟩]) [] (chatStream number r).1).1 ++
        if (showChunks (history ++ [⟨.user, message⟩]) [] (chatStream number r).1).2 then []
        else showFailure (history ++ [⟨.user, message⟩]) (chatStream number r).2) := rfl
  rw [hcontents, showChunks_crashed, if_neg Bool.false_ne_true] at hshow
  exact ⟨tokens, htokens, hcontents, hshow⟩

theorem mem_onChatSubmit (hc : c.Reads number)
    (h : r.Of (c.yields events raised).flatten (streamImperatorResponse events raised).finished)
    {message : Text} {history : List Entry} (hshown : shown ∈ onChatSubmit number message history (some r)) :
    shown = history ++ [⟨.user, message⟩] ∨
      (∃ first, first <+: (streamImperatorResponse events raised).deltas ∧ first ≠ [] ∧
        shown = history ++ [⟨.user, message⟩] ++ [⟨.assistant, first.flatten⟩]) ∨
      ∃ e text, r.raised = some (e, text) ∧
        shown = history ++ [⟨.user, message⟩] ++ [⟨.assistant, "Error: ".toList ++ text⟩] := by
  obtain ⟨tokens, htokens, -, hshow⟩ := onChatSubmit_read hc h message history
  rw [hshow] at hshown
  rcases List.mem_cons.mp hshown with rfl | hshown
  · exact .inl rfl
  rcases List.mem_append.mp hshown with hshown | hshown
  · obtain ⟨first, hfirst, hne, rfl⟩ := mem_showChunks hshown
    exact .inr (.inl ⟨first, hfirst.trans htokens, hne, rfl⟩)
  · obtain ⟨e, text, hfailed, heq⟩ := mem_showFailure hshown
    obtain ⟨e', text', hraised, hsome⟩ := (chatStream_ended hc h).2 (by rw [hfailed]; exact Option.some_ne_none _)
    rw [hfailed] at hsome
    cases hsome
    exact .inr (.inr ⟨e, text, hraised, heq⟩)

/-- **The panel** shows the first of the contents that were sent, or an error of
the connection; without one it shows them all in the end. -/
theorem panel_shows (hc : c.Reads number)
    (h : r.Of (c.yields events raised).flatten (streamImperatorResponse events raised).finished)
    (message : Text) (history : List Entry) :
    (∀ shown ∈ onChatSubmit number message history (some r),
      shown = history ++ [⟨.user, message⟩] ∨
      (∃ first, first <+: (streamImperatorResponse events raised).deltas ∧ first ≠ [] ∧
        shown = history ++ [⟨.user, message⟩] ++ [⟨.assistant, first.flatten⟩]) ∨
      ∃ e text, r.raised = some (e, text) ∧
        shown = history ++ [⟨.user, message⟩] ++ [⟨.assistant, "Error: ".toList ++ text⟩]) ∧
    (r.raised = none → (onChatSubmit number message history (some r)).getLast? =
      some (history ++ [⟨.user, message⟩] ++
        if (streamImperatorResponse events raised).deltas = [] then []
        else [⟨.assistant, (streamImperatorResponse events raised).deltas.flatten⟩])) := by
  refine ⟨fun shown => mem_onChatSubmit hc h, fun hraised => ?_⟩
  obtain ⟨tokens, -, hcontents, hshow⟩ := onChatSubmit_read hc h message history
  obtain ⟨hnone, hfailure⟩ := chatStream_ended hc h
  have hended : (chatStream number r).2 = none := by
    by_contra hfailed
    obtain ⟨e, text, heq, -⟩ := hfailure hfailed
    rw [hraised] at heq
    cases heq
  have hall : tokens = (streamImperatorResponse events raised).deltas := by
    have heq := (hnone hended).1
    rw [hcontents] at heq
    exact List.map_injective_iff.mpr (fun _ _ h => Json.str.inj h) heq
  generalize history ++ [(⟨.user, message⟩ : Entry)] = asked at hshow ⊢
  have hquiet : showFailure asked none = [] := rfl
  rw [hshow, hended, hall, hquiet, List.append_nil]
  by_cases hdeltas : (streamImperatorResponse events raised).deltas = []
  · rw [hdeltas]
    simp [showChunks]
  · have hlast := @getLast_showChunks asked [] _ hdeltas
    rw [if_neg hdeltas, List.getLast?_cons, hlast]
    rfl

/-- "Hello." in two tokens, and the text in one part. -/
theorem panel_shows_hello :
    (onChatSubmit some "Hi".toList []
      (some ⟨[(sample.yields ["Hel".toList, "lo.".toList] none).flatten], none⟩)).getLast? =
      some [⟨.user, "Hi".toList⟩, ⟨.assistant, "Hello.".toList⟩] :=
  have hof : Received.Of ⟨[(sample.yields ["Hel".toList, "lo.".toList] none).flatten], none⟩
      (sample.yields ["Hel".toList, "lo.".toList] none).flatten true :=
    ⟨by rw [List.flatten_singleton], fun _ => ⟨List.flatten_singleton, rfl⟩⟩
  (panel_shows sample_reads hof "Hi".toList []).2 rfl

end Panel

/-! ## The panel's request -/

section Request

variable (env : Imperator.Env) (chunks : Chunks) (number : Text → Option Text)

def Speaker.toRole : Speaker → Role
  | .user => .user
  | .assistant => .assistant

/-- mirrors ui/app.py:158 -/
def apiMessages (asked : List Entry) : List ChatMessage :=
  asked.map fun m => { role := m.role.toRole, content := some m.content }

/-- A `JSONResponse` writes what is above ASCII as it is. -/
def escapeRaw (c : Char) : Text := if 0x7e < c.toNat then [c] else Imperator.escapeChar c

/-- The bodies of the endpoint's own answers, and of the server's to an exception.
mirrors app/routes/chat.py:40-95 -/
def failureBody : ChatStreaming.Failure → Text
  | .answered status message =>
    let type := if status = 500 then "internal_error".toList else "invalid_request_error".toList
    "\x7b\"error\":\x7b\"message\":\"".toList ++ message.flatMap escapeRaw ++ "\",\"type\":\"".toList ++ type ++
      "\"\x7d\x7d".toList
  | .raised _ => "Internal Server Error".toList

/-- The text of a streamed response, and whether it is finished.
mirrors app/routes/chat.py:34-191 -/
def respond (c : Completion) (messages : List ChatMessage) (config : Except Exn ImperatorConfig)
    (key : Except Exn (Option (Option Id))) (db : Db) : Text × Bool :=
  match prepare (some (.ok messages)) config key with
  | .error failure => (failureBody failure, true)
  | .ok (config, state) =>
    let raised := (Imperator.invoke env config ⟨db, state⟩).2
    let events := turnEvents env config chunks ⟨db, state⟩
    ((c.yields events raised).flatten, (streamImperatorResponse events raised).finished)

variable {env chunks number} {c : Completion} {r : Received} {text : Text}

/-- A text without a line break is one line, and not read unless it is an event. -/
theorem readLines_quiet (hprintable : ∀ c ∈ text, Printable c) (hhead : text.head? ≠ some 'd')
    (h : r.parts.flatten <+: text) : readLines number r.lines = ([], none) := by
  have hplain : ∀ c ∈ r.parts.flatten, LineDecoder.isBreak c = false := fun c hc =>
    not_break (hprintable c (h.subset hc))
  have hfeed := LineDecoder.feed_plain hplain {} rfl
  have hline : readLine number r.parts.flatten = .skip := by
    rw [readLine, if_neg]
    intro hevent
    obtain ⟨data, hdata⟩ := List.isPrefixOf_iff_prefix.mp hevent
    obtain ⟨more, hmore⟩ := h
    rw [← hmore, ← hdata] at hhead
    exact hhead rfl
  rw [lines_received, lines, hfeed]
  dsimp only
  split
  · rw [Decoder.flush]
    split
    · rfl
    · simp [readLines, hline]
  · rfl

/-- What can refuse a request of the panel. -/
theorem prepare_failure {asked : List Entry} {config : Except Exn ImperatorConfig}
    {key : Except Exn (Option (Option Id))} {failure : ChatStreaming.Failure} (hasked : ∃ m ∈ asked, m.role = .user)
    (h : prepare (some (.ok (apiMessages asked))) config key = .error failure) :
    failure = .answered 500 "Configuration unavailable".toList ∨ ∃ e, failure = .raised e := by
  unfold prepare at h
  dsimp only at h
  cases config with
  | error e =>
    dsimp only at h
    split at h
    · exact .inl (Except.error.inj h).symm
    · exact .inr ⟨e, (Except.error.inj h).symm⟩
  | ok config =>
    dsimp only at h
    split at h
    · rename_i hnone
      obtain ⟨m, hm, hrole⟩ := hasked
      have hno := List.all_eq_true.mp hnone _ (List.mem_map_of_mem hm)
      simp [hrole, Speaker.toRole] at hno
    · split at h
      · exact .inr ⟨_, (Except.error.inj h).symm⟩
      · exact .inr ⟨_, (Except.error.inj h).symm⟩
      · cases h

theorem printable_all (h : text.all (fun c => decide (Printable c)) = true) : ∀ c ∈ text, Printable c := by
  simpa using h

theorem quiet_failure {failure : ChatStreaming.Failure}
    (h : failure = .answered 500 "Configuration unavailable".toList ∨ ∃ e, failure = .raised e) :
    (∀ c ∈ failureBody failure, Printable c) ∧ (failureBody failure).head? ≠ some 'd' := by
  rcases h with rfl | ⟨e, rfl⟩
  · exact ⟨printable_all (by decide), by decide⟩
  · have hbody : failureBody (.raised e) = "Internal Server Error".toList := rfl
    rw [hbody]
    exact ⟨printable_all (by decide), by decide⟩

/-- Without events only the text for an exception is sent. -/
theorem streamed_nil {raised : Option Exn} {first : List Text}
    (h : first <+: (streamImperatorResponse [] raised).deltas) (hne : first ≠ []) : first = [streamError] := by
  unfold streamImperatorResponse at h
  cases raised with
  | none => exact absurd (List.prefix_nil.mp h) hne
  | some e =>
    dsimp only [List.filter_nil, List.nil_append] at h
    split at h
    · obtain hnil | ⟨first, rfl, hrest⟩ := List.prefix_cons_iff.mp h
      · exact absurd hnil hne
      · rw [List.prefix_nil.mp hrest]
    · exact absurd (List.prefix_nil.mp h) hne

/-- **No reply is shown**, whatever the Imperator answers: the panel asks for a
stream, and a run streams nothing but the text for an exception. -/
theorem no_reply_shown (env : Imperator.Env) (chunks : Chunks) (hchunks : chunks.Documented) (hc : c.Reads number)
    (message : Text) (history : List Entry) (config : Except Exn ImperatorConfig)
    (key : Except Exn (Option (Option Id))) (db : Db)
    (h : r.Of (respond env chunks c (apiMessages (history ++ [⟨.user, message⟩])) config key db).1
      (respond env chunks c (apiMessages (history ++ [⟨.user, message⟩])) config key db).2) :
    ∀ shown ∈ onChatSubmit number message history (some r),
      shown = history ++ [⟨.user, message⟩] ∨
      shown = history ++ [⟨.user, message⟩] ++ [⟨.assistant, streamError⟩] ∨
      ∃ e text, r.raised = some (e, text) ∧
        shown = history ++ [⟨.user, message⟩] ++ [⟨.assistant, "Error: ".toList ++ text⟩] := by
  cases hprepare : prepare (some (.ok (apiMessages (history ++ [⟨.user, message⟩])))) config key with
  | error failure =>
    have hquiet := quiet_failure (prepare_failure ⟨⟨.user, message⟩, by simp, rfl⟩ hprepare)
    simp only [respond, hprepare] at h
    have hlines := @readLines_quiet number r _ hquiet.1 hquiet.2 h.isPrefix
    have hstream : chatStream number r = ([], r.raised.map fun raised => .connection raised.1 raised.2) := by
      rw [chatStream, hlines]
    intro shown hshown
    simp only [onChatSubmit, hstream, showChunks, List.nil_append, Bool.false_eq_true, if_false] at hshown
    rcases List.mem_cons.mp hshown with rfl | hshown
    · exact .inl rfl
    obtain ⟨e, text, hfailed, rfl⟩ := mem_showFailure hshown
    obtain ⟨raised, hraised, heq⟩ := Option.map_eq_some_iff.mp hfailed
    cases heq
    exact .inr (.inr ⟨raised.1, raised.2, hraised, rfl⟩)
  | ok prepared =>
    obtain ⟨config', state⟩ := prepared
    simp only [respond, hprepare, turnEvents_nil hchunks] at h
    intro shown hshown
    rcases mem_onChatSubmit hc h hshown with hasked | ⟨first, hfirst, hne, rfl⟩ | herror
    · exact .inl hasked
    · have hstreamed := streamed_nil hfirst hne
      rw [hstreamed, List.flatten_singleton]
      exact .inr (.inl rfl)
    · exact .inr (.inr herror)

def helloReceived : Received where
  parts := [(respond Imperator.plainEnv helloChunks sample (apiMessages [⟨.user, "Hi".toList⟩])
    (.ok Imperator.plainConfig) (.ok (some (some 0))) Imperator.greetedDb).1]

/-- The model answers "Hello.", and the panel shows "Hi" alone, or with an error. -/
theorem no_reply_shown_hello :
    ¬ ∃ shown ∈ onChatSubmit some "Hi".toList [] (some helloReceived),
      shown ≠ [⟨.user, "Hi".toList⟩] ∧ shown ≠ [⟨.user, "Hi".toList⟩, ⟨.assistant, streamError⟩] := by
  have hfinished : (respond Imperator.plainEnv helloChunks sample (apiMessages [⟨.user, "Hi".toList⟩])
      (.ok Imperator.plainConfig) (.ok (some (some 0))) Imperator.greetedDb).2 = true := by decide +kernel
  intro ⟨shown, hshown, hasked, herror⟩
  rcases no_reply_shown Imperator.plainEnv helloChunks helloChunks_documented sample_reads "Hi".toList []
    (.ok Imperator.plainConfig) (.ok (some (some 0))) Imperator.greetedDb
    ⟨by rw [helloReceived, List.flatten_singleton]; exact List.prefix_rfl,
      fun _ => ⟨List.flatten_singleton, hfinished⟩⟩ shown hshown with h | h | ⟨e, text, hraised, -⟩
  · exact hasked h
  · exact herror h
  · cases hraised

end Request

end ContextBroker.ChatClient
