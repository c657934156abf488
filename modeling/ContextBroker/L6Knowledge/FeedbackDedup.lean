import ContextBroker.Core.OnceByKey
import ContextBroker.L1Data.Quality
import Std.Data.String.ToNat

/-!
# Feedback events and their dedup key (`memory/quality_wrapper.py`)

`knowledge_feedback` records an event unless the table has its dedup key, the
hash of the target id, the event type, the agent and the minute joined with
bars. Neither the target type nor where a field ends is in that text.

* `run_recorded`: a run of calls is a recording once by key (`OnceByKey`).
* `feedback_exact_iff`: each event of a run is recorded exactly once if and
  only if no key was there before, calls of one joined text are one event,
  and the database takes a call for each.
* `joined_inj`: between calls on one target type whose ids and agents are
  free of bars, one joined text is one event.
-/
namespace ContextBroker.FeedbackDedup

inductive EventType where
  | used | discarded | contradicted | superseded | invalidated | conflicted
  deriving DecidableEq, Repr

def EventType.text : EventType → Text
  | .used => "used".toList
  | .discarded => "discarded".toList
  | .contradicted => "contradicted".toList
  | .superseded => "superseded".toList
  | .invalidated => "invalidated".toList
  | .conflicted => "conflicted".toList

/-- `Field(..., min_length=1, max_length=255)`. -/
structure Name where
  text : Text
  nonempty : 1 ≤ text.length
  short : text.length ≤ 255
  deriving DecidableEq

/-- `context` as `json.dumps` writes it. mirrors app/models.py:257-264 -/
structure KnowledgeFeedbackInput where
  targetType : TargetType
  targetId : Name
  eventType : EventType
  agentId : Name
  context : Option Text := none
  deriving DecidableEq

/-- A call at `now` (whole seconds of the clock of the process); `fault` is
what the database raises at its INSERT, if it does. -/
structure Call where
  input : KnowledgeFeedbackInput
  now : Time
  createdAt : Time
  fault : Option Exn := none
  deriving DecidableEq

/-- mirrors quality_wrapper.py:32-36 -/
def timestampBucket (epoch : Time) (bucketSeconds : Nat) : Nat := epoch / bucketSeconds * bucketSeconds

def Call.bucket (c : Call) : Nat := timestampBucket c.now 60

/-- `f"{target_id}|{event_type}|{agent_id}|{bucket}"`. -/
def Call.joined (c : Call) : Text :=
  c.input.targetId.text ++ "|".toList ++ c.input.eventType.text ++ "|".toList ++ c.input.agentId.text ++ "|".toList ++
    (toString c.bucket).toList

/-- The event a call reports. -/
def Call.identity (c : Call) : TargetType × Name × EventType × Name × Nat :=
  (c.input.targetType, c.input.targetId, c.input.eventType, c.input.agentId, c.bucket)

/-- TEXT holds no NUL. -/
def Call.insertFault (c : Call) : Option Exn :=
  if '\x00' ∈ c.input.targetId.text ∨ '\x00' ∈ c.input.agentId.text then some .postgresError else c.fault

/-- The database takes the row. -/
def Call.accepted (c : Call) : Bool := c.insertFault.isNone

section Runs

variable (sha256 : Text → Text) (idOf : Text → Id)

/-- mirrors quality_wrapper.py:45-53 -/
def eventDedupKey (c : Call) : Text := sha256 c.joined

/-- `idOf`: the number the tables have for the id of a target.
mirrors quality_wrapper.py:402-417 -/
def Call.event (c : Call) : FeedbackEvent where
  target := (c.input.targetType, idOf c.input.targetId.text)
  eventType := c.input.eventType.text
  agentId := c.input.agentId.text
  context := c.input.context
  createdAt := c.createdAt
  dedupKey := eventDedupKey sha256 c

/-- `{"status": "recorded" if ok else "duplicate"}`, or an exception.
mirrors app/flows/tool_dispatch.py:773-785 -/
def knowledgeFeedback (t : QualityTables) (c : Call) : QualityTables × Except Exn Text :=
  let (t', ok) := t.recordFeedback c.insertFault (c.event sha256 idOf)
  (t', ok.map fun ok => if ok then "recorded".toList else "duplicate".toList)

/-- A run of calls, with the ones that were answered "recorded". -/
def run : QualityTables → List Call → QualityTables × List Call
  | t, [] => (t, [])
  | t, c :: cs =>
    let (t', reply) := knowledgeFeedback sha256 idOf t c
    let (t'', recorded) := run t' cs
    (t'', if reply = .ok "recorded".toList then c :: recorded else recorded)

variable {sha256 idOf}

theorem accepted_iff (c : Call) : c.accepted = true ↔ c.insertFault = none := Option.isNone_iff_eq_none

/-- **One call** adds its row and says so, or changes nothing and does not. -/
theorem knowledgeFeedback_cases (sha256 : Text → Text) (idOf : Text → Id) (t : QualityTables) (c : Call) :
    ((c.accepted = true ∧ eventDedupKey sha256 c ∉ t.feedbackKeys) ∧
        knowledgeFeedback sha256 idOf t c =
          ({ t with feedback := t.feedback ++ [c.event sha256 idOf] }, .ok "recorded".toList)) ∨
      ¬(c.accepted = true ∧ eventDedupKey sha256 c ∉ t.feedbackKeys) ∧ (knowledgeFeedback sha256 idOf t c).1 = t ∧
        (knowledgeFeedback sha256 idOf t c).2 ≠ .ok "recorded".toList := by
  rw [accepted_iff]
  rcases t.recordFeedback_cases c.insertFault (c.event sha256 idOf) with ⟨hnew, heq⟩ | ⟨hnot, hsame, hreply⟩
  · exact .inl ⟨hnew, by simp [knowledgeFeedback, heq, Except.map]⟩
  · refine .inr ⟨hnot, hsame, fun h => hreply ?_⟩
    simp only [knowledgeFeedback] at h
    cases hresult : (t.recordFeedback c.insertFault (c.event sha256 idOf)).2 with
    | error e => simp [hresult, Except.map] at h
    | ok recorded =>
      cases recorded with
      | true => rfl
      | false => simp [hresult, Except.map] at h

theorem run_cons (t : QualityTables) (c : Call) (cs : List Call) :
    run sha256 idOf t (c :: cs) =
      ((run sha256 idOf (knowledgeFeedback sha256 idOf t c).1 cs).1,
        if (knowledgeFeedback sha256 idOf t c).2 = .ok "recorded".toList then
          c :: (run sha256 idOf (knowledgeFeedback sha256 idOf t c).1 cs).2
        else (run sha256 idOf (knowledgeFeedback sha256 idOf t c).1 cs).2) := rfl

/-- The calls a run records are the ones recorded once by key. -/
theorem run_recorded (t : QualityTables) (cs : List Call) :
    (run sha256 idOf t cs).2 = OnceByKey.recorded (eventDedupKey sha256) Call.accepted t.feedbackKeys cs := by
  induction cs generalizing t with
  | nil => rfl
  | cons c cs ih =>
    rw [OnceByKey.recorded_cons, run_cons]
    rcases knowledgeFeedback_cases sha256 idOf t c with
      ⟨hnew, heq⟩ | ⟨hnot, hsame, hreply⟩
    · simp only [heq, if_true]
      rw [if_pos hnew, ih]
      simp [QualityTables.feedbackKeys, Call.event]
    · rw [if_neg hnot, if_neg hreply, hsame, ih]

/-- The table grows by the rows of the recorded calls. -/
theorem run_feedback (t : QualityTables) (cs : List Call) :
    (run sha256 idOf t cs).1.feedback = t.feedback ++ (run sha256 idOf t cs).2.map (Call.event sha256 idOf) := by
  induction cs generalizing t with
  | nil => simp [run]
  | cons c cs ih =>
    rw [run_cons]
    rcases knowledgeFeedback_cases sha256 idOf t c with ⟨-, heq⟩ | ⟨-, hsame, hreply⟩
    · simp only [heq, if_true]
      rw [ih]
      simp
    · simp only [if_neg hreply, hsame]
      exact ih t

variable (sha256 idOf) in
/-- Of every event reported in the run exactly one call is recorded. -/
def Exact (t : QualityTables) (cs : List Call) : Prop :=
  ∀ c ∈ cs, (run sha256 idOf t cs).2.countP (fun r => decide (r.identity = c.identity)) = 1

instance (t : QualityTables) (cs : List Call) : Decidable (Exact sha256 idOf t cs) :=
  inferInstanceAs (Decidable (∀ c ∈ cs, _ = 1))

end Runs

/-! ## Joined texts -/

theorem joined_eq_intercalate (c : Call) :
    c.joined = ['|'].intercalate
      [c.input.targetId.text, c.input.eventType.text, c.input.agentId.text, (toString c.bucket).toList] := by
  simp [Call.joined, List.intercalate, List.intersperse]

theorem bar_not_mem_eventType (e : EventType) : '|' ∉ e.text := by
  cases e <;> decide

theorem bar_not_mem_toString (n : Nat) : '|' ∉ (toString n).toList := by
  intro h
  have hdigits : '|' ∈ Nat.toDigits 10 n := by simpa using h
  exact absurd (Nat.isDigit_of_mem_toDigits (by decide) (by decide) hdigits) (by decide)

theorem EventType.text_inj {e e' : EventType} (h : e.text = e'.text) : e = e' := by
  cases e <;> cases e' <;> first | rfl | exact absurd h (by decide)

/-- The identity of a call decides what is joined. -/
theorem joined_of_identity {c c' : Call} (h : c.identity = c'.identity) : c.joined = c'.joined := by
  simp only [Call.identity, Prod.mk.injEq] at h
  obtain ⟨-, hid, htype, hagent, hbucket⟩ := h
  simp only [Call.joined, hid, htype, hagent, hbucket]

/-- **Without bars** in ids and agents, calls on one target type are joined to
one text only if they report one event. -/
theorem joined_inj {c c' : Call} (hid : '|' ∉ c.input.targetId.text) (hagent : '|' ∉ c.input.agentId.text)
    (hid' : '|' ∉ c'.input.targetId.text) (hagent' : '|' ∉ c'.input.agentId.text)
    (htype : c.input.targetType = c'.input.targetType) (h : c.joined = c'.joined) : c.identity = c'.identity := by
  have hfree : ∀ d : Call, '|' ∉ d.input.targetId.text → '|' ∉ d.input.agentId.text →
      ∀ l ∈ [d.input.targetId.text, d.input.eventType.text, d.input.agentId.text, (toString d.bucket).toList],
        '|' ∉ l := by
    intro d hd hd' l hl
    simp only [List.mem_cons, List.not_mem_nil, or_false] at hl
    rcases hl with rfl | rfl | rfl | rfl
    · exact hd
    · exact bar_not_mem_eventType _
    · exact hd'
    · exact bar_not_mem_toString _
  rw [joined_eq_intercalate, joined_eq_intercalate] at h
  have hsplit := congrArg (List.splitOn '|') h
  rw [List.splitOn_intercalate _ (hfree c hid hagent) (by simp),
    List.splitOn_intercalate _ (hfree c' hid' hagent') (by simp)] at hsplit
  simp only [List.cons.injEq, and_true] at hsplit
  obtain ⟨htarget, hevent, hname, hbucket⟩ := hsplit
  have hnum : c.bucket = c'.bucket := Nat.repr_injective (String.toList_inj.mp hbucket)
  have hname_inj : ∀ {a b : Name}, a.text = b.text → a = b := by
    intro a b hab
    cases a
    cases b
    cases hab
    rfl
  simp only [Call.identity, Prod.mk.injEq]
  exact ⟨htype, hname_inj htarget, EventType.text_inj hevent, hname_inj hname, hnum⟩

/-! ## The result -/

/-- With no two texts of one hash, keys are joined texts. -/
theorem eventDedupKey_eq_iff {sha256 : Text → Text} (hsha : Function.Injective sha256) (c c' : Call) :
    eventDedupKey sha256 c = eventDedupKey sha256 c' ↔ c.joined = c'.joined :=
  hsha.eq_iff

/-- **Each event is recorded exactly once**, whatever the order and the times,
if and only if no call finds its key there, calls of one joined text report
one event, and each event has a call the database takes. -/
theorem feedback_exact_iff (sha256 : Text → Text) (hsha : Function.Injective sha256) (idOf : Text → Id)
    (t : QualityTables) (cs : List Call) :
    Exact sha256 idOf t cs ↔
      (∀ c ∈ cs, eventDedupKey sha256 c ∉ t.feedbackKeys) ∧
        (∀ c ∈ cs, ∀ c' ∈ cs, c.joined = c'.joined → c.identity = c'.identity) ∧
        ∀ c ∈ cs, ∃ c' ∈ cs, c'.joined = c.joined ∧ c'.accepted = true := by
  have hident : ∀ c c' : Call, c.identity = c'.identity → eventDedupKey sha256 c = eventDedupKey sha256 c' :=
    fun c c' h => congrArg sha256 (joined_of_identity h)
  have hexact : OnceByKey.Exact (eventDedupKey sha256) Call.accepted Call.identity t.feedbackKeys cs ↔ _ :=
    OnceByKey.exactly_once_iff hident t.feedbackKeys cs
  simp only [eventDedupKey_eq_iff hsha] at hexact
  rw [← hexact]
  simp only [Exact, OnceByKey.Exact, run_recorded]

def sampleCall (targetType : TargetType) (now : Time) : Call where
  input :=
    { targetType, targetId := ⟨"m1".toList, by decide, by decide⟩, eventType := .used,
      agentId := ⟨"imperator".toList, by decide, by decide⟩ }
  now
  createdAt := now

/-- A hash that is known on two texts. -/
def knownHash (x dx y dy text : Text) : Text := if text = x then dx else if text = y then dy else 'o' :: text

theorem knownHash_injective {x dx y dy : Text} (hx : dx.head? ≠ some 'o') (hy : dy.head? ≠ some 'o')
    (hne : dx ≠ dy) : Function.Injective (knownHash x dx y dy) := by
  intro a b h
  unfold knownHash at h
  grind

/-- SHA-256 on the texts the samples hash. -/
def sampleSha256 : Text → Text :=
  knownHash "m1|used|imperator|0".toList
    "acb30eb5f4ae97b3acf77e3c093ab16b726e47f551d74ef5e6849c5dd49811e2".toList "m1|used|imperator|60".toList
    "48e1b7913a391289b23f704fb5df6c16f7bbd4ede024320fcea8c0d461270473".toList

theorem sampleSha256_injective : Function.Injective sampleSha256 :=
  knownHash_injective (by decide) (by decide) (by decide)

/-- One agent using a fact in two minutes. -/
theorem feedback_exact_sample : Exact sampleSha256 (fun _ => 1) {} [sampleCall .fact 7, sampleCall .fact 65] :=
  (feedback_exact_iff sampleSha256 sampleSha256_injective (fun _ => 1) {} _).mpr
    ⟨by simp [QualityTables.feedbackKeys], by decide +kernel, by decide +kernel⟩

/-- A use of the fact `m1` and one of the relation `m1` in the same minute:
the second is taken for the first. -/
theorem feedback_merges :
    (sampleCall .fact 7).identity ≠ (sampleCall .relation 7).identity ∧
      ¬Exact sampleSha256 (fun _ => 1) {} [sampleCall .fact 7, sampleCall .relation 7] := by
  decide +kernel

end ContextBroker.FeedbackDedup
