import ContextBroker.Core.LTS
import ContextBroker.L1Data.Schema
import Mathlib.Data.Finset.Card

/-!
# Deduplication of alert events

The alerter remembers the ids of events in a set. The id is added before the
event is worked on, and when the set has grown past its limit, half of it is
discarded in the order in which the set happens to be iterated.

`history` is what deliveries with an id came to, newest first. An id is
`RecentlyProcessed` if its event was processed and no more than 5000 distinct
ids have been delivered since then, `RaisedLast` if its last attempt raised
before the fan-out. The first kind is to be answered as a duplicate, the second
to be worked on (`State.Exact`); `exact_iff` says which deliveries end that:
one that raises before the fan-out, since its id stays, and one whose eviction
discards an id that was recently processed, be it its own.
-/
namespace ContextBroker.AlertDedup

open LTS

/-- `_SEEN_EVENT_IDS_MAX`. -/
def SEEN_EVENT_IDS_MAX : Nat := 10000

/-- `event.get("id")`: nothing or a falsy value, a value without a hash, or a
value, up to the equality of `set`. -/
inductive EventId (I : Type) where
  | absent
  | unhashable
  | id (i : I)
  deriving DecidableEq, Repr

/-- `type` is empty where it is missing or falsy. -/
structure Event (I : Type) where
  type : Text
  dataIsObject : Bool := true
  id : EventId I
  deriving DecidableEq, Repr

inductive Body (I : Type) where
  | invalidJson
  | notObject
  | object (event : Event I)
  deriving DecidableEq, Repr

inductive BadRequest where
  | invalidJson | notObject | missingType | dataNotObject
  deriving DecidableEq, Repr

/-- mirrors alerter/alerter.py:293-309 -/
def BadRequest.text : BadRequest → Text
  | .invalidJson => "Invalid JSON".toList
  | .notObject => "Event must be a JSON object".toList
  | .missingType => "Missing 'type' field".toList
  | .dataNotObject => "'data' must be a JSON object".toList

/-- `_send_to_channel`: it returns, raises what the loop catches, or raises
what it does not. -/
inductive Send where
  | returns | caught | raises
  deriving DecidableEq, Repr

/-- How the work on one event goes: the instruction that was found, the
channels with what sending to them does (`none`: steps 1 to 3 raise), and
whether step 5 returns. -/
structure Processing where
  instructionId : Option Nat := none
  channels : Option (List (Text × Send))
  recorded : Bool := true
  deriving DecidableEq, Repr

inductive Response (I : Type) where
  | badRequest (e : BadRequest)
  | duplicate (id : I)
  | processed (type : Text) (instructionId : Option Nat) (succeeded failed : List Text)
  /-- An exception leaves the endpoint. -/
  | internalError
  deriving DecidableEq, Repr

/-- `sent`: the channels something was sent to, or tried to be. -/
structure Reply (I : Type) where
  response : Response I
  sent : List Text := []
  deriving DecidableEq, Repr

structure FanOut where
  sent : List Text := []
  succeeded : List Text := []
  failed : List Text := []
  raised : Bool := false
  deriving DecidableEq, Repr

/-- mirrors alerter/alerter.py:355-365 -/
def fanOut : List (Text × Send) → FanOut
  | [] => {}
  | (channel, .raises) :: _ => { sent := [channel], raised := true }
  | (channel, .returns) :: rest =>
    let out := fanOut rest
    { out with sent := channel :: out.sent, succeeded := channel :: out.succeeded }
  | (channel, .caught) :: rest =>
    let out := fanOut rest
    { out with sent := channel :: out.sent, failed := channel :: out.failed }

/-- What a delivery with an id came to. -/
inductive Outcome where
  | duplicate | raisedBefore | raisedAfter | processed
  deriving DecidableEq, Repr

def Processing.outcome (p : Processing) : Outcome :=
  match p.channels with
  | none => .raisedBefore
  | some channels => if (fanOut channels).raised || !p.recorded then .raisedAfter else .processed

/-- mirrors alerter/alerter.py:326-393 -/
def process {I : Type} (type : Text) (p : Processing) : Reply I :=
  match p.channels with
  | none => { response := .internalError }
  | some channels =>
    let out := fanOut channels
    if out.raised || !p.recorded then { response := .internalError, sent := out.sent }
    else { response := .processed type p.instructionId out.succeeded out.failed, sent := out.sent }

/-- `order`: the ids of the set in iteration order, if the eviction lists them. -/
structure Delivery (I : Type) where
  body : Body I
  order : List I := []
  processing : Processing

structure State (I : Type) where
  seenEventIds : List I := []
  history : List (I × Outcome) := []
  deriving DecidableEq, Repr

/-- mirrors alerter/alerter.py:293-309 -/
def checkBody {I : Type} : Body I → Except BadRequest (Event I)
  | .invalidJson => .error .invalidJson
  | .notObject => .error .notObject
  | .object event =>
    if event.type = [] then .error .missingType
    else if event.dataIsObject then .ok event
    else .error .dataNotObject

section Webhook

variable {I : Type} [DecidableEq I]

/-- What the eviction discards, after `i` has been added. -/
def discarded (seen : List I) (i : I) (order : List I) : List I :=
  if SEEN_EVENT_IDS_MAX < (i :: seen).length then order.take (SEEN_EVENT_IDS_MAX / 2) else []

/-- An order lists the set, if one is needed. -/
def Lists (seen : List I) (i : I) (order : List I) : Prop :=
  SEEN_EVENT_IDS_MAX < (i :: seen).length → order.Perm (i :: seen)

instance (seen : List I) (i : I) (order : List I) : Decidable (Lists seen i order) :=
  inferInstanceAs (Decidable (_ → _))

/-- mirrors alerter/alerter.py:316-323 -/
def remember (seen : List I) (i : I) (order : List I) : List I :=
  (i :: seen).filter fun j => j ∉ discarded seen i order

/-- mirrors alerter/alerter.py:290-393 -/
def webhook (s : State I) (d : Delivery I) : Option (State I × Reply I) :=
  match checkBody d.body with
  | .error e => some (s, { response := .badRequest e })
  | .ok event =>
    match event.id with
    | .absent => some (s, process event.type d.processing)
    | .unhashable => some (s, { response := .internalError })
    | .id i =>
      if i ∈ s.seenEventIds then
        some ({ s with history := (i, .duplicate) :: s.history }, { response := .duplicate i })
      else if Lists s.seenEventIds i d.order then
        some (⟨remember s.seenEventIds i d.order, (i, d.processing.outcome) :: s.history⟩,
          process event.type d.processing)
      else none

def step (s : State I) (d : Delivery I) : Option (State I) := (webhook s d).map Prod.fst

/-- The event of a delivery that gets to the deduplication with an id. -/
def Delivery.identified (d : Delivery I) : Option (Event I × I) :=
  match checkBody d.body with
  | .error _ => none
  | .ok event =>
    match event.id with
    | .id i => some (event, i)
    | .absent | .unhashable => none

/-! ## What is expected -/

/-- Its event was processed, and the deliveries since then have had 5000
distinct ids at most. -/
def RecentlyProcessed (history : List (I × Outcome)) (i : I) : Prop :=
  ∃ newer older, history = newer ++ (i, .processed) :: older ∧ (i :: newer.map Prod.fst).toFinset.card ≤ 5000

/-- The last attempt with the id raised before the fan-out. -/
def RaisedLast (history : List (I × Outcome)) (i : I) : Prop :=
  ∃ newer older, history = newer ++ (i, .raisedBefore) :: older ∧ ∀ e ∈ newer, e.1 = i → e.2 = .duplicate

/-- Whatever is delivered next is answered as it should. -/
def State.Exact (s : State I) : Prop :=
  ∀ d s' reply, webhook s d = some (s', reply) → ∀ event i, d.identified = some (event, i) →
    (RecentlyProcessed s.history i → reply = { response := .duplicate i }) ∧
      (RaisedLast s.history i → reply = process event.type d.processing)

/-! ## One delivery -/

variable {s s' : State I} {d : Delivery I} {i j : I} {o : Outcome} {history : List (I × Outcome)}

theorem recentlyProcessed_cons :
    RecentlyProcessed ((i, o) :: history) j → j = i ∧ o = .processed ∨ RecentlyProcessed history j := by
  intro ⟨newer, older, heq, hcard⟩
  cases newer with
  | nil =>
    obtain ⟨hpair, _⟩ := List.cons_eq_cons.mp heq
    obtain ⟨rfl, rfl⟩ := Prod.mk.inj hpair
    exact .inl ⟨rfl, rfl⟩
  | cons e newer =>
    obtain ⟨rfl, rfl⟩ := List.cons_eq_cons.mp heq
    refine .inr ⟨newer, older, rfl, le_trans (Finset.card_le_card fun x hx => ?_) hcard⟩
    simp only [List.map_cons, List.toFinset_cons, Finset.mem_insert] at hx ⊢
    exact hx.imp id .inr

omit [DecidableEq I] in
theorem raisedLast_cons :
    RaisedLast ((i, o) :: history) j ↔
      j = i ∧ o = .raisedBefore ∨ RaisedLast history j ∧ (j = i → o = .duplicate) := by
  constructor
  · intro ⟨newer, older, heq, hnewer⟩
    cases newer with
    | nil =>
      obtain ⟨hpair, _⟩ := List.cons_eq_cons.mp heq
      obtain ⟨rfl, rfl⟩ := Prod.mk.inj hpair
      exact .inl ⟨rfl, rfl⟩
    | cons e newer =>
      obtain ⟨rfl, rfl⟩ := List.cons_eq_cons.mp heq
      exact .inr ⟨⟨newer, older, rfl, fun e he => hnewer e (List.mem_cons_of_mem _ he)⟩,
        fun hji => hnewer (i, o) List.mem_cons_self hji.symm⟩
  · rintro (⟨rfl, rfl⟩ | ⟨⟨newer, older, rfl, hnewer⟩, hdup⟩)
    · exact ⟨[], history, rfl, fun _ he => nomatch he⟩
    · refine ⟨(i, o) :: newer, older, rfl, fun e he hej => ?_⟩
      rcases List.mem_cons.mp he with rfl | he
      · exact hdup hej.symm
      · exact hnewer e he hej

/-- What a delivery with an id does. -/
theorem webhook_identified {event : Event I} (hd : d.identified = some (event, i)) :
    webhook s d =
      if i ∈ s.seenEventIds then
        some ({ s with history := (i, .duplicate) :: s.history }, { response := .duplicate i })
      else if Lists s.seenEventIds i d.order then
        some (⟨remember s.seenEventIds i d.order, (i, d.processing.outcome) :: s.history⟩,
          process event.type d.processing)
      else none := by
  unfold Delivery.identified at hd
  unfold webhook
  cases hbody : checkBody d.body with
  | error e => simp [hbody] at hd
  | ok event' =>
    rw [hbody] at hd
    dsimp only at hd ⊢
    cases hid : event'.id with
    | absent => simp [hid] at hd
    | unhashable => simp [hid] at hd
    | id i' =>
      rw [hid] at hd
      obtain ⟨rfl, rfl⟩ := Prod.mk.inj (Option.some.inj hd)
      rfl

theorem webhook_unidentified (hd : d.identified = none) (hs : step s d = some s') : s' = s := by
  unfold Delivery.identified at hd
  unfold step webhook at hs
  cases hbody : checkBody d.body with
  | error e =>
    rw [hbody] at hs
    exact (Option.some.inj hs).symm
  | ok event =>
    rw [hbody] at hd hs
    dsimp only at hd hs
    cases hid : event.id with
    | absent =>
      rw [hid] at hs
      exact (Option.some.inj hs).symm
    | unhashable =>
      rw [hid] at hs
      exact (Option.some.inj hs).symm
    | id i => simp [hid] at hd

theorem step_identified {event : Event I} (hd : d.identified = some (event, i)) (hs : step s d = some s') :
    (i ∈ s.seenEventIds ∧ s' = { s with history := (i, .duplicate) :: s.history }) ∨
      (i ∉ s.seenEventIds ∧ Lists s.seenEventIds i d.order ∧
        s' = ⟨remember s.seenEventIds i d.order, (i, d.processing.outcome) :: s.history⟩) := by
  unfold step at hs
  rw [webhook_identified hd] at hs
  split at hs
  · rename_i hseen
    exact .inl ⟨hseen, (Option.some.inj hs).symm⟩
  · rename_i hseen
    split at hs
    · rename_i hlists
      exact .inr ⟨hseen, hlists, (Option.some.inj hs).symm⟩
    · cases hs

/-- The set is right about both kinds of ids. -/
theorem exact_iff_seen :
    s.Exact ↔ ∀ i, (RecentlyProcessed s.history i → i ∈ s.seenEventIds) ∧
      (RaisedLast s.history i → i ∉ s.seenEventIds) := by
  constructor
  · intro h i
    -- an event with the id whose work raises at once
    let d : Delivery I :=
      { body := .object { type := ['t'], id := .id i }, order := i :: s.seenEventIds, processing := { channels := none } }
    have hd : d.identified = some ({ type := ['t'], id := .id i }, i) := rfl
    have hlists : Lists s.seenEventIds i d.order := fun _ => .refl _
    by_cases hseen : i ∈ s.seenEventIds
    · have hw := webhook_identified (s := s) hd
      rw [if_pos hseen] at hw
      refine ⟨fun _ => hseen, fun hraised => ?_⟩
      have hreply := (h d _ _ hw _ i hd).2 hraised
      cases hreply
    · have hw := webhook_identified (s := s) hd
      rw [if_neg hseen, if_pos hlists] at hw
      refine ⟨fun hrecent => ?_, fun _ => hseen⟩
      have hreply := (h d _ _ hw _ i hd).1 hrecent
      cases hreply
  · intro h d s' reply hw event i hd
    rw [webhook_identified hd] at hw
    split at hw
    · rename_i hseen
      obtain ⟨_, rfl⟩ := Prod.mk.inj (Option.some.inj hw)
      exact ⟨fun _ => rfl, fun hraised => absurd hseen ((h i).2 hraised)⟩
    · rename_i hseen
      split at hw
      · obtain ⟨_, rfl⟩ := Prod.mk.inj (Option.some.inj hw)
        exact ⟨fun hrecent => absurd ((h i).1 hrecent) hseen, fun _ => rfl⟩
      · cases hw

/-- A delivery of a new id discards no id that is recently processed with it,
and does not raise before the fan-out, or discards its own id at once. -/
def Delivery.Keeps (s : State I) (d : Delivery I) : Prop :=
  ∀ event i, d.identified = some (event, i) → i ∉ s.seenEventIds →
    (∀ j ∈ discarded s.seenEventIds i d.order, ¬ RecentlyProcessed ((i, d.processing.outcome) :: s.history) j) ∧
      (d.processing.outcome = .raisedBefore → i ∈ discarded s.seenEventIds i d.order)

theorem Processing.outcome_ne_duplicate (p : Processing) : p.outcome ≠ .duplicate := by
  unfold Processing.outcome
  split
  · decide
  · split <;> decide

theorem mem_remember {seen order : List I} :
    j ∈ remember seen i order ↔ (j = i ∨ j ∈ seen) ∧ j ∉ discarded seen i order := by
  simp [remember, List.mem_filter]

/-- **One delivery** keeps the answers exact, exactly if it meets its condition. -/
theorem exact_step_iff (hexact : s.Exact) (hs : step s d = some s') : s'.Exact ↔ d.Keeps s := by
  rw [exact_iff_seen] at hexact ⊢
  unfold Delivery.Keeps
  cases hd : d.identified with
  | none =>
    obtain rfl := webhook_unidentified hd hs
    simpa using hexact
  | some p =>
    obtain ⟨event, i⟩ := p
    simp only [Option.some.injEq, Prod.mk.injEq, and_imp, forall_apply_eq_imp_iff, forall_eq']
    rcases step_identified hd hs with ⟨hseen, rfl⟩ | ⟨hseen, _, rfl⟩
    · refine iff_of_true (fun j => ⟨fun hrecent => ?_, fun hraised => ?_⟩) (fun hnew => absurd hseen hnew)
      · rcases recentlyProcessed_cons hrecent with ⟨_, hnot⟩ | hold
        · cases hnot
        · exact (hexact j).1 hold
      · rcases raisedLast_cons.mp hraised with ⟨_, hnot⟩ | ⟨hold, _⟩
        · cases hnot
        · exact (hexact j).2 hold
    · constructor
      · refine fun h _ => ⟨fun j hj hrecent => ?_, fun hbefore => ?_⟩
        · exact (mem_remember.mp ((h j).1 hrecent)).2 hj
        · by_contra hkept
          exact (h i).2 (raisedLast_cons.mpr (.inl ⟨rfl, hbefore⟩)) (mem_remember.mpr ⟨.inl rfl, hkept⟩)
      · intro h j
        obtain ⟨hdiscards, hbefore⟩ := h hseen
        refine ⟨fun hrecent => mem_remember.mpr ⟨?_, fun hj => hdiscards j hj hrecent⟩, fun hraised hmem => ?_⟩
        · rcases recentlyProcessed_cons hrecent with ⟨rfl, _⟩ | hold
          · exact .inl rfl
          · exact .inr ((hexact j).1 hold)
        · obtain ⟨hin, hkept⟩ := mem_remember.mp hmem
          rcases raisedLast_cons.mp hraised with ⟨rfl, hout⟩ | ⟨hold, hdup⟩
          · exact hkept (hbefore hout)
          · rcases hin with rfl | hin
            · exact d.processing.outcome_ne_duplicate (hdup rfl)
            · exact (hexact j).2 hold hin

/-- An id may be discarded as soon as its event is processed. -/
theorem just_processed_discarded {event : Event I} (hd : d.identified = some (event, i)) (hnew : i ∉ s.seenEventIds)
    (hfull : s.seenEventIds.length = SEEN_EVENT_IDS_MAX) (horder : d.order = i :: s.seenEventIds)
    (hprocessed : d.processing.outcome = .processed) (hexact : s.Exact) (hs : step s d = some s') : ¬ s'.Exact := by
  rw [exact_step_iff hexact hs]
  intro hkeeps
  have hover : SEEN_EVENT_IDS_MAX < (i :: s.seenEventIds).length := by
    rw [List.length_cons, hfull]
    exact Nat.lt_succ_self _
  have hown : i ∈ discarded s.seenEventIds i d.order := by
    rw [discarded, if_pos hover, horder]
    exact List.mem_cons_self
  refine (hkeeps event i hd hnew).1 i hown ⟨[], s.history, ?_, ?_⟩
  · rw [hprocessed]
    rfl
  · simp

end Webhook

/-- **Deliveries are answered exactly** in every state of a sequence of them,
exactly when each of them meets its condition. -/
theorem exact_iff {I : Type} [DecidableEq I] (ds : List (Delivery I)) :
    (∀ s, Passes step ({} : State I) ds s → s.Exact) ↔
      ∀ s d s', Takes step ({} : State I) ds s d s' → d.Keeps s :=
  always_iff (I := fun _ => True) (fun _ _ _ _ _ _ => trivial) (fun _ _ _ _ hexact hs => exact_step_iff hexact hs)
    trivial (exact_iff_seen.mpr fun _ =>
      ⟨fun ⟨_, _, h, _⟩ => by simp at h, fun ⟨_, _, h, _⟩ => by simp at h⟩) ds

/-- The log context of event 7 cannot be fetched for a reason the alerter does
not expect. -/
def failing : Delivery Nat :=
  { body := .object { type := "disk.full".toList, id := .id 7 }, processing := { channels := none } }

/-- Delivered again, it is answered as a duplicate. -/
theorem retry_answered_duplicate :
    ∃ s, Passes step ({} : State Nat) [failing] s ∧ RaisedLast s.history 7 ∧
      (webhook s failing).map Prod.snd = some { response := .duplicate 7 } ∧ ¬ s.Exact := by
  have hs : exec step ({} : State Nat) [failing] = some ⟨[7], [(7, .raisedBefore)]⟩ := by decide
  have hraised : RaisedLast [((7 : Nat), Outcome.raisedBefore)] 7 := ⟨[], [], rfl, fun _ he => nomatch he⟩
  refine ⟨_, passes_of_exec hs, hraised, by decide, fun hexact => ?_⟩
  exact (exact_iff_seen.mp hexact 7).2 hraised (by decide)

end ContextBroker.AlertDedup
