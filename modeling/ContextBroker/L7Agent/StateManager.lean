import ContextBroker.Core.LTS
import ContextBroker.L1Data.Schema
import Mathlib.Logic.Function.Basic

/-!
# The Imperator's conversation id

`get_conversation_id` checks the conversation in memory and, if it has been
deleted, creates another, keeps its id and writes it to the state file, each
behind an await of its own and without a lock. `step` takes one call to its
next await, or deletes the current conversation.

`agreed_of_orderly`: memory, file, replies and tables agree once all calls
have finished, in every run in which a call overwrites the id in memory only
while that conversation is gone, and the file never gets another id than that
in memory without the right one to follow (`Orderly`).
-/
namespace ContextBroker.StateManager

open LTS

/-! ## Conversations -/

/-- The rows of conversations; ids are drawn once. -/
structure Conversations where
  ids : List Id := []
  nextId : Id := 0
  fresh : ∀ id ∈ ids, id < nextId

/-- mirrors state_manager.py:126-143 -/
def Conversations.create (db : Conversations) : Conversations where
  ids := db.ids ++ [db.nextId]
  nextId := db.nextId + 1
  fresh := by
    intro id hid
    rcases List.mem_append.mp hid with h | h
    · exact Nat.lt_succ_of_lt (db.fresh id h)
    · exact List.mem_singleton.mp h ▸ Nat.lt_succ_self _

def Conversations.delete (db : Conversations) (id : Id) : Conversations where
  ids := db.ids.filter (· ≠ id)
  nextId := db.nextId
  fresh := fun x hx => db.fresh x (List.mem_of_mem_filter hx)

/-! ## Calls -/

/-- Where a call of `get_conversation_id` is. -/
inductive Call where
  | notStarted
  /-- Before the SELECT. -/
  | checking (id : Id)
  | checked (found : Bool)
  /-- Before the INSERT. -/
  | creating
  | created (id : Id)
  /-- Before the write of the state file, the id in memory is set. -/
  | writing (id : Id)
  | written
  | returned (id : Option Id)
  | raised
  deriving DecidableEq, Repr

/-- `open` and `json.dump` may raise an `OSError`, which is logged; after
`open` has truncated the file there is no id to read in it. -/
inductive WriteOutcome where
  | stored | untouched | truncated
  deriving DecidableEq, Repr

structure Manager where
  db : Conversations
  /-- `_conversation_id`. -/
  conversationId : Option Id
  stateFile : Option Id
  call : Nat → Call := fun _ => .notStarted

/-- A step of call `t`, or the deletion of the current conversation. -/
inductive Label where
  | start (t : Nat)
  | select (t : Nat)
  | insert (t : Nat)
  /-- The SELECT or the INSERT raises. -/
  | raise (t : Nat)
  /-- On from the answer to the SELECT. -/
  | decide (t : Nat)
  /-- On from the INSERT. -/
  | assign (t : Nat)
  | write (t : Nat) (outcome : WriteOutcome)
  | finish (t : Nat)
  | delete
  deriving DecidableEq, Repr

/-- mirrors state_manager.py:115-123 -/
def writeStateFile (file : Option Id) (id : Id) : WriteOutcome → Option Id
  | .stored => some id
  | .untouched => file
  | .truncated => none

def Manager.setCall (s : Manager) (t : Nat) (c : Call) : Manager := { s with call := Function.update s.call t c }

/-- mirrors state_manager.py:36-61 -/
def initializeState (saved : Option Id) (db : Conversations) (outcome : WriteOutcome) : Manager :=
  match saved.filter (· ∈ db.ids) with
  | some id => { db, conversationId := some id, stateFile := saved }
  | none =>
    { db := db.create, conversationId := some db.nextId, stateFile := writeStateFile saved db.nextId outcome }

/-- mirrors state_manager.py:63-83 -/
def step (s : Manager) : Label → Option Manager
  | .start t =>
    match s.call t, s.conversationId with
    | .notStarted, none => some (s.setCall t (.returned none))
    | .notStarted, some id => some (s.setCall t (.checking id))
    | _, _ => none
  | .select t =>
    match s.call t with
    | .checking id => some (s.setCall t (.checked (id ∈ s.db.ids)))
    | _ => none
  | .decide t =>
    match s.call t with
    | .checked true => some (s.setCall t (.returned s.conversationId))
    | .checked false => some (s.setCall t .creating)
    | _ => none
  | .insert t =>
    match s.call t with
    | .creating => some ({ s with db := s.db.create }.setCall t (.created s.db.nextId))
    | _ => none
  | .raise t =>
    match s.call t with
    | .checking _ => some (s.setCall t .raised)
    | .creating => some (s.setCall t .raised)
    | _ => none
  | .assign t =>
    match s.call t with
    | .created id => some ({ s with conversationId := some id }.setCall t (.writing id))
    | _ => none
  | .write t outcome =>
    match s.call t with
    | .writing id => some ({ s with stateFile := writeStateFile s.stateFile id outcome }.setCall t .written)
    | _ => none
  | .finish t =>
    match s.call t with
    | .written => some (s.setCall t (.returned s.conversationId))
    | _ => none
  | .delete =>
    match s.conversationId with
    | some id => if id ∈ s.db.ids then some { s with db := s.db.delete id } else none
    | none => none

/-! ## Agreement -/

def Call.finished : Call → Bool
  | .notStarted | .returned _ | .raised => true
  | .checking _ | .checked _ | .creating | .created _ | .writing _ | .written => false

/-- All calls have finished. -/
def Manager.Quiet (s : Manager) : Prop := ∀ t, (s.call t).finished = true

/-- The conversation in memory exists. -/
def Manager.Alive (s : Manager) : Prop := ∃ id ∈ s.db.ids, s.conversationId = some id

def Label.inserts : Label → Option Nat
  | .insert t => some t
  | _ => none

def deletions (ls : List Label) : Nat := ls.count .delete

/-- Replacement conversations. -/
def replacements (ls : List Label) : Nat := (ls.filterMap Label.inserts).length

/-- After the run `ls`. -/
structure Agreed (ls : List Label) (s : Manager) : Prop where
  file : s.stateFile = s.conversationId
  /-- The calls that started after the last deletion return the id in memory. -/
  returned : ∀ pre post, ls = pre ++ post → .delete ∉ post → ∀ t, .start t ∈ post →
    ∀ id, s.call t = .returned id → id = s.conversationId
  alive : s.Alive
  replacements : replacements ls ≤ deletions ls

/-- The write of the id in memory is still to come, from another call than `t`. -/
def Pending (s : Manager) (t : Nat) : Prop := ∃ u id, u ≠ t ∧ s.call u = .writing id ∧ s.conversationId = some id

/-- An id in memory is overwritten while its conversation is gone; the id that
is written is the one in memory, and gets there, or that one is to follow. -/
def Orderly (s : Manager) : Label → Prop
  | .assign _ => ¬ s.Alive
  | .write t outcome => (outcome = .stored ∧ ∀ id, s.call t = .writing id → s.conversationId = some id) ∨ Pending s t
  | _ => True

/-- Nothing was deleted, or a call that meets no database error starts after
the last deletion. -/
def Served (ls : List Label) : Prop :=
  .delete ∉ ls ∨ ∃ pre post t, ls = pre ++ post ∧ .delete ∉ post ∧ .start t ∈ post ∧ .raise t ∉ post

/-! ## One step -/

/-- Ids are drawn once and have one owner. -/
structure Ids (s : Manager) : Prop where
  known : ∃ id, s.conversationId = some id ∧ id < s.db.nextId
  checking : ∀ t id, s.call t = .checking id → id < s.db.nextId
  created : ∀ t id, s.call t = .created id → id ∈ s.db.ids ∧ s.conversationId ≠ some id
  distinct : ∀ t u id, s.call t = .created id → s.call u = .created id → t = u

/-- The file has the id in memory, or will get it. -/
def Filed (s : Manager) : Prop :=
  s.stateFile = s.conversationId ∨ ∃ t id, s.call t = .writing id ∧ s.conversationId = some id

variable {s s' : Manager} {l : Label} {t : Nat}

theorem call_setCall (s : Manager) (t : Nat) (c : Call) (u : Nat) :
    (s.setCall t c).call u = if u = t then c else s.call u := by
  simp [Manager.setCall, Function.update_apply]

/-- Where a call is after a step of call `t`. -/
theorem call_setCall_iff {c x : Call} {u : Nat} :
    (s.setCall t c).call u = x ↔ u = t ∧ c = x ∨ u ≠ t ∧ s.call u = x := by
  rw [call_setCall]
  by_cases h : u = t <;> simp [h]

/-- What a step does. -/
inductive Effect (s : Manager) : Label → Manager → Prop where
  | started (t : Nat) (id : Id) : s.call t = .notStarted → s.conversationId = some id →
    Effect s (.start t) (s.setCall t (.checking id))
  | absent (t : Nat) : s.call t = .notStarted → s.conversationId = none →
    Effect s (.start t) (s.setCall t (.returned none))
  | selected (t : Nat) (id : Id) : s.call t = .checking id →
    Effect s (.select t) (s.setCall t (.checked (id ∈ s.db.ids)))
  | found (t : Nat) : s.call t = .checked true → Effect s (.decide t) (s.setCall t (.returned s.conversationId))
  | missing (t : Nat) : s.call t = .checked false → Effect s (.decide t) (s.setCall t .creating)
  | inserted (t : Nat) : s.call t = .creating →
    Effect s (.insert t) ({ s with db := s.db.create }.setCall t (.created s.db.nextId))
  | raised (t : Nat) : (s.call t).finished = false → (∀ id, s.call t ≠ .created id) → (∀ id, s.call t ≠ .writing id) →
    Effect s (.raise t) (s.setCall t .raised)
  | assigned (t : Nat) (id : Id) : s.call t = .created id →
    Effect s (.assign t) ({ s with conversationId := some id }.setCall t (.writing id))
  | wrote (t : Nat) (id : Id) (outcome : WriteOutcome) : s.call t = .writing id →
    Effect s (.write t outcome)
      ({ s with stateFile := writeStateFile s.stateFile id outcome }.setCall t .written)
  | finished (t : Nat) : s.call t = .written → Effect s (.finish t) (s.setCall t (.returned s.conversationId))
  | deleted (id : Id) : s.conversationId = some id → id ∈ s.db.ids →
    Effect s .delete { s with db := s.db.delete id }

theorem effect_of_step (h : step s l = some s') : Effect s l s' := by
  cases l with
  | start t =>
    simp only [step] at h
    split at h
    · rename_i hcall hid
      exact Option.some.inj h ▸ .absent t hcall hid
    · rename_i id hcall hid
      exact Option.some.inj h ▸ .started t id hcall hid
    · cases h
  | select t =>
    simp only [step] at h
    split at h
    · rename_i id hcall
      exact Option.some.inj h ▸ .selected t id hcall
    · cases h
  | decide t =>
    simp only [step] at h
    split at h
    · rename_i hcall
      exact Option.some.inj h ▸ .found t hcall
    · rename_i hcall
      exact Option.some.inj h ▸ .missing t hcall
    · cases h
  | insert t =>
    simp only [step] at h
    split at h
    · rename_i hcall
      exact Option.some.inj h ▸ .inserted t hcall
    · cases h
  | raise t =>
    simp only [step] at h
    split at h
    · rename_i id hcall
      exact Option.some.inj h ▸ .raised t (by rw [hcall]; rfl) (by simp [hcall]) (by simp [hcall])
    · rename_i hcall
      exact Option.some.inj h ▸ .raised t (by rw [hcall]; rfl) (by simp [hcall]) (by simp [hcall])
    · cases h
  | assign t =>
    simp only [step] at h
    split at h
    · rename_i id hcall
      exact Option.some.inj h ▸ .assigned t id hcall
    · cases h
  | write t outcome =>
    simp only [step] at h
    split at h
    · rename_i id hcall
      exact Option.some.inj h ▸ .wrote t id outcome hcall
    · cases h
  | finish t =>
    simp only [step] at h
    split at h
    · rename_i hcall
      exact Option.some.inj h ▸ .finished t hcall
    · cases h
  | delete =>
    simp only [step] at h
    split at h
    · rename_i id hid
      split at h
      · rename_i hmem
        exact Option.some.inj h ▸ .deleted id hid hmem
      · cases h
    · cases h

/-- A call moves on. -/
theorem Ids.setCall (h : Ids s) {c : Call} (hchecking : ∀ id, c = .checking id → id < s.db.nextId)
    (hcreated : ∀ id, c ≠ .created id) : Ids (s.setCall t c) where
  known := h.known
  checking := by
    intro u id hu
    rcases call_setCall_iff.mp hu with ⟨_, hc⟩ | ⟨_, hu⟩
    · exact hchecking id hc
    · exact h.checking u id hu
  created := by
    intro u id hu
    rcases call_setCall_iff.mp hu with ⟨_, hc⟩ | ⟨_, hu⟩
    · exact absurd hc (hcreated id)
    · exact h.created u id hu
  distinct := by
    intro u v id hu hv
    rcases call_setCall_iff.mp hu with ⟨_, hc⟩ | ⟨_, hu⟩
    · exact absurd hc (hcreated id)
    · rcases call_setCall_iff.mp hv with ⟨_, hc⟩ | ⟨_, hv⟩
      · exact absurd hc (hcreated id)
      · exact h.distinct u v id hu hv

/-- A call inserts a conversation. -/
theorem Ids.insert (h : Ids s) : Ids ({ s with db := s.db.create }.setCall t (.created s.db.nextId)) where
  known := by
    obtain ⟨cur, hcur, hlt⟩ := h.known
    exact ⟨cur, hcur, Nat.lt_succ_of_lt hlt⟩
  checking := by
    intro u id hu
    rcases call_setCall_iff.mp hu with ⟨_, hc⟩ | ⟨_, hu⟩
    · cases hc
    · exact Nat.lt_succ_of_lt (h.checking u id hu)
  created := by
    intro u id hu
    rcases call_setCall_iff.mp hu with ⟨_, hc⟩ | ⟨_, hu⟩
    · obtain rfl := Call.created.inj hc
      obtain ⟨cur, hcur, hlt⟩ := h.known
      refine ⟨List.mem_append_right _ (List.mem_singleton_self _), fun hid => ?_⟩
      obtain rfl := Option.some.inj (hcur.symm.trans hid)
      exact Nat.lt_irrefl _ hlt
    · obtain ⟨hmem, hne⟩ := h.created u id hu
      exact ⟨List.mem_append_left _ hmem, hne⟩
  distinct := by
    intro u v id hu hv
    have hnew : ∀ w, s.call w ≠ .created s.db.nextId :=
      fun w hw => Nat.lt_irrefl _ (s.db.fresh _ (h.created w _ hw).1)
    rcases call_setCall_iff.mp hu with ⟨rfl, hc⟩ | ⟨_, hu⟩
    · obtain rfl := Call.created.inj hc
      rcases call_setCall_iff.mp hv with ⟨rfl, _⟩ | ⟨_, hv⟩
      · rfl
      · exact absurd hv (hnew v)
    · rcases call_setCall_iff.mp hv with ⟨_, hc⟩ | ⟨_, hv⟩
      · obtain rfl := Call.created.inj hc
        exact absurd hu (hnew u)
      · exact h.distinct u v id hu hv

/-- A call takes the id it has created to memory. -/
theorem Ids.assign (h : Ids s) {id : Id} (hcall : s.call t = .created id) :
    Ids ({ s with conversationId := some id }.setCall t (.writing id)) where
  known := ⟨id, rfl, s.db.fresh id (h.created t id hcall).1⟩
  checking := by
    intro u x hu
    rcases call_setCall_iff.mp hu with ⟨_, hc⟩ | ⟨_, hu⟩
    · cases hc
    · exact h.checking u x hu
  created := by
    intro u x hu
    rcases call_setCall_iff.mp hu with ⟨_, hc⟩ | ⟨hne, hu⟩
    · cases hc
    · refine ⟨(h.created u x hu).1, fun hx => hne ?_⟩
      obtain rfl : id = x := Option.some.inj hx
      exact h.distinct u t id hu hcall
  distinct := by
    intro u v x hu hv
    rcases call_setCall_iff.mp hu with ⟨_, hc⟩ | ⟨_, hu⟩
    · cases hc
    · rcases call_setCall_iff.mp hv with ⟨_, hc⟩ | ⟨_, hv⟩
      · cases hc
      · exact h.distinct u v x hu hv

/-- The current conversation is deleted. -/
theorem Ids.delete (h : Ids s) {id : Id} (hid : s.conversationId = some id) : Ids { s with db := s.db.delete id } where
  known := h.known
  checking := h.checking
  created := by
    intro u x hu
    obtain ⟨hx, hne⟩ := h.created u x hu
    refine ⟨List.mem_filter.mpr ⟨hx, decide_eq_true fun hxid => hne ?_⟩, hne⟩
    rw [hid, hxid]
  distinct := h.distinct

/-- **A step keeps the ids apart.** -/
theorem Ids.step (h : Ids s) (he : Effect s l s') : Ids s' := by
  cases he with
  | started t id hcall hid =>
    refine h.setCall (fun x hx => ?_) (by simp)
    obtain ⟨cur, hcur, hlt⟩ := h.known
    obtain rfl := Call.checking.inj hx
    obtain rfl := Option.some.inj (hid.symm.trans hcur)
    exact hlt
  | absent t hcall hid => exact h.setCall (by simp) (by simp)
  | selected t id hcall => exact h.setCall (by simp) (by simp)
  | found t hcall => exact h.setCall (by simp) (by simp)
  | missing t hcall => exact h.setCall (by simp) (by simp)
  | raised t _ _ _ => exact h.setCall (by simp) (by simp)
  | finished t hcall => exact h.setCall (by simp) (by simp)
  | inserted t hcall => exact h.insert
  | assigned t id hcall => exact h.assign hcall
  | wrote t id outcome hcall =>
    have hfile : Ids { s with stateFile := writeStateFile s.stateFile id outcome } :=
      ⟨h.known, h.checking, h.created, h.distinct⟩
    exact hfile.setCall (by simp) (by simp)
  | deleted id hid hmem => exact h.delete hid

/-- A call that is not about to write moves on. -/
theorem Filed.setCall (h : Filed s) {c : Call} (hwas : ∀ id, s.call t ≠ .writing id) : Filed (s.setCall t c) := by
  rcases h with hfile | ⟨u, id, hu, hid⟩
  · exact .inl hfile
  · have hne : u ≠ t := by
      rintro rfl
      exact hwas id hu
    exact .inr ⟨u, id, call_setCall_iff.mpr (.inr ⟨hne, hu⟩), hid⟩

/-- **An orderly step** leaves the file with the id in memory, or with that to
come. -/
theorem Filed.step (h : Filed s) (ho : Orderly s l) (he : Effect s l s') : Filed s' := by
  cases he with
  | started t id hcall _ => exact h.setCall (by simp [hcall])
  | absent t hcall _ => exact h.setCall (by simp [hcall])
  | selected t id hcall => exact h.setCall (by simp [hcall])
  | found t hcall => exact h.setCall (by simp [hcall])
  | missing t hcall => exact h.setCall (by simp [hcall])
  | raised t _ _ hwriting => exact h.setCall hwriting
  | finished t hcall => exact h.setCall (by simp [hcall])
  | inserted t hcall =>
    have hdb : Filed { s with db := s.db.create } := h
    exact hdb.setCall (by simp [hcall])
  | assigned t id hcall => exact .inr ⟨t, id, call_setCall_iff.mpr (.inl ⟨rfl, rfl⟩), rfl⟩
  | wrote t id outcome hcall =>
    rcases ho with ⟨rfl, hcur⟩ | ⟨u, x, hne, hu, hx⟩
    · exact .inl (hcur id hcall).symm
    · exact .inr ⟨u, x, call_setCall_iff.mpr (.inr ⟨hne, hu⟩), hx⟩
  | deleted id hid hmem => exact h

/-! ## After the last deletion -/

/-- A call that started after the last deletion: once it has got past its
check, the conversation in memory exists and stays. -/
def Settled (s : Manager) : Call → Prop
  | .checking id => id ∈ s.db.ids → s.conversationId = some id
  | .checked true | .writing _ | .written => s.Alive
  | .returned id => s.Alive ∧ id = s.conversationId
  | .notStarted | .checked false | .creating | .created _ | .raised => True

theorem Settled.create {c : Call} (hc : ∀ id, c = .checking id → id < s.db.nextId) (h : Settled s c) :
    Settled { s with db := s.db.create } c := by
  have halive : s.Alive → Manager.Alive { s with db := s.db.create } :=
    fun ⟨id, hid, hcur⟩ => ⟨id, List.mem_append_left _ hid, hcur⟩
  cases c with
  | checking id =>
    intro hid
    rcases List.mem_append.mp hid with hid | hnew
    · exact h hid
    · exact absurd (List.mem_singleton.mp hnew) (Nat.ne_of_lt (hc id rfl))
  | checked found =>
    cases found with
    | true => exact halive h
    | false => trivial
  | writing _ | written => exact halive h
  | returned id => exact ⟨halive h.1, h.2⟩
  | notStarted | creating | created _ | raised => trivial

/-- A conversation that is gone is replaced: nobody relies on it. -/
theorem Settled.assign {c : Call} {id : Id} (hgone : ¬ s.Alive) (h : Settled s c) :
    Settled { s with conversationId := some id } c := by
  cases c with
  | checking x => exact fun hx => absurd ⟨x, hx, h hx⟩ hgone
  | checked found =>
    cases found with
    | true => exact absurd h hgone
    | false => trivial
  | writing _ | written => exact absurd h hgone
  | returned id => exact absurd h.1 hgone
  | notStarted | creating | created _ | raised => trivial

/-- **An orderly step without a deletion** keeps every call settled. -/
theorem Settled.step (hids : Ids s) (ho : Orderly s l) (he : Effect s l s') (hl : l ≠ .delete) {t : Nat}
    (h : Settled s (s.call t)) : Settled s' (s'.call t) := by
  -- call `u` moves to `c`
  have hmove : ∀ (s₀ : Manager) {u : Nat} {c : Call}, s₀.call = s.call → (t = u → Settled s₀ c) →
      Settled s₀ (s.call t) → Settled s₀ ((s₀.setCall u c).call t) := by
    intro s₀ u c hcall hu ht
    rw [call_setCall]
    split
    · rename_i htu
      exact hu htu
    · rwa [hcall]
  cases he with
  | started u id hcall hid => exact hmove s rfl (fun _ _ => hid) h
  | absent u hcall hid =>
    obtain ⟨cur, hcur, _⟩ := hids.known
    rw [hcur] at hid
    cases hid
  | selected u id hcall =>
    refine hmove s rfl ?_ h
    rintro rfl
    rw [hcall] at h
    by_cases hmem : id ∈ s.db.ids
    · rw [decide_eq_true hmem]
      exact ⟨id, hmem, h hmem⟩
    · rw [decide_eq_false hmem]
      trivial
  | found u hcall =>
    refine hmove s rfl ?_ h
    rintro rfl
    rw [hcall] at h
    exact ⟨h, rfl⟩
  | missing u hcall => exact hmove s rfl (fun _ => trivial) h
  | raised u _ _ _ => exact hmove s rfl (fun _ => trivial) h
  | finished u hcall =>
    refine hmove s rfl ?_ h
    rintro rfl
    rw [hcall] at h
    exact ⟨h, rfl⟩
  | inserted u hcall =>
    exact hmove { s with db := s.db.create } rfl (fun _ => trivial) (h.create fun id hid => hids.checking t id hid)
  | assigned u id hcall =>
    exact hmove { s with conversationId := some id } rfl
      (fun _ => ⟨id, (hids.created u id hcall).1, rfl⟩) (h.assign ho)
  | wrote u id outcome hcall =>
    refine hmove { s with stateFile := writeStateFile s.stateFile id outcome } rfl ?_ h
    rintro rfl
    rw [hcall] at h
    exact h
  | deleted id hid hmem => exact absurd rfl hl

/-! ## Counting -/

instance (s : Manager) : Decidable s.Alive := inferInstanceAs (Decidable (∃ id ∈ s.db.ids, s.conversationId = some id))

def Label.assigns : Label → Option Nat
  | .assign t => some t
  | _ => none

/-- The deleted conversation that nothing has replaced yet. -/
def gone (s : Manager) : Nat := if s.Alive then 0 else 1

/-- The row of call `t` that has not got to memory yet. -/
def inHand (t : Nat) (s : Manager) : Nat :=
  match s.call t with
  | .created _ => 1
  | _ => 0

theorem gone_create (hids : Ids s) : gone { s with db := s.db.create } = gone s := by
  obtain ⟨cur, hcur, hlt⟩ := hids.known
  have halive : Manager.Alive { s with db := s.db.create } ↔ s.Alive := by
    constructor
    · intro ⟨id, hid, hcur'⟩
      obtain rfl := Option.some.inj (hcur.symm.trans hcur')
      rcases List.mem_append.mp hid with hid | hnew
      · exact ⟨cur, hid, hcur⟩
      · exact absurd (List.mem_singleton.mp hnew) (Nat.ne_of_lt hlt)
    · intro ⟨id, hid, hcur'⟩
      exact ⟨id, List.mem_append_left _ hid, hcur'⟩
  simp only [gone, halive]

/-- Every deletion is made up for by one assignment at most. -/
theorem gone_step (hids : Ids s) (ho : Orderly s l) (he : Effect s l s') :
    (l == .delete).toNat + gone s = l.assigns.isSome.toNat + gone s' := by
  cases he with
  | started | absent | selected | found | missing | raised | finished | wrote => rfl
  | inserted u hcall =>
    have hgone := gone_create hids
    exact (Nat.zero_add _).trans (hgone.symm.trans (Nat.zero_add _).symm)
  | assigned u id hcall =>
    have hbefore : gone s = 1 := if_neg ho
    have hafter : gone ({ s with conversationId := some id }.setCall u (.writing id)) = 0 :=
      if_pos ⟨id, (hids.created u id hcall).1, rfl⟩
    rw [hbefore, hafter]
    rfl
  | deleted id hid hmem =>
    have hbefore : gone s = 0 := if_pos ⟨id, hmem, hid⟩
    have hafter : gone { s with db := s.db.delete id } = 1 := by
      refine if_neg ?_
      intro ⟨x, hx, hcur⟩
      obtain rfl := Option.some.inj (hid.symm.trans hcur)
      exact of_decide_eq_true (List.mem_filter.mp hx).2 rfl
    rw [hbefore, hafter]
    rfl

/-- Every row a call has inserted gets to memory, or is still in its hand. -/
theorem inHand_step (he : Effect s l s') (t : Nat) :
    (l.inserts == some t).toNat + inHand t s = (l.assigns == some t).toNat + inHand t s' := by
  cases he with
  | started u _ hcall _ | absent u hcall _ | selected u _ hcall | found u hcall | missing u hcall | finished u hcall
  | inserted u hcall | assigned u _ hcall | wrote u _ _ hcall =>
    by_cases hut : t = u
    · subst hut
      simp [inHand, call_setCall, hcall, Label.inserts, Label.assigns]
    · simp [inHand, call_setCall, hut, Ne.symm hut, Label.inserts, Label.assigns]
  | raised u _ hcreated _ =>
    by_cases hut : t = u
    · subst hut
      have hbefore : inHand t s = 0 := by
        unfold inHand
        split
        · rename_i id hcall
          exact absurd hcall (hcreated id)
        · rfl
      have hafter : inHand t (s.setCall t .raised) = 0 := by simp [inHand, call_setCall]
      rw [hbefore, hafter]
      rfl
    · simp [inHand, call_setCall, hut, Label.inserts, Label.assigns]
  | deleted _ _ _ => rfl

/-! ## Runs -/

/-- Before the first call. -/
structure Ready (s : Manager) : Prop where
  ids : Ids s
  filed : Filed s
  alive : s.Alive
  idle : ∀ t, s.call t = .notStarted

theorem initializeState_ready {saved : Option Id} {db : Conversations} {outcome : WriteOutcome}
    (h : (∃ id ∈ db.ids, saved = some id) ∨ outcome = .stored) : Ready (initializeState saved db outcome) := by
  unfold initializeState
  split
  · rename_i id hsaved
    obtain ⟨hsome, hmem⟩ := Option.filter_eq_some_iff.mp hsaved
    have hmem : id ∈ db.ids := of_decide_eq_true hmem
    refine ⟨⟨⟨id, rfl, db.fresh id hmem⟩, ?_, ?_, ?_⟩, .inl hsome, ⟨id, hmem, rfl⟩, fun _ => rfl⟩ <;> simp
  · rename_i hnone
    have hstored : outcome = .stored := by
      refine h.resolve_left ?_
      rintro ⟨id, hid, rfl⟩
      simp [hid] at hnone
    subst hstored
    refine ⟨⟨⟨db.nextId, rfl, Nat.lt_succ_self _⟩, ?_, ?_, ?_⟩, .inl rfl,
      ⟨db.nextId, List.mem_append_right _ (List.mem_singleton_self _), rfl⟩, fun _ => rfl⟩ <;> simp

/-- A call that starts has not started yet. -/
theorem notStarted_of_start : ∀ {ls : List Label} {s s' : Manager} {t : Nat},
    exec step s ls = some s' → .start t ∈ ls → s.call t = .notStarted
  | l :: ls, s, s', t, hexec, hstart => by
    obtain ⟨u, hu, hrest⟩ := Option.bind_eq_some_iff.mp hexec
    have he := effect_of_step hu
    by_cases hl : l = .start t
    · subst hl
      cases he with
      | started _ _ hcall _ => exact hcall
      | absent _ hcall _ => exact hcall
    · have hcall := notStarted_of_start hrest ((List.mem_cons.mp hstart).resolve_left (Ne.symm hl))
      cases he with
      | deleted _ _ _ => exact hcall
      | started | absent | selected | found | missing | inserted | raised | assigned | wrote | finished =>
        rcases call_setCall_iff.mp hcall with ⟨_, hc⟩ | ⟨_, hcall⟩
        · cases hc
        · exact hcall

/-- A call that has started and met no error. -/
def Underway (c : Call) : Prop := c ≠ .notStarted ∧ c ≠ .raised

theorem underway_step (he : Effect s l s') (hraise : l ≠ .raise t) (h : l = .start t ∨ Underway (s.call t)) :
    Underway (s'.call t) := by
  have hmove : ∀ (s₀ : Manager) {u : Nat} {c : Call}, Underway c → (t ≠ u → Underway (s₀.call t)) →
      Underway ((s₀.setCall u c).call t) := by
    intro s₀ u c hc ht
    rw [call_setCall]
    split
    · exact hc
    · rename_i htu
      exact ht htu
  cases he with
  | started u _ _ _ | absent u _ _ =>
    exact hmove s (by simp [Underway]) fun htu => h.resolve_left fun hl => htu (Label.start.inj hl).symm
  | selected u _ _ | found u _ | missing u _ | finished u _ | inserted u _ | assigned u _ _ | wrote u _ _ _ =>
    exact hmove _ (by simp [Underway]) fun _ => h.resolve_left nofun
  | raised u _ _ _ =>
    have htu : t ≠ u := fun htu => hraise (htu ▸ rfl)
    rw [call_setCall, if_neg htu]
    exact h.resolve_left nofun
  | deleted _ _ _ => exact h.resolve_left nofun

/-- A call that starts and meets no error returns. -/
theorem underway_of_exec : ∀ {ls : List Label} {s s' : Manager}, exec step s ls = some s' → .raise t ∉ ls →
    .start t ∈ ls ∨ Underway (s.call t) → Underway (s'.call t)
  | [], s, s', hexec, _, h => by
    obtain rfl := Option.some.inj hexec
    exact h.resolve_left List.not_mem_nil
  | l :: ls, s, s', hexec, hraise, h => by
    obtain ⟨u, hu, hrest⟩ := Option.bind_eq_some_iff.mp hexec
    have hrest' : .raise t ∉ ls := fun hmem => hraise (List.mem_cons_of_mem _ hmem)
    have hl : l ≠ .raise t := fun hl => hraise (hl ▸ List.mem_cons_self)
    refine underway_of_exec hrest hrest' ?_
    rcases h with hstart | hcall
    · rcases List.mem_cons.mp hstart with hfirst | hlater
      · exact .inr (underway_step (effect_of_step hu) hl (.inl hfirst.symm))
      · exact .inl hlater
    · exact .inr (underway_step (effect_of_step hu) hl (.inr hcall))

theorem returned_of_quiet (hquiet : s.Quiet) (h : Underway (s.call t)) : ∃ id, s.call t = .returned id := by
  have hfinished := hquiet t
  cases hcall : s.call t with
  | returned id => exact ⟨id, rfl⟩
  | notStarted => exact absurd hcall h.1
  | raised => exact absurd hcall h.2
  | checking | checked | creating | created | writing | written =>
    rw [hcall] at hfinished
    cases hfinished

/-- Nor does a call move that nobody has started. -/
theorem idle_of_exec : ∀ {ls : List Label} {s s' : Manager}, exec step s ls = some s' → .start t ∉ ls →
    s.call t = .notStarted → s'.call t = .notStarted
  | [], s, s', hexec, _, h => by
    obtain rfl := Option.some.inj hexec
    exact h
  | l :: ls, s, s', hexec, hstart, h => by
    obtain ⟨u, hu, hrest⟩ := Option.bind_eq_some_iff.mp hexec
    have hrest' : .start t ∉ ls := fun hmem => hstart (List.mem_cons_of_mem _ hmem)
    refine idle_of_exec hrest hrest' ?_
    have he := effect_of_step hu
    cases he with
    | deleted _ _ _ => exact h
    | started v _ _ _ | absent v _ _ =>
      rw [call_setCall, if_neg fun htv : t = v => hstart (htv ▸ List.mem_cons_self)]
      exact h
    | selected v _ hcall | found v hcall | missing v hcall | finished v hcall | inserted v hcall | assigned v _ hcall
    | wrote v _ _ hcall | raised v hcall _ _ =>
      have htv : t ≠ v := by
        rintro rfl
        rw [h] at hcall
        cases hcall
      rw [call_setCall, if_neg htv]
      exact h

section

variable {s₀ s : Manager} {ls : List Label}

/-- All calls have finished if those of the run have. -/
theorem quiet_of_exec (h₀ : Ready s₀) (hexec : exec step s₀ ls = some s)
    (h : ∀ t, .start t ∈ ls → (s.call t).finished = true) : s.Quiet := by
  intro t
  by_cases hstart : .start t ∈ ls
  · exact h t hstart
  · rw [idle_of_exec hexec hstart (h₀.idle t)]
    rfl

theorem ids_of_exec (h₀ : Ids s₀) (hexec : exec step s₀ ls = some s) : Ids s :=
  exec_inv (C := fun _ _ => True) (fun _ _ _ h _ hs => h.step (effect_of_step hs)) hexec (fun _ _ _ _ => trivial) h₀

/-- A call that started after the last deletion. -/
theorem settled_of_exec (h₀ : Ids s₀) (hexec : exec step s₀ ls = some s)
    (horderly : ∀ u l u', Takes step s₀ ls u l u' → Orderly u l) (hdelete : .delete ∉ ls) {t : Nat}
    (hstart : .start t ∈ ls) : Settled s (s.call t) := by
  have hinv := exec_inv (I := fun s => Ids s ∧ Settled s (s.call t)) (C := fun s l => Orderly s l ∧ l ≠ .delete)
    (fun _ _ _ h hC hs => ⟨h.1.step (effect_of_step hs), h.2.step h.1 hC.1 (effect_of_step hs) hC.2⟩) hexec
    (fun u l u' htakes => ⟨horderly u l u' htakes, fun hl => hdelete (hl ▸ htakes.mem)⟩)
  refine (hinv ⟨h₀, ?_⟩).2
  rw [notStarted_of_start hexec hstart]
  trivial

/-- The assignments of a run. -/
theorem deletions_balance (h₀ : Ready s₀) (hexec : exec step s₀ ls = some s)
    (horderly : ∀ u l u', Takes step s₀ ls u l u' → Orderly u l) :
    deletions ls = (ls.filterMap Label.assigns).length + gone s := by
  have hbalance := exec_balance (I := Ids) (C := Orderly) (fun _ _ _ h _ hs => h.step (effect_of_step hs))
    (fun _ _ _ h ho hs => gone_step h ho (effect_of_step hs)) hexec horderly h₀.ids
  have hstart : gone s₀ = 0 := if_pos h₀.alive
  rw [hstart] at hbalance
  rw [List.length_filterMap_eq_countP]
  exact hbalance

/-- The rows of the calls of a run that has come to rest. -/
theorem replacements_eq (h₀ : Ready s₀) (hexec : exec step s₀ ls = some s) (hquiet : s.Quiet) :
    replacements ls = (ls.filterMap Label.assigns).length := by
  refine List.Perm.length_eq (List.perm_iff_count.mpr fun t => ?_)
  have hbalance := exec_balance (I := fun _ => True) (C := fun _ _ => True) (fun _ _ _ _ _ _ => trivial)
    (fun _ _ _ _ _ hs => inHand_step (effect_of_step hs) t) hexec (fun _ _ _ _ => trivial) trivial
  have hstart : inHand t s₀ = 0 := by rw [inHand, h₀.idle t]
  have hend : inHand t s = 0 := by
    have hfinished := hquiet t
    unfold inHand
    split
    · rename_i hcall
      rw [hcall] at hfinished
      cases hfinished
    · rfl
  rw [hstart, hend] at hbalance
  rw [List.count_filterMap, List.count_filterMap]
  exact hbalance

end

/-- **The conversation id is agreed** once all calls have finished, in every run
from start-up on whose steps are orderly. -/
theorem agreed_of_orderly (saved : Option Id) (db : Conversations) (outcome : WriteOutcome) (ls : List Label)
    (s : Manager) (hstarted : (∃ id ∈ db.ids, saved = some id) ∨ outcome = .stored)
    (hexec : exec step (initializeState saved db outcome) ls = some s)
    (horderly : ∀ u l u', Takes step (initializeState saved db outcome) ls u l u' → Orderly u l)
    (hserved : Served ls) (hquiet : s.Quiet) : Agreed ls s := by
  have h₀ := initializeState_ready hstarted
  have hsettled : ∀ pre post, ls = pre ++ post → .delete ∉ post → ∀ t, .start t ∈ post →
      Settled s (s.call t) ∧ (.raise t ∉ post → Underway (s.call t)) := by
    rintro pre post rfl hdelete t hstart
    rw [exec_append] at hexec
    obtain ⟨s₁, hpre, hpost⟩ := Option.bind_eq_some_iff.mp hexec
    have hsettled := settled_of_exec (ids_of_exec h₀.ids hpre) hpost
      (fun u l u' htakes => horderly u l u' (htakes.append_right hpre)) hdelete hstart
    exact ⟨hsettled, fun hraise => underway_of_exec hpost hraise (.inl hstart)⟩
  have hbalance := deletions_balance h₀ hexec horderly
  constructor
  case file =>
    have hfiled := exec_inv (I := Filed) (fun _ _ _ h ho hs => h.step ho (effect_of_step hs)) hexec horderly h₀.filed
    rcases hfiled with hfile | ⟨t, id, hcall, _⟩
    · exact hfile
    · have hfinished := hquiet t
      rw [hcall] at hfinished
      cases hfinished
  case returned =>
    intro pre post hsplit hdelete t hstart id hcall
    have ht := (hsettled pre post hsplit hdelete t hstart).1
    rw [hcall] at ht
    exact ht.2
  case alive =>
    rcases hserved with hnone | ⟨pre, post, t, hsplit, hdelete, hstart, hraise⟩
    · have hzero : deletions ls = 0 := List.count_eq_zero.mpr hnone
      by_contra hdead
      have hgone : gone s = 1 := if_neg hdead
      omega
    · obtain ⟨ht, hunderway⟩ := hsettled pre post hsplit hdelete t hstart
      obtain ⟨id, hcall⟩ := returned_of_quiet hquiet (hunderway hraise)
      rw [hcall] at ht
      exact ht.1
  case replacements =>
    rw [replacements_eq h₀ hexec hquiet]
    omega

/-- Conversation 7, saved. -/
def sampleDb : Conversations := ⟨[7], 8, by simp⟩

/-- It is deleted, and a call replaces it. -/
def replacedOnce : List Label :=
  [.delete, .start 0, .select 0, .decide 0, .insert 0, .assign 0, .write 0 .stored, .finish 0]

/-- `Orderly`, with the id in memory at every write. -/
def orderlyNow (s : Manager) : Label → Bool
  | .assign _ => !decide s.Alive
  | .write t outcome => outcome == .stored && (s.conversationId.any fun id => s.call t == .writing id)
  | _ => true

theorem orderly_of_now (h : orderlyNow s l = true) : Orderly s l := by
  cases l with
  | assign t => simpa [orderlyNow, Orderly] using h
  | write t outcome =>
    simp only [orderlyNow, Bool.and_eq_true, beq_iff_eq, Option.any_eq_true] at h
    obtain ⟨hstored, id, hid, hcall⟩ := h
    refine .inl ⟨hstored, fun x hx => ?_⟩
    rw [hid, Call.writing.inj (hcall.symm.trans hx)]
  | start _ | select _ | insert _ | raise _ | decide _ | finish _ | delete => trivial

theorem agreed_of_orderly_replacedOnce :
    ∃ s, exec step (initializeState (some 7) sampleDb .stored) replacedOnce = some s ∧ Agreed replacedOnce s := by
  have hexec : exec step (initializeState (some 7) sampleDb .stored) replacedOnce = some _ := rfl
  refine ⟨_, hexec, agreed_of_orderly (some 7) sampleDb .stored replacedOnce _ (.inr rfl) hexec (fun u l u' h => ?_)
    (.inr ⟨[.delete], _, 0, rfl, by decide, by decide, by decide⟩)
    (quiet_of_exec (initializeState_ready (.inr rfl)) hexec fun t ht => ?_)⟩
  · exact orderly_of_now (check_of_takes orderlyNow (by decide) h)
  · obtain rfl : t = 0 := by simpa [replacedOnce] using ht
    rfl

/-- Two calls find it gone; the one that assigns last writes first. -/
def replacedTwice : List Label :=
  [.delete, .start 0, .start 1, .select 0, .select 1, .decide 0, .decide 1, .insert 0, .insert 1, .assign 0, .assign 1,
    .write 1 .stored, .write 0 .stored, .finish 0, .finish 1]

theorem agreed_false :
    ¬ ∀ (saved : Option Id) (db : Conversations) (outcome : WriteOutcome) (ls : List Label) (s : Manager),
      (∃ id ∈ db.ids, saved = some id) ∨ outcome = .stored →
        exec step (initializeState saved db outcome) ls = some s → Served ls → s.Quiet → Agreed ls s := by
  intro h
  have hexec : exec step (initializeState (some 7) sampleDb .stored) replacedTwice = some _ := rfl
  have hquiet := quiet_of_exec (initializeState_ready (.inr rfl)) hexec fun t ht => by
    obtain rfl | rfl : t = 0 ∨ t = 1 := by simpa [replacedTwice] using ht
    · rfl
    · rfl
  have hserved : Served replacedTwice := .inr ⟨[.delete], _, 0, rfl, by decide, by decide, by decide⟩
  have hfile : some 8 = some 9 := (h (some 7) sampleDb .stored replacedTwice _ (.inr rfl) hexec hserved hquiet).file
  cases hfile

end ContextBroker.StateManager
