import ContextBroker.L1Data.Schema

/-!
# What each statement changes

Spec lemmas of the statements of `Schema`, one per statement and query: which
rows a query returns afterwards. Later modules cite these and do not unfold
the statements. `Message.core` is a message without its `repeat_count`, the
only column of a stored message that is ever updated.
-/
namespace ContextBroker

open Rows

/-! ## Messages -/

/-- A message without its `repeat_count`. -/
def Message.core (m : Message) : Message := { m with repeatCount := 0 }

@[simp] theorem Message.core_sequenceNumber (m : Message) : m.core.sequenceNumber = m.sequenceNumber :=
  rfl

@[simp] theorem messageTokens_core (m : Message) : messageTokens m.core = messageTokens m := rfl

theorem limitRows_ok {α : Type} {l rows : List α} {n : Int} (h : limitRows l n = .ok rows) :
    0 ≤ n ∧ rows = l.take n.toNat := by
  unfold limitRows at h
  split at h
  · cases h
  · rename_i hn
    exact ⟨Int.not_lt.mp hn, (Except.ok.inj h).symm⟩

theorem Summary.key_inj {r r' : Summary} (h : r.key = r'.key) :
    r.contextWindowId = r'.contextWindowId ∧ r.tier = r'.tier ∧ r.fromSeq = r'.fromSeq ∧
      r.toSeq = r'.toSeq := by
  simpa [Summary.key] using h

namespace Db

variable {db db' : Db}

theorem insertMessage_eq_ok {row : Message} :
    db.insertMessage row = .ok db' ↔
      (db.conversation? row.conversationId).isSome ∧
        (∀ m ∈ db.messagesOf row.conversationId, m.sequenceNumber ≠ row.sequenceNumber) ∧
        db' = { db with messages := db.messages ++ [{ row with id := db.nextId }],
                        nextId := db.nextId + 1 } := by
  unfold insertMessage
  split
  · rename_i h
    simp [Option.isNone_iff_eq_none.mp h]
  · rename_i hc
    have hs : (db.conversation? row.conversationId).isSome := by
      cases h : db.conversation? row.conversationId <;> simp_all
    split
    · rename_i h
      simp only [List.any_eq_true, Bool.and_eq_true, beq_iff_eq] at h
      obtain ⟨m, hm, hmc, hms⟩ := h
      simp only [reduceCtorEq, false_iff, not_and]
      intro _ hne
      exact absurd hms (hne m (List.mem_filter.mpr ⟨hm, by simp [hmc]⟩))
    · rename_i h
      simp only [List.any_eq_true, Bool.and_eq_true, beq_iff_eq, not_exists, not_and] at h
      simp only [Except.ok.injEq, hs, true_and]
      constructor
      · rintro rfl
        refine ⟨fun m hm => ?_, rfl⟩
        obtain ⟨hm, hmc⟩ := List.mem_filter.mp hm
        exact h m hm (by simpa using hmc)
      · rintro ⟨_, rfl⟩
        rfl

theorem messagesOf_append {row : Message} (h : db'.messages = db.messages ++ [row]) (c : Id) :
    db'.messagesOf c = db.messagesOf c ++ if row.conversationId = c then [row] else [] := by
  simp only [messagesOf, h, List.filter_append]
  congr 1
  by_cases h : row.conversationId = c <;> simp [h]

/-! ## Summaries and windows -/

theorem insertSummary_eq_ok {row : Summary} :
    db.insertSummary row = .ok db' ↔
      (∀ r ∈ db.summaries, r.key ≠ row.key) ∧
        db' = { db with summaries := db.summaries ++ [{ row with id := db.nextId }],
                        nextId := db.nextId + 1 } := by
  unfold insertSummary
  split
  · rename_i h
    simp only [List.any_eq_true, beq_iff_eq] at h
    obtain ⟨r, hr, hk⟩ := h
    simp only [reduceCtorEq, false_iff, not_and]
    exact fun hne => absurd hk (hne r hr)
  · rename_i h
    simp only [List.any_eq_true, beq_iff_eq, not_exists, not_and] at h
    constructor
    · intro he
      exact ⟨h, (Except.ok.inj he).symm⟩
    · rintro ⟨_, rfl⟩
      rfl

theorem insertSummary_eq_error {row : Summary} {e : Exn} (h : db.insertSummary row = .error e) :
    e = .uniqueViolationError ∧ ∃ r ∈ db.summaries, r.key = row.key := by
  unfold insertSummary at h
  split at h
  · rename_i hany
    simp only [List.any_eq_true, beq_iff_eq] at hany
    exact ⟨(Except.error.inj h).symm, hany⟩
  · cases h

theorem mem_active {w : Id} {t : Tier} {r : Summary} :
    r ∈ db.active w t ↔
      r ∈ db.summaries ∧ r.contextWindowId = w ∧ r.tier = t ∧ r.isActive = true := by
  simp only [active, summariesOf, List.mem_filter, beq_iff_eq, Bool.and_eq_true, and_assoc]

theorem active_append {row : Summary} (h : db'.summaries = db.summaries ++ [row]) (w : Id)
    (t : Tier) :
    db'.active w t =
      db.active w t ++
        if row.contextWindowId = w ∧ row.tier = t ∧ row.isActive = true then [row] else [] := by
  simp only [active, summariesOf, h, List.filter_append]
  congr 1
  by_cases hw : row.contextWindowId = w <;> by_cases ht : row.tier = t <;>
    by_cases ha : row.isActive = true <;> simp [hw, ht, ha]

theorem keys_insertSummary {row : Summary} (h : db.insertSummary row = .ok db') :
    db'.summaries.map Summary.key = db.summaries.map Summary.key ++ [row.key] := by
  obtain ⟨_, rfl⟩ := insertSummary_eq_ok.mp h
  simp [Summary.key]

/-- Retired rows keep their keys. -/
theorem keys_deactivate (p : Summary → Bool) :
    (db.deactivate p).summaries.map Summary.key = db.summaries.map Summary.key := by
  simp only [deactivate, List.map_map]
  refine List.map_congr_left fun r _ => ?_
  simp only [Function.comp]
  split <;> rfl

theorem active_deactivate (p : Summary → Bool) (w : Id) (t : Tier) :
    (db.deactivate p).active w t = (db.active w t).filter fun r => !p r := by
  simp only [active, summariesOf, deactivate, List.filter_filter]
  induction db.summaries with
  | nil => rfl
  | cons r l ih =>
    simp only [List.map_cons, List.filter_cons, ih]
    by_cases hp : p r = true
    · simp [hp]
    · simp [hp]

theorem window?_stampAssembled (w v : Id) (now : Time) :
    (db.stampAssembled w now).window? v =
      (db.window? v).map fun x => if x.id == w then { x with lastAssembledAt := some now } else x := by
  simp only [window?, stampAssembled]
  induction db.windows with
  | nil => rfl
  | cons x l ih =>
    have hid : (if x.id == w then { x with lastAssembledAt := some now } else x).id = x.id := by
      split <;> rfl
    simp only [List.map_cons, List.find?_cons, hid, ih]
    cases x.id == v <;> rfl

end Db

end ContextBroker
