import Mathlib.Data.List.Basic

/-!
# Open transactions under row locks

The writes of open transactions over a committed store. A write locks what it
touches, in one of three modes (those of Postgres' row locks: a referenced
row is held in `keyShare`, an updated one in `noKeyUpdate`, a deleted or
newly keyed one in `forUpdate`); `issue` is refused while a lock of another
transaction conflicts, so that the statement has to wait. A commit applies a
transaction's writes in the order they were issued, a rollback drops them.

Stores `S`, writes `W`, lockable things `R` and transactions `T` are
arbitrary. `Compatible`: the writes of two open transactions never conflict;
every operation keeps it.
-/
namespace ContextBroker.Transactions

inductive Mode where
  | keyShare | noKeyUpdate | forUpdate
  deriving DecidableEq, Repr

def Mode.conflicts : Mode → Mode → Bool
  | .forUpdate, _ => true
  | _, .forUpdate => true
  | .noKeyUpdate, .noKeyUpdate => true
  | _, _ => false

theorem Mode.conflicts_comm (a b : Mode) : a.conflicts b = b.conflicts a := by
  cases a <;> cases b <;> rfl

/-- What the writes do to the store, and what they lock. -/
structure Kind (S W R : Type) where
  apply : S → W → S
  locks : W → List (R × Mode)

/-- The committed store and the writes of the open transactions, as issued. -/
structure Server (T S W : Type) where
  committed : S
  pending : List (T × W) := []

variable {T S W R : Type}

section Operations

variable [DecidableEq T] [DecidableEq R] (k : Kind S W R)

def Kind.conflict (w w' : W) : Bool :=
  (k.locks w).any fun l => (k.locks w').any fun l' => l.1 == l'.1 && l.2.conflicts l'.2

namespace Server

/-- The writes of transaction `t`. -/
def writesOf (srv : Server T S W) (t : T) : List W :=
  srv.pending.filterMap fun p => if p.1 = t then some p.2 else none

/-- Another transaction's lock is in the way of `w`. -/
def waits (srv : Server T S W) (t : T) (w : W) : Bool :=
  srv.pending.any fun p => p.1 != t && k.conflict w p.2

def issue (srv : Server T S W) (t : T) (w : W) : Option (Server T S W) :=
  if srv.waits k t w then none else some { srv with pending := srv.pending ++ [(t, w)] }

/-- The writes of `t` are over, and with them their locks. -/
def rollback (srv : Server T S W) (t : T) : Server T S W :=
  { srv with pending := srv.pending.filter (·.1 ≠ t) }

def commit (srv : Server T S W) (t : T) : Server T S W :=
  { srv.rollback t with committed := (srv.writesOf t).foldl k.apply srv.committed }

/-- No two transactions hold conflicting locks. -/
def Compatible (srv : Server T S W) : Prop :=
  ∀ p ∈ srv.pending, ∀ q ∈ srv.pending, p.1 ≠ q.1 → k.conflict p.2 q.2 = false

end Server

end Operations

/-! ## Conflicts -/

section

variable [DecidableEq R] {k : Kind S W R} {w w' : W}

theorem Kind.conflict_iff :
    k.conflict w w' = true ↔ ∃ r m m', (r, m) ∈ k.locks w ∧ (r, m') ∈ k.locks w' ∧ m.conflicts m' = true := by
  simp only [Kind.conflict, List.any_eq_true, Bool.and_eq_true, beq_iff_eq]
  constructor
  · intro ⟨⟨r, m⟩, h, ⟨r', m'⟩, h', heq, hc⟩
    obtain rfl : r = r' := heq
    exact ⟨r, m, m', h, h', hc⟩
  · intro ⟨r, m, m', h, h', hc⟩
    exact ⟨(r, m), h, (r, m'), h', rfl, hc⟩

theorem Kind.conflict_comm (w w' : W) : k.conflict w w' = k.conflict w' w := by
  rw [Bool.eq_iff_iff, Kind.conflict_iff, Kind.conflict_iff]
  constructor
  · intro ⟨r, m, m', h, h', hc⟩
    exact ⟨r, m', m, h', h, by rw [Mode.conflicts_comm, hc]⟩
  · intro ⟨r, m, m', h, h', hc⟩
    exact ⟨r, m', m, h', h, by rw [Mode.conflicts_comm, hc]⟩

end

/-! ## The operations -/

namespace Server

section

variable [DecidableEq T] {srv srv' : Server T S W} {t t' : T} {w : W}

theorem mem_writesOf : w ∈ srv.writesOf t ↔ (t, w) ∈ srv.pending := by
  simp only [writesOf, List.mem_filterMap, Option.ite_none_right_eq_some, Option.some.injEq]
  constructor
  · rintro ⟨⟨t', w'⟩, hmem, rfl, rfl⟩
    exact hmem
  · intro h
    exact ⟨(t, w), h, rfl, rfl⟩

theorem writesOf_rollback (srv : Server T S W) (t : T) : (srv.rollback t).writesOf t = [] := by
  refine List.eq_nil_iff_forall_not_mem.mpr fun w hw => ?_
  simpa [rollback] using mem_writesOf.mp hw

theorem writesOf_rollback_of_ne (srv : Server T S W) (h : t' ≠ t) :
    (srv.rollback t).writesOf t' = srv.writesOf t' := by
  simp only [writesOf, rollback, List.filterMap_filter]
  refine List.filterMap_congr fun p _ => ?_
  by_cases hp : p.1 = t'
  · rw [if_pos (by simp [hp, h])]
  · rw [if_neg hp]
    split <;> rfl

variable [DecidableEq R] {k : Kind S W R}

theorem issue_eq_some : srv.issue k t w = some srv' ↔
    srv.waits k t w = false ∧ srv' = { srv with pending := srv.pending ++ [(t, w)] } := by
  unfold issue
  split <;> rename_i h
  · simp [h]
  · simp [Bool.eq_false_iff.mpr h, eq_comm]

theorem committed_issue (h : srv.issue k t w = some srv') : srv'.committed = srv.committed := by
  obtain ⟨_, rfl⟩ := issue_eq_some.mp h
  rfl

theorem writesOf_issue (h : srv.issue k t w = some srv') : srv'.writesOf t = srv.writesOf t ++ [w] := by
  obtain ⟨_, rfl⟩ := issue_eq_some.mp h
  simp [writesOf, List.filterMap_append]

theorem writesOf_issue_of_ne (h : srv.issue k t w = some srv') (hne : t' ≠ t) :
    srv'.writesOf t' = srv.writesOf t' := by
  obtain ⟨_, rfl⟩ := issue_eq_some.mp h
  simp [writesOf, List.filterMap_append, Ne.symm hne]

/-! ## Compatibility -/

theorem Compatible.apart (h : srv.Compatible k) (hne : t ≠ t') {w w' : W} (hw : w ∈ srv.writesOf t)
    (hw' : w' ∈ srv.writesOf t') : k.conflict w w' = false :=
  h (t, w) (mem_writesOf.mp hw) (t', w') (mem_writesOf.mp hw') hne

theorem Compatible.issue (h : srv.Compatible k) (hissue : srv.issue k t w = some srv') :
    srv'.Compatible k := by
  obtain ⟨hwaits, rfl⟩ := issue_eq_some.mp hissue
  have hfree : ∀ p ∈ srv.pending, p.1 ≠ t → k.conflict w p.2 = false := by
    intro p hp hne
    simpa [hne] using List.any_eq_false.mp hwaits p hp
  intro p hp q hq hne
  rcases List.mem_append.mp hp with hp | hp <;> rcases List.mem_append.mp hq with hq | hq
  · exact h p hp q hq hne
  · obtain rfl := List.mem_singleton.mp hq
    rw [Kind.conflict_comm]
    exact hfree p hp hne
  · obtain rfl := List.mem_singleton.mp hp
    exact hfree q hq hne.symm
  · obtain rfl := List.mem_singleton.mp hp
    obtain rfl := List.mem_singleton.mp hq
    exact absurd rfl hne

theorem Compatible.rollback (h : srv.Compatible k) (t : T) : (srv.rollback t).Compatible k :=
  fun p hp q hq => h p (List.mem_of_mem_filter hp) q (List.mem_of_mem_filter hq)

theorem Compatible.commit (h : srv.Compatible k) (t : T) : (srv.commit k t).Compatible k := h.rollback t

/-! ## A transaction with the server to itself -/

theorem issue_alone (db : S) (ws : List W) (t : T) (w : W) :
    (⟨db, ws.map (t, ·)⟩ : Server T S W).issue k t w = some ⟨db, (ws ++ [w]).map (t, ·)⟩ := by
  refine issue_eq_some.mpr ⟨List.any_eq_false.mpr fun p hp => ?_, by simp⟩
  obtain ⟨w', _, rfl⟩ := List.mem_map.mp hp
  simp

omit [DecidableEq R] in
theorem commit_alone (db : S) (ws : List W) (t : T) :
    (⟨db, ws.map (t, ·)⟩ : Server T S W).commit k t = ⟨ws.foldl k.apply db, []⟩ := by
  have hws : (⟨db, ws.map (t, ·)⟩ : Server T S W).writesOf t = ws := by
    simp [writesOf, List.filterMap_map]
  rw [commit, hws]
  simp [rollback]

end

end Server

end ContextBroker.Transactions
