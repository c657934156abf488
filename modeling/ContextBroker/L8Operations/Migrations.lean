import ContextBroker.Core.LTS
import ContextBroker.L1Data.Schema
import Mathlib.Logic.Function.Basic

/-!
# Schema migrations

Processes that call `run_migrations`, one statement at a time, in any order;
a restart is a further process. Each takes the advisory lock, reads the
version and goes through the migrations above it, one transaction for each.
A statement may raise, and a process may crash at any point: its session
ends, the open transaction is rolled back and the lock is free. A commit
that raises has left nothing.

What a migration does to the schema is its entry in `Database.effects`.

`Inv`: the lock is held exactly by the process between its lock and its
unlock, the effects are those of the migrations up to the recorded version,
and the holder's remaining list is what is above it.
-/
namespace ContextBroker.Migrations

open LTS Rows

/-- An entry of the registry, and a row of schema_migrations. -/
structure Migration where
  version : Nat
  description : Text
  deriving DecidableEq, Repr

/-- mirrors app/migrations.py:665-755 -/
def MIGRATIONS : List Migration :=
  [⟨1, "Initial schema — created by postgres/init.sql".toList⟩,
   ⟨2, "Add participant_id index on context_windows".toList⟩,
   ⟨3, "Add unique constraint on (conversation_id, sequence_number)".toList⟩,
   ⟨4, "Add recipient_id column to conversation_messages".toList⟩,
   ⟨5, "Add flow_id, user_id to conversations".toList⟩,
   ⟨6, "Add content_type, priority, repeat_count to conversation_messages".toList⟩,
   ⟨7, "Unique index on summaries to prevent duplicate rows (M-08)".toList⟩,
   ⟨8, "Mem0 dedup index on mem0_memories (F-19)".toList⟩,
   ⟨9, "Deferred HNSW vector index (G5-41)".toList⟩,
   ⟨10, "Unique constraint on context_windows (conversation_id, participant_id, build_type) (G5-08)".toList⟩,
   ⟨11, "Add last_accessed_at to context_windows".toList⟩,
   ⟨12, "Schema alignment: renames, tool_calls, drops, constraints (ARCH-01/08/09/12/13)".toList⟩,
   ⟨13, "Update context_windows unique constraint: (conversation_id, build_type, max_token_budget) (D-03)".toList⟩,
   ⟨14, "Add system_logs table for Fluent Bit log collection".toList⟩,
   ⟨15, "Add stategraph_packages table for dynamic loading (REQ-001 §10)".toList⟩,
   ⟨16, "Add mem0_memories dedup index (hash+user_id) — from Rogers Fix 2".toList⟩,
   ⟨17, "Add embedding column to system_logs for log vectorization".toList⟩,
   ⟨18, "Add domain_information table for Imperator domain knowledge".toList⟩,
   ⟨19, "Add schedules and schedule_history tables for built-in scheduler".toList⟩,
   ⟨20, "Add last_fired_at to schedules for DB-based coordination".toList⟩,
   ⟨21, "Tier rename: archival tier 1→3, update check constraint (compaction v2)".toList⟩,
   ⟨22, "Create alert_instructions table for alerter sidecar tools".toList⟩,
   ⟨23, "CEA: quality metadata and feedback event tables".toList⟩,
   ⟨24, "CEA: natural-key dedup index and usefulness aggregation index".toList⟩,
   ⟨25, "CEA: fix natural-key dedup to allow multiple facts per utterance (#503)".toList⟩]

/-! ## The database -/

/-- `table`: the rows of schema_migrations, none if there is no such table.
`effects`: the migration functions whose transaction was committed, in the
order of the commits. -/
structure Database where
  table : Option (List Migration)
  effects : List Nat
  deriving DecidableEq, Repr

/-- mirrors app/migrations.py:758-767 -/
def getCurrentSchemaVersion (db : Database) : Nat :=
  match db.table with
  | none => 0
  | some rows => maxOf Migration.version rows

/-- The list `pending` of `run_migrations`. -/
def pendingAbove (registry : List Migration) (current : Nat) : List Migration :=
  registry.filter fun m => current < m.version

/-- `INSERT INTO schema_migrations ... ON CONFLICT (version) DO NOTHING`. -/
def insertRow (rows : List Migration) (m : Migration) : List Migration :=
  if rows.any (·.version == m.version) then rows else rows ++ [m]

/-- The transaction of migration `m` is committed. -/
def Database.commit (db : Database) (m : Migration) : Database :=
  { table := db.table.map (insertRow · m), effects := db.effects ++ [m.version] }

/-- A database at a recorded version: what the migrations up to it do is done. -/
def Database.at (registry : List Migration) (table : Option (List Migration)) : Database where
  table := table
  effects := (registry.filter fun m => m.version ≤ getCurrentSchemaVersion ⟨table, []⟩).map Migration.version

/-! ## run_migrations -/

/-- What `run_migrations` raises: the RuntimeError that names a migration, or
an exception it does not handle. -/
inductive Raised where
  | migrationFailed (m : Migration) (cause : Exn)
  | other (e : Exn)
  deriving DecidableEq, Repr

inductive Outcome where
  | returned
  | raised (r : Raised)
  deriving DecidableEq, Repr

/-- The statement a process is at. `pending` is the head of the loop; the
three after it are in the transaction of `m`. -/
inductive Pc where
  | starting
  | locked
  | pending (ms : List Migration)
  | migrating (m : Migration) (rest : List Migration)
  | recording (m : Migration) (rest : List Migration)
  | committing (m : Migration) (rest : List Migration)
  | releasing (o : Outcome)
  | ended (o : Outcome)
  | crashed
  deriving DecidableEq, Repr

/-- Between `pg_advisory_lock(1)` and the unlock. -/
def Pc.held : Pc → Bool
  | .starting | .ended _ | .crashed => false
  | _ => true

/-- The migration whose transaction is open, or would be opened next. -/
def Pc.working : Pc → Option Migration
  | .pending (m :: _) => some m
  | .migrating m _ | .recording m _ | .committing m _ => some m
  | _ => none

/-- `except (asyncpg.PostgresError, OSError)`. -/
def failure (m : Migration) (e : Exn) : Outcome :=
  if e.caughtBy [.postgresError, .osError] then .raised (.migrationFailed m e) else .raised (.other e)

structure State (P : Type) where
  db : Database
  lock : Option P
  pc : P → Pc

inductive Label (P : Type) where
  | run (p : P) (fault : Option Exn)
  | crash (p : P)
  deriving DecidableEq, Repr

variable {P : Type} [DecidableEq P]

def State.goto (s : State P) (p : P) (pc : Pc) : State P := { s with pc := Function.update s.pc p pc }

/-- Process `p` executes its next statement, which may raise. The lock blocks
while another session holds it.
mirrors app/migrations.py:770-825 -/
def runMigrations (registry : List Migration) (s : State P) (p : P) (fault : Option Exn) : Option (State P) :=
  match s.pc p with
  | .starting =>
    match fault with
    | some e => some (s.goto p (.ended (.raised (.other e))))
    | none => if s.lock = none then some { s.goto p .locked with lock := some p } else none
  | .locked =>
    match fault with
    | some e => some (s.goto p (.releasing (.raised (.other e))))
    | none => some (s.goto p (.pending (pendingAbove registry (getCurrentSchemaVersion s.db))))
  | .pending [] => if fault = none then some (s.goto p (.releasing .returned)) else none
  | .pending (m :: rest) =>
    match fault with
    | some e => some (s.goto p (.releasing (failure m e)))
    | none => some (s.goto p (.migrating m rest))
  | .migrating m rest =>
    match fault with
    | some e => some (s.goto p (.releasing (failure m e)))
    | none => some (s.goto p (.recording m rest))
  | .recording m rest =>
    match fault with
    | some e => some (s.goto p (.releasing (failure m e)))
    | none =>
      -- without the table the INSERT raises UndefinedTableError
      if s.db.table = none then some (s.goto p (.releasing (failure m .postgresError)))
      else some (s.goto p (.committing m rest))
  | .committing m rest =>
    match fault with
    | some e => some (s.goto p (.releasing (failure m e)))
    | none => some { s.goto p (.pending rest) with db := s.db.commit m }
  | .releasing o =>
    -- the connection goes back to the pool either way, which frees the lock
    match fault with
    | some e => some { s.goto p (.ended (.raised (.other e))) with lock := none }
    | none => some { s.goto p (.ended o) with lock := none }
  | .ended _ => none
  | .crashed => none

def step (registry : List Migration) (s : State P) : Label P → Option (State P)
  | .run p fault => runMigrations registry s p fault
  | .crash p =>
    match s.pc p with
    | .ended _ => none
    | .crashed => none
    | _ => some { s.goto p .crashed with lock := if s.lock = some p then none else s.lock }

def start (registry : List Migration) (table : Option (List Migration)) : State P where
  db := Database.at registry table
  lock := none
  pc := fun _ => .starting

/-! ## One step -/

/-- Where a process gets by a step that leaves the database and the lock alone. -/
inductive Moves (registry : List Migration) (db : Database) : Pc → Pc → Prop where
  | refused (e : Exn) : Moves registry db .starting (.ended (.raised (.other e)))
  | unread (e : Exn) : Moves registry db .locked (.releasing (.raised (.other e)))
  | read : Moves registry db .locked (.pending (pendingAbove registry (getCurrentSchemaVersion db)))
  | done : Moves registry db (.pending []) (.releasing .returned)
  | begun (m : Migration) (rest : List Migration) : Moves registry db (.pending (m :: rest)) (.migrating m rest)
  | migrated (m : Migration) (rest : List Migration) : Moves registry db (.migrating m rest) (.recording m rest)
  | recorded (m : Migration) (rest : List Migration) :
    db.table ≠ none → Moves registry db (.recording m rest) (.committing m rest)
  | failed (pc : Pc) (m : Migration) (e : Exn) : pc.working = some m → Moves registry db pc (.releasing (failure m e))

/-- What a step can do. -/
inductive StepCase (registry : List Migration) (s : State P) : State P → Prop where
  | acquired (p : P) : s.pc p = .starting → s.lock = none →
    StepCase registry s { s.goto p .locked with lock := some p }
  | moved (p : P) (pc : Pc) : Moves registry s.db (s.pc p) pc → StepCase registry s (s.goto p pc)
  | committed (p : P) (m : Migration) (rest : List Migration) : s.pc p = .committing m rest →
    StepCase registry s { s.goto p (.pending rest) with db := s.db.commit m }
  | released (p : P) (o o' : Outcome) : s.pc p = .releasing o → (o' = .returned → o = .returned) →
    StepCase registry s { s.goto p (.ended o') with lock := none }
  | crashed (p : P) : (∀ o, s.pc p ≠ .ended o) →
    StepCase registry s { s.goto p .crashed with lock := if s.lock = some p then none else s.lock }

variable {registry : List Migration} {s s' : State P} {l : Label P}

theorem runMigrations_cases {p : P} {fault : Option Exn} (h : runMigrations registry s p fault = some s') :
    StepCase registry s s' := by
  unfold runMigrations at h
  cases hpc : s.pc p with
  | starting =>
    cases fault with
    | some e =>
      obtain rfl := Option.some.inj (by simpa only [hpc] using h)
      exact .moved p _ (hpc ▸ .refused e)
    | none =>
      obtain ⟨hfree, h⟩ := Option.ite_none_right_eq_some.mp (by simpa only [hpc] using h)
      obtain rfl := Option.some.inj h
      exact .acquired p hpc hfree
  | locked =>
    cases fault with
    | some e =>
      obtain rfl := Option.some.inj (by simpa only [hpc] using h)
      exact .moved p _ (hpc ▸ .unread e)
    | none =>
      obtain rfl := Option.some.inj (by simpa only [hpc] using h)
      exact .moved p _ (hpc ▸ .read)
  | pending ms =>
    cases ms with
    | nil =>
      obtain ⟨_, h⟩ := Option.ite_none_right_eq_some.mp (by simpa only [hpc] using h)
      obtain rfl := Option.some.inj h
      exact .moved p _ (hpc ▸ .done)
    | cons m rest =>
      cases fault with
      | some e =>
        obtain rfl := Option.some.inj (by simpa only [hpc] using h)
        exact .moved p _ (.failed _ m e (by rw [hpc]; rfl))
      | none =>
        obtain rfl := Option.some.inj (by simpa only [hpc] using h)
        exact .moved p _ (hpc ▸ .begun m rest)
  | migrating m rest =>
    cases fault with
    | some e =>
      obtain rfl := Option.some.inj (by simpa only [hpc] using h)
      exact .moved p _ (.failed _ m e (by rw [hpc]; rfl))
    | none =>
      obtain rfl := Option.some.inj (by simpa only [hpc] using h)
      exact .moved p _ (hpc ▸ .migrated m rest)
  | recording m rest =>
    cases fault with
    | some e =>
      obtain rfl := Option.some.inj (by simpa only [hpc] using h)
      exact .moved p _ (.failed _ m e (by rw [hpc]; rfl))
    | none =>
      simp only [hpc] at h
      split at h
      · obtain rfl := Option.some.inj h
        exact .moved p _ (.failed _ m .postgresError (by rw [hpc]; rfl))
      · rename_i htable
        obtain rfl := Option.some.inj h
        exact .moved p _ (hpc ▸ .recorded m rest htable)
  | committing m rest =>
    cases fault with
    | some e =>
      obtain rfl := Option.some.inj (by simpa only [hpc] using h)
      exact .moved p _ (.failed _ m e (by rw [hpc]; rfl))
    | none =>
      obtain rfl := Option.some.inj (by simpa only [hpc] using h)
      exact .committed p m rest hpc
  | releasing o =>
    cases fault with
    | some e =>
      obtain rfl := Option.some.inj (by simpa only [hpc] using h)
      exact .released p o _ hpc fun ho => by cases ho
    | none =>
      obtain rfl := Option.some.inj (by simpa only [hpc] using h)
      exact .released p o o hpc id
  | ended o => simp [hpc] at h
  | crashed => simp [hpc] at h

theorem step_cases (h : step registry s l = some s') : StepCase registry s s' := by
  cases l with
  | run p fault => exact runMigrations_cases h
  | crash p =>
    simp only [step] at h
    split at h
    · cases h
    · cases h
    · rename_i hended _
      obtain rfl := Option.some.inj h
      exact .crashed p hended

/-! ## The invariant -/

/-- What a process relies on at each statement. -/
def Sound (registry : List Migration) (db : Database) : Pc → Prop
  | .pending ms => ms = pendingAbove registry (getCurrentSchemaVersion db)
  | .migrating m rest | .recording m rest => m :: rest = pendingAbove registry (getCurrentSchemaVersion db)
  | .committing m rest =>
    m :: rest = pendingAbove registry (getCurrentSchemaVersion db) ∧ db.table ≠ none
  | .releasing .returned | .ended .returned => pendingAbove registry (getCurrentSchemaVersion db) = []
  | _ => True

/-- The effects are those of the migrations up to the recorded version, in
registry order. -/
def Database.Prefix (registry : List Migration) (db : Database) : Prop :=
  db.effects = (registry.filter fun m => m.version ≤ getCurrentSchemaVersion db).map Migration.version

structure Inv (registry : List Migration) (s : State P) : Prop where
  lock : ∀ p, (s.pc p).held = true ↔ s.lock = some p
  effects : s.db.Prefix registry
  sound : ∀ p, Sound registry s.db (s.pc p)

omit [DecidableEq P] in
theorem Inv.start (registry : List Migration) (table : Option (List Migration)) :
    Inv registry (start registry table : State P) where
  lock := fun p => by simp [Migrations.start, Pc.held]
  effects := rfl
  sound := fun _ => trivial

/-- A row for `m` makes its version the recorded one, if it is above. -/
theorem version_commit {db : Database} {m : Migration} (htable : db.table ≠ none)
    (h : getCurrentSchemaVersion db < m.version) : getCurrentSchemaVersion (db.commit m) = m.version := by
  obtain ⟨rows, hrows⟩ := Option.ne_none_iff_exists'.mp htable
  simp only [getCurrentSchemaVersion, hrows] at h
  have hnew : rows.any (fun r => r.version == m.version) = false := by
    rw [List.any_eq_false]
    intro r hr heq
    have hle : r.version ≤ maxOf Migration.version rows := le_maxOf hr
    have := eq_of_beq heq
    omega
  simp only [getCurrentSchemaVersion, Database.commit, hrows, Option.map_some, insertRow, hnew]
  simp
  omega

theorem working_above {pc : Pc} {db : Database} {m : Migration} (hs : Sound registry db pc)
    (h : pc.working = some m) :
    ∃ rest, m :: rest = pendingAbove registry (getCurrentSchemaVersion db) := by
  unfold Pc.working at h
  split at h
  · obtain rfl := Option.some.inj h
    exact ⟨_, hs⟩
  · obtain rfl := Option.some.inj h
    exact ⟨_, hs⟩
  · obtain rfl := Option.some.inj h
    exact ⟨_, hs⟩
  · obtain rfl := Option.some.inj h
    exact ⟨_, hs.1⟩
  · cases h

theorem above_of_pending {n : Nat} {m : Migration} {rest : List Migration}
    (h : m :: rest = pendingAbove registry n) : n < m.version := by
  have hmem : m ∈ pendingAbove registry n := h ▸ List.mem_cons_self
  simpa using (List.mem_filter.mp hmem).2

theorem failure_raised (m : Migration) (e : Exn) : ∃ r, failure m e = .raised r := by
  unfold failure
  split
  · exact ⟨_, rfl⟩
  · exact ⟨_, rfl⟩

theorem Pc.held_of_working {pc : Pc} {m : Migration} (h : pc.working = some m) : pc.held = true := by
  cases pc with
  | pending ms => rfl
  | migrating m rest => rfl
  | recording m rest => rfl
  | committing m rest => rfl
  | starting => cases h
  | locked => cases h
  | releasing o => cases h
  | ended o => cases h
  | crashed => cases h

section

variable {db : Database} {pc pc' : Pc}

theorem Moves.held (h : Moves registry db pc pc') : pc'.held = pc.held := by
  cases h with
  | failed _ m e hworking => exact (Pc.held_of_working hworking).symm
  | _ => rfl

theorem Moves.sound (h : Moves registry db pc pc') (hs : Sound registry db pc) : Sound registry db pc' := by
  cases h with
  | refused e => trivial
  | unread e => trivial
  | read => rfl
  | done => exact Eq.symm hs
  | begun m rest => exact hs
  | migrated m rest => exact hs
  | recorded m rest htable => exact ⟨hs, htable⟩
  | failed _ m e _ =>
    obtain ⟨r, hr⟩ := failure_raised m e
    rw [hr]
    trivial

end

/-- **A commit** adds the effect of the next migration and records its version. -/
theorem commit_next (hasc : Ascending Migration.version registry) {db : Database} {m : Migration}
    {rest : List Migration} (hp : db.Prefix registry)
    (hnext : m :: rest = pendingAbove registry (getCurrentSchemaVersion db)) (htable : db.table ≠ none) :
    (db.commit m).Prefix registry ∧ rest = pendingAbove registry (getCurrentSchemaVersion (db.commit m)) := by
  have hversion := version_commit htable (above_of_pending hnext)
  obtain ⟨hle, hgt⟩ := hasc.filter_next hnext.symm
  constructor
  · unfold Database.Prefix
    rw [hversion, hle, List.map_append, ← hp]
    rfl
  · rw [hversion]
    exact hgt.symm

/-- Another process that is not in its critical section is none the worse. -/
theorem sound_elsewhere {db db' : Database} {pc : Pc} (hheld : pc.held = false) (hs : Sound registry db pc)
    (h : pendingAbove registry (getCurrentSchemaVersion db) ≠ []) : Sound registry db' pc := by
  cases pc with
  | starting => trivial
  | crashed => trivial
  | ended o =>
    cases o with
    | returned => exact absurd hs h
    | raised r => trivial
  | locked => cases hheld
  | pending ms => cases hheld
  | migrating m rest => cases hheld
  | recording m rest => cases hheld
  | committing m rest => cases hheld
  | releasing o => cases hheld

omit [DecidableEq P] in
/-- At most one process is between lock and unlock. -/
theorem Inv.exclusive (hI : Inv registry s) {p q : P} (hp : (s.pc p).held = true) (hq : (s.pc q).held = true) :
    p = q :=
  Option.some.inj (((hI.lock p).mp hp).symm.trans ((hI.lock q).mp hq))

/-- One process moves on: the invariant is to be checked for it and for the others. -/
theorem Inv.mk' {lock : Option P} {db : Database} {p : P} {pc : Pc} (hself : pc.held = true ↔ lock = some p)
    (hlock : ∀ q, q ≠ p → ((s.pc q).held = true ↔ lock = some q)) (heffects : db.Prefix registry)
    (hsound : Sound registry db pc) (hothers : ∀ q, q ≠ p → Sound registry db (s.pc q)) :
    Inv registry { s.goto p pc with db := db, lock := lock } where
  lock := (Function.forall_update_iff s.pc fun q pc => pc.held = true ↔ lock = some q).mpr ⟨hself, hlock⟩
  effects := heffects
  sound := (Function.forall_update_iff s.pc fun _ pc => Sound registry db pc).mpr ⟨hsound, hothers⟩

theorem Inv.stepCase (hasc : Ascending Migration.version registry) (hI : Inv registry s)
    (h : StepCase registry s s') : Inv registry s' := by
  cases h with
  | acquired p hpc hfree =>
    refine Inv.mk' (by simp [Pc.held]) (fun q hq => ?_) hI.effects trivial fun q _ => hI.sound q
    rw [hI.lock q, hfree]
    simp [Ne.symm hq]
  | moved p pc hmove =>
    exact Inv.mk' (by rw [hmove.held]; exact hI.lock p) (fun q _ => hI.lock q) hI.effects (hmove.sound (hI.sound p))
      fun q _ => hI.sound q
  | committed p m rest hpc =>
    have hheld : (s.pc p).held = true := by rw [hpc]; rfl
    obtain ⟨hnext, htable⟩ : Sound registry s.db (.committing m rest) := hpc ▸ hI.sound p
    obtain ⟨happlied, hrest⟩ := commit_next hasc hI.effects hnext htable
    refine Inv.mk' ⟨fun _ => (hI.lock p).mp hheld, fun _ => rfl⟩ (fun q _ => hI.lock q) happlied hrest fun q hq => ?_
    have hout : (s.pc q).held = false := by
      by_contra hin
      exact hq (hI.exclusive (by simpa using hin) hheld)
    exact sound_elsewhere hout (hI.sound q) (by rw [← hnext]; simp)
  | released p o o' hpc hret =>
    have hlock : s.lock = some p := (hI.lock p).mp (by rw [hpc]; rfl)
    have hs : Sound registry s.db (.releasing o) := hpc ▸ hI.sound p
    refine Inv.mk' (by simp [Pc.held]) (fun q hq => ?_) hI.effects ?_ fun q _ => hI.sound q
    · rw [hI.lock q, hlock]
      simp [Ne.symm hq]
    · cases o' with
      | raised r => trivial
      | returned =>
        obtain rfl := hret rfl
        exact hs
  | crashed p _ =>
    refine Inv.mk' ?_ (fun q hq => ?_) hI.effects trivial fun q _ => hI.sound q
    · split
      · simp [Pc.held]
      · rename_i hlock
        simp [Pc.held, hlock]
    · rw [hI.lock q]
      split
      · rename_i hlock
        simp [hlock, Ne.symm hq]
      · rfl

theorem Inv.step (hasc : Ascending Migration.version registry) (hI : Inv registry s)
    (h : step registry s l = some s') : Inv registry s' :=
  hI.stepCase hasc (step_cases h)

/-! ## Runs that return, runs that fail -/

/-- The recorded version is the one found at the start, or one of the registry. -/
theorem version_step (hI : Inv registry s) (h : StepCase registry s s') {n : Nat}
    (hn : maxOf Migration.version registry ≤ n) (hle : getCurrentSchemaVersion s.db ≤ n) :
    getCurrentSchemaVersion s'.db ≤ n := by
  cases h with
  | committed p m rest hpc =>
    obtain ⟨hnext, htable⟩ : Sound registry s.db (.committing m rest) := hpc ▸ hI.sound p
    have hmem : m ∈ pendingAbove registry (getCurrentSchemaVersion s.db) := hnext ▸ List.mem_cons_self
    have hmax : m.version ≤ maxOf Migration.version registry := le_maxOf (List.mem_filter.mp hmem).1
    show getCurrentSchemaVersion (s.db.commit m) ≤ n
    rw [version_commit htable (above_of_pending hnext)]
    omega
  | acquired p _ _ => exact hle
  | moved p pc _ => exact hle
  | released p o o' _ _ => exact hle
  | crashed p _ => exact hle

theorem max_of_none_pending {n : Nat} (h : pendingAbove registry n = []) :
    maxOf Migration.version registry ≤ n := by
  refine maxOf_le fun m hm => ?_
  have := List.filter_eq_nil_iff.mp h m hm
  simpa using this

/-- The recorded version is in the table. -/
theorem recorded_row {db : Database} (h : 0 < getCurrentSchemaVersion db) :
    ∃ r ∈ db.table.getD [], r.version = getCurrentSchemaVersion db := by
  unfold getCurrentSchemaVersion at h ⊢
  cases htable : db.table with
  | none => simp [htable] at h
  | some rows =>
    simp only [htable] at h ⊢
    refine exists_maxOf (l := rows) ?_
    rintro rfl
    simp at h

/-- The process raises, if it gets that far. -/
def Pc.Raises : Pc → Prop
  | .releasing (.raised _) | .ended (.raised _) | .crashed => True
  | _ => False

theorem raises_stays {p : P} (hp : (s.pc p).Raises) (h : StepCase registry s s') : (s'.pc p).Raises := by
  have hothers : ∀ {q : P} {pc : Pc}, (q = p → pc.Raises) → ((s.goto q pc).pc p).Raises := by
    intro q pc hq
    by_cases heq : q = p
    · subst heq
      simpa [State.goto] using hq rfl
    · simpa [State.goto, Ne.symm heq] using hp
  cases h with
  | acquired q hpc _ =>
    refine hothers fun heq => ?_
    rw [← heq, hpc] at hp
    exact hp.elim
  | moved q pc hmove =>
    refine hothers fun heq => ?_
    rw [← heq] at hp
    generalize s.pc q = old at hp hmove
    cases hmove with
    | failed _ m e hworking =>
      obtain ⟨r, hr⟩ := failure_raised m e
      rw [hr]
      trivial
    | _ => exact hp.elim
  | committed q m rest hpc =>
    refine hothers fun heq => ?_
    rw [← heq, hpc] at hp
    exact hp.elim
  | released q o o' hpc hret =>
    refine hothers fun heq => ?_
    rw [← heq, hpc] at hp
    cases o' with
    | raised r => trivial
    | returned =>
      obtain rfl := hret rfl
      exact hp.elim
  | crashed q _ => exact hothers fun _ => trivial

/-- **A failing migration** leaves the database as it was. -/
theorem failed_step {p : P} {k : Migration} {o : Outcome} (hk : (s.pc p).working = some k)
    (h : StepCase registry s s') (ho : s'.pc p = .releasing o) : s'.db = s.db ∧ ∃ r, o = .raised r := by
  have hother : ∀ {q : P} {pc : Pc}, (s.goto q pc).pc p = .releasing o → q = p ∧ pc = .releasing o := by
    intro q pc hq
    by_cases heq : q = p
    · subst heq
      exact ⟨rfl, by simpa [State.goto] using hq⟩
    · have hpc : s.pc p = .releasing o := by simpa [State.goto, Ne.symm heq] using hq
      rw [hpc] at hk
      cases hk
  cases h with
  | acquired q _ _ => cases (hother ho).2
  | moved q pc hmove =>
    obtain ⟨rfl, rfl⟩ := hother ho
    refine ⟨rfl, ?_⟩
    generalize s.pc q = old at hk hmove
    generalize hnew : Pc.releasing o = new at hmove
    cases hmove with
    | failed _ m e _ =>
      obtain ⟨r, hr⟩ := failure_raised m e
      exact ⟨r, (Pc.releasing.inj hnew).trans hr⟩
    | unread e => cases hk
    | done => cases hk
    | _ => cases hnew
  | committed q m rest _ => cases (hother ho).2
  | released q o₁ o' _ _ => cases (hother ho).2
  | crashed q _ => cases (hother ho).2

theorem MIGRATIONS_ascending : Ascending Migration.version MIGRATIONS := by
  unfold Ascending
  decide

/-- The highest version of the registry. -/
def latest : Nat := maxOf Migration.version MIGRATIONS

/-- **Migrations apply as a prefix, each once**, from any recorded version, for
any processes, in every interleaving, with any failures and crashes. A run
that has returned has the latest version recorded (or the later one found
at the start); one whose migration `k` fails leaves `k` and what is above it
unapplied, and raises. -/
theorem migrations_in_order (table : Option (List Migration)) (ls : List (Label P)) (s : State P)
    (h : Passes (step MIGRATIONS) (start MIGRATIONS table) ls s) :
    s.db.effects = (MIGRATIONS.filter fun m => m.version ≤ getCurrentSchemaVersion s.db).map Migration.version ∧
    s.db.effects.Nodup ∧
    (∀ p, s.pc p = .ended .returned →
      latest ≤ getCurrentSchemaVersion s.db ∧
      (getCurrentSchemaVersion ⟨table, []⟩ ≤ latest →
        getCurrentSchemaVersion s.db = latest ∧ ∃ r ∈ s.db.table.getD [], r.version = latest)) ∧
    (∀ p k l s' o, (s.pc p).working = some k → step MIGRATIONS s l = some s' → s'.pc p = .releasing o →
      s'.db = s.db ∧ getCurrentSchemaVersion s'.db < k.version ∧ (∀ v ∈ s'.db.effects, v < k.version) ∧
      ∀ ls' t, Passes (step MIGRATIONS) s' ls' t → (t.pc p).Raises) := by
  have hasc := MIGRATIONS_ascending
  have hI : Inv MIGRATIONS s := h.inv (fun _ _ _ hI h => hI.step hasc h) (Inv.start MIGRATIONS table)
  have heffects : s.db.effects =
      (MIGRATIONS.filter fun m => m.version ≤ getCurrentSchemaVersion s.db).map Migration.version := hI.effects
  refine ⟨heffects, ?_, fun p hp => ?_, fun p k l s' o hk hstep ho => ?_⟩
  · rw [heffects]
    have hlt : (MIGRATIONS.map Migration.version).Pairwise (· < ·) := List.pairwise_map.mpr hasc
    exact (hlt.imp Nat.ne_of_lt).sublist (List.Sublist.map _ List.filter_sublist)
  · have hs : Sound MIGRATIONS s.db (.ended .returned) := hp ▸ hI.sound p
    have hge : latest ≤ getCurrentSchemaVersion s.db := max_of_none_pending hs
    refine ⟨hge, fun hstart => ?_⟩
    have hbound : Inv MIGRATIONS s ∧ getCurrentSchemaVersion s.db ≤ latest :=
      h.inv (I := fun s => Inv MIGRATIONS s ∧ getCurrentSchemaVersion s.db ≤ latest)
        (fun _ _ _ hI h => ⟨hI.1.step hasc h, version_step hI.1 (step_cases h) (Nat.le_refl _) hI.2⟩)
        ⟨Inv.start MIGRATIONS table, hstart⟩
    have heq : getCurrentSchemaVersion s.db = latest := Nat.le_antisymm hbound.2 hge
    have hpos : 0 < latest := by decide
    obtain ⟨r, hr, hversion⟩ := @recorded_row s.db (by omega)
    exact ⟨heq, r, hr, hversion.trans heq⟩
  · obtain ⟨rest, hnext⟩ := working_above (hI.sound p) hk
    have habove := above_of_pending hnext
    obtain ⟨hdb, r, rfl⟩ := failed_step hk (step_cases hstep) ho
    refine ⟨hdb, by rw [hdb]; exact habove, fun v hv => ?_, fun ls' t ht => ?_⟩
    · rw [hdb, heffects] at hv
      obtain ⟨m, hm, rfl⟩ := List.mem_map.mp hv
      have := (List.mem_filter.mp hm).2
      simp only [decide_eq_true_eq] at this
      omega
    · exact ht.inv (I := fun t => (t.pc p).Raises) (fun _ _ _ hp h => raises_stays hp (step_cases h))
        (by rw [ho]; trivial)

/-- From version 23: the first process crashes in migration 24, the second
applies 24, fails in 25 and raises, the third applies 25. -/
def threeStarts : List (Label Nat) :=
  List.replicate 4 (.run 0 none) ++ [.crash 0] ++ List.replicate 7 (.run 1 none) ++
    [.run 1 (some .postgresError), .run 1 none] ++ List.replicate 8 (.run 2 none)

theorem migrations_in_order_threeStarts :
    ∃ s, Passes (step MIGRATIONS) (start MIGRATIONS (some [⟨23, []⟩])) threeStarts s ∧
      s.pc 2 = .ended .returned ∧ getCurrentSchemaVersion s.db = latest := by
  obtain ⟨s, hs, hended⟩ : ∃ s, exec (step MIGRATIONS) (start MIGRATIONS (some [⟨23, []⟩])) threeStarts = some s ∧
      s.pc 2 = .ended .returned := ⟨_, rfl, by decide⟩
  have hpass := passes_of_exec hs
  obtain ⟨_, _, hreturned, _⟩ := migrations_in_order (some [⟨23, []⟩]) threeStarts s hpass
  exact ⟨s, hpass, hended, ((hreturned 2 hended).2 (by decide)).1⟩

end ContextBroker.Migrations
