import ContextBroker.Core.StateGraph
import ContextBroker.L2Store.MessagePipeline

/-!
# The passthrough assembly graph

`sliding-window` windows compact nothing: the pass takes the lock, stamps
`last_assembled_at` and releases. R6-M13: `pt_finalize` catches what the
statement raises and always routes to the release.
-/
namespace ContextBroker.Passthrough

inductive Node where
  | ptAcquireLock | ptFinalize | ptReleaseLock
  deriving DecidableEq, Repr

inductive Site where
  | lock | stamp | unlock
  deriving DecidableEq, Repr

structure Env where
  lockFree : Bool := true
  fault : Site → Option Exn := fun _ => none
  now : Time := 0

/-- mirrors build_types/passthrough.py:35-49 -/
structure AssemblyState where
  contextWindowId : Id
  lockAcquired : Bool := false
  /-- `error`: the exception `pt_finalize` caught. -/
  error : Option Exn := none
  deriving DecidableEq, Repr

structure PassState where
  db : Db
  st : AssemblyState
  deriving DecidableEq

variable (env : Env)

/-- mirrors build_types/passthrough.py:52-88 -/
def ptAcquireLock (s : PassState) : PassState × Option Exn :=
  match perform env.fault .lock env.lockFree with
  | .error e => (s, some e)
  | .ok acquired => ({ s with st.lockAcquired := acquired }, none)

/-- mirrors build_types/passthrough.py:91-119 -/
def ptFinalize (s : PassState) : PassState × Option Exn :=
  match perform env.fault .stamp () with
  | .error e =>
    if e.caughtBy [.runtimeError, .osError, .valueError, .connectionError] then
      ({ s with st.error := some e }, none)
    else (s, some e)
  | .ok () => ({ s with db := s.db.stampAssembled s.st.contextWindowId env.now }, none)

/-- mirrors build_types/passthrough.py:122-139 -/
def ptReleaseLock (s : PassState) : PassState × Option Exn :=
  if s.st.lockAcquired then
    match perform env.fault .unlock () with
    | .error e => if e.caughtBy [.valueError, .osError] then (s, none) else (s, some e)
    | .ok () => (s, none)
  else (s, none)

/-- mirrors build_types/passthrough.py:142-176 -/
def assemblyGraph : StateGraph Node PassState Exn where
  entry := .ptAcquireLock
  node := fun n s =>
    match n with
    | .ptAcquireLock => ptAcquireLock env s
    | .ptFinalize => ptFinalize env s
    | .ptReleaseLock => ptReleaseLock env s
  route := fun n s =>
    match n with
    | .ptAcquireLock => if s.st.lockAcquired then some .ptFinalize else none
    | .ptFinalize => some .ptReleaseLock
    | .ptReleaseLock => none
  rank := fun n =>
    match n with
    | .ptAcquireLock => 2
    | .ptFinalize => 1
    | .ptReleaseLock => 0
  rank_lt := by
    intro n s m h
    cases n
    case ptAcquireLock => dsimp only at h; split at h <;> cases h; decide
    case ptFinalize => cases h; decide
    case ptReleaseLock => cases h

/-- One invocation for window `w`. -/
def assemble (db : Db) (w : Id) : StateGraph.Outcome Node PassState Exn :=
  (assemblyGraph env).invoke ⟨db, { contextWindowId := w }⟩

/-! ## What a pass changes -/

/-- The tables of `db`, but for one timestamp. -/
def Stamped (db : Db) (s : PassState) : Prop := s.db = db ∨ ∃ v now, s.db = db.stampAssembled v now

/-- What holds when a node is entered: only the release comes after the stamp. -/
def Assertion (db : Db) : Node → PassState → Prop
  | .ptAcquireLock, s | .ptFinalize, s => s.db = db
  | .ptReleaseLock, s => Stamped db s

section

variable {env} {db : Db} {s : PassState}

theorem ptAcquireLock_db : (ptAcquireLock env s).1.db = s.db := by
  unfold ptAcquireLock
  split <;> rfl

theorem ptReleaseLock_db : (ptReleaseLock env s).1.db = s.db := by
  unfold ptReleaseLock
  split <;> [split <;> [split; skip]; skip] <;> rfl

theorem ptFinalize_stamped (h : s.db = db) : Stamped db (ptFinalize env s).1 := by
  unfold ptFinalize
  split
  · split <;> exact .inl h
  · exact .inr ⟨s.st.contextWindowId, env.now, by rw [← h]⟩

theorem Stamped.congr {s' : PassState} (h : Stamped db s) (hdb : s'.db = s.db) : Stamped db s' := by
  unfold Stamped
  rw [hdb]
  exact h

theorem node_stamped {n : Node} (h : Assertion db n s) : Stamped db ((assemblyGraph env).node n s).1 := by
  cases n with
  | ptAcquireLock => exact .inl (ptAcquireLock_db.trans h)
  | ptFinalize => exact ptFinalize_stamped h
  | ptReleaseLock => exact Stamped.congr h ptReleaseLock_db

theorem outline (env : Env) (db : Db) :
    (assemblyGraph env).Outline (Assertion db) fun _ s => Stamped db s where
  raises n s s' e hA hn := by
    obtain rfl : ((assemblyGraph env).node n s).1 = s' := congrArg Prod.fst hn
    exact node_stamped hA
  ends n s s' hA hn _ := by
    obtain rfl : ((assemblyGraph env).node n s).1 = s' := congrArg Prod.fst hn
    exact node_stamped hA
  moves n s s' m hA hn hr := by
    obtain rfl : ((assemblyGraph env).node n s).1 = s' := congrArg Prod.fst hn
    cases n with
    | ptAcquireLock =>
      simp only [assemblyGraph] at hr
      split at hr <;> cases hr
      exact ptAcquireLock_db.trans hA
    | ptFinalize =>
      cases hr
      exact ptFinalize_stamped hA
    | ptReleaseLock => cases hr

end

/-- A pass changes at most one timestamp. -/
theorem assemble_final (db : Db) (w : Id) :
    (assemble env db w).final.db = db ∨
      ∃ v now, (assemble env db w).final.db = db.stampAssembled v now :=
  (outline env db).invoke (s := ⟨db, _⟩) rfl

end ContextBroker.Passthrough
