import ContextBroker.Core.LTS
import ContextBroker.L1Data.Schema

/-!
# Start-up without Postgres, and the retry loop

`lifespan` tries Postgres once. If that fails it goes on in degraded mode
and leaves Postgres, the migrations and the Imperator to
`_postgres_retry_loop`, which runs beside it: `step` takes one of the two
tasks to its next await, with the exception that await raises, if any. The
checks before the first connection and what follows the Imperator's
initialisation (seeding, Mem0) are left out; they touch none of the flags.

The background worker is started by `lifespan` alone, and only if Postgres
was there at once. `recovered_iff`: when the loop has returned, all is as
after an undisturbed start-up exactly when Postgres was there at once (the
loop was needed for the Imperator only) and the loop's own attempt at the
Imperator did not fail.
-/
namespace ContextBroker.Recovery

open LTS

/-- Where `lifespan` is. -/
inductive Lifespan where
  | initPostgres
  | runMigrations
  | initializeImperator
  | serving
  | failed (e : Exn)
  deriving DecidableEq, Repr

/-- Where `_postgres_retry_loop` is. `initializeSkipped` is the attempt at the
Imperator once Postgres is marked available (lines 39-47), `initializeImperator` the
one after connecting (lines 63-74). -/
inductive Loop where
  | notStarted
  | loadConfig
  | sleep
  | initializeSkipped
  | initPostgres
  | runMigrations
  | initializeImperator
  | returned
  | exited (e : Exn)
  deriving DecidableEq, Repr

/-- `application.state`, the background worker and the schema.
`imperatorManager` says whether an `initialize` of the manager has completed. -/
structure App where
  postgresAvailable : Bool := false
  imperatorManager : Option Bool := none
  imperatorInitialized : Bool := false
  workerTask : Bool := false
  migrated : Bool := false
  deriving DecidableEq, Repr

structure State where
  app : App := {}
  lifespan : Lifespan := .initPostgres
  loop : Loop := .notStarted
  deriving DecidableEq, Repr

/-- An await of one of the tasks ends, with an exception or without. -/
inductive Label where
  | lifespan (fault : Option Exn)
  | loop (fault : Option Exn)
  deriving DecidableEq, Repr

/-- `except (OSError, RuntimeError, asyncpg.PostgresError)`, in all five places. -/
def handled (e : Exn) : Bool := e.caughtBy [.osError, .runtimeError, .postgresError]

/-- `initialize()` of the manager completed. -/
def App.initialized (app : App) : App := { app with imperatorManager := some true, imperatorInitialized := true }

/-- From the worker on: started or deferred, then the manager is created.
mirrors app/main.py:151-163 -/
def startWorker (s : State) : State :=
  { s with
    app := { s.app with workerTask := s.app.postgresAvailable, imperatorManager := some false }
    lifespan := .initializeImperator }

/-- mirrors app/main.py:139-176 -/
def lifespan (s : State) (fault : Option Exn) : Option State :=
  match s.lifespan, fault with
  | .initPostgres, none => some { s with lifespan := .runMigrations }
  | .runMigrations, none =>
    some (startWorker { s with app := { s.app with migrated := true, postgresAvailable := true } })
  | .initPostgres, some e | .runMigrations, some e =>
    if handled e then
      some (startWorker { s with app := { s.app with postgresAvailable := false }, loop := .loadConfig })
    else some { s with lifespan := .failed e }
  | .initializeImperator, none => some { s with app := s.app.initialized, lifespan := .serving }
  | .initializeImperator, some e =>
    if handled e then
      some { s with
        app := { s.app with imperatorInitialized := false }
        loop := if s.loop = .notStarted then .loadConfig else s.loop
        lifespan := .serving }
    else some { s with lifespan := .failed e }
  | .serving, _ => none
  | .failed _, _ => none

/-- The test `not imperator_initialized` and `imperator_manager is not None`. -/
def App.skipped (app : App) : Bool := !app.imperatorInitialized && app.imperatorManager.isSome

/-- mirrors app/main.py:31-83 -/
def postgresRetryLoop (s : State) (fault : Option Exn) : Option State :=
  match s.loop, fault with
  | .loadConfig, none => some { s with loop := .sleep }
  | .sleep, none =>
    if s.app.postgresAvailable then
      some { s with loop := if s.app.skipped then .initializeSkipped else .returned }
    else some { s with loop := .initPostgres }
  | .initializeSkipped, none => some { s with app := s.app.initialized, loop := .returned }
  -- the warning is logged and the loop returns all the same
  | .initializeSkipped, some e => some { s with loop := if handled e then .returned else .exited e }
  | .initPostgres, none => some { s with loop := .runMigrations }
  | .runMigrations, none =>
    let app := { s.app with migrated := true, postgresAvailable := true }
    some { s with app := app, loop := if app.skipped then .initializeImperator else .returned }
  | .initializeImperator, none => some { s with app := s.app.initialized, loop := .returned }
  | .initPostgres, some e | .runMigrations, some e | .initializeImperator, some e =>
    some { s with loop := if handled e then .loadConfig else .exited e }
  | .loadConfig, some e | .sleep, some e => some { s with loop := .exited e }
  | .notStarted, _ => none
  | .returned, _ => none
  | .exited _, _ => none

def step (s : State) : Label → Option State
  | .lifespan fault => lifespan s fault
  | .loop fault => postgresRetryLoop s fault

/-- As after a start-up in which Postgres was available at once. -/
def App.Recovered (app : App) : Prop :=
  app.postgresAvailable = true ∧ app.migrated = true ∧ app.imperatorManager = some true ∧ app.workerTask = true

/-- `lifespan` does without Postgres, or the loop gives the Imperator up. -/
def Spoils (s : State) : Label → Prop
  | .lifespan (some e) => (s.lifespan = .initPostgres ∨ s.lifespan = .runMigrations) ∧ handled e = true
  | .loop (some e) => s.loop = .initializeSkipped ∧ handled e = true
  | _ => False

/-! ## Where the two tasks can be -/

/-- After connecting at once, before the Imperator is initialised. -/
def atOnce : App where
  postgresAvailable := true
  imperatorManager := some false
  imperatorInitialized := false
  workerTask := true
  migrated := true

/-- The states the two tasks get to. In all but the last the loop has at most
the Imperator to see to; `deferred` is degraded mode. -/
inductive Phase : State → Prop where
  | connecting (l : Lifespan) : l = .initPostgres ∨ l = .runMigrations → Phase ⟨{}, l, .notStarted⟩
  | connected : Phase ⟨atOnce, .initializeImperator, .notStarted⟩
  | up : Phase ⟨atOnce.initialized, .serving, .notStarted⟩
  | aborted (app : App) (e : Exn) : Phase ⟨app, .failed e, .notStarted⟩
  | repairing (loop : Loop) : loop = .loadConfig ∨ loop = .sleep ∨ loop = .initializeSkipped →
    Phase ⟨atOnce, .serving, loop⟩
  | repaired : Phase ⟨atOnce.initialized, .serving, .returned⟩
  | gaveUp : Phase ⟨atOnce, .serving, .returned⟩
  | died (e : Exn) : Phase ⟨atOnce, .serving, .exited e⟩
  | deferred (s : State) : s.app.workerTask = false → s.loop ≠ .notStarted → s.lifespan ≠ .initPostgres →
    s.lifespan ≠ .runMigrations → Phase s

/-- The loop was not needed for Postgres, and has not given the Imperator up. -/
def Good (s : State) : Prop :=
  (s.loop ≠ .notStarted → s.app.workerTask = true) ∧ (s.loop = .returned → s.app.imperatorManager = some true)

variable {s s' : State} {l : Label}

/-- The loop does not start the worker. -/
theorem loop_frame {fault : Option Exn} (h : postgresRetryLoop s fault = some s') :
    s'.lifespan = s.lifespan ∧ s'.app.workerTask = s.app.workerTask ∧ s'.loop ≠ .notStarted := by
  unfold postgresRetryLoop at h
  split at h <;> grind [App.initialized]

/-- In degraded mode nobody does. -/
theorem deferred_step (hworker : s.app.workerTask = false) (hloop : s.loop ≠ .notStarted)
    (hinit : s.lifespan ≠ .initPostgres) (hmigr : s.lifespan ≠ .runMigrations) (h : step s l = some s') :
    s'.app.workerTask = false ∧ s'.loop ≠ .notStarted ∧ s'.lifespan ≠ .initPostgres ∧ s'.lifespan ≠ .runMigrations := by
  cases l with
  | loop fault =>
    obtain ⟨hl, hw, hstarted⟩ := loop_frame h
    rw [hl, hw]
    exact ⟨hworker, hstarted, hinit, hmigr⟩
  | lifespan fault =>
    simp only [step] at h
    unfold lifespan at h
    split at h <;> grind [App.initialized]

/-- The background worker is deferred for good. -/
theorem deferred_bad (hworker : s.app.workerTask = false) (hloop : s.loop ≠ .notStarted) : ¬ Good s :=
  fun hgood => by simp [hgood.1 hloop] at hworker

/-! ## One step -/

/-- It leads on to such a state, and ends a good one exactly when it spoils the
recovery. -/
structure Leads (s : State) (l : Label) (s' : State) : Prop where
  phase : Phase s'
  good : Good s → (Good s' ↔ ¬ Spoils s l)
  bad : ¬ Good s → ¬ Good s'

theorem leads_clean (hs' : Phase s') (hgood : Good s) (hgood' : Good s') (hclean : ¬ Spoils s l) : Leads s l s' :=
  ⟨hs', fun _ => iff_of_true hgood' hclean, fun hbad => absurd hgood hbad⟩

theorem leads_spoiled (hs' : Phase s') (hbad' : ¬ Good s') (hspoils : Spoils s l) : Leads s l s' :=
  ⟨hs', fun _ => iff_of_false hbad' fun hclean => hclean hspoils, fun _ => hbad'⟩

/-- Before the loop is started. -/
theorem good_notStarted (h : s.loop = .notStarted) : Good s := by simp [Good, h]

theorem good_repairing {loop : Loop} (h : loop ≠ .returned) : Good ⟨atOnce, .serving, loop⟩ := by simp [Good, atOnce, h]

/-- `init_postgres` or `run_migrations` of the start-up ends. -/
theorem connecting_step {at' : Lifespan} {fault : Option Exn} (hat : at' = .initPostgres ∨ at' = .runMigrations)
    (h : lifespan ⟨{}, at', .notStarted⟩ fault = some s') : Leads ⟨{}, at', .notStarted⟩ (.lifespan fault) s' := by
  have hgood : Good ⟨{}, at', .notStarted⟩ := good_notStarted rfl
  cases fault with
  | none =>
    rcases hat with rfl | rfl
    · obtain rfl := Option.some.inj h
      exact leads_clean (.connecting _ (.inr rfl)) hgood (good_notStarted rfl) id
    · obtain rfl := Option.some.inj h
      exact leads_clean .connected hgood (good_notStarted rfl) id
  | some e =>
    have hnext : (if handled e then some (startWorker ⟨{ postgresAvailable := false }, at', .loadConfig⟩)
        else some ⟨{}, .failed e, .notStarted⟩) = some s' := by
      rcases hat with rfl | rfl <;> exact h
    obtain ⟨hhandled, hnext⟩ | ⟨hhandled, hnext⟩ := ite_eq_iff.mp hnext
    · obtain rfl := Option.some.inj hnext
      have hloop : (startWorker ⟨{ postgresAvailable := false }, at', .loadConfig⟩).loop ≠ .notStarted := nofun
      exact leads_spoiled (.deferred _ rfl hloop nofun nofun) (deferred_bad rfl hloop) ⟨hat, hhandled⟩
    · obtain rfl := Option.some.inj hnext
      exact leads_clean (.aborted _ e) hgood (good_notStarted rfl) fun hspoils => hhandled hspoils.2

/-- Postgres is there, and the Imperator's initialisation at start-up ends. -/
theorem connected_step {fault : Option Exn} (h : lifespan ⟨atOnce, .initializeImperator, .notStarted⟩ fault = some s') :
    Leads ⟨atOnce, .initializeImperator, .notStarted⟩ (.lifespan fault) s' := by
  have hgood : Good ⟨atOnce, .initializeImperator, .notStarted⟩ := good_notStarted rfl
  cases fault with
  | none =>
    obtain rfl := Option.some.inj h
    exact leads_clean .up hgood (good_notStarted rfl) id
  | some e =>
    have hclean : ¬ Spoils ⟨atOnce, .initializeImperator, .notStarted⟩ (.lifespan (some e)) := by simp [Spoils]
    obtain ⟨_, h⟩ | ⟨_, h⟩ := ite_eq_iff.mp h
    · obtain rfl := Option.some.inj h
      exact leads_clean (.repairing _ (.inl rfl)) hgood (good_repairing nofun) hclean
    · obtain rfl := Option.some.inj h
      exact leads_clean (.aborted _ e) hgood (good_notStarted rfl) hclean

/-- The loop after a start-up that failed at the Imperator only. -/
theorem repairing_step {loop : Loop} {fault : Option Exn}
    (hloop : loop = .loadConfig ∨ loop = .sleep ∨ loop = .initializeSkipped)
    (h : postgresRetryLoop ⟨atOnce, .serving, loop⟩ fault = some s') :
    Leads ⟨atOnce, .serving, loop⟩ (.loop fault) s' := by
  have hgood : Good ⟨atOnce, .serving, loop⟩ := good_repairing (by rcases hloop with rfl | rfl | rfl <;> nofun)
  rcases hloop with rfl | rfl | rfl
  · cases fault with
    | none =>
      obtain rfl := Option.some.inj h
      exact leads_clean (.repairing _ (.inr (.inl rfl))) hgood (good_repairing nofun) id
    | some e =>
      obtain rfl := Option.some.inj h
      exact leads_clean (.died e) hgood (good_repairing nofun) (by simp [Spoils])
  · cases fault with
    | none =>
      obtain rfl := Option.some.inj h
      exact leads_clean (.repairing _ (.inr (.inr rfl))) hgood (good_repairing nofun) id
    | some e =>
      obtain rfl := Option.some.inj h
      exact leads_clean (.died e) hgood (good_repairing nofun) (by simp [Spoils])
  · cases fault with
    | none =>
      obtain rfl := Option.some.inj h
      exact leads_clean .repaired hgood ⟨fun _ => rfl, fun _ => rfl⟩ id
    | some e =>
      obtain rfl := Option.some.inj h
      by_cases hhandled : handled e = true
      · rw [if_pos hhandled]
        exact leads_spoiled .gaveUp (fun hgood' => by simpa [atOnce] using hgood'.2 rfl) ⟨rfl, hhandled⟩
      · rw [if_neg hhandled]
        exact leads_clean (.died e) hgood (good_repairing nofun) fun hspoils => hhandled hspoils.2

theorem phase_step (hs : Phase s) (h : step s l = some s') : Leads s l s' := by
  cases hs with
  | connecting _ hat =>
    cases l with
    | loop fault => cases h
    | lifespan fault => exact connecting_step hat h
  | connected =>
    cases l with
    | loop fault => cases h
    | lifespan fault => exact connected_step h
  | repairing _ hloop =>
    cases l with
    | lifespan fault => cases h
    | loop fault => exact repairing_step hloop h
  | up | aborted _ _ | repaired | gaveUp | died _ =>
    cases l with
    | loop fault => cases h
    | lifespan fault => cases h
  | deferred _ hworker hloop hinit hmigr =>
    obtain ⟨hworker', hloop', hinit', hmigr'⟩ := deferred_step hworker hloop hinit hmigr h
    exact ⟨.deferred _ hworker' hloop' hinit' hmigr', fun hgood => absurd hgood (deferred_bad hworker hloop),
      fun _ => deferred_bad hworker' hloop'⟩

/-! ## Runs -/

theorem phase_passes {ls : List Label} (h : Passes step {} ls s) : Phase s :=
  h.inv (fun _ _ _ hs h => (phase_step hs h).phase) (.connecting _ (.inl rfl))

/-- When the loop has returned, good and recovered are the same. -/
theorem good_iff_recovered (hs : Phase s) (hreturned : s.loop = .returned) : Good s ↔ s.app.Recovered := by
  cases hs with
  | connecting lf hlf => cases hreturned
  | connected => cases hreturned
  | up => cases hreturned
  | aborted app e => cases hreturned
  | repairing loop hloop =>
    obtain rfl : loop = .returned := hreturned
    simp at hloop
  | repaired => exact iff_of_true ⟨fun _ => rfl, fun _ => rfl⟩ ⟨rfl, rfl, rfl, rfl⟩
  | gaveUp => exact iff_of_false (fun h => by simpa [atOnce] using h.2 rfl) fun h => by simpa [atOnce] using h.2.2.1
  | died e => cases hreturned
  | deferred _ hworker hloop _ _ =>
    refine iff_of_false (deferred_bad hworker hloop) fun h => ?_
    have := h.2.2.2
    simp [hworker] at this

/-- **Recovery is complete** in a run whose retry loop has returned exactly when
no step of it was a start-up without Postgres (a handled failure of
`init_postgres` or `run_migrations` in `lifespan`) or a handled failure of
the loop's attempt at the skipped Imperator. -/
theorem recovered_iff (ls : List Label) (s : State) (h : exec step {} ls = some s) (hreturned : s.loop = .returned) :
    s.app.Recovered ↔ ∀ t l t', Takes step {} ls t l t' → ¬ Spoils t l := by
  have hiff : (∀ t, Passes step {} ls t → Good t) ↔ ∀ t l t', Takes step {} ls t l t' → ¬ Spoils t l :=
    always_iff (I := Phase) (fun _ _ _ hs _ h => (phase_step hs h).phase)
      (fun _ _ _ hs hgood h => (phase_step hs h).good hgood) (.connecting _ (.inl rfl)) (good_notStarted rfl) ls
  rw [← hiff, ← good_iff_recovered (phase_passes (passes_of_exec h)) hreturned]
  constructor
  · intro hgood t hpass
    by_contra hbad
    obtain ⟨rest, hrest⟩ := hpass.rest h
    have hend : Phase s ∧ ¬ Good s :=
      (passes_of_exec hrest).inv (I := fun s => Phase s ∧ ¬ Good s)
        (fun _ _ _ h hs => ⟨(phase_step h.1 hs).phase, (phase_step h.1 hs).bad h.2⟩) ⟨phase_passes hpass, hbad⟩
    exact hend.2 hgood
  · exact fun hall => hall s (passes_of_exec h)

/-- Postgres is there at once, the Imperator fails and the loop repairs it. -/
def repairedRun : List Label :=
  [.lifespan none, .lifespan none, .lifespan (some .postgresError), .loop none, .loop none, .loop none]

theorem recovered_iff_repaired :
    ∃ s, exec step {} repairedRun = some s ∧
      (s.app.Recovered ↔ ∀ t l t', Takes step {} repairedRun t l t' → ¬ Spoils t l) := by
  obtain ⟨s, hs, hreturned⟩ : ∃ s, exec step {} repairedRun = some s ∧ s.loop = .returned := ⟨_, rfl, rfl⟩
  exact ⟨s, hs, recovered_iff _ s hs hreturned⟩

/-- Postgres comes up while the loop sleeps; everything succeeds from then on,
and no worker runs. -/
theorem recovered_false :
    ¬ ∀ (ls : List Label) (s : State), exec step {} ls = some s → s.loop = .returned → s.app.Recovered := by
  intro h
  have hrecovered := h [.lifespan (some .connectionError), .lifespan (some .runtimeError), .loop none, .loop none,
    .loop none, .loop none, .loop none] _ rfl rfl
  exact absurd hrecovered.2.2.2 (by decide)

end ContextBroker.Recovery
