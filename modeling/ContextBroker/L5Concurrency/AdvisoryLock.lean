import ContextBroker.Core.LTS
import ContextBroker.Core.SessionLocks
import ContextBroker.L1Data.Schema

/-!
# Assembly locks over a connection pool

Tasks that assemble a window (the assembly worker, `get_context`'s inline
assembly) or probe its lock (`ret_wait_for_assembly`) run interleaved. Each
`pool.fetchval` / `pool.execute` is one call: borrow an idle connection,
execute the statement on it, give the connection back, and only then go on.
Giving back resets the session, so a lock taken by a call is gone before the
caller learns that it got it.

`leased_reachable`: a lock is only ever held by a borrowed connection.
`acquire_succeeds`: while no call is under way, an acquire succeeds, whatever
passes are between their acquire and their release. So passes of one window
exclude each other exactly if there is at most one (`exclusive_iff`).
-/
namespace ContextBroker.AdvisoryLock

open SessionLocks

/-- What a task does with the lock of a window. -/
inductive Job where
  | assemble (w : Id)
  | probe (w : Id)
  deriving DecidableEq, Repr

def Job.window : Job → Id
  | .assemble w => w
  | .probe w => w

/-- The lock calls: of `acquire_assembly_lock`, of `release_assembly_lock`,
and the two of `ret_wait_for_assembly`.
mirrors build_types/standard_tiered.py:138,830,1046,1048 -/
inductive Call where
  | acquire | release | probe | unprobe
  deriving DecidableEq, Repr

/-- Where a task is. `passing` is between a successful acquire and the call
that releases; `probed` between the two calls of the probe. -/
inductive Pc (Conn : Type) where
  | ready
  | calling (call : Call) (conn : Conn)
  | replied (call : Call) (conn : Conn) (answer : Bool)
  | passing
  | probed
  | finished
  deriving DecidableEq, Repr

structure State (Conn Task : Type) where
  locks : Table Conn Int
  user : Conn → Option Task
  pc : Task → Pc Conn

inductive Label (Conn Task : Type) where
  | borrow (t : Task) (conn : Conn)
  | execute (t : Task)
  | giveBack (t : Task)
  | fail (t : Task)
  | quit (t : Task)
  deriving DecidableEq, Repr

section

variable {Conn Task : Type}

/-- The next call of a task. -/
def nextCall (job : Job) (pc : Pc Conn) : Option Call :=
  match pc, job with
  | .ready, .assemble _ => some .acquire
  | .ready, .probe _ => some .probe
  | .passing, _ => some .release
  | .probed, _ => some .unprobe
  | _, _ => none

/-- `pg_try_advisory_lock` or `pg_advisory_unlock`. -/
def Call.run [DecidableEq Conn] (call : Call) (locks : Table Conn Int) (conn : Conn) (key : Int) :
    Table Conn Int × Bool :=
  match call with
  | .acquire | .probe => tryLock locks conn key
  | .release | .unprobe => unlock locks conn key

/-- Where a task goes on with an answer. A refused acquire ends the graph, a
refused probe polls again. -/
def Call.after (call : Call) (answer : Bool) : Pc Conn :=
  match call with
  | .acquire => if answer then .passing else .finished
  | .release => .finished
  | .probe => if answer then .probed else .ready
  | .unprobe => .finished

/-- The connection a task has borrowed. -/
def Pc.conn? : Pc Conn → Option Conn
  | .calling _ conn => some conn
  | .replied _ conn _ => some conn
  | _ => none

/-- Only an assembling task gets here. -/
def Pc.assembling : Pc Conn → Bool
  | .calling call _ => call == .acquire || call == .release
  | .replied call _ _ => call == .acquire || call == .release
  | .passing => true
  | _ => false

/-- Between a successful acquire and the release. -/
def Pc.inPass : Pc Conn → Bool
  | .passing => true
  | .calling .release _ => true
  | _ => false

theorem Pc.assembling_of_inPass {p : Pc Conn} (h : p.inPass = true) : p.assembling = true := by
  unfold Pc.inPass at h
  split at h
  · rfl
  · rfl
  · cases h

theorem nextCall_assembling {job : Task → Job} {t : Task} {p : Pc Conn} {call : Call} (conn : Conn)
    (h : nextCall (job t) p = some call) :
    p.conn? = none ∧ ((Pc.calling call conn).assembling = true → p.assembling = true ∨
      ∃ w, job t = .assemble w) := by
  cases p with
  | ready =>
    cases hjob : job t with
    | assemble w => exact ⟨rfl, fun _ => .inr ⟨w, rfl⟩⟩
    | probe w =>
      rw [hjob] at h
      obtain rfl : call = .probe := by simpa [nextCall] using h.symm
      exact ⟨rfl, fun h => nomatch h⟩
  | passing => exact ⟨rfl, fun _ => .inl rfl⟩
  | probed =>
    obtain rfl : call = .unprobe := by simpa [nextCall] using h.symm
    exact ⟨rfl, fun h => nomatch h⟩
  | calling call conn => simp [nextCall] at h
  | replied call conn answer => simp [nextCall] at h
  | finished => simp [nextCall] at h

theorem after_conn? (call : Call) (answer : Bool) : (call.after answer : Pc Conn).conn? = none := by
  cases call <;> cases answer <;> rfl

variable [DecidableEq Conn] [DecidableEq Task]

/-- A connection goes back to the pool: asyncpg resets its session. -/
def State.idle (s : State Conn Task) (conn : Conn) (t : Task) (pc : Pc Conn) : State Conn Task :=
  { locks := reset s.locks conn
    user := Function.update s.user conn none
    pc := Function.update s.pc t pc }

variable (job : Task → Job) (key : Id → Int)

/-- One step of one task. `fail`: the statement raises, the connection goes
back and the task is over. `quit`: an exception ends a pass without its
release, or a probe runs into its deadline. -/
def step (s : State Conn Task) : Label Conn Task → Option (State Conn Task)
  | .borrow t conn =>
    match s.user conn, nextCall (job t) (s.pc t) with
    | none, some call =>
      some { s with user := Function.update s.user conn (some t)
                    pc := Function.update s.pc t (.calling call conn) }
    | _, _ => none
  | .execute t =>
    match s.pc t with
    | .calling call conn =>
      let r := call.run s.locks conn (key (job t).window)
      some { s with locks := r.1, pc := Function.update s.pc t (.replied call conn r.2) }
    | _ => none
  | .giveBack t =>
    match s.pc t with
    | .replied call conn answer => some (s.idle conn t (call.after answer))
    | _ => none
  | .fail t =>
    match s.pc t with
    | .calling _ conn => some (s.idle conn t .finished)
    | _ => none
  | .quit t =>
    match s.pc t with
    | .ready | .passing => some { s with pc := Function.update s.pc t .finished }
    | _ => none

/-- All connections idle, no lock held, all tasks before their first call. -/
def initial : State Conn Task := ⟨fun _ => none, fun _ => none, fun _ => .ready⟩

def system : LTS (State Conn Task) (Label Conn Task) :=
  LTS.ofStep (· = initial) (step job key)

/-! ## What a step can do -/

/-- The effect of a step on the pool, with the task's pc before and after. -/
inductive PoolStep (s s' : State Conn Task) (t : Task) (p p' : Pc Conn) : Prop where
  | borrow (conn : Conn) (hidle : s.user conn = none) (hp : p.conn? = none) (hp' : p'.conn? = some conn)
      (huser : s'.user = Function.update s.user conn (some t)) (hlocks : s'.locks = s.locks)
  | execute (conn : Conn) (call : Call) (k : Int) (hp : p.conn? = some conn) (hp' : p'.conn? = some conn)
      (huser : s'.user = s.user) (hlocks : s'.locks = (call.run s.locks conn k).1)
  | giveBack (conn : Conn) (hp : p.conn? = some conn) (hp' : p'.conn? = none)
      (huser : s'.user = Function.update s.user conn none) (hlocks : s'.locks = reset s.locks conn)
  | quit (hp : p.conn? = none) (hp' : p'.conn? = none) (huser : s'.user = s.user)
      (hlocks : s'.locks = s.locks)

variable {job key} {s s' : State Conn Task} {l : Label Conn Task}

/-- **Every step** moves one task, which starts assembling only if that is its
job, and does one of four things to the pool. -/
theorem step_cases (h : step job key s l = some s') :
    ∃ t p', s'.pc = Function.update s.pc t p' ∧ PoolStep s s' t (s.pc t) p' ∧
      (p'.assembling = true → (s.pc t).assembling = true ∨ ∃ w, job t = .assemble w) := by
  cases l with
  | borrow t conn =>
    simp only [step] at h
    split at h
    · rename_i call hidle hcall
      obtain rfl := Option.some.inj h
      obtain ⟨hp, hasm⟩ := nextCall_assembling conn hcall
      exact ⟨t, _, rfl, .borrow conn hidle hp rfl rfl rfl, hasm⟩
    · cases h
  | execute t =>
    simp only [step] at h
    split at h
    · rename_i call conn hpc
      obtain rfl := Option.some.inj h
      refine ⟨t, _, rfl, .execute conn call _ (by rw [hpc]; rfl) rfl rfl rfl, fun hasm => .inl ?_⟩
      rw [hpc]
      exact hasm
    · cases h
  | giveBack t =>
    simp only [step] at h
    split at h
    · rename_i call conn answer hpc
      obtain rfl := Option.some.inj h
      refine ⟨t, _, rfl, .giveBack conn (by rw [hpc]; rfl) (after_conn? call answer) rfl rfl,
        fun hasm => .inl ?_⟩
      rw [hpc]
      cases call <;> cases answer <;> first | rfl | cases hasm
    · cases h
  | fail t =>
    simp only [step] at h
    split at h
    · rename_i call conn hpc
      obtain rfl := Option.some.inj h
      exact ⟨t, _, rfl, .giveBack conn (by rw [hpc]; rfl) rfl rfl rfl, fun hasm => nomatch hasm⟩
    · cases h
  | quit t =>
    simp only [step] at h
    split at h
    · rename_i hpc
      obtain rfl := Option.some.inj h
      exact ⟨t, _, rfl, .quit (by rw [hpc]; rfl) rfl rfl rfl, fun hasm => nomatch hasm⟩
    · rename_i hpc
      obtain rfl := Option.some.inj h
      exact ⟨t, _, rfl, .quit (by rw [hpc]; rfl) rfl rfl rfl, fun hasm => nomatch hasm⟩
    · cases h

/-! ## Invariants -/

/-- A calling task has its connection, locks are held by borrowed connections
only, and only tasks with that job assemble. -/
structure Leased (job : Task → Job) (s : State Conn Task) : Prop where
  user : ∀ t conn, (s.pc t).conn? = some conn → s.user conn = some t
  held : HeldBy s.locks fun conn => s.user conn ≠ none
  assembling : ∀ t, (s.pc t).assembling = true → ∃ w, job t = .assemble w

theorem heldBy_run {locks : Table Conn Int} {busy : Conn → Prop} {conn : Conn} (call : Call) (k : Int)
    (h : HeldBy locks busy) (hc : busy conn) : HeldBy (call.run locks conn k).1 busy := by
  cases call with
  | acquire | probe => exact h.tryLock hc
  | release | unprobe => exact h.unlock hc

/-- The task that moved has the connection it took or kept; the others keep
theirs, which is a different one. -/
theorem PoolStep.user {t : Task} {p' : Pc Conn} (hpool : PoolStep s s' t (s.pc t) p')
    (hpc : s'.pc = Function.update s.pc t p') (hinv : Leased job s) {t' : Task} {conn : Conn}
    (hconn : (s'.pc t').conn? = some conn) : s'.user conn = some t' := by
  by_cases htt : t' = t
  · subst htt
    rw [hpc, Function.update_self] at hconn
    cases hpool with
    | borrow conn' _ _ hp' huser _ =>
      obtain rfl : conn' = conn := Option.some.inj (hp'.symm.trans hconn)
      rw [huser, Function.update_self]
    | execute conn' _ _ hp hp' huser _ =>
      obtain rfl : conn' = conn := Option.some.inj (hp'.symm.trans hconn)
      rw [huser]
      exact hinv.user _ _ hp
    | giveBack _ _ hp' _ _ => rw [hp'] at hconn; cases hconn
    | quit _ hp' _ _ => rw [hp'] at hconn; cases hconn
  · rw [hpc, Function.update_of_ne htt] at hconn
    have hold := hinv.user t' conn hconn
    cases hpool with
    | borrow conn' hidle _ _ huser _ =>
      have hne : conn ≠ conn' := by
        rintro rfl
        rw [hidle] at hold
        cases hold
      rw [huser, Function.update_of_ne hne, hold]
    | execute _ _ _ _ _ huser _ => rw [huser, hold]
    | giveBack conn' hp _ huser _ =>
      have hne : conn ≠ conn' := by
        rintro rfl
        exact htt (Option.some.inj (hold.symm.trans (hinv.user t conn hp)))
      rw [huser, Function.update_of_ne hne, hold]
    | quit _ _ huser _ => rw [huser, hold]

omit [DecidableEq Task] in
/-- A lock is taken on a borrowed connection and dropped when it goes back. -/
theorem PoolStep.held {t : Task} {p' : Pc Conn} (hpool : PoolStep s s' t (s.pc t) p')
    (hinv : Leased job s) : HeldBy s'.locks fun conn => s'.user conn ≠ none := by
  cases hpool with
  | borrow conn' _ _ _ huser hlocks =>
    rw [hlocks, huser]
    intro k conn again hk
    by_cases hc : conn = conn'
    · subst hc
      simp
    · rw [Function.update_of_ne hc]
      exact hinv.held k conn again hk
  | execute conn' call k hp _ huser hlocks =>
    rw [hlocks, huser]
    refine heldBy_run call k hinv.held ?_
    simp [hinv.user t conn' hp]
  | giveBack conn' _ _ huser hlocks =>
    rw [hlocks, huser]
    intro k conn again hk
    obtain ⟨hbusy, hne⟩ := hinv.held.reset k conn again hk
    rw [Function.update_of_ne hne]
    exact hbusy
  | quit _ _ huser hlocks =>
    rw [hlocks, huser]
    exact hinv.held

theorem leased_step (hinv : Leased job s) (h : step job key s l = some s') : Leased job s' := by
  obtain ⟨t, p', hpc, hpool, hasm⟩ := step_cases h
  refine ⟨fun t' conn => hpool.user hpc hinv, hpool.held hinv, fun t' ht => ?_⟩
  by_cases htt : t' = t
  · subst htt
    rw [hpc, Function.update_self] at ht
    rcases hasm ht with hold | hjob
    · exact hinv.assembling _ hold
    · exact hjob
  · rw [hpc, Function.update_of_ne htt] at ht
    exact hinv.assembling t' ht

theorem leased_inductive : (system job key : LTS (State Conn Task) _).Inductive (Leased job) where
  init := by
    rintro s rfl
    refine ⟨?_, ?_, ?_⟩
    · intro t conn h
      cases h
    · intro k conn again h
      cases h
    · intro t h
      cases h
  step := fun _ _ _ hinv h => leased_step hinv h

/-! ## Two passes of one window -/

/-- At most one task is in a pass of window `w`. -/
def Exclusive (job : Task → Job) (w : Id) (s : State Conn Task) : Prop :=
  ∀ t t', (job t).window = w → (job t').window = w → (s.pc t).inPass = true →
    (s.pc t').inPass = true → t = t'

/-- With every connection idle an acquire goes through, whoever is in a pass. -/
theorem acquire_succeeds {t : Task} {w : Id} (conn : Conn) (hr : (system job key).Reachable s)
    (hidle : ∀ conn, s.user conn = none) (hready : s.pc t = .ready) (hjob : job t = .assemble w) :
    ∃ s', (system job key).Reachable s' ∧ (∀ conn, s'.user conn = none) ∧
      s'.pc = Function.update s.pc t .passing := by
  have hfree : s.locks (key (job t).window) = none :=
    (leased_inductive.reachable hr).held.free (fun c hc => hc (hidle c)) _
  let s₁ : State Conn Task :=
    { s with user := Function.update s.user conn (some t)
             pc := Function.update s.pc t (.calling .acquire conn) }
  let s₂ : State Conn Task :=
    { s₁ with locks := Function.update s.locks (key (job t).window) (some (conn, 0))
              pc := Function.update s₁.pc t (.replied .acquire conn true) }
  have h₁ : step job key s (.borrow t conn) = some s₁ := by
    simp [step, hidle, hready, hjob, nextCall, s₁]
  have h₂ : step job key s₁ (.execute t) = some s₂ := by
    simp [step, s₁, s₂, Call.run, tryLock_of_free hfree]
  have h₃ : step job key s₂ (.giveBack t) = some (s₂.idle conn t .passing) := by
    simp [step, s₂, Call.after]
  refine ⟨_, ((hr.step h₁).step h₂).step h₃, fun c => ?_, ?_⟩
  · by_cases hc : c = conn
    · subst hc
      simp [State.idle]
    · simp [State.idle, s₁, s₂, hc, hidle]
  · simp [State.idle, s₁, s₂]

/-- Two assembling tasks can both be in a pass. -/
theorem both_in_pass {t t' : Task} {w w' : Id} (conn : Conn) (hne : t ≠ t')
    (hjob : job t = .assemble w) (hjob' : job t' = .assemble w') :
    ∃ s : State Conn Task, (system job key).Reachable s ∧ s.pc t = .passing ∧ s.pc t' = .passing := by
  have hinit : (system job key).Reachable (initial : State Conn Task) := ⟨_, [], rfl, .nil _⟩
  obtain ⟨s₁, hr₁, hidle₁, hpc₁⟩ := acquire_succeeds conn hinit (fun _ => rfl) rfl hjob
  have hready : s₁.pc t' = .ready := by
    rw [hpc₁, Function.update_of_ne hne.symm]
    rfl
  obtain ⟨s₂, hr₂, _, hpc₂⟩ := acquire_succeeds conn hr₁ hidle₁ hready hjob'
  refine ⟨s₂, hr₂, ?_, ?_⟩
  · rw [hpc₂, Function.update_of_ne hne, hpc₁, Function.update_self]
  · rw [hpc₂, Function.update_self]

end

/-- **When passes of a window exclude each other:** in every reachable state
of every interleaving, exactly if the window has no two assembling tasks. The
lock plays no part. -/
theorem exclusive_iff {Conn Task : Type} [DecidableEq Conn] [DecidableEq Task] (conn : Conn)
    (job : Task → Job) (key : Id → Int) (w : Id) :
    (∀ s : State Conn Task, (system job key).Reachable s → Exclusive job w s) ↔
      ∀ t t', job t = .assemble w → job t' = .assemble w → t = t' := by
  constructor
  · intro hex t t' hjob hjob'
    by_contra hne
    obtain ⟨s, hr, hpass, hpass'⟩ := both_in_pass conn hne hjob hjob'
    exact hne (hex s hr t t' (by rw [hjob]; rfl) (by rw [hjob']; rfl) (by rw [hpass]; rfl)
      (by rw [hpass']; rfl))
  · intro hone s hr t t' hw hw' ht ht'
    have hinv := leased_inductive.reachable hr
    obtain ⟨v, hjob⟩ := hinv.assembling t (Pc.assembling_of_inPass ht)
    obtain ⟨v', hjob'⟩ := hinv.assembling t' (Pc.assembling_of_inPass ht')
    rw [hjob] at hw
    rw [hjob'] at hw'
    obtain rfl : v = w := hw
    obtain rfl : v' = v := hw'
    exact hone t t' hjob hjob'

/-- The assembly worker and an inline assembly both pass on window 1. -/
theorem mutual_exclusion_false :
    ¬ ∀ (job : Nat → Job) (key : Id → Int) (w : Id) (s : State Nat Nat),
      (system job key).Reachable s → Exclusive job w s := by
  intro h
  have hboth : ∃ s : State Nat Nat, (system (fun _ => .assemble 1) fun _ => 7).Reachable s ∧
      s.pc 0 = .passing ∧ s.pc 1 = .passing :=
    both_in_pass 0 (by decide) rfl rfl
  obtain ⟨s, hr, hpass, hpass'⟩ := hboth
  have := h _ _ 1 s hr 0 1 rfl rfl (by rw [hpass]; rfl) (by rw [hpass']; rfl)
  cases this

end ContextBroker.AdvisoryLock
