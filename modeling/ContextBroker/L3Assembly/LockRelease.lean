import ContextBroker.L3Assembly.Runs

/-!
# The lock on the way out

Every edge of the standard-tiered graph after a successful
`acquire_assembly_lock` leads on to `release_assembly_lock`, but an exception
that a node lets escape ends the run where it is: there is no edge for it.

`lock_released_iff`: a pass that acquired the lock executes the release
exactly once if no node in between raises, and not at all otherwise. The
passthrough graph routes the same failure of its finalize node to the
release (`Passthrough.ptFinalize`).
-/
namespace ContextBroker

open StandardTiered

/-- `acquire_assembly_lock` succeeds for window `w` of conversation `c`. -/
def Acquires (env : Env) (w c : Id) : Prop :=
  ∃ st, acquireAssemblyLock env { contextWindowId := w, conversationId := c } = .ok st ∧
    st.lockAcquired = true

/-- The nodes between the acquisition of the lock and its release. -/
def Guarded (n : Node) : Prop := n ≠ .acquireAssemblyLock ∧ n ≠ .releaseAssemblyLock

/-- No guarded node that the pass enters raises. -/
def NoneRaises (config : Config) (env : Env) (db : Db) (w c : Id) : Prop :=
  ∀ n s, (assemblyGraph config env).Visits ⟨db, { contextWindowId := w, conversationId := c }⟩ n s →
    Guarded n → (node config env n s).2 = none

section

variable {config : Config} {env : Env} {db : Db} {w c : Id}

/-- The first node of a pass that acquires the lock. -/
theorem acquires_node (config : Config) (db : Db) (h : Acquires env w c) :
    (node config env .acquireAssemblyLock ⟨db, { contextWindowId := w, conversationId := c }⟩).2 = none ∧
      (node config env .acquireAssemblyLock
        ⟨db, { contextWindowId := w, conversationId := c }⟩).1.st.lockAcquired = true := by
  obtain ⟨st, hst, hacq⟩ := h
  simp [node, nodeBody, hst, hacq]

/-- The last node of a pass that acquires the lock: the release, or a guarded
node that raised. -/
theorem last_node (config : Config) (db : Db) (h : Acquires env w c) :
    ∃ n s pre, (assemblyGraph config env).Visits
        ⟨db, { contextWindowId := w, conversationId := c }⟩ n s ∧
      (assemble config env db w c).trace = pre ++ [n] ∧ Node.releaseAssemblyLock ∉ pre ∧
      (n = .releaseAssemblyLock ∨ Guarded n ∧ (node config env n s).2 ≠ none) := by
  obtain ⟨n, s, hvisit, hstop⟩ := (assemblyGraph config env).exists_last
    ⟨db, { contextWindowId := w, conversationId := c }⟩
  obtain ⟨pre, htrace, hpre⟩ := hvisit.last hstop
  refine ⟨n, s, pre, hvisit, htrace, ?_, ?_⟩
  · intro hmem
    obtain ⟨s', k, hroute⟩ := hpre _ hmem
    cases hroute
  · change (node config env n s).2 = none → route n (node config env n s).1 = none at hstop
    by_cases hrel : n = .releaseAssemblyLock
    · exact .inl hrel
    · by_cases hentry : n = .acquireAssemblyLock
      · subst hentry
        obtain rfl := hvisit.of_entry
        obtain ⟨hret, hacq⟩ := acquires_node config db h
        rcases route_eq_none (hstop hret) with hn | ⟨_, hnot⟩
        · cases hn
        · rw [hacq] at hnot
          cases hnot
      · refine .inr ⟨⟨hentry, hrel⟩, fun hret => ?_⟩
        rcases route_eq_none (hstop hret) with hn | ⟨hn, _⟩
        · exact hrel hn
        · exact hentry hn

/-- A raising guarded node is the last one, and the release did not come
before it. -/
theorem release_notMem {n : Node} {s : PassState}
    (hvisit : (assemblyGraph config env).Visits
      ⟨db, { contextWindowId := w, conversationId := c }⟩ n s)
    (hguard : Guarded n) (hraise : (node config env n s).2 ≠ none) :
    Node.releaseAssemblyLock ∉ (assemble config env db w c).trace := by
  obtain ⟨pre, htrace, hpre⟩ := hvisit.last fun hret => absurd hret hraise
  intro hmem
  have hmem' : Node.releaseAssemblyLock ∈ pre ++ [n] := htrace ▸ hmem
  rcases List.mem_append.mp hmem' with hmem' | hmem'
  · obtain ⟨s', k, hroute⟩ := hpre _ hmem'
    cases hroute
  · exact hguard.2 (List.mem_singleton.mp hmem').symm

end

/-- **The release runs exactly once** in a pass that acquired the lock, if and
only if no node in between raises. -/
theorem lock_released_iff (config : Config) (env : Env) (db : Db) (w c : Id) (h : Acquires env w c) :
    (assemble config env db w c).trace.count .releaseAssemblyLock = 1 ↔
      NoneRaises config env db w c := by
  constructor
  · intro hcount n s hvisit hguard
    by_contra hraise
    have := List.count_eq_zero.mpr (release_notMem hvisit hguard hraise)
    omega
  · intro hnone
    obtain ⟨n, s, pre, hvisit, htrace, hpre, hlast⟩ := last_node config db h
    rcases hlast with rfl | ⟨hguard, hraise⟩
    · rw [htrace, List.count_append, List.count_eq_zero.mpr hpre, List.count_singleton_self]
    · exact absurd (hnone n s hvisit hguard) hraise

theorem acquires_calm (reply : Text) (w c : Id) : Acquires (calm reply) w c := ⟨_, rfl, rfl⟩

theorem lock_released_iff_calm :
    (assemble defaultConfig (calm ['s']) (broker.run (opened .tieredSummary 8)) 1 0).trace.count
        .releaseAssemblyLock = 1 ↔
      NoneRaises defaultConfig (calm ['s']) (broker.run (opened .tieredSummary 8)) 1 0 :=
  lock_released_iff defaultConfig (calm ['s']) (broker.run (opened .tieredSummary 8)) 1 0
    (acquires_calm ['s'] 1 0)

/-- The connection is lost while `finalize_assembly` writes its timestamp. -/
def lostConnection : Env :=
  { calm ['s'] with
    fault := fun site => if site = .stamp then some .osError else none
    genuine := by intro s; split <;> simp }

/-- The lock of an empty window is acquired and never released. -/
theorem lock_released_false :
    ¬ ∀ (evs : List Event) (config : Config) (env : Env) (w : Id) (win : Window),
      (broker.run evs).window? w = some win → Acquires env w win.conversationId →
        (assemble config env (broker.run evs) w win.conversationId).trace.count
          .releaseAssemblyLock = 1 := by
  intro h
  have hcount := h (opened .tieredSummary 8) defaultConfig lostConnection 1 sampleWindow
    (by decide +kernel) ⟨_, rfl, rfl⟩
  have hzero : (assemble defaultConfig lostConnection (broker.run (opened .tieredSummary 8)) 1 0).trace.count
      .releaseAssemblyLock = 0 := by
    decide +kernel
  exact absurd (hcount.symm.trans hzero) (by decide)

end ContextBroker
