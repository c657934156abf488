import ContextBroker.Core.LTS
import ContextBroker.L8Operations.PackageRegistry

/-!
# Hot reload

Compiled graphs and flows are kept in five places: the graphs of the build
types, the flows of the tools, the Imperator's flow, and two flows of the
background workers. An installation scans the packages, clears the graphs,
records the installation, and then clears the tools' flows and the
Imperator's. A builder is known here by the number of the scan that
registered it, and a compiled flow by its builder.

`step` interleaves tool calls, worker iterations, compilations in threads and
any number of installations. The scan is one piece for the event loop, but not
for a thread, which takes the lock of the build types between two of their
registrations. `floor` is the newest scan whose installation has returned, and
whatever is obtained then should be built by a builder that it or a later scan
has registered under this name (`State.Current`): what no such scan has
registered is not available any more.

`current_iff`: that holds through a run exactly when no installation returns
while a worker keeps an older flow, or an older graph is cached or on its way
to a caller, and no thread compiles a build type that only an older scan has
registered.
-/
namespace ContextBroker.HotReload

open LTS PackageRegistry

inductive Kind where
  | assembly | retrieval
  deriving DecidableEq, Repr

/-- A call of `get_assembly_graph` or `get_retrieval_graph` that compiles in a
thread, and what the thread has come to. -/
inductive Thread where
  | compiling (name : Text) (kind : Kind)
  | compiled (name : Text) (kind : Kind) (graph : Option Nat)
  deriving DecidableEq, Repr

/-- An `install_stategraph` call: at pip, in its scan, or recording the
installation it has scanned for. -/
inductive Install where
  | installing
  | scanning
  | recording (scan : Nat)
  deriving DecidableEq, Repr

/-- What can be asked for. -/
inductive Entry where
  | flow (name : Text)
  | imperator
  | graph (name : Text) (kind : Kind)
  deriving DecidableEq, Repr

structure State where
  scans : Nat := 0
  registry : Registry Nat := {}
  compiledCache : Text × Kind → Option Nat := fun _ => none
  flowCache : Text → Option Nat := fun _ => none
  imperatorFlow : Option Nat := none
  teConfigMtime : Rat := 0
  embedFlow : Option Nat := none
  extractionFlow : Option Nat := none
  threads : Nat → Option Thread := fun _ => none
  installs : Nat → Option Install := fun _ => none
  /-- The event loop is in a scan. -/
  busy : Bool := false
  floor : Nat := 0
  /-- All that scans have registered so far. -/
  written : List (Write Nat) := []

/-- The builders are those of scan `n`. -/
def taggedBy (n : Nat) : Write Nat → Bool
  | .buildType _ (assembly, retrieval) => assembly == n && retrieval == n
  | .flow _ builder => builder == n
  | .imperator builder => builder == n
  | .package .. | .metadata .. => true

def builderOf : Kind → Nat × Nat → Nat
  | .assembly, builders => builders.1
  | .retrieval, builders => builders.2

/-- A scan has registered the builder under this name. The tools keep the
Imperator's flow among theirs, as "imperator". -/
def Registered (written : List (Write Nat)) : Entry → Nat → Prop
  | .flow name, builder => .flow name builder ∈ written ∨ name = "imperator".toList ∧ .imperator builder ∈ written
  | .imperator, builder => .imperator builder ∈ written
  | .graph name kind, builder => ∃ builders, .buildType name builders ∈ written ∧ builderOf kind builders = builder

/-- A lazy singleton after it is asked for; `builds`: the builder does not raise. -/
def memo (cached builder : Option Nat) (builds : Bool) : Option Nat :=
  match cached with
  | some flow => some flow
  | none => if builds then builder else none

namespace State

variable (s : State)

/-! ## What the getters return -/

/-- mirrors app/flows/tool_dispatch.py:53-62 -/
def flow (name : Text) : Option Nat := (s.flowCache name).or (s.registry.flowBuilders name)

/-- mirrors app/flows/tool_dispatch.py:65-75 -/
def imperator : Option Nat := (s.flowCache "imperator".toList).or s.registry.imperatorBuilder

/-- The Imperator's flow, unless `te.yml` has changed since it was compiled. -/
def wrapperCached (mtime : Rat) : Option Nat := if mtime = s.teConfigMtime then s.imperatorFlow else none

/-- mirrors app/flows/imperator_wrapper.py:24-56 -/
def wrapperFlow (mtime : Rat) : Option Nat := (s.wrapperCached mtime).or s.registry.imperatorBuilder

/-- mirrors app/workers/db_worker.py:41-48 -/
def embed : Option Nat := s.embedFlow.or (s.registry.flowBuilders "embed_pipeline".toList)

/-- mirrors app/workers/db_worker.py:51-59 -/
def extraction : Option Nat := s.extractionFlow.or (s.registry.flowBuilders "memory_extraction".toList)

/-- What can be obtained next: from the cached graphs, from a thread that is
done, or from one of the getters. -/
inductive Obtains : Entry → Nat → Prop where
  | graph {name : Text} {kind : Kind} {g : Nat} (h : s.compiledCache (name, kind) = some g) :
    Obtains (.graph name kind) g
  | delivered {i : Nat} {name : Text} {kind : Kind} {g : Nat} (h : s.threads i = some (.compiled name kind (some g))) :
    Obtains (.graph name kind) g
  | flow {name : Text} {g : Nat} (h : s.flow name = some g) : Obtains (.flow name) g
  | imperator {g : Nat} (h : s.imperator = some g) : Obtains (.flow "imperator".toList) g
  | wrapper {mtime : Rat} {g : Nat} (h : s.wrapperFlow mtime = some g) : Obtains .imperator g
  | embed {g : Nat} (h : s.embed = some g) : Obtains (.flow "embed_pipeline".toList) g
  | extraction {g : Nat} (h : s.extraction = some g) : Obtains (.flow "memory_extraction".toList) g

/-- Only what the newest installation that has returned, or a later scan, has
registered. -/
def Current : Prop := ∀ entry g, s.Obtains entry g → s.floor ≤ g ∧ Registered s.written entry g

end State

/-! ## Steps -/

inductive Label where
  | getFlow (name : Text) (builds : Bool)
  | getImperatorFlow (builds : Bool)
  | getWrapperFlow (mtime : Rat) (builds : Bool)
  | getEmbedFlow (builds : Bool)
  | getExtractionFlow (builds : Bool)
  | getGraph (i : Nat) (name : Text) (kind : Kind)
  /-- `_get_graph_sync` in the thread of the caller `i`. -/
  | compile (i : Nat) (builds : Bool)
  | deliver (i : Nat)
  | install (i : Nat)
  /-- The package is not installed: the call returns an error, or raises. -/
  | pipFails (i : Nat) (returns : Bool)
  | scan (i : Nat)
  /-- The scan assigns to a registry. -/
  | write (w : Write Nat)
  /-- An exception leaves the scan. The scan of the startup ends like this, too. -/
  | leaveScan (i : Nat)
  /-- The scan returns, and `clear_compiled_cache` with it. -/
  | endScan (i : Nat)
  /-- The installation is recorded, or recording it raises. -/
  | recorded (i : Nat) (returns : Bool)

/-- mirrors app/flows/build_type_registry.py:62-84 -/
def compileGraph (s : State) (name : Text) (kind : Kind) (builds : Bool) : State × Option Nat :=
  match s.compiledCache (name, kind) with
  | some g => (s, some g)
  | none =>
    match s.registry.buildTypes name with
    | none => (s, none)
    | some builders =>
      if builds then
        ({ s with compiledCache := Function.update s.compiledCache (name, kind) (some (builderOf kind builders)) },
          some (builderOf kind builders))
      else (s, none)

def step (s : State) : Label → Option State
  | .getFlow name builds =>
    if s.busy then none
    else
      let flow := memo (s.flowCache name) (s.registry.flowBuilders name) builds
      some { s with flowCache := Function.update s.flowCache name flow }
  | .getImperatorFlow builds =>
    if s.busy then none
    else
      let flow := memo (s.flowCache "imperator".toList) s.registry.imperatorBuilder builds
      some { s with flowCache := Function.update s.flowCache "imperator".toList flow }
  | .getWrapperFlow mtime builds =>
    if s.busy then none
    else
      let flow := memo (s.wrapperCached mtime) s.registry.imperatorBuilder builds
      some { s with imperatorFlow := flow, teConfigMtime := if flow.isSome then mtime else s.teConfigMtime }
  | .getEmbedFlow builds =>
    if s.busy then none
    else some { s with embedFlow := memo s.embedFlow (s.registry.flowBuilders "embed_pipeline".toList) builds }
  | .getExtractionFlow builds =>
    if s.busy then none
    else
      let flow := memo s.extractionFlow (s.registry.flowBuilders "memory_extraction".toList) builds
      some { s with extractionFlow := flow }
  | .getGraph i name kind =>
    if s.busy then none
    else
      match s.threads i, s.compiledCache (name, kind) with
      | some _, _ => none
      | none, some _ => some s
      | none, none => some { s with threads := Function.update s.threads i (some (.compiling name kind)) }
  | .compile i builds =>
    match s.threads i with
    | some (.compiling name kind) =>
      some { (compileGraph s name kind builds).1 with
        threads := Function.update s.threads i (some (.compiled name kind (compileGraph s name kind builds).2)) }
    | _ => none
  | .deliver i =>
    if s.busy then none
    else
      match s.threads i with
      | some (.compiled ..) => some { s with threads := Function.update s.threads i none }
      | _ => none
  | .install i =>
    if s.busy then none
    else
      match s.installs i with
      | none => some { s with installs := Function.update s.installs i (some .installing) }
      | some _ => none
  | .pipFails i returns =>
    if s.busy then none
    else
      match s.installs i with
      | some .installing =>
        if returns then
          some { s with flowCache := fun _ => none, imperatorFlow := none
                        installs := Function.update s.installs i none }
        else some { s with installs := Function.update s.installs i none }
      | _ => none
  | .scan i =>
    if s.busy then none
    else
      match s.installs i with
      | some .installing =>
        some { s with scans := s.scans + 1, registry := s.registry.cleared, busy := true
                      installs := Function.update s.installs i (some .scanning) }
      | _ => none
  | .write w =>
    if s.busy && taggedBy s.scans w then some { s with registry := s.registry.write w, written := w :: s.written }
    else none
  | .leaveScan i =>
    match s.installs i with
    | some .scanning => some { s with busy := false, installs := Function.update s.installs i none }
    | _ => none
  | .endScan i =>
    match s.installs i with
    | some .scanning =>
      some { s with busy := false, compiledCache := fun _ => none
                    installs := Function.update s.installs i (some (.recording s.scans)) }
    | _ => none
  | .recorded i returns =>
    if s.busy then none
    else
      match s.installs i with
      | some (.recording n) =>
        if returns then
          some { s with flowCache := fun _ => none, imperatorFlow := none, floor := max s.floor n
                        installs := Function.update s.installs i none }
        else some { s with installs := Function.update s.installs i none }
      | _ => none

/-! ## A whole scan -/

/-- The steps of one scan come to what `PackageRegistry.scan` says. -/
theorem scan_run {s : State} {i : Nat} (hbusy : s.busy = false) (hi : s.installs i = some .installing)
    (entryPoints : Group → List (EntryPoint Nat))
    (htags : ∀ w ∈ writesOf (reached entryPoints), taggedBy (s.scans + 1) w = true) :
    exec step s (.scan i :: (writesOf (reached entryPoints)).map .write) =
      some { s with scans := s.scans + 1, registry := (PackageRegistry.scan s.registry entryPoints).1, busy := true
                    installs := Function.update s.installs i (some .scanning)
                    written := (writesOf (reached entryPoints)).reverse ++ s.written } := by
  have hwrites : ∀ (ws : List (Write Nat)) (t : State), t.busy = true → (∀ w ∈ ws, taggedBy t.scans w = true) →
      exec step t (ws.map .write) =
        some { t with registry := ws.foldl Registry.write t.registry, written := ws.reverse ++ t.written } := by
    intro ws
    induction ws with
    | nil => exact fun t _ _ => rfl
    | cons w ws ih =>
      intro t ht hws
      have hw := hws w List.mem_cons_self
      have hstep : step t (.write w) = some { t with registry := t.registry.write w, written := w :: t.written } :=
        if_pos (by rw [ht, hw]; rfl)
      rw [List.map_cons, exec, hstep, Option.bind_some,
        ih { t with registry := t.registry.write w, written := w :: t.written } ht
          fun w' hw' => hws w' (List.mem_cons_of_mem _ hw'),
        List.reverse_cons, List.append_assoc]
      rfl
  simp only [exec, step, hbusy, hi, Bool.false_eq_true, if_false, Option.bind_some]
  rw [hwrites _ _ rfl htags, scan_eq]

/-! ## What is kept -/

variable {s s' : State} {entry : Entry} {g : Nat}

/-- What is compiled already. -/
inductive Kept (s : State) : Entry → Nat → Prop where
  | graph {name : Text} {kind : Kind} {g : Nat} (h : s.compiledCache (name, kind) = some g) :
    Kept s (.graph name kind) g
  | delivered {i : Nat} {name : Text} {kind : Kind} {g : Nat} (h : s.threads i = some (.compiled name kind (some g))) :
    Kept s (.graph name kind) g
  | flow {name : Text} {g : Nat} (h : s.flowCache name = some g) : Kept s (.flow name) g
  | wrapper {g : Nat} (h : s.imperatorFlow = some g) : Kept s .imperator g
  | embed {g : Nat} (h : s.embedFlow = some g) : Kept s (.flow "embed_pipeline".toList) g
  | extraction {g : Nat} (h : s.extractionFlow = some g) : Kept s (.flow "memory_extraction".toList) g

/-- What the registries would have compiled. -/
def Offers (s : State) : Entry → Nat → Prop
  | .flow name, builder =>
    s.registry.flowBuilders name = some builder ∨
      name = "imperator".toList ∧ s.registry.imperatorBuilder = some builder
  | .imperator, builder => s.registry.imperatorBuilder = some builder
  | .graph name kind, builder =>
    ∃ builders, s.registry.buildTypes name = some builders ∧ builderOf kind builders = builder

theorem State.Obtains.kept_or_offers (h : s.Obtains entry g) :
    Kept s entry g ∨ Offers s entry g ∧ ∀ name kind, entry ≠ .graph name kind := by
  cases h with
  | graph hg => exact .inl (.graph hg)
  | delivered hg => exact .inl (.delivered hg)
  | flow hg =>
    rcases Option.or_eq_some_iff.mp hg with hcached | ⟨_, hb⟩
    · exact .inl (.flow hcached)
    · exact .inr ⟨.inl hb, by simp⟩
  | imperator hg =>
    rcases Option.or_eq_some_iff.mp hg with hcached | ⟨_, hb⟩
    · exact .inl (.flow hcached)
    · exact .inr ⟨.inr ⟨rfl, hb⟩, by simp⟩
  | wrapper hg =>
    rcases Option.or_eq_some_iff.mp hg with hcached | ⟨_, hb⟩
    · exact .inl (.wrapper (Option.ite_none_right_eq_some.mp hcached).2)
    · exact .inr ⟨hb, by simp⟩
  | embed hg =>
    rcases Option.or_eq_some_iff.mp hg with hcached | ⟨_, hb⟩
    · exact .inl (.embed hcached)
    · exact .inr ⟨.inl hb, by simp⟩
  | extraction hg =>
    rcases Option.or_eq_some_iff.mp hg with hcached | ⟨_, hb⟩
    · exact .inl (.extraction hcached)
    · exact .inr ⟨.inl hb, by simp⟩

theorem Kept.obtains (h : Kept s entry g) : s.Obtains entry g := by
  cases h with
  | graph hg => exact .graph hg
  | delivered hg => exact .delivered hg
  | flow hg => exact .flow (by rw [State.flow, hg]; rfl)
  | wrapper hg =>
    refine @State.Obtains.wrapper s s.teConfigMtime g ?_
    rw [State.wrapperFlow, State.wrapperCached, if_pos rfl, hg]
    rfl
  | embed hg => exact .embed (by rw [State.embed, hg]; rfl)
  | extraction hg => exact .extraction (by rw [State.extraction, hg]; rfl)

/-! ## What a step compiles -/

/-- The step compiles what is asked for; a graph only in a thread that finds
none. -/
def Label.Builds (s : State) (l : Label) : Entry → Prop
  | .graph name kind =>
    ∃ i, l = .compile i true ∧ s.threads i = some (.compiling name kind) ∧ s.compiledCache (name, kind) = none
  | _ => True

theorem memo_eq_some {cached builder : Option Nat} {builds : Bool} {g : Nat} (h : memo cached builder builds = some g) :
    cached = some g ∨ builder = some g := by
  unfold memo at h
  cases cached with
  | some flow => exact .inl h
  | none =>
    cases builds with
    | true => exact .inr h
    | false => cases h

/-- The registries and the installations keep nothing. -/
theorem kept_caches {scans floor : Nat} {registry : Registry Nat} {busy : Bool} {installs : Nat → Option Install}
    {written : List (Write Nat)} {compiledCache : Text × Kind → Option Nat} {flowCache : Text → Option Nat}
    {imperatorFlow : Option Nat} (hcompiled : ∀ key g, compiledCache key = some g → s.compiledCache key = some g)
    (hflow : ∀ name g, flowCache name = some g → s.flowCache name = some g)
    (himperator : ∀ g, imperatorFlow = some g → s.imperatorFlow = some g)
    (h : Kept { s with scans, registry, compiledCache, flowCache, imperatorFlow, installs, busy, floor, written }
      entry g) :
    Kept s entry g := by
  cases h with
  | graph hg => exact .graph (hcompiled _ g hg)
  | delivered hg => exact .delivered hg
  | flow hg => exact .flow (hflow _ g hg)
  | wrapper hg => exact .wrapper (himperator g hg)
  | embed hg => exact .embed hg
  | extraction hg => exact .extraction hg

theorem kept_threads {i : Nat} {v : Option Thread}
    (hv : ∀ name kind g, v = some (.compiled name kind (some g)) → Kept s (.graph name kind) g)
    (h : Kept { s with threads := Function.update s.threads i v } entry g) : Kept s entry g := by
  cases h with
  | graph hg => exact .graph hg
  | @delivered j name kind _ hg =>
    by_cases hj : j = i
    · subst hj
      simp only [Function.update_self] at hg
      exact hv name kind g hg
    · simp only [Function.update_of_ne hj] at hg
      exact .delivered hg
  | flow hg => exact .flow hg
  | wrapper hg => exact .wrapper hg
  | embed hg => exact .embed hg
  | extraction hg => exact .extraction hg

/-- A tool's flow, or the Imperator's, is asked for. -/
theorem kept_flowCache {name : Text} {builder : Option Nat} {builds : Bool}
    (hb : ∀ b, builder = some b → Offers s (.flow name) b)
    (h : Kept { s with flowCache := Function.update s.flowCache name (memo (s.flowCache name) builder builds) }
      entry g) :
    Kept s entry g ∨ Offers s entry g ∧ ∀ name' kind, entry ≠ .graph name' kind := by
  cases h with
  | graph hg => exact .inl (.graph hg)
  | delivered hg => exact .inl (.delivered hg)
  | @flow name' _ hg =>
    by_cases hname : name' = name
    · subst hname
      simp only [Function.update_self] at hg
      rcases memo_eq_some hg with hcached | hbuilt
      · exact .inl (.flow hcached)
      · exact .inr ⟨hb g hbuilt, by simp⟩
    · simp only [Function.update_of_ne hname] at hg
      exact .inl (.flow hg)
  | wrapper hg => exact .inl (.wrapper hg)
  | embed hg => exact .inl (.embed hg)
  | extraction hg => exact .inl (.extraction hg)

/-- A graph is compiled, cached and handed on. -/
theorem kept_compiled {i : Nat} {name : Text} {kind : Kind} {b : Nat}
    (h : Kept { s with compiledCache := Function.update s.compiledCache (name, kind) (some b)
                       threads := Function.update s.threads i (some (.compiled name kind (some b))) } entry g) :
    Kept s entry g ∨ entry = .graph name kind ∧ g = b := by
  cases h with
  | @graph name' kind' _ hg =>
    by_cases hkey : (name', kind') = (name, kind)
    · obtain ⟨rfl, rfl⟩ := Prod.mk.inj hkey
      simp only [Function.update_self, Option.some.injEq] at hg
      exact .inr ⟨rfl, hg.symm⟩
    · simp only [Function.update_of_ne hkey] at hg
      exact .inl (.graph hg)
  | @delivered j name' kind' _ hg =>
    by_cases hj : j = i
    · subst hj
      simp only [Function.update_self, Option.some.injEq, Thread.compiled.injEq] at hg
      obtain ⟨rfl, rfl, rfl⟩ := hg
      exact .inr ⟨rfl, rfl⟩
    · simp only [Function.update_of_ne hj] at hg
      exact .inl (.delivered hg)
  | flow hg => exact .inl (.flow hg)
  | wrapper hg => exact .inl (.wrapper hg)
  | embed hg => exact .inl (.embed hg)
  | extraction hg => exact .inl (.extraction hg)

/-- The thread of `i` is done. -/
theorem kept_compile {i : Nat} {builds : Bool} {name : Text} {kind : Kind}
    (hi : s.threads i = some (.compiling name kind))
    (h : Kept { (compileGraph s name kind builds).1 with
      threads := Function.update s.threads i (some (.compiled name kind (compileGraph s name kind builds).2)) }
      entry g) :
    Kept s entry g ∨ (Label.compile i builds).Builds s entry ∧ Offers s entry g := by
  unfold compileGraph at h
  cases hcached : s.compiledCache (name, kind) with
  | some graph =>
    -- Another thread was first: its graph is handed on.
    simp only [hcached] at h
    refine .inl (kept_threads (fun name' kind' g' hg' => ?_) h)
    simp only [Option.some.injEq, Thread.compiled.injEq] at hg'
    obtain ⟨rfl, rfl, rfl⟩ := hg'
    exact .graph hcached
  | none =>
    cases hbuilders : s.registry.buildTypes name with
    | none =>
      simp only [hcached, hbuilders] at h
      exact .inl (kept_threads (by simp) h)
    | some builders =>
      cases builds with
      | false =>
        simp only [hcached, hbuilders, Bool.false_eq_true, if_false] at h
        exact .inl (kept_threads (by simp) h)
      | true =>
        simp only [hcached, hbuilders, if_true] at h
        rcases kept_compiled h with hold | ⟨rfl, rfl⟩
        · exact .inl hold
        · exact .inr ⟨⟨i, rfl, hi, hcached⟩, builders, hbuilders, rfl⟩

/-- The Imperator's flow or a worker's is asked for. -/
theorem kept_singles {imperatorFlow embedFlow extractionFlow : Option Nat} {teConfigMtime : Rat}
    (himperator : ∀ g, imperatorFlow = some g → s.imperatorFlow = some g ∨ Offers s .imperator g)
    (hembed : ∀ g, embedFlow = some g → s.embedFlow = some g ∨ Offers s (.flow "embed_pipeline".toList) g)
    (hextraction : ∀ g, extractionFlow = some g →
      s.extractionFlow = some g ∨ Offers s (.flow "memory_extraction".toList) g)
    (h : Kept { s with imperatorFlow, teConfigMtime, embedFlow, extractionFlow } entry g) :
    Kept s entry g ∨ Offers s entry g ∧ ∀ name kind, entry ≠ .graph name kind := by
  cases h with
  | graph hg => exact .inl (.graph hg)
  | delivered hg => exact .inl (.delivered hg)
  | flow hg => exact .inl (.flow hg)
  | wrapper hg => exact (himperator g hg).imp .wrapper fun hoffers => ⟨hoffers, by simp⟩
  | embed hg => exact (hembed g hg).imp .embed fun hoffers => ⟨hoffers, by simp⟩
  | extraction hg => exact (hextraction g hg).imp .extraction fun hoffers => ⟨hoffers, by simp⟩

/-! ## What a step does -/

inductive Effect (s : State) : Label → State → Prop where
  | idle {l : Label} : Effect s l s
  | flow {l : Label} {name : Text} {builder : Option Nat} {builds : Bool}
    (hb : ∀ b, builder = some b → Offers s (.flow name) b) :
    Effect s l
      { s with flowCache := Function.update s.flowCache name (memo (s.flowCache name) builder builds) }
  | singles {l : Label} {imperatorFlow embedFlow extractionFlow : Option Nat} {teConfigMtime : Rat}
    (himperator : ∀ g, imperatorFlow = some g → s.imperatorFlow = some g ∨ Offers s .imperator g)
    (hembed : ∀ g, embedFlow = some g → s.embedFlow = some g ∨ Offers s (.flow "embed_pipeline".toList) g)
    (hextraction : ∀ g, extractionFlow = some g →
      s.extractionFlow = some g ∨ Offers s (.flow "memory_extraction".toList) g) :
    Effect s l { s with imperatorFlow, teConfigMtime, embedFlow, extractionFlow }
  /-- A thread begins, or its graph is handed on. -/
  | thread {l : Label} {i : Nat} {v : Option Thread} (hv : ∀ name kind g, v ≠ some (.compiled name kind g)) :
    Effect s l { s with threads := Function.update s.threads i v }
  | compile {i : Nat} {builds : Bool} {name : Text} {kind : Kind} (hi : s.threads i = some (.compiling name kind)) :
    Effect s (.compile i builds) { (compileGraph s name kind builds).1 with
      threads := Function.update s.threads i (some (.compiled name kind (compileGraph s name kind builds).2)) }
  /-- An installation begins or fails. -/
  | call {l : Label} {i : Nat} {v : Option Install} {busy : Bool} {flowCache : Text → Option Nat}
    {imperatorFlow : Option Nat} (hv : ∀ n, v ≠ some (.recording n))
    (hflow : ∀ name g, flowCache name = some g → s.flowCache name = some g)
    (himperator : ∀ g, imperatorFlow = some g → s.imperatorFlow = some g) :
    Effect s l { s with installs := Function.update s.installs i v, busy, flowCache, imperatorFlow }
  | scan {l : Label} {i : Nat} :
    Effect s l { s with scans := s.scans + 1, registry := s.registry.cleared, busy := true
                        installs := Function.update s.installs i (some .scanning) }
  | write {l : Label} {w : Write Nat} (htag : taggedBy s.scans w = true) :
    Effect s l { s with registry := s.registry.write w, written := w :: s.written }
  | endScan {l : Label} {i : Nat} :
    Effect s l { s with busy := false, compiledCache := fun _ => none
                        installs := Function.update s.installs i (some (.recording s.scans)) }
  | recorded {i n : Nat} (hi : s.installs i = some (.recording n)) :
    Effect s (.recorded i true) { s with flowCache := fun _ => none, imperatorFlow := none, floor := max s.floor n
                                         installs := Function.update s.installs i none }

theorem effect_of_step {l : Label} (hs : step s l = some s') : Effect s l s' := by
  cases l with
  | getFlow name builds =>
    obtain ⟨_, hs⟩ := Option.ite_none_left_eq_some.mp hs
    obtain rfl := Option.some.inj hs
    exact .flow fun _ hb => .inl hb
  | getImperatorFlow builds =>
    obtain ⟨_, hs⟩ := Option.ite_none_left_eq_some.mp hs
    obtain rfl := Option.some.inj hs
    exact .flow fun _ hb => .inr ⟨rfl, hb⟩
  | getWrapperFlow mtime builds =>
    obtain ⟨_, hs⟩ := Option.ite_none_left_eq_some.mp hs
    obtain rfl := Option.some.inj hs
    refine .singles (fun g hg => ?_) (fun _ hg => .inl hg) (fun _ hg => .inl hg)
    exact (memo_eq_some hg).imp_left fun hcached => (Option.ite_none_right_eq_some.mp hcached).2
  | getEmbedFlow builds =>
    obtain ⟨_, hs⟩ := Option.ite_none_left_eq_some.mp hs
    obtain rfl := Option.some.inj hs
    exact .singles (fun _ hg => .inl hg) (fun _ hg => (memo_eq_some hg).imp_right .inl) (fun _ hg => .inl hg)
  | getExtractionFlow builds =>
    obtain ⟨_, hs⟩ := Option.ite_none_left_eq_some.mp hs
    obtain rfl := Option.some.inj hs
    exact .singles (fun _ hg => .inl hg) (fun _ hg => .inl hg) (fun _ hg => (memo_eq_some hg).imp_right .inl)
  | getGraph i name kind =>
    obtain ⟨_, hs⟩ := Option.ite_none_left_eq_some.mp hs
    split at hs
    · cases hs
    · obtain rfl := Option.some.inj hs
      exact .idle
    · obtain rfl := Option.some.inj hs
      exact .thread (by simp)
  | compile i builds =>
    unfold HotReload.step at hs
    dsimp only at hs
    split at hs
    · next hi =>
      obtain rfl := Option.some.inj hs
      exact .compile hi
    · cases hs
  | deliver i =>
    obtain ⟨_, hs⟩ := Option.ite_none_left_eq_some.mp hs
    split at hs
    · obtain rfl := Option.some.inj hs
      exact .thread (by simp)
    · cases hs
  | install i =>
    obtain ⟨_, hs⟩ := Option.ite_none_left_eq_some.mp hs
    split at hs
    · obtain rfl := Option.some.inj hs
      exact .call (by simp) (fun _ _ hg => hg) (fun _ hg => hg)
    · cases hs
  | pipFails i returns =>
    obtain ⟨_, hs⟩ := Option.ite_none_left_eq_some.mp hs
    split at hs
    · cases returns with
      | true =>
        obtain rfl := Option.some.inj hs
        exact .call (by simp) (by simp) (by simp)
      | false =>
        obtain rfl := Option.some.inj hs
        exact .call (by simp) (fun _ _ hg => hg) (fun _ hg => hg)
    · cases hs
  | scan i =>
    obtain ⟨_, hs⟩ := Option.ite_none_left_eq_some.mp hs
    split at hs
    · obtain rfl := Option.some.inj hs
      exact .scan
    · cases hs
  | write w =>
    obtain ⟨hguard, hs⟩ := Option.ite_none_right_eq_some.mp hs
    obtain rfl := Option.some.inj hs
    exact .write (Bool.and_eq_true_iff.mp hguard).2
  | leaveScan i =>
    unfold HotReload.step at hs
    dsimp only at hs
    split at hs
    · obtain rfl := Option.some.inj hs
      exact .call (by simp) (fun _ _ hg => hg) (fun _ hg => hg)
    · cases hs
  | endScan i =>
    unfold HotReload.step at hs
    dsimp only at hs
    split at hs
    · obtain rfl := Option.some.inj hs
      exact .endScan
    · cases hs
  | recorded i returns =>
    obtain ⟨_, hs⟩ := Option.ite_none_left_eq_some.mp hs
    split at hs
    · next hi =>
      cases returns with
      | true =>
        obtain rfl := Option.some.inj hs
        exact .recorded hi
      | false =>
        obtain rfl := Option.some.inj hs
        exact .call (by simp) (fun _ _ hg => hg) (fun _ hg => hg)
    · cases hs

theorem Label.builds_of_ne {l : Label} (h : ∀ name kind, entry ≠ .graph name kind) : l.Builds s entry := by
  cases entry with
  | flow | imperator => trivial
  | graph name kind => exact absurd rfl (h name kind)

/-- What is kept after a step was kept before, or the step has compiled it from
what the registries held. -/
theorem kept_step {l : Label} (hs : step s l = some s') (h : Kept s' entry g) :
    Kept s entry g ∨ l.Builds s entry ∧ Offers s entry g := by
  cases effect_of_step hs with
  | idle => exact .inl h
  | flow hb =>
    rcases kept_flowCache hb h with hold | ⟨hoffers, hentry⟩
    · exact .inl hold
    · exact .inr ⟨Label.builds_of_ne hentry, hoffers⟩
  | singles himperator hembed hextraction =>
    rcases kept_singles himperator hembed hextraction h with hold | ⟨hoffers, hentry⟩
    · exact .inl hold
    · exact .inr ⟨Label.builds_of_ne hentry, hoffers⟩
  | thread hv => exact .inl (kept_threads (fun name kind g hg => absurd hg (hv name kind (some g))) h)
  | compile hi => exact kept_compile hi h
  | call _ hflow himperator => exact .inl (kept_caches (fun _ _ hg => hg) hflow himperator h)
  | scan | write => exact .inl (kept_caches (fun _ _ hg => hg) (fun _ _ hg => hg) (fun _ hg => hg) h)
  | endScan => exact .inl (kept_caches (by simp) (fun _ _ hg => hg) (fun _ hg => hg) h)
  | recorded => exact .inl (kept_caches (fun _ _ hg => hg) (by simp) (by simp) h)

/-! ## Builders -/

/-- What the registries hold and what is kept has been registered, the flow
builders and the Imperator's by the last scan. -/
structure Inv (s : State) : Prop where
  flows : ∀ name b, s.registry.flowBuilders name = some b → b = s.scans ∧ .flow name b ∈ s.written
  imperator : ∀ b, s.registry.imperatorBuilder = some b → b = s.scans ∧ .imperator b ∈ s.written
  buildTypes : ∀ name builders, s.registry.buildTypes name = some builders → .buildType name builders ∈ s.written
  floor : s.floor ≤ s.scans
  recording : ∀ i n, s.installs i = some (.recording n) → n ≤ s.scans
  kept : ∀ entry g, Kept s entry g → Registered s.written entry g

theorem Inv.start : Inv {} where
  flows _ _ h := nomatch h
  imperator _ h := nomatch h
  buildTypes _ _ h := nomatch h
  floor := Nat.le_refl 0
  recording _ _ h := nomatch h
  kept entry g h := by cases h <;> contradiction

theorem Inv.offers (h : Inv s) (hg : Offers s entry g) : Registered s.written entry g := by
  cases entry with
  | flow name =>
    rcases hg with hg | ⟨hname, hg⟩
    · exact .inl (h.flows name g hg).2
    · exact .inr ⟨hname, (h.imperator g hg).2⟩
  | imperator => exact (h.imperator g hg).2
  | graph name kind =>
    obtain ⟨builders, hb, hg⟩ := hg
    exact ⟨builders, h.buildTypes name builders hb, hg⟩

/-- The flow builders and the Imperator's are as new as can be. -/
theorem Inv.floor_le (h : Inv s) (hg : Offers s entry g) (hentry : ∀ name kind, entry ≠ .graph name kind) :
    s.floor ≤ g := by
  cases entry with
  | flow name =>
    rcases hg with hg | ⟨_, hg⟩
    · exact (h.flows name g hg).1 ▸ h.floor
    · exact (h.imperator g hg).1 ▸ h.floor
  | imperator => exact (h.imperator g hg).1 ▸ h.floor
  | graph name kind => exact absurd rfl (hentry name kind)

theorem Registered.mono {written written' : List (Write Nat)} (hsub : written ⊆ written')
    (h : Registered written entry g) : Registered written' entry g := by
  cases entry with
  | flow name => exact h.imp (fun hw => hsub hw) fun hw => ⟨hw.1, hsub hw.2⟩
  | imperator => exact hsub h
  | graph name kind =>
    obtain ⟨builders, hw, hg⟩ := h
    exact ⟨builders, hsub hw, hg⟩

theorem recording_update {installs : Nat → Option Install} {n : Nat}
    (h : ∀ j m, installs j = some (.recording m) → m ≤ n)
    (i : Nat) {v : Option Install} (hv : ∀ m, v = some (.recording m) → m ≤ n) :
    ∀ j m, Function.update installs i v j = some (.recording m) → m ≤ n := by
  intro j m hj
  by_cases hji : j = i
  · subst hji
    rw [Function.update_self] at hj
    exact hv m hj
  · rw [Function.update_of_ne hji] at hj
    exact h j m hj

theorem compileGraph_registry (name : Text) (kind : Kind) (builds : Bool) :
    (compileGraph s name kind builds).1 =
      { s with compiledCache := (compileGraph s name kind builds).1.compiledCache } := by
  unfold compileGraph
  split
  · rfl
  · split
    · rfl
    · split <;> rfl

/-- The kept part comes from `kept_step`. -/
theorem Inv.of_step {l : Label} (h : Inv s) (hs : step s l = some s') (hwritten : s.written ⊆ s'.written)
    (hflows : ∀ name b, s'.registry.flowBuilders name = some b → b = s'.scans ∧ .flow name b ∈ s'.written)
    (himperator : ∀ b, s'.registry.imperatorBuilder = some b → b = s'.scans ∧ .imperator b ∈ s'.written)
    (hbuildTypes : ∀ name builders, s'.registry.buildTypes name = some builders →
      .buildType name builders ∈ s'.written)
    (hfloor : s'.floor ≤ s'.scans) (hrecording : ∀ i n, s'.installs i = some (.recording n) → n ≤ s'.scans) :
    Inv s' := by
  refine ⟨hflows, himperator, hbuildTypes, hfloor, hrecording, fun entry g hg => ?_⟩
  rcases kept_step hs hg with hold | ⟨_, hoffers⟩
  · exact (h.kept entry g hold).mono hwritten
  · exact (h.offers hoffers).mono hwritten

/-- A registration: what the registry holds afterwards is the write itself or
was there. -/
theorem Inv.step_write {w : Write Nat} (h : Inv s) (htag : taggedBy s.scans w = true) {l : Label}
    (hs : step s l = some { s with registry := s.registry.write w, written := w :: s.written }) :
    Inv { s with registry := s.registry.write w, written := w :: s.written } := by
  have hwritten : ∀ w', (s.registry.write w).Holds w' → w' = w ∨ s.registry.Holds w' := by
    intro w' hw'
    have hheld : ([w].foldl Registry.write s.registry).Holds w' := hw'
    exact (Registry.written hheld).imp_left List.mem_singleton.mp
  refine h.of_step hs (fun _ hw => List.mem_cons_of_mem _ hw) (fun name b hb => ?_) (fun b hb => ?_)
    (fun name builders hb => ?_) h.floor h.recording
  · rcases hwritten (.flow name b) hb with rfl | hold
    · exact ⟨eq_of_beq htag, List.mem_cons_self⟩
    · exact ⟨(h.flows name b hold).1, List.mem_cons_of_mem _ (h.flows name b hold).2⟩
  · rcases hwritten (.imperator b) hb with rfl | hold
    · exact ⟨eq_of_beq htag, List.mem_cons_self⟩
    · exact ⟨(h.imperator b hold).1, List.mem_cons_of_mem _ (h.imperator b hold).2⟩
  · rcases hwritten (.buildType name builders) hb with rfl | hold
    · exact List.mem_cons_self
    · exact List.mem_cons_of_mem _ (h.buildTypes name builders hold)

theorem Inv.step {l : Label} (h : Inv s) (hs : step s l = some s') : Inv s' := by
  cases effect_of_step hs with
  | idle => exact h
  | flow | singles | thread =>
    exact h.of_step hs (fun _ hw => hw) h.flows h.imperator h.buildTypes h.floor h.recording
  | compile =>
    rw [compileGraph_registry] at hs ⊢
    exact h.of_step hs (fun _ hw => hw) h.flows h.imperator h.buildTypes h.floor h.recording
  | call hv =>
    exact h.of_step hs (fun _ hw => hw) h.flows h.imperator h.buildTypes h.floor
      (recording_update h.recording _ fun n hn => absurd hn (hv n))
  | @scan _ i =>
    have hrecording : ∀ j m, s.installs j = some (.recording m) → m ≤ s.scans + 1 :=
      fun j m hj => Nat.le_succ_of_le (h.recording j m hj)
    -- `scan` clears the flow builders and keeps the build types.
    exact h.of_step hs (fun _ hw => hw) (fun _ _ hb => (nomatch hb)) (fun _ hb => (nomatch hb)) h.buildTypes
      (Nat.le_succ_of_le h.floor) (recording_update hrecording i fun _ hm => by simp at hm)
  | write htag => exact h.step_write htag hs
  | @endScan _ i =>
    refine h.of_step hs (fun _ hw => hw) h.flows h.imperator h.buildTypes h.floor
      (recording_update h.recording i fun m hm => ?_)
    obtain rfl : s.scans = m := by simpa using hm
    exact Nat.le_refl _
  | @recorded i n hi =>
    exact h.of_step hs (fun _ hw => hw) h.flows h.imperator h.buildTypes (max_le h.floor (h.recording i n hi))
      (recording_update h.recording i fun _ hm => by simp at hm)

/-! ## Which step makes the first old graph -/

/-- Only what is compiled already can be too old. -/
theorem current_iff_kept (h : Inv s) : s.Current ↔ ∀ entry g, Kept s entry g → s.floor ≤ g := by
  constructor
  · exact fun hcurrent entry g hkept => (hcurrent entry g hkept.obtains).1
  · intro hkept entry g hobtains
    rcases hobtains.kept_or_offers with hold | ⟨hoffers, hentry⟩
    · exact ⟨hkept entry g hold, h.kept entry g hold⟩
    · exact ⟨h.floor_le hoffers hentry, h.offers hoffers⟩

/-- No graph is compiled from a build type that only an older scan has
registered, and no installation returns while a worker keeps an older flow or
an older graph is cached or with a thread. -/
def Label.Refreshes (s : State) : Label → Prop
  | .compile i true => ∀ name kind builders, s.threads i = some (.compiling name kind) →
      s.compiledCache (name, kind) = none → s.registry.buildTypes name = some builders →
        s.floor ≤ builderOf kind builders
  | .recorded i true => ∀ n, s.installs i = some (.recording n) →
      (∀ g, s.embedFlow = some g → n ≤ g) ∧ (∀ g, s.extractionFlow = some g → n ≤ g) ∧
        (∀ name kind g, s.compiledCache (name, kind) = some g → n ≤ g) ∧
          ∀ j name kind g, s.threads j = some (.compiled name kind (some g)) → n ≤ g
  | _ => True

theorem floor_step {l : Label} (hs : step s l = some s') (hl : ∀ i, l ≠ .recorded i true) : s'.floor = s.floor := by
  cases effect_of_step hs with
  | idle | flow | singles | thread | call | scan | write | endScan => rfl
  | compile => rw [compileGraph_registry]
  | @recorded i => exact absurd rfl (hl i)

theorem recorded_eq {i : Nat} (hs : step s (.recorded i true) = some s') :
    ∃ n, s.installs i = some (.recording n) ∧
      s' = { s with flowCache := fun _ => none, imperatorFlow := none, floor := max s.floor n
                    installs := Function.update s.installs i none } := by
  obtain ⟨_, hs⟩ := Option.ite_none_left_eq_some.mp hs
  split at hs
  · next n hn => exact ⟨n, hn, (Option.some.inj hs).symm⟩
  · cases hs

/-- The installation `i` returns. -/
theorem recorded_current_iff {i n : Nat} (h : Inv s) (h' : Inv s') (hcurrent : s.Current)
    (hi : s.installs i = some (.recording n))
    (hs : s' = { s with flowCache := fun _ => none, imperatorFlow := none, floor := max s.floor n
                        installs := Function.update s.installs i none }) :
    s'.Current ↔ (Label.recorded i true).Refreshes s := by
  have hkept := (current_iff_kept h).mp hcurrent
  rw [current_iff_kept h', hs]
  constructor
  · intro hnew m hm
    obtain rfl : n = m := by simpa [hi] using hm
    refine ⟨fun g hg => ?_, fun g hg => ?_, fun name kind g hg => ?_, fun j name kind g hg => ?_⟩
    · exact le_trans (le_max_right _ _) (hnew _ g (.embed hg))
    · exact le_trans (le_max_right _ _) (hnew _ g (.extraction hg))
    · exact le_trans (le_max_right _ _) (hnew _ g (.graph hg))
    · exact le_trans (le_max_right _ _) (hnew _ g (.delivered hg))
  · intro hrefreshes entry g hg
    obtain ⟨hembed, hextraction, hgraph, hthread⟩ := hrefreshes n hi
    cases hg with
    | graph hg => exact max_le (hkept _ g (.graph hg)) (hgraph _ _ g hg)
    | delivered hg => exact max_le (hkept _ g (.delivered hg)) (hthread _ _ _ g hg)
    | flow hg => cases hg
    | wrapper hg => cases hg
    | embed hg => exact max_le (hkept _ g (.embed hg)) (hembed g hg)
    | extraction hg => exact max_le (hkept _ g (.extraction hg)) (hextraction g hg)

/-- A thread that compiles a graph keeps it. -/
theorem kept_of_compile {i : Nat} {name : Text} {kind : Kind} {builders : Nat × Nat}
    (hs : step s (.compile i true) = some s') (hi : s.threads i = some (.compiling name kind))
    (hnone : s.compiledCache (name, kind) = none) (hb : s.registry.buildTypes name = some builders) :
    Kept s' (.graph name kind) (builderOf kind builders) := by
  unfold HotReload.step at hs
  simp only [hi, compileGraph, hnone, hb, if_true, Option.some.injEq] at hs
  subst hs
  exact .graph (Function.update_self ..)

/-- **One step**: from a state with nothing old it leads to another exactly
when it meets its condition. -/
theorem current_step_iff {l : Label} (h : Inv s) (hcurrent : s.Current) (hs : step s l = some s') :
    s'.Current ↔ l.Refreshes s := by
  have h' := h.step hs
  by_cases hl : ∃ i, l = .recorded i true
  · obtain ⟨i, rfl⟩ := hl
    obtain ⟨n, hi, heq⟩ := recorded_eq hs
    exact recorded_current_iff h h' hcurrent hi heq
  rw [current_iff_kept h', floor_step hs (fun i hi => hl ⟨i, hi⟩)]
  constructor
  · intro hnew
    unfold Label.Refreshes
    split
    · intro name kind builders hi hnone hb
      exact hnew _ _ (kept_of_compile hs hi hnone hb)
    · exact absurd ⟨_, rfl⟩ hl
    · trivial
  · intro hrefreshes entry g hg
    rcases kept_step hs hg with hold | ⟨hbuilds, hoffers⟩
    · exact (hcurrent entry g hold.obtains).1
    · cases entry with
      | flow | imperator => exact h.floor_le hoffers (by simp)
      | graph name kind =>
        obtain ⟨i, rfl, hi, hnone⟩ := hbuilds
        obtain ⟨builders, hb, rfl⟩ := hoffers
        exact hrefreshes name kind builders hi hnone hb

/-- **Hot reload.** Through a run nothing obtained is older than the newest
installation that has returned exactly when every step meets its condition. -/
theorem current_iff (ls : List Label) :
    (∀ s, Passes step {} ls s → s.Current) ↔ ∀ s l s', Takes step {} ls s l s' → l.Refreshes s := by
  have hstart : State.Current {} :=
    (current_iff_kept Inv.start).mpr fun _ g _ => Nat.zero_le g
  exact always_iff (I := Inv) (fun _ _ _ h _ hs => h.step hs) (fun _ _ _ => current_step_iff) Inv.start hstart ls

/-- A worker has compiled its flow when a package is installed again. -/
def workerRun : List Label :=
  [.install 0, .scan 0, .write (.flow "embed_pipeline".toList 1), .leaveScan 0, .getEmbedFlow true,
    .install 1, .scan 1, .write (.flow "embed_pipeline".toList 2), .endScan 1, .recorded 1 true]

/-- A package registers its build types and fails after that. -/
def staleBuildType : List Label :=
  [.install 0, .scan 0, .write (.buildType "standard-tiered".toList (1, 1)), .endScan 0, .recorded 0 true,
    .install 1, .scan 1, .endScan 1, .recorded 1 true,
    .getGraph 0 "standard-tiered".toList .assembly, .compile 0 true]

/-- The worker goes on with the flow of the scan before, and the build type
that no package of the last scan has registered is still compiled. -/
theorem reload_missed :
    (∃ s, Passes step {} workerRun s ∧ ¬ s.Current) ∧ ∃ s, Passes step {} staleBuildType s ∧ ¬ s.Current := by
  constructor
  · have hrun : (exec step {} workerRun).any (fun s => decide (s.floor = 2 ∧ s.embed = some 1)) = true := by
      decide +kernel
    obtain ⟨s, hs, hend⟩ := (Option.any_eq_true _ _).mp hrun
    obtain ⟨hfloor, hembed⟩ := of_decide_eq_true hend
    refine ⟨s, passes_of_exec hs, fun hcurrent => ?_⟩
    have hle := (hcurrent _ 1 (.embed hembed)).1
    omega
  · have hrun : (exec step {} staleBuildType).any (fun s => decide (s.floor = 2 ∧
        s.compiledCache ("standard-tiered".toList, .assembly) = some 1)) = true := by
      decide +kernel
    obtain ⟨s, hs, hend⟩ := (Option.any_eq_true _ _).mp hrun
    obtain ⟨hfloor, hgraph⟩ := of_decide_eq_true hend
    refine ⟨s, passes_of_exec hs, fun hcurrent => ?_⟩
    have hle := (hcurrent _ 1 (.graph hgraph)).1
    omega

end ContextBroker.HotReload
