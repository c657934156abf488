import ContextBroker.Core.FileCache
import ContextBroker.Core.LTS
import ContextBroker.L1Data.Schema
import Mathlib.Logic.Function.Basic

/-!
# The configuration caches

`config.yml` (AE) and `te.yml` (TE) are cached with the modification time of
the file (`Core.FileCache`) and the hash of its text; a text with another
hash clears the model clients. Five functions load: one file, or both, the
second over the first.

`step` interleaves any number of loads with writes, removals and
invalidations. A load is at one of three points: about to take the time of a
file, about to read and parse it, or about to update the cache. Loads run in
the event loop and, whole or but for the reading, in executor threads
(`get_ctx().load_merged_config` of a tool). The test of a cache follows the
time of its file with no call between, and the three stores of an update, under
`_cache_lock`, have none between them: the interpreter switches threads at
calls and loops, so either is one step. The time a cache is filled with was
taken before the content was read, and a slow load may be the last to fill it;
still, `load_returns_current`: what a load takes from the cache is the parse of
the text the file has at that moment.
-/
namespace ContextBroker.ConfigCache

open FileCache LTS

/-! ## Files and globals -/

/-- `CONFIG_PATH` and `TE_CONFIG_PATH`. -/
inductive Layer where
  | ae | te
  deriving DecidableEq, Repr

/-- A dict, its keys in insertion order. -/
abbrev Dict (V : Type) := List (Text × V)

/-- `{**a, **b}`. -/
def overlay {V : Type} (a b : Dict V) : Dict V :=
  (a.map fun (k, v) => (k, (b.lookup k).getD v)) ++ b.filter fun (k, _) => (a.lookup k).isNone

/-- `yaml.safe_load`: a mapping, another value, or a `YAMLError`. -/
inductive Loaded (V : Type) where
  | mapping (config : Dict V)
  | otherValue
  | malformed

/-- What a load raises: `RuntimeError` for the first two, `ValueError` for
the third. -/
inductive LoadError where
  | notFound (layer : Layer)
  | malformed (layer : Layer)
  | notMapping (layer : Layer)
  deriving DecidableEq, Repr

def LoadError.exn : LoadError → Exn
  | .notFound _ | .malformed _ => .runtimeError
  | .notMapping _ => .valueError

/-- `_config_cache`, `_config_mtime` and `_config_content_hash`, or those of
the TE configuration. -/
structure ConfigSlot (V : Type) extends Slot Rat (Dict V) where
  contentHash : Text

/-- The globals of `app/config.py`; `A` and `E` are the chat and the embedding
clients. -/
structure Globals (V A E : Type) where
  slot : Layer → ConfigSlot V := fun _ => ⟨⟨none, 0⟩, []⟩
  llmCache : Dict A := []
  embeddingsCache : Dict E := []

abbrev Files := Layer → Source Rat Text

section Functions

variable {V A E : Type} (safeLoad : Text → Loaded V) (sha256 : Text → Text)

/-- mirrors app/config.py:41-51 -/
def invalidateConfigCache (g : Globals V A E) : Globals V A E :=
  { g with slot := Function.update g.slot .ae ⟨⟨none, 0⟩, []⟩ }

/-- mirrors app/config.py:54-73,212-227 -/
def readAndParse (layer : Layer) (file : Source Rat Text) : Except LoadError (Dict V × Text) :=
  match file.current with
  | none => .error (.notFound layer)
  | some (_, raw) =>
    match safeLoad raw with
    | .mapping config => .ok (config, raw)
    | .otherValue => .error (.notMapping layer)
    | .malformed => .error (.malformed layer)

/-- Whether `_apply_config` clears the clients. -/
def clears (g : Globals V A E) (layer : Layer) (raw : Text) : Bool :=
  sha256 raw != (g.slot layer).contentHash && (g.slot layer).contentHash != []

/-- mirrors app/config.py:76-99,230-248 -/
def applyLayer (layer : Layer) (config : Dict V) (raw : Text) (mtime : Rat) (g : Globals V A E) : Globals V A E :=
  let g := if clears sha256 g layer raw then { g with llmCache := [], embeddingsCache := [] } else g
  { g with slot := Function.update g.slot layer ⟨⟨some config, mtime⟩, sha256 raw⟩ }

end Functions

/-! ## Loads in flight -/

/-- mirrors app/config.py:102-191,251-294 -/
inductive Load where
  | loadConfig | loadTeConfig | loadMergedConfig | asyncLoadConfig | asyncLoadTeConfig
  deriving DecidableEq, Repr

/-- The file it starts with. -/
def Load.first : Load → Layer
  | .loadConfig | .loadMergedConfig | .asyncLoadConfig => .ae
  | .loadTeConfig | .asyncLoadTeConfig => .te

/-- It goes on with the TE configuration. -/
def Load.merges : Load → Bool
  | .loadMergedConfig | .asyncLoadConfig => true
  | .loadConfig | .loadTeConfig | .asyncLoadTeConfig => false

/-- One file's part of what a load returns. `hit`: it came from the cache,
and this was the text of the file as its time was taken. -/
structure LayerConfig (V : Type) where
  layer : Layer
  config : Dict V
  hit : Option Text := none

inductive Phase (V : Type) where
  | stat
  | read (mtime : Rat)
  | apply (mtime : Rat) (config : Dict V) (raw : Text)

/-- A load working on `layer`; `base` is the AE part it has already. -/
structure Call (V : Type) where
  load : Load
  base : Option (LayerConfig V) := none
  layer : Layer
  phase : Phase V := .stat

/-- What a load returned, and from which parts. -/
structure Returned (V : Type) where
  load : Load
  parts : List (LayerConfig V)
  config : Dict V

structure State (V A E : Type) where
  files : Files
  globals : Globals V A E := {}
  calls : Nat → Option (Call V) := fun _ => none
  returned : List (Returned V) := []

/-- How a load goes on: to its next point, to its end, or to an exception. -/
inductive Next (V : Type) where
  | call (c : Call V)
  | done (r : Returned V)
  | raised (e : LoadError)

section Steps

variable {V A E : Type}

/-- The load `c` has its part of one file. -/
def Call.resume (c : Call V) (p : LayerConfig V) : Next V :=
  match c.base with
  | some ae => .done { load := c.load, parts := [ae, p], config := overlay ae.config p.config }
  | none =>
    if c.load.merges then .call { load := c.load, base := some p, layer := .te }
    else .done { load := c.load, parts := [p], config := p.config }

/-- A `FileNotFoundError` of `os.stat`, or what reading the file raised.
`load_merged_config` goes without a TE configuration on every
`RuntimeError`, `async_load_config` only if the file was not there for
`os.stat`. -/
def Call.fail (c : Call V) (e : LoadError) : Next V :=
  match c.base with
  | none => .raised e
  | some ae =>
    let alone : Next V := .done { load := c.load, parts := [ae], config := ae.config }
    match c.load, c.phase with
    | .asyncLoadConfig, .stat => alone
    | .loadMergedConfig, _ => if e.exn.caughtBy [.runtimeError] then alone else .raised e
    | _, _ => .raised e

variable (safeLoad : Text → Loaded V) (sha256 : Text → Text)

/-- One step of the load `c`. -/
def advance (files : Files) (g : Globals V A E) (c : Call V) : Globals V A E × Next V :=
  match c.phase with
  | .stat =>
    match (files c.layer).current with
    | none => (g, c.fail (.notFound c.layer))
    | some (mtime, raw) =>
      match (g.slot c.layer).hit mtime with
      | some config => (g, c.resume { layer := c.layer, config, hit := some raw })
      | none => (g, .call { c with phase := .read mtime })
  | .read mtime =>
    match readAndParse safeLoad c.layer (files c.layer) with
    | .error e => (g, c.fail e)
    | .ok (config, raw) => (g, .call { c with phase := .apply mtime config raw })
  | .apply mtime config raw =>
    (applyLayer sha256 c.layer config raw mtime g, c.resume { layer := c.layer, config })

inductive Label where
  /-- A write gives the file a modification time it has never had. -/
  | write (layer : Layer) (mtime : Rat) (raw : Text)
  | remove (layer : Layer)
  | invalidate
  | start (i : Nat) (load : Load)
  | advance (i : Nat)

/-- What becomes of the load `i`. -/
def State.settle (s : State V A E) (i : Nat) : Next V → State V A E
  | .call c => { s with calls := Function.update s.calls i (some c) }
  | .done r => { s with calls := Function.update s.calls i none, returned := s.returned ++ [r] }
  | .raised _ => { s with calls := Function.update s.calls i none }

def step (s : State V A E) : Label → Option (State V A E)
  | .write layer mtime raw =>
    if mtime ∈ (s.files layer).used then none
    else some { s with files := Function.update s.files layer ((s.files layer).write mtime raw) }
  | .remove layer => some { s with files := Function.update s.files layer (s.files layer).remove }
  | .invalidate => some { s with globals := invalidateConfigCache s.globals }
  | .start i load =>
    match s.calls i with
    | some _ => none
    | none => some { s with calls := Function.update s.calls i (some { load, layer := load.first }) }
  | .advance i =>
    match s.calls i with
    | none => none
    | some c =>
      let (globals, next) := advance safeLoad sha256 s.files s.globals c
      some (State.settle { s with globals } i next)

end Steps

/-! ## What is cached, and what is on its way -/

section Invariant

variable {V A E : Type} {safeLoad : Text → Loaded V} {sha256 : Text → Text}

/-- The mapping a text stands for. -/
def parse (safeLoad : Text → Loaded V) (raw : Text) : Option (Dict V) :=
  match safeLoad raw with
  | .mapping config => some config
  | .otherValue | .malformed => none

theorem parse_eq_some {raw : Text} {config : Dict V} :
    parse safeLoad raw = some config ↔ safeLoad raw = .mapping config := by
  unfold parse
  cases safeLoad raw <;> simp

theorem readAndParse_ok {layer : Layer} {file : Source Rat Text} {config : Dict V} {raw : Text}
    (h : readAndParse safeLoad layer file = .ok (config, raw)) :
    ∃ mtime, file.current = some (mtime, raw) ∧ parse safeLoad raw = some config := by
  unfold readAndParse at h
  cases hcurrent : file.current with
  | none => simp [hcurrent] at h
  | some p =>
    simp only [hcurrent] at h
    split at h
    · rename_i config' hload
      obtain ⟨rfl, rfl⟩ := Prod.mk.inj (Except.ok.inj h)
      exact ⟨p.1, rfl, parse_eq_some.mpr hload⟩
    · cases h
    · cases h

/-- What was a hit is the parse of the text of that moment. -/
def LayerConfig.Current (safeLoad : Text → Loaded V) (p : LayerConfig V) : Prop :=
  ∀ raw, p.hit = some raw → safeLoad raw = .mapping p.config

/-- The configuration of one part, or of two. -/
def whole : List (LayerConfig V) → Dict V
  | [p] => p.config
  | [ae, te] => overlay ae.config te.config
  | _ => []

structure Returned.Current (safeLoad : Text → Loaded V) (r : Returned V) : Prop where
  config : r.config = whole r.parts
  parts : ∀ p ∈ r.parts, p.Current safeLoad

/-- What a load knows of the file between two of its steps. -/
def Phase.Agrees (safeLoad : Text → Loaded V) (file : Source Rat Text) : Phase V → Prop
  | .stat => True
  | .read mtime => mtime ∈ file.used
  | .apply mtime config _ => FileCache.Agrees (parse safeLoad) file mtime config

structure Call.Sound (safeLoad : Text → Loaded V) (files : Files) (c : Call V) : Prop where
  base : ∀ p ∈ c.base, p.Current safeLoad
  phase : c.phase.Agrees safeLoad (files c.layer)

def Next.Sound (safeLoad : Text → Loaded V) (files : Files) : Next V → Prop
  | .call c => c.Sound safeLoad files
  | .done r => r.Current safeLoad
  | .raised _ => True

/-- The invariant. -/
structure Inv (safeLoad : Text → Loaded V) (s : State V A E) : Prop where
  slots : ∀ l, (s.globals.slot l).Fresh (parse safeLoad) (s.files l)
  calls : ∀ i, ∀ c ∈ s.calls i, c.Sound safeLoad s.files
  returned : ∀ r ∈ s.returned, r.Current safeLoad

/-! ## One step of a load -/

variable {files : Files} {g : Globals V A E} {c : Call V}

theorem Call.Sound.resume (h : c.Sound safeLoad files) {p : LayerConfig V} (hp : p.Current safeLoad) :
    (c.resume p).Sound safeLoad files := by
  unfold Call.resume
  cases hbase : c.base with
  | some ae =>
    refine ⟨rfl, fun q hq => ?_⟩
    rcases List.mem_cons.mp hq with rfl | hq
    · exact h.base q hbase
    · exact List.mem_singleton.mp hq ▸ hp
  | none =>
    dsimp only
    split
    · refine ⟨fun q hq => ?_, trivial⟩
      obtain rfl := Option.some.inj hq
      exact hp
    · exact ⟨rfl, fun q hq => List.mem_singleton.mp hq ▸ hp⟩

theorem Call.Sound.fail (h : c.Sound safeLoad files) (e : LoadError) : (c.fail e).Sound safeLoad files := by
  unfold Call.fail
  cases hbase : c.base with
  | none => trivial
  | some ae =>
    have halone : Returned.Current safeLoad { load := c.load, parts := [ae], config := ae.config } :=
      ⟨rfl, fun q hq => List.mem_singleton.mp hq ▸ h.base ae hbase⟩
    dsimp only
    split
    · exact halone
    · split
      · exact halone
      · trivial
    · trivial

theorem applyLayer_slot (layer : Layer) (config : Dict V) (raw : Text) (mtime : Rat) :
    (applyLayer sha256 layer config raw mtime g).slot =
      Function.update g.slot layer ⟨⟨some config, mtime⟩, sha256 raw⟩ := by
  unfold applyLayer
  split <;> rfl

/-- What agrees with a file may be cached. -/
theorem applyLayer_fresh (hslots : ∀ l, (g.slot l).Fresh (parse safeLoad) (files l)) {layer : Layer} {mtime : Rat}
    {config : Dict V} (h : FileCache.Agrees (parse safeLoad) (files layer) mtime config) (raw : Text) (l : Layer) :
    ((applyLayer sha256 layer config raw mtime g).slot l).Fresh (parse safeLoad) (files l) := by
  rw [applyLayer_slot]
  by_cases hl : l = layer
  · subst hl
    rw [Function.update_self]
    intro b hb
    obtain rfl := Option.some.inj hb
    exact h
  · rw [Function.update_of_ne hl]
    exact hslots l

/-- A load step keeps the caches in agreement with the files, and what it
hands out. -/
theorem advance_sound (hslots : ∀ l, (g.slot l).Fresh (parse safeLoad) (files l)) (h : c.Sound safeLoad files) :
    (∀ l, ((advance safeLoad sha256 files g c).1.slot l).Fresh (parse safeLoad) (files l)) ∧
      (advance safeLoad sha256 files g c).2.Sound safeLoad files := by
  unfold advance
  cases hphase : c.phase with
  | stat =>
    dsimp only
    cases hcurrent : (files c.layer).current with
    | none => exact ⟨hslots, h.fail _⟩
    | some p =>
      obtain ⟨mtime, raw⟩ := p
      dsimp only
      cases hhit : (g.slot c.layer).hit mtime with
      | some config =>
        refine ⟨hslots, h.resume fun raw' hraw' => ?_⟩
        obtain rfl := Option.some.inj hraw'
        exact parse_eq_some.mp ((hslots c.layer).hit hcurrent hhit)
      | none => exact ⟨hslots, h.base, (files c.layer).present _ hcurrent⟩
  | read mtime =>
    have hused : mtime ∈ (files c.layer).used := by
      have := h.phase
      rwa [hphase] at this
    dsimp only
    cases hread : readAndParse safeLoad c.layer (files c.layer) with
    | error e => exact ⟨hslots, h.fail e⟩
    | ok p =>
      obtain ⟨_, hcurrent, hparse⟩ := readAndParse_ok hread
      exact ⟨hslots, h.base, .read hused hcurrent hparse⟩
  | apply mtime config raw =>
    have hagrees : FileCache.Agrees (parse safeLoad) (files c.layer) mtime config := by
      have := h.phase
      rwa [hphase] at this
    exact ⟨applyLayer_fresh hslots hagrees raw, h.resume (fun _ hraw => nomatch hraw)⟩

/-! ## The runs -/

/-- A change of one file that its readers live through. -/
theorem Inv.file {s : State V A E} (h : Inv safeLoad s) {layer : Layer} {file : Source Rat Text}
    (hused : ∀ mtime ∈ (s.files layer).used, mtime ∈ file.used)
    (hagrees : ∀ mtime config, FileCache.Agrees (parse safeLoad) (s.files layer) mtime config →
      FileCache.Agrees (parse safeLoad) file mtime config) :
    Inv safeLoad { s with files := Function.update s.files layer file } := by
  refine ⟨fun l => ?_, fun i c hc => ⟨(h.calls i c hc).base, ?_⟩, h.returned⟩
  · dsimp only
    by_cases hl : l = layer
    · subst hl
      rw [Function.update_self]
      exact fun b hb => hagrees _ _ (h.slots l b hb)
    · rw [Function.update_of_ne hl]
      exact h.slots l
  · have hphase := (h.calls i c hc).phase
    dsimp only
    by_cases hl : c.layer = layer
    · rw [hl] at hphase
      rw [hl, Function.update_self]
      cases hpc : c.phase with
      | stat => trivial
      | read mtime => exact hused mtime (by rwa [hpc] at hphase)
      | apply mtime config raw => exact hagrees mtime config (by rwa [hpc] at hphase)
    · rwa [Function.update_of_ne hl]

theorem Inv.settle {s : State V A E} (h : Inv safeLoad s) (i : Nat) {next : Next V}
    (hnext : next.Sound safeLoad s.files) : Inv safeLoad (s.settle i next) := by
  have hcalls : ∀ o : Option (Call V), (∀ c ∈ o, c.Sound safeLoad s.files) →
      ∀ j, ∀ c ∈ Function.update s.calls i o j, c.Sound safeLoad s.files := by
    intro o ho j c hc
    by_cases hj : j = i
    · subst hj
      rw [Function.update_self] at hc
      exact ho c hc
    · rw [Function.update_of_ne hj] at hc
      exact h.calls j c hc
  cases next with
  | call c =>
    refine ⟨h.slots, hcalls (some c) (fun c' hc' => ?_), h.returned⟩
    obtain rfl := Option.some.inj hc'
    exact hnext
  | done r =>
    refine ⟨h.slots, hcalls none (fun _ hc => nomatch hc), fun r' hr' => ?_⟩
    rcases List.mem_append.mp hr' with hr' | hr'
    · exact h.returned r' hr'
    · exact List.mem_singleton.mp hr' ▸ hnext
  | raised e => exact ⟨h.slots, hcalls none (fun _ hc => nomatch hc), h.returned⟩

theorem Inv.step {s s' : State V A E} {l : Label} (h : Inv safeLoad s) (hs : step safeLoad sha256 s l = some s') :
    Inv safeLoad s' := by
  cases l with
  | write layer mtime raw =>
    obtain ⟨hfresh, hs⟩ := Option.ite_none_left_eq_some.mp hs
    obtain rfl := Option.some.inj hs
    exact h.file (fun _ => List.mem_cons_of_mem _) fun _ _ hagrees => hagrees.write hfresh raw
  | remove layer =>
    obtain rfl := Option.some.inj hs
    exact h.file (fun _ hm => hm) fun _ _ hagrees => hagrees.remove
  | invalidate =>
    obtain rfl := Option.some.inj hs
    refine ⟨fun l => ?_, h.calls, h.returned⟩
    show (Function.update s.globals.slot .ae ⟨⟨none, 0⟩, []⟩ l).Fresh (parse safeLoad) (s.files l)
    by_cases hl : l = .ae
    · subst hl
      rw [Function.update_self]
      exact fun b hb => nomatch hb
    · rw [Function.update_of_ne hl]
      exact h.slots l
  | start i load =>
    unfold ConfigCache.step at hs
    dsimp only at hs
    split at hs
    · cases hs
    · obtain rfl := Option.some.inj hs
      have hnext : Next.Sound safeLoad s.files (.call { load, layer := load.first }) :=
        ⟨fun _ hp => (nomatch hp), trivial⟩
      exact h.settle i hnext
  | advance i =>
    unfold ConfigCache.step at hs
    dsimp only at hs
    cases hc : s.calls i with
    | none => simp [hc] at hs
    | some c =>
      rw [hc] at hs
      obtain rfl := Option.some.inj hs
      obtain ⟨hslots, hnext⟩ := advance_sound h.slots (h.calls i c hc)
      have hglobals : Inv safeLoad { s with globals := (advance safeLoad sha256 s.files s.globals c).1 } :=
        ⟨hslots, h.calls, h.returned⟩
      exact hglobals.settle i hnext

theorem Inv.start (files : Files) : Inv safeLoad ({ files } : State V A E) := by
  refine ⟨fun _ _ hb => (nomatch hb), fun _ _ hc => (nomatch hc), fun r hr => ?_⟩
  cases hr

end Invariant

/-- **A hit is never stale**, in any interleaving: a load returns the parts it
has, and one it took from the cache is the parse of the text that was in the
file as it took the time. -/
theorem load_returns_current {V A E : Type} (safeLoad : Text → Loaded V) (sha256 : Text → Text) (files : Files)
    (ls : List Label) (s : State V A E) (h : exec (step safeLoad sha256) { files } ls = some s) :
    ∀ r ∈ s.returned, r.config = whole r.parts ∧
      ∀ p ∈ r.parts, ∀ raw, p.hit = some raw → safeLoad raw = .mapping p.config := by
  intro r hr
  have hinv : Inv safeLoad s :=
    (passes_of_exec h).inv (fun _ _ _ hI hs => hI.step hs) (Inv.start files)
  have hcurrent := hinv.returned r hr
  exact ⟨hcurrent.config, hcurrent.parts⟩

/-! ## A slow load -/

/-- A text is its own only value. -/
def textLoad (raw : Text) : Loaded Text := .mapping [(['k'], raw)]

/-- The load 0 takes the time of the first text and reads the second; the
load 1, of the second text, is done before. Load 2 finds the first time in the
cache and reads again, load 3 has its result from the cache. -/
def slowLoad : List Label :=
  [.write .ae 1 ['a'], .start 0 .loadConfig, .advance 0, .write .ae 2 ['b'], .start 1 .loadConfig, .advance 1,
    .advance 1, .advance 1, .advance 0, .advance 0, .start 2 .loadConfig, .advance 2, .advance 2, .advance 2,
    .start 3 .loadConfig, .advance 3]

theorem load_returns_current_slowLoad :
    ∃ s : State Text Unit Unit, exec (step textLoad id) { files := fun _ => .absent } slowLoad = some s ∧
      s.returned.map (fun r => (r.config, r.parts.map LayerConfig.hit)) =
        [([(['k'], ['b'])], [none]), ([(['k'], ['b'])], [none]), ([(['k'], ['b'])], [none]),
          ([(['k'], ['b'])], [some ['b']])] ∧
      ∀ r ∈ s.returned, r.config = whole r.parts ∧
        ∀ p ∈ r.parts, ∀ raw, p.hit = some raw → textLoad raw = .mapping p.config := by
  obtain ⟨s, hs, hreturned⟩ : ∃ s : State Text Unit Unit,
      exec (step textLoad id) { files := fun _ => .absent } slowLoad = some s ∧
        s.returned.map (fun r => (r.config, r.parts.map LayerConfig.hit)) =
          [([(['k'], ['b'])], [none]), ([(['k'], ['b'])], [none]), ([(['k'], ['b'])], [none]),
            ([(['k'], ['b'])], [some ['b']])] := ⟨_, rfl, by decide +kernel⟩
  exact ⟨s, hs, hreturned, load_returns_current textLoad id _ slowLoad s hs⟩

end ContextBroker.ConfigCache
