import ContextBroker.L1Data.Schema
import Mathlib.Logic.Function.Basic

/-!
# The package registry

`scan` empties the registries it owns and loads the packages that are
installed now, the AE packages before the TE packages. A package is written
into them piece by piece (`Write`); one of four exceptions ends the package,
any other one ends the scan.

`scan_eq`: the registry after a scan is the emptied one with the writes of
the packages it got to, in order. So what a package wrote stays unless a later
one writes the same key, and nothing else is there, but for the build types:
their registry is another module's and is not emptied (`scan_registers`). A
package that cannot be loaded any more loses what it had.

Not modelled: the modules evicted from `sys.modules`, which decide what a
load finds, and that is given.
-/
namespace ContextBroker.PackageRegistry

/-- What loading or registering a package raises. -/
inductive LoadExn where
  | importError | attributeError | typeError | valueError
  | other
  deriving DecidableEq, Repr

/-- `except (ImportError, AttributeError, TypeError, ValueError)`. -/
def LoadExn.caught : LoadExn → Bool
  | .importError | .attributeError | .typeError | .valueError => true
  | .other => false

/-- `context_broker.ae` and `context_broker.te`. -/
inductive Group where
  | ae | te
  deriving DecidableEq, Repr

structure Metadata where
  version : Text
  type : Group
  identity : Text := []
  purpose : Text := []
  toolsRequired : List Text := []
  deriving DecidableEq, Repr

/-- A dict in a registration as far as the loop over it gets, and what ends
the loop. -/
structure Items (V : Type) where
  entries : List (Text × V)
  raises : Option LoadExn
  nodup : (entries.map Prod.fst).Nodup

instance {V : Type} : Inhabited (Items V) := ⟨⟨[], none, List.nodup_nil⟩⟩

/-- What `register()` returns. `notMapping`: what the first look into it
raises, if it is no dict. `initFn`: its `initialize` function, and what that
raises. -/
structure Registration (B : Type) where
  notMapping : Option LoadExn := none
  initFn : Option (Option LoadExn) := none
  buildTypes : Items (B × B) := default
  flows : Items B := default
  imperatorBuilder : Option B := none
  identity : Text := []
  purpose : Text := []
  toolsRequired : List Text := []

/-- An installed entry point: what `ep.load()` and the call of what it loads
come to, and the version of the package. -/
structure EntryPoint (B : Type) where
  name : Text
  load : Except LoadExn (Registration B)
  version : Text

/-- The registries of `app/stategraph_registry.py`, and `_registry` of
`app/flows/build_type_registry.py`. -/
structure Registry (B : Type) where
  packages : Group → Text → Option (Registration B) := fun _ _ => none
  imperatorBuilder : Option B := none
  flowBuilders : Text → Option B := fun _ => none
  packageMetadata : Text → Option Metadata := fun _ => none
  buildTypes : Text → Option (B × B) := fun _ => none

/-- One assignment to a registry. -/
inductive Write (B : Type) where
  | package (group : Group) (name : Text) (registration : Registration B)
  | buildType (name : Text) (builders : B × B)
  | flow (name : Text) (builder : B)
  | imperator (builder : B)
  | metadata (name : Text) (m : Metadata)

/-- What it assigns to. -/
inductive Key where
  | package (group : Group) (name : Text)
  | buildType (name : Text)
  | flow (name : Text)
  | imperator
  | metadata (name : Text)
  deriving DecidableEq, Repr

section

variable {B : Type}

def Write.key : Write B → Key
  | .package group name _ => .package group name
  | .buildType name _ => .buildType name
  | .flow name _ => .flow name
  | .imperator _ => .imperator
  | .metadata name _ => .metadata name

namespace Registry

def write (r : Registry B) : Write B → Registry B
  | .package group name registration =>
    { r with packages := Function.update r.packages group (Function.update (r.packages group) name (some registration)) }
  | .buildType name builders => { r with buildTypes := Function.update r.buildTypes name (some builders) }
  | .flow name builder => { r with flowBuilders := Function.update r.flowBuilders name (some builder) }
  | .imperator builder => { r with imperatorBuilder := some builder }
  | .metadata name m => { r with packageMetadata := Function.update r.packageMetadata name (some m) }

/-- mirrors app/stategraph_registry.py:42-49 -/
def cleared (r : Registry B) : Registry B := { buildTypes := r.buildTypes }

/-- What `w` assigned is there. -/
def Holds (r : Registry B) : Write B → Prop
  | .package group name registration => r.packages group name = some registration
  | .buildType name builders => r.buildTypes name = some builders
  | .flow name builder => r.flowBuilders name = some builder
  | .imperator builder => r.imperatorBuilder = some builder
  | .metadata name m => r.packageMetadata name = some m

end Registry

/-! ## Registering a package -/

/-- mirrors app/stategraph_registry.py:60-79 -/
def aeWrites (name version : Text) (registration : Registration B) : List (Write B) × Option LoadExn :=
  let package : List (Write B) := [.package .ae name registration]
  match registration.notMapping with
  | some e => (package, some e)
  | none =>
    let buildTypes := package ++ registration.buildTypes.entries.map fun (n, builders) => .buildType n builders
    match registration.buildTypes.raises with
    | some e => (buildTypes, some e)
    | none =>
      let flows := buildTypes ++ registration.flows.entries.map fun (n, builder) => .flow n builder
      match registration.flows.raises with
      | some e => (flows, some e)
      | none => (flows ++ [.metadata name { version, type := .ae }], none)

/-- mirrors app/stategraph_registry.py:91-116 -/
def teWrites (name version : Text) (registration : Registration B) : List (Write B) × Option LoadExn :=
  match registration.notMapping with
  | some e => ([], some e)
  | none =>
    match registration.initFn.join with
    | some e => ([], some e)
    | none =>
      let imperator : List (Write B) :=
        .package .te name registration :: registration.imperatorBuilder.toList.map .imperator
      let flows := imperator ++ registration.flows.entries.map fun (n, builder) => .flow n builder
      match registration.flows.raises with
      | some e => (flows, some e)
      | none =>
        (flows ++ [.metadata name { version, type := .te, identity := registration.identity
                                    purpose := registration.purpose
                                    toolsRequired := registration.toolsRequired }], none)

/-- The writes of one entry point, and what ends it. -/
def EntryPoint.writes (ep : EntryPoint B) (group : Group) : List (Write B) × Option LoadExn :=
  match ep.load with
  | .error e => ([], some e)
  | .ok registration =>
    match group with
    | .ae => aeWrites ep.name ep.version registration
    | .te => teWrites ep.name ep.version registration

/-! ## The scan -/

/-- One of the two loops: the registry, and the names it has discovered or the
exception that leaves it. -/
def loadAll (group : Group) : Registry B → List (EntryPoint B) → Registry B × Except LoadExn (List Text)
  | r, [] => (r, .ok [])
  | r, ep :: rest =>
    let r := (ep.writes group).1.foldl Registry.write r
    match (ep.writes group).2 with
    | none => ((loadAll group r rest).1, (loadAll group r rest).2.map (ep.name :: ·))
    | some e => if e.caught then loadAll group r rest else (r, .error e)

/-- mirrors app/stategraph_registry.py:31-123 -/
def scan (r : Registry B) (entryPoints : Group → List (EntryPoint B)) :
    Registry B × Except LoadExn (List Text × List Text) :=
  match loadAll .ae r.cleared (entryPoints .ae) with
  | (r, .error e) => (r, .error e)
  | (r, .ok ae) => ((loadAll .te r (entryPoints .te)).1, (loadAll .te r (entryPoints .te)).2.map fun te => (ae, te))

/-! ## What a scan leaves -/

/-- The entry point ends the scan. -/
def aborts (p : Group × EntryPoint B) : Bool :=
  match (p.2.writes p.1).2 with
  | some e => !e.caught
  | none => false

/-- The entry points up to the first one that ends the scan. -/
def upToAbort : List (Group × EntryPoint B) → List (Group × EntryPoint B)
  | [] => []
  | p :: rest => p :: if aborts p then [] else upToAbort rest

/-- The entry points a scan gets to, in order. -/
def reached (entryPoints : Group → List (EntryPoint B)) : List (Group × EntryPoint B) :=
  upToAbort ((entryPoints .ae).map (Group.ae, ·) ++ (entryPoints .te).map (Group.te, ·))

def writesOf (l : List (Group × EntryPoint B)) : List (Write B) := l.flatMap fun p => (p.2.writes p.1).1

theorem upToAbort_append (l l' : List (Group × EntryPoint B)) :
    upToAbort (l ++ l') = if l.any aborts then upToAbort l else upToAbort l ++ upToAbort l' := by
  induction l with
  | nil => simp [upToAbort]
  | cons p l ih =>
    cases hp : aborts p with
    | true => simp [upToAbort, hp]
    | false =>
      simp only [List.cons_append, upToAbort, hp, Bool.false_eq_true, if_false, List.any_cons, Bool.false_or, ih]
      split <;> rfl

theorem loadAll_eq (group : Group) (l : List (EntryPoint B)) (r : Registry B) :
    (loadAll group r l).1 = (writesOf (upToAbort (l.map (group, ·)))).foldl Registry.write r ∧
      ((∃ e, (loadAll group r l).2 = .error e) ↔ (l.map (group, ·)).any aborts = true) := by
  induction l generalizing r with
  | nil => simp [loadAll, upToAbort, writesOf]
  | cons ep l ih =>
    obtain ⟨ihr, ihe⟩ := ih ((ep.writes group).1.foldl Registry.write r)
    unfold loadAll
    cases hexn : (ep.writes group).2 with
    | none =>
      have hp : aborts (group, ep) = false := by simp [aborts, hexn]
      simp only [List.map_cons, upToAbort, hp, Bool.false_eq_true, if_false, List.any_cons, Bool.false_or]
      refine ⟨?_, ?_⟩
      · rw [ihr]
        simp [writesOf]
      · rw [← ihe]
        cases (loadAll group ((ep.writes group).1.foldl Registry.write r) l).2 <;> simp [Except.map]
    | some e =>
      cases hcaught : e.caught with
      | true =>
        have hp : aborts (group, ep) = false := by simp [aborts, hexn, hcaught]
        simp only [hcaught, if_true, List.map_cons, upToAbort, hp, Bool.false_eq_true, if_false, List.any_cons,
          Bool.false_or]
        refine ⟨?_, ihe⟩
        rw [ihr]
        simp [writesOf]
      | false =>
        have hp : aborts (group, ep) = true := by simp [aborts, hexn, hcaught]
        simp [hcaught, upToAbort, hp, writesOf]

/-- **A scan** is the emptied registry with the writes of the entry points it
gets to. -/
theorem scan_eq (r : Registry B) (entryPoints : Group → List (EntryPoint B)) :
    (scan r entryPoints).1 = (writesOf (reached entryPoints)).foldl Registry.write r.cleared := by
  obtain ⟨hae, haborts⟩ := loadAll_eq .ae (entryPoints .ae) r.cleared
  unfold scan reached
  rw [upToAbort_append]
  generalize loadAll .ae r.cleared (entryPoints .ae) = out at hae haborts ⊢
  obtain ⟨r₁, outcome⟩ := out
  cases outcome with
  | error e =>
    rw [if_pos (haborts.mp ⟨e, rfl⟩)]
    exact hae
  | ok names =>
    have hnone : ¬ ((entryPoints .ae).map (Group.ae, ·)).any aborts = true := by
      intro hany
      obtain ⟨e, he⟩ := haborts.mpr hany
      cases he
    rw [if_neg hnone]
    obtain ⟨hte, _⟩ := loadAll_eq .te (entryPoints .te) r₁
    dsimp only at hae ⊢
    rw [hte, hae, ← List.foldl_append]
    simp [writesOf]

/-! ## Writes and what is found -/

variable {r : Registry B} {v w : Write B}

theorem Registry.holds_write (r : Registry B) (w : Write B) : (r.write w).Holds w := by
  cases w <;> simp [Registry.write, Registry.Holds]

/-- A write to another key changes nothing here. -/
theorem Registry.holds_write_of_ne (h : v.key ≠ w.key) : (r.write v).Holds w ↔ r.Holds w := by
  cases v with
  | package group name registration =>
    cases w with
    | package group' name' registration' =>
      simp only [Registry.write, Registry.Holds]
      by_cases hg : group' = group
      · subst hg
        have hname : name' ≠ name := fun hn => h (by rw [hn]; rfl)
        rw [Function.update_self, Function.update_of_ne hname]
      · rw [Function.update_of_ne hg]
    | buildType | flow | imperator | metadata => exact Iff.rfl
  | buildType name builders =>
    cases w with
    | buildType name' builders' =>
      have hname : name' ≠ name := fun hn => h (by rw [hn]; rfl)
      simp only [Registry.write, Registry.Holds, Function.update_of_ne hname]
    | package | flow | imperator | metadata => exact Iff.rfl
  | flow name builder =>
    cases w with
    | flow name' builder' =>
      have hname : name' ≠ name := fun hn => h (by rw [hn]; rfl)
      simp only [Registry.write, Registry.Holds, Function.update_of_ne hname]
    | package | buildType | imperator | metadata => exact Iff.rfl
  | imperator builder =>
    cases w with
    | imperator builder' => exact absurd rfl h
    | package | buildType | flow | metadata => exact Iff.rfl
  | metadata name m =>
    cases w with
    | metadata name' m' =>
      have hname : name' ≠ name := fun hn => h (by rw [hn]; rfl)
      simp only [Registry.write, Registry.Holds, Function.update_of_ne hname]
    | package | buildType | flow | imperator => exact Iff.rfl

/-- Two assignments to one key, of which one holds, are one. -/
theorem Registry.Holds.unique (hv : r.Holds v) (hw : r.Holds w) (h : v.key = w.key) : v = w := by
  cases v <;> cases w <;> simp only [Write.key, Key.package.injEq, Key.buildType.injEq, Key.flow.injEq,
    Key.metadata.injEq, reduceCtorEq] at h <;> simp_all [Registry.Holds]

theorem Registry.holds_writes_of_ne (ws : List (Write B)) (h : ∀ v ∈ ws, v.key ≠ w.key) (r : Registry B) :
    (ws.foldl Registry.write r).Holds w ↔ r.Holds w := by
  induction ws generalizing r with
  | nil => exact Iff.rfl
  | cons v ws ih =>
    rw [List.foldl_cons, ih fun v' hv' => h v' (List.mem_cons_of_mem _ hv')]
    exact Registry.holds_write_of_ne (h v List.mem_cons_self)

/-- The last write to a key holds. -/
theorem Registry.holds_last {before after : List (Write B)} (h : ∀ v ∈ after, v.key ≠ w.key) (r : Registry B) :
    ((before ++ w :: after).foldl Registry.write r).Holds w := by
  rw [List.foldl_append, List.foldl_cons, Registry.holds_writes_of_ne after h]
  exact Registry.holds_write _ w

/-- What holds was written, or was there. -/
theorem Registry.written {ws : List (Write B)} (h : (ws.foldl Registry.write r).Holds w) : w ∈ ws ∨ r.Holds w := by
  induction ws generalizing r with
  | nil => exact .inr h
  | cons v ws ih =>
    rcases ih h with hmem | hold
    · exact .inl (List.mem_cons_of_mem _ hmem)
    · by_cases hkey : v.key = w.key
      · rw [(Registry.holds_write r v).unique hold hkey]
        exact .inl List.mem_cons_self
      · exact .inr ((Registry.holds_write_of_ne hkey).mp hold)

/-! ## A package that loads -/

/-- All that a registration is worth. -/
def everything (group : Group) (ep : EntryPoint B) (registration : Registration B) : List (Write B) :=
  match group with
  | .ae =>
    .package .ae ep.name registration ::
      registration.buildTypes.entries.map (fun (n, builders) => .buildType n builders) ++
      registration.flows.entries.map (fun (n, builder) => .flow n builder) ++
      [.metadata ep.name { version := ep.version, type := .ae }]
  | .te =>
    .package .te ep.name registration :: registration.imperatorBuilder.toList.map .imperator ++
      registration.flows.entries.map (fun (n, builder) => .flow n builder) ++
      [.metadata ep.name { version := ep.version, type := .te, identity := registration.identity
                           purpose := registration.purpose, toolsRequired := registration.toolsRequired }]

theorem writes_of_loaded {ep : EntryPoint B} {group : Group} (h : (ep.writes group).2 = none) :
    ∃ registration, ep.load = .ok registration ∧ (ep.writes group).1 = everything group ep registration := by
  unfold EntryPoint.writes at h ⊢
  cases hload : ep.load with
  | error e => simp [hload] at h
  | ok registration =>
    rw [hload] at h
    refine ⟨registration, rfl, ?_⟩
    cases group with
    | ae =>
      simp only [aeWrites] at h ⊢
      split at h
      · cases h
      · split at h
        · cases h
        · split at h
          · cases h
          · simp [everything]
    | te =>
      simp only [teWrites] at h ⊢
      split at h
      · cases h
      · split at h
        · cases h
        · split at h
          · cases h
          · simp [everything]

theorem nodup_names {V : Type} (items : Items V) (f : Text × V → Key) (hf : ∀ p q, f p = f q → p.1 = q.1) :
    (items.entries.map f).Nodup := by
  rw [List.nodup_iff_pairwise_ne, List.pairwise_map]
  exact (List.pairwise_map.mp items.nodup).imp fun hne heq => hne (hf _ _ heq)

/-- It assigns to no key twice. -/
theorem nodup_everything (group : Group) (ep : EntryPoint B) (registration : Registration B) :
    ((everything group ep registration).map Write.key).Nodup := by
  have hbuildTypes := nodup_names registration.buildTypes (fun p => .buildType p.1) fun _ _ h => by simpa using h
  have hflows := nodup_names registration.flows (fun p => .flow p.1) fun _ _ h => by simpa using h
  cases group with
  | ae =>
    simp only [everything, List.map_append, List.map_cons, List.map_map, Function.comp_def, Write.key, List.map_nil,
      List.cons_append, List.nodup_cons, List.nodup_append, hbuildTypes, hflows]
    grind
  | te =>
    have himperator : (registration.imperatorBuilder.toList.map fun _ => Key.imperator).Nodup := by
      cases registration.imperatorBuilder <;> simp
    simp only [everything, List.map_append, List.map_cons, List.map_map, Function.comp_def, Write.key, List.map_nil,
      List.cons_append, List.nodup_cons, List.nodup_append, himperator, hflows]
    grind

/-- **A scan**, returning or not. A package that loaded is registered
completely, but for what a later one writes in its place. All else that is
there was written by a package of this scan, or is a build type of an earlier
one that no package has written anew. -/
theorem scan_registers (r : Registry B) (entryPoints : Group → List (EntryPoint B)) :
    (∀ before group ep after, reached entryPoints = before ++ (group, ep) :: after → (ep.writes group).2 = none →
      ∃ registration, ep.load = .ok registration ∧ ∀ w ∈ everything group ep registration,
        (∀ p ∈ after, ∀ v ∈ (p.2.writes p.1).1, v.key ≠ w.key) → (scan r entryPoints).1.Holds w) ∧
    (∀ w, (scan r entryPoints).1.Holds w → (∃ p ∈ reached entryPoints, w ∈ (p.2.writes p.1).1) ∨
      ∃ name builders, w = .buildType name builders ∧ r.buildTypes name = some builders) ∧
    ∀ name builders, (∀ p ∈ reached entryPoints, ∀ v ∈ (p.2.writes p.1).1, v.key ≠ .buildType name) →
      ((scan r entryPoints).1.buildTypes name = some builders ↔ r.buildTypes name = some builders) := by
  rw [scan_eq]
  refine ⟨fun before group ep after hreached hloaded => ?_, fun w hw => ?_, fun name builders hkeys => ?_⟩
  · obtain ⟨registration, hload, hwrites⟩ := writes_of_loaded hloaded
    refine ⟨registration, hload, fun w hw hlater => ?_⟩
    -- its own later writes go to other keys
    obtain ⟨own, rest, hsplit⟩ := List.append_of_mem hw
    have hnodup := nodup_everything group ep registration
    rw [hsplit, List.map_append, List.map_cons, List.nodup_append, List.nodup_cons] at hnodup
    have hrest : ∀ v ∈ rest ++ writesOf after, v.key ≠ w.key := by
      intro v hv heq
      rcases List.mem_append.mp hv with hv | hv
      · exact hnodup.2.1.1 (heq ▸ List.mem_map_of_mem hv)
      · obtain ⟨p, hp, hv⟩ := List.mem_flatMap.mp hv
        exact hlater p hp v hv heq
    have hall : writesOf (reached entryPoints) = (writesOf before ++ own) ++ w :: (rest ++ writesOf after) := by
      rw [hreached]
      simp [writesOf, hwrites, hsplit]
    rw [hall]
    exact Registry.holds_last hrest _
  · rcases Registry.written hw with hmem | hold
    · obtain ⟨p, hp, hw⟩ := List.mem_flatMap.mp hmem
      exact .inl ⟨p, hp, hw⟩
    · cases w with
      | buildType name builders => exact .inr ⟨name, builders, rfl, hold⟩
      | package | flow | imperator | metadata => cases hold
  · have hne : ∀ v ∈ writesOf (reached entryPoints), v.key ≠ (Write.buildType name builders).key := by
      intro v hv
      obtain ⟨p, hp, hv⟩ := List.mem_flatMap.mp hv
      exact hkeys p hp v hv
    exact Registry.holds_writes_of_ne _ hne r.cleared

end

/-! ## A package that fails -/

/-- A package with one flow. -/
def search : Registration Nat := { flows := ⟨[("search".toList, 1)], none, by decide⟩ }

def installed (load : Except LoadExn (Registration Nat)) : Group → List (EntryPoint Nat)
  | .ae => [{ name := "ae".toList, load, version := "1".toList }]
  | .te => []

/-- The one package that is installed loads. -/
theorem scan_registers_search : (scan {} (installed (.ok search))).1.Holds (.flow "search".toList 1) := by
  obtain ⟨hloaded, _, _⟩ := scan_registers {} (installed (.ok search))
  obtain ⟨registration, hload, hholds⟩ := hloaded [] .ae
    { name := "ae".toList, load := .ok search, version := "1".toList } [] rfl rfl
  obtain rfl := Except.ok.inj hload
  exact hholds (.flow "search".toList 1) (by simp [everything, search]) (by simp)

/-- The package is registered by the first scan, and its update cannot be
imported: it is gone. -/
theorem failed_loses_registration :
    (scan {} (installed (.ok search))).1.flowBuilders "search".toList = some 1 ∧
      (scan (scan {} (installed (.ok search))).1 (installed (.error .importError))).2 = .ok ([], []) ∧
      ¬ ∀ p ∈ reached (installed (.error .importError)), (p.2.writes p.1).2 ≠ none →
        (scan (scan {} (installed (.ok search))).1 (installed (.error .importError))).1.packages p.1 p.2.name =
          (scan {} (installed (.ok search))).1.packages p.1 p.2.name := by
  refine ⟨by decide, by decide, fun h => ?_⟩
  have hkept := h (.ae, { name := "ae".toList, load := .error .importError, version := "1".toList })
    List.mem_cons_self (by simp [EntryPoint.writes])
  have hbefore : ((scan {} (installed (.ok search))).1.packages .ae "ae".toList).isSome = true := by decide
  have hafter : (scan (scan {} (installed (.ok search))).1 (installed (.error .importError))).1.packages .ae
      "ae".toList = none := rfl
  dsimp only at hkept
  rw [← hkept, hafter] at hbefore
  cases hbefore

end ContextBroker.PackageRegistry
