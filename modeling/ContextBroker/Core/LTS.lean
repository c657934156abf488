import Mathlib.Data.List.Induction

/-!
# Transition systems

Two shapes of system, with the induction rules the rest of the development
uses.

* `LTS`: any initial states, a step relation. `Inductive P` packages
  "holds initially, kept by every step"; `Inductive.reachable` turns it into
  a fact about every reachable state. For the system of a partial step
  function, `always_iff` says which steps end a property.
* `Machine`: one initial state and a step function, for a system whose runs
  are lists of events. `run` reads the events in order; `run_inv` is the
  invariant rule, `run_hist` the rule for properties that also speak about
  the events so far (what an earlier event saw or did).
-/
namespace ContextBroker

structure LTS (S L : Type) where
  init : S → Prop
  step : S → L → S → Prop

namespace LTS

variable {S L : Type} (M : LTS S L)

inductive Run : S → List L → S → Prop where
  | nil (s : S) : Run s [] s
  | cons {s s' s'' : S} {l : L} {ls : List L} : M.step s l s' → Run s' ls s'' → Run s (l :: ls) s''

def Reachable (s : S) : Prop := ∃ s₀ ls, M.init s₀ ∧ M.Run s₀ ls s

variable {M} in
theorem Run.snoc {s s' s'' : S} {l : L} {ls : List L} (h : M.Run s ls s') (hs : M.step s' l s'') :
    M.Run s (ls ++ [l]) s'' := by
  induction h with
  | nil s => exact .cons hs (.nil _)
  | cons hst _ ih => exact .cons hst (ih hs)

variable {M} in
theorem Reachable.step {s s' : S} {l : L} (h : M.Reachable s) (hs : M.step s l s') : M.Reachable s' := by
  obtain ⟨s₀, ls, h0, hrun⟩ := h
  exact ⟨s₀, ls ++ [l], h0, hrun.snoc hs⟩

structure Inductive (P : S → Prop) : Prop where
  init : ∀ s, M.init s → P s
  step : ∀ s l s', P s → M.step s l s' → P s'

variable {M}

theorem Inductive.run {P : S → Prop} (h : M.Inductive P) {s s' : S} {ls : List L}
    (hr : M.Run s ls s') (hs : P s) : P s' := by
  induction hr with
  | nil s => exact hs
  | cons hst _ ih => exact ih (h.step _ _ _ hs hst)

theorem Inductive.reachable {P : S → Prop} (h : M.Inductive P) {s : S} (hr : M.Reachable s) :
    P s := by
  obtain ⟨s₀, ls, h0, hrun⟩ := hr
  exact h.run hrun (h.init s₀ h0)

/-- The system of a partial step function. -/
def ofStep (init : S → Prop) (step : S → L → Option S) : LTS S L :=
  ⟨init, fun s l s' => step s l = some s'⟩

/-- The state after `ls`, if every label is enabled when it comes. -/
def exec (step : S → L → Option S) : S → List L → Option S
  | s, [] => some s
  | s, l :: ls => (step s l).bind fun s' => exec step s' ls

theorem run_of_exec {init : S → Prop} {step : S → L → Option S} :
    ∀ {ls : List L} {s s' : S}, exec step s ls = some s' → (ofStep init step).Run s ls s'
  | [], s, s', h => by
    obtain rfl := Option.some.inj h
    exact .nil s
  | l :: ls, s, s', h => by
    obtain ⟨t, ht, hrest⟩ := Option.bind_eq_some_iff.mp h
    exact .cons ht (run_of_exec hrest)

/-! ### Along a run -/

section

variable (step : S → L → Option S)

/-- The run that reads `ls` from `s`, up to the first label that is not
enabled, passes through `t`. -/
inductive Passes : S → List L → S → Prop where
  | here (s : S) (ls : List L) : Passes s ls s
  | next {s s' t : S} {l : L} {ls : List L} : step s l = some s' → Passes s' ls t → Passes s (l :: ls) t

/-- It takes the step `l` from `t` to `t'`. -/
inductive Takes : S → List L → S → L → S → Prop where
  | here {s s' : S} {l : L} (ls : List L) : step s l = some s' → Takes s (l :: ls) s l s'
  | next {s s' t t' : S} {l m : L} {ls : List L} :
    step s l = some s' → Takes s' ls t m t' → Takes s (l :: ls) t m t'

variable {step}

theorem Takes.passes {s t t' : S} {l : L} {ls : List L} (h : Takes step s ls t l t') :
    Passes step s ls t ∧ Passes step s ls t' := by
  induction h with
  | here ls hs => exact ⟨.here _ _, .next hs (.here _ _)⟩
  | next hs _ ih => exact ⟨.next hs ih.1, .next hs ih.2⟩

theorem Takes.mem {s t t' : S} {l : L} {ls : List L} (h : Takes step s ls t l t') : l ∈ ls := by
  induction h with
  | here _ _ => exact List.mem_cons_self
  | next _ _ ih => exact List.mem_cons_of_mem _ ih

theorem Takes.enabled {s t t' : S} {l : L} {ls : List L} (h : Takes step s ls t l t') : step t l = some t' := by
  induction h with
  | here _ hs => exact hs
  | next _ _ ih => exact ih

theorem Passes.inv {I : S → Prop} (hinv : ∀ s l s', I s → step s l = some s' → I s') {s t : S} {ls : List L}
    (h : Passes step s ls t) (hI : I s) : I t := by
  induction h with
  | here => exact hI
  | next hs _ ih => exact ih (hinv _ _ _ hI hs)

theorem takes_of_exec : ∀ {ls₁ ls₂ : List L} {l : L} {s t t' : S}, exec step s ls₁ = some t →
    step t l = some t' → Takes step s (ls₁ ++ l :: ls₂) t l t'
  | [], ls₂, l, s, t, t', h, hs => by
    obtain rfl := Option.some.inj h
    exact .here ls₂ hs
  | m :: ls₁, ls₂, l, s, t, t', h, hs => by
    obtain ⟨s', hs', hrest⟩ := Option.bind_eq_some_iff.mp h
    exact .next hs' (takes_of_exec hrest hs)

theorem passes_of_exec : ∀ {ls : List L} {s t : S}, exec step s ls = some t → Passes step s ls t
  | [], s, t, h => by
    obtain rfl := Option.some.inj h
    exact .here s []
  | l :: ls, s, t, h => by
    obtain ⟨s', hs', hrest⟩ := Option.bind_eq_some_iff.mp h
    exact .next hs' (passes_of_exec hrest)

theorem exec_append (s : S) (ls₁ ls₂ : List L) :
    exec step s (ls₁ ++ ls₂) = (exec step s ls₁).bind fun t => exec step t ls₂ := by
  induction ls₁ generalizing s with
  | nil => rfl
  | cons l ls₁ ih =>
    simp only [List.cons_append, exec, Option.bind_assoc]
    exact congrArg _ (funext ih)

/-- The states a run passes are the ends of its initial parts. -/
theorem passes_iff {s t : S} {ls : List L} :
    Passes step s ls t ↔ ∃ ls₁ ls₂, ls = ls₁ ++ ls₂ ∧ exec step s ls₁ = some t := by
  constructor
  · intro h
    induction h with
    | here s ls => exact ⟨[], ls, rfl, rfl⟩
    | @next _ _ _ l _ hs _ ih =>
      obtain ⟨ls₁, ls₂, rfl, hexec⟩ := ih
      exact ⟨l :: ls₁, ls₂, rfl, Option.bind_eq_some_iff.mpr ⟨_, hs, hexec⟩⟩
  · rintro ⟨ls₁, ls₂, rfl, h⟩
    induction ls₁ generalizing s with
    | nil =>
      obtain rfl := Option.some.inj h
      exact .here s ls₂
    | cons l ls₁ ih =>
      obtain ⟨s', hs, hrest⟩ := Option.bind_eq_some_iff.mp h
      exact .next hs (ih hrest)

/-- The steps of the second part of a run. -/
theorem Takes.append_right {u t t' : S} {l : L} {ls₂ : List L} :
    ∀ {ls₁ : List L} {s : S}, exec step s ls₁ = some u → Takes step u ls₂ t l t' → Takes step s (ls₁ ++ ls₂) t l t'
  | [], s, he, h => by
    obtain rfl := Option.some.inj he
    exact h
  | m :: ls₁, s, he, h => by
    obtain ⟨s', hs', hrest⟩ := Option.bind_eq_some_iff.mp he
    exact .next hs' (Takes.append_right hrest h)

/-- The steps of a run that a check lets pass. -/
theorem check_of_takes (check : S → L → Bool) : ∀ {ls : List L} {s t t' : S} {l : L},
    (exec (fun s l => if check s l then step s l else none) s ls).isSome = true → Takes step s ls t l t' →
      check t l = true
  | [], _, _, _, _, _, h => by cases h
  | m :: ls, s, t, t', l, hrun, h => by
    obtain ⟨u, hu⟩ := Option.isSome_iff_exists.mp hrun
    obtain ⟨s', hs', hrest⟩ := Option.bind_eq_some_iff.mp hu
    obtain ⟨hcheck, hm⟩ := Option.ite_none_right_eq_some.mp hs'
    cases h with
    | here _ _ => exact hcheck
    | next hs htakes =>
      obtain rfl := Option.some.inj (hm.symm.trans hs)
      exact check_of_takes check (Option.isSome_iff_exists.mpr ⟨u, hrest⟩) htakes

/-- **The invariant rule** for a run whose steps all meet `C`. -/
theorem exec_inv {I : S → Prop} {C : S → L → Prop}
    (hstep : ∀ s l s', I s → C s l → step s l = some s' → I s') :
    ∀ {ls : List L} {s s' : S}, exec step s ls = some s' → (∀ t l t', Takes step s ls t l t' → C t l) → I s → I s'
  | [], s, s', he, _, hI => by
    obtain rfl := Option.some.inj he
    exact hI
  | l :: ls, s, s', he, hC, hI => by
    obtain ⟨t, ht, hrest⟩ := Option.bind_eq_some_iff.mp he
    have hfirst : C s l := hC s l t (.here ls ht)
    exact exec_inv hstep hrest (fun u m u' hu => hC u m u' (.next ht hu)) (hstep s l t hI hfirst ht)

/-- **The end of a run**: if each step leads to a good state exactly when it comes
from one and meets `C`, the run ends well exactly when it starts well and all its
steps meet `C`. -/
theorem exec_iff {I P : S → Prop} {C : S → L → Prop} (hinv : ∀ s l s', I s → step s l = some s' → I s')
    (hstep : ∀ s l s', I s → step s l = some s' → (P s' ↔ P s ∧ C s l)) :
    ∀ {ls : List L} {s s' : S}, I s → exec step s ls = some s' →
      (P s' ↔ P s ∧ ∀ t l t', Takes step s ls t l t' → C t l)
  | [], s, s', _, he => by
    obtain rfl := Option.some.inj he
    refine (and_iff_left fun t l t' h => ?_).symm
    cases h
  | l :: ls, s, s', hI, he => by
    obtain ⟨u, hu, hrest⟩ := Option.bind_eq_some_iff.mp he
    rw [exec_iff hinv hstep (hinv s l u hI hu) hrest, hstep s l u hI hu, and_assoc]
    refine and_congr_right fun _ => ⟨fun ⟨hfirst, hlater⟩ t m t' h => ?_, fun h => ⟨?_, fun t m t' ht => ?_⟩⟩
    · cases h with
      | here _ _ => exact hfirst
      | next hs htakes =>
        obtain rfl := Option.some.inj (hu.symm.trans hs)
        exact hlater t m t' htakes
    · exact h s l u (.here ls hu)
    · exact h t m t' (.next hu ht)

/-- **What comes in and what goes out**: if every step keeps the balance of
the events `p`, the events `q` and the stock `stock`, so does the run. -/
theorem exec_balance {I : S → Prop} {C : S → L → Prop} {p q : L → Bool} {stock : S → Nat}
    (hinv : ∀ s l s', I s → C s l → step s l = some s' → I s')
    (hstep : ∀ s l s', I s → C s l → step s l = some s' → (p l).toNat + stock s = (q l).toNat + stock s') :
    ∀ {ls : List L} {s s' : S}, exec step s ls = some s' → (∀ t l t', Takes step s ls t l t' → C t l) → I s →
      ls.countP p + stock s = ls.countP q + stock s'
  | [], s, s', he, _, _ => by
    obtain rfl := Option.some.inj he
    rfl
  | l :: ls, s, s', he, hC, hI => by
    obtain ⟨t, ht, hrest⟩ := Option.bind_eq_some_iff.mp he
    have hfirst : C s l := hC s l t (.here ls ht)
    have hone := hstep s l t hI hfirst ht
    have hall := exec_balance hinv hstep hrest (fun u m u' hu => hC u m u' (.next ht hu)) (hinv s l t hI hfirst ht)
    rw [List.countP_cons, List.countP_cons]
    have hone' : ∀ b : Bool, (if b = true then 1 else 0) = b.toNat := fun b => by cases b <;> rfl
    rw [hone', hone']
    omega

/-- A run that gets to its end goes there from every state it passes. -/
theorem Passes.rest {s t u : S} {ls : List L} (h : Passes step s ls t) (he : exec step s ls = some u) :
    ∃ ls', exec step t ls' = some u := by
  induction h with
  | here s ls => exact ⟨ls, he⟩
  | next hs _ ih =>
    obtain ⟨s', hs', hrest⟩ := Option.bind_eq_some_iff.mp he
    obtain rfl := Option.some.inj (hs.symm.trans hs')
    exact ih hrest

theorem Passes.run {init : S → Prop} {s t : S} {ls : List L} (h : Passes step s ls t) :
    ∃ ls', (ofStep init step).Run s ls' t := by
  induction h with
  | here s _ => exact ⟨[], .nil s⟩
  | next hs _ ih =>
    obtain ⟨ls', hrun⟩ := ih
    exact ⟨_, .cons hs hrun⟩

/-- **The first wrong step.** If from a good state a step leads to a good one
exactly when it meets `C`, a run stays good exactly when all its steps meet
`C`. `I` is an invariant of such steps the two may rely on. -/
theorem always_iff {I P : S → Prop} {C : S → L → Prop}
    (hinv : ∀ s l s', I s → C s l → step s l = some s' → I s')
    (hstep : ∀ s l s', I s → P s → step s l = some s' → (P s' ↔ C s l)) {s : S} (hI : I s) (hP : P s)
    (ls : List L) :
    (∀ t, Passes step s ls t → P t) ↔ ∀ t l t', Takes step s ls t l t' → C t l := by
  induction ls generalizing s with
  | nil =>
    constructor
    · intro _ t l t' h
      cases h
    · intro _ t h
      cases h
      exact hP
  | cons l ls ih =>
    constructor
    · intro h t m t' htakes
      have hgood : ∀ s', step s l = some s' → P s' := fun s' hs' => h s' (.next hs' (.here s' ls))
      cases htakes with
      | here _ hs => exact (hstep s l t' hI hP hs).mp (hgood t' hs)
      | @next _ s' _ _ _ _ _ hs hrest =>
        have hclean := (hstep s l s' hI hP hs).mp (hgood s' hs)
        exact (ih (hinv s l s' hI hclean hs) (hgood s' hs)).mp (fun u hu => h u (.next hs hu)) t m t' hrest
    · intro h t hpass
      cases hpass with
      | here => exact hP
      | @next _ s' _ _ _ hs hrest =>
        have hclean : C s l := h s l s' (.here ls hs)
        have hgood : P s' := (hstep s l s' hI hP hs).mpr hclean
        exact (ih (hinv s l s' hI hclean hs) hgood).mpr (fun u m u' hu => h u m u' (.next hs hu)) t hrest

/-- The same for the ends of the initial parts of a run. -/
theorem initial_parts_iff {P : S → Prop} {C : S → L → Prop}
    (hstep : ∀ s l s', P s → step s l = some s' → (P s' ↔ C s l)) {s : S} (hP : P s) (ls : List L) :
    (∀ ls₁ ls₂ t, ls = ls₁ ++ ls₂ → exec step s ls₁ = some t → P t) ↔
      ∀ t l t', Takes step s ls t l t' → C t l := by
  have hall := @always_iff _ _ step (fun _ => True) P C (fun _ _ _ _ _ _ => trivial)
    (fun s l s' _ => hstep s l s') s trivial hP ls
  rw [← hall]
  constructor
  · intro h t ht
    obtain ⟨ls₁, ls₂, hls, hexec⟩ := passes_iff.mp ht
    exact h ls₁ ls₂ t hls hexec
  · intro h ls₁ ls₂ t hls hexec
    exact h t (passes_iff.mpr ⟨ls₁, ls₂, hls, hexec⟩)

end

end LTS

/-- A system with one initial state in which every event is enabled. -/
structure Machine (S L : Type) where
  init : S
  step : S → L → S

namespace Machine

variable {S L : Type} (M : Machine S L)

/-- The state after the events `ls`, in order. -/
def run (ls : List L) : S := ls.foldl M.step M.init

@[simp] theorem run_snoc (ls : List L) (l : L) : M.run (ls ++ [l]) = M.step (M.run ls) l := by
  simp [run]

variable {M}

/-- A property of a state and of the events that led to it. -/
theorem run_hist {P : List L → S → Prop} (h0 : P [] M.init)
    (hs : ∀ ls l, P ls (M.run ls) → P (ls ++ [l]) (M.step (M.run ls) l)) (ls : List L) :
    P ls (M.run ls) := by
  induction ls using List.reverseRecOn with
  | nil => exact h0
  | append_singleton ls l ih => rw [run_snoc]; exact hs ls l ih

theorem run_inv {P : S → Prop} (h0 : P M.init) (hs : ∀ s l, P s → P (M.step s l)) (ls : List L) :
    P (M.run ls) :=
  run_hist (P := fun _ s => P s) h0 (fun ls l h => hs (M.run ls) l h) ls

end Machine

end ContextBroker
