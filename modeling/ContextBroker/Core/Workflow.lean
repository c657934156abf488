/-!
# Workflows with cycles

A graph of named nodes whose routes may go in circles. A node rewrites the
state and may let an exception escape; the router of the node picks the next
one. The runtime stops a run that has executed `limit` nodes with
`limitError`, so every run ends.

`Annotated` is the inductive-assertion rule: one assertion per node, kept
along every route, and implying the postcondition wherever the run ends.
`traced` keeps a record of the nodes besides, so that an assertion can be
about the whole path; the run is the same (`run_traced`).
-/
namespace ContextBroker

/-- `N` nodes, `S` state, `E` exceptions. -/
structure Workflow (N S E : Type) where
  node : N → S → S × Option E
  route : N → S → Option N
  limitError : E

namespace Workflow

variable {N S E : Type} (g : Workflow N S E)

/-- The run from node `n`, with at most `limit` nodes to execute. -/
def run : Nat → N → S → S × Option E
  | 0, _, s => (s, some g.limitError)
  | limit + 1, n, s =>
    match g.node n s with
    | (s', some e) => (s', some e)
    | (s', none) =>
      match g.route n s' with
      | none => (s', none)
      | some m => run limit m s'

structure Annotated (A : N → S → Prop) (Q : Option E → S → Prop) : Prop where
  raises : ∀ n s s' e, A n s → g.node n s = (s', some e) → Q (some e) s'
  ends : ∀ n s s', A n s → g.node n s = (s', none) → g.route n s' = none → Q none s'
  moves : ∀ n s s' m, A n s → g.node n s = (s', none) → g.route n s' = some m → A m s'
  stops : ∀ n s, A n s → Q (some g.limitError) s

variable {g}

theorem Annotated.run {A : N → S → Prop} {Q : Option E → S → Prop} (h : g.Annotated A Q) (limit : Nat) (n : N)
    (s : S) (hA : A n s) : Q (g.run limit n s).2 (g.run limit n s).1 := by
  induction limit generalizing n s with
  | zero => exact h.stops n s hA
  | succ limit ih =>
    unfold Workflow.run
    split
    · rename_i s' e hnode
      exact h.raises n s s' e hA hnode
    · rename_i s' hnode
      split
      · rename_i hroute
        exact h.ends n s s' hA hnode hroute
      · rename_i m hroute
        exact ih m s' (h.moves n s s' m hA hnode hroute)

/-! ## The path of a run -/

/-- The workflow with a record of the nodes it executes, each with the state
it starts in. -/
def traced (g : Workflow N S E) : Workflow N (S × List (N × S)) E where
  node n x := (((g.node n x.1).1, x.2 ++ [(n, x.1)]), (g.node n x.1).2)
  route n x := g.route n x.1
  limitError := g.limitError

theorem run_traced (limit : Nat) (n : N) (s : S) (past : List (N × S)) :
    ((g.traced.run limit n (s, past)).1.1, (g.traced.run limit n (s, past)).2) = g.run limit n s := by
  induction limit generalizing n s past with
  | zero => rfl
  | succ limit ih =>
    simp only [Workflow.run, traced]
    cases g.node n s with
    | mk s' e =>
      cases e with
      | some e => rfl
      | none =>
        dsimp only
        cases g.route n s' with
        | none => rfl
        | some m => exact ih m s' _

/-- Assertions about the state and the path. -/
theorem traced_annotated {A : N → S × List (N × S) → Prop} {Q : Option E → S × List (N × S) → Prop}
    (raises : ∀ n s s' e path, A n (s, path) → g.node n s = (s', some e) → Q (some e) (s', path ++ [(n, s)]))
    (ends : ∀ n s s' path, A n (s, path) → g.node n s = (s', none) → g.route n s' = none →
      Q none (s', path ++ [(n, s)]))
    (moves : ∀ n s s' m path, A n (s, path) → g.node n s = (s', none) → g.route n s' = some m →
      A m (s', path ++ [(n, s)]))
    (stops : ∀ n s path, A n (s, path) → Q (some g.limitError) (s, path)) : g.traced.Annotated A Q := by
  have hnode : ∀ {n s path s' path' e}, g.traced.node n (s, path) = ((s', path'), e) →
      g.node n s = (s', e) ∧ path' = path ++ [(n, s)] := by
    intro n s path s' path' e h
    simp only [traced, Prod.mk.injEq] at h
    exact ⟨Prod.ext h.1.1 h.2, h.1.2.symm⟩
  constructor
  case raises =>
    intro n ⟨s, path⟩ ⟨s', path'⟩ e hA h
    obtain ⟨hn, rfl⟩ := hnode h
    exact raises n s s' e path hA hn
  case ends =>
    intro n ⟨s, path⟩ ⟨s', path'⟩ hA h hroute
    obtain ⟨hn, rfl⟩ := hnode h
    exact ends n s s' path hA hn hroute
  case moves =>
    intro n ⟨s, path⟩ ⟨s', path'⟩ m hA h hroute
    obtain ⟨hn, rfl⟩ := hnode h
    exact moves n s s' m path hA hn hroute
  case stops =>
    intro n ⟨s, path⟩ hA
    exact stops n s path hA

/-- The nodes the run executes. -/
def visits (g : Workflow N S E) (limit : Nat) (n : N) (s : S) : List (N × S) := (g.traced.run limit n (s, [])).1.2

end Workflow

end ContextBroker
