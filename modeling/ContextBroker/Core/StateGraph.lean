import Mathlib.Logic.Relation
import Mathlib.Order.Basic

/-!
# Acyclic state graphs

A workflow of named nodes over one shared state: a node rewrites the state
and may let an exception escape; when it returns, a router on the new state
picks the next node or the end. An escaped exception ends the run where it
is: there is no finally edge.

`StateGraph` carries its own acyclicity (`rank_lt`: every route lowers the
rank), so `invoke` is total. `runFrom_eq` unfolds one node; `Outline`
is the inductive-assertion rule: one assertion per node, established by the
entry state, kept along every route, and implying the postcondition where
the run ends (normally or by an exception). `measure_invoke` adds up what the
nodes of a run contribute. `follows` is the decidable form of `Visits` along a
given list of nodes.
-/
namespace ContextBroker

/-- A computation that may raise returned exactly if its first part did and
the rest did on what it returned. -/
theorem bind_eq_ok {ε α β : Type} {x : Except ε α} {f : α → Except ε β} {b : β} :
    (x >>= f) = .ok b ↔ ∃ a, x = .ok a ∧ f a = .ok b := by
  cases x with
  | error e => simp [bind, Except.bind]
  | ok a => simp [bind, Except.bind]

/-- What a list of calls returned is what each call did. -/
theorem mapM_eq_ok {ε α β : Type} {f : α → Except ε β} {as : List α} {bs : List β} (h : as.mapM f = .ok bs) :
    ∀ b ∈ bs, ∃ a ∈ as, f a = .ok b := by
  induction as generalizing bs with
  | nil =>
    obtain rfl : bs = [] := by simpa [pure, Except.pure] using h.symm
    simp
  | cons a as ih =>
    rw [List.mapM_cons] at h
    obtain ⟨b, hb, h⟩ := bind_eq_ok.mp h
    obtain ⟨rest, hrest, h⟩ := bind_eq_ok.mp h
    obtain rfl : b :: rest = bs := by simpa [pure, Except.pure] using h
    intro x hx
    rcases List.mem_cons.mp hx with rfl | hx
    · exact ⟨a, List.mem_cons_self, hb⟩
    · obtain ⟨a', ha', hx⟩ := ih hrest x hx
      exact ⟨a', List.mem_cons_of_mem a ha', hx⟩

/-- A computation whose result passes a test did return. -/
theorem exists_ok {ε α : Type} {x : Except ε α} {p : α → Bool} (h : x.toOption.any p = true) :
    ∃ a, x = .ok a ∧ p a = true := by
  cases x with
  | error e => cases h
  | ok a => exact ⟨a, rfl, h⟩

/-- `N` nodes, `S` state, `E` exceptions. -/
structure StateGraph (N S E : Type) where
  entry : N
  /-- The state a node leaves and the exception that escapes it, if any. -/
  node : N → S → S × Option E
  /-- The edge taken after a node that returned; `none` is the end. -/
  route : N → S → Option N
  rank : N → Nat
  rank_lt : ∀ n s m, route n s = some m → rank m < rank n

namespace StateGraph

variable {N S E : Type}

/-- How a run went: the nodes executed in order, the last state, and the
exception that ended it. -/
structure Outcome (N S E : Type) where
  trace : List N
  final : S
  raised : Option E

variable (g : StateGraph N S E)

def go : Nat → N → S → Outcome N S E
  | 0, _, s => ⟨[], s, none⟩
  | k + 1, n, s =>
    match g.node n s with
    | (s', some e) => ⟨[n], s', some e⟩
    | (s', none) =>
      match g.route n s' with
      | none => ⟨[n], s', none⟩
      | some m => ⟨n :: (go k m s').trace, (go k m s').final, (go k m s').raised⟩

/-- The run from node `n`. -/
def runFrom (n : N) (s : S) : Outcome N S E := g.go (g.rank n + 1) n s

def invoke (s : S) : Outcome N S E := g.runFrom g.entry s

/-- Fuel above the rank is never used up. -/
theorem go_fuel : ∀ (k : Nat) (n : N) (s : S), g.rank n < k → g.go k n s = g.runFrom n s := by
  intro k
  induction k using Nat.strongRecOn with
  | ind k ih =>
  intro n s hk
  obtain ⟨j, rfl⟩ : ∃ j, k = j + 1 := ⟨k - 1, by omega⟩
  simp only [runFrom, go]
  split
  · rfl
  · split
    · rfl
    · rename_i m hm
      have hlt := g.rank_lt _ _ _ hm
      rw [ih j (by omega) m _ (by omega)]
      by_cases hj : g.rank n = j
      · subst hj; rw [ih _ (by omega) m _ hlt]
      · rw [ih (g.rank n) (by omega) m _ hlt]

/-- One node of a run. -/
theorem runFrom_eq (n : N) (s : S) :
    g.runFrom n s =
      match g.node n s with
      | (s', some e) => ⟨[n], s', some e⟩
      | (s', none) =>
        match g.route n s' with
        | none => ⟨[n], s', none⟩
        | some m => ⟨n :: (g.runFrom m s').trace, (g.runFrom m s').final, (g.runFrom m s').raised⟩ := by
  show g.go (g.rank n + 1) n s = _
  simp only [go]
  split
  · rfl
  · split
    · rfl
    · rename_i m hm
      rw [g.go_fuel _ _ _ (g.rank_lt _ _ _ hm)]

/-- Node `n` is entered with state `s` in the run from `s₀`. -/
inductive Visits (s₀ : S) : N → S → Prop where
  | entry : Visits s₀ g.entry s₀
  | next {n m : N} {s : S} : Visits s₀ n s → (g.node n s).2 = none →
      g.route n (g.node n s).1 = some m → Visits s₀ m (g.node n s).1

section Visits

variable {g} {s₀ s : S} {n : N}

theorem Visits.step (h : g.Visits s₀ n s) {s' : S} {m : N} (hn : g.node n s = (s', none))
    (hr : g.route n s' = some m) : g.Visits s₀ m s' := by
  have hnext := h.next (m := m) (by rw [hn]) (by rw [hn]; exact hr)
  rwa [hn] at hnext

/-- The nodes `ns` return one after the other, and `m` is next. -/
def follows [DecidableEq N] (g : StateGraph N S E) (s : S) : List N → N → Bool
  | [], _ => true
  | n :: ns, m =>
    (g.node n s).2.isNone && g.route n (g.node n s).1 == some (ns.headD m) && g.follows (g.node n s).1 ns m

/-- A stretch of a run, checked at once. -/
theorem Visits.follow [DecidableEq N] {m : N} :
    ∀ {ns : List N} {s : S}, g.Visits s₀ (ns.headD m) s → g.follows s ns m = true →
      g.Visits s₀ m (ns.foldl (fun s n => (g.node n s).1) s)
  | [], _, h, _ => h
  | n :: ns, s, h, hf => by
    simp only [follows, Bool.and_eq_true, Option.isNone_iff_eq_none, beq_iff_eq] at hf
    obtain ⟨⟨hret, hroute⟩, hrest⟩ := hf
    exact (h.next hret hroute).follow hrest

theorem Visits.rank_le (h : g.Visits s₀ n s) : g.rank n ≤ g.rank g.entry := by
  induction h with
  | entry => exact Nat.le_refl _
  | next _ _ hroute ih =>
    have := g.rank_lt _ _ _ hroute
    omega

/-- The entry node is entered once, with the initial state. -/
theorem Visits.of_entry (h : g.Visits s₀ g.entry s) : s = s₀ := by
  generalize hn : g.entry = n at h
  cases h with
  | entry => rfl
  | next hprev _ hroute =>
    have := hprev.rank_le
    have := g.rank_lt _ _ _ hroute
    subst hn
    omega

/-- The entry of the node that follows. -/
def Next (x y : N × S) : Prop :=
  (g.node x.1 x.2).2 = none ∧ g.route x.1 (g.node x.1 x.2).1 = some y.1 ∧ y.2 = (g.node x.1 x.2).1

theorem Visits.reflTransGen (h : g.Visits s₀ n s) :
    Relation.ReflTransGen g.Next (g.entry, s₀) (n, s) := by
  induction h with
  | entry => exact .refl
  | next _ hret hroute ih => exact ih.tail ⟨hret, hroute, rfl⟩

theorem rank_of_reflTransGen {x y : N × S} (h : Relation.ReflTransGen g.Next x y) :
    x = y ∨ g.rank y.1 < g.rank x.1 := by
  induction h with
  | refl => exact .inl rfl
  | tail _ hnext ih =>
    have hlt := g.rank_lt _ _ _ hnext.2.1
    rcases ih with rfl | ih
    · exact .inr hlt
    · exact .inr (Nat.lt_trans hlt ih)

/-- A run enters a node at most once. -/
theorem Visits.unique {s' : S} (h : g.Visits s₀ n s) (h' : g.Visits s₀ n s') : s = s' := by
  have hdet : Relator.RightUnique g.Next := by
    intro x ⟨m, t⟩ ⟨m', t'⟩ ⟨_, hm, ht⟩ ⟨_, hm', ht'⟩
    exact Prod.ext (Option.some.inj (hm.symm.trans hm')) (ht.trans ht'.symm)
  rcases h.reflTransGen.total_of_right_unique hdet h'.reflTransGen with hle | hle
  · rcases rank_of_reflTransGen hle with heq | hlt
    · exact congrArg Prod.snd heq
    · exact absurd hlt (Nat.lt_irrefl _)
  · rcases rank_of_reflTransGen hle with heq | hlt
    · exact (congrArg Prod.snd heq).symm
    · exact absurd hlt (Nat.lt_irrefl _)

/-- What remains of a run when a node is entered is the run from there; the
nodes before it all had an edge. -/
theorem Visits.invoke (h : g.Visits s₀ n s) :
    ∃ pre, (g.invoke s₀).trace = pre ++ (g.runFrom n s).trace ∧
      ∀ m ∈ pre, ∃ s' k, g.route m s' = some k := by
  induction h with
  | entry => exact ⟨[], rfl, fun _ hm => nomatch hm⟩
  | @next n m s _ hret hroute ih =>
    obtain ⟨pre, htrace, hpre⟩ := ih
    refine ⟨pre ++ [n], ?_, fun k hk => ?_⟩
    · rw [htrace, g.runFrom_eq]
      generalize g.node n s = out at hret hroute ⊢
      obtain ⟨s', e⟩ := out
      obtain rfl : e = none := hret
      simp only [hroute, List.append_assoc, List.singleton_append]
    · rcases List.mem_append.mp hk with hk | hk
      · exact hpre k hk
      · rw [List.mem_singleton.mp hk]
        exact ⟨_, _, hroute⟩

/-- The run ends as the run from any node it enters does. -/
theorem Visits.final (h : g.Visits s₀ n s) :
    (g.invoke s₀).final = (g.runFrom n s).final ∧ (g.invoke s₀).raised = (g.runFrom n s).raised := by
  induction h with
  | entry => exact ⟨rfl, rfl⟩
  | @next n m s _ hret hroute ih =>
    rw [ih.1, ih.2, g.runFrom_eq]
    generalize g.node n s = out at hret hroute ⊢
    obtain ⟨s', e⟩ := out
    obtain rfl : e = none := hret
    simp only [hroute, and_self]

/-- A node that stops the run is the last one. -/
theorem Visits.last (h : g.Visits s₀ n s)
    (hstop : (g.node n s).2 = none → g.route n (g.node n s).1 = none) :
    ∃ pre, (g.invoke s₀).trace = pre ++ [n] ∧ ∀ m ∈ pre, ∃ s' k, g.route m s' = some k := by
  obtain ⟨pre, htrace, hpre⟩ := h.invoke
  refine ⟨pre, ?_, hpre⟩
  rw [htrace, g.runFrom_eq]
  split
  · rfl
  · rename_i s' hnode
    have hroute : g.route n s' = none := by
      have := hstop (by rw [hnode])
      rwa [hnode] at this
    simp [hroute]

/-- Every run ends at a node that raises or has no edge. -/
theorem exists_last (s₀ : S) : ∃ n s, g.Visits s₀ n s ∧
    ((g.node n s).2 = none → g.route n (g.node n s).1 = none) := by
  suffices H : ∀ (k : Nat) (n : N) (s : S), g.rank n = k → g.Visits s₀ n s → ∃ n s, g.Visits s₀ n s ∧
      ((g.node n s).2 = none → g.route n (g.node n s).1 = none) from H _ _ _ rfl .entry
  intro k
  induction k using Nat.strongRecOn with
  | ind k ih =>
  intro n s hk hv
  by_cases hstop : (g.node n s).2 = none → g.route n (g.node n s).1 = none
  · exact ⟨n, s, hv, hstop⟩
  · simp only [Classical.not_imp] at hstop
    obtain ⟨hret, hroute⟩ := hstop
    obtain ⟨m, hm⟩ := Option.ne_none_iff_exists'.mp hroute
    exact ih _ (hk ▸ g.rank_lt _ _ _ hm) m _ rfl (hv.next hret hm)

end Visits

/-- Inductive assertions: `A` annotates the nodes, `Q` is the
postcondition, on the escaped exception (if any) and the last state. -/
structure Outline (A : N → S → Prop) (Q : Option E → S → Prop) : Prop where
  raises : ∀ n s s' e, A n s → g.node n s = (s', some e) → Q (some e) s'
  ends : ∀ n s s', A n s → g.node n s = (s', none) → g.route n s' = none → Q none s'
  moves : ∀ n s s' m, A n s → g.node n s = (s', none) → g.route n s' = some m → A m s'

variable {g}

theorem Outline.runFrom {A : N → S → Prop} {Q : Option E → S → Prop} (h : g.Outline A Q) :
    ∀ (n : N) (s : S), A n s → Q (g.runFrom n s).raised (g.runFrom n s).final := by
  suffices H : ∀ (k : Nat) (n : N) (s : S), g.rank n = k → A n s →
      Q (g.runFrom n s).raised (g.runFrom n s).final from fun n s => H _ n s rfl
  intro k
  induction k using Nat.strongRecOn with
  | ind k ih =>
  intro n s hk hA
  rw [g.runFrom_eq]
  split
  · rename_i s' e he
    exact h.raises n s s' e hA he
  · rename_i s' he
    split
    · rename_i hr
      exact h.ends n s s' hA he hr
    · rename_i m hr
      exact ih _ (hk ▸ g.rank_lt _ _ _ hr) m s' rfl (h.moves n s s' m hA he hr)

/-- The assertion of a node holds whenever it is entered. -/
theorem Outline.visits {A : N → S → Prop} {Q : Option E → S → Prop} (h : g.Outline A Q)
    {s₀ s : S} {n : N} (hs : A g.entry s₀) (hv : g.Visits s₀ n s) : A n s := by
  induction hv with
  | entry => exact hs
  | next _ hret hroute ih => exact h.moves _ _ _ _ ih (Prod.ext rfl hret) hroute

theorem Outline.invoke {A : N → S → Prop} {Q : Option E → S → Prop} (h : g.Outline A Q)
    {s : S} (hs : A g.entry s) : Q (g.invoke s).raised (g.invoke s).final :=
  h.runFrom g.entry s hs

/-! ## What the nodes of a run contribute -/

section Collect

variable {B : Type} (f : N → S → List B)

variable (g) in
/-- `f` at every node executed from `n` on, in order. -/
def collectFrom : Nat → N → S → List B
  | 0, _, _ => []
  | k + 1, n, s =>
    f n s ++
      match g.node n s with
      | (_, some _) => []
      | (s', none) =>
        match g.route n s' with
        | none => []
        | some m => collectFrom k m s'

variable (g) in
def collect (s : S) : List B := g.collectFrom f (g.rank g.entry + 1) g.entry s

/-- A measure on which every node acts by what it contributes: a run acts by
the contributions in order. `P` holds of every state on the way. -/
theorem measure_invoke {M : Type} (measure : S → M) (act : M → List B → M) (P : S → Prop)
    (hnil : ∀ a, act a [] = a) (happend : ∀ a xs ys, act (act a xs) ys = act a (xs ++ ys))
    (hstep : ∀ n s, P s → P (g.node n s).1 ∧ measure (g.node n s).1 = act (measure s) (f n s))
    (s : S) (hs : P s) : measure (g.invoke s).final = act (measure s) (g.collect f s) := by
  suffices H : ∀ (k : Nat) (n : N) (s : S), P s →
      measure (g.go k n s).final = act (measure s) (g.collectFrom f k n s) from H _ _ s hs
  intro k
  induction k with
  | zero => exact fun n s _ => (hnil _).symm
  | succ k ih =>
    intro n s hs
    obtain ⟨hP, hmeasure⟩ := hstep n s hs
    simp only [go, collectFrom]
    rcases hnode : g.node n s with ⟨s', _ | e⟩
    · rw [hnode] at hP hmeasure
      dsimp only at hP hmeasure ⊢
      cases hroute : g.route n s' with
      | none => simp [hmeasure]
      | some m => simp only [ih m s' hP, hmeasure, happend]
    · rw [hnode] at hmeasure
      simp only [hmeasure, List.append_nil]

end Collect

end StateGraph

end ContextBroker
