import ContextBroker.Core.Rows

/-!
# Ranges laid out one after the other

Rows that each span a range `[lo, hi]` of positions. `Chain`: every range
ends before the next begins. `top` is the end of the last one, so a range
above the top extends the chain (`Chain.snoc`), cutting rows off the front
leaves the top where it is (`Chain.top_drop`), and the rows are already in
`ORDER BY lo` (`Chain.orderAsc`).
-/
namespace ContextBroker.Spans

open Rows

variable {α : Type} (lo hi : α → Nat)

/-- Each range ends before the later ones begin. -/
def Chain (l : List α) : Prop := l.Pairwise fun a b => hi a < lo b

/-- The end of the highest range, 0 if there is none. -/
def top (l : List α) : Nat := maxOf hi l

/-- Position `s` lies in one of the ranges. -/
def Covered (l : List α) (s : Nat) : Prop := ∃ a ∈ l, lo a ≤ s ∧ s ≤ hi a

variable {lo hi} {l : List α}

theorem Chain.sublist {l' : List α} (h : Chain lo hi l) (hs : l'.Sublist l) : Chain lo hi l' :=
  List.Pairwise.sublist hs h

/-- A range above the top goes to the end. -/
theorem Chain.snoc (h : Chain lo hi l) {a : α} (ha : top hi l < lo a) : Chain lo hi (l ++ [a]) := by
  refine List.pairwise_append.mpr ⟨h, List.pairwise_singleton _ a, fun b hb c hc => ?_⟩
  rw [List.mem_singleton.mp hc]
  exact Nat.lt_of_le_of_lt (le_maxOf hb) ha

theorem top_snoc {a : α} (ha : top hi l < lo a) (hr : lo a ≤ hi a) : top hi (l ++ [a]) = hi a := by
  simp only [top, maxOf_append, maxOf_cons, maxOf_nil] at ha ⊢
  omega

/-- The last range ends highest. -/
theorem Chain.top_eq_last (h : Chain lo hi l) (hr : ∀ a ∈ l, lo a ≤ hi a) {a : α}
    (ha : l.getLast? = some a) : top hi l = hi a := by
  obtain ⟨init, rfl⟩ := List.getLast?_eq_some_iff.mp ha
  refine Nat.le_antisymm (maxOf_le fun b hb => ?_) (le_maxOf (by simp))
  rcases List.mem_append.mp hb with hb | hb
  · have hlt := (List.pairwise_append.mp h).2.2 b hb a (by simp)
    have := hr a (by simp)
    omega
  · rw [List.mem_singleton.mp hb]

/-- Every range lies between the first and the last. -/
theorem Chain.within (h : Chain lo hi l) (hr : ∀ a ∈ l, lo a ≤ hi a) {a b c : α}
    (ha : l.head? = some a) (hb : l.getLast? = some b) (hc : c ∈ l) : lo a ≤ lo c ∧ hi c ≤ hi b := by
  constructor
  · obtain ⟨rest, rfl⟩ := List.head?_eq_some_iff.mp ha
    rcases List.mem_cons.mp hc with rfl | hc
    · exact Nat.le_refl _
    · have hlt := (List.pairwise_cons.mp h).1 c hc
      have hle := hr a List.mem_cons_self
      omega
  · rw [← h.top_eq_last hr hb]
    exact le_maxOf hc

/-- As long as one range is left, cutting from the front keeps the top. -/
theorem Chain.top_drop (h : Chain lo hi l) (hr : ∀ a ∈ l, lo a ≤ hi a) {k : Nat}
    (hk : k < l.length) : top hi (l.drop k) = top hi l := by
  have hne : l.drop k ≠ [] := by simpa using hk
  have hlast : (l.drop k).getLast? = l.getLast? := by
    rw [List.getLast?_drop, if_neg (Nat.not_le.mpr hk)]
  obtain ⟨a, ha⟩ : ∃ a, (l.drop k).getLast? = some a := ⟨_, List.getLast?_eq_some_getLast hne⟩
  rw [(h.sublist (List.drop_sublist k l)).top_eq_last
    (fun b hb => hr b (List.mem_of_mem_drop hb)) ha, h.top_eq_last hr (hlast ▸ ha)]

theorem Chain.ascending (h : Chain lo hi l) (hr : ∀ a ∈ l, lo a ≤ hi a) : Ascending lo l :=
  List.Pairwise.imp_of_mem (fun {a _} ha _ hab => Nat.lt_of_le_of_lt (hr a ha) hab) h

/-- Ranges of which no two meet follow one another in order. -/
theorem chain_orderAsc (hr : ∀ a ∈ l, lo a ≤ hi a)
    (h : l.Pairwise fun a b => hi a < lo b ∨ hi b < lo a) : Chain lo hi (Rows.orderAsc lo l) := by
  have hperm := orderAsc_perm lo l
  have hdisj : (Rows.orderAsc lo l).Pairwise fun a b => hi a < lo b ∨ hi b < lo a :=
    hperm.symm.pairwise h fun hab => hab.symm
  refine List.Pairwise.imp_of_mem ?_ (hdisj.and (orderAsc_sorted lo l))
  intro a b _ hb ⟨hab, hle⟩
  have := hr b (hperm.mem_iff.mp hb)
  omega

theorem Chain.orderAsc (h : Chain lo hi l) (hr : ∀ a ∈ l, lo a ≤ hi a) : Rows.orderAsc lo l = l :=
  orderAsc_of_ascending (h.ascending hr)

end ContextBroker.Spans
