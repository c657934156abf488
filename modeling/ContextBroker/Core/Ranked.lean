import Mathlib.Data.List.Sort
import Mathlib.Order.Defs.LinearOrder

/-!
# Stable descending order

`sortDesc key` is a sort by a key, largest first, that leaves items of one key
in the order they had.

* `sortDesc_perm`, `sortDesc_sorted`: the same items, by descending key.
* `sortDesc_stable`: whatever held of the items in their old order still holds
  of those with equal keys.
-/
namespace ContextBroker.Ranked

variable {α κ : Type} [LinearOrder κ] {key : α → κ} {l : List α}

/-- `sorted(l, key=key, reverse=True)`. -/
def sortDesc (key : α → κ) (l : List α) : List α := l.insertionSort fun a b => key b ≤ key a

theorem sortDesc_perm (key : α → κ) (l : List α) : (sortDesc key l).Perm l := List.perm_insertionSort _ l

@[simp] theorem mem_sortDesc {a : α} : a ∈ sortDesc key l ↔ a ∈ l := (sortDesc_perm key l).mem_iff

@[simp] theorem length_sortDesc (key : α → κ) (l : List α) : (sortDesc key l).length = l.length :=
  (sortDesc_perm key l).length_eq

@[simp] theorem sortDesc_nil (key : α → κ) : sortDesc key [] = [] := rfl

/-- Before: a larger key, or the same key and an earlier place. -/
def Before (key : α → κ) (R : α → α → Prop) (a b : α) : Prop := key b < key a ∨ key b = key a ∧ R a b

/-- An item earlier than the whole list stays before those of its key. -/
theorem orderedInsert_stable {R : α → α → Prop} {a : α} (ha : ∀ b ∈ l, R a b) (h : l.Pairwise (Before key R)) :
    (l.orderedInsert (fun a b => key b ≤ key a) a).Pairwise (Before key R) := by
  induction l with
  | nil => simp
  | cons b l ih =>
    have ⟨hb, hl⟩ := List.pairwise_cons.mp h
    rw [List.orderedInsert_cons]
    by_cases hab : key b ≤ key a
    · rw [if_pos hab]
      refine List.pairwise_cons.mpr ⟨fun c hc => ?_, h⟩
      have hcb : key c ≤ key b := by
        rcases List.mem_cons.mp hc with rfl | hc
        · exact le_refl _
        · exact (hb c hc).elim le_of_lt fun h => le_of_eq h.1
      exact (lt_or_eq_of_le (hcb.trans hab)).imp_right fun h => ⟨h, ha c hc⟩
    · rw [if_neg hab]
      refine List.pairwise_cons.mpr ⟨fun c hc => ?_, ih (fun c hc => ha c (List.mem_cons_of_mem _ hc)) hl⟩
      rcases (List.mem_orderedInsert _).mp hc with rfl | hc
      · exact .inl (not_le.mp hab)
      · exact hb c hc

theorem sortDesc_stable {R : α → α → Prop} (h : l.Pairwise R) : (sortDesc key l).Pairwise (Before key R) := by
  induction l with
  | nil => exact List.Pairwise.nil
  | cons a l ih =>
    have ⟨ha, hl⟩ := List.pairwise_cons.mp h
    exact orderedInsert_stable (fun b hb => ha b (mem_sortDesc.mp hb)) (ih hl)

theorem sortDesc_sorted (key : α → κ) (l : List α) : (sortDesc key l).Pairwise fun a b => key b ≤ key a := by
  have h : l.Pairwise fun _ _ => True := List.pairwise_of_forall fun _ _ => trivial
  exact (sortDesc_stable h).imp fun hab => hab.elim le_of_lt fun h => le_of_eq h.1

end ContextBroker.Ranked
