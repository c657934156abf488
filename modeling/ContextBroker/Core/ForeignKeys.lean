import Mathlib.Data.List.Basic

/-!
# Deletes under foreign keys

A transaction is a list of statements over the tables `S`; the first that
fails undoes them all. A DELETE fails when a row to delete is still referred
to (`NO ACTION`).

`deleteWhere_eq_ok`: what a DELETE needs and what it leaves.
-/
namespace ContextBroker.ForeignKeys

variable {S E α : Type}

/-- `async with conn.transaction()`. -/
def transaction (statements : List (S → Except E S)) (s : S) : S × Except E Unit :=
  match statements.foldlM (fun s statement => statement s) s with
  | .ok s' => (s', .ok ())
  | .error e => (s, .error e)

theorem transaction_error {statements : List (S → Except E S)} {s : S} {e : E}
    (h : (transaction statements s).2 = .error e) : (transaction statements s).1 = s := by
  unfold transaction at h ⊢
  split
  · rename_i hrun
    rw [hrun] at h
    cases h
  · rfl

theorem transaction_ok {statements : List (S → Except E S)} {s s' : S} :
    transaction statements s = (s', .ok ()) ↔
      statements.foldlM (fun s statement => statement s) s = .ok s' := by
  unfold transaction
  split
  · rename_i hrun
    rw [hrun]
    simp
  · rename_i hrun
    rw [hrun]
    simp

/-- What every statement keeps, the transaction keeps, committed or not. -/
theorem transaction_inv {P : S → Prop} {statements : List (S → Except E S)}
    (h : ∀ statement ∈ statements, ∀ s s', P s → statement s = .ok s' → P s') {s : S} (hs : P s) :
    P (transaction statements s).1 := by
  have hrun : ∀ (statements : List (S → Except E S)) (s s' : S),
      (∀ statement ∈ statements, ∀ s s', P s → statement s = .ok s' → P s') → P s →
      statements.foldlM (fun s statement => statement s) s = .ok s' → P s' := by
    intro statements
    induction statements with
    | nil =>
      intro s s' _ hs hok
      obtain rfl := Except.ok.inj hok
      exact hs
    | cons statement rest ih =>
      intro s s' h hs hok
      rw [List.foldlM_cons] at hok
      cases hfirst : statement s with
      | error e =>
        rw [hfirst] at hok
        cases hok
      | ok s₁ =>
        rw [hfirst] at hok
        exact ih s₁ s' (fun st hst => h st (List.mem_cons_of_mem _ hst)) (h _ List.mem_cons_self _ _ hs hfirst) hok
  unfold transaction
  split
  · rename_i s' hok
    exact hrun statements s s' h hs hok
  · exact hs

/-- `DELETE FROM ... WHERE p`, where `referenced` says which rows other rows
refer to. -/
def deleteWhere (rows : List α) (p referenced : α → Bool) (violation : E) : Except E (List α) :=
  if rows.any fun r => p r && referenced r then .error violation else .ok (rows.filter fun r => !p r)

theorem deleteWhere_eq_ok {rows rows' : List α} {p referenced : α → Bool} {violation : E} :
    deleteWhere rows p referenced violation = .ok rows' ↔
      (∀ r ∈ rows, p r = true → referenced r = false) ∧ rows' = rows.filter fun r => !p r := by
  unfold deleteWhere
  by_cases h : rows.any (fun r => p r && referenced r) = true
  · rw [if_pos h]
    obtain ⟨r, hr, hpr⟩ := List.any_eq_true.mp h
    obtain ⟨hp, href⟩ := Bool.and_eq_true_iff.mp hpr
    constructor
    · nofun
    · intro hno
      exact absurd (hno.1 r hr hp) (by simp [href])
  · rw [if_neg h]
    have hno : ∀ r ∈ rows, p r = true → referenced r = false := by
      intro r hr hp
      by_contra href
      exact h (List.any_eq_true.mpr ⟨r, hr, by simp [hp, Bool.not_eq_false _ ▸ href]⟩)
    constructor
    · intro hrows
      exact ⟨hno, (Except.ok.inj hrows).symm⟩
    · intro hrows
      rw [hrows.2]

end ContextBroker.ForeignKeys
