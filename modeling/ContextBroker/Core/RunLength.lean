import Mathlib.Data.List.Chain

/-!
# Run-length encoding with a weak equality

A list kept as runs, each a value and how often it came. `push` extends the
last run when the test `same` says so, and opens a run otherwise; it may be
weaker than equality, in which case a value can vanish behind the first one
of its run.

* `expand_pushAll`: what comes back out, exactly: every value replaced with
  the first one of its run (`emitted`).
* `map_emitted`: a function that `same` respects does not see the difference,
  and `map_emitted_of_isChain`: nor one that neighbours agree on.
* `emitted_eq_iff`: nothing is lost exactly when neighbours that are `same`
  are equal.
-/
namespace ContextBroker.RunLength

variable {α β : Type}

def expand (runs : List (α × Nat)) : List α := runs.flatMap fun r => List.replicate r.2 r.1

@[simp] theorem expand_nil : expand ([] : List (α × Nat)) = [] := rfl

@[simp] theorem expand_append (runs runs' : List (α × Nat)) :
    expand (runs ++ runs') = expand runs ++ expand runs' := List.flatMap_append

@[simp] theorem expand_cons (a : α) (n : Nat) (runs : List (α × Nat)) :
    expand ((a, n) :: runs) = List.replicate n a ++ expand runs := List.flatMap_cons

variable (same : α → α → Bool)

def push (runs : List (α × Nat)) (x : α) : List (α × Nat) :=
  match runs.getLast? with
  | none => runs ++ [(x, 1)]
  | some (a, n) => if same a x then runs.dropLast ++ [(a, n + 1)] else runs ++ [(x, 1)]

def pushAll (runs : List (α × Nat)) (xs : List α) : List (α × Nat) := xs.foldl (push same) runs

/-- The value of the last run. -/
def current (runs : List (α × Nat)) : Option α := runs.getLast?.map Prod.fst

/-- Each value as the first one of its run, while the run of `cur` is open. -/
def emitted : Option α → List α → List α
  | _, [] => []
  | none, x :: xs => x :: emitted (some x) xs
  | some a, x :: xs => if same a x then a :: emitted (some a) xs else x :: emitted (some x) xs

variable {same}

/-- A value that is not `same` as the last run's opens a run. -/
theorem push_new {runs : List (α × Nat)} {x : α} (h : ∀ a ∈ current runs, same a x = false) :
    push same runs x = runs ++ [(x, 1)] := by
  unfold push
  cases hlast : runs.getLast? with
  | none => rfl
  | some r =>
    have hr : current runs = some r.1 := by rw [current, hlast, Option.map_some]
    simp [h r.1 hr]

/-- One value more comes out, and its run is open. -/
theorem push_spec (runs : List (α × Nat)) (x : α) (xs : List α) :
    expand (push same runs x) ++ emitted same (current (push same runs x)) xs =
      expand runs ++ emitted same (current runs) (x :: xs) := by
  unfold push current
  cases hlast : runs.getLast? with
  | none => simp [emitted]
  | some r =>
    obtain ⟨a, n⟩ := r
    obtain ⟨init, rfl⟩ := List.getLast?_eq_some_iff.mp hlast
    cases hs : same a x with
    | true => simp [emitted, hs, List.replicate_succ']
    | false => simp [emitted, hs]

theorem map_fst_push (runs : List (α × Nat)) (x : α) :
    (push same runs x).map Prod.fst = runs.map Prod.fst ∨
      (push same runs x).map Prod.fst = runs.map Prod.fst ++ [x] := by
  unfold push
  cases hlast : runs.getLast? with
  | none => exact .inr (by simp)
  | some r =>
    obtain ⟨a, n⟩ := r
    obtain ⟨init, rfl⟩ := List.getLast?_eq_some_iff.mp hlast
    cases hs : same a x with
    | true => exact .inl (by simp [hs])
    | false => exact .inr (by simp [hs])

/-- The runs have values that went in, in order. -/
theorem map_fst_pushAll (xs : List α) : List.Sublist ((pushAll same [] xs).map Prod.fst) xs := by
  induction xs using List.reverseRecOn with
  | nil => exact List.Sublist.slnil
  | append_singleton xs x ih =>
    rw [pushAll, List.foldl_concat]
    rcases @map_fst_push α same (pushAll same [] xs) x with h | h
    · exact h ▸ ih.trans (List.sublist_append_left xs [x])
    · exact h ▸ ih.append (List.Sublist.refl [x])

/-- **What comes out of the runs** after `xs` went in. -/
theorem expand_pushAll (runs : List (α × Nat)) (xs : List α) :
    expand (pushAll same runs xs) = expand runs ++ emitted same (current runs) xs := by
  induction xs generalizing runs with
  | nil => simp [pushAll, emitted]
  | cons x xs ih =>
    calc expand (pushAll same runs (x :: xs))
        = expand (push same runs x) ++ emitted same (current (push same runs x)) xs := ih (push same runs x)
      _ = expand runs ++ emitted same (current runs) (x :: xs) := push_spec runs x xs

@[simp] theorem length_emitted (cur : Option α) (xs : List α) : (emitted same cur xs).length = xs.length := by
  induction xs generalizing cur with
  | nil => cases cur <;> rfl
  | cons x xs ih =>
    cases cur with
    | none => simp [emitted, ih]
    | some a => cases hs : same a x <;> simp [emitted, hs, ih]

theorem push_ne (runs : List (α × Nat)) (x : α) : push same runs x ≠ runs := by
  intro h
  have hlen := congrArg List.length (@push_spec _ same runs x [])
  rw [h] at hlen
  simp at hlen

theorem map_emitted {f : α → β} (hf : ∀ a x, same a x = true → f a = f x) (cur : Option α)
    (xs : List α) : (emitted same cur xs).map f = xs.map f := by
  induction xs generalizing cur with
  | nil => cases cur <;> rfl
  | cons x xs ih =>
    cases cur with
    | none => simp [emitted, ih]
    | some a =>
      cases hs : same a x with
      | true => simp [emitted, hs, ih, hf a x hs]
      | false => simp [emitted, hs, ih]

/-- Nor does a function that neighbours agree on when they are `same`. -/
theorem map_emitted_of_isChain {f : α → β}
    (heuclid : ∀ a x y, same a x = true → same a y = true → same x y = true) (cur : Option α) (xs : List α)
    (h : (cur.toList ++ xs).IsChain fun a x => same a x = true → f a = f x) :
    (emitted same cur xs).map f = xs.map f := by
  induction xs generalizing cur with
  | nil => cases cur <;> rfl
  | cons x xs ih =>
    cases cur with
    | none => simp [emitted, ih (some x) h]
    | some a =>
      obtain ⟨hax, hrest⟩ := List.isChain_cons_cons.mp h
      cases hs : same a x with
      | false => simp [emitted, hs, ih (some x) hrest]
      | true =>
        have hcur : (a :: xs).IsChain fun a x => same a x = true → f a = f x := by
          cases xs with
          | nil => exact List.isChain_singleton a
          | cons y ys =>
            obtain ⟨hxy, hys⟩ := List.isChain_cons_cons.mp hrest
            refine List.isChain_cons_cons.mpr ⟨fun hay => ?_, hys⟩
            exact (hax hs).trans (hxy (heuclid a x y hs hay))
        simp [emitted, hs, ih (some a) hcur, hax hs]

theorem emitted_eq_iff (cur : Option α) (xs : List α) :
    emitted same cur xs = xs ↔
      (cur.toList ++ xs).IsChain fun a x => same a x = true → a = x := by
  induction xs generalizing cur with
  | nil => cases cur <;> simp [emitted]
  | cons x xs ih =>
    have ih := ih (some x)
    simp only [Option.toList_some, List.singleton_append] at ih
    cases cur with
    | none => simp [emitted, ih]
    | some a =>
      simp only [Option.toList_some, List.singleton_append, List.isChain_cons_cons, ← ih]
      cases hs : same a x with
      | true =>
        simp only [emitted, hs, if_true, List.cons.injEq, true_implies]
        constructor
        · rintro ⟨rfl, hrest⟩
          exact ⟨rfl, hrest⟩
        · rintro ⟨rfl, hrest⟩
          exact ⟨rfl, hrest⟩
      | false => simp [emitted, hs]

end ContextBroker.RunLength
