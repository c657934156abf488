import Mathlib.Data.List.Forall2

/-!
# Positional parameters

A statement with placeholders `$1`, `$2`, ... is put together condition by
condition, with the values it binds in a list beside it. `Built` is such a
statement under way, above the values `base` that it starts with.

`Valid b ps`: whatever is bound after it, every condition of `b` means the
predicate of `ps` in its place, so each placeholder reads the value it was
added with. `bind`, `bindIf` and `literal` keep it; `Valid.conj` is the
`WHERE` clause, `Valid.param_next` the placeholders that come after.
-/
namespace ContextBroker.Positional

variable {C V R : Type}

/-- The value of `$i`. -/
def param (params : List V) (i : Nat) : Option V := if i = 0 then none else params[i - 1]?

structure Built (C V : Type) where
  clauses : List C
  args : List V
  /-- The next placeholder. -/
  idx : Nat

namespace Built

def start (idx : Nat) : Built C V := ⟨[], [], idx⟩

/-- A condition with a placeholder, and its value. -/
def bind (b : Built C V) (clause : Nat → C) (v : V) : Built C V :=
  ⟨b.clauses ++ [clause b.idx], b.args ++ [v], b.idx + 1⟩

/-- `if value: ...` -/
def bindIf (b : Built C V) (clause : Nat → C) : Option V → Built C V
  | some v => b.bind clause v
  | none => b

/-- A condition without a placeholder. -/
def literal (b : Built C V) (c : C) : Built C V := { b with clauses := b.clauses ++ [c] }

end Built

section

-- what a condition says of a row; none is an error of the statement
variable (eval : List V → C → R → Option Bool)

/-- The conditions joined by `AND`. -/
def conj (params : List V) (row : R) : List C → Option Bool
  | [] => some true
  | c :: cs => (eval params c row).bind fun x => (conj params row cs).map (x && ·)

/-- The condition reads `v` through its placeholder, and means `p` then. -/
def Reads (clause : Nat → C) (v : V) (p : R → Bool) : Prop :=
  ∀ params i, param params i = some v → ∀ row, eval params (clause i) row = some (p row)

/-- `b`, built above `base`, means `ps`. -/
structure Valid (base : List V) (b : Built C V) (ps : List (R → Bool)) : Prop where
  idx : b.idx = base.length + b.args.length + 1
  clauses : ∀ rest, List.Forall₂ (fun c p => ∀ row, eval (base ++ b.args ++ rest) c row = some (p row)) b.clauses ps

variable {eval} {base : List V} {b : Built C V} {ps : List (R → Bool)} {clause : Nat → C} {v : V} {p : R → Bool}

theorem valid_start (eval : List V → C → R → Option Bool) (base : List V) : Valid eval base (Built.start (base.length + 1)) [] :=
  ⟨rfl, fun _ => .nil⟩

/-- The placeholders after `b`. -/
theorem Valid.param_next (h : Valid eval base b ps) (rest : List V) (j : Nat) :
    param (base ++ b.args ++ rest) (b.idx + j) = rest[j]? := by
  have hidx := h.idx
  rw [param, if_neg (by omega), List.getElem?_append_right (by simp; omega)]
  congr 1
  simp only [List.length_append]
  omega

theorem Valid.bind (h : Valid eval base b ps) (hreads : Reads eval clause v p) :
    Valid eval base (b.bind clause v) (ps ++ [p]) := by
  refine ⟨?_, fun rest => ?_⟩
  · simp only [Built.bind, List.length_append, List.length_singleton]
    have hidx := h.idx
    omega
  · have hparams : base ++ (b.bind clause v).args ++ rest = base ++ b.args ++ v :: rest := by simp [Built.bind]
    rw [hparams]
    refine List.rel_append (h.clauses (v :: rest)) (.cons (hreads _ _ ?_) .nil)
    simpa using h.param_next (v :: rest) 0

theorem Valid.bindIf {α : Type} {mk : α → V} {q : α → R → Bool} (h : Valid eval base b ps)
    (hreads : ∀ a, Reads eval clause (mk a) (q a)) (value : Option α) :
    Valid eval base (b.bindIf clause (value.map mk)) (ps ++ (value.map q).toList) := by
  cases value with
  | none => simpa [Built.bindIf] using h
  | some a => exact h.bind (hreads a)

theorem Valid.literal {c : C} (h : Valid eval base b ps) (hc : ∀ params row, eval params c row = some (p row)) :
    Valid eval base (b.literal c) (ps ++ [p]) :=
  ⟨h.idx, fun rest => List.rel_append (h.clauses rest) (.cons (hc _) .nil)⟩

theorem conj_of_forall₂ {params : List V} {cs : List C} {row : R}
    (h : List.Forall₂ (fun c p => ∀ row, eval params c row = some (p row)) cs ps) :
    conj eval params row cs = some (ps.all (· row)) := by
  induction h with
  | nil => rfl
  | cons hc _ ih => simp [conj, hc row, ih]

/-- **The `WHERE` clause** means the conjunction, whatever is bound after it. -/
theorem Valid.conj (h : Valid eval base b ps) (rest : List V) (row : R) :
    Positional.conj eval (base ++ b.args ++ rest) row b.clauses = some (ps.all (· row)) :=
  conj_of_forall₂ (h.clauses rest)

/-- The rows a `WHERE` clause lets pass. -/
def select (eval : List V → C → R → Option Bool) (params : List V) (cs : List C) : List R → Option (List R)
  | [] => some []
  | row :: rows =>
    (Positional.conj eval params row cs).bind fun keep =>
      (select eval params cs rows).map fun kept => if keep then row :: kept else kept

/-- **The statement** selects what its conditions mean. -/
theorem Valid.select (h : Valid eval base b ps) (rest : List V) (rows : List R) :
    Positional.select eval (base ++ b.args ++ rest) b.clauses rows = some (rows.filter fun row => ps.all (· row)) := by
  induction rows with
  | nil => rfl
  | cons row rows ih =>
    rw [Positional.select, h.conj, ih, List.filter_cons]
    rfl

end

/-! ## Numbering at the end -/

/-- The conditions first, their placeholders counted from `idx` at the end. -/
def numbered (idx : Nat) (items : List ((Nat → C) × V)) : Built C V :=
  ⟨items.zipIdx.map fun item => item.1.1 (idx + item.2), items.map (·.2), idx + items.length⟩

@[simp] theorem numbered_nil (idx : Nat) : numbered idx ([] : List ((Nat → C) × V)) = Built.start idx := rfl

/-- One more condition at the end. -/
theorem numbered_snoc (idx : Nat) (items : List ((Nat → C) × V)) (item : (Nat → C) × V) :
    numbered idx (items ++ [item]) = (numbered idx items).bind item.1 item.2 := by
  simp [numbered, Built.bind, List.zipIdx_append, Nat.add_assoc]

/-- The same as one by one. -/
theorem numbered_option {α : Type} (idx : Nat) (items : List ((Nat → C) × V)) (clause : Nat → C) (mk : α → V)
    (value : Option α) : numbered idx (items ++ (value.map fun a => (clause, mk a)).toList) =
      (numbered idx items).bindIf clause (value.map mk) := by
  cases value with
  | none => simp [Built.bindIf]
  | some a => exact numbered_snoc idx items (clause, mk a)

end ContextBroker.Positional
