import Mathlib.Data.List.Nodup

/-!
# A table with check constraints and a unique index

Every row is admitted by every check, and no two rows have one key: this is in
the table (`Table.admitted`, `Table.keyed`), so a statement that would
break it is an error. An UPDATE writes one row after another, and each is
checked as it is written, against the rows that are written and those that
are not yet.

`update_eq_ok`: what an UPDATE needs and what it leaves.
-/
namespace ContextBroker.CheckedTable

variable {Row K : Type} [DecidableEq K]

/-- A row of `pg_constraint` with `contype = 'c'`. -/
structure Check (Row : Type) where
  name : List Char
  /-- `pg_get_constraintdef` -/
  definition : List Char
  admits : Row → Bool

inductive Violation where
  | check (name : List Char)
  | unique
  | duplicateName (name : List Char)
  deriving DecidableEq, Repr

structure Table (key : Row → K) where
  rows : List Row
  checks : List (Check Row)
  admitted : ∀ c ∈ checks, ∀ r ∈ rows, c.admits r = true
  keyed : (rows.map key).Nodup

/-! ## UPDATE -/

section Update

variable (key : Row → K) (checks : List (Check Row)) (p : Row → Bool) (f : Row → Row)

/-- The rows that are not yet written, after those that are. -/
def updateRows (written : List Row) : List Row → Except Violation (List Row)
  | [] => .ok written
  | r :: rest =>
    if p r then
      match checks.find? fun c => !c.admits (f r) with
      | some c => .error (.check c.name)
      | none =>
        if key (f r) ∈ (written ++ rest).map key then .error .unique else updateRows (written ++ [f r]) rest
    else updateRows (written ++ [r]) rest

variable {key checks p f} {written rest rows' : List Row} {r : Row}

theorem updateRows_eq_ok : ∀ {rest written : List Row}, updateRows key checks p f written rest = .ok rows' →
    rows' = written ++ rest.map (fun r => if p r then f r else r) ∧
      ∀ r ∈ rest, p r = true → ∀ c ∈ checks, c.admits (f r) = true
  | [], written, h => by
    cases h
    exact ⟨(List.append_nil _).symm, List.forall_mem_nil _⟩
  | r :: rest, written, h => by
    rw [updateRows] at h
    by_cases hp : p r = true
    · rw [if_pos hp] at h
      cases hfind : checks.find? fun c => !c.admits (f r) with
      | some c =>
        rw [hfind] at h
        cases h
      | none =>
        rw [hfind] at h
        dsimp only at h
        split at h
        · cases h
        · obtain ⟨rfl, hrest⟩ := updateRows_eq_ok h
          refine ⟨by rw [List.map_cons, if_pos hp, List.append_assoc, List.singleton_append], ?_⟩
          refine List.forall_mem_cons.mpr ⟨fun _ c hc => ?_, hrest⟩
          simpa using List.find?_eq_none.mp hfind c hc
    · rw [if_neg hp] at h
      obtain ⟨rfl, hrest⟩ := updateRows_eq_ok h
      refine ⟨by rw [List.map_cons, if_neg hp, List.append_assoc, List.singleton_append], ?_⟩
      exact List.forall_mem_cons.mpr ⟨fun hpr => absurd hpr hp, hrest⟩

/-- An UPDATE that finds no row leaves them all. -/
theorem updateRows_of_none : ∀ {rest written : List Row}, (∀ r ∈ rest, p r = false) →
    updateRows key checks p f written rest = .ok (written ++ rest)
  | [], written, _ => by rw [updateRows, List.append_nil]
  | r :: rest, written, h => by
    obtain ⟨hr, hrest⟩ := List.forall_mem_cons.mp h
    rw [updateRows, hr, if_neg (by simp), updateRows_of_none hrest, List.append_assoc, List.singleton_append]

/-- The keys stay apart at every row. -/
theorem keyed_updateRows : ∀ {rest written : List Row}, ((written ++ rest).map key).Nodup →
    updateRows key checks p f written rest = .ok rows' → (rows'.map key).Nodup
  | [], written, hnodup, h => by
    cases h
    rwa [List.append_nil] at hnodup
  | r :: rest, written, hnodup, h => by
    have hsplit : ∀ r', ((written ++ [r'] ++ rest).map key).Perm (key r' :: (written ++ rest).map key) := fun r' => by
      rw [List.append_assoc, List.singleton_append, List.map_append, List.map_cons, List.map_append]
      exact List.perm_middle
    rw [updateRows] at h
    split at h
    · cases hfind : checks.find? fun c => !c.admits (f r) with
      | some c =>
        rw [hfind] at h
        cases h
      | none =>
        rw [hfind] at h
        dsimp only at h
        split at h
        · cases h
        · rename_i hnew
          have hothers : ((written ++ rest).map key).Nodup :=
            hnodup.sublist (((List.sublist_cons_self r rest).append_left written).map key)
          refine keyed_updateRows ((hsplit (f r)).nodup_iff.mpr (List.nodup_cons.mpr ⟨hnew, hothers⟩)) h
    · refine keyed_updateRows ?_ h
      rwa [List.append_assoc, List.singleton_append]

theorem admitted_updateRows {rows : List Row} (hold : ∀ c ∈ checks, ∀ r ∈ rows, c.admits r = true)
    (h : updateRows key checks p f [] rows = .ok rows') : ∀ c ∈ checks, ∀ r ∈ rows', c.admits r = true := by
  obtain ⟨rfl, hchecked⟩ := updateRows_eq_ok h
  intro c hc r' hr'
  rw [List.nil_append] at hr'
  obtain ⟨r, hr, heq⟩ := List.mem_map.mp hr'
  by_cases hp : p r = true
  · rw [if_pos hp] at heq
    exact heq ▸ hchecked r hr hp c hc
  · rw [if_neg hp] at heq
    exact heq ▸ hold c hc r hr

end Update

variable {key : Row → K}

/-- `UPDATE ... SET ... WHERE p` -/
def Table.update (p : Row → Bool) (f : Row → Row) (t : Table key) : Except Violation (Table key) :=
  match h : updateRows key t.checks p f [] t.rows with
  | .error e => .error e
  | .ok rows => .ok
    { rows := rows
      checks := t.checks
      admitted := admitted_updateRows t.admitted h
      keyed := @keyed_updateRows _ _ _ key t.checks p f rows t.rows [] t.keyed h }

/-- `ALTER TABLE ... ADD CONSTRAINT` -/
def Table.addCheck (c : Check Row) (t : Table key) : Except Violation (Table key) :=
  if c.name ∈ t.checks.map Check.name then .error (.duplicateName c.name)
  else if h : ∀ r ∈ t.rows, c.admits r = true then .ok
    { t with
      checks := t.checks ++ [c]
      admitted := fun c' hc' => by
        rcases List.mem_append.mp hc' with hc' | hc'
        · exact t.admitted c' hc'
        · rw [List.mem_singleton.mp hc']
          exact h }
  else .error (.check c.name)

/-- `ALTER TABLE ... DROP CONSTRAINT` -/
def Table.dropCheck (name : List Char) (t : Table key) : Table key :=
  { t with
    checks := t.checks.filter fun c => c.name ≠ name
    admitted := fun c hc => t.admitted c (List.mem_of_mem_filter hc) }

theorem Table.update_eq_ok {t t' : Table key} {p : Row → Bool} {f : Row → Row} (h : t.update p f = .ok t') :
    t'.rows = t.rows.map (fun r => if p r then f r else r) ∧ t'.checks = t.checks ∧
      ∀ r ∈ t.rows, p r = true → ∀ c ∈ t.checks, c.admits (f r) = true := by
  unfold Table.update at h
  split at h
  · cases h
  · rename_i rows hrows
    cases h
    obtain ⟨heq, hchecked⟩ := updateRows_eq_ok hrows
    exact ⟨heq, rfl, hchecked⟩

theorem Table.update_of_none {t : Table key} {p : Row → Bool} {f : Row → Row} (h : ∀ r ∈ t.rows, p r = false) :
    t.update p f = .ok t := by
  have hrows : updateRows key t.checks p f [] t.rows = .ok t.rows := updateRows_of_none h
  unfold Table.update
  split
  · rename_i heq
    rw [hrows] at heq
    cases heq
  · rename_i rows heq
    rw [hrows] at heq
    cases heq
    rfl

omit [DecidableEq K] in
theorem Table.addCheck_eq_ok {t t' : Table key} {c : Check Row} :
    t.addCheck c = .ok t' ↔ c.name ∉ t.checks.map Check.name ∧ (∀ r ∈ t.rows, c.admits r = true) ∧
      t'.rows = t.rows ∧ t'.checks = t.checks ++ [c] := by
  unfold Table.addCheck
  by_cases hname : c.name ∈ t.checks.map Check.name
  · rw [if_pos hname]
    exact iff_of_false (by simp) fun h => h.1 hname
  · rw [if_neg hname]
    by_cases hall : ∀ r ∈ t.rows, c.admits r = true
    · rw [dif_pos hall, Except.ok.injEq]
      constructor
      · rintro rfl
        exact ⟨hname, hall, rfl, rfl⟩
      · rintro ⟨_, _, hrows, hchecks⟩
        obtain ⟨rows, checks, _, _⟩ := t'
        obtain rfl : rows = t.rows := hrows
        obtain rfl : checks = t.checks ++ [c] := hchecks
        rfl
    · rw [dif_neg hall]
      exact iff_of_false (by simp) fun h => hall h.2.1

end ContextBroker.CheckedTable
