import Mathlib.Data.List.Basic

/-!
# Inserts under two unique keys

`INSERT ... ON CONFLICT (key) DO NOTHING` into a table that has a second
unique index, `unique`, partial (`none`: the row is not in the index), where a
collision on the second index is ignored by the caller.

* `key_mem_insertAll`: which keys the table has after a list of inserts.
* `find?_insertAll_of_known`: a key keeps its row.
-/
namespace ContextBroker.UniqueInsert

variable {R K U : Type} (key : R → K) (unique : R → Option U)

def Known (rows : List R) (k : K) : Prop := ∃ q ∈ rows, key q = k

/-- A row of the table has the second key of `r`. -/
def Taken (rows : List R) (r : R) : Prop := (unique r).isSome = true ∧ ∃ q ∈ rows, unique q = unique r

/-- Some row of `rs` for `k` finds its second key free: no row of the table
has it, and the rows before it that share it have rows of their own. -/
def Lands (rows rs : List R) (k : K) : Prop :=
  ∃ before r after, rs = before ++ r :: after ∧ key r = k ∧
    (unique r = none ∨ ¬Taken unique rows r ∧ ∀ p ∈ before, unique p = unique r → Known key rows (key p))

section

variable {key unique} {rows rs : List R} {r q : R} {k : K}

theorem known_append : Known key (rows ++ [r]) k ↔ Known key rows k ∨ key r = k := by
  simp [Known, or_and_right, exists_or]

theorem taken_append : Taken unique (rows ++ [r]) q ↔
    Taken unique rows q ∨ (unique q).isSome = true ∧ unique r = unique q := by
  simp [Taken, or_and_right, exists_or, and_or_left]

/-- Landing behind a row that was left out. -/
theorem lands_cons_of_left_out (hdrop : Known key rows (key r) ∨ Taken unique rows r) (hk : ¬Known key rows k) :
    Lands key unique rows rs k ↔ Lands key unique rows (r :: rs) k := by
  constructor
  · rintro ⟨before, p, after, rfl, hp, hlands⟩
    refine ⟨r :: before, p, after, rfl, hp, hlands.imp_right fun ⟨hfree, hbefore⟩ => ⟨hfree, ?_⟩⟩
    intro p' hp' hu
    rcases List.mem_cons.mp hp' with rfl | hp'
    · exact hdrop.resolve_right fun htaken => hfree ⟨hu ▸ htaken.1, hu ▸ htaken.2⟩
    · exact hbefore p' hp' hu
  · rintro ⟨before, p, after, hrs, hp, hlands⟩
    cases before with
    | nil =>
      obtain ⟨rfl, rfl⟩ := List.cons.inj hrs
      rcases hdrop with hknown | htaken
      · exact absurd (hp ▸ hknown) hk
      · rcases hlands with hnone | ⟨hfree, -⟩
        · exact absurd htaken.1 (by simp [hnone])
        · exact absurd htaken hfree
    | cons _ before =>
      obtain ⟨rfl, rfl⟩ := List.cons.inj hrs
      exact ⟨before, p, after, rfl, hp, hlands.imp_right fun ⟨hfree, hbefore⟩ =>
        ⟨hfree, fun p' hp' => hbefore p' (List.mem_cons_of_mem _ hp')⟩⟩

/-- Landing behind a row that was added. -/
theorem lands_cons_of_added (hsame : ∀ p ∈ rs, key r = key p → unique r = unique p) (hnew : ¬Known key rows (key r))
    (hfree : ¬Taken unique rows r) :
    (Known key (rows ++ [r]) k ∨ Lands key unique (rows ++ [r]) rs k) ↔
      Known key rows k ∨ Lands key unique rows (r :: rs) k := by
  constructor
  · rintro (hk | ⟨before, p, after, rfl, hp, hlands⟩)
    · refine (known_append.mp hk).imp_right fun hk => ?_
      exact ⟨[], r, rs, rfl, hk, .inr ⟨hfree, fun _ hp => nomatch hp⟩⟩
    · refine .inr ⟨r :: before, p, after, rfl, hp, ?_⟩
      rcases hlands with hnone | ⟨hfree', hbefore⟩
      · exact .inl hnone
      · rw [taken_append, not_or] at hfree'
        by_cases hsome : (unique p).isSome = true
        · have hne : unique r ≠ unique p := fun hu => hfree'.2 ⟨hsome, hu⟩
          refine .inr ⟨hfree'.1, fun p' hp' hu => ?_⟩
          rcases List.mem_cons.mp hp' with rfl | hp'
          · exact absurd hu hne
          · -- a row before `p` that the insert of `r` made known would share its second key
            refine (known_append.mp (hbefore p' hp' hu)).resolve_right fun hk => hne ?_
            exact (hsame p' (List.mem_append_left _ hp') hk).trans hu
        · exact .inl (by simpa using hsome)
  · rintro (hk | ⟨before, p, after, hrs, hp, hlands⟩)
    · exact .inl (known_append.mpr (.inl hk))
    · cases before with
      | nil =>
        obtain ⟨rfl, rfl⟩ := List.cons.inj hrs
        exact .inl (known_append.mpr (.inr hp))
      | cons _ before =>
        obtain ⟨rfl, rfl⟩ := List.cons.inj hrs
        refine .inr ⟨before, p, after, rfl, hp, hlands.imp_right fun ⟨hfree', hbefore⟩ => ⟨?_, ?_⟩⟩
        · rw [taken_append, not_or]
          exact ⟨hfree', fun ⟨_, hu⟩ => hnew (hbefore r List.mem_cons_self hu)⟩
        · exact fun p' hp' hu => known_append.mpr (.inl (hbefore p' (List.mem_cons_of_mem _ hp') hu))

end

variable [DecidableEq K] [DecidableEq U]

instance (rows : List R) (k : K) : Decidable (Known key rows k) := inferInstanceAs (Decidable (∃ q ∈ rows, _))

instance (rows : List R) (r : R) : Decidable (Taken unique rows r) := inferInstanceAs (Decidable (_ ∧ _))

def insert (rows : List R) (r : R) : List R :=
  if Known key rows (key r) then rows else if Taken unique rows r then rows else rows ++ [r]

def insertAll (rows rs : List R) : List R := rs.foldl (insert key unique) rows

variable {key unique} {rows rs : List R} {r q : R} {k : K}

/-- **One insert** adds the row, or the table stays as it is. -/
theorem insert_cases (key : R → K) (unique : R → Option U) (rows : List R) (r : R) :
    ((Known key rows (key r) ∨ Taken unique rows r) ∧ insert key unique rows r = rows) ∨
      ¬Known key rows (key r) ∧ ¬Taken unique rows r ∧ insert key unique rows r = rows ++ [r] := by
  unfold insert
  by_cases hknown : Known key rows (key r)
  · exact .inl ⟨.inl hknown, if_pos hknown⟩
  · rw [if_neg hknown]
    by_cases htaken : Taken unique rows r
    · exact .inl ⟨.inr htaken, if_pos htaken⟩
    · exact .inr ⟨hknown, htaken, if_neg htaken⟩

theorem prefix_insertAll (key : R → K) (unique : R → Option U) (rows rs : List R) :
    rows <+: insertAll key unique rows rs := by
  induction rs generalizing rows with
  | nil => exact List.prefix_refl rows
  | cons r rs ih =>
    have hone : rows <+: insert key unique rows r := by
      rcases insert_cases key unique rows r with ⟨-, h⟩ | ⟨-, -, h⟩
      · exact ⟨[], by rw [h, List.append_nil]⟩
      · rw [h]
        exact List.prefix_append rows [r]
    exact hone.trans (ih _)

/-- A new row is one of the list, for a new key. -/
theorem mem_insertAll (h : q ∈ insertAll key unique rows rs) : q ∈ rows ∨ q ∈ rs ∧ ¬Known key rows (key q) := by
  induction rs generalizing rows with
  | nil => exact .inl h
  | cons r rs ih =>
    have hone := insert_cases key unique rows r
    rcases ih h with hq | ⟨hq, hnew⟩
    · rcases hone with ⟨-, hr⟩ | ⟨hnew, -, hr⟩
      · exact .inl (hr ▸ hq)
      · rcases List.mem_append.mp (hr ▸ hq) with hq | hq
        · exact .inl hq
        · obtain rfl := List.mem_singleton.mp hq
          exact .inr ⟨List.mem_cons_self, hnew⟩
    · refine .inr ⟨List.mem_cons_of_mem r hq, fun hknown => hnew ?_⟩
      obtain ⟨p, hp, hk⟩ := hknown
      exact ⟨p, (prefix_insertAll key unique rows [r]).subset hp, hk⟩

theorem Known.insertAll (h : Known key rows k) (rs : List R) : Known key (insertAll key unique rows rs) k := by
  obtain ⟨q, hq, hk⟩ := h
  exact ⟨q, (prefix_insertAll key unique rows rs).subset hq, hk⟩

/-- **The keys after a list of inserts**, if rows of one key agree on the
second one. -/
theorem key_mem_insertAll (hsame : ∀ p ∈ rs, ∀ p' ∈ rs, key p = key p' → unique p = unique p') :
    Known key (insertAll key unique rows rs) k ↔ Known key rows k ∨ Lands key unique rows rs k := by
  induction rs generalizing rows with
  | nil =>
    refine ⟨.inl, fun h => h.resolve_right ?_⟩
    rintro ⟨before, r, after, h, -⟩
    exact absurd h.symm (by simp)
  | cons r rs ih =>
    have hrest := @ih (insert key unique rows r) fun p hp p' hp' =>
      hsame p (List.mem_cons_of_mem r hp) p' (List.mem_cons_of_mem r hp')
    rw [insertAll, List.foldl_cons, ← insertAll, hrest]
    rcases insert_cases key unique rows r with ⟨hdrop, heq⟩ | ⟨hnew, hfree, heq⟩
    · rw [heq]
      exact or_congr_right' fun hk => lands_cons_of_left_out hdrop hk
    · rw [heq]
      exact lands_cons_of_added (fun p hp => hsame r List.mem_cons_self p (List.mem_cons_of_mem r hp)) hnew hfree

/-- A key keeps its row. -/
theorem find?_insertAll_of_known {p : R → Bool} (hp : ∀ q, p q = true ↔ key q = k) (h : Known key rows k)
    (rs : List R) : (insertAll key unique rows rs).find? p = rows.find? p := by
  obtain ⟨suffix, hsuffix⟩ := prefix_insertAll key unique rows rs
  obtain ⟨q, hq, hk⟩ := h
  have hfound : (rows.find? p).isSome = true := List.find?_isSome.mpr ⟨q, hq, (hp q).mpr hk⟩
  rw [← hsuffix, List.find?_append, Option.or_of_isSome hfound]

end ContextBroker.UniqueInsert
