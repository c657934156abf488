import Mathlib.Data.List.Basic

/-!
# Pages of a list that changes

A reader asks for the pages of a list one after the other, by limit and offset;
between two pages entries come into the list and go out of it, anywhere.

* `Reads.missed_le`: at most one entry is missed for each that went out.
* `Reads.repeats_le`: at most one entry is read again for each that came in.
-/
namespace ContextBroker.Paging

variable {α : Type}

/-- `LIMIT limit OFFSET offset` -/
def page (limit offset : Nat) (l : List α) : List α := (l.drop offset).take limit

/-- `deletes` entries go out of the list and `inserts` come in, one after the
other; what comes in is not there yet and passes `fresh`. -/
inductive Edits (fresh : α → Prop) (l : List α) : Nat → Nat → List α → Prop where
  | nil : Edits fresh l 0 0 l
  | insert {deletes inserts : Nat} {x : α} (A B : List α) : Edits fresh l deletes inserts (A ++ B) → x ∉ A ++ B →
    fresh x → Edits fresh l deletes (inserts + 1) (A ++ x :: B)
  | erase {deletes inserts : Nat} (x : α) (A B : List α) : Edits fresh l deletes inserts (A ++ x :: B) →
    Edits fresh l (deletes + 1) inserts (A ++ B)

/-- The pages from `offset` on, with edits in between; `final` is the list the last
page is read from. -/
inductive Reads (fresh : α → Prop) (limit : Nat) (final : List α) :
    Nat → List α → List (List α) → Nat → Nat → Prop where
  | last {offset : Nat} : Reads fresh limit final offset final [page limit offset final] 0 0
  | more {offset deletes inserts deletes' inserts' : Nat} {l l' : List α} {pages : List (List α)} :
    Edits fresh l deletes inserts l' → Reads fresh limit final (offset + limit) l' pages deletes' inserts' →
    Reads fresh limit final offset l (page limit offset l :: pages) (deletes + deletes') (inserts + inserts')

variable {fresh : α → Prop} {limit offset deletes inserts : Nat} {l l' final : List α} {pages : List (List α)}

/-! ## Edits -/

theorem Edits.trans {d i d' i' : Nat} {l'' : List α} (h : Edits fresh l d i l') (h' : Edits fresh l' d' i' l'') :
    Edits fresh l (d + d') (i + i') l'' := by
  induction h' with
  | nil => exact h
  | insert A B _ hx hfresh ih => exact .insert A B ih hx hfresh
  | erase x A B _ ih => exact .erase x A B ih

theorem Edits.nodup (h : Edits fresh l deletes inserts l') (hl : l.Nodup) : l'.Nodup := by
  induction h with
  | nil => exact hl
  | insert A B _ hx _ ih => exact (List.perm_middle.nodup_iff).mpr (List.nodup_cons.mpr ⟨hx, ih⟩)
  | erase x A B _ ih => exact (List.nodup_cons.mp (List.perm_middle.nodup_iff.mp ih)).2

/-! ### One entry more or less -/

section

variable (p : α → Bool) (x : α) (A B : List α) (k : Nat)

theorem countP_take_insert (hx : p x = false) : ((A ++ x :: B).take k).countP p ≤ ((A ++ B).take k).countP p := by
  induction A generalizing k with
  | nil =>
    cases k with
    | zero => simp
    | succ k =>
      rw [List.nil_append, List.take_succ_cons, List.countP_cons_of_neg (by simp [hx])]
      exact (List.take_prefix_take_left (Nat.le_succ k)).sublist.countP_le
  | cons a A ih =>
    cases k with
    | zero => simp
    | succ k =>
      simp only [List.cons_append, List.take_succ_cons, List.countP_cons]
      exact Nat.add_le_add_right (ih k) _

theorem countP_take_erase : ((A ++ B).take k).countP p ≤ ((A ++ x :: B).take k).countP p + 1 := by
  induction A generalizing k with
  | nil =>
    cases k with
    | zero => simp
    | succ k =>
      rw [List.nil_append, List.nil_append, List.take_succ_cons, List.take_add_one, List.countP_append,
        List.countP_cons]
      have hone : B[k]?.toList.countP p ≤ 1 := Nat.le_trans List.countP_le_length (by cases B[k]? <;> simp)
      omega
  | cons a A ih =>
    cases k with
    | zero => simp
    | succ k =>
      simp only [List.cons_append, List.take_succ_cons, List.countP_cons]
      have := ih k
      omega

theorem countP_drop_insert : ((A ++ x :: B).drop k).countP p ≤ ((A ++ B).drop k).countP p + 1 := by
  induction A generalizing k with
  | nil =>
    cases k with
    | zero =>
      simp only [List.nil_append, List.drop_zero, List.countP_cons]
      split <;> omega
    | succ k =>
      simp only [List.nil_append, List.drop_succ_cons]
      cases hk : B.drop k with
      | nil => simp
      | cons b rest =>
        have htail : B.drop (k + 1) = rest := by rw [← List.tail_drop, hk, List.tail_cons]
        rw [htail, List.countP_cons]
        split <;> omega
  | cons a A ih =>
    cases k with
    | zero =>
      simp only [List.drop_zero, List.cons_append, List.countP_cons]
      have := ih 0
      simp only [List.drop_zero] at this
      omega
    | succ k => exact ih k

theorem countP_drop_erase : ((A ++ B).drop k).countP p ≤ ((A ++ x :: B).drop k).countP p := by
  have hsub : (A ++ B).Sublist (A ++ x :: B) := (List.sublist_cons_self x B).append_left A
  induction A generalizing k with
  | nil =>
    cases k with
    | zero => exact (List.sublist_cons_self x B).countP_le
    | succ k => exact (List.drop_sublist_drop_left B (Nat.le_succ k)).countP_le
  | cons a A ih =>
    cases k with
    | zero => exact hsub.countP_le
    | succ k => exact ih k ((List.sublist_cons_self x B).append_left A)

end

/-! ### Any edits -/

/-- Entries that are not new move to before an offset by deletions only. -/
theorem Edits.countP_take_le {p : α → Bool} (hp : ∀ x, fresh x → p x = false)
    (h : Edits fresh l deletes inserts l') (k : Nat) :
    (l'.take k).countP p ≤ (l.take k).countP p + deletes := by
  induction h with
  | nil => exact Nat.le_refl _
  | @insert _ _ x A B _ _ hfresh ih => exact Nat.le_trans (countP_take_insert p x A B k (hp x hfresh)) ih
  | @erase _ _ x A B _ ih =>
    have := countP_take_erase p x A B k
    omega

/-- Entries move to behind an offset by insertions only. -/
theorem Edits.countP_drop_le (p : α → Bool) (h : Edits fresh l deletes inserts l') (k : Nat) :
    (l'.drop k).countP p ≤ (l.drop k).countP p + inserts := by
  induction h with
  | nil => exact Nat.le_refl _
  | @insert _ _ x A B _ _ _ ih =>
    have := countP_drop_insert p x A B k
    omega
  | @erase _ _ x A B _ ih => exact Nat.le_trans (countP_drop_erase p x A B k) ih

/-! ## Missed entries -/

theorem Reads.unread_le {p : α → Bool} (hp : ∀ x, fresh x → p x = false)
    (h : Reads fresh limit final offset l pages deletes inserts) (hread : ∀ pg ∈ pages, ∀ x ∈ pg, p x = false)
    (hshort : final.length ≤ offset + pages.length * limit) :
    final.countP p ≤ (l.take offset).countP p + deletes := by
  -- a page does not hold an unread entry
  have hpage : ∀ {l : List α} {offset : Nat}, (∀ x ∈ page limit offset l, p x = false) →
      (l.take (offset + limit)).countP p = (l.take offset).countP p := by
    intro l offset hpg
    rw [List.take_add, List.countP_append]
    have hzero : ((l.drop offset).take limit).countP p = 0 :=
      List.countP_eq_zero.mpr fun x hx => by simp [hpg x hx]
    omega
  induction h with
  | @last offset =>
    have hall := hpage (hread _ List.mem_cons_self)
    rw [List.take_of_length_le (by simpa using hshort)] at hall
    omega
  | @more offset d i d' i' l l' pages hedits _ ih =>
    have hrest := ih (fun pg hpg => hread pg (List.mem_cons_of_mem _ hpg)) (by
      simp only [List.length_cons, Nat.add_mul, Nat.one_mul] at hshort
      omega)
    have hmoved := hedits.countP_take_le hp (offset + limit)
    have hfirst := hpage (hread _ List.mem_cons_self)
    omega

/-- **Missed entries**: the entries of `start` that are there to the end and on no
page are at most as many as went out in between. -/
theorem Reads.missed_le [DecidableEq α] {start : List α} (hfresh : ∀ x, fresh x → x ∉ start)
    (h : Reads fresh limit final 0 start pages deletes inserts) (hshort : final.length ≤ pages.length * limit) :
    final.countP (fun x => decide (x ∈ start) && decide (x ∉ pages.flatten)) ≤ deletes := by
  have hle := h.unread_le (p := fun x => decide (x ∈ start) && decide (x ∉ pages.flatten))
    (fun x hx => by simp [hfresh x hx]) (fun pg hpg x hx => ?_) (by omega)
  · simpa using hle
  · simp only [Bool.and_eq_false_iff, decide_eq_false_iff_not, not_not]
    exact .inr (List.mem_flatten_of_mem hpg hx)

/-! ## Entries read again -/

/-- How many entries of the pages are on an earlier one, or in `seen`. -/
def repeats [DecidableEq α] (seen : List α) : List (List α) → Nat
  | [] => 0
  | pg :: pages => pg.countP (fun x => decide (x ∈ seen)) + repeats (seen ++ pg) pages

theorem Reads.seen_le [DecidableEq α] (h : Reads fresh limit final offset l pages deletes inserts) (hl : l.Nodup)
    (seen : List α) :
    repeats seen pages ≤ inserts + (l.drop offset).countP (fun x => decide (x ∈ seen)) := by
  induction h generalizing seen with
  | @last offset =>
    have hle := (List.take_sublist limit (final.drop offset)).countP_le (p := fun x => decide (x ∈ seen))
    simp only [repeats, page]
    omega
  | @more offset d i d' i' l l' pages hedits _ ih =>
    have hrest := ih (hedits.nodup hl) (seen ++ page limit offset l)
    have hmoved := hedits.countP_drop_le (fun x => decide (x ∈ seen ++ page limit offset l)) (offset + limit)
    -- behind the page, what is on it or seen before was seen before
    have hbehind : (l.drop (offset + limit)).countP (fun x => decide (x ∈ seen ++ page limit offset l))
        = (l.drop (offset + limit)).countP (fun x => decide (x ∈ seen)) := by
      refine List.countP_congr fun x hx => ?_
      have hnot : x ∉ page limit offset l := by
        intro hpg
        have hsplit : (l.drop offset).Nodup := hl.sublist (List.drop_sublist _ _)
        rw [← List.take_append_drop limit (l.drop offset), List.drop_drop] at hsplit
        exact (List.nodup_append.mp hsplit).2.2 x hpg x hx rfl
      simp [hnot]
    have hsum : (page limit offset l).countP (fun x => decide (x ∈ seen))
        + (l.drop (offset + limit)).countP (fun x => decide (x ∈ seen))
        = (l.drop offset).countP (fun x => decide (x ∈ seen)) := by
      rw [page, ← List.drop_drop, ← List.countP_append, List.take_append_drop]
    simp only [repeats]
    omega

/-- **Entries read again**: at most as many as came in between. -/
theorem Reads.repeats_le [DecidableEq α] {start : List α} (hstart : start.Nodup)
    (h : Reads fresh limit final 0 start pages deletes inserts) : repeats [] pages ≤ inserts := by
  have hle := h.seen_le hstart []
  simpa using hle

end ContextBroker.Paging
