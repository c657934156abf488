import Mathlib.Data.List.Sort
import Mathlib.Data.List.Induction

/-!
# Row lists: ordering, maximum, greedy fill, slicing

Operations on lists that table-driven code keeps using, over any row
type.

* `orderAsc` / `orderDesc`: `ORDER BY key`. On rows already ascending they
  are the identity and the reversal (`orderAsc_of_ascending`,
  `orderDesc_of_ascending`).
* `maxOf`: `COALESCE(MAX(key), 0)`, also the first row of `ORDER BY key DESC`
  (`maxOf_eq_head_orderDesc`).
* `latest`: `ORDER BY key DESC LIMIT n`. Rows with one key have no order of
  their own; `mem_latest_iff` says which rows can be among the latest.
* `Numbered`: consecutive keys from some start on.
* `takeWithin`: take rows from the front while a running total stays within
  a cap. `takeWithin_sum` and `takeWithin_stop` say that it takes as much as
  it can: the total fits, and the row it stopped at would not.
* `slices`: cut into consecutive groups of `k`. The groups are non-empty
  (`slices_ne_nil`) and concatenate to the input (`slices_flatten`).
-/
namespace ContextBroker.Rows

variable {α : Type}

/-! ## Ordering -/

/-- Strictly increasing keys along the list. -/
def Ascending (key : α → Nat) (l : List α) : Prop := l.Pairwise fun a b => key a < key b

/-- `ORDER BY key ASC`. -/
def orderAsc (key : α → Nat) (l : List α) : List α := l.insertionSort fun a b => key a ≤ key b

/-- `ORDER BY key DESC`. -/
def orderDesc (key : α → Nat) (l : List α) : List α := l.insertionSort fun a b => key b ≤ key a

theorem orderAsc_of_ascending {key : α → Nat} {l : List α} (h : Ascending key l) :
    orderAsc key l = l := by
  induction l with
  | nil => rfl
  | cons a l ih =>
    have ⟨ha, hl⟩ := List.pairwise_cons.mp h
    simp only [orderAsc, List.insertionSort_cons] at ih ⊢
    rw [ih hl]
    cases l with
    | nil => rfl
    | cons b l =>
      have hab := ha b List.mem_cons_self
      simp only [List.orderedInsert, if_pos (Nat.le_of_lt hab)]

theorem orderAsc_perm (key : α → Nat) (l : List α) : (orderAsc key l).Perm l := List.perm_insertionSort _ l

theorem orderAsc_sorted (key : α → Nat) (l : List α) :
    (orderAsc key l).Pairwise fun a b => key a ≤ key b := by
  have : Std.Total fun a b : α => key a ≤ key b := ⟨fun a b => Nat.le_total (key a) (key b)⟩
  have : IsTrans α fun a b : α => key a ≤ key b := ⟨fun a b c hab hbc => Nat.le_trans hab hbc⟩
  exact List.pairwise_insertionSort _ l

theorem orderDesc_perm (key : α → Nat) (l : List α) : (orderDesc key l).Perm l := List.perm_insertionSort _ l

theorem orderDesc_sorted (key : α → Nat) (l : List α) :
    (orderDesc key l).Pairwise fun a b => key b ≤ key a := by
  have : Std.Total fun a b : α => key b ≤ key a := ⟨fun a b => Nat.le_total (key b) (key a)⟩
  have : IsTrans α fun a b : α => key b ≤ key a := ⟨fun a b c hab hbc => Nat.le_trans hbc hab⟩
  exact List.pairwise_insertionSort _ l

/-- `WHERE key = ...` with a unique key. -/
theorem find?_key {key : α → Nat} {l : List α} (hnodup : (l.map key).Nodup) {a : α} (ha : a ∈ l) :
    l.find? (key · == key a) = some a := by
  cases h : l.find? (key · == key a) with
  | none => exact absurd (List.find?_eq_none.mp h a ha) (by simp)
  | some b =>
    have hkey : key b = key a := eq_of_beq (List.find?_some h :)
    rw [List.inj_on_of_nodup_map hnodup (List.mem_of_find?_eq_some h) ha hkey]

theorem Ascending.key_inj {key : α → Nat} {l : List α} (h : Ascending key l) {a b : α} (ha : a ∈ l)
    (hb : b ∈ l) (hab : key a = key b) : a = b := by
  have hlt : (l.map key).Pairwise (· < ·) := List.pairwise_map.mpr h
  exact List.inj_on_of_nodup_map (hlt.imp Nat.ne_of_lt) ha hb hab

/-- Rows with different keys have one order. -/
theorem orderAsc_eq_of_perm {key : α → Nat} {l l' : List α} (hp : l.Perm l') (h : Ascending key l') :
    orderAsc key l = l' := by
  have hperm := (orderAsc_perm key l).trans hp
  refine hperm.eq_of_pairwise (fun a b ha hb hab hba => ?_) (orderAsc_sorted key l)
    (h.imp Nat.le_of_lt)
  exact h.key_inj (hperm.mem_iff.mp ha) hb (Nat.le_antisymm hab hba)

theorem orderedInsert_snoc {key : α → Nat} (a : α) :
    ∀ l : List α, (∀ b ∈ l, key a < key b) →
      l.orderedInsert (fun a b => key b ≤ key a) a = l ++ [a]
  | [], _ => rfl
  | b :: l, h => by
    have hb := h b List.mem_cons_self
    simp only [List.orderedInsert, if_neg (Nat.not_le.mpr hb), List.cons_append]
    rw [orderedInsert_snoc a l fun c hc => h c (List.mem_cons_of_mem _ hc)]

theorem orderDesc_of_ascending {key : α → Nat} {l : List α} (h : Ascending key l) :
    orderDesc key l = l.reverse := by
  induction l with
  | nil => rfl
  | cons a l ih =>
    have ⟨ha, hl⟩ := List.pairwise_cons.mp h
    simp only [orderDesc, List.insertionSort_cons] at ih ⊢
    rw [ih hl, List.reverse_cons]
    exact orderedInsert_snoc a _ fun b hb => ha b (List.mem_reverse.mp hb)

/-! ## Maximum -/

section Max

/-- `COALESCE(MAX(key), 0)`. -/
def maxOf (key : α → Nat) (l : List α) : Nat := l.foldr (fun a n => max (key a) n) 0

variable {key : α → Nat}

@[simp] theorem maxOf_nil : maxOf key ([] : List α) = 0 := rfl

@[simp] theorem maxOf_cons (a : α) (l : List α) : maxOf key (a :: l) = max (key a) (maxOf key l) := rfl

@[simp] theorem maxOf_append (l l' : List α) :
    maxOf key (l ++ l') = max (maxOf key l) (maxOf key l') := by
  induction l with
  | nil => simp
  | cons a l ih => simp [ih, Nat.max_assoc]

theorem le_maxOf {l : List α} {a : α} (h : a ∈ l) : key a ≤ maxOf key l := by
  induction l with
  | nil => cases h
  | cons b l ih =>
    rcases List.mem_cons.mp h with rfl | h
    · exact Nat.le_max_left _ _
    · exact Nat.le_trans (ih h) (Nat.le_max_right _ _)

theorem maxOf_le {l : List α} {n : Nat} (h : ∀ a ∈ l, key a ≤ n) : maxOf key l ≤ n := by
  induction l with
  | nil => exact Nat.zero_le n
  | cons b l ih =>
    rw [maxOf_cons]
    exact Nat.max_le.mpr ⟨h b List.mem_cons_self, ih fun a ha => h a (List.mem_cons_of_mem _ ha)⟩

theorem exists_maxOf {l : List α} (h : l ≠ []) : ∃ a ∈ l, key a = maxOf key l := by
  induction l with
  | nil => exact absurd rfl h
  | cons a l ih =>
    rw [maxOf_cons]
    by_cases hl : l = []
    · exact ⟨a, List.mem_cons_self, by simp [hl]⟩
    · obtain ⟨b, hb, hkey⟩ := ih hl
      rcases Nat.le_total (key a) (maxOf key l) with hle | hle
      · exact ⟨b, List.mem_cons_of_mem _ hb, by omega⟩
      · exact ⟨a, List.mem_cons_self, by omega⟩

theorem maxOf_perm {l l' : List α} (h : l.Perm l') : maxOf key l = maxOf key l' :=
  Nat.le_antisymm (maxOf_le fun _ ha => le_maxOf (h.mem_iff.mp ha))
    (maxOf_le fun _ ha => le_maxOf (h.mem_iff.mpr ha))

/-- `MAX` is the first row of `ORDER BY key DESC`. -/
theorem maxOf_eq_head_orderDesc (l : List α) :
    maxOf key l = ((orderDesc key l).head?.map key).getD 0 := by
  have hperm := orderDesc_perm key l
  have hsorted := orderDesc_sorted key l
  cases h : orderDesc key l with
  | nil =>
    rw [h] at hperm
    rw [hperm.symm.eq_nil]
    rfl
  | cons a rest =>
    rw [h] at hperm hsorted
    have hle : maxOf key l ≤ key a := by
      refine maxOf_le fun b hb => ?_
      rcases List.mem_cons.mp (hperm.symm.mem_iff.mp hb) with rfl | hb
      · exact Nat.le_refl _
      · exact (List.pairwise_cons.mp hsorted).1 b hb
    have hge : key a ≤ maxOf key l := le_maxOf (hperm.mem_iff.mp List.mem_cons_self)
    simp only [List.head?_cons, Option.map_some, Option.getD_some]
    omega

end Max

/-! ## The latest rows -/

section Latest

/-- `ORDER BY key DESC LIMIT n`. -/
def latest (key : α → Nat) (n : Nat) (l : List α) : List α := (orderDesc key l).take n

/-- `shown` are `n` rows of `l`, or all of them, the newest first; which of two
rows with one key it has is left open. -/
structure Latest (key : α → Nat) (n : Nat) (l shown : List α) : Prop where
  newest : ∃ rest, (shown ++ rest).Perm l ∧ ∀ a ∈ shown, ∀ b ∈ rest, key b ≤ key a
  sorted : shown.Pairwise fun a b => key b ≤ key a
  length : shown.length = min n l.length

variable {key : α → Nat} {n : Nat} {l scan : List α} {a : α}

theorem latest_subset : latest key n l ⊆ l := fun _ h => (orderDesc_perm key l).subset (List.mem_of_mem_take h)

/-- In whatever order the rows are read. -/
theorem latest_spec (h : scan.Perm l) : Latest key n l (latest key n scan) := by
  have hperm := (orderDesc_perm key scan).trans h
  have hsorted := orderDesc_sorted key scan
  rw [← List.take_append_drop n (orderDesc key scan)] at hperm hsorted
  obtain ⟨htake, _, hcross⟩ := List.pairwise_append.mp hsorted
  refine ⟨⟨_, hperm, hcross⟩, htake, ?_⟩
  rw [latest, List.length_take, ((orderDesc_perm key scan).trans h).length_eq]

/-- The newer rows stand before a row. -/
theorem newer_lt_of_mem_latest (h : a ∈ latest key n l) : (l.filter fun b => key a < key b).length < n := by
  obtain ⟨front, back, htake⟩ := List.append_of_mem h
  have hsplit : orderDesc key l = front ++ a :: (back ++ (orderDesc key l).drop n) := by
    have happend := List.take_append_drop n (orderDesc key l)
    rw [latest] at htake
    rw [htake, List.append_assoc, List.cons_append] at happend
    exact happend.symm
  have hsorted := orderDesc_sorted key l
  rw [hsplit] at hsorted
  have hback : (a :: (back ++ (orderDesc key l).drop n)).filter (fun b => key a < key b) = [] := by
    have hrest := List.pairwise_cons.mp (List.pairwise_append.mp hsorted).2.1
    refine List.filter_eq_nil_iff.mpr fun b hb => ?_
    rcases List.mem_cons.mp hb with rfl | hb
    · simp
    · have := hrest.1 b hb
      simp only [decide_eq_true_eq]
      omega
  have hlen : front.length < n := by
    have := congrArg List.length htake
    rw [latest, List.length_take, List.length_append, List.length_cons] at this
    omega
  calc (l.filter fun b => key a < key b).length
      = ((orderDesc key l).filter fun b => key a < key b).length :=
        ((orderDesc_perm key l).filter _).length_eq.symm
    _ = (front.filter fun b => key a < key b).length := by
        rw [hsplit, List.filter_append, hback, List.append_nil]
    _ ≤ front.length := List.length_filter_le _ _
    _ < n := hlen

/-- A row that is read before the others stands before the rows with its key. -/
theorem mem_latest_cons (h : (l.filter fun b => key a < key b).length < n) : a ∈ latest key n (a :: l) := by
  let newer := (orderDesc key l).takeWhile fun b => decide ¬key b ≤ key a
  have hsplit : orderDesc key (a :: l) =
      newer ++ a :: (orderDesc key l).dropWhile fun b => decide ¬key b ≤ key a := by
    simp only [orderDesc, List.insertionSort_cons]
    exact List.orderedInsert_eq_take_drop (fun a b => key b ≤ key a) a _
  have hnewer : newer.length < n := by
    have hsub : newer.Sublist (orderDesc key l) := List.takeWhile_sublist _
    have hall : newer.filter (fun b => key a < key b) = newer := by
      refine List.filter_eq_self.mpr fun b hb => ?_
      have := List.all_eq_true.mp List.all_takeWhile b hb
      simpa using this
    have hle := (hsub.filter fun b => decide (key a < key b)).length_le
    rw [hall, ((orderDesc_perm key l).filter _).length_eq] at hle
    omega
  obtain ⟨k, hk⟩ := Nat.exists_eq_add_of_lt hnewer
  rw [latest, hsplit, List.take_append, show n - newer.length = k + 1 by omega, List.take_succ_cons]
  exact List.mem_append_right _ List.mem_cons_self

/-- Which rows can be among the latest. -/
theorem mem_latest_iff : (∃ scan, scan.Perm l ∧ a ∈ latest key n scan) ↔
    a ∈ l ∧ (l.filter fun b => key a < key b).length < n := by
  constructor
  · intro ⟨scan, hscan, ha⟩
    refine ⟨hscan.subset (latest_subset ha), ?_⟩
    rw [← (hscan.filter _).length_eq]
    exact newer_lt_of_mem_latest ha
  · intro ⟨ha, hlt⟩
    obtain ⟨front, back, rfl⟩ := List.append_of_mem ha
    refine ⟨a :: (front ++ back), List.perm_middle.symm, mem_latest_cons ?_⟩
    rw [List.filter_append, List.filter_cons_of_neg (by simp), ← List.filter_append] at hlt
    exact hlt

end Latest

/-! ## Consecutive keys -/

section Numbered

/-- The keys are `a, a + 1, ...` in list order. -/
def Numbered (key : α → Nat) (a : Nat) (l : List α) : Prop := l.map key = List.range' a l.length

variable {key : α → Nat} {a : Nat} {l : List α}

theorem Numbered.ascending (h : Numbered key a l) : Ascending key l := by
  have hp : List.Pairwise (· < ·) (l.map key) := by
    rw [h]; exact List.pairwise_lt_range'
  exact List.pairwise_map.mp hp

theorem Numbered.mem (h : Numbered key a l) {b : α} (hb : b ∈ l) :
    a ≤ key b ∧ key b < a + l.length := by
  have hk : key b ∈ List.range' a l.length := h ▸ List.mem_map_of_mem hb
  exact List.mem_range'_1.mp hk

theorem Numbered.exists_key (h : Numbered key a l) {s : Nat} (hlo : a ≤ s) (hhi : s < a + l.length) :
    ∃ b ∈ l, key b = s := by
  have hs : s ∈ l.map key := h ▸ List.mem_range'_1.mpr ⟨hlo, hhi⟩
  exact List.mem_map.mp hs

theorem Numbered.getElem (h : Numbered key a l) (i : Nat) (hi : i < l.length) :
    key l[i] = a + i := by
  have hmap : (l.map key)[i]? = some (key l[i]) := by
    rw [List.getElem?_map, List.getElem?_eq_getElem hi, Option.map_some]
  rw [h, List.getElem?_range' hi, Option.some.injEq] at hmap
  omega

theorem numbered_append {l' : List α} :
    Numbered key a (l ++ l') ↔ Numbered key a l ∧ Numbered key (a + l.length) l' := by
  unfold Numbered
  rw [List.map_append, List.length_append, ← List.range'_append_1]
  constructor
  · intro h
    exact List.append_inj h (by simp)
  · intro ⟨hl, hl'⟩
    rw [hl, hl']

theorem Numbered.drop (h : Numbered key a l) (k : Nat) : Numbered key (a + k) (l.drop k) := by
  rcases Nat.lt_or_ge k l.length with hk | hk
  · have hsplit := (numbered_append.mp ((List.take_append_drop k l).symm ▸ h)).2
    rwa [List.length_take, Nat.min_eq_left (Nat.le_of_lt hk)] at hsplit
  · rw [List.drop_eq_nil_of_le hk]
    rfl

/-- `WHERE n < key` cuts numbered rows from the front. -/
theorem Numbered.filter_above (h : Numbered key a l) (n : Nat) :
    (l.filter fun b => n < key b) = l.drop (n + 1 - a) := by
  induction l generalizing a with
  | nil => simp
  | cons b l ih =>
    have ⟨hb, hl⟩ := numbered_append (l := [b]).mp h
    have hkey : key b = a := by simpa [Numbered] using hb
    have ih := ih hl
    rw [List.length_singleton] at ih
    rw [List.filter_cons]
    rcases Nat.lt_or_ge n a with hlt | hge
    · rw [if_pos (decide_eq_true (by omega)), ih, show n + 1 - (a + 1) = 0 by omega,
        show n + 1 - a = 0 by omega, List.drop_zero, List.drop_zero]
    · rw [if_neg (by simp only [decide_eq_true_eq]; omega), ih,
        show n + 1 - a = n + 1 - (a + 1) + 1 by omega, List.drop_succ_cons]

/-- The rows above `n` are numbered too. -/
theorem Numbered.above (h : Numbered key a l) (n : Nat) :
    Numbered key (max a (n + 1)) (l.filter fun b => n < key b) := by
  rw [h.filter_above, show max a (n + 1) = a + (n + 1 - a) by omega]
  exact h.drop _

end Numbered

/-! ## Greedy fill -/

/-- The rows of `l` taken from the front while `used` plus their sizes stays
within `cap`; it stops at the first row that does not fit. -/
def takeWithin (size : α → Nat) (cap : Int) : Int → List α → List α
  | _, [] => []
  | used, a :: l =>
    if used + size a ≤ cap then a :: takeWithin size cap (used + size a) l else []

variable (size : α → Nat)

def total : List α → Nat
  | [] => 0
  | a :: l => size a + total l

@[simp] theorem total_nil : total size ([] : List α) = 0 := rfl

@[simp] theorem total_cons (a : α) (l : List α) : total size (a :: l) = size a + total size l := rfl

@[simp] theorem total_append (l l' : List α) :
    total size (l ++ l') = total size l + total size l' := by
  induction l with
  | nil => simp
  | cons a l ih => simp [ih, Nat.add_assoc]

@[simp] theorem total_reverse (l : List α) : total size l.reverse = total size l := by
  induction l with
  | nil => rfl
  | cons a l ih => simp [ih, Nat.add_comm]

theorem total_map {β : Type} (f : β → α) (l : List β) : total size (l.map f) = total (fun b => size (f b)) l := by
  induction l with
  | nil => rfl
  | cons b l ih => simp [ih]

theorem total_congr {size' : α → Nat} {l : List α} (h : ∀ a ∈ l, size a = size' a) :
    total size l = total size' l := by
  induction l with
  | nil => rfl
  | cons a l ih =>
    have hl := ih fun b hb => h b (List.mem_cons_of_mem _ hb)
    simp [hl, h a List.mem_cons_self]

theorem total_sublist {l l' : List α} (h : List.Sublist l l') : total size l ≤ total size l' := by
  induction h with
  | slnil => exact Nat.le_refl _
  | cons a _ ih => simp only [total_cons]; omega
  | cons_cons a _ ih => simp only [total_cons]; omega

theorem total_perm {l l' : List α} (h : l.Perm l') : total size l = total size l' := by
  induction h with
  | nil => rfl
  | cons a _ ih => simp only [total_cons, ih]
  | swap a b l => simp only [total_cons]; omega
  | trans _ _ ih ih' => exact ih.trans ih'

/-- A row and the rows after it. -/
theorem Ascending.total_from {key : α → Nat} {l : List α} (h : Ascending key l) {a : α} (ha : a ∈ l) :
    total size (l.filter fun b => key a ≤ key b) =
      size a + total size (l.filter fun b => key a < key b) := by
  obtain ⟨before, after, rfl⟩ := List.append_of_mem ha
  obtain ⟨_, hafter, hcross⟩ := List.pairwise_append.mp h
  have hbelow : ∀ b ∈ before, key b < key a := fun b hb => hcross b hb a List.mem_cons_self
  have habove : ∀ b ∈ after, key a < key b := (List.pairwise_cons.mp hafter).1
  have h1 : before.filter (fun b => decide (key a ≤ key b)) = [] := by
    refine List.filter_eq_nil_iff.mpr fun b hb => ?_
    simp only [decide_eq_true_eq, Nat.not_le]
    exact hbelow b hb
  have h2 : before.filter (fun b => decide (key a < key b)) = [] := by
    refine List.filter_eq_nil_iff.mpr fun b hb => ?_
    simp only [decide_eq_true_eq, Nat.not_lt]
    exact Nat.le_of_lt (hbelow b hb)
  have h3 : after.filter (fun b => decide (key a ≤ key b)) = after :=
    List.filter_eq_self.mpr fun b hb => decide_eq_true (Nat.le_of_lt (habove b hb))
  have h4 : after.filter (fun b => decide (key a < key b)) = after :=
    List.filter_eq_self.mpr fun b hb => decide_eq_true (habove b hb)
  simp [List.filter_append, h1, h2, h3, h4]

/-- From the last row on there is only that row. -/
theorem Ascending.total_last {key : α → Nat} {l : List α} (h : Ascending key l) {a : α}
    (hlast : l.getLast? = some a) : total size (l.filter fun b => key a ≤ key b) = size a := by
  have hnone : (l.filter fun b => key a < key b) = [] := by
    refine List.filter_eq_nil_iff.mpr fun b hb => ?_
    obtain ⟨front, rfl⟩ := List.getLast?_eq_some_iff.mp hlast
    simp only [decide_eq_true_eq, Nat.not_lt]
    rcases List.mem_append.mp hb with hb | hb
    · exact Nat.le_of_lt ((List.pairwise_append.mp h).2.2 b hb a (List.mem_singleton_self _))
    · rw [List.mem_singleton.mp hb]
  rw [h.total_from size (List.mem_of_getLast? hlast), hnone, total_nil, Nat.add_zero]

theorem total_from_anti (key : α → Nat) {m n : Nat} (h : m ≤ n) (l : List α) :
    total size (l.filter fun b => n ≤ key b) ≤ total size (l.filter fun b => m ≤ key b) := by
  refine total_sublist size (List.monotone_filter_right _ fun b hb => ?_)
  simp only [decide_eq_true_eq] at hb ⊢
  omega

/-- The row after the rows up to `n`: it is the next row up, and the rows above it
are the rest. -/
theorem Ascending.filter_next {key : α → Nat} {n : Nat} {a : α} {rest : List α} :
    ∀ {l : List α}, Ascending key l → l.filter (fun b => n < key b) = a :: rest →
      l.filter (fun b => key b ≤ key a) = l.filter (fun b => key b ≤ n) ++ [a] ∧
        l.filter (fun b => key a < key b) = rest
  | [], _, h => by cases h
  | b :: l, hasc, h => by
    have ⟨hb, hl⟩ := List.pairwise_cons.mp hasc
    rcases Nat.lt_or_ge n (key b) with hlt | hge
    · have hall : l.filter (fun c => n < key c) = l :=
        List.filter_eq_self.mpr fun c hc => decide_eq_true (Nat.lt_trans hlt (hb c hc))
      rw [List.filter_cons_of_pos (by simpa using hlt), hall] at h
      obtain ⟨rfl, rfl⟩ := List.cons.inj h
      have hnone : ∀ m, m ≤ key b → l.filter (fun c => key c ≤ m) = [] := fun m hm =>
        List.filter_eq_nil_iff.mpr fun c hc => by have := hb c hc; simp; omega
      constructor
      · rw [List.filter_cons_of_pos (by simp), List.filter_cons_of_neg (by simp; omega), hnone _ (Nat.le_refl _),
          hnone n (Nat.le_of_lt hlt), List.nil_append]
      · rw [List.filter_cons_of_neg (by simp)]
        exact List.filter_eq_self.mpr fun c hc => decide_eq_true (hb c hc)
    · rw [List.filter_cons_of_neg (by simp; omega)] at h
      obtain ⟨hle, hgt⟩ := Ascending.filter_next hl h
      have ha : n < key a := by
        have hmem : a ∈ l.filter fun c => n < key c := h ▸ List.mem_cons_self
        simpa using (List.mem_filter.mp hmem).2
      constructor
      · rw [List.filter_cons_of_pos (by simp; omega), List.filter_cons_of_pos (by simpa using hge), hle,
          List.cons_append]
      · rw [List.filter_cons_of_neg (by simp; omega), hgt]

/-- A suffix that has every key is everything. -/
theorem Ascending.suffix_eq {key : α → Nat} {l l' : List α} (h : Ascending key l) (hs : l' <:+ l)
    (hkeys : ∀ a ∈ l, ∃ b ∈ l', key b = key a) : l' = l := by
  obtain ⟨front, rfl⟩ := hs
  cases front with
  | nil => rfl
  | cons a front =>
    obtain ⟨b, hb, hkey⟩ := hkeys a (by simp)
    have := (List.pairwise_cons.mp h).1 b (List.mem_append_right _ hb)
    omega

variable {size} {cap : Int}

theorem prefix_takeWithin : ∀ (used : Int) (l : List α), takeWithin size cap used l <+: l
  | _, [] => List.nil_prefix
  | used, a :: l => by
    unfold takeWithin
    split
    · exact List.cons_prefix_cons.mpr ⟨rfl, prefix_takeWithin _ l⟩
    · exact List.nil_prefix

/-- What was taken fits. -/
theorem takeWithin_sum : ∀ (used : Int) (l : List α), used ≤ cap →
    used + total size (takeWithin size cap used l) ≤ cap
  | used, [], h => by simpa [takeWithin] using h
  | used, a :: l, h => by
    unfold takeWithin
    split
    · rename_i hle
      have := takeWithin_sum (used + size a) l hle
      simp only [total_cons]; omega
    · simpa using h

theorem total_takeWithin_le (l : List α) : (total size (takeWithin size cap 0 l) : Int) ≤ max 0 cap := by
  by_cases hcap : 0 ≤ cap
  · have := @takeWithin_sum _ size cap 0 l hcap
    omega
  · cases l with
    | nil => simp [takeWithin]
    | cons a l =>
      unfold takeWithin
      rw [if_neg (by omega)]
      simp

/-- The row it stopped at does not fit on top of what was taken. -/
theorem takeWithin_stop : ∀ (used : Int) (l : List α) (a : α) (rest : List α),
    l = takeWithin size cap used l ++ a :: rest →
    cap < used + total size (takeWithin size cap used l) + size a
  | used, [], a, rest, h => by simp [takeWithin] at h
  | used, b :: l, a, rest, h => by
    unfold takeWithin at h ⊢
    split at h
    · rename_i hle
      rw [if_pos hle]
      simp only [List.cons_append, List.cons.injEq, true_and] at h
      have := takeWithin_stop (used + size b) l a rest h
      simp only [total_cons]; omega
    · rename_i hgt
      rw [if_neg hgt]
      simp only [List.nil_append, List.cons.injEq] at h
      obtain ⟨rfl, rfl⟩ := h
      simp only [total_nil]; omega

/-- Everything is taken exactly when everything fits. -/
theorem takeWithin_eq_self_iff : ∀ (used : Int) (l : List α),
    takeWithin size cap used l = l ↔ l = [] ∨ used + total size l ≤ cap
  | used, [] => by simp [takeWithin]
  | used, a :: l => by
    unfold takeWithin
    have ih := takeWithin_eq_self_iff (used + size a) l
    simp only [total_cons, reduceCtorEq, false_or]
    split
    · simp only [List.cons.injEq, true_and, ih]
      constructor
      · rintro (rfl | h)
        · simp; omega
        · omega
      · intro h; right; omega
    · constructor
      · intro h; cases h
      · intro h; omega

/-- A row limit first: everything is taken when it is short enough and fits. -/
theorem takeWithin_take_eq_self_iff (hcap : 0 ≤ cap) (n : Nat) (l : List α) :
    takeWithin size cap 0 (l.take n) = l ↔ l.length ≤ n ∧ (total size l : Int) ≤ cap := by
  constructor
  · intro h
    have hlen : l.length ≤ n := by
      have := (@prefix_takeWithin _ size cap 0 (l.take n)).length_le
      rw [h, List.length_take] at this
      omega
    rw [List.take_of_length_le hlen, takeWithin_eq_self_iff] at h
    rcases h with rfl | h
    · exact ⟨hlen, by simpa using hcap⟩
    · exact ⟨hlen, by omega⟩
  · intro ⟨hlen, hfit⟩
    rw [List.take_of_length_le hlen, takeWithin_eq_self_iff]
    exact .inr (by omega)

/-- The newest rows that fit are rows. -/
theorem mem_of_newest {l : List α} {n : Nat} {a : α}
    (h : a ∈ (takeWithin size cap 0 (l.reverse.take n)).reverse) : a ∈ l := by
  have htaken := (prefix_takeWithin _ _).subset (List.mem_reverse.mp h)
  exact List.mem_reverse.mp (List.mem_of_mem_take htaken)

/-- Filling twice is filling up to the smaller cap. -/
theorem takeWithin_takeWithin {cap' : Int} : ∀ (used : Int) (l : List α),
    takeWithin size cap' used (takeWithin size cap used l) = takeWithin size (min cap cap') used l
  | used, [] => rfl
  | used, a :: l => by
    have ih := @takeWithin_takeWithin cap' (used + size a) l
    by_cases h : used + size a ≤ cap
    · by_cases h' : used + size a ≤ cap'
      · simp [takeWithin, h, h', ih]
      · simp [takeWithin, h, h']
    · simp [takeWithin, h]

/-- The first row is taken exactly when it fits. -/
theorem head?_takeWithin (l : List α) :
    (takeWithin size cap 0 l).head? = l.head?.filter fun a => size a ≤ cap := by
  cases l with
  | nil => rfl
  | cons a l =>
    by_cases h : (size a : Int) ≤ cap
    · simp [takeWithin, Option.filter, h]
    · simp [takeWithin, Option.filter, h]

/-- The last of the newest rows that fit, in list order. -/
theorem getLast?_newest (l : List α) (n : Nat) :
    (takeWithin size cap 0 (l.reverse.take n)).reverse.getLast? =
      if n = 0 then none else l.getLast?.filter fun a => size a ≤ cap := by
  rw [List.getLast?_reverse, head?_takeWithin, List.head?_take]
  by_cases hn : n = 0
  · simp [hn]
  · rw [if_neg hn, if_neg hn, List.head?_reverse]

/-- What is taken contains every part of the front that fits. -/
theorem prefix_takeWithin_of_le : ∀ (used : Int) {l l' : List α}, l' <+: l → used + total size l' ≤ cap →
    l' <+: takeWithin size cap used l
  | _, _, [], _, _ => List.nil_prefix
  | _, [], _ :: _, h, _ => by simp at h
  | used, a :: l, b :: l', h, hfit => by
    obtain ⟨rfl, htail⟩ := List.cons_prefix_cons.mp h
    simp only [total_cons] at hfit
    have htake : used + size b ≤ cap := by omega
    have ih := prefix_takeWithin_of_le (used + size b) htail (by omega)
    rw [takeWithin, if_pos htake]
    exact List.cons_prefix_cons.mpr ⟨rfl, ih⟩

/-- `kept` is the longest suffix of `l` that fits. -/
structure Longest (fits : List α → Prop) (l kept : List α) : Prop where
  suffix : kept <:+ l
  holds : fits kept
  longest : ∀ l', l' <:+ l → fits l' → l' <:+ kept

/-- The newest rows up to a limit, as far as they fit. -/
theorem longest_newest (hcap : 0 ≤ cap) (n : Nat) (l : List α) :
    Longest (fun l' => l'.length ≤ n ∧ (total size l' : Int) ≤ cap) l
      (takeWithin size cap 0 (l.reverse.take n)).reverse := by
  refine ⟨?_, ⟨?_, ?_⟩, fun l' hsuffix hfit => ?_⟩
  · rw [← List.reverse_prefix, List.reverse_reverse]
    exact (prefix_takeWithin _ _).trans (List.take_prefix _ _)
  · have hlen := (@prefix_takeWithin _ size cap 0 (l.reverse.take n)).length_le
    rw [List.length_take] at hlen
    rw [List.length_reverse]
    omega
  · have hsum := @takeWithin_sum _ size cap 0 (l.reverse.take n) hcap
    rw [total_reverse]
    omega
  · rw [← List.reverse_prefix, List.reverse_reverse]
    refine prefix_takeWithin_of_le 0 ?_ (by rw [total_reverse]; omega)
    refine List.prefix_take_iff.mpr ⟨List.reverse_prefix.mpr hsuffix, ?_⟩
    rw [List.length_reverse]
    exact hfit.1

/-- Without a row limit, for rows that all count: below a cap of 0 only the
empty suffix is left. -/
theorem longest_fill (hpos : ∀ a, 0 < size a) (cap : Int) (l : List α) :
    Longest (fun l' => (total size l' : Int) ≤ max 0 cap) l (takeWithin size cap 0 l.reverse).reverse := by
  by_cases hcap : 0 ≤ cap
  · have hall := @longest_newest _ size cap hcap l.length l
    rw [← List.length_reverse, List.take_length] at hall
    rw [max_eq_right hcap]
    refine ⟨hall.suffix, hall.holds.2, fun l' hsuffix hfit => hall.longest l' hsuffix ⟨?_, hfit⟩⟩
    rw [List.length_reverse]
    exact hsuffix.length_le
  · have hnil : takeWithin size cap 0 l.reverse = [] := by
      cases l.reverse with
      | nil => rfl
      | cons a _ => rw [takeWithin, if_neg (by omega)]
    rw [hnil, max_eq_left (by omega)]
    refine ⟨List.nil_suffix, Int.le_refl 0, fun l' _ hfit => ?_⟩
    cases l' with
    | nil => exact List.nil_suffix
    | cons a l' =>
      have := hpos a
      simp only [total_cons] at hfit
      omega

/-- A suffix that a condition on the rows cuts off first. -/
theorem Longest.filter {fits : List α → Prop} {p : α → Bool} {l kept : List α} (h : Longest fits (l.filter p) kept)
    (hsuffix : l.filter p <:+ l) : Longest (fun l' => (∀ a ∈ l', p a = true) ∧ fits l') l kept := by
  refine ⟨h.suffix.trans hsuffix, ⟨fun a ha => (List.mem_filter.mp (h.suffix.subset ha)).2, h.holds⟩, ?_⟩
  rintro l' ⟨front, rfl⟩ ⟨hall, hfit⟩
  refine h.longest l' ⟨front.filter p, ?_⟩ hfit
  rw [List.filter_append, List.filter_eq_self.mpr hall]

/-! ## Slicing -/

/-- `[l[i : i + k] for i in range(0, len(l), k)]`, for `k > 0`. -/
def slices (k : Nat) (l : List α) : List (List α) :=
  (List.range ((l.length + k - 1) / k)).map fun i => (l.drop (i * k)).take k

@[simp] theorem slices_nil (k : Nat) : slices k ([] : List α) = [] := by
  have : (k - 1) / k = 0 := by
    rcases k with _ | k
    · rfl
    · exact Nat.div_eq_of_lt (by omega)
  simp [slices, this]

/-- The first slice and the rest. -/
theorem slices_eq {k : Nat} (hk : 0 < k) {l : List α} (hl : l ≠ []) :
    slices k l = l.take k :: slices k (l.drop k) := by
  have hpos := List.length_pos_iff.mpr hl
  have hcount : (l.length + k - 1) / k = ((l.drop k).length + k - 1) / k + 1 := by
    rw [List.length_drop]
    rcases Nat.lt_or_ge l.length k with h | h
    · have h0 : (l.length - k + k - 1) / k = 0 := Nat.div_eq_of_lt (by omega)
      have h1 : (l.length + k - 1) / k = 1 := Nat.div_eq_of_lt_le (by omega) (by omega)
      rw [h0, h1]
    · rw [show l.length - k + k - 1 = l.length - 1 by omega,
        show l.length + k - 1 = l.length - 1 + k by omega, Nat.add_div_right _ hk]
  unfold slices
  rw [hcount, List.range_succ_eq_map]
  simp only [List.map_cons, Nat.zero_mul, List.drop_zero, List.map_map, List.cons.injEq, true_and]
  refine List.map_congr_left fun i _ => ?_
  simp only [Function.comp, List.drop_drop]
  congr 2
  rw [Nat.succ_mul, Nat.add_comm]

/-- Induction along the slices. -/
theorem slices_induct {k : Nat} (hk : 0 < k) {P : List α → Prop} (nil : P [])
    (step : ∀ l, l ≠ [] → P (l.drop k) → P l) (l : List α) : P l := by
  induction h : l.length using Nat.strongRecOn generalizing l with
  | ind n ih =>
  by_cases hl : l = []
  · rw [hl]; exact nil
  · have := List.length_pos_iff.mpr hl
    exact step l hl (ih (l.drop k).length (by rw [List.length_drop]; omega) _ rfl)

theorem slices_flatten {k : Nat} (hk : 0 < k) (l : List α) : (slices k l).flatten = l := by
  induction l using slices_induct hk with
  | nil => simp
  | step l hl ih => rw [slices_eq hk hl, List.flatten_cons, ih, List.take_append_drop]

theorem slices_ne_nil {k : Nat} (hk : 0 < k) (l : List α) : ∀ c ∈ slices k l, c ≠ [] := by
  induction l using slices_induct hk with
  | nil => simp
  | step l hl ih =>
    rw [slices_eq hk hl]
    intro c hc
    rcases List.mem_cons.mp hc with rfl | hc
    · simp [hl]; omega
    · exact ih c hc

theorem slices_length_le {k : Nat} (hk : 0 < k) (l : List α) : ∀ c ∈ slices k l, c.length ≤ k := by
  induction l using slices_induct hk with
  | nil => simp
  | step l hl ih =>
    rw [slices_eq hk hl]
    intro c hc
    rcases List.mem_cons.mp hc with rfl | hc
    · exact List.length_take_le k l
    · exact ih c hc

/-- Only the last slice may be shorter. -/
theorem slices_dropLast {k : Nat} (hk : 0 < k) (l : List α) : ∀ c ∈ (slices k l).dropLast, c.length = k := by
  induction l using slices_induct hk with
  | nil => simp
  | step l hl ih =>
    rw [slices_eq hk hl]
    by_cases hrest : l.drop k = []
    · simp [hrest]
    · have hlong : k < l.length := by
        have := mt List.drop_eq_nil_iff.mpr hrest
        omega
      rw [List.dropLast_cons_of_ne_nil (by rw [slices_eq hk hrest]; exact List.cons_ne_nil _ _)]
      intro c hc
      rcases List.mem_cons.mp hc with rfl | hc
      · rw [List.length_take, Nat.min_eq_left hlong.le]
      · exact ih c hc

end ContextBroker.Rows
