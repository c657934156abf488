import Mathlib.Data.List.Basic

/-!
# Substitution of a pattern

`re.sub` over a list of cells: the text is read from the left; where the
pattern matches, the match is replaced and reading goes on behind it.

* `Scan`: the reading as a relation; `scan_sub` says that `sub` follows it.
* `Scan.count_le`, `Scan.lt_or_eq`: what the replacements do to a count.
* `Scan.kept`: a cell of the text is in the result or in a match.
* `Scan.append`: a text in two pieces is read piece by piece, where no match
  goes from the one into the other.
* `skips_of_count`: where no cell of a piece is lost, no match begins in it.
* `sub_map`: a relabelling of the cells commutes with the substitution.
-/
namespace ContextBroker.Substitute

variable {α β γ : Type}

/-- Tried at a position, behind the cell before it if there is one, `find`
gives the length of its match and what replaces it. No match is empty. -/
structure Pattern (α : Type) where
  find : Option α → List α → Option (Nat × List α)
  bounds : ∀ {previous xs n r}, find previous xs = some (n, r) → 0 < n ∧ n ≤ xs.length

/-- The text from a position on; the first cells, `skip` of them, belong to a
match. -/
def subFrom (p : Pattern α) : Nat → Option α → List α → List α
  | _, _, [] => []
  | skip + 1, _, c :: rest => subFrom p skip (some c) rest
  | 0, previous, c :: rest =>
    match p.find previous (c :: rest) with
    | none => c :: subFrom p 0 (some c) rest
    | some (n, r) => r ++ subFrom p (n - 1) (some c) rest

def sub (p : Pattern α) (xs : List α) : List α := subFrom p 0 none xs

/-- The matches that are replaced, as `subFrom` meets them. -/
def takenFrom (p : Pattern α) : Nat → Option α → List α → List (List α)
  | _, _, [] => []
  | skip + 1, _, c :: rest => takenFrom p skip (some c) rest
  | 0, previous, c :: rest =>
    match p.find previous (c :: rest) with
    | none => takenFrom p 0 (some c) rest
    | some (n, _) => (c :: rest).take n :: takenFrom p (n - 1) (some c) rest

def taken (p : Pattern α) (xs : List α) : List (List α) := takenFrom p 0 none xs

/-- The cell before what follows `xs`. -/
def behind : Option α → List α → Option α
  | previous, [] => previous
  | _, c :: xs => behind (some c) xs

/-- `seg` is matched where `rest` follows it, and replaced by `r`. -/
def Pattern.Matches (p : Pattern α) (previous : Option α) (seg rest r : List α) : Prop :=
  seg ≠ [] ∧ p.find previous (seg ++ rest) = some (seg.length, r)

/-- Reading a text. -/
inductive Scan (p : Pattern α) : Option α → List α → List α → Prop where
  | done (previous : Option α) : Scan p previous [] []
  | keep {previous : Option α} {c : α} {rest ys : List α} : p.find previous (c :: rest) = none →
    Scan p (some c) rest ys → Scan p previous (c :: rest) (c :: ys)
  | replace {previous : Option α} {seg rest r ys : List α} : p.Matches previous seg rest r →
    Scan p (behind previous seg) rest ys → Scan p previous (seg ++ rest) (r ++ ys)

/-- Nowhere in the text does the pattern match. -/
def Pattern.Absent (p : Pattern α) (previous : Option α) (xs : List α) : Prop :=
  ∀ before rest, xs = before ++ rest → rest ≠ [] → p.find (behind previous before) rest = none

section Reading

variable {p : Pattern α} {previous : Option α} {c : α} {xs ys zs seg rest r before after k : List α}

@[simp] theorem behind_nil : behind previous [] = previous := rfl

@[simp] theorem behind_cons : behind previous (c :: xs) = behind (some c) xs := rfl

theorem behind_append : behind previous (xs ++ ys) = behind (behind previous xs) ys := by
  induction xs generalizing previous with
  | nil => rfl
  | cons c xs ih => exact ih

theorem subFrom_of_none (h : p.find previous (c :: rest) = none) :
    subFrom p 0 previous (c :: rest) = c :: subFrom p 0 (some c) rest := by
  simp only [subFrom, h]

theorem subFrom_length (p : Pattern α) (previous : Option α) (seg rest : List α) :
    subFrom p seg.length previous (seg ++ rest) = subFrom p 0 (behind previous seg) rest := by
  induction seg generalizing previous with
  | nil => rfl
  | cons c seg ih => rw [behind_cons, ← ih]; rfl

theorem subFrom_of_match (h : p.Matches previous seg rest r) :
    subFrom p 0 previous (seg ++ rest) = r ++ subFrom p 0 (behind previous seg) rest := by
  obtain ⟨hne, hfind⟩ := h
  cases seg with
  | nil => exact absurd rfl hne
  | cons c seg =>
    rw [List.cons_append] at hfind ⊢
    have hskip := subFrom_length p (some c) seg rest
    simp only [subFrom, hfind, List.length_cons, Nat.add_sub_cancel, hskip, behind_cons]

theorem takenFrom_length (p : Pattern α) (previous : Option α) (seg rest : List α) :
    takenFrom p seg.length previous (seg ++ rest) = takenFrom p 0 (behind previous seg) rest := by
  induction seg generalizing previous with
  | nil => rfl
  | cons c seg ih => rw [behind_cons, ← ih]; rfl

theorem takenFrom_of_none (h : p.find previous (c :: rest) = none) :
    takenFrom p 0 previous (c :: rest) = takenFrom p 0 (some c) rest := by
  simp only [takenFrom, h]

theorem takenFrom_of_match (h : p.Matches previous seg rest r) :
    takenFrom p 0 previous (seg ++ rest) = seg :: takenFrom p 0 (behind previous seg) rest := by
  obtain ⟨hne, hfind⟩ := h
  cases seg with
  | nil => exact absurd rfl hne
  | cons c seg =>
    rw [List.cons_append] at hfind ⊢
    have hskip := takenFrom_length p (some c) seg rest
    have htake : (c :: (seg ++ rest)).take (seg.length + 1) = c :: seg := by
      rw [List.take_succ_cons, List.take_left]
    simp only [takenFrom, hfind, htake, List.length_cons, Nat.add_sub_cancel, hskip, behind_cons]

theorem take_mem_takenFrom {n : Nat} (h : p.find previous (c :: rest) = some (n, r)) :
    (c :: rest).take n ∈ takenFrom p 0 previous (c :: rest) := by
  simp only [takenFrom, h]
  exact List.mem_cons_self

theorem matches_of_find {n : Nat} (h : p.find previous xs = some (n, r)) :
    p.Matches previous (xs.take n) (xs.drop n) r := by
  obtain ⟨hpos, hle⟩ := p.bounds h
  have hlen : (xs.take n).length = n := by rw [List.length_take, Nat.min_eq_left hle]
  refine ⟨fun hnil => ?_, ?_⟩
  · rw [hnil, List.length_nil] at hlen
    omega
  · rw [List.take_append_drop, hlen]
    exact h

/-- **`sub` reads the text.** -/
theorem scan_subFrom (p : Pattern α) (previous : Option α) (xs : List α) :
    Scan p previous xs (subFrom p 0 previous xs) := by
  induction h : xs.length using Nat.strongRecOn generalizing previous xs with
  | ind n ih =>
    subst h
    cases xs with
    | nil => exact .done previous
    | cons c rest =>
      cases hfind : p.find previous (c :: rest) with
      | none =>
        have hsub : subFrom p 0 previous (c :: rest) = c :: subFrom p 0 (some c) rest := by
          simp only [subFrom, hfind]
        rw [hsub]
        exact .keep hfind (ih rest.length (Nat.lt_succ_self _) (some c) rest rfl)
      | some found =>
        obtain ⟨n, r⟩ := found
        have hmatch := matches_of_find hfind
        obtain ⟨hpos, -⟩ := p.bounds hfind
        have hscan := Scan.replace hmatch (ih ((c :: rest).drop n).length (by
          rw [List.length_drop, List.length_cons]; omega) (behind previous ((c :: rest).take n)) _ rfl)
        rw [← subFrom_of_match hmatch, List.take_append_drop] at hscan
        exact hscan

theorem scan_sub (p : Pattern α) (xs : List α) : Scan p none xs (sub p xs) := scan_subFrom p none xs

/-- A match is of cells of the text. -/
theorem Scan.taken_subset (h : Scan p previous xs ys) :
    ∀ seg ∈ takenFrom p 0 previous xs, ∀ c ∈ seg, c ∈ xs := by
  induction h with
  | done => exact fun seg hseg => absurd hseg List.not_mem_nil
  | keep hfind _ ih =>
    rw [takenFrom_of_none hfind]
    exact fun seg hseg c hc => List.mem_cons_of_mem _ (ih seg hseg c hc)
  | replace hmatch _ ih =>
    rw [takenFrom_of_match hmatch]
    intro seg hseg c hc
    rcases List.mem_cons.mp hseg with rfl | hseg
    · exact List.mem_append_left _ hc
    · exact List.mem_append_right _ (ih seg hseg c hc)

theorem Scan.eq_nil (h : Scan p previous xs ys) (hxs : xs = []) : ys = [] := by
  cases h with
  | done => rfl
  | keep => cases hxs
  | replace hm => exact absurd (List.append_eq_nil_iff.mp hxs).1 hm.1

/-- The last cell stays, if no match ends with one like it. -/
theorem Scan.getLast?_eq {q : α → Bool} (h : Scan p previous xs ys)
    (hlast : ∀ {previous seg rest r}, p.Matches previous seg rest r → ∀ d ∈ seg.getLast?, q d = false)
    (hxs : ∃ d ∈ xs.getLast?, q d = true) : ys.getLast? = xs.getLast? := by
  induction h with
  | done => rfl
  | @keep _ c rest ys _ hscan ih =>
    cases rest with
    | nil =>
      rw [hscan.eq_nil rfl]
    | cons d rest =>
      rw [List.getLast?_cons_cons] at hxs ⊢
      have hsame := ih hxs
      obtain ⟨e, he, -⟩ := hxs
      rw [List.getLast?_cons, hsame, he]
      rfl
  | @replace _ seg rest r ys hm hscan ih =>
    cases rest with
    | nil =>
      obtain ⟨d, hd, hq⟩ := hxs
      rw [List.append_nil] at hd
      rw [hlast hm d hd] at hq
      cases hq
    | cons d rest =>
      rw [List.getLast?_append_cons] at hxs ⊢
      have hsame := ih hxs
      obtain ⟨e, he, -⟩ := hxs
      rw [List.getLast?_append, hsame, he]
      rfl

/-! ### Counts -/

/-- Replacements that do not add to a count. -/
theorem Scan.count_le (h : Scan p previous xs ys) (q : α → Bool)
    (hq : ∀ {previous seg rest r}, p.Matches previous seg rest r → r.countP q ≤ seg.countP q) :
    ys.countP q ≤ xs.countP q := by
  induction h with
  | done => exact Nat.le_refl _
  | keep _ _ ih =>
    rw [List.countP_cons, List.countP_cons]
    omega
  | replace hmatch _ ih =>
    rw [List.countP_append, List.countP_append]
    exact Nat.add_le_add (hq hmatch) ih

/-- Replacements that do not take from a count. -/
theorem Scan.le_count (h : Scan p previous xs ys) (q : α → Bool)
    (hq : ∀ {previous seg rest r}, p.Matches previous seg rest r → seg.countP q ≤ r.countP q) :
    xs.countP q ≤ ys.countP q := by
  induction h with
  | done => exact Nat.le_refl _
  | keep _ _ ih =>
    rw [List.countP_cons, List.countP_cons]
    omega
  | replace hmatch _ ih =>
    rw [List.countP_append, List.countP_append]
    exact Nat.add_le_add (hq hmatch) ih

theorem absent_nil : p.Absent previous [] := fun before rest h hne => by
  obtain ⟨-, rfl⟩ := List.append_eq_nil_iff.mp h.symm
  exact absurd rfl hne

theorem absent_cons : p.Absent previous (c :: xs) ↔ p.find previous (c :: xs) = none ∧ p.Absent (some c) xs := by
  constructor
  · intro h
    refine ⟨h [] (c :: xs) rfl (List.cons_ne_nil _ _), fun before rest hxs hne => ?_⟩
    rw [← behind_cons]
    exact h (c :: before) rest (congrArg _ hxs) hne
  · rintro ⟨hfind, hrest⟩ before rest hxs hne
    cases before with
    | nil =>
      obtain rfl : c :: xs = rest := hxs
      exact hfind
    | cons d before =>
      obtain ⟨rfl, rfl⟩ := List.cons.inj hxs
      rw [behind_cons]
      exact hrest before rest rfl hne

/-- Replacements that take from a count do so, unless there is no match. -/
theorem Scan.lt_or_eq (h : Scan p previous xs ys) (q : α → Bool)
    (hq : ∀ {previous seg rest r}, p.Matches previous seg rest r → r.countP q < seg.countP q) :
    ys.countP q < xs.countP q ∨ p.Absent previous xs ∧ ys = xs := by
  induction h with
  | done => exact .inr ⟨absent_nil, rfl⟩
  | keep hfind _ ih =>
    rw [List.countP_cons, List.countP_cons]
    rcases ih with hlt | ⟨habsent, rfl⟩
    · exact .inl (by omega)
    · exact .inr ⟨absent_cons.mpr ⟨hfind, habsent⟩, rfl⟩
  | replace hmatch hscan _ =>
    refine .inl ?_
    rw [List.countP_append, List.countP_append]
    exact Nat.add_lt_add_of_lt_of_le (hq hmatch) (hscan.count_le q fun hm => Nat.le_of_lt (hq hm))

theorem Scan.eq_of_absent (h : Scan p previous xs ys) (habsent : p.Absent previous xs) : ys = xs := by
  induction h with
  | done => rfl
  | keep _ _ ih => rw [ih (absent_cons.mp habsent).2]
  | @replace previous seg rest r _ hmatch _ _ =>
    have hnone := habsent [] (seg ++ rest) rfl (by simp [hmatch.1])
    exact absurd (hmatch.2.symm.trans hnone) (by simp)

theorem sub_of_absent (h : p.Absent none xs) : sub p xs = xs := (scan_sub p xs).eq_of_absent h

/-! ### What is kept -/

/-- A cell of the text that is not in the result is in a match, and not in
its replacement. -/
theorem Scan.kept (h : Scan p previous xs ys) (hc : c ∈ xs) :
    c ∈ ys ∨ ∃ before seg rest r, xs = before ++ seg ++ rest ∧
      p.Matches (behind previous before) seg rest r ∧ c ∈ seg ∧ c ∉ r := by
  induction h with
  | done => exact absurd hc List.not_mem_nil
  | @keep previous d rest ys _ _ ih =>
    rcases List.mem_cons.mp hc with rfl | hc
    · exact .inl List.mem_cons_self
    · rcases ih hc with hys | ⟨before, seg, rest', r, rfl, hmatch, hseg, hr⟩
      · exact .inl (List.mem_cons_of_mem d hys)
      · exact .inr ⟨d :: before, seg, rest', r, rfl, by rwa [behind_cons], hseg, hr⟩
  | @replace previous seg rest r ys hmatch _ ih =>
    rcases List.mem_append.mp hc with hseg | hc
    · by_cases hr : c ∈ r
      · exact .inl (List.mem_append_left ys hr)
      · exact .inr ⟨[], seg, rest, r, rfl, hmatch, hseg, hr⟩
    · rcases ih hc with hys | ⟨before, seg', rest', r', rfl, hmatch', hseg, hr⟩
      · exact .inl (List.mem_append_right r hys)
      · refine .inr ⟨seg ++ before, seg', rest', r', by simp, ?_, hseg, hr⟩
        rwa [behind_append]

/-- What the cells carry stays in its order. -/
theorem Scan.filterMap_sublist (h : Scan p previous xs ys) (f : α → Option γ)
    (hf : ∀ {previous seg rest r}, p.Matches previous seg rest r → (r.filterMap f).Sublist (seg.filterMap f)) :
    (ys.filterMap f).Sublist (xs.filterMap f) := by
  induction h with
  | done => exact List.Sublist.refl _
  | @keep _ c rest ys _ _ ih =>
    rw [List.filterMap_cons, List.filterMap_cons]
    cases f c with
    | none => exact ih
    | some b => exact ih.cons_cons b
  | replace hmatch _ ih =>
    rw [List.filterMap_append, List.filterMap_append]
    exact (hf hmatch).append ih

/-! ### Blocks -/

/-- No match starts in `k` where `rest` follows it. -/
def Pattern.Skips (p : Pattern α) : Option α → List α → List α → Prop
  | _, [], _ => True
  | previous, c :: k, rest => p.find previous (c :: (k ++ rest)) = none ∧ p.Skips (some c) k rest

theorem subFrom_of_skips (h : p.Skips previous k rest) :
    subFrom p 0 previous (k ++ rest) = k ++ subFrom p 0 (behind previous k) rest := by
  induction k generalizing previous with
  | nil => rfl
  | cons c k ih => rw [List.cons_append, subFrom_of_none h.1, ih h.2]; rfl

theorem takenFrom_of_skips (h : p.Skips previous k rest) :
    takenFrom p 0 previous (k ++ rest) = takenFrom p 0 (behind previous k) rest := by
  induction k generalizing previous with
  | nil => rfl
  | cons c k ih => rw [List.cons_append, takenFrom_of_none h.1, ih h.2]; rfl

theorem skips_append (hxs : p.Skips previous xs (ys ++ rest)) (hys : p.Skips (behind previous xs) ys rest) :
    p.Skips previous (xs ++ ys) rest := by
  induction xs generalizing previous with
  | nil => exact hys
  | cons c xs ih =>
    have hfirst := hxs.1
    rw [← List.append_assoc] at hfirst
    exact ⟨hfirst, ih hxs.2 hys⟩

theorem skips_of_forall (h : ∀ c ∈ k, ∀ previous xs, p.find previous (c :: xs) = none) : p.Skips previous k rest := by
  induction k generalizing previous with
  | nil => trivial
  | cons c k ih =>
    exact ⟨h c List.mem_cons_self previous (k ++ rest), ih fun d hd => h d (List.mem_cons_of_mem c hd)⟩

/-- What follows does not matter. -/
theorem skips_append_iff {after : List α}
    (hp : ∀ a c w before, k = before ++ c :: w → p.find a (c :: (w ++ after)) = p.find a (c :: (w ++ rest))) :
    p.Skips previous k after ↔ p.Skips previous k rest := by
  induction k generalizing previous with
  | nil => exact Iff.rfl
  | cons c k ih =>
    have hfirst := hp previous c k [] rfl
    have hrest := @ih (some c) fun a d w before h => hp a d w (c :: before) (congrArg _ h)
    change p.find previous (c :: (k ++ after)) = none ∧ _ ↔ _
    rw [hfirst, hrest]
    exact Iff.rfl

/-- Where no cell of `k` is lost, no match starts in it. -/
theorem skips_of_count {q : α → Bool} (hk : ∀ c ∈ k, q c = true)
    (hle : ∀ {previous seg rest r}, p.Matches previous seg rest r → r.countP q ≤ seg.countP q)
    (hlt : ∀ {previous c seg rest r}, p.Matches previous (c :: seg) rest r → q c = true →
      r.countP q < (c :: seg).countP q)
    (h : (k ++ rest).countP q ≤ (subFrom p 0 previous (k ++ rest)).countP q) :
    p.Skips previous k rest ∧ rest.countP q ≤ (subFrom p 0 (behind previous k) rest).countP q := by
  induction k generalizing previous with
  | nil => exact ⟨trivial, h⟩
  | cons c k ih =>
    have hc := hk c List.mem_cons_self
    cases hfind : p.find previous (c :: (k ++ rest)) with
    | none =>
      rw [List.cons_append, subFrom_of_none hfind, List.countP_cons, List.countP_cons] at h
      obtain ⟨hskips, hrest⟩ := @ih (some c) (fun d hd => hk d (List.mem_cons_of_mem c hd)) (by omega)
      exact ⟨⟨hfind, hskips⟩, hrest⟩
    | some found =>
      obtain ⟨n, r⟩ := found
      have hmatch := matches_of_find hfind
      obtain ⟨hpos, -⟩ := p.bounds hfind
      obtain ⟨m, rfl⟩ := Nat.exists_eq_add_of_lt hpos
      rw [List.take_succ_cons] at hmatch
      have hlost := hlt hmatch hc
      have hleft := (scan_subFrom p (behind previous (c :: (k ++ rest).take (0 + m)))
        ((c :: (k ++ rest)).drop (0 + m + 1))).count_le q hle
      have hsub := subFrom_of_match hmatch
      rw [← List.take_succ_cons, List.take_append_drop] at hsub
      rw [List.cons_append, hsub, List.countP_append] at h
      have hsplit := congrArg (List.countP q) (List.take_append_drop (0 + m + 1) (c :: (k ++ rest)))
      rw [List.countP_append, List.take_succ_cons] at hsplit
      rw [List.take_succ_cons] at h
      omega

/-- A text that begins where no match does. -/
theorem subFrom_of_head (h : ∀ a xs, p.find a (c :: xs) = none) (a b : Option α) (xs : List α) :
    subFrom p 0 a (c :: xs) = subFrom p 0 b (c :: xs) ∧ takenFrom p 0 a (c :: xs) = takenFrom p 0 b (c :: xs) := by
  rw [subFrom_of_none (h a xs), subFrom_of_none (h b xs), takenFrom_of_none (h a xs), takenFrom_of_none (h b xs)]
  exact ⟨rfl, rfl⟩

/-- **A text in two pieces.** Reading goes over from the first to the second
where no match does, as `Q` says of what is left of the first. -/
theorem Scan.append (h : Scan p previous xs ys) (rest : List α) (Q : Option α → List α → Prop)
    (hfind : ∀ a c xs, Q a (c :: xs) → p.find a (c :: (xs ++ rest)) = p.find a (c :: xs))
    (hkeep : ∀ a c xs, Q a (c :: xs) → p.find a (c :: xs) = none → Q (some c) xs)
    (hmatch : ∀ a seg xs r, Q a (seg ++ xs) → p.Matches a seg xs r → Q (behind a seg) xs) (hQ : Q previous xs) :
    subFrom p 0 previous (xs ++ rest) = ys ++ subFrom p 0 (behind previous xs) rest ∧
      takenFrom p 0 previous (xs ++ rest) = takenFrom p 0 previous xs ++ takenFrom p 0 (behind previous xs) rest := by
  induction h with
  | done => exact ⟨rfl, rfl⟩
  | @keep previous c xs ys hnone _ ih =>
    have hover : p.find previous (c :: (xs ++ rest)) = none := by rw [hfind _ c xs hQ, hnone]
    obtain ⟨hsub, htaken⟩ := ih (hkeep _ c xs hQ hnone)
    rw [List.cons_append, subFrom_of_none hover, takenFrom_of_none hover, takenFrom_of_none hnone, hsub, htaken]
    exact ⟨rfl, rfl⟩
  | @replace previous seg xs r ys hseg _ ih =>
    have hover : p.Matches previous seg (xs ++ rest) r := by
      refine ⟨hseg.1, ?_⟩
      obtain ⟨c, seg, rfl⟩ := List.exists_cons_of_ne_nil hseg.1
      have hsame := hfind previous c (seg ++ xs) hQ
      rw [List.append_assoc] at hsame
      exact hsame.trans hseg.2
    obtain ⟨hsub, htaken⟩ := ih (hmatch _ seg xs r hQ hseg)
    rw [List.append_assoc, subFrom_of_match hover, takenFrom_of_match hover, takenFrom_of_match hseg, hsub, htaken,
      behind_append, List.append_assoc]
    exact ⟨rfl, rfl⟩

/-! ### Patterns that do not look behind -/

/-- The cell before does not matter. -/
def Pattern.Forward (p : Pattern α) : Prop := ∀ a b xs, p.find a xs = p.find b xs

theorem subFrom_forward (hp : p.Forward) (skip : Nat) (a b : Option α) (xs : List α) :
    subFrom p skip a xs = subFrom p skip b xs := by
  cases xs with
  | nil => cases skip <;> rfl
  | cons c xs =>
    cases skip with
    | succ skip => rfl
    | zero => simp only [subFrom, hp a b (c :: xs)]

theorem takenFrom_forward (hp : p.Forward) (skip : Nat) (a b : Option α) (xs : List α) :
    takenFrom p skip a xs = takenFrom p skip b xs := by
  cases xs with
  | nil => cases skip <;> rfl
  | cons c xs =>
    cases skip with
    | succ skip => rfl
    | zero => simp only [takenFrom, hp a b (c :: xs)]

theorem sub_cons_of_none (hp : p.Forward) (h : p.find none (c :: xs) = none) : sub p (c :: xs) = c :: sub p xs := by
  rw [sub, subFrom_of_none h, subFrom_forward hp 0 (some c) none xs]
  rfl

theorem sub_of_match (hp : p.Forward) (h : p.Matches none seg rest r) : sub p (seg ++ rest) = r ++ sub p rest := by
  rw [sub, subFrom_of_match h, subFrom_forward hp 0 (behind none seg) none rest]
  rfl

theorem sub_of_find {n : Nat} (hp : p.Forward) (h : p.find none xs = some (n, r)) :
    sub p xs = r ++ sub p (xs.drop n) := by
  have hsub := sub_of_match hp (matches_of_find h)
  rwa [List.take_append_drop] at hsub

theorem sub_of_skips (hp : p.Forward) (h : p.Skips none k rest) : sub p (k ++ rest) = k ++ sub p rest := by
  rw [sub, subFrom_of_skips h, subFrom_forward hp 0 (behind none k) none rest]
  rfl

/-! ### Blocks in their order -/

/-- The blocks stand in the text, in their order. -/
def InOrder : List (List α) → List α → Prop
  | [], _ => True
  | k :: ks, xs => ∃ u v, xs = u ++ (k ++ v) ∧ InOrder ks v

variable {ks : List (List α)} {q : α → Bool}

theorem InOrder.isInfix (h : InOrder ks xs) (hk : k ∈ ks) : k <:+: xs := by
  induction ks generalizing xs with
  | nil => exact absurd hk List.not_mem_nil
  | cons k' ks ih =>
    obtain ⟨u, v, rfl, hv⟩ := h
    rcases List.mem_cons.mp hk with rfl | hk
    · exact ⟨u, v, by rw [List.append_assoc]⟩
    · obtain ⟨before, after, rfl⟩ := ih hv hk
      exact ⟨u ++ (k' ++ before), after, by simp⟩

theorem InOrder.prepend (h : InOrder ks xs) (before : List α) : InOrder ks (before ++ xs) := by
  cases ks with
  | nil => trivial
  | cons k ks =>
    obtain ⟨u, v, rfl, hv⟩ := h
    exact ⟨before ++ u, v, by rw [List.append_assoc], hv⟩

theorem InOrder.length_le (h : InOrder ks xs) (hks : ∀ k ∈ ks, ∀ c ∈ k, q c = true) :
    ks.flatten.length ≤ xs.countP q := by
  induction ks generalizing xs with
  | nil => exact Nat.zero_le _
  | cons k ks ih =>
    obtain ⟨u, v, rfl, hv⟩ := h
    have hrest := ih hv fun l hl => hks l (List.mem_cons_of_mem k hl)
    rw [List.flatten_cons, List.length_append, List.countP_append, List.countP_append,
      List.countP_eq_length.mpr (hks k List.mem_cons_self)]
    omega

/-- Blocks that begin, or end, with a cell that is not trimmed. -/
theorem InOrder.of_append_left (h : InOrder ks (before ++ xs)) (hbefore : ∀ c ∈ before, q c = true)
    (hks : ∀ k ∈ ks, ∃ c l, k = c :: l ∧ q c = false) : InOrder ks xs := by
  cases ks with
  | nil => trivial
  | cons k ks =>
    obtain ⟨u, v, hxs, hv⟩ := h
    obtain ⟨c, l, rfl, hc⟩ := hks _ List.mem_cons_self
    rcases List.append_eq_append_iff.mp hxs with ⟨w, rfl, rfl⟩ | ⟨w, rfl, hw⟩
    · exact ⟨w, v, rfl, hv⟩
    · cases w with
      | nil => exact ⟨[], v, hw.symm, hv⟩
      | cons d w =>
        obtain ⟨rfl, -⟩ := List.cons.inj hw
        exact absurd (hbefore c (by simp)) (by simp [hc])

theorem InOrder.of_append_right (h : InOrder ks (xs ++ after)) (hafter : ∀ c ∈ after, q c = true)
    (hks : ∀ k ∈ ks, ∃ l c, k = l ++ [c] ∧ q c = false) : InOrder ks xs := by
  induction ks generalizing xs with
  | nil => trivial
  | cons k ks ih =>
    obtain ⟨u, v, hxs, hv⟩ := h
    have hrest : ∀ k' ∈ ks, ∃ l c, k' = l ++ [c] ∧ q c = false := fun k' hk' => hks k' (List.mem_cons_of_mem k hk')
    rw [← List.append_assoc] at hxs
    rcases List.append_eq_append_iff.mp hxs with ⟨w, hw, hafter'⟩ | ⟨w, rfl, rfl⟩
    · obtain ⟨l, c, rfl, hc⟩ := hks k List.mem_cons_self
      rw [← List.append_assoc] at hw
      rcases List.eq_nil_or_concat w with rfl | ⟨w, d, rfl⟩
      · obtain rfl : after = v := hafter'
        rw [List.append_nil] at hw
        exact ⟨u, [], by rw [← hw]; simp, @ih [] hv hrest⟩
      · rw [List.concat_eq_append, ← List.append_assoc] at hw
        obtain ⟨-, hcd⟩ := List.append_inj' hw rfl
        obtain rfl : c = d := List.singleton_inj.mp hcd
        exact absurd (hafter c (by simp [hafter'])) (by simp [hc])
    · exact ⟨u, w, by rw [List.append_assoc], ih hv hrest⟩

end Reading

/-- Relabelling the cells. -/
theorem subFrom_map {p : Pattern α} {p' : Pattern β} (f : α → β)
    (hfind : ∀ previous xs, p'.find (previous.map f) (xs.map f) =
      (p.find previous xs).map fun found => (found.1, found.2.map f)) (skip : Nat) (previous : Option α)
    (xs : List α) :
    subFrom p' skip (previous.map f) (xs.map f) = (subFrom p skip previous xs).map f := by
  induction xs generalizing skip previous with
  | nil => cases skip <;> rfl
  | cons c xs ih =>
    cases skip with
    | succ skip => exact ih skip (some c)
    | zero =>
      have hone := hfind previous (c :: xs)
      rw [List.map_cons] at hone ⊢
      cases hf : p.find previous (c :: xs) with
      | none =>
        rw [hf] at hone
        rw [subFrom_of_none hone, subFrom_of_none hf, List.map_cons]
        exact congrArg _ (ih 0 (some c))
      | some found =>
        rw [hf] at hone
        simp only [subFrom, hf, hone, Option.map_some, List.map_append]
        exact congrArg _ (ih (found.1 - 1) (some c))

theorem sub_map {p : Pattern α} {p' : Pattern β} (f : α → β)
    (hfind : ∀ previous xs, p'.find (previous.map f) (xs.map f) =
      (p.find previous xs).map fun found => (found.1, found.2.map f)) (xs : List α) :
    sub p' (xs.map f) = (sub p xs).map f :=
  subFrom_map f hfind 0 none xs

theorem skips_map (p : Pattern α) (p' : Pattern β) (f : α → β)
    (hfind : ∀ previous xs, p'.find (previous.map f) (xs.map f) =
      (p.find previous xs).map fun found => (found.1, found.2.map f)) :
    p'.Skips (previous.map f) (k.map f) (rest.map f) ↔ p.Skips previous k rest := by
  induction k generalizing previous with
  | nil => exact Iff.rfl
  | cons c k ih =>
    have hone := hfind previous (c :: (k ++ rest))
    rw [List.map_cons, List.map_append] at hone
    have hrest := @ih (some c)
    change p'.find _ (f c :: (k.map f ++ rest.map f)) = none ∧ p'.Skips (some (f c)) _ _ ↔ _ ∧ _
    rw [hone, Option.map_eq_none_iff]
    exact and_congr_right fun _ => hrest

end ContextBroker.Substitute
