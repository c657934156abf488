import ContextBroker.Core.Substitute
import Mathlib.Data.List.Induction

/-!
# Placeholders filled in one after the other

`str.replace` run once for each placeholder of a template sees the values that
were put in before. Every character carries its origin, the template or the
entry whose value it is of, so that a replacement inside a value is seen even
where it leaves the text as it was.

* `strReplace_map`: the origins do not matter to the replacement.
* `sequential_eq_iff`: one after the other is at once exactly if each
  placeholder, in the template with the earlier ones filled in, occurs in
  characters of the template only.
-/
namespace ContextBroker.Placeholders
open Substitute

variable {α : Type}

/-! ## Replacing a word -/

/-- Tried at a position: `word`, in cells that are `ok`, replaced by `r`. -/
def literal (ch : α → Char) (word : List Char) (ok : α → Bool) (r : List α) : Pattern α where
  find _ xs :=
    if word ≠ [] ∧ word <+: xs.map ch ∧ (xs.take word.length).all ok = true then some (word.length, r) else none
  bounds := by
    intro previous xs n r' h
    split at h
    · rename_i hword
      obtain ⟨rfl, rfl⟩ := Prod.mk.inj (Option.some.inj h)
      exact ⟨List.length_pos_iff.mpr hword.1, by simpa using hword.2.1.length_le⟩
    · cases h

/-- `text.replace(word, value)` for a word that is not empty. -/
def strReplace (word value text : List Char) : List Char := sub (literal id word (fun _ => true) value) text

/-- A placeholder and its value. -/
structure Entry where
  word : List Char
  value : List Char

/-- A brace in front and none behind it; the value is not empty. -/
structure Entry.Proper (e : Entry) : Prop where
  brace : ∃ w, e.word = '{' :: w ∧ '{' ∉ w
  value : e.value ≠ []

/-- A character with the number of the entry whose value it is of. -/
structure Cell where
  char : Char
  origin : Option Nat
  deriving DecidableEq, Repr

def Cell.inTemplate (c : Cell) : Bool := c.origin.isNone

def template (text : List Char) : List Cell := text.map fun c => ⟨c, none⟩

def filled (k : Nat) (value : List Char) : List Cell := value.map fun c => ⟨c, some k⟩

/-- The replacement of entry `k`. -/
def replace (k : Nat) (e : Entry) : Pattern Cell := literal Cell.char e.word (fun _ => true) (filled k e.value)

/-- The same, in characters of the template. -/
def guarded (k : Nat) (e : Entry) : Pattern Cell := literal Cell.char e.word Cell.inTemplate (filled k e.value)

/-- One entry after the other. -/
def sequential (entries : List Entry) (text : List Cell) : List Cell :=
  entries.zipIdx.foldl (fun text e => sub (replace e.2 e.1) text) text

/-- The first entry whose word is at a position, from number `k` on. -/
def findAny : Nat → List Entry → List Cell → Option (Nat × List Cell)
  | _, [], _ => none
  | k, e :: es, xs =>
    if e.word ≠ [] ∧ e.word <+: xs.map Cell.char then some (e.word.length, filled k e.value)
    else findAny (k + 1) es xs

theorem findAny_bounds {es : List Entry} {xs r : List Cell} {n : Nat} :
    ∀ {k : Nat}, findAny k es xs = some (n, r) → 0 < n ∧ n ≤ xs.length := by
  induction es with
  | nil =>
    intro k h
    cases h
  | cons e es ih =>
    intro k h
    rw [findAny] at h
    split at h
    · rename_i hword
      obtain ⟨rfl, rfl⟩ := Prod.mk.inj (Option.some.inj h)
      exact ⟨List.length_pos_iff.mpr hword.1, by simpa using hword.2.length_le⟩
    · exact ih h

def anyOf (entries : List Entry) : Pattern Cell where
  find _ xs := findAny 0 entries xs
  bounds := findAny_bounds

/-- All entries at once. -/
def simultaneous (entries : List Entry) (text : List Cell) : List Cell := sub (anyOf entries) text

/-- The word occurs in characters of the template only. -/
def OnlyTemplate (word : List Char) (xs : List Cell) : Prop :=
  ∀ before seg rest, xs = before ++ (seg ++ rest) → seg.map Cell.char = word → ∀ c ∈ seg, c.inTemplate = true

/-! ## Matches -/

section Matches

variable {ch : α → Char} {word : List Char} {ok : α → Bool} {r r' seg rest xs : List α} {previous : Option α}

theorem literal_find : (literal ch word ok r).find previous xs =
    if word ≠ [] ∧ word <+: xs.map ch ∧ (xs.take word.length).all ok = true then some (word.length, r) else none := rfl

theorem literal_forward : (literal ch word ok r).Forward := fun _ _ _ => rfl

theorem literal_matches (h : (literal ch word ok r).Matches previous seg rest r') :
    seg.map ch = word ∧ (∀ c ∈ seg, ok c = true) ∧ r' = r := by
  obtain ⟨_, hfind⟩ := h
  rw [literal_find] at hfind
  split at hfind
  · rename_i hword
    obtain ⟨hlen, rfl⟩ := Prod.mk.inj (Option.some.inj hfind)
    obtain ⟨_, hprefix, hok⟩ := hword
    rw [hlen, List.take_left] at hok
    refine ⟨?_, List.all_eq_true.mp hok, rfl⟩
    rw [List.map_append] at hprefix
    exact (List.prefix_of_prefix_length_le hprefix (List.prefix_append _ _) (by simp [hlen])).eq_of_length
      (by simp [hlen]) |>.symm
  · cases hfind

theorem literal_matches_of (hne : word ≠ []) (hword : seg.map ch = word) (hok : ∀ c ∈ seg, ok c = true) :
    (literal ch word ok r).Matches previous seg rest r := by
  have hlen : word.length = seg.length := by rw [← hword, List.length_map]
  have hprefix : word <+: (seg ++ rest).map ch := by
    rw [List.map_append, hword]
    exact List.prefix_append _ _
  have hall : ((seg ++ rest).take word.length).all ok = true := by
    rw [hlen, List.take_left]
    exact List.all_eq_true.mpr hok
  refine ⟨fun h0 => hne (by rw [← hword, h0]; rfl), ?_⟩
  rw [literal_find, if_pos ⟨hne, hprefix, hall⟩, hlen]

end Matches

/-- The origins do not matter to the replacement. -/
theorem strReplace_map (k : Nat) (e : Entry) (xs : List Cell) :
    (sub (replace k e) xs).map Cell.char = strReplace e.word e.value (xs.map Cell.char) := by
  refine (sub_map Cell.char (fun previous xs => ?_) xs).symm
  rw [replace, literal_find, literal_find]
  simp only [List.map_id, List.all_eq_true, implies_true, and_true]
  split <;> simp [filled, Function.comp_def]

variable {es : List Entry} {e : Entry} {xs ys : List Cell} {k : Nat} {previous : Option Cell}

theorem sequential_snoc (es : List Entry) (e : Entry) (xs : List Cell) :
    sequential (es ++ [e]) xs = sub (replace es.length e) (sequential es xs) := by
  simp [sequential, List.zipIdx_append]

/-! ## Counting the cells of values -/

/-- The cell is of a value with a number below `m`. -/
def below (m : Nat) (c : Cell) : Bool := c.origin.any fun j => decide (j < m)

theorem countP_filled {m : Nat} (h : m ≤ k) (value : List Char) : (filled k value).countP (below m) = 0 := by
  refine List.countP_eq_zero.mpr fun c hc => ?_
  obtain ⟨_, _, rfl⟩ := List.mem_map.mp hc
  simpa [below] using h

theorem not_below_of_inTemplate {m : Nat} {c : Cell} (h : c.inTemplate = true) : below m c = false := by
  rw [Cell.inTemplate, Option.isNone_iff_eq_none] at h
  simp [below, h]

/-- A replacement adds nothing to the values before it. -/
theorem countP_replace_le {m : Nat} (h : m ≤ k) (e : Entry) (xs : List Cell) :
    (sub (replace k e) xs).countP (below m) ≤ xs.countP (below m) := by
  refine (scan_sub _ xs).count_le (below m) fun hmatch => ?_
  rw [(literal_matches hmatch).2.2, countP_filled h]
  exact Nat.zero_le _

/-- In characters of the template it takes nothing from them. -/
theorem le_countP_guarded {m : Nat} (e : Entry) (xs : List Cell) :
    xs.countP (below m) ≤ (sub (guarded k e) xs).countP (below m) := by
  refine (scan_sub _ xs).le_count (below m) fun hmatch => ?_
  rw [List.countP_eq_zero.mpr fun c hc => by simp [not_below_of_inTemplate ((literal_matches hmatch).2.1 c hc)]]
  exact Nat.zero_le _

/-- A match ahead of an occurrence ends before it: there is no brace in it but
the first. -/
theorem match_le_before (he : e.Proper) {seg rest before seg' rest' : List Cell} (hseg : seg.map Cell.char = e.word)
    (hseg' : seg'.map Cell.char = e.word) (hb : before ≠ []) (h : seg' ++ rest' = before ++ (seg ++ rest)) :
    seg'.length ≤ before.length := by
  obtain ⟨w, hw, hnot⟩ := he.brace
  by_contra hlt
  obtain ⟨b, before, rfl⟩ := List.exists_cons_of_ne_nil hb
  obtain ⟨c, seg, rfl⟩ : ∃ c s, seg = c :: s := by
    cases seg with
    | nil => simp [hw] at hseg
    | cons c s => exact ⟨c, s, rfl⟩
  obtain ⟨d, seg', rfl⟩ : ∃ d s, seg' = d :: s := by
    cases seg' with
    | nil => simp [hw] at hseg'
    | cons d s => exact ⟨d, s, rfl⟩
  rw [hw, List.map_cons] at hseg hseg'
  have hc : c.char = '{' := (List.cons.inj hseg).1
  have hrest : seg' ++ rest' = before ++ (c :: (seg ++ rest)) := (List.cons.inj h).2
  have hmem : c ∈ seg' := by
    have htake := congrArg (List.take seg'.length) hrest
    rw [List.take_left, List.take_append] at htake
    rw [htake]
    refine List.mem_append_right _ ?_
    obtain ⟨j, hj⟩ : ∃ j, seg'.length - before.length = j + 1 :=
      Nat.exists_eq_succ_of_ne_zero (by simp only [List.length_cons] at hlt; omega)
    rw [hj, List.take_succ_cons]
    exact List.mem_cons_self
  refine hnot ?_
  rw [← (List.cons.inj hseg').2, ← hc]
  exact List.mem_map_of_mem hmem

/-- **An occurrence is matched**, wherever the reading has come from: what its
cells count is lost. -/
theorem countP_lt_of_occurrence (he : e.Proper) {q : Cell → Bool} (hq : (filled k e.value).countP q = 0)
    (h : Scan (replace k e) previous xs ys) :
    ∀ before seg rest, xs = before ++ (seg ++ rest) → seg.map Cell.char = e.word → (∃ c ∈ seg, q c = true) →
      ys.countP q < xs.countP q := by
  have hword : e.word ≠ [] := by
    obtain ⟨w, hw, _⟩ := he.brace
    simp [hw]
  have hle : ∀ {previous xs ys}, Scan (replace k e) previous xs ys → ys.countP q ≤ xs.countP q :=
    fun hscan => hscan.count_le q fun hmatch => by rw [(literal_matches hmatch).2.2, hq]; exact Nat.zero_le _
  induction h with
  | done =>
    rintro before seg rest hxs hseg ⟨c, hc, _⟩
    obtain ⟨-, h⟩ := List.append_eq_nil_iff.mp hxs.symm
    rw [(List.append_eq_nil_iff.mp h).1] at hc
    cases hc
  | @keep previous c xs ys hnone _ ih =>
    intro before seg rest hxs hseg hcell
    cases before with
    | nil =>
      have hmatch : (literal Cell.char e.word (fun _ => true) (filled k e.value)).Matches previous seg rest
          (filled k e.value) := literal_matches_of hword hseg fun _ _ => rfl
      rw [List.nil_append] at hxs
      rw [hxs] at hnone
      exact absurd (hmatch.2.symm.trans hnone) (by simp)
    | cons b before =>
      obtain ⟨rfl, hrest⟩ := List.cons.inj hxs
      have := ih before seg rest hrest hseg hcell
      rw [List.countP_cons, List.countP_cons]
      omega
  | @replace previous seg' rest' r ys hmatch hscan ih =>
    intro before seg rest hxs hseg hcell
    obtain ⟨hseg', _, rfl⟩ := literal_matches hmatch
    rw [List.countP_append, List.countP_append, hq]
    by_cases hb : before = []
    · subst hb
      rw [List.nil_append] at hxs
      obtain ⟨rfl, -⟩ := List.append_inj hxs (by
        rw [← List.length_map (f := Cell.char), hseg', ← hseg, List.length_map])
      have := List.countP_pos_iff.mpr hcell
      have := hle hscan
      omega
    · have hlen := match_le_before he hseg hseg' hb hxs
      obtain ⟨before', rfl, hrest⟩ : ∃ b', before = seg' ++ b' ∧ rest' = b' ++ (seg ++ rest) := by
        rcases List.append_eq_append_iff.mp hxs with ⟨b', h1, h2⟩ | ⟨b', h1, h2⟩
        · exact ⟨b', h1, h2⟩
        · have hb' : b' = [] := by
            have := congrArg List.length h1
            rw [List.length_append] at this
            exact List.length_eq_zero_iff.mp (by omega)
          subst hb'
          exact ⟨[], by simpa using h1.symm, by simpa using h2.symm⟩
      have := ih before' seg rest hrest hseg hcell
      omega

/-! ## In characters of the template -/

/-- Two patterns that find the same find the same everywhere. -/
theorem subFrom_congr {p p' : Pattern α} (skip : Nat) (previous : Option α) (xs : List α)
    (h : ∀ before rest previous, xs = before ++ rest → p.find previous rest = p'.find previous rest) :
    subFrom p skip previous xs = subFrom p' skip previous xs := by
  induction xs generalizing skip previous with
  | nil => cases skip <;> rfl
  | cons c xs ih =>
    have hrest : ∀ before rest previous, xs = before ++ rest → p.find previous rest = p'.find previous rest :=
      fun before rest previous hxs => h (c :: before) rest previous (congrArg _ hxs)
    cases skip with
    | succ skip => exact ih skip (some c) hrest
    | zero =>
      have hfirst := h [] (c :: xs) previous rfl
      simp only [subFrom, hfirst]
      split
      · rw [ih 0 _ hrest]
      · rw [ih _ _ hrest]

/-- Where the word occurs in characters of the template only, the guard does
not matter. -/
theorem replace_eq_guarded (h : OnlyTemplate e.word xs) : sub (replace k e) xs = sub (guarded k e) xs := by
  refine subFrom_congr 0 none xs fun before rest previous hxs => ?_
  rw [replace, guarded, literal_find, literal_find]
  by_cases hword : e.word ≠ [] ∧ e.word <+: rest.map Cell.char
  · have hocc : ∀ c ∈ rest.take e.word.length, c.inTemplate = true := by
      refine h before _ (rest.drop e.word.length) (by rw [List.take_append_drop]; exact hxs) ?_
      rw [List.map_take]
      exact (List.prefix_iff_eq_take.mp hword.2).symm
    rw [if_pos ⟨hword.1, hword.2, by simp⟩, if_pos ⟨hword.1, hword.2, List.all_eq_true.mpr hocc⟩]
  · rw [if_neg fun hc => hword ⟨hc.1, hc.2.1⟩, if_neg fun hc => hword ⟨hc.1, hc.2.1⟩]

/-! ## At once -/

theorem findAny_some {r : List Cell} {n : Nat} :
    ∀ {k : Nat}, findAny k es xs = some (n, r) → ∃ j e, e ∈ es ∧ r = filled j e.value ∧ e.word <+: xs.map Cell.char ∧
      k ≤ j ∧ j < k + es.length := by
  induction es with
  | nil =>
    intro k h
    cases h
  | cons e es ih =>
    intro k h
    rw [findAny] at h
    split at h
    · rename_i hword
      obtain ⟨rfl, rfl⟩ := Prod.mk.inj (Option.some.inj h)
      exact ⟨k, e, List.mem_cons_self, rfl, hword.2, Nat.le_refl k, by simp⟩
    · obtain ⟨j, e', he', hr, hprefix, hk, hj⟩ := ih h
      exact ⟨j, e', List.mem_cons_of_mem e he', hr, hprefix, by omega, by rw [List.length_cons]; omega⟩

theorem findAny_snoc (es : List Entry) (e : Entry) (xs : List Cell) :
    ∀ k, findAny k (es ++ [e]) xs = (findAny k es xs).or
      (if e.word ≠ [] ∧ e.word <+: xs.map Cell.char then some (e.word.length, filled (k + es.length) e.value)
        else none) := by
  induction es with
  | nil =>
    intro k
    simp [findAny]
  | cons e' es ih =>
    intro k
    rw [List.cons_append, findAny, findAny, ih (k + 1), List.length_cons]
    split
    · rfl
    · rw [show k + 1 + es.length = k + (es.length + 1) by omega]

theorem anyOf_forward : (anyOf es).Forward := fun _ _ _ => rfl

/-- The values put in have the numbers of the entries. -/
theorem origin_lt (h : Scan (anyOf es) previous xs ys) (hxs : ∀ c ∈ xs, ∀ j ∈ c.origin, j < es.length) :
    ∀ c ∈ ys, ∀ j ∈ c.origin, j < es.length := by
  induction h with
  | done => exact hxs
  | keep _ _ ih =>
    have ⟨hc, hrest⟩ := List.forall_mem_cons.mp hxs
    exact List.forall_mem_cons.mpr ⟨hc, ih hrest⟩
  | replace hmatch _ ih =>
    refine List.forall_mem_append.mpr ⟨?_, ih (List.forall_mem_append.mp hxs).2⟩
    obtain ⟨j, e, _, rfl, _, _, hj⟩ := findAny_some hmatch.2
    intro c hc j' hj'
    obtain ⟨_, _, rfl⟩ := List.mem_map.mp hc
    obtain rfl : j = j' := by simpa using hj'
    omega

theorem origin_template (text : List Char) : ∀ c ∈ template text, c.origin = none := by
  intro c hc
  obtain ⟨_, _, rfl⟩ := List.mem_map.mp hc
  rfl

/-- Characters of the template at the front of a result are those at the front
of the text: a value comes between where there was a placeholder. -/
theorem take_of_inTemplate (hes : ∀ e ∈ es, e.Proper) (k : Nat) (xs : List Cell)
    (h : ∀ c ∈ (sub (anyOf es) xs).take k, c.inTemplate = true) (hk : k ≤ (sub (anyOf es) xs).length) :
    (sub (anyOf es) xs).take k = xs.take k := by
  induction k generalizing xs with
  | zero => rfl
  | succ k ih =>
    cases xs with
    | nil => rfl
    | cons c xs =>
      cases hfind : (anyOf es).find none (c :: xs) with
      | some found =>
        obtain ⟨n, r⟩ := found
        obtain ⟨j, e, he, rfl, _⟩ := findAny_some hfind
        rw [sub_of_find anyOf_forward hfind] at h
        obtain ⟨v, value, hv⟩ := List.exists_cons_of_ne_nil (hes e he).value
        have := h ⟨v, some j⟩ (by simp [hv, filled])
        cases this
      | none =>
        rw [sub_cons_of_none anyOf_forward hfind] at h hk ⊢
        rw [List.take_succ_cons, List.take_succ_cons, ih xs ?_ ?_]
        · exact fun d hd => h d (by rw [List.take_succ_cons]; exact List.mem_cons_of_mem c hd)
        · simpa using hk

/-- No placeholder starts behind the first character of another one. -/
theorem skips_word (hes : ∀ e ∈ es, e.Proper) (he : e.Proper) {c : Cell} {seg rest : List Cell}
    (hseg : (c :: seg).map Cell.char = e.word) (hnone : (anyOf es).find none (c :: (seg ++ rest)) = none) :
    (anyOf es).Skips none (c :: seg) rest := by
  obtain ⟨w, hw, hnot⟩ := he.brace
  rw [hw, List.map_cons] at hseg
  have hsegw := (List.cons.inj hseg).2
  refine ⟨hnone, skips_of_forall fun d hd previous ys => ?_⟩
  cases hfind : (anyOf es).find previous (d :: ys) with
  | none => rfl
  | some found =>
    obtain ⟨n, r⟩ := found
    obtain ⟨j, e', he', _, hprefix, _⟩ := findAny_some hfind
    obtain ⟨w', hw', _⟩ := (hes e' he').brace
    rw [hw', List.map_cons, List.cons_prefix_cons] at hprefix
    refine absurd ?_ hnot
    rw [← hsegw, hprefix.1]
    exact List.mem_map_of_mem hd

/-- **One more placeholder**: filled in behind the others, in characters of the
template. -/
theorem simultaneous_snoc (hes : ∀ e ∈ es, e.Proper) (he : e.Proper) (xs : List Cell)
    (hxs : ∀ c ∈ xs, c.origin = none) :
    sub (guarded es.length e) (simultaneous es xs) = simultaneous (es ++ [e]) xs := by
  have hword : e.word ≠ [] := by
    obtain ⟨w, hw, _⟩ := he.brace
    simp [hw]
  have hfwd : (guarded es.length e).Forward := literal_forward
  induction hn : xs.length using Nat.strongRecOn generalizing xs with
  | ind n ih =>
    subst hn
    cases xs with
    | nil => rfl
    | cons c xs =>
      have hsnoc : (anyOf (es ++ [e])).find none (c :: xs) = ((anyOf es).find none (c :: xs)).or
          (if e.word ≠ [] ∧ e.word <+: (c :: xs).map Cell.char then
            some (e.word.length, filled (0 + es.length) e.value) else none) := findAny_snoc es e (c :: xs) 0
      rw [Nat.zero_add] at hsnoc
      have hdrop : ∀ m, 0 < m → sub (guarded es.length e) (simultaneous es ((c :: xs).drop m)) =
          simultaneous (es ++ [e]) ((c :: xs).drop m) := fun m hm =>
        ih _ (by rw [List.length_drop, List.length_cons]; omega) _ (fun d hd => hxs d (List.mem_of_mem_drop hd)) rfl
      cases hfind : (anyOf es).find none (c :: xs) with
      | some found =>
        obtain ⟨m, r⟩ := found
        obtain ⟨hm, _⟩ := (anyOf es).bounds hfind
        obtain ⟨j, e', _, hr, _⟩ := findAny_some hfind
        have hskips : (guarded es.length e).Skips none r (simultaneous es ((c :: xs).drop m)) := by
          refine skips_of_forall fun d hd previous ys => ?_
          rw [hr] at hd
          obtain ⟨_, _, rfl⟩ := List.mem_map.mp hd
          rw [guarded, literal_find, if_neg]
          rintro ⟨_, _, hok⟩
          obtain ⟨m, hm⟩ : ∃ m, e.word.length = m + 1 :=
            Nat.exists_eq_succ_of_ne_zero (by simpa using hword)
          rw [hm, List.take_succ_cons] at hok
          simp [Cell.inTemplate] at hok
        rw [hfind, Option.some_or] at hsnoc
        have hsim : simultaneous es (c :: xs) = r ++ simultaneous es ((c :: xs).drop m) :=
          sub_of_find anyOf_forward hfind
        have hnext : simultaneous (es ++ [e]) (c :: xs) = r ++ simultaneous (es ++ [e]) ((c :: xs).drop m) :=
          sub_of_find anyOf_forward hsnoc
        rw [hsim, hnext]
        exact (sub_of_skips hfwd hskips).trans (congrArg _ (hdrop m hm))
      | none =>
        rw [hfind, Option.none_or] at hsnoc
        by_cases hhere : e.word <+: (c :: xs).map Cell.char
        · rw [if_pos ⟨hword, hhere⟩] at hsnoc
          have hpos : 0 < e.word.length := List.length_pos_iff.mpr hword
          obtain ⟨hm, hle⟩ := (anyOf (es ++ [e])).bounds hsnoc
          have hseg : ((c :: xs).take e.word.length).map Cell.char = e.word := by
            rw [List.map_take]
            exact (List.prefix_iff_eq_take.mp hhere).symm
          have hsplit := List.take_append_drop e.word.length (c :: xs)
          obtain ⟨m, hm'⟩ : ∃ m, e.word.length = m + 1 := Nat.exists_eq_succ_of_ne_zero (by omega)
          have hcons : (c :: xs).take e.word.length = c :: xs.take m := by rw [hm', List.take_succ_cons]
          have hskips : (anyOf es).Skips none ((c :: xs).take e.word.length) ((c :: xs).drop e.word.length) := by
            rw [hcons] at hseg hsplit ⊢
            refine skips_word hes he hseg ?_
            rw [← List.cons_append, hsplit]
            exact hfind
          have hsim : simultaneous es (c :: xs) =
              (c :: xs).take e.word.length ++ simultaneous es ((c :: xs).drop e.word.length) := by
            have := sub_of_skips anyOf_forward hskips
            rwa [hsplit] at this
          have hmatch : (literal Cell.char e.word Cell.inTemplate (filled es.length e.value)).Matches none
              ((c :: xs).take e.word.length) (simultaneous es ((c :: xs).drop e.word.length))
              (filled es.length e.value) :=
            literal_matches_of hword hseg fun d hd => by
              rw [Cell.inTemplate, hxs d (List.mem_of_mem_take hd)]
              rfl
          have hnext : simultaneous (es ++ [e]) (c :: xs) =
              filled es.length e.value ++ simultaneous (es ++ [e]) ((c :: xs).drop e.word.length) :=
            sub_of_find anyOf_forward hsnoc
          rw [hsim, hnext]
          exact (sub_of_match hfwd hmatch).trans (congrArg _ (hdrop _ hpos))
        · rw [if_neg fun hc => hhere hc.2] at hsnoc
          have hcons : simultaneous es (c :: xs) = c :: simultaneous es xs := sub_cons_of_none anyOf_forward hfind
          have hnone : (guarded es.length e).find none (c :: simultaneous es xs) = none := by
            rw [guarded, literal_find, if_neg]
            rintro ⟨_, hprefix, hok⟩
            refine hhere ?_
            rw [← hcons] at hprefix hok
            have hlen : e.word.length ≤ (simultaneous es (c :: xs)).length := by simpa using hprefix.length_le
            have htake : (simultaneous es (c :: xs)).take e.word.length = (c :: xs).take e.word.length :=
              take_of_inTemplate hes e.word.length (c :: xs) (List.all_eq_true.mp hok) hlen
            have heq := List.prefix_iff_eq_take.mp hprefix
            rw [← List.map_take, htake, List.map_take] at heq
            exact List.prefix_iff_eq_take.mpr heq
          have hnext : simultaneous (es ++ [e]) (c :: xs) = c :: simultaneous (es ++ [e]) xs :=
            sub_cons_of_none anyOf_forward hsnoc
          rw [hcons, sub_cons_of_none hfwd hnone, hnext]
          exact congrArg _ (hdrop 1 Nat.one_pos)

/-! ## One after the other -/

/-- Each placeholder, in the text with the earlier ones filled in, occurs in
characters of the template only. -/
def Apart (entries : List Entry) (text : List Cell) : Prop :=
  ∀ k (h : k < entries.length), OnlyTemplate entries[k].word (simultaneous (entries.take k) text)

theorem apart_snoc (h : Apart es xs) (he : OnlyTemplate e.word (simultaneous es xs)) : Apart (es ++ [e]) xs := by
  intro k hk
  rw [List.length_append, List.length_singleton] at hk
  by_cases hlt : k < es.length
  · rw [List.getElem_append_left hlt, List.take_append_of_le_length (by omega)]
    exact h k hlt
  · obtain rfl : k = es.length := by omega
    rw [List.getElem_append_right (Nat.le_refl _), List.take_left]
    simpa using he

theorem apart_of_snoc (h : Apart (es ++ [e]) xs) : Apart es xs ∧ OnlyTemplate e.word (simultaneous es xs) := by
  constructor
  · intro k hk
    have := h k (by rw [List.length_append]; omega)
    rwa [List.getElem_append_left hk, List.take_append_of_le_length (by omega)] at this
  · have := h es.length (by simp)
    rw [List.getElem_append_right (Nat.le_refl _), List.take_left] at this
    simpa using this

/-- At once, or cells of an earlier value have been lost. -/
theorem sequential_cases (xs : List Cell) (hxs : ∀ c ∈ xs, c.origin = none) (es : List Entry)
    (hes : ∀ e ∈ es, e.Proper) :
    (Apart es xs ∧ sequential es xs = simultaneous es xs) ∨
      (¬ Apart es xs ∧ ∃ m ≤ es.length,
        (sequential es xs).countP (below m) < (simultaneous es xs).countP (below m)) := by
  induction es using List.reverseRecOn with
  | nil =>
    have hnil : simultaneous [] xs = xs := sub_of_absent fun _ _ _ _ => rfl
    exact .inl ⟨fun k hk => absurd hk (Nat.not_lt_zero k), hnil.symm⟩
  | append_singleton es e ih =>
    have hes' : ∀ e ∈ es, e.Proper := fun e he => hes e (List.mem_append_left _ he)
    have he : e.Proper := hes e (List.mem_append_right _ (List.mem_singleton_self e))
    have hsnoc := simultaneous_snoc hes' he xs hxs
    rw [sequential_snoc, ← hsnoc, List.length_append]
    rcases ih hes' with ⟨hapart, heq⟩ | ⟨hnot, m, hm, hlt⟩
    · rw [heq]
      by_cases honly : OnlyTemplate e.word (simultaneous es xs)
      · exact .inl ⟨apart_snoc hapart honly, replace_eq_guarded honly⟩
      · refine .inr ⟨fun h => honly (apart_of_snoc h).2, es.length, Nat.le_add_right _ _, ?_⟩
        -- an occurrence with a cell of a value, of which all numbers are below that of the entry
        simp only [OnlyTemplate, not_forall] at honly
        obtain ⟨before, seg, rest, hsplit, hseg, c, hc, hcell⟩ := honly
        have horigin := origin_lt (scan_sub (anyOf es) xs) fun c hc j hj => by rw [hxs c hc] at hj; cases hj
        have hbelow : below es.length c = true := by
          obtain ⟨j, hj⟩ : ∃ j, c.origin = some j := by
            rw [Cell.inTemplate, Option.isNone_iff_eq_none] at hcell
            exact Option.ne_none_iff_exists'.mp hcell
          have hmem : c ∈ simultaneous es xs := by
            rw [hsplit]
            exact List.mem_append_right _ (List.mem_append_left _ hc)
          simpa [below, hj] using horigin c hmem j hj
        calc (sub (replace es.length e) (simultaneous es xs)).countP (below es.length)
            < (simultaneous es xs).countP (below es.length) :=
              countP_lt_of_occurrence he (countP_filled (Nat.le_refl _) _) (scan_sub _ _) before seg rest hsplit hseg
                ⟨c, hc, hbelow⟩
          _ ≤ _ := le_countP_guarded e _
    · refine .inr ⟨fun h => hnot (apart_of_snoc h).1, m, by omega, ?_⟩
      calc (sub (replace es.length e) (sequential es xs)).countP (below m)
          ≤ (sequential es xs).countP (below m) := countP_replace_le hm e _
        _ < (simultaneous es xs).countP (below m) := hlt
        _ ≤ _ := le_countP_guarded e _

/-- **One after the other is at once** exactly if the placeholders stay apart
from the values. -/
theorem sequential_eq_iff (hes : ∀ e ∈ es, e.Proper) (hxs : ∀ c ∈ xs, c.origin = none) :
    sequential es xs = simultaneous es xs ↔ Apart es xs := by
  rcases sequential_cases xs hxs es hes with ⟨h, heq⟩ | ⟨h, m, _, hlt⟩
  · exact iff_of_true heq h
  · exact iff_of_false (fun heq => absurd hlt (by rw [heq]; exact Nat.lt_irrefl _)) h

end ContextBroker.Placeholders
