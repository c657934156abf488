import ContextBroker.L3Assembly.Cleaning

/-!
# Fences in a text of several pieces

`_CODE_BLOCK_RE` pairs the fences of a text as they come. A piece of it that
leaves a fence open loses what follows, up to the next fence in whatever
piece that is; `_INLINE_CODE_RE` does not go over a line.

* `codeBlock_append`: a piece with its fences in pairs, or with the last
  fences of the text, is read for itself.
* `sub_codeBlock_odd`: what an open fence takes.
* `findInlineCode_append`: a span ends with its line.
-/
namespace ContextBroker.Cleaning

open Substitute

/-! ## Fences -/

section Fences

variable {α : Type} (ch : α → Char)

/-- The fences of a text, read from the left. -/
def fences : List α → Nat
  | a :: b :: c :: rest =>
    if startsFence ch (a :: b :: c :: rest) then fences rest + 1 else fences (b :: c :: rest)
  | _ => 0

/-- No back-tick comes next. -/
def NoTickNext (xs : List α) : Prop := ∀ c ∈ xs.head?, ch c ≠ '`'

variable {ch} {xs ys rest fence : List α} {c : α} {k : Nat}

theorem startsFence_append_self (hall : All ch '`' fence) (hlen : fence.length = 3) (rest : List α) :
    startsFence ch (fence ++ rest) = true := by
  have hrep : fence.map ch = List.replicate 3 '`' := hlen ▸ List.map_eq_replicate_iff.mpr hall
  rw [startsFence, List.take_left' hlen, hrep]
  rfl

theorem fences_fence (hall : All ch '`' fence) (hlen : fence.length = 3) (rest : List α) :
    fences ch (fence ++ rest) = fences ch rest + 1 := by
  have hstarts := startsFence_append_self hall hlen rest
  obtain ⟨a, b, c, rfl⟩ := List.length_eq_three.mp hlen
  exact if_pos hstarts

theorem fences_cons (h : startsFence ch (c :: xs) = false) : fences ch (c :: xs) = fences ch xs := by
  cases xs with
  | nil => rfl
  | cons b xs =>
    cases xs with
    | nil => rfl
    | cons d xs => exact if_neg (by rw [h]; exact Bool.false_ne_true)

/-- Behind the last fence there is none. -/
theorem toFence_eq_none : toFence ch xs = none ↔ fences ch xs = 0 := by
  induction xs with
  | nil => exact ⟨fun _ => rfl, fun _ => rfl⟩
  | cons c xs ih =>
    cases hstarts : startsFence ch (c :: xs) with
    | true =>
      obtain ⟨fence, rest, hsplit, hall, hlen⟩ := startsFence_eq hstarts
      rw [toFence, hstarts, hsplit, fences_fence hall hlen]
      simp
    | false =>
      rw [toFence, hstarts, fences_cons hstarts, ← ih]
      simp

theorem fences_to_fence (h : toFence ch xs = some k) : fences ch xs = fences ch (xs.drop k) := by
  induction xs generalizing k with
  | nil => cases h
  | cons c xs ih =>
    cases hstarts : startsFence ch (c :: xs) with
    | true =>
      rw [toFence, hstarts] at h
      obtain rfl := Option.some.inj h
      rfl
    | false =>
      rw [toFence, hstarts] at h
      obtain ⟨k, hk, rfl⟩ := Option.map_eq_some_iff.mp h
      rw [fences_cons hstarts, ih hk]
      rfl

/-- What follows does not make a fence with the end of a text. -/
theorem startsFence_append (hnext : NoTickNext ch rest) (xs : List α) :
    startsFence ch (xs ++ rest) = startsFence ch xs := by
  match xs with
  | a :: b :: c :: xs => rfl
  | [] | [a] | [a, b] =>
    cases rest with
    | nil => rfl
    | cons r rest =>
      have hr : ch r ≠ '`' := hnext r rfl
      simp [startsFence, hr]

theorem toFence_append (hnext : NoTickNext ch rest) (xs : List α) :
    toFence ch (xs ++ rest) = (toFence ch xs).or ((toFence ch rest).map (· + xs.length)) := by
  induction xs with
  | nil => simp [toFence]
  | cons c xs ih =>
    have hstarts := startsFence_append hnext (c :: xs)
    rw [List.cons_append] at hstarts ⊢
    rw [toFence, toFence, hstarts, ih]
    split
    · rfl
    · rw [Option.map_or, Option.map_map]
      rfl

/-- The fence that `toFence` finds is one of the text. -/
theorem fences_drop (h : toFence ch xs = some k) : fences ch xs = fences ch (xs.drop (k + 3)) + 1 := by
  obtain ⟨body, after, rfl, rfl, hstarts⟩ := toFence_eq h
  obtain ⟨fence, after, rfl, hall, hlen⟩ := startsFence_eq hstarts
  rw [fences_to_fence h, List.drop_left, fences_fence hall hlen, ← List.drop_drop, List.drop_left, List.drop_left' hlen]

theorem fences_append (hnext : NoTickNext ch rest) (xs : List α) :
    fences ch (xs ++ rest) = fences ch xs + fences ch rest := by
  induction hn : xs.length using Nat.strongRecOn generalizing xs with
  | ind n ih =>
    subst hn
    cases xs with
    | nil => exact (Nat.zero_add _).symm
    | cons c xs =>
      cases hstarts : startsFence ch (c :: xs) with
      | false =>
        have hover := startsFence_append hnext (c :: xs) ▸ hstarts
        rw [List.cons_append] at hover ⊢
        rw [fences_cons hover, fences_cons hstarts, ih xs.length (Nat.lt_succ_self _) xs rfl]
      | true =>
        obtain ⟨fence, body, hsplit, hall, hlen⟩ := startsFence_eq hstarts
        rw [hsplit, List.append_assoc, fences_fence hall hlen, fences_fence hall hlen,
          ih body.length (by rw [hsplit, List.length_append]; omega) body rfl]
        omega

/-- A text has no fewer fences than what is behind its first cell. -/
theorem fences_cons_le (c : α) (xs : List α) : fences ch xs ≤ fences ch (c :: xs) := by
  induction hn : xs.length using Nat.strongRecOn generalizing c xs with
  | ind n ih =>
    subst hn
    cases hstarts : startsFence ch (c :: xs) with
    | false => rw [fences_cons hstarts]
    | true =>
      -- the second and the third cell of the fence may open one with what follows
      obtain ⟨fence, body, hsplit, hall, hlen⟩ := startsFence_eq hstarts
      obtain ⟨a, b, d, rfl⟩ := List.length_eq_three.mp hlen
      rw [hsplit, fences_fence hall hlen]
      obtain ⟨rfl, rfl⟩ := List.cons.inj hsplit
      change fences ch (b :: d :: body) ≤ _
      cases hsecond : startsFence ch (b :: d :: body) with
      | true =>
        obtain ⟨fence, rest, hsplit, hall, hlen⟩ := startsFence_eq hsecond
        obtain ⟨_, _, e, rfl⟩ := List.length_eq_three.mp hlen
        rw [hsplit, fences_fence hall hlen]
        obtain ⟨rfl, rfl, rfl⟩ : _ ∧ _ ∧ body = e :: rest := by simpa using hsplit
        have hrest := ih rest.length (by simp; omega) e rest rfl
        omega
      | false =>
        rw [fences_cons hsecond]
        cases hthird : startsFence ch (d :: body) with
        | true =>
          obtain ⟨fence, rest, hsplit, hall, hlen⟩ := startsFence_eq hthird
          obtain ⟨_, e, f, rfl⟩ := List.length_eq_three.mp hlen
          rw [hsplit, fences_fence hall hlen]
          obtain ⟨rfl, rfl⟩ : _ ∧ body = e :: f :: rest := by simpa using hsplit
          have hrest := ih rest.length (by simp; omega) f rest rfl
          have hrest' := ih (f :: rest).length (by simp) e (f :: rest) rfl
          omega
        | false =>
          rw [fences_cons hthird]
          omega

theorem fences_map (xs : List α) : fences id (xs.map ch) = fences ch xs := by
  induction hn : xs.length using Nat.strongRecOn generalizing xs with
  | ind n ih =>
    subst hn
    cases xs with
    | nil => rfl
    | cons c xs =>
      have hsame := @startsFence_map α ch (c :: xs)
      cases hstarts : startsFence ch (c :: xs) with
      | false =>
        rw [hstarts, List.map_cons] at hsame
        rw [List.map_cons, fences_cons hsame, fences_cons hstarts, ih xs.length (Nat.lt_succ_self _) xs rfl]
      | true =>
        obtain ⟨fence, body, hsplit, hall, hlen⟩ := startsFence_eq hstarts
        have hall' : All id '`' (fence.map ch) := fun d hd => by
          obtain ⟨e, he, rfl⟩ := List.mem_map.mp hd
          exact hall e he
        rw [hsplit, List.map_append, fences_fence hall' (by rw [List.length_map, hlen]), fences_fence hall hlen,
          ih body.length (by rw [hsplit, List.length_append]; omega) body rfl]

/-! ### What the first pattern takes -/

variable {lit : Char → α} {previous : Option α}

theorem codeBlock_forward : (codeBlock ch lit).Forward := fun _ _ _ => rfl

theorem findCodeBlock_of_not (h : startsFence ch xs = false) : findCodeBlock ch lit previous xs = none := by
  rw [findCodeBlock, h]
  rfl

theorem findCodeBlock_fence (hall : All ch '`' fence) (hlen : fence.length = 3) (body : List α) :
    findCodeBlock ch lit previous (fence ++ body) =
      (toFence ch body).map fun n => (n + 6, "[code block removed]".toList.map lit) := by
  rw [findCodeBlock, startsFence_append_self hall hlen, List.drop_left' hlen]
  rfl

/-- A block of the text stays a block, and an open fence finds its end behind
the text. -/
theorem findCodeBlock_append (hnext : NoTickNext ch rest) (xs : List α) :
    findCodeBlock ch lit previous (xs ++ rest) = (findCodeBlock ch lit previous xs).or
      (if startsFence ch xs then
        (toFence ch rest).map fun n => (n + xs.length + 3, "[code block removed]".toList.map lit)
      else none) := by
  cases hstarts : startsFence ch xs with
  | false => rw [findCodeBlock_of_not hstarts, findCodeBlock_of_not (startsFence_append hnext xs ▸ hstarts)]; rfl
  | true =>
    obtain ⟨fence, body, rfl, hall, hlen⟩ := startsFence_eq hstarts
    rw [List.append_assoc, findCodeBlock_fence hall hlen, findCodeBlock_fence hall hlen, toFence_append hnext,
      Option.map_or, Option.map_map, if_pos rfl, List.length_append, hlen]
    congr 2
    funext n
    simp only [Function.comp_apply, Prod.mk.injEq, and_true]
    omega

/-- A block has two fences. -/
theorem fences_match {seg r : List α} (h : (codeBlock ch lit).Matches none seg xs r) :
    fences ch (seg ++ xs) = fences ch xs + 2 := by
  obtain ⟨hstarts, hfound⟩ := Option.ite_none_right_eq_some.mp h.2
  obtain ⟨k, hk, hfound⟩ := Option.map_eq_some_iff.mp hfound
  obtain ⟨hlen, -⟩ := Prod.mk.inj hfound
  obtain ⟨fence, body, hsplit, hall, hthree⟩ := startsFence_eq hstarts
  rw [hsplit, List.drop_left' hthree] at hk
  have hxs : body.drop (k + 3) = xs := by
    have hdrop : (seg ++ xs).drop (3 + (k + 3)) = xs := List.drop_left' (by omega)
    rwa [hsplit, ← List.drop_drop, List.drop_left' hthree] at hdrop
  rw [hsplit, fences_fence hall hthree, fences_drop hk, hxs]

/-- A fence that opens no block is the last one. -/
theorem fences_open (h : findCodeBlock ch lit previous xs = none) (hstarts : startsFence ch xs = true) :
    fences ch xs = 1 := by
  obtain ⟨fence, body, rfl, hall, hlen⟩ := startsFence_eq hstarts
  rw [findCodeBlock_fence hall hlen, Option.map_eq_none_iff, toFence_eq_none] at h
  rw [fences_fence hall hlen, h]

/-- **A content with its fences in pairs**, or with the last fences of the
text, is read for itself. -/
theorem codeBlock_append (hnext : NoTickNext ch rest) (h : fences ch xs % 2 = 0 ∨ fences ch rest = 0) :
    sub (codeBlock ch lit) (xs ++ rest) = sub (codeBlock ch lit) xs ++ sub (codeBlock ch lit) rest ∧
      taken (codeBlock ch lit) (xs ++ rest) = taken (codeBlock ch lit) xs ++ taken (codeBlock ch lit) rest := by
  have happend := (scan_sub (codeBlock ch lit) xs).append rest
    (fun _ ys => fences ch ys % 2 = 0 ∨ fences ch rest = 0) (fun a c ys hQ => ?_) (fun a c ys hQ hnone => ?_)
    (fun a seg ys r hQ hm => ?_) h
  · rwa [subFrom_forward codeBlock_forward 0 (behind none xs) none rest,
      takenFrom_forward codeBlock_forward 0 (behind none xs) none rest] at happend
  · have hover := @findCodeBlock_append α ch rest lit a hnext (c :: ys)
    refine hover.trans (Eq.trans ?_ (Option.or_none (o := (codeBlock ch lit).find a (c :: ys))))
    cases hfind : (codeBlock ch lit).find a (c :: ys) with
    | some found => rw [show findCodeBlock ch lit a (c :: ys) = some found from hfind]; rfl
    | none =>
      have hnone : findCodeBlock ch lit a (c :: ys) = none := hfind
      rw [hnone, Option.none_or, Option.none_or]
      refine ite_eq_right_iff.mpr fun hstarts => ?_
      have hone := fences_open hnone hstarts
      rw [toFence_eq_none.mpr (hQ.resolve_left (by omega))]
      rfl
  · cases hstarts : startsFence ch (c :: ys) with
    | false => rwa [fences_cons hstarts] at hQ
    | true =>
      have hone := @fences_open α ch (c :: ys) lit a hnone hstarts
      exact .inr (hQ.resolve_left (by omega))
  · have htwo := @fences_match α ch ys lit seg r hm
    exact hQ.imp_left fun heven => by omega

/-- No block begins in a text without fences. -/
theorem skips_codeBlock (hnext : NoTickNext ch rest) (hxs : fences ch xs = 0) :
    (codeBlock ch lit).Skips previous xs rest := by
  induction xs generalizing previous with
  | nil => trivial
  | cons c xs ih =>
    cases hstarts : startsFence ch (c :: xs) with
    | true =>
      obtain ⟨fence, body, hsplit, hall, hlen⟩ := startsFence_eq hstarts
      rw [hsplit, fences_fence hall hlen] at hxs
      cases hxs
    | false =>
      have hover := startsFence_append hnext (c :: xs) ▸ hstarts
      rw [fences_cons hstarts] at hxs
      exact ⟨@findCodeBlock_of_not α ch _ lit previous hover, ih hxs⟩

/-- A fence that begins no block is the last one. -/
theorem fences_of_skips (hnext : NoTickNext ch rest) (hxs : fences ch xs ≠ 0)
    (h : (codeBlock ch lit).Skips previous xs rest) : fences ch (xs ++ rest) = 1 := by
  induction xs generalizing previous with
  | nil => exact absurd rfl hxs
  | cons c xs ih =>
    have hover := startsFence_append hnext (c :: xs)
    cases hstarts : startsFence ch (c :: xs) with
    | true => exact @fences_open α ch (c :: xs ++ rest) lit previous h.1 (hover.trans hstarts)
    | false =>
      rw [fences_cons hstarts] at hxs
      rw [hstarts, List.cons_append] at hover
      rw [List.cons_append, fences_cons hover, ih hxs h.2]

/-- A single fence is left as it is. -/
theorem codeBlock_of_le_one {ys : List α} (h : Scan (codeBlock ch lit) previous xs ys)
    (hone : fences ch xs ≤ 1) : ys = xs ∧ takenFrom (codeBlock ch lit) 0 previous xs = [] := by
  induction h with
  | done => exact ⟨rfl, rfl⟩
  | @keep _ c xs ys hnone _ ih =>
    obtain ⟨rfl, htaken⟩ := ih ((fences_cons_le c xs).trans hone)
    exact ⟨rfl, (takenFrom_of_none hnone).trans htaken⟩
  | @replace _ seg xs r ys hm _ _ =>
    have htwo := @fences_match α ch xs lit seg r hm
    omega

section Counts

variable {q : α → Bool} (hq : ∀ c, q (lit c) = false)

include hq

theorem countP_lits (text : Text) : (text.map lit).countP q = 0 := by
  rw [List.countP_map, List.countP_eq_zero]
  exact fun c _ => by simp [hq]

/-- **A content that leaves a fence open** loses what follows, up to the next
fence. -/
theorem sub_codeBlock_odd (hnext : NoTickNext ch rest) (hto : toFence ch rest = some k)
    (h : Scan (codeBlock ch lit) previous xs ys) (hodd : fences ch xs % 2 = 1) :
    ∃ left, sub (codeBlock ch lit) (xs ++ rest) = left ++ sub (codeBlock ch lit) (rest.drop (k + 3)) ∧
      left.countP q ≤ xs.countP q := by
  induction h with
  | done => cases hodd
  | @keep previous c xs ys hnone _ ih =>
    have hfind : findCodeBlock ch lit none (c :: xs) = none := hnone
    have hover := @findCodeBlock_append α ch rest lit none hnext (c :: xs)
    rw [hfind, Option.none_or] at hover
    cases hstarts : startsFence ch (c :: xs) with
    | false =>
      rw [hstarts, if_neg Bool.false_ne_true] at hover
      obtain ⟨left, hleft, hcount⟩ := ih (by rwa [fences_cons hstarts] at hodd)
      refine ⟨c :: left, ?_, ?_⟩
      · rw [List.cons_append] at hover ⊢
        rw [sub_cons_of_none codeBlock_forward hover, hleft]
        rfl
      · rw [List.countP_cons, List.countP_cons]
        omega
    | true =>
      -- the open fence: its block ends with the first fence behind the content
      rw [hstarts, if_pos rfl, hto, Option.map_some] at hover
      have hlen : k + (c :: xs).length + 3 = (c :: xs).length + (k + 3) := by omega
      refine ⟨"[code block removed]".toList.map lit, ?_, ?_⟩
      · rw [sub_of_find codeBlock_forward hover, hlen, ← List.drop_drop, List.drop_left]
      · rw [countP_lits hq]
        exact Nat.zero_le _
  | @replace previous seg xs r ys hm _ ih =>
    have htwo := @fences_match α ch xs lit seg r hm
    obtain ⟨left, hleft, hcount⟩ := ih (by omega)
    have hover := @findCodeBlock_append α ch rest lit none hnext (seg ++ xs)
    have hfind : findCodeBlock ch lit none (seg ++ xs) = some (seg.length, r) := hm.2
    rw [hfind, Option.some_or] at hover
    refine ⟨r ++ left, ?_, ?_⟩
    · rw [sub_of_find codeBlock_forward hover, List.append_assoc, List.drop_left, hleft, List.append_assoc]
    · rw [List.countP_append, List.countP_append, (codeBlock_matches hm).2, countP_lits hq]
      omega

end Counts

/-! ### What the second pattern takes -/

/-- A span does not go over a line. -/
theorem findInlineCode_append (hline : atLineEnd ch rest.head? = true) (c : α) (xs : List α) :
    findInlineCode ch lit previous (c :: (xs ++ rest)) = findInlineCode ch lit previous (c :: xs) := by
  have hstop : rest.takeWhile (inSpan ch) = [] ∧ rest.dropWhile (inSpan ch) = rest ∧
      rest.head?.any (isChar ch '`') = false := by
    cases rest with
    | nil => exact ⟨rfl, rfl, rfl⟩
    | cons d rest =>
      have hd : ch d = '\n' := by simpa [atLineEnd, isChar] using hline
      simp [inSpan, isChar, hd]
  obtain ⟨htake, hdrop, hhead⟩ := hstop
  simp only [findInlineCode]
  cases hxs : xs.dropWhile (inSpan ch) with
  | nil =>
    have hall : ∀ d ∈ xs, inSpan ch d = true := List.dropWhile_eq_nil_iff.mp hxs
    rw [List.dropWhile_append_of_pos hall, hdrop, hhead]
    simp
  | cons d after =>
    have hlen : (xs.takeWhile (inSpan ch)).length ≠ xs.length := by
      have hsplit := congrArg List.length (List.takeWhile_append_dropWhile (p := inSpan ch) (l := xs))
      rw [hxs, List.length_append, List.length_cons] at hsplit
      omega
    rw [List.takeWhile_append, if_neg hlen, List.dropWhile_append, hxs]
    simp

end Fences

end ContextBroker.Cleaning
