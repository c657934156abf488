import ContextBroker.L3Assembly.Cleaning

/-!
# Bold texts of several pieces

`_MARKDOWN_BOLD_RE` takes two asterisks, a text without any and the next two,
whatever piece of the text they are in. Two that are left open (`leavesOpen`)
are closed by the first asterisks behind them, if these are two or more
(`closes`).

* `markdownBold_append`: where none is closed, each piece is read for itself.
* `taken_of_closes`: a bold text of the two pieces, where one is.
* `skips_markdownBold`: whether a bold text begins in a piece.
-/
namespace ContextBroker.Cleaning

open Substitute

section Bold

variable {α : Type} (ch : α → Char)

/-- Two asterisks, and none behind them. -/
def isOpen (xs : List α) : Bool :=
  (xs.take 2).map ch == ['*', '*'] && (xs.drop 2).all fun c => !isChar ch '*' c

/-- The bold texts read, two asterisks are left that no others follow. -/
def leavesOpen : Nat → List α → Bool
  | _, [] => false
  | skip + 1, _ :: rest => leavesOpen skip rest
  | 0, c :: rest =>
    match findMarkdownBold ch none (c :: rest) with
    | none => isOpen ch (c :: rest) || leavesOpen 0 rest
    | some (n, _) => leavesOpen (n - 1) rest

/-- The first asterisks of a text are two or more. -/
def closes (xs : List α) : Bool := ((xs.dropWhile fun c => !isChar ch '*' c).take 2).map ch == ['*', '*']

/-- No asterisk comes next. -/
def NoStarNext (xs : List α) : Prop := ∀ c ∈ xs.head?, ch c ≠ '*'

variable {ch} {xs ys rest seg r : List α} {c : α} {previous : Option α}

theorem markdownBold_forward : (markdownBold ch).Forward := fun _ _ _ => rfl

theorem findMarkdownBold_cons_cons (a b : α) (t : List α) :
    findMarkdownBold ch previous (a :: b :: t) =
      if ([ch a, ch b] == ['*', '*'] && !(t.takeWhile fun c => !isChar ch '*' c).isEmpty && closes ch t) = true then
        some ((t.takeWhile fun c => !isChar ch '*' c).length + 4, t.takeWhile fun c => !isChar ch '*' c)
      else none := rfl

theorem closes_takeWhile (hnext : NoStarNext ch rest) (h : closes ch rest = true) :
    (rest.takeWhile fun c => !isChar ch '*' c).isEmpty = false := by
  cases rest with
  | nil => cases h
  | cons d rest =>
    have hd : ch d ≠ '*' := hnext d rfl
    simp [isChar, hd]

/-- A text without an asterisk leaves a marker before it open. -/
theorem closes_append_of_all {t : List α} (h : ∀ c ∈ t, (!isChar ch '*' c) = true) (rest : List α) :
    closes ch (t ++ rest) = closes ch rest := by
  rw [closes, List.dropWhile_append_of_pos h, closes]

theorem closes_append_of_not {t : List α} (hnext : NoStarNext ch rest) (h : ¬ ∀ c ∈ t, (!isChar ch '*' c) = true) :
    closes ch (t ++ rest) = closes ch t := by
  have hne : t.dropWhile (fun c => !isChar ch '*' c) ≠ [] := fun hnil => h (List.dropWhile_eq_nil_iff.mp hnil)
  rw [closes, closes, List.dropWhile_append]
  match hdrop : t.dropWhile fun c => !isChar ch '*' c with
  | [] => exact absurd hdrop hne
  | [d] =>
    cases rest with
    | nil => rfl
    | cons e rest =>
      have he : ch e ≠ '*' := hnext e rfl
      simp [he]
  | d :: e :: after => rfl

/-- What follows closes a marker that is open, and no other. -/
theorem findMarkdownBold_append (hnext : NoStarNext ch rest) (xs : List α) :
    findMarkdownBold ch previous (xs ++ rest) = (findMarkdownBold ch previous xs).or
      (if (isOpen ch xs && closes ch rest) = true then
        some ((xs.drop 2 ++ rest.takeWhile fun c => !isChar ch '*' c).length + 4,
          xs.drop 2 ++ rest.takeWhile fun c => !isChar ch '*' c)
      else none) := by
  match xs with
  | [] =>
    cases rest with
    | nil => rfl
    | cons d rest =>
      have hd : ch d ≠ '*' := hnext d rfl
      simp [findMarkdownBold, isOpen, hd]
  | [a] =>
    cases rest with
    | nil => simp [findMarkdownBold, isOpen]
    | cons d rest =>
      have hd : ch d ≠ '*' := hnext d rfl
      simp [findMarkdownBold, isOpen, hd]
  | a :: b :: t =>
    have hopen : isOpen ch (a :: b :: t) = ([ch a, ch b] == ['*', '*'] && t.all fun c => !isChar ch '*' c) := rfl
    rw [List.cons_append, List.cons_append, findMarkdownBold_cons_cons, findMarkdownBold_cons_cons, hopen]
    by_cases hall : ∀ c ∈ t, (!isChar ch '*' c) = true
    · have hclosed : closes ch t = false := by
        have := closes_append_of_all hall []
        rwa [List.append_nil] at this
      rw [List.takeWhile_append_of_pos hall, closes_append_of_all hall, hclosed, List.all_eq_true.mpr hall,
        Bool.and_false, if_neg Bool.false_ne_true, Option.none_or, Bool.and_true]
      cases hcloses : closes ch rest with
      | false => simp
      | true =>
        have hinner : (t ++ rest.takeWhile fun c => !isChar ch '*' c).isEmpty = false := by
          have hrest := closes_takeWhile hnext hcloses
          rw [List.isEmpty_eq_false_iff] at hrest ⊢
          exact List.append_ne_nil_of_right_ne_nil t hrest
        rw [hinner, Bool.not_false, Bool.and_true]
        rfl
    · have hstar : t.all (fun c => !isChar ch '*' c) = false := by
        rw [← Bool.not_eq_true, List.all_eq_true]
        exact hall
      have htake : (t ++ rest).takeWhile (fun c => !isChar ch '*' c) = t.takeWhile fun c => !isChar ch '*' c := by
        rw [List.takeWhile_append, if_neg]
        intro hlen
        refine hall fun c hc => ?_
        rw [← (List.takeWhile_sublist fun c => !isChar ch '*' c).eq_of_length hlen] at hc
        exact (List.mem_takeWhile_imp hc :)
      rw [htake, closes_append_of_not hnext hall, hstar, Bool.and_false, Bool.false_and,
        if_neg Bool.false_ne_true, Option.or_none]

theorem leavesOpen_cons (h : findMarkdownBold ch none (c :: xs) = none) :
    leavesOpen ch 0 (c :: xs) = (isOpen ch (c :: xs) || leavesOpen ch 0 xs) := by
  simp only [leavesOpen, h]

theorem leavesOpen_length (seg rest : List α) : leavesOpen ch seg.length (seg ++ rest) = leavesOpen ch 0 rest := by
  induction seg with
  | nil => rfl
  | cons c seg ih => exact ih

theorem leavesOpen_match (h : (markdownBold ch).Matches previous seg xs r) :
    leavesOpen ch 0 (seg ++ xs) = leavesOpen ch 0 xs := by
  obtain ⟨hne, hfind⟩ := h
  obtain ⟨c, seg, rfl⟩ := List.exists_cons_of_ne_nil hne
  have hfind' : findMarkdownBold ch none (c :: (seg ++ xs)) = some ((c :: seg).length, r) := hfind
  have hskip := @leavesOpen_length α ch seg xs
  rw [List.cons_append]
  simp only [leavesOpen, hfind', List.length_cons, Nat.add_sub_cancel, hskip]

/-- **Bold texts of two pieces**, where the second closes nothing of the first. -/
theorem markdownBold_append (hnext : NoStarNext ch rest) (h : (leavesOpen ch 0 xs && closes ch rest) = false) :
    sub (markdownBold ch) (xs ++ rest) = sub (markdownBold ch) xs ++ sub (markdownBold ch) rest ∧
      taken (markdownBold ch) (xs ++ rest) = taken (markdownBold ch) xs ++ taken (markdownBold ch) rest := by
  have happend := (scan_sub (markdownBold ch) xs).append rest
    (fun _ w => (leavesOpen ch 0 w && closes ch rest) = false) (fun a c w hw => ?_) (fun a c w hw hnone => ?_)
    (fun a seg w r hw hm => ?_) h
  · rwa [subFrom_forward markdownBold_forward 0 (behind none xs) none rest,
      takenFrom_forward markdownBold_forward 0 (behind none xs) none rest] at happend
  · have hover := @findMarkdownBold_append α ch rest a hnext (c :: w)
    refine hover.trans (Eq.trans ?_ (Option.or_none (o := (markdownBold ch).find a (c :: w))))
    cases hfind : (markdownBold ch).find a (c :: w) with
    | some found => rw [show findMarkdownBold ch a (c :: w) = some found from hfind]; rfl
    | none =>
      have hnone : findMarkdownBold ch none (c :: w) = none := hfind
      have hnot : (isOpen ch (c :: w) && closes ch rest) = false := by
        rw [leavesOpen_cons hnone] at hw
        cases hopen : isOpen ch (c :: w) with
        | false => rfl
        | true => rwa [hopen, Bool.true_or] at hw
      rw [show findMarkdownBold ch a (c :: w) = none from hfind, hnot]
      rfl
  · rw [leavesOpen_cons hnone] at hw
    cases hcloses : closes ch rest with
    | false => exact Bool.and_false _
    | true =>
      rw [hcloses, Bool.and_true, Bool.or_eq_false_iff] at hw
      rw [hw.2]
      rfl
  · rwa [leavesOpen_match hm] at hw

/-- **A marker left open** and closed behind the text: the bold text has two
asterisks of the one and the first cell of the other. -/
theorem taken_of_closes {d : α} (hnext : NoStarNext ch (d :: rest)) (hcloses : closes ch (d :: rest) = true)
    (h : Scan (markdownBold ch) previous xs ys) (hopen : leavesOpen ch 0 xs = true) :
    ∃ seg ∈ takenFrom (markdownBold ch) 0 previous (xs ++ d :: rest), d ∈ seg ∧ ∃ c ∈ seg, c ∈ xs ∧ ch c = '*' := by
  induction h with
  | done => cases hopen
  | @keep previous c xs ys hnone _ ih =>
    have hnone' : findMarkdownBold ch none (c :: xs) = none := hnone
    have hover := @findMarkdownBold_append α ch (d :: rest) previous hnext (c :: xs)
    rw [show findMarkdownBold ch previous (c :: xs) = none from hnone, Option.none_or, hcloses, Bool.and_true] at hover
    rw [leavesOpen_cons hnone'] at hopen
    cases hisOpen : isOpen ch (c :: xs) with
    | true =>
      rw [hisOpen, if_pos rfl] at hover
      have hstar : ch c = '*' := by
        have hcells := (Bool.and_eq_true _ _ ▸ hisOpen).1
        cases xs <;> simp_all
      have hlong : (c :: xs).length <
          ((c :: xs).drop 2 ++ (d :: rest).takeWhile fun c => !isChar ch '*' c).length + 4 := by
        rw [List.length_append, List.length_drop]
        omega
      obtain ⟨n, hn⟩ := Nat.exists_eq_add_of_lt hlong
      rw [hn, Nat.add_assoc] at hover
      have hseg : (c :: xs ++ d :: rest).take ((c :: xs).length + (n + 1)) ∈
          takenFrom (markdownBold ch) 0 previous (c :: xs ++ d :: rest) :=
        @take_mem_takenFrom α (markdownBold ch) previous c _ _ _ hover
      rw [List.take_length_add_append, List.take_succ_cons] at hseg
      exact ⟨_, hseg, List.mem_append_right _ List.mem_cons_self, c, List.mem_append_left _ List.mem_cons_self,
        List.mem_cons_self, hstar⟩
    | false =>
      rw [hisOpen, if_neg Bool.false_ne_true] at hover
      rw [hisOpen, Bool.false_or] at hopen
      obtain ⟨seg, hseg, hd, e, he, hxs, hstar⟩ := ih hopen
      have hover' : (markdownBold ch).find previous (c :: (xs ++ d :: rest)) = none := hover
      exact ⟨seg, by rwa [List.cons_append, takenFrom_of_none hover'], hd, e, he, List.mem_cons_of_mem c hxs, hstar⟩
  | @replace previous seg xs r ys hm _ ih =>
    rw [leavesOpen_match hm] at hopen
    obtain ⟨seg', hseg', hd, e, he, hxs, hstar⟩ := ih hopen
    have hover := @findMarkdownBold_append α ch (d :: rest) previous hnext (seg ++ xs)
    rw [show findMarkdownBold ch previous (seg ++ xs) = some (seg.length, r) from hm.2, Option.some_or,
      List.append_assoc] at hover
    have hm' : (markdownBold ch).Matches previous seg (xs ++ d :: rest) r := ⟨hm.1, hover⟩
    rw [List.append_assoc, takenFrom_of_match hm']
    exact ⟨seg', List.mem_cons_of_mem seg hseg', hd, e, he, List.mem_append_right seg hxs, hstar⟩

/-- No bold text begins in `xs` exactly if none does without what follows, and
that closes no marker of `xs`. -/
theorem skips_markdownBold (hnext : NoStarNext ch rest) :
    (markdownBold ch).Skips previous xs rest ↔
      (markdownBold ch).Skips previous xs [] ∧ (leavesOpen ch 0 xs && closes ch rest) = false := by
  induction xs generalizing previous with
  | nil => exact ⟨fun _ => ⟨trivial, rfl⟩, fun _ => trivial⟩
  | cons c xs ih =>
    have hover := @findMarkdownBold_append α ch rest previous hnext (c :: xs)
    have hfirst : (markdownBold ch).find previous (c :: (xs ++ rest)) = none ↔
        (markdownBold ch).find previous (c :: (xs ++ [])) = none ∧ (isOpen ch (c :: xs) && closes ch rest) = false := by
      rw [List.append_nil]
      change findMarkdownBold ch previous (c :: xs ++ rest) = none ↔ findMarkdownBold ch previous (c :: xs) = none ∧ _
      rw [hover, Option.or_eq_none_iff]
      simp
    change _ ∧ _ ↔ (_ ∧ _) ∧ _
    rw [hfirst, ih]
    constructor
    · rintro ⟨⟨hnone, hopen⟩, hskips, hleaves⟩
      refine ⟨⟨hnone, hskips⟩, ?_⟩
      rw [List.append_nil] at hnone
      rw [leavesOpen_cons hnone, Bool.and_or_distrib_right, hopen, hleaves]
      rfl
    · rintro ⟨⟨hnone, hskips⟩, hleaves⟩
      have hnone' := hnone
      rw [List.append_nil] at hnone'
      rw [leavesOpen_cons hnone', Bool.and_or_distrib_right, Bool.or_eq_false_iff] at hleaves
      exact ⟨⟨hnone, hleaves.1⟩, hskips, hleaves.2⟩

theorem isOpen_map (xs : List α) : isOpen id (xs.map ch) = isOpen ch xs := by
  simp only [isOpen, ← List.map_take, ← List.map_drop, List.map_map, Function.id_comp, List.all_map]
  rfl

theorem leavesOpen_map (skip : Nat) (xs : List α) : leavesOpen id skip (xs.map ch) = leavesOpen ch skip xs := by
  induction xs generalizing skip with
  | nil => cases skip <;> rfl
  | cons c xs ih =>
    cases skip with
    | succ skip => exact ih skip
    | zero =>
      have hfind := @findMarkdownBold_map α ch none (c :: xs)
      have hopen := @isOpen_map α ch (c :: xs)
      rw [List.map_cons, Option.map_none] at hfind
      rw [List.map_cons] at hopen ⊢
      simp only [leavesOpen, hfind, hopen]
      cases findMarkdownBold ch none (c :: xs) with
      | none => exact congrArg (isOpen ch (c :: xs) || ·) (ih 0)
      | some found => exact ih (found.1 - 1)

theorem closes_map (xs : List α) : closes id (xs.map ch) = closes ch xs := by
  simp only [closes, dropWhile_map_ch, ← List.map_take, List.map_map, Function.id_comp]
  rfl

end Bold

end ContextBroker.Cleaning
