import Mathlib.Data.List.Infix
import Mathlib.Data.List.TakeWhile

/-!
# Cutting a list in two

`span_eq`: after the elements that satisfy a predicate.

`cut`: around the first occurrence of a word, so `upTo` is the first part of a
list that is split at a word. No occurrence comes before it (`cut_le`), and
what comes after it does not matter (`cut_append`). A front without the word
is passed over, up to an element that the word has not (`cut_append_cons`).
-/
namespace ContextBroker.Cut

variable {α : Type}

theorem span_eq {p : α → Bool} {front rest : List α} (hfront : ∀ c ∈ front, p c = true)
    (hrest : ∀ c, rest.head? = some c → p c = false) :
    (front ++ rest).takeWhile p = front ∧ (front ++ rest).dropWhile p = rest := by
  rw [List.takeWhile_append_of_pos hfront, List.dropWhile_append_of_pos hfront]
  cases rest with
  | nil => exact ⟨List.append_nil front, rfl⟩
  | cons c rest =>
    rw [List.takeWhile_cons, List.dropWhile_cons, hrest c rfl]
    exact ⟨List.append_nil front, rfl⟩

variable [DecidableEq α] (word : List α)

/-- What comes before the first occurrence of a word and what comes after it. -/
def cut : List α → Option (List α × List α)
  | [] => none
  | c :: xs =>
    if word.isPrefixOf (c :: xs) then some ([], (c :: xs).drop word.length)
    else (cut xs).map fun (front, rest) => (c :: front, rest)

/-- `xs.split(word)[0]` -/
def upTo (xs : List α) : List α :=
  match cut word xs with
  | some (front, _) => front
  | none => xs

variable {word} {xs ys front rest u : List α} {c : α}

theorem cut_of_start (h : word <+: c :: xs) : cut word (c :: xs) = some ([], (c :: xs).drop word.length) := by
  rw [cut, if_pos (List.isPrefixOf_iff_prefix.mpr h)]

theorem cut_of_not_start (h : ¬ word <+: c :: xs) :
    cut word (c :: xs) = (cut word xs).map fun (front, rest) => (c :: front, rest) := by
  rw [cut, if_neg fun hp => h (List.isPrefixOf_iff_prefix.mp hp)]

theorem cut_eq : ∀ {xs front rest : List α}, cut word xs = some (front, rest) → xs = front ++ (word ++ rest)
  | [], _, _, h => by cases h
  | c :: xs, front, rest, h => by
    by_cases hstart : word <+: c :: xs
    · rw [cut_of_start hstart] at h
      obtain ⟨tail, htail⟩ := hstart
      obtain ⟨rfl, rfl⟩ := Prod.mk.inj (Option.some.inj h)
      rw [← htail, List.drop_left, List.nil_append]
    · rw [cut_of_not_start hstart] at h
      obtain ⟨⟨front', rest'⟩, hcut, heq⟩ := Option.map_eq_some_iff.mp h
      obtain ⟨rfl, rfl⟩ := Prod.mk.inj heq
      rw [List.cons_append, ← cut_eq hcut]

theorem cut_eq_none (hword : word ≠ []) : ∀ {xs : List α}, cut word xs = none ↔ ¬ word <:+: xs
  | [] => by simp [cut, List.infix_nil, hword]
  | c :: xs => by
    have ih : cut word xs = none ↔ ¬ word <:+: xs := cut_eq_none hword
    rw [List.infix_cons_iff]
    by_cases hstart : word <+: c :: xs
    · rw [cut_of_start hstart]
      exact iff_of_false (by simp) fun h => h (.inl hstart)
    · rw [cut_of_not_start hstart, Option.map_eq_none_iff, ih]
      exact ⟨fun h hor => hor.elim hstart h, fun h hi => h (.inr hi)⟩

theorem cut_word (hword : word ≠ []) (rest : List α) : cut word (word ++ rest) = some ([], rest) := by
  obtain ⟨c, word, rfl⟩ := List.exists_cons_of_ne_nil hword
  have hstart : c :: word <+: c :: (word ++ rest) := List.prefix_append (c :: word) rest
  rw [List.cons_append, cut_of_start hstart]
  exact congrArg some (congrArg (Prod.mk []) List.drop_left)

/-- What comes after the first occurrence does not matter. -/
theorem cut_append : ∀ {xs front rest : List α}, cut word xs = some (front, rest) → ∀ ys,
    cut word (xs ++ ys) = some (front, rest ++ ys)
  | [], _, _, h, _ => by cases h
  | c :: xs, front, rest, h, ys => by
    have hwhole : c :: xs <+: c :: (xs ++ ys) := List.prefix_append (c :: xs) ys
    -- the word ends within the first list
    have hlong : word.length ≤ (c :: xs).length := by
      rw [cut_eq h, List.length_append, List.length_append]
      omega
    rw [List.cons_append]
    by_cases hstart : word <+: c :: xs
    · rw [cut_of_start hstart] at h
      obtain ⟨rfl, rfl⟩ := Prod.mk.inj (Option.some.inj h)
      rw [cut_of_start (hstart.trans hwhole), ← List.cons_append, List.drop_append_of_le_length hlong]
    · rw [cut_of_not_start hstart] at h
      obtain ⟨⟨front', rest'⟩, hcut, heq⟩ := Option.map_eq_some_iff.mp h
      obtain ⟨rfl, rfl⟩ := Prod.mk.inj heq
      rw [cut_of_not_start fun hp => hstart (List.prefix_of_prefix_length_le hp hwhole hlong), cut_append hcut ys]
      rfl

omit [DecidableEq α] in
/-- A word does not reach over an element that it has not. -/
theorem prefix_of_append_cons (hc : c ∉ word) (h : word <+: u ++ c :: ys) : word <+: u := by
  have hfront : u ++ [c] <+: u ++ c :: ys := ⟨ys, by rw [List.append_assoc, List.singleton_append]⟩
  rcases List.prefix_or_prefix_of_prefix h hfront with hword | hword
  · rcases List.prefix_concat_iff.mp hword with rfl | hword
    · exact absurd (List.mem_append_right u (List.mem_singleton_self c)) hc
    · exact hword
  · exact absurd (hword.subset (List.mem_append_right u (List.mem_singleton_self c))) hc

/-- A front without the word is passed over, up to an element that the word has
not; a part that the word starts with is enough. -/
theorem cut_append_cons {w : List α} (hw : w <+: word) (hc : c ∉ w) : ∀ {u : List α}, ¬ w <:+: u →
    cut word (u ++ c :: ys) = (cut word ys).map fun (front, rest) => (u ++ c :: front, rest)
  | [], hu => by
    have hstart : ¬ word <+: c :: ys := fun h => hu (prefix_of_append_cons (u := []) hc (hw.trans h)).isInfix
    rw [List.nil_append, cut_of_not_start hstart]
    rfl
  | d :: u, hu => by
    have hstart : ¬ word <+: d :: (u ++ c :: ys) := fun h =>
      hu (prefix_of_append_cons (u := d :: u) hc (hw.trans h)).isInfix
    have hu : ¬ w <:+: u := fun h => hu (h.trans (List.suffix_cons d u).isInfix)
    rw [List.cons_append, cut_of_not_start hstart, cut_append_cons hw hc hu, Option.map_map]
    rfl

/-- The first occurrence comes before all others. -/
theorem cut_le : ∀ {xs front rest ys zs : List α}, cut word xs = some (front, rest) → xs = ys ++ (word ++ zs) →
    front.length ≤ ys.length
  | [], _, _, _, _, h, _ => by cases h
  | c :: xs, front, rest, ys, zs, h, heq => by
    by_cases hstart : word <+: c :: xs
    · rw [cut_of_start hstart] at h
      obtain ⟨rfl, rfl⟩ := Prod.mk.inj (Option.some.inj h)
      exact Nat.zero_le _
    · rw [cut_of_not_start hstart] at h
      obtain ⟨⟨front', rest'⟩, hcut, heq'⟩ := Option.map_eq_some_iff.mp h
      obtain ⟨rfl, rfl⟩ := Prod.mk.inj heq'
      cases ys with
      | nil => exact absurd ⟨zs, heq.symm⟩ hstart
      | cons d ys => exact Nat.succ_le_succ (cut_le hcut (List.cons.inj heq).2)

theorem upTo_initial (xs : List α) : upTo word xs <+: xs := by
  unfold upTo
  split
  · rename_i front rest h
    exact ⟨word ++ rest, (cut_eq h).symm⟩
  · exact List.prefix_rfl

theorem upTo_of_cut (h : cut word xs = some (front, rest)) : upTo word xs = front := by rw [upTo, h]

theorem upTo_of_none (h : cut word xs = none) : upTo word xs = xs := by rw [upTo, h]

/-- Up to an occurrence there is none. -/
theorem not_infix_upTo (hword : word ≠ []) (xs : List α) : ¬ word <:+: upTo word xs := by
  unfold upTo
  split
  · rename_i front rest h
    rintro ⟨before, after, hfront⟩
    have hle := @cut_le _ _ _ _ _ _ before (after ++ (word ++ rest)) h (by rw [cut_eq h, ← hfront]; simp)
    have hlength := List.length_pos_iff.mpr hword
    rw [← hfront, List.length_append, List.length_append] at hle
    omega
  · rename_i h
    exact (cut_eq_none hword).mp h

theorem upTo_append_initial (hword : word ≠ []) (ys zs : List α) : upTo word (ys ++ (word ++ zs)) <+: ys := by
  cases h : cut word (ys ++ (word ++ zs)) with
  | none => exact absurd ⟨ys, zs, List.append_assoc _ _ _⟩ ((cut_eq_none hword).mp h)
  | some parts =>
    obtain ⟨front, rest⟩ := parts
    rw [upTo_of_cut h]
    exact List.prefix_of_prefix_length_le ⟨word ++ rest, (cut_eq h).symm⟩ (List.prefix_append _ _) (cut_le h rfl)

theorem upTo_cases (word xs : List α) : upTo word xs = xs ∨ ∃ rest, xs = upTo word xs ++ (word ++ rest) := by
  cases h : cut word xs with
  | none => exact .inl (upTo_of_none h)
  | some parts => exact .inr ⟨parts.2, by rw [upTo_of_cut h]; exact cut_eq h⟩

/-- What is cut off twice starts with what both words start with. -/
theorem upTo_upTo {c : α} {w w' : List α} (xs : List α) :
    upTo (c :: w) (upTo (c :: w') xs) = xs ∨ ∃ tail, xs = upTo (c :: w) (upTo (c :: w') xs) ++ c :: tail := by
  rcases upTo_cases (c :: w') xs with h' | ⟨rest', h'⟩
  · rw [h']
    exact (upTo_cases (c :: w) xs).imp_right fun ⟨rest, h⟩ => ⟨w ++ rest, h⟩
  · right
    rcases upTo_cases (c :: w) (upTo (c :: w') xs) with h | ⟨rest, h⟩
    · exact ⟨w' ++ rest', by rw [h]; exact h'⟩
    · refine ⟨w ++ rest ++ (c :: w' ++ rest'), ?_⟩
      calc xs = upTo (c :: w') xs ++ (c :: w' ++ rest') := h'
        _ = upTo (c :: w) (upTo (c :: w') xs) ++ (c :: w ++ rest) ++ (c :: w' ++ rest') := congrArg (· ++ _) h
        _ = _ := by simp

end ContextBroker.Cut
