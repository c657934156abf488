import ContextBroker.L1Data.Json

/-!
# What a reading of JSON keeps

A reading goes through structural characters and those of strings, and what
each of them keeps is kept by the whole (`Reading.loads_keeps`): the case
analysis of the parser is made once, for any two predicates on what is left of
the text and any on the characters of strings.
-/
namespace ContextBroker.JsonText

open Imperator

/-! ## What a reading keeps -/

/-- `A` is kept by what stands outside strings and `B` by what stands in them,
where the characters are `good`. -/
structure Reading (A B : Text → Prop) (good : Char → Prop) : Prop where
  structural : ∀ {c text}, A (c :: text) → c ≠ '"' → c ≠ '\\' → A text
  opening : ∀ {text}, A ('"' :: text) → B text
  closing : ∀ {text}, B ('"' :: text) → A text
  char : ∀ {c text}, B (c :: text) → c ≠ '"' → c ≠ '\\' → good c ∧ B text
  escape : ∀ {c text}, B ('\\' :: c :: text) → B text ∧ ∀ d, good d

/-- The strings of a value and its keys are of such characters. -/
inductive Made (good : Char → Prop) : Json → Prop where
  | null : Made good .null
  | bool (b : Bool) : Made good (.bool b)
  | num (repr : Text) : Made good (.num repr)
  | str {s : Text} (h : ∀ c ∈ s, good c) : Made good (.str s)
  | arr {items : List Json} (h : ∀ v ∈ items, Made good v) : Made good (.arr items)
  | obj {fields : List (Text × Json)} (hkeys : ∀ f ∈ fields, ∀ c ∈ f.1, good c) (h : ∀ f ∈ fields, Made good f.2) :
    Made good (.obj fields)

/-- Reading with so much fuel keeps `A`. -/
structure Keeps (number : Text → Option Text) (A : Text → Prop) (good : Char → Prop) (fuel : Nat) : Prop where
  once : ∀ {text rest v}, scanOnce number fuel text = some (v, rest) → A text → Made good v ∧ A rest
  items : ∀ {text rest items}, scanItems number fuel text = some (items, rest) → A text →
    (∀ v ∈ items, Made good v) ∧ A rest
  fields : ∀ {text rest fields}, scanFields number fuel text = some (fields, rest) → A text →
    ((∀ f ∈ fields, ∀ c ∈ f.1, good c) ∧ ∀ f ∈ fields, Made good f.2) ∧ A rest

namespace Reading

variable {A B : Text → Prop} {good : Char → Prop} (h : Reading A B good) {number : Text → Option Text}
  {text rest s : Text} {c : Char} {n fuel : Nat} {v : Json}

include h

theorem plain {u : Text} (hu : ∀ c ∈ u, c ≠ '"' ∧ c ≠ '\\') (hA : A (u ++ text)) : A text := by
  induction u with
  | nil => exact hA
  | cons c u ih =>
    obtain ⟨hc, hu⟩ := List.forall_mem_cons.mp hu
    exact ih hu (h.structural hA hc.1 hc.2)

theorem skip (hA : A text) : A (skipWhitespace text) := by
  refine h.plain (u := text.takeWhile isWhitespace) (fun c hc => ?_) ?_
  · have hwhite := List.all_eq_true.mp List.all_takeWhile c hc
    constructor <;> rintro rfl <;> cases hwhite
  · rwa [skipWhitespace, List.takeWhile_append_dropWhile]

theorem tail (hA : A text) (hc : c ≠ '"' ∧ c ≠ '\\') (hhead : text.head? = some c) : A text.tail := by
  obtain ⟨text, rfl⟩ := List.head?_eq_some_iff.mp hhead
  exact h.structural hA hc.1 hc.2

theorem fourHex_keeps (hread : fourHex text = some (n, rest)) (hB : B text) : B rest := by
  have hplain : ∀ {c n}, hexDigit c = some n → c ≠ '"' ∧ c ≠ '\\' := fun {c n} hc => by
    constructor <;> rintro rfl <;> cases hc
  unfold fourHex at hread
  split at hread
  · simp only [Option.bind_eq_bind, Option.bind_eq_some_iff, Option.pure_def, Option.some.injEq, Prod.mk.injEq] at hread
    obtain ⟨_, ha, _, hb, _, hc, _, hd, _, rfl⟩ := hread
    have hB := (h.char hB (hplain ha).1 (hplain ha).2).2
    have hB := (h.char hB (hplain hb).1 (hplain hb).2).2
    have hB := (h.char hB (hplain hc).1 (hplain hc).2).2
    exact (h.char hB (hplain hd).1 (hplain hd).2).2
  · cases hread

theorem scanChar_keeps (hread : scanChar text = some (c, rest)) (hhead : text.head? ≠ some '"') (hB : B text) :
    good c ∧ B rest := by
  unfold scanChar at hread
  split at hread
  · obtain ⟨hB, hgood⟩ := h.escape hB
    obtain ⟨⟨n, text'⟩, hhex, hread⟩ := Option.bind_eq_some_iff.mp hread
    have hB := h.fourHex_keeps hhex hB
    refine ⟨hgood c, ?_⟩
    dsimp only at hread
    split at hread
    · split at hread
      · obtain ⟨⟨m, text''⟩, hhex', hread⟩ := Option.bind_eq_some_iff.mp hread
        have hB := h.fourHex_keeps hhex' (h.escape hB).1
        dsimp only at hread
        split at hread
        · obtain ⟨_, rfl⟩ := Prod.mk.inj (Option.some.inj hread)
          exact hB
        · cases hread
      · cases hread
    · split at hread
      · cases hread
      · obtain ⟨_, rfl⟩ := Prod.mk.inj (Option.some.inj hread)
        exact hB
  · obtain ⟨hB, hgood⟩ := h.escape hB
    obtain ⟨d, _, heq⟩ := Option.map_eq_some_iff.mp hread
    cases heq
    exact ⟨hgood _, hB⟩
  · cases hread
  · rename_i hu hescape hlast
    split at hread
    · cases hread
    · cases hread
      refine h.char hB (fun hc => hhead (by rw [hc]; rfl)) ?_
      rintro rfl
      cases rest with
      | nil => exact hlast rfl rfl
      | cons d rest => exact hescape d rest rfl rfl
  · cases hread

theorem scanString_keeps : ∀ {fuel : Nat} {text rest s : Text}, scanString fuel text = some (s, rest) → B text →
    (∀ c ∈ s, good c) ∧ A rest
  | 0, _, _, _, hread, _ => by cases hread
  | fuel + 1, text, rest, s, hread, hB => by
    rw [scanString] at hread
    split at hread
    · rename_i hhead
      obtain ⟨text, rfl⟩ := List.head?_eq_some_iff.mp hhead
      cases hread
      exact ⟨List.forall_mem_nil _, h.closing hB⟩
    · rename_i hhead
      obtain ⟨⟨c, text'⟩, hchar, hread⟩ := Option.bind_eq_some_iff.mp hread
      obtain ⟨⟨s', rest'⟩, hstring, heq⟩ := Option.map_eq_some_iff.mp hread
      obtain ⟨rfl, rfl⟩ := Prod.mk.inj heq
      obtain ⟨hgood, hB⟩ := h.scanChar_keeps hchar hhead hB
      obtain ⟨hall, hA⟩ := scanString_keeps hstring hB
      exact ⟨List.forall_mem_cons.mpr ⟨hgood, hall⟩, hA⟩

theorem scanAtom_keeps (hread : scanAtom number text = some (v, rest)) (hA : A text) : Made good v ∧ A rest := by
  unfold scanAtom at hread
  split at hread
  · rename_i word w hfind
    have hmem := List.mem_of_find?_eq_some hfind
    have hprefix : word.isPrefixOf text = true := by simpa using List.find?_some hfind
    obtain ⟨tail, rfl⟩ := List.isPrefixOf_iff_prefix.mp hprefix
    obtain ⟨rfl, rfl⟩ := Prod.mk.inj (Option.some.inj hread)
    have hliterals : ∀ l ∈ literals, ∀ c ∈ l.1, c ≠ '"' ∧ c ≠ '\\' := by simp [literals]
    rw [List.drop_left]
    refine ⟨?_, h.plain (hliterals _ hmem) hA⟩
    simp only [literals, List.mem_cons, Prod.mk.injEq, List.not_mem_nil, or_false] at hmem
    rcases hmem with ⟨_, rfl⟩ | ⟨_, rfl⟩ | ⟨_, rfl⟩ | ⟨_, rfl⟩ | ⟨_, rfl⟩ | ⟨_, rfl⟩
    · exact .null
    · exact .bool true
    · exact .bool false
    all_goals exact .num _
  · obtain ⟨⟨token, rest'⟩, htoken, hread⟩ := Option.bind_eq_some_iff.mp hread
    obtain ⟨repr, _, heq⟩ := Option.map_eq_some_iff.mp hread
    obtain ⟨rfl, rfl⟩ := Prod.mk.inj heq
    obtain ⟨rfl, hchars⟩ := matchNumber_eq htoken
    refine ⟨.num repr, h.plain (fun c hc => ?_) hA⟩
    rcases hchars c hc with hdigit | hother
    · constructor <;> rintro rfl <;> cases hdigit
    · constructor <;> rintro rfl <;> revert hother <;> decide

omit h in
theorem made_dict {pairs : List (Text × Json)} (hkeys : ∀ f ∈ pairs, ∀ c ∈ f.1, good c)
    (hpairs : ∀ f ∈ pairs, Made good f.2) : Made good (.obj (dict pairs)) := by
  have hmem : ∀ f ∈ dict pairs, f ∈ pairs := fun f hf =>
    (KeyedMerge.mem_of_mem_merge hf).resolve_left List.not_mem_nil
  exact .obj (fun f hf => hkeys f (hmem f hf)) fun f hf => hpairs f (hmem f hf)

theorem scanOnce_keeps (ih : Keeps number A good fuel) (hread : scanOnce number (fuel + 1) text = some (v, rest))
    (hA : A text) : Made good v ∧ A rest := by
  cases text with
  | nil => cases hread
  | cons c text =>
    rw [scanOnce] at hread
    split at hread
    · rename_i hc
      subst hc
      obtain ⟨⟨s, rest'⟩, hstring, heq⟩ := Option.map_eq_some_iff.mp hread
      obtain ⟨rfl, rfl⟩ := Prod.mk.inj heq
      obtain ⟨hall, hA⟩ := h.scanString_keeps hstring (h.opening hA)
      exact ⟨.str hall, hA⟩
    split at hread
    · rename_i hc
      subst hc
      have hA := h.skip (h.structural hA (by decide) (by decide))
      split at hread
      · rename_i hhead
        obtain ⟨rfl, rfl⟩ := Prod.mk.inj (Option.some.inj hread)
        exact ⟨.arr (List.forall_mem_nil _), h.tail hA (c := ']') (by decide) hhead⟩
      · obtain ⟨⟨items, rest'⟩, hitems, heq⟩ := Option.map_eq_some_iff.mp hread
        obtain ⟨rfl, rfl⟩ := Prod.mk.inj heq
        obtain ⟨hmade, hA⟩ := ih.items hitems hA
        exact ⟨.arr hmade, hA⟩
    split at hread
    · rename_i hc
      subst hc
      have hA := h.skip (h.structural hA (by decide) (by decide))
      split at hread
      · rename_i hhead
        obtain ⟨rfl, rfl⟩ := Prod.mk.inj (Option.some.inj hread)
        exact ⟨.obj (List.forall_mem_nil _) (List.forall_mem_nil _), h.tail hA (c := '\x7d') (by decide) hhead⟩
      · obtain ⟨⟨fields, rest'⟩, hfields, heq⟩ := Option.map_eq_some_iff.mp hread
        obtain ⟨rfl, rfl⟩ := Prod.mk.inj heq
        obtain ⟨⟨hkeys, hmade⟩, hA⟩ := ih.fields hfields hA
        exact ⟨made_dict hkeys hmade, hA⟩
    · exact h.scanAtom_keeps hread hA

theorem scanItems_keeps {items : List Json} (ih : Keeps number A good fuel)
    (hread : scanItems number (fuel + 1) text = some (items, rest)) (hA : A text) :
    (∀ v ∈ items, Made good v) ∧ A rest := by
  rw [scanItems] at hread
  obtain ⟨⟨v, text'⟩, honce, hread⟩ := Option.bind_eq_some_iff.mp hread
  obtain ⟨hmade, hA⟩ := ih.once honce hA
  have hA := h.skip hA
  dsimp only at hread
  split at hread
  · cases hread
  · rename_i c text'' hskip
    rw [hskip] at hA
    split at hread
    · rename_i hc
      subst hc
      obtain ⟨rfl, rfl⟩ := Prod.mk.inj (Option.some.inj hread)
      exact ⟨List.forall_mem_singleton.mpr hmade, h.structural hA (by decide) (by decide)⟩
    split at hread
    · rename_i hc
      subst hc
      obtain ⟨⟨items', rest'⟩, hitems, heq⟩ := Option.map_eq_some_iff.mp hread
      obtain ⟨rfl, rfl⟩ := Prod.mk.inj heq
      obtain ⟨hall, hA⟩ := ih.items hitems (h.skip (h.structural hA (by decide) (by decide)))
      exact ⟨List.forall_mem_cons.mpr ⟨hmade, hall⟩, hA⟩
    · cases hread

theorem scanFields_keeps {fields : List (Text × Json)} (ih : Keeps number A good fuel)
    (hread : scanFields number (fuel + 1) text = some (fields, rest)) (hA : A text) :
    ((∀ f ∈ fields, ∀ c ∈ f.1, good c) ∧ ∀ f ∈ fields, Made good f.2) ∧ A rest := by
  rw [scanFields] at hread
  split at hread
  · rename_i hhead
    obtain ⟨text, rfl⟩ := List.head?_eq_some_iff.mp hhead
    obtain ⟨⟨key, text'⟩, hstring, hread⟩ := Option.bind_eq_some_iff.mp hread
    obtain ⟨hkey, hA⟩ := h.scanString_keeps hstring (h.opening hA)
    dsimp only at hread
    split at hread
    · rename_i hcolon
      have hA := h.skip (h.tail (h.skip hA) (c := ':') (by decide) hcolon)
      obtain ⟨⟨v, text''⟩, honce, hread⟩ := Option.bind_eq_some_iff.mp hread
      obtain ⟨hmade, hA⟩ := ih.once honce hA
      have hA := h.skip hA
      dsimp only at hread
      split at hread
      · cases hread
      · rename_i c rest' hskip
        rw [hskip] at hA
        split at hread
        · rename_i hc
          subst hc
          obtain ⟨rfl, rfl⟩ := Prod.mk.inj (Option.some.inj hread)
          exact ⟨⟨List.forall_mem_singleton.mpr hkey, List.forall_mem_singleton.mpr hmade⟩,
            h.structural hA (by decide) (by decide)⟩
        split at hread
        · rename_i hc
          subst hc
          obtain ⟨⟨fields', rest''⟩, hfields, heq⟩ := Option.map_eq_some_iff.mp hread
          obtain ⟨rfl, rfl⟩ := Prod.mk.inj heq
          obtain ⟨⟨hkeys, hall⟩, hA⟩ := ih.fields hfields (h.skip (h.structural hA (by decide) (by decide)))
          exact ⟨⟨List.forall_mem_cons.mpr ⟨hkey, hkeys⟩, List.forall_mem_cons.mpr ⟨hmade, hall⟩⟩, hA⟩
        · cases hread
    · cases hread
  · cases hread

theorem keeps : ∀ fuel : Nat, Keeps number A good fuel
  | 0 => ⟨nofun, nofun, nofun⟩
  | fuel + 1 => ⟨h.scanOnce_keeps (keeps fuel), h.scanItems_keeps (keeps fuel), h.scanFields_keeps (keeps fuel)⟩

/-- **Reading** a whole text: its strings are good, and what is left is white space. -/
theorem loads_keeps (hread : loads number text = some v) (hA : A text) :
    Made good v ∧ ∃ rest, (∀ c ∈ rest, isWhitespace c = true) ∧ A rest := by
  unfold loads at hread
  split at hread
  · rename_i w rest honce
    split at hread
    · rename_i hrest
      cases hread
      obtain ⟨hmade, hA⟩ := (h.keeps text.length).once honce (h.skip hA)
      exact ⟨hmade, rest, List.dropWhile_eq_nil_iff.mp hrest, hA⟩
    · cases hread
  · cases hread

end Reading

end ContextBroker.JsonText
