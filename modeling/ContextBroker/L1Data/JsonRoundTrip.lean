import ContextBroker.L1Data.JsonReading

/-!
# What was written is read

`loads_dumps`: `json.loads` of `json.dumps` of a value is the value, also with
white space around it. Each reader has its lemma: with the text that was
written before what is left, it gives what was written and leaves what is left.
-/
namespace ContextBroker.JsonText

open Imperator

/-! ## Strings that were written -/

section Strings

variable {n : Nat} {c : Char} {rest s : Text}

theorem hexDigit_digitChar : ∀ k < 16, hexDigit (Nat.digitChar k) = some k := by decide +kernel

theorem fourHex_hex4 (h : n < 0x10000) : fourHex (hex4 n ++ rest) = some (n, rest) := by
  have h1 := hexDigit_digitChar (n / 4096 % 16) (by omega)
  have h2 := hexDigit_digitChar (n / 256 % 16) (by omega)
  have h3 := hexDigit_digitChar (n / 16 % 16) (by omega)
  have h4 := hexDigit_digitChar (n / 1 % 16) (by omega)
  have hsum : ((n / 4096 % 16 * 16 + n / 256 % 16) * 16 + n / 16 % 16) * 16 + n / 1 % 16 = n := by omega
  simp only [hex4, List.map_cons, List.map_nil, List.cons_append, List.nil_append, fourHex, h1, h2, h3, h4,
    Option.bind_eq_bind, Option.bind_some, hsum, Option.pure_def]

/-- A character below the supplementary planes, by its code. -/
theorem scanChar_code (h : c.toNat < 0x10000) : scanChar ('\\' :: 'u' :: (hex4 c.toNat ++ rest)) = some (c, rest) := by
  have hvalid : c.toNat < 0xd800 ∨ 0xdfff < c.toNat ∧ c.toNat < 0x110000 := c.valid
  rw [scanChar, fourHex_hex4 h, Option.bind_some]
  dsimp only
  rw [if_neg (by omega), if_neg (by omega), Char.ofNat_toNat]

theorem scanChar_pair (h : 0x10000 ≤ c.toNat) :
    scanChar ('\\' :: 'u' :: (hex4 (0xd800 + (c.toNat - 0x10000) / 0x400) ++
      '\\' :: 'u' :: (hex4 (0xdc00 + (c.toNat - 0x10000) % 0x400) ++ rest))) = some (c, rest) := by
  have hvalid : c.toNat < 0xd800 ∨ 0xdfff < c.toNat ∧ c.toNat < 0x110000 := c.valid
  rw [scanChar, fourHex_hex4 (by omega), Option.bind_some]
  dsimp only
  rw [if_pos (by omega)]
  change (fourHex (hex4 _ ++ rest)).bind _ = _
  rw [fourHex_hex4 (by omega), Option.bind_some]
  dsimp only
  rw [if_pos (by omega)]
  have hsum : 0x10000 + (0xd800 + (c.toNat - 0x10000) / 0x400 - 0xd800) * 0x400 +
      (0xdc00 + (c.toNat - 0x10000) % 0x400 - 0xdc00) = c.toNat := by omega
  rw [hsum, Char.ofNat_toNat]

theorem scanChar_plain (hc : c ≠ '\\') (h : 0x20 ≤ c.toNat) : scanChar (c :: rest) = some (c, rest) := by
  unfold scanChar
  split
  · rename_i heq
    exact absurd (List.cons.inj heq).1 hc
  · rename_i heq
    exact absurd (List.cons.inj heq).1 hc
  · rename_i heq
    exact absurd (List.cons.inj heq).1 hc
  · rename_i heq
    obtain ⟨rfl, rfl⟩ := List.cons.inj heq
    exact if_neg (Nat.not_lt.mpr h)
  · rename_i heq
    cases heq

/-- A character is read as it was written. -/
theorem scanChar_escapeChar (c : Char) (rest : Text) : scanChar (escapeChar c ++ rest) = some (c, rest) := by
  have hof : ∀ m, c.toNat = m → c = Char.ofNat m := fun m hm => by rw [← hm, Char.ofNat_toNat]
  rw [escapeChar]
  split_ifs with h1 h2 h3 h4 h5 h6 h7 h8
  · rcases h1 with h1 | h1 <;> rw [hof _ h1] <;> rfl
  · rw [hof _ h2]; rfl
  · rw [hof _ h3]; rfl
  · rw [hof _ h4]; rfl
  · rw [hof _ h5]; rfl
  · rw [hof _ h6]; rfl
  · exact scanChar_plain (fun hc => h1 (.inl (by rw [hc]; rfl))) h7.1
  · exact scanChar_code h8
  · rw [List.append_assoc, List.append_assoc, List.append_assoc]
    exact scanChar_pair (Nat.le_of_not_lt h8)

theorem head_escapeChar (c : Char) (rest : Text) : (escapeChar c ++ rest).head? ≠ some '"' := by
  rw [escapeChar]
  split_ifs with h1 h2 h3 h4 h5 h6 h7 h8
  · intro h
    cases h
  · intro h
    cases h
  · intro h
    cases h
  · intro h
    cases h
  · intro h
    cases h
  · intro h
    cases h
  · intro h
    obtain rfl : c = '"' := Option.some.inj h
    exact h1 (.inr rfl)
  · intro h
    cases h
  · intro h
    cases h

theorem scanString_quoted : ∀ (s : Text) {fuel : Nat} {rest : Text}, s.length < fuel →
    scanString fuel (s.flatMap escapeChar ++ '"' :: rest) = some (s, rest)
  | [], 0, _, h => absurd h (Nat.not_lt_zero _)
  | [], fuel + 1, rest, _ => by
    rw [scanString, if_pos (by rfl)]
    rfl
  | c :: s, 0, _, h => absurd h (Nat.not_lt_zero _)
  | c :: s, fuel + 1, rest, h => by
    have hrest := @scanString_quoted s fuel rest (Nat.lt_of_succ_lt_succ h)
    rw [scanString, List.flatMap_cons, List.append_assoc, if_neg (head_escapeChar c _), scanChar_escapeChar,
      Option.bind_some]
    dsimp only
    rw [hrest]
    rfl

end Strings

/-! ## Numbers that were written -/

def Digits (text : Text) : Prop := text ≠ [] ∧ ∀ c ∈ text, isDigit c = true

/-- A number of the JSON grammar. -/
inductive IsNumber : Text → Prop where
  | mk {s i f e : Text} (hs : s = [] ∨ s = ['-'])
    (hi : i = ['0'] ∨ ∃ c ds, i = c :: ds ∧ c ≠ '0' ∧ isDigit c = true ∧ ∀ d ∈ ds, isDigit d = true)
    (hf : f = [] ∨ ∃ ds, f = '.' :: ds ∧ Digits ds)
    (he : e = [] ∨ ∃ m s ds, e = m :: (s ++ ds) ∧ (m = 'e' ∨ m = 'E') ∧ (s = [] ∨ ∃ c ∈ ['-', '+'], s = [c]) ∧
      Digits ds) :
    IsNumber (s ++ (i ++ (f ++ e)))

/-- A number does not go on in the text. -/
def Ends (rest : Text) : Prop := ∀ c, rest.head? = some c → ¬ InNumber c

section NumbersWritten

variable {rest text s i f e : Text}

theorem ends_cons {c : Char} (h : ¬ InNumber c) : Ends (c :: text) := fun d hd => by
  cases hd
  exact h

theorem Ends.not_digit (h : Ends rest) : ∀ c, rest.head? = some c → isDigit c = false := fun c hc =>
  Bool.eq_false_iff.mpr fun hd => h c hc (.inl hd)

theorem sign_append {signs : List Char} (hs : s = [] ∨ ∃ c ∈ signs, s = [c])
    (hrest : ∀ c, text.head? = some c → c ∉ signs) : sign signs (s ++ text) = (s, text) := by
  rcases hs with rfl | ⟨c, hc, rfl⟩
  · cases text with
    | nil => rfl
    | cons d text => rw [List.nil_append, sign, if_neg (hrest d rfl)]
  · rw [List.singleton_append, sign, if_pos hc]

theorem not_sign_of_digit {c : Char} (h : isDigit c = true) : c ∉ ['-', '+'] := by
  intro hc
  simp only [List.mem_cons, List.not_mem_nil, or_false] at hc
  rcases hc with rfl | rfl <;> cases h

theorem exponent_append (he : e = [] ∨ ∃ m s ds, e = m :: (s ++ ds) ∧ (m = 'e' ∨ m = 'E') ∧
      (s = [] ∨ ∃ c ∈ ['-', '+'], s = [c]) ∧ Digits ds) (hrest : Ends rest) : exponent (e ++ rest) = (e, rest) := by
  rcases he with rfl | ⟨m, s, ds, rfl, hm, hs, hne, hds⟩
  · cases rest with
    | nil => rfl
    | cons c rest =>
      have hc : ¬ (c = 'e' ∨ c = 'E') := by
        intro hc
        refine hrest c rfl (.inr ?_)
        rcases hc with rfl | rfl <;> decide
      rw [List.nil_append, exponent]
      exact if_neg fun h => hc h.1
  · obtain ⟨d, ds, rfl⟩ := List.exists_cons_of_ne_nil hne
    have hsign : sign ['-', '+'] (s ++ (d :: ds ++ rest)) = (s, d :: ds ++ rest) :=
      sign_append hs fun c hc => by
        cases hc
        exact not_sign_of_digit (hds d List.mem_cons_self)
    obtain ⟨htake, hdrop⟩ := Cut.span_eq hds hrest.not_digit
    rw [List.cons_append, List.append_assoc, exponent, hsign]
    dsimp only
    rw [htake, hdrop, if_pos ⟨hm, hne⟩]

theorem fraction_append (hf : f = [] ∨ ∃ ds, f = '.' :: ds ∧ Digits ds)
    (hrest : ∀ c, rest.head? = some c → c ≠ '.' ∧ isDigit c = false) : fraction (f ++ rest) = (f, rest) := by
  rcases hf with rfl | ⟨ds, rfl, hne, hds⟩
  · cases rest with
    | nil => rfl
    | cons c rest =>
      rw [List.nil_append, fraction, if_neg fun h => (hrest c rfl).1 h.1]
  · obtain ⟨htake, hdrop⟩ := Cut.span_eq hds fun c hc => (hrest c hc).2
    rw [List.cons_append, fraction, htake, hdrop, if_pos ⟨rfl, hne⟩]

theorem integerPart_append
    (hi : i = ['0'] ∨ ∃ c ds, i = c :: ds ∧ c ≠ '0' ∧ isDigit c = true ∧ ∀ d ∈ ds, isDigit d = true)
    (hrest : ∀ c, rest.head? = some c → isDigit c = false) : integerPart (i ++ rest) = some (i, rest) := by
  rcases hi with rfl | ⟨c, ds, rfl, hc, hdigit, hds⟩
  · rfl
  · obtain ⟨htake, hdrop⟩ := Cut.span_eq hds hrest
    rw [List.cons_append, integerPart, if_neg hc, if_pos hdigit, htake, hdrop]

/-- A number is read to its end. -/
theorem matchNumber_append {repr : Text} (h : IsNumber repr) (hrest : Ends rest) :
    matchNumber (repr ++ rest) = some (repr, rest) := by
  cases h with | @mk s i f e hs hi hf he =>
  have hexp : ∀ c, (e ++ rest).head? = some c → c ≠ '.' ∧ isDigit c = false := by
    intro c hc
    rcases he with rfl | ⟨m, s, ds, rfl, hm, _⟩
    · refine ⟨fun hdot => hrest c hc (.inr (by rw [hdot]; decide)), hrest.not_digit c hc⟩
    · cases hc
      rcases hm with rfl | rfl <;> decide
  have hfrac : ∀ c, (f ++ (e ++ rest)).head? = some c → isDigit c = false := by
    intro c hc
    rcases hf with rfl | ⟨ds, rfl, _⟩
    · exact (hexp c hc).2
    · cases hc
      rfl
  have hint : ∀ c, (i ++ (f ++ (e ++ rest))).head? = some c → c ∉ ['-'] := by
    intro c hc hmem
    rw [List.mem_singleton.mp hmem] at hc
    rcases hi with rfl | ⟨d, ds, rfl, _, hdigit, _⟩
    · cases hc
    · cases hc
      cases hdigit
  have hsign : sign ['-'] (s ++ (i ++ (f ++ (e ++ rest)))) = (s, i ++ (f ++ (e ++ rest))) :=
    sign_append (hs.imp_right fun h => ⟨'-', List.mem_singleton_self _, h⟩) hint
  rw [matchNumber, List.append_assoc, List.append_assoc, List.append_assoc, hsign]
  dsimp only
  rw [integerPart_append hi hfrac, Option.map_some]
  dsimp only
  rw [fraction_append hf hexp]
  dsimp only
  rw [exponent_append he hrest]

end NumbersWritten

/-! ## Values that were written -/

/-- A value of Python: a number is written as `repr` writes it, and the keys of a
dict are distinct. -/
inductive Valid (number : Text → Option Text) : Json → Prop where
  | null : Valid number .null
  | bool (b : Bool) : Valid number (.bool b)
  | num {repr : Text} (h : IsNumber repr) (hrepr : number repr = some repr) : Valid number (.num repr)
  | str (s : Text) : Valid number (.str s)
  | arr {items : List Json} (h : ∀ v ∈ items, Valid number v) : Valid number (.arr items)
  | obj {fields : List (Text × Json)} (hkeys : (fields.map Prod.fst).Nodup) (h : ∀ f ∈ fields, Valid number f.2) :
    Valid number (.obj fields)

def itemsText (items : List Json) : Text := List.intercalate ", ".toList (items.map dumps)

def fieldText (f : Text × Json) : Text := '"' :: (f.1.flatMap escapeChar ++ '"' :: ':' :: ' ' :: dumps f.2)

def fieldsText (fields : List (Text × Json)) : Text := List.intercalate ", ".toList (fields.map fieldText)

theorem dumpsItems_eq : ∀ items : List Json, dumpsItems items = items.map dumps
  | [] => rfl
  | item :: items => by rw [dumpsItems, dumpsItems_eq items, List.map_cons]

theorem dumpsFields_eq : ∀ fields : List (Text × Json), dumpsFields fields = fields.map fieldText
  | [] => rfl
  | (key, v) :: fields => by
    rw [dumpsFields, dumpsFields_eq fields, List.map_cons]
    congr 1
    simp [fieldText, quoted]

theorem dumps_str (s : Text) : dumps (.str s) = '"' :: (s.flatMap escapeChar ++ ['"']) := rfl

theorem dumps_arr (items : List Json) : dumps (.arr items) = '[' :: (itemsText items ++ [']']) := by
  rw [dumps, dumpsItems_eq]
  rfl

theorem dumps_obj (fields : List (Text × Json)) : dumps (.obj fields) = '\x7b' :: (fieldsText fields ++ ['\x7d']) := by
  rw [dumps, dumpsFields_eq]
  rfl

section Written

variable {number : Text → Option Text} {v : Json} {items : List Json} {fields : List (Text × Json)} {rest s : Text}
  {fuel : Nat}

theorem length_le_escaped (s : Text) : s.length ≤ (s.flatMap escapeChar).length := by
  induction s with
  | nil => rfl
  | cons c s ih =>
    have hne : 0 < (escapeChar c).length := by
      refine List.length_pos_iff.mpr fun hnil => ?_
      have := scanChar_escapeChar c []
      rw [hnil] at this
      cases this
    rw [List.flatMap_cons, List.length_append, List.length_cons]
    omega

/-- The first character of a number. -/
theorem head_number {repr : Text} (h : IsNumber repr) :
    ∃ c text, repr = c :: text ∧ (isDigit c = true ∨ c = '-' ∧ ∃ d tail, text = d :: tail ∧ isDigit d = true) := by
  cases h with | @mk s i f e hs hi _ _ =>
  obtain ⟨d, tail, htail, hd⟩ : ∃ d tail, i ++ (f ++ e) = d :: tail ∧ isDigit d = true := by
    rcases hi with rfl | ⟨c, ds, rfl, _, hdigit, _⟩
    · exact ⟨'0', f ++ e, rfl, rfl⟩
    · exact ⟨c, ds ++ (f ++ e), rfl, hdigit⟩
  rw [htail]
  rcases hs with rfl | rfl
  · exact ⟨d, tail, rfl, .inl hd⟩
  · exact ⟨'-', d :: tail, rfl, .inr ⟨rfl, d, tail, rfl, hd⟩⟩

theorem scanAtom_number {repr : Text} (h : IsNumber repr) (hrepr : number repr = some repr) (hrest : Ends rest) :
    scanAtom number (repr ++ rest) = some (.num repr, rest) := by
  have hfirst : ∀ l ∈ literals, ∃ c word, l.1 = c :: word ∧ isDigit c = false ∧ (c = '-' → word.head? = some 'I') := by
    simp [literals, isDigit]
  have hnone : ∀ l ∈ literals, ¬ l.1 <+: repr ++ rest := by
    intro l hl hprefix
    obtain ⟨c, word, hword, hc, hminus⟩ := hfirst l hl
    obtain ⟨d, text, rfl, hd⟩ := head_number h
    rw [hword, List.cons_append, List.cons_prefix_cons] at hprefix
    obtain ⟨rfl, hprefix⟩ := hprefix
    rcases hd with hd | ⟨rfl, d, tail, rfl, hd⟩
    · rw [hc] at hd
      cases hd
    · obtain ⟨word, rfl⟩ := List.head?_eq_some_iff.mp (hminus rfl)
      rw [List.cons_append, List.cons_prefix_cons] at hprefix
      rw [← hprefix.1] at hd
      cases hd
  rw [scanAtom, List.find?_eq_none.mpr fun l hl hprefix => hnone l hl (List.isPrefixOf_iff_prefix.mp hprefix)]
  dsimp only
  rw [matchNumber_append h hrest, Option.bind_some]
  dsimp only
  rw [hrepr]
  rfl

theorem head_dumps (h : Valid number v) : ∃ c text, dumps v = c :: text ∧ isWhitespace c = false ∧ c ≠ ']' := by
  cases h with
  | null => exact ⟨_, _, rfl, rfl, by decide⟩
  | bool b => cases b <;> exact ⟨_, _, rfl, rfl, by decide⟩
  | num h hrepr =>
    obtain ⟨c, text, heq, hc⟩ := head_number h
    refine ⟨c, text, heq, ?_⟩
    rcases hc with hc | ⟨rfl, _⟩
    · constructor
      · simp only [isWhitespace, Bool.or_eq_false_iff, beq_eq_false_iff_ne]
        refine ⟨⟨⟨?_, ?_⟩, ?_⟩, ?_⟩ <;> rintro rfl <;> cases hc
      · rintro rfl
        cases hc
    · decide
  | str s => exact ⟨_, _, rfl, rfl, by decide⟩
  | arr h => exact ⟨_, _, dumps_arr _, rfl, by decide⟩
  | obj hkeys h => exact ⟨_, _, dumps_obj _, rfl, by decide⟩

theorem skip_cons {c : Char} (hc : isWhitespace c = false) : skipWhitespace (c :: rest) = c :: rest := by
  rw [skipWhitespace, List.dropWhile_cons, hc]
  rfl

theorem skip_dumps (h : Valid number v) : skipWhitespace (dumps v ++ rest) = dumps v ++ rest := by
  obtain ⟨c, text, heq, hc, _⟩ := head_dumps h
  rw [heq, List.cons_append, skip_cons hc]

/-- The value is read to its end, with fuel for its length. -/
def ReadBack (number : Text → Option Text) (v : Json) : Prop :=
  ∀ fuel rest, (dumps v).length ≤ fuel → Ends rest → scanOnce number fuel (dumps v ++ rest) = some (v, rest)

theorem itemsText_cons (v w : Json) (items : List Json) :
    itemsText (v :: w :: items) = dumps v ++ ',' :: ' ' :: itemsText (w :: items) := by
  rw [itemsText, List.map_cons, List.map_cons, List.intercalate_cons_cons, List.append_assoc]
  rfl

theorem skip_space : skipWhitespace (' ' :: rest) = skipWhitespace rest := rfl

/-- Items begin with a value. -/
theorem head_itemsText (hvalid : ∀ v ∈ items, Valid number v) (hne : items ≠ []) (rest : Text) :
    skipWhitespace (itemsText items ++ rest) = itemsText items ++ rest ∧
      (itemsText items ++ rest).head? ≠ some ']' := by
  obtain ⟨v, items, rfl⟩ := List.exists_cons_of_ne_nil hne
  obtain ⟨tail, htail⟩ : ∃ tail, itemsText (v :: items) = dumps v ++ tail := by
    cases items with
    | nil => exact ⟨[], by rw [itemsText, List.map_singleton, List.intercalate_singleton, List.append_nil]⟩
    | cons w items => exact ⟨_, itemsText_cons v w items⟩
  obtain ⟨c, text, heq, _, hc⟩ := head_dumps (hvalid v List.mem_cons_self)
  rw [htail, List.append_assoc, skip_dumps (hvalid v List.mem_cons_self)]
  refine ⟨rfl, ?_⟩
  rw [heq]
  exact fun h => hc (Option.some.inj h)

theorem scanItems_itemsText (hvalid : ∀ v ∈ items, Valid number v) (hread : ∀ v ∈ items, ReadBack number v)
    (hne : items ≠ []) (hfuel : (itemsText items).length < fuel) :
    scanItems number fuel (itemsText items ++ ']' :: rest) = some (items, rest) := by
  induction items generalizing fuel with
  | nil => exact absurd rfl hne
  | cons v items ih =>
    obtain ⟨hv, hitems⟩ := List.forall_mem_cons.mp hvalid
    obtain ⟨hreadv, hreads⟩ := List.forall_mem_cons.mp hread
    cases fuel with
    | zero => exact absurd hfuel (Nat.not_lt_zero _)
    | succ fuel =>
      cases items with
      | nil =>
        have hone : itemsText [v] = dumps v := by rw [itemsText, List.map_singleton, List.intercalate_singleton]
        rw [hone] at hfuel ⊢
        rw [scanItems, hreadv fuel _ (Nat.le_of_lt_succ hfuel) (ends_cons (by simp [InNumber, isDigit])),
          Option.bind_some]
        dsimp only
        rw [skip_cons rfl]
        rfl
      | cons w items =>
        rw [itemsText_cons] at hfuel ⊢
        rw [List.length_append, List.length_cons, List.length_cons] at hfuel
        have hskip := (head_itemsText hitems (by simp) (']' :: rest)).1
        have hrest := @ih fuel hitems hreads (by simp) (by omega)
        rw [List.append_assoc, List.cons_append, List.cons_append, scanItems,
          hreadv fuel _ (by omega) (ends_cons (by simp [InNumber, isDigit])), Option.bind_some]
        dsimp only
        rw [skip_cons rfl]
        dsimp only
        rw [if_neg (by decide), if_pos rfl, skip_space, hskip, hrest]
        rfl

theorem fieldsText_cons (f g : Text × Json) (fields : List (Text × Json)) :
    fieldsText (f :: g :: fields) = fieldText f ++ ',' :: ' ' :: fieldsText (g :: fields) := by
  rw [fieldsText, List.map_cons, List.map_cons, List.intercalate_cons_cons, List.append_assoc]
  rfl

/-- Fields begin with a quote. -/
theorem head_fieldsText (hne : fields ≠ []) (rest : Text) : ∃ text, fieldsText fields ++ rest = '"' :: text := by
  obtain ⟨f, fields, rfl⟩ := List.exists_cons_of_ne_nil hne
  cases fields with
  | nil => exact ⟨_, by rw [fieldsText, List.map_singleton, List.intercalate_singleton, fieldText, List.cons_append]⟩
  | cons g fields => exact ⟨_, by rw [fieldsText_cons, fieldText, List.cons_append, List.cons_append]⟩

/-- A field is read up to what follows its value. -/
theorem scanFields_field {f : Text × Json} (hvalid : Valid number f.2) (hread : ReadBack number f.2)
    (hfuel : (fieldText f).length ≤ fuel) (hrest : Ends rest) : scanFields number (fuel + 1) (fieldText f ++ rest) =
      match skipWhitespace rest with
      | [] => none
      | c :: text =>
        if c = '\x7d' then some ([f], text)
        else if c = ',' then
          (scanFields number fuel (skipWhitespace text)).map fun (fields, text) => (f :: fields, text)
        else none := by
  obtain ⟨key, v⟩ := f
  rw [fieldText, List.length_cons, List.length_append, List.length_cons, List.length_cons, List.length_cons] at hfuel
  dsimp only at hfuel hvalid
  have hstring : scanString ('"' :: (key.flatMap escapeChar ++ '"' :: ':' :: ' ' :: (dumps v ++ rest))).length
      (key.flatMap escapeChar ++ '"' :: ':' :: ' ' :: (dumps v ++ rest)) = some (key, ':' :: ' ' :: (dumps v ++ rest)) :=
    scanString_quoted key (by
      have := length_le_escaped key
      rw [List.length_cons, List.length_append]
      omega)
  have honce := hread fuel rest (by dsimp only; omega) hrest
  have htext : fieldText (key, v) ++ rest = '"' :: (key.flatMap escapeChar ++ '"' :: ':' :: ' ' :: (dumps v ++ rest)) := by
    simp [fieldText]
  rw [htext, scanFields, List.head?_cons, if_pos rfl, List.tail_cons, hstring, Option.bind_some]
  dsimp only
  rw [skip_cons rfl, List.head?_cons, if_pos rfl, List.tail_cons, skip_space, skip_dumps hvalid, honce]
  rfl

theorem scanFields_fieldsText (hvalid : ∀ f ∈ fields, Valid number f.2) (hread : ∀ f ∈ fields, ReadBack number f.2)
    (hne : fields ≠ []) (hfuel : (fieldsText fields).length < fuel) :
    scanFields number fuel (fieldsText fields ++ '\x7d' :: rest) = some (fields, rest) := by
  induction fields generalizing fuel with
  | nil => exact absurd rfl hne
  | cons f fields ih =>
    obtain ⟨hf, hfields⟩ := List.forall_mem_cons.mp hvalid
    obtain ⟨hreadf, hreads⟩ := List.forall_mem_cons.mp hread
    cases fuel with
    | zero => exact absurd hfuel (Nat.not_lt_zero _)
    | succ fuel =>
      cases fields with
      | nil =>
        have hone : fieldsText [f] = fieldText f := by rw [fieldsText, List.map_singleton, List.intercalate_singleton]
        rw [hone] at hfuel ⊢
        rw [scanFields_field hf hreadf (Nat.le_of_lt_succ hfuel) (ends_cons (by simp [InNumber, isDigit])),
          skip_cons rfl]
        rfl
      | cons g fields =>
        rw [fieldsText_cons] at hfuel ⊢
        rw [List.length_append, List.length_cons, List.length_cons] at hfuel
        obtain ⟨text, htext⟩ := @head_fieldsText (g :: fields) (by simp) ('\x7d' :: rest)
        have hrest := @ih fuel hfields hreads (by simp) (by omega)
        rw [List.append_assoc, List.cons_append, List.cons_append,
          scanFields_field hf hreadf (by omega) (ends_cons (by simp [InNumber, isDigit])), skip_cons rfl]
        dsimp only
        rw [if_neg (by decide), if_pos rfl, skip_space, htext, skip_cons rfl, ← htext, hrest]
        rfl

theorem dict_eq (h : (fields.map Prod.fst).Nodup) : dict fields = fields :=
  KeyedMerge.merge_of_new h fun _ _ => List.not_mem_nil

theorem readBack_arr (hvalid : ∀ v ∈ items, Valid number v) (hread : ∀ v ∈ items, ReadBack number v) :
    ReadBack number (.arr items) := by
  intro fuel rest hfuel hrest
  rw [dumps_arr, List.length_cons, List.length_append, List.length_singleton] at hfuel
  cases fuel with
  | zero => exact absurd hfuel (Nat.not_succ_le_zero _)
  | succ fuel =>
    rw [dumps_arr, List.cons_append, List.append_assoc, List.singleton_append, scanOnce, if_neg (by decide), if_pos rfl]
    by_cases hne : items = []
    · subst hne
      rfl
    · obtain ⟨hskip, hhead⟩ := head_itemsText hvalid hne (']' :: rest)
      rw [hskip, if_neg hhead, scanItems_itemsText hvalid hread hne (by omega)]
      rfl

theorem readBack_obj (hkeys : (fields.map Prod.fst).Nodup) (hvalid : ∀ f ∈ fields, Valid number f.2)
    (hread : ∀ f ∈ fields, ReadBack number f.2) : ReadBack number (.obj fields) := by
  intro fuel rest hfuel hrest
  rw [dumps_obj, List.length_cons, List.length_append, List.length_singleton] at hfuel
  cases fuel with
  | zero => exact absurd hfuel (Nat.not_succ_le_zero _)
  | succ fuel =>
    rw [dumps_obj, List.cons_append, List.append_assoc, List.singleton_append, scanOnce, if_neg (by decide),
      if_neg (by decide), if_pos rfl]
    by_cases hne : fields = []
    · subst hne
      rfl
    · obtain ⟨text, htext⟩ := head_fieldsText hne ('\x7d' :: rest)
      have hfields := @scanFields_fieldsText number fields rest fuel hvalid hread hne (by omega)
      rw [htext] at hfields ⊢
      rw [skip_cons rfl, List.head?_cons, if_neg (by decide), hfields, Option.map_some]
      dsimp only
      rw [dict_eq hkeys]

/-- **What was written is read**, by induction on the value. -/
theorem readBack (h : Valid number v) : ReadBack number v := by
  induction h with
  | null =>
    intro fuel rest hfuel _
    cases fuel with
    | zero => exact absurd hfuel (by decide)
    | succ fuel => rfl
  | bool b =>
    intro fuel rest hfuel _
    cases fuel with
    | zero => cases b <;> exact absurd hfuel (by decide)
    | succ fuel => cases b <;> rfl
  | num h hrepr =>
    intro fuel rest hfuel hrest
    have hatom := scanAtom_number h hrepr hrest
    obtain ⟨c, text, heq, hc⟩ := head_number h
    have hplain : c ≠ '"' ∧ c ≠ '[' ∧ c ≠ '\x7b' := by
      rcases hc with hc | ⟨rfl, _⟩
      · refine ⟨?_, ?_, ?_⟩ <;> rintro rfl <;> cases hc
      · decide
    cases fuel with
    | zero =>
      rw [dumps, heq] at hfuel
      exact absurd hfuel (Nat.not_succ_le_zero _)
    | succ fuel =>
      rw [dumps]
      rw [heq, List.cons_append] at hatom ⊢
      rw [scanOnce, if_neg hplain.1, if_neg hplain.2.1, if_neg hplain.2.2, hatom]
  | str s =>
    intro fuel rest hfuel _
    cases fuel with
    | zero => exact absurd hfuel (Nat.not_succ_le_zero _)
    | succ fuel =>
      have hlength := length_le_escaped s
      rw [dumps_str, List.cons_append, List.append_assoc, List.singleton_append, scanOnce, if_pos rfl,
        scanString_quoted]
      · rfl
      · rw [List.length_append, List.length_cons]
        omega
  | arr h ih => exact readBack_arr h ih
  | obj hkeys h ih => exact readBack_obj hkeys h ih

/-- `json.loads` reads what `json.dumps` wrote, with white space around it. -/
theorem loads_dumps {front : Text} (h : Valid number v) (hfront : ∀ c ∈ front, isWhitespace c = true)
    (hrest : ∀ c ∈ rest, isWhitespace c = true) : loads number (front ++ (dumps v ++ rest)) = some v := by
  have hskip : skipWhitespace (front ++ (dumps v ++ rest)) = dumps v ++ rest := by
    rw [skipWhitespace, List.dropWhile_append_of_pos hfront]
    exact skip_dumps h
  have hends : Ends rest := fun c hc hnumber => by
    have hwhite := hrest c (List.mem_of_head? hc)
    simp only [isWhitespace, Bool.or_eq_true, beq_iff_eq] at hwhite
    rcases hwhite with ((rfl | rfl) | rfl) | rfl <;> simp [InNumber, isDigit] at hnumber
  rw [loads, hskip, readBack h _ rest (by rw [List.length_append, List.length_append]; omega) hends]
  exact if_pos (List.dropWhile_eq_nil_iff.mpr hrest)

end Written

end ContextBroker.JsonText
