import ContextBroker.L6Knowledge.Strptime
import Mathlib.Data.List.TakeWhile

/-!
# `resolve_temporal`

An `expires_at` of the model becomes the date a fact expires at. Three formats
are tried; then a pattern anchored at the start alone reads "in N units" and
adds them to the date of the extraction. `timedelta` and `datetime` are
bounded, and `int` reads 4300 digits at most.

`Documented` is the grammar of the docstring: "in 3 days", "2 months" and
"next week". `Correct` is what a resolution owes its caller, and
`resolved_iff` says of which texts it is true.
-/
namespace ContextBroker.Temporal

open Strptime

/-! ## The pattern -/

inductive TimeUnit where
  | day | week | month | year
  deriving DecidableEq, Repr

def TimeUnit.name : TimeUnit → Text
  | .day => "day".toList
  | .week => "week".toList
  | .month => "month".toList
  | .year => "year".toList

def TimeUnit.days : TimeUnit → Nat
  | .day => 1
  | .week => 7
  | .month => 30
  | .year => 365

/-- The letters that `str.lower` makes ASCII ones; the pattern tells no others
apart from their lower case. -/
def lowerChar (c : Char) : Text :=
  if 'A' ≤ c ∧ c ≤ 'Z' then [Char.ofNat (c.toNat + 32)]
  else if c = '\u212a' then ['k']
  else if c = '\u0130' then ['i', '\u0307']
  else [c]

def lower (text : Text) : Text := text.flatMap lowerChar

/-- What `(\d+) (unit)s?` matched, and the rest of the text. -/
structure Match where
  amount : Text
  unit : TimeUnit
  rest : Text
  deriving DecidableEq, Repr

/-- `\s+` -/
def spaces (text : Text) : Option Text :=
  if text.takeWhile isSpace = [] then none else some (text.dropWhile isSpace)

/-- `(\d+)` -/
def digits (text : Text) : Option (Text × Text) :=
  if text.takeWhile digit = [] then none else some (text.takeWhile digit, text.dropWhile digit)

/-- `s?` -/
def plural : Text → Text
  | 's' :: rest => rest
  | rest => rest

/-- `(day|week|month|year)s?` -/
def timeUnit (text : Text) : Option (TimeUnit × Text) :=
  [TimeUnit.day, .week, .month, .year].findSome? fun unit =>
    if unit.name.isPrefixOf text then some (unit, plural (text.drop unit.name.length)) else none

/-- `(\d+)\s+(day|week|month|year)s?` -/
def amountOf (text : Text) : Option Match :=
  (digits text).bind fun (amount, text) => (spaces text).bind fun text =>
    (timeUnit text).map fun (unit, rest) => ⟨amount, unit, rest⟩

/-- `re.match(r"in\s+(\d+)\s+(day|week|month|year)s?", text)` -/
def matchRelative : Text → Option Match
  | 'i' :: 'n' :: text => (spaces text).bind amountOf
  | _ => none

/-! ## Dates -/

/-- `sys.get_int_max_str_digits()` -/
def maxDigits : Nat := 4300

/-- `int(text)` of decimal digits. -/
def int (text : Text) : Except Exn Nat :=
  if maxDigits < text.length then .error .valueError else .ok (number text)

/-- `timedelta(days=days)` -/
def timedelta (days : Nat) : Except Exn Nat := if 999999999 < days then .error .overflowError else .ok days

/-- The date that many days later, if there is one. -/
def after (date : DateTime) (days : Nat) : Option DateTime :=
  if h : date.day + days < maxOrdinal then some ⟨date.day + days, date.micros, date.offset, h, date.inRange.2⟩ else none

/-- `date + delta` -/
def add (date : DateTime) (delta : Nat) : Except Exn DateTime :=
  match after date delta with
  | some dt => .ok dt
  | none => .error .overflowError

/-- mirrors quality_wrapper.py:56-93 -/
def resolveTemporal (raw : Option Text) (date : DateTime) : Except Exn (Option DateTime) :=
  match raw with
  | none | some [] => .ok none
  | some text =>
    match strptimeAny [zonedFormat, utcFormat, dateFormat] text with
    | some dt => .ok (some dt)
    | none =>
      match matchRelative (strip (lower text)) with
      | some m => do
        let amount ← int m.amount
        let delta ← timedelta (amount * m.unit.days)
        return some (← add date delta)
      | none => .ok none

/-! ## What is documented -/

def Spaces (text : Text) : Prop := text ≠ [] ∧ ∀ c ∈ text, isSpace c = true

def Digits (text : Text) : Prop := text ≠ [] ∧ ∀ c ∈ text, digit c = true

instance (text : Text) : Decidable (Spaces text) := inferInstanceAs (Decidable (_ ∧ _))

instance (text : Text) : Decidable (Digits text) := inferInstanceAs (Decidable (_ ∧ _))

/-- "3 days" -/
inductive Amount : Text → Nat → Prop where
  | mk {amount space suffix : Text} (unit : TimeUnit) (hamount : Digits amount) (hspace : Spaces space)
    (hsuffix : suffix = [] ∨ suffix = ['s']) :
    Amount (amount ++ (space ++ (unit.name ++ suffix))) (number amount * unit.days)

/-- "in 3 days", "2 months" and "next week". -/
inductive Documented : Text → Nat → Prop where
  | within {space text : Text} {days : Nat} (hspace : Spaces space) (h : Amount text days) :
    Documented ('i' :: 'n' :: (space ++ text)) days
  | amount {text : Text} {days : Nat} (h : Amount text days) : Documented text days
  | next {space : Text} (unit : TimeUnit) (hspace : Spaces space) :
    Documented ('n' :: 'e' :: 'x' :: 't' :: (space ++ unit.name)) unit.days

/-- What a resolution owes its caller: it never raises; an ISO 8601 text denotes
its instant; a documented reference is so many days after the extraction, or
nothing where the calendar ends; and a text that merely starts with one is
nothing. -/
structure Correct (raw : Option Text) (date : DateTime) : Prop where
  total : ∃ resolved, resolveTemporal raw date = .ok resolved
  iso : ∀ iso : Iso, iso.Valid → raw = some iso.text →
    ∃ dt, resolveTemporal raw date = .ok (some dt) ∧ dt.instant = iso.instant
  relative : ∀ text days, raw = some text → Documented (strip (lower text)) days →
    resolveTemporal raw date = .ok (after date days)
  whole : ∀ text front rest days, raw = some text → strip (lower text) = front ++ rest → Documented front days →
    (∀ days, ¬ Documented (strip (lower text)) days) → resolveTemporal raw date = .ok none

/-! ## Reading a reference -/

section Reading

variable {front rest text space amount suffix : Text} {unit : TimeUnit} {m : Match} {days : Nat}

theorem span_eq {p : Char → Bool} (hfront : ∀ c ∈ front, p c = true) (hrest : ∀ c, rest.head? = some c → p c = false) :
    (front ++ rest).takeWhile p = front ∧ (front ++ rest).dropWhile p = rest := by
  rw [List.takeWhile_append_of_pos hfront, List.dropWhile_append_of_pos hfront]
  cases rest with
  | nil => exact ⟨List.append_nil front, rfl⟩
  | cons c rest =>
    rw [List.takeWhile_cons, List.dropWhile_cons, hrest c rfl]
    exact ⟨List.append_nil front, rfl⟩

theorem not_digit_of_isSpace {c : Char} (h : isSpace c = true) : digit c = false := by
  have hzeros : ∀ z ∈ digitZeros,
      z = 0x30 ∨ 0x660 ≤ z ∧ z + 10 ≤ 0x1680 ∨ 0x1681 ≤ z ∧ z + 10 ≤ 0x2000 ∨ 0x3001 ≤ z := by
    decide
  rw [digit, isDecimalDigit, List.any_eq_false]
  intro z hz
  have := hzeros z hz
  simp only [isSpace, Bool.or_eq_true, Bool.and_eq_true, decide_eq_true_eq, beq_iff_eq] at h ⊢
  omega

theorem not_isSpace_of_digit {c : Char} (h : digit c = true) : isSpace c = false := by
  by_contra hspace
  rw [not_digit_of_isSpace (Bool.eq_true_of_not_eq_false hspace)] at h
  cases h

theorem head_spaces (h : Spaces space) {c : Char} (hc : (space ++ rest).head? = some c) : isSpace c = true := by
  obtain ⟨hne, hall⟩ := h
  obtain ⟨d, space, rfl⟩ := List.exists_cons_of_ne_nil hne
  cases hc
  exact hall c List.mem_cons_self

theorem head_digits (h : Digits amount) {c : Char} (hc : (amount ++ rest).head? = some c) : digit c = true := by
  obtain ⟨hne, hall⟩ := h
  obtain ⟨d, amount, rfl⟩ := List.exists_cons_of_ne_nil hne
  cases hc
  exact hall c List.mem_cons_self

/-! ### What is written is read -/

theorem spaces_append (h : Spaces space) (hrest : ∀ c, rest.head? = some c → isSpace c = false) :
    spaces (space ++ rest) = some rest := by
  obtain ⟨htake, hdrop⟩ := span_eq h.2 hrest
  rw [spaces, htake, hdrop, if_neg h.1]

theorem digits_append (h : Digits amount) (hrest : ∀ c, rest.head? = some c → digit c = false) :
    digits (amount ++ rest) = some (amount, rest) := by
  obtain ⟨htake, hdrop⟩ := span_eq h.2 hrest
  rw [digits, htake, hdrop, if_neg h.1]

theorem timeUnit_append (h : suffix = [] ∨ suffix = ['s']) : timeUnit (unit.name ++ suffix) = some (unit, []) := by
  rcases h with rfl | rfl <;> cases unit <;> rfl

theorem amountOf_amount (h : Amount text days) :
    ∃ amount unit, amountOf text = some ⟨amount, unit, []⟩ ∧ days = number amount * unit.days := by
  cases h with
  | @mk amount space suffix unit hamount hspace hsuffix =>
    refine ⟨amount, unit, ?_, rfl⟩
    have hname : ∀ c, (unit.name ++ suffix).head? = some c → isSpace c = false := fun c hc => by
      cases unit <;> cases hc <;> rfl
    rw [amountOf, digits_append hamount fun c hc => not_digit_of_isSpace (head_spaces hspace hc), Option.bind_some]
    dsimp only
    rw [spaces_append hspace hname, Option.bind_some, timeUnit_append hsuffix]
    rfl

theorem head_amount (h : Amount text days) {c : Char} (hc : (text ++ rest).head? = some c) : digit c = true := by
  cases h with
  | mk unit hamount _ _ =>
    rw [List.append_assoc] at hc
    exact head_digits hamount hc

/-- A documented reference is read to its end, if it has its "in". -/
theorem matchRelative_documented (h : Documented text days) :
    (∃ amount unit, matchRelative text = some ⟨amount, unit, []⟩ ∧ days = number amount * unit.days) ∨
      matchRelative text = none := by
  cases h with
  | @within space text days hspace h =>
    have hhead : ∀ c, text.head? = some c → isSpace c = false := fun c hc =>
      not_isSpace_of_digit (head_amount h (by rwa [List.append_nil]))
    obtain ⟨amount, unit, hread, hdays⟩ := amountOf_amount h
    refine .inl ⟨amount, unit, ?_, hdays⟩
    rw [matchRelative, spaces_append hspace hhead, Option.bind_some, hread]
  | amount h =>
    refine .inr ?_
    unfold matchRelative
    split
    · have hi : digit 'i' = true := head_amount h (by rw [List.append_nil]; rfl)
      cases hi
    · rfl
  | next unit hspace => exact .inr rfl

/-! ### What is read was written -/

theorem spaces_eq (h : spaces text = some rest) : ∃ space, Spaces space ∧ text = space ++ rest := by
  rw [spaces] at h
  split at h
  · cases h
  · rename_i hne
    cases h
    exact ⟨_, ⟨hne, fun c hc => List.all_eq_true.mp List.all_takeWhile c hc⟩, List.takeWhile_append_dropWhile.symm⟩

theorem digits_eq (h : digits text = some (amount, rest)) : Digits amount ∧ text = amount ++ rest := by
  rw [digits] at h
  split at h
  · cases h
  · rename_i hne
    cases h
    exact ⟨⟨hne, fun c hc => List.all_eq_true.mp List.all_takeWhile c hc⟩, List.takeWhile_append_dropWhile.symm⟩

theorem plural_eq : ∃ suffix, (suffix = [] ∨ suffix = ['s']) ∧ text = suffix ++ plural text := by
  unfold plural
  split
  · exact ⟨['s'], .inr rfl, rfl⟩
  · exact ⟨[], .inl rfl, rfl⟩

theorem timeUnit_eq (h : timeUnit text = some (unit, rest)) :
    ∃ suffix, (suffix = [] ∨ suffix = ['s']) ∧ text = unit.name ++ (suffix ++ rest) := by
  obtain ⟨u, _, hu⟩ := List.exists_of_findSome?_eq_some h
  split at hu
  · rename_i hprefix
    cases hu
    obtain ⟨tail, rfl⟩ := List.isPrefixOf_iff_prefix.mp hprefix
    obtain ⟨suffix, hsuffix, heq⟩ := @plural_eq tail
    refine ⟨suffix, hsuffix, ?_⟩
    rw [List.drop_left, ← heq]
  · cases hu

/-- What the pattern matches is a documented reference. -/
theorem matchRelative_eq (h : matchRelative text = some m) :
    ∃ front, text = front ++ m.rest ∧ Documented front (number m.amount * m.unit.days) := by
  unfold matchRelative at h
  split at h
  · obtain ⟨text, hspaces, h⟩ := Option.bind_eq_some_iff.mp h
    obtain ⟨⟨amount, text⟩, hdigits, h⟩ := Option.bind_eq_some_iff.mp h
    obtain ⟨text, hspaces', h⟩ := Option.bind_eq_some_iff.mp h
    obtain ⟨⟨unit, rest⟩, hunit, h⟩ := Option.map_eq_some_iff.mp h
    cases h
    obtain ⟨space, hspace, rfl⟩ := spaces_eq hspaces
    obtain ⟨hamount, rfl⟩ := digits_eq hdigits
    obtain ⟨space', hspace', rfl⟩ := spaces_eq hspaces'
    obtain ⟨suffix, hsuffix, rfl⟩ := timeUnit_eq hunit
    refine ⟨_, ?_, .within hspace (.mk unit hamount hspace' hsuffix)⟩
    simp only [List.cons_append, List.append_assoc]
  · cases h

end Reading

/-! ## Dates are no references -/

section Dates

variable {front rest text : Text} {days : Nat} {dt : DateTime}

theorem takeAlternative_digits : ∀ {ps : Alternative} {text t rest : Text}, (∀ p ∈ ps, p = digit) →
    takeAlternative ps text = some (t, rest) → ∀ c ∈ t, digit c = true
  | [], _, _, _, _, h => by
    cases h
    exact List.forall_mem_nil _
  | _ :: _, [], _, _, _, h => by cases h
  | p :: ps, c :: cs, _, _, hps, h => by
    rw [takeAlternative] at h
    split at h
    · rename_i hc
      obtain ⟨⟨t, rest⟩, htake, heq⟩ := Option.map_eq_some_iff.mp h
      cases heq
      rw [hps p List.mem_cons_self] at hc
      exact List.forall_mem_cons.mpr ⟨hc, takeAlternative_digits (fun q hq => hps q (List.mem_cons_of_mem p hq)) htake⟩
    · cases h

theorem group_of_matchAll {alternatives : List Alternative} {ps : List Piece}
    (h : matchAll (.group alternatives :: ps) text ≠ []) :
    ∃ alt front rest, alt ∈ alternatives ∧ takeAlternative alt text = some (front, rest) ∧ matchAll ps rest ≠ [] := by
  rw [matchAll, Ne, List.flatMap_eq_nil_iff] at h
  push Not at h
  obtain ⟨⟨front, rest⟩, hway, hne⟩ := h
  obtain ⟨alt, halt, htake⟩ := List.mem_filterMap.mp hway
  refine ⟨alt, front, rest, halt, htake, fun hnil => hne ?_⟩
  rw [hnil, List.map_nil]

theorem dash_of_matchAll {ps : List Piece} (h : matchAll (.char (only '-') :: ps) text ≠ []) :
    ∃ rest, text = '-' :: rest := by
  cases text with
  | nil => exact absurd rfl h
  | cons c text =>
    rw [matchAll] at h
    split at h
    · rename_i hdash
      exact ⟨text, by rw [show c = '-' from of_decide_eq_true hdash]⟩
    · exact absurd rfl h

/-- A date starts with digits and a dash. -/
theorem strptimeAny_eq (h : strptimeAny [zonedFormat, utcFormat, dateFormat] text = some dt) :
    ∃ front rest, text = front ++ '-' :: rest ∧ ∀ c ∈ front, digit c = true := by
  obtain ⟨format, hmem, hread⟩ := List.exists_of_findSome?_eq_some h
  obtain ⟨ps, rfl⟩ : ∃ ps, format = .group yearGroup :: .char (only '-') :: ps := by
    simp only [List.mem_cons, List.not_mem_nil, or_false] at hmem
    rcases hmem with rfl | rfl | rfl <;> exact ⟨_, rfl⟩
  have hne : matchAll (.group yearGroup :: .char (only '-') :: ps) text ≠ [] := fun hnil => by
    rw [strptime, hnil] at hread
    cases hread
  obtain ⟨alt, front, rest, halt, htake, hne⟩ := group_of_matchAll hne
  obtain ⟨rest, rfl⟩ := dash_of_matchAll hne
  rw [List.mem_singleton.mp halt] at htake
  exact ⟨front, rest, takeAlternative_eq htake, takeAlternative_digits (by simp) htake⟩

theorem lowerChar_digit {c : Char} (h : digit c = true) : lowerChar c = [c] := by
  have hzeros : ∀ z ∈ digitZeros, z + 10 ≤ 0x41 ∨ 0x131 ≤ z ∧ z + 10 ≤ 0x212a ∨ 0x212b ≤ z := by decide
  rw [digit, isDecimalDigit, List.any_eq_true] at h
  obtain ⟨z, hz, hc⟩ := h
  have hz := hzeros z hz
  rw [Bool.and_eq_true, decide_eq_true_eq, decide_eq_true_eq] at hc
  rw [lowerChar, if_neg, if_neg, if_neg]
  · rintro rfl
    rw [show '\u0130'.toNat = 0x130 from rfl] at hc
    omega
  · rintro rfl
    rw [show '\u212a'.toNat = 0x212a from rfl] at hc
    omega
  · rintro ⟨hA, hZ⟩
    have hA : 0x41 ≤ c.toNat := hA
    have hZ : c.toNat ≤ 0x5a := hZ
    omega

theorem head_dropWhile_digits {front rest : Text} (h : ∀ c ∈ front, digit c = true) {c : Char} (hc : digit c = false) :
    ((front ++ c :: rest).dropWhile digit).head? = some c := by
  rw [(span_eq h fun d hd => by cases hd; exact hc).2]
  rfl

/-- What `strip` takes off. -/
theorem strip_eq (text : Text) : ∃ before after, text = before ++ (strip text ++ after) ∧
    (∀ c ∈ before, isSpace c = true) ∧ ∀ c ∈ after, isSpace c = true := by
  refine ⟨text.takeWhile isSpace, ((text.dropWhile isSpace).reverse.takeWhile isSpace).reverse, ?_,
    fun c hc => List.all_eq_true.mp List.all_takeWhile c hc, fun c hc =>
      List.all_eq_true.mp List.all_takeWhile c (List.mem_reverse.mp hc)⟩
  rw [strip, ← List.reverse_append, List.takeWhile_append_dropWhile, List.reverse_reverse,
    List.takeWhile_append_dropWhile]

/-- In lower case and stripped it still does. -/
theorem head_lower (h : ∀ c ∈ front, digit c = true) :
    ((strip (lower (front ++ '-' :: rest))).dropWhile digit).head? = some '-' := by
  have hlower : lower (front ++ '-' :: rest) = front ++ '-' :: lower rest := by
    have hfront : lower front = front := by
      rw [lower, List.flatMap_congr fun c hc => lowerChar_digit (h c hc), List.flatMap_singleton']
    rw [lower, List.flatMap_append, ← lower, hfront]
    rfl
  rw [hlower]
  obtain ⟨before, after, heq, hbefore, hafter⟩ := strip_eq (front ++ '-' :: lower rest)
  have hhead : ((front ++ '-' :: lower rest).dropWhile digit).head? = some '-' := head_dropWhile_digits h rfl
  generalize strip (front ++ '-' :: lower rest) = stripped at heq ⊢
  rw [heq] at hhead
  cases before with
  | cons c before =>
    have hc : isSpace c = true := hbefore c List.mem_cons_self
    rw [List.cons_append, List.dropWhile_cons, not_digit_of_isSpace hc] at hhead
    cases hhead
    cases hc
  | nil =>
    rw [List.nil_append, List.dropWhile_append] at hhead
    split at hhead
    · cases after with
      | nil => cases hhead
      | cons c after =>
        have hc : isSpace c = true := hafter c List.mem_cons_self
        rw [List.dropWhile_cons, not_digit_of_isSpace hc] at hhead
        cases hhead
        cases hc
    · rename_i hne
      rwa [List.head?_append_of_ne_nil] at hhead
      exact fun hnil => hne (by rw [hnil]; rfl)

theorem head_documented (h : Documented front days) : ((front ++ rest).dropWhile digit).head? ≠ some '-' := by
  have hamount : ∀ {text days} (rest : Text), Amount text days → ((text ++ rest).dropWhile digit).head? ≠ some '-' := by
    intro text days rest h hhead
    cases h with
    | @mk amount space suffix unit hamount hspace _ =>
      rw [List.append_assoc, List.append_assoc, (span_eq hamount.2 fun c hc =>
        not_digit_of_isSpace (head_spaces hspace hc)).2] at hhead
      cases head_spaces hspace hhead
  cases h with
  | within => exact fun hhead => by cases hhead
  | amount h => exact hamount rest h
  | next => exact fun hhead => by cases hhead

theorem not_documented (h : strptimeAny [zonedFormat, utcFormat, dateFormat] text = some dt)
    (heq : strip (lower text) = front ++ rest) : ¬ Documented front days := by
  intro hdoc
  obtain ⟨digits, tail, rfl, hdigits⟩ := strptimeAny_eq h
  have hhead := @head_lower _ tail hdigits
  rw [heq] at hhead
  exact head_documented hdoc hhead

end Dates

/-! ## The resolution -/

section Resolution

variable {text : Text} {date : DateTime} {m : Match}

theorem resolveTemporal_dated {dt : DateTime} (hne : text ≠ [])
    (h : strptimeAny [zonedFormat, utcFormat, dateFormat] text = some dt) :
    resolveTemporal (some text) date = .ok (some dt) := by
  obtain ⟨c, text, rfl⟩ := List.exists_cons_of_ne_nil hne
  rw [resolveTemporal, h]
  exact fun heq => by cases heq

theorem resolveTemporal_unmatched (h : strptimeAny [zonedFormat, utcFormat, dateFormat] text = none)
    (hm : matchRelative (strip (lower text)) = none) : resolveTemporal (some text) date = .ok none := by
  cases text with
  | nil => rfl
  | cons c text =>
    rw [resolveTemporal, h]
    · dsimp only
      rw [hm]
    · exact fun heq => by cases heq

/-- A reference is resolved if it is not too long and the date is in the calendar. -/
theorem resolveTemporal_matched (h : strptimeAny [zonedFormat, utcFormat, dateFormat] text = none)
    (hm : matchRelative (strip (lower text)) = some m) (resolved : Option DateTime) :
    resolveTemporal (some text) date = .ok resolved ↔ m.amount.length ≤ maxDigits ∧
      ∃ dt, after date (number m.amount * m.unit.days) = some dt ∧ resolved = some dt := by
  have hread : resolveTemporal (some text) date = (int m.amount).bind fun amount =>
      (timedelta (amount * m.unit.days)).bind fun delta => (add date delta).bind fun dt => .ok (some dt) := by
    cases text with
    | nil => cases hm
    | cons c text =>
      rw [resolveTemporal, h]
      · dsimp only
        rw [hm]
        rfl
      · exact fun heq => by cases heq
  rw [hread, int]
  split
  · rename_i hlong
    refine iff_of_false (fun h => by cases h) fun h => ?_
    omega
  · rename_i hshort
    change (timedelta (number m.amount * m.unit.days)).bind _ = _ ↔ _
    generalize number m.amount * m.unit.days = days
    rw [timedelta]
    split
    · rename_i hlarge
      refine iff_of_false (fun h => by cases h) fun ⟨_, dt, hafter, _⟩ => ?_
      rw [after, dif_neg (by unfold maxOrdinal; omega)] at hafter
      cases hafter
    · change (add date days).bind _ = _ ↔ _
      rw [add]
      cases after date days with
      | none => exact iff_of_false (fun h => by cases h) fun ⟨_, dt, hafter, _⟩ => by cases hafter
      | some dt =>
        constructor
        · intro h
          cases h
          exact ⟨Nat.le_of_not_lt hshort, dt, rfl, rfl⟩
        · rintro ⟨_, dt', hafter, rfl⟩
          cases hafter
          rfl

/-- Of these texts a resolution is what it should be: none or the empty one,
a date in one of the formats, a whole reference with its "in", of a number
that can be read and a date in the calendar, and one that starts with no such
reference and is no documented reference without the "in" either, unless to a
date that the calendar has not. -/
def Resolvable (raw : Option Text) (date : DateTime) : Prop :=
  ∀ text, raw = some text → text ≠ [] → strptimeAny [zonedFormat, utcFormat, dateFormat] text = none →
    match matchRelative (strip (lower text)) with
    | some m => m.rest = [] ∧ m.amount.length ≤ maxDigits ∧ (after date (number m.amount * m.unit.days)).isSome = true
    | none => ∀ days, Documented (strip (lower text)) days → after date days = none

theorem not_documented_nil {days : Nat} : ¬ Documented [] days := by
  intro h
  cases h with
  | amount h => cases @head_amount ['-'] _ _ h _ rfl

/-- A text with a reference at its start is no date. -/
theorem undated {front rest : Text} {days : Nat} (h : Documented front days)
    (heq : strip (lower text) = front ++ rest) :
    text ≠ [] ∧ strptimeAny [zonedFormat, utcFormat, dateFormat] text = none := by
  constructor
  · rintro rfl
    rw [(List.append_eq_nil_iff.mp heq.symm).1] at h
    exact not_documented_nil h
  · cases hread : strptimeAny [zonedFormat, utcFormat, dateFormat] text with
    | none => rfl
    | some dt => exact absurd h (not_documented hread heq)

theorem total_of_resolvable {raw : Option Text} (h : Resolvable raw date) :
    ∃ resolved, resolveTemporal raw date = .ok resolved := by
  cases raw with
  | none => exact ⟨none, rfl⟩
  | some text =>
    by_cases hne : text = []
    · rw [hne]
      exact ⟨none, rfl⟩
    cases hread : strptimeAny [zonedFormat, utcFormat, dateFormat] text with
    | some dt => exact ⟨some dt, resolveTemporal_dated hne hread⟩
    | none =>
      have hcond := h text rfl hne hread
      cases hm : matchRelative (strip (lower text)) with
      | none => exact ⟨none, resolveTemporal_unmatched hread hm⟩
      | some m =>
        rw [hm] at hcond
        obtain ⟨_, hlong, hafter⟩ := hcond
        obtain ⟨dt, hafter⟩ := Option.isSome_iff_exists.mp hafter
        exact ⟨some dt, (resolveTemporal_matched hread hm _).mpr ⟨hlong, dt, hafter, rfl⟩⟩

theorem resolveTemporal_iso {iso : Iso} (hvalid : iso.Valid) :
    ∃ dt, resolveTemporal (some iso.text) date = .ok (some dt) ∧ dt.instant = iso.instant := by
  obtain ⟨dt, hread, hinstant⟩ := strptime_iso hvalid
  have hne : iso.text ≠ [] := by simp [Iso.text, Fields.dateText, pad4, pad2]
  exact ⟨dt, resolveTemporal_dated hne hread, hinstant⟩

theorem relative_of_resolvable {days : Nat} (h : Resolvable (some text) date)
    (hdoc : Documented (strip (lower text)) days) : resolveTemporal (some text) date = .ok (after date days) := by
  obtain ⟨hne, hread⟩ := undated hdoc (List.append_nil _).symm
  have hcond := h text rfl hne hread
  rcases matchRelative_documented hdoc with ⟨amount, unit, hm, rfl⟩ | hm <;> rw [hm] at hcond
  · obtain ⟨_, hlong, hafter⟩ := hcond
    obtain ⟨dt, hafter⟩ := Option.isSome_iff_exists.mp hafter
    exact (resolveTemporal_matched hread hm _).mpr ⟨hlong, dt, hafter, hafter⟩
  · rw [resolveTemporal_unmatched hread hm, hcond days hdoc]

theorem whole_of_resolvable {front rest : Text} {days : Nat} (h : Resolvable (some text) date)
    (heq : strip (lower text) = front ++ rest) (hdoc : Documented front days)
    (hnot : ∀ days, ¬ Documented (strip (lower text)) days) : resolveTemporal (some text) date = .ok none := by
  obtain ⟨hne, hread⟩ := undated hdoc heq
  have hcond := h text rfl hne hread
  cases hm : matchRelative (strip (lower text)) with
  | none => exact resolveTemporal_unmatched hread hm
  | some m =>
    rw [hm] at hcond
    obtain ⟨whole, hwhole, hdoc⟩ := matchRelative_eq hm
    rw [hcond.1, List.append_nil] at hwhole
    rw [← hwhole] at hdoc
    exact absurd hdoc (hnot _)

/-- What a right resolution shows of its text. -/
theorem resolvable_of_correct {raw : Option Text} (h : Correct raw date) : Resolvable raw date := by
  rintro text rfl hne hread
  cases hm : matchRelative (strip (lower text)) with
  | some m =>
    obtain ⟨resolved, hresolved⟩ := h.total
    obtain ⟨hlong, dt, hafter, rfl⟩ := (resolveTemporal_matched hread hm resolved).mp hresolved
    obtain ⟨front, heq, hdoc⟩ := matchRelative_eq hm
    refine ⟨?_, hlong, by rw [hafter]; rfl⟩
    -- else the text merely starts with a reference
    by_contra hrest
    have hpart := h.whole text front m.rest _ rfl heq hdoc fun days hdays => by
      rcases matchRelative_documented hdays with ⟨amount, unit, hm', _⟩ | hm' <;> rw [hm] at hm' <;> cases hm'
      exact hrest rfl
    rw [hresolved] at hpart
    cases hpart
  | none =>
    intro days hdoc
    have hresolved := h.relative text days rfl hdoc
    rw [resolveTemporal_unmatched hread hm] at hresolved
    exact (Except.ok.inj hresolved).symm

/-- **A temporal reference is resolved as it is documented** exactly where
`Resolvable` holds: not where a number is too long or a date too late, not
where a reference is followed by other text, and not where it has no "in". -/
theorem resolved_iff (raw : Option Text) (date : DateTime) : Correct raw date ↔ Resolvable raw date := by
  refine ⟨resolvable_of_correct, fun h => ⟨total_of_resolvable h, ?_, ?_, ?_⟩⟩
  · rintro iso hvalid rfl
    exact resolveTemporal_iso hvalid
  · rintro text days rfl hdoc
    exact relative_of_resolvable h hdoc
  · rintro text front rest days rfl heq hdoc hnot
    exact whole_of_resolvable h heq hdoc hnot

/-- The first day of 2026. -/
def newYear : DateTime := ⟨toOrdinal 2026 1 1 - 1, 0, 0, by decide⟩

/-- The docstring's "2 months" is no date at all. -/
theorem months_without_in : ¬ ∀ raw date, Correct raw date := by
  intro h
  have hamount : Digits ['2'] := ⟨by simp, List.forall_mem_singleton.mpr (digit_digitChar 2 (by omega))⟩
  have hspace : Spaces [' '] := ⟨by simp, List.forall_mem_singleton.mpr rfl⟩
  have hdoc : Documented "2 months".toList 60 :=
    .amount (@Amount.mk ['2'] [' '] _ .month hamount hspace (.inr rfl))
  have hresolved := (h (some "2 months".toList) newYear).relative _ _ rfl hdoc
  exact absurd hresolved (by decide +kernel)

end Resolution

end ContextBroker.Temporal
