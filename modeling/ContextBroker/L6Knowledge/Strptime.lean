import ContextBroker.L2Store.MessagePipeline
import Mathlib.Tactic.IntervalCases

/-!
# `datetime.strptime`

The three formats that expiry dates are read with. A format is a regular
expression of fields, each a list of alternatives that are tried in order; the
whole text has to be read, and the date has to exist.

`strptime_iso`: an ISO 8601 text in one of the formats denotes its instant.
-/
namespace ContextBroker.Strptime

/-! ## The calendar -/

def isLeap (year : Nat) : Bool := year % 4 == 0 && (year % 100 != 0 || year % 400 == 0)

def daysInMonth (year month : Nat) : Nat :=
  if month = 2 then if isLeap year then 29 else 28
  else if month = 4 ∨ month = 6 ∨ month = 9 ∨ month = 11 then 30
  else 31

def daysBeforeYear (year : Nat) : Nat := (year - 1) * 365 + (year - 1) / 4 - (year - 1) / 100 + (year - 1) / 400

def daysBeforeMonth (year : Nat) : Nat → Nat
  | 0 => 0
  | 1 => 0
  | month + 2 => daysBeforeMonth year (month + 1) + daysInMonth year (month + 1)

/-- `date.toordinal`: 1 is the first day of year 1. -/
def toOrdinal (year month day : Nat) : Nat := daysBeforeYear year + daysBeforeMonth year month + day

def microsPerDay : Nat := 86400000000

/-- The last day is in year 9999. -/
def maxOrdinal : Nat := 3652059

/-- An aware `datetime`: the days since the first one and the time of day on the
wall, and how far the wall is ahead of UTC. -/
structure DateTime where
  day : Nat
  micros : Nat
  offset : Int
  inRange : day < maxOrdinal ∧ micros < microsPerDay
  deriving DecidableEq

/-- The instant, which is UTC. -/
def DateTime.instant (dt : DateTime) : Int := ((dt.day * microsPerDay + dt.micros : Nat) : Int) - dt.offset

/-- A date and time of day. -/
structure Fields where
  year : Nat
  month : Nat
  day : Nat
  hour : Nat := 0
  minute : Nat := 0
  second : Nat := 0
  deriving DecidableEq, Repr

def Fields.Exists (f : Fields) : Prop :=
  1 ≤ f.year ∧ f.year ≤ 9999 ∧ 1 ≤ f.month ∧ f.month ≤ 12 ∧ 1 ≤ f.day ∧ f.day ≤ daysInMonth f.year f.month ∧
    f.hour < 24 ∧ f.minute < 60 ∧ f.second < 60

instance (f : Fields) : Decidable f.Exists := inferInstanceAs (Decidable (_ ∧ _))

/-- The days before the date. -/
def Fields.days (f : Fields) : Nat := toOrdinal f.year f.month f.day - 1

def Fields.micros (f : Fields) : Nat := ((f.hour * 60 + f.minute) * 60 + f.second) * 1000000

theorem daysInMonth_le (year month : Nat) : daysInMonth year month ≤ 31 := by
  unfold daysInMonth
  split_ifs <;> omega

/-- A year has at most 366 days, and 9999 is no leap year. -/
theorem daysBeforeMonth_add_le {year month day : Nat} (h1 : 1 ≤ month) (h12 : month ≤ 12)
    (hday : day ≤ daysInMonth year month) :
    daysBeforeMonth year month + day ≤ 366 ∧ (isLeap year = false → daysBeforeMonth year month + day ≤ 365) := by
  cases hleap : isLeap year <;> interval_cases month <;>
    simp [daysBeforeMonth, daysInMonth, hleap] at hday ⊢ <;> omega

theorem Fields.inRange {f : Fields} (h : f.Exists) : f.days < maxOrdinal ∧ f.micros < microsPerDay := by
  obtain ⟨hy1, hy2, hm1, hm2, hd1, hd2, hh, hmi, hs⟩ := h
  have hyear := daysBeforeMonth_add_le hm1 hm2 hd2
  constructor
  · unfold Fields.days toOrdinal daysBeforeYear maxOrdinal
    by_cases hlast : f.year = 9999
    · rw [hlast] at hyear ⊢
      have := hyear.2 (by decide)
      omega
    · omega
  · unfold Fields.micros microsPerDay
    omega

/-- `datetime(...)` with a zone. -/
def dateTime (f : Fields) (offset : Int) : Option DateTime :=
  if h : f.Exists then some ⟨f.days, f.micros, offset, f.inRange h⟩ else none

/-! ## Regular expressions -/

/-- A class of characters. -/
abbrev Class := Char → Bool

def digit : Class := isDecimalDigit

def only (c : Char) : Class := (· == c)

def between (a b : Char) : Class := fun c => decide (a.toNat ≤ c.toNat) && decide (c.toNat ≤ b.toNat)

def oneOf (cs : List Char) : Class := cs.contains

/-- An alternative of a group: one class for each character. -/
abbrev Alternative := List Class

def takeAlternative : Alternative → Text → Option (Text × Text)
  | [], xs => some ([], xs)
  | p :: ps, c :: cs => if p c then (takeAlternative ps cs).map fun (t, rest) => (c :: t, rest) else none
  | _ :: _, [] => none

inductive Piece where
  | char (p : Class)
  | group (alternatives : List Alternative)

/-- The ways a regular expression reads the front of a text, in the order they
are tried, each with its groups and what is left. -/
def matchAll : List Piece → Text → List (List Text × Text)
  | [], xs => [([], xs)]
  | .char p :: ps, c :: cs => if p c then matchAll ps cs else []
  | .char _ :: _, [] => []
  | .group alternatives :: ps, xs =>
    (alternatives.filterMap (takeAlternative · xs)).flatMap fun (t, rest) =>
      (matchAll ps rest).map fun (groups, rest) => (t :: groups, rest)

def yearGroup : List Alternative := [[digit, digit, digit, digit]]

def monthGroup : List Alternative := [[only '1', between '0' '2'], [only '0', between '1' '9'], [between '1' '9']]

def dayGroup : List Alternative :=
  [[only '3', between '0' '1'], [between '1' '2', digit], [only '0', between '1' '9'], [between '1' '9'],
    [only ' ', between '1' '9']]

def hourGroup : List Alternative := [[only '2', between '0' '3'], [between '0' '1', digit], [digit]]

def minuteGroup : List Alternative := [[between '0' '5', digit], [digit]]

def secondGroup : List Alternative := [[only '6', between '0' '1'], [between '0' '5', digit], [digit]]

/-- `:?` -/
def optionalColon : List Alternative := [[only ':'], []]

/-- `(:?[0-5]\d(\.\d{1,6})?)?` -/
def zoneSeconds : List Alternative :=
  (optionalColon.flatMap fun colon =>
    [6, 5, 4, 3, 2, 1].map (fun n => colon ++ [between '0' '5', digit, only '.'] ++ List.replicate n digit) ++
      [colon ++ [between '0' '5', digit]]) ++ [[]]

/-- `[+-]\d\d:?[0-5]\d(:?[0-5]\d(\.\d{1,6})?)?|Z` -/
def zoneGroup : List Alternative :=
  (optionalColon.flatMap fun colon =>
    zoneSeconds.map fun seconds => [oneOf ['+', '-'], digit, digit] ++ colon ++ [between '0' '5', digit] ++ seconds) ++
    [[only 'Z']]

/-- `%Y-%m-%d` -/
def dateFormat : List Piece :=
  [.group yearGroup, .char (only '-'), .group monthGroup, .char (only '-'), .group dayGroup]

/-- `T%H:%M:%S` -/
def timeFormat : List Piece :=
  [.char (oneOf ['T', 't']), .group hourGroup, .char (only ':'), .group minuteGroup, .char (only ':'),
    .group secondGroup]

def zonedFormat : List Piece := dateFormat ++ (timeFormat ++ [.group zoneGroup])

def utcFormat : List Piece := dateFormat ++ (timeFormat ++ [.char (oneOf ['Z', 'z'])])

/-! ## Reading -/

def digitValue (c : Char) : Nat :=
  match digitZeros.find? fun z => z ≤ c.toNat && c.toNat < z + 10 with
  | some z => c.toNat - z
  | none => 0

/-- `int(text)` of decimal digits. -/
def number (text : Text) : Nat := (strip text).foldl (fun n c => 10 * n + digitValue c) 0

/-- The colons of a zone, which are there both or not at all. -/
def withoutColons (z : Text) : Option Text :=
  if z[3]? = some ':' then
    let z := z.take 3 ++ z.drop 4
    if 5 < z.length then if z[5]? = some ':' then some (z.take 5 ++ z.drop 6) else none
    else some z
  else some z

/-- `int(text or 0)`, none if it is not a number. -/
def numberOrZero (text : Text) : Option Nat := if text.all digit then some (number text) else none

/-- `gmtoff` with its fraction, in microseconds. -/
def gmtoff (z : Text) : Option Int :=
  if z = ['Z'] then some 0
  else do
    let z ← withoutColons z
    let seconds ← numberOrZero ((z.drop 5).take 2)
    let remainder := z.drop 8
    let fraction := number (remainder ++ List.replicate (6 - remainder.length) '0')
    let micros := ((number ((z.drop 1).take 2) * 60 + number ((z.drop 3).take 2)) * 60 + seconds) * 1000000 + fraction
    if micros < microsPerDay then some (if z.head? = some '-' then -(micros : Int) else micros) else none

def fieldsOf (y m d : Text) : Fields := { year := number y, month := number m, day := number d }

def Fields.at (f : Fields) (h mi s : Text) : Fields :=
  { f with hour := number h, minute := number mi, second := number s }

/-- The `datetime` of the groups; without a zone it is UTC. -/
def ofGroups : List Text → Option DateTime
  | [y, m, d] => dateTime (fieldsOf y m d) 0
  | [y, m, d, h, mi, s] => dateTime ((fieldsOf y m d).at h mi s) 0
  | [y, m, d, h, mi, s, z] => (gmtoff z).bind fun offset => dateTime ((fieldsOf y m d).at h mi s) offset
  | _ => none

/-- `datetime.strptime(text, format)`; none is a `ValueError`. -/
def strptime (format : List Piece) (text : Text) : Option DateTime :=
  match (matchAll format text).head? with
  | some (groups, []) => ofGroups groups
  | _ => none

/-! ## ISO 8601 -/

inductive Zone where
  | z
  | offset (negative colon : Bool) (hours minutes : Nat)
  deriving DecidableEq, Repr

/-- A date, and a time of day with its zone if there is one. -/
structure Iso where
  fields : Fields
  zone : Option Zone

def Zone.Valid : Zone → Prop
  | .z => True
  | .offset _ _ hours minutes => hours < 24 ∧ minutes < 60

/-- The date exists, and a date alone is its midnight. -/
structure Iso.Valid (iso : Iso) : Prop where
  fields : iso.fields.Exists
  zone : ∀ zone ∈ iso.zone, zone.Valid
  date : iso.zone = none → iso.fields.hour = 0 ∧ iso.fields.minute = 0 ∧ iso.fields.second = 0

def pad2 (n : Nat) : Text := [Nat.digitChar (n / 10), Nat.digitChar (n % 10)]

def pad4 (n : Nat) : Text := pad2 (n / 100) ++ pad2 (n % 100)

def Zone.text : Zone → Text
  | .z => ['Z']
  | .offset negative colon hours minutes =>
    (if negative then '-' else '+') :: (pad2 hours ++ ((if colon then [':'] else []) ++ pad2 minutes))

def Zone.micros : Zone → Int
  | .z => 0
  | .offset negative _ hours minutes =>
    let ahead : Int := (hours * 60 + minutes) * 60 * 1000000
    if negative then -ahead else ahead

def Fields.dateText (f : Fields) (rest : Text) : Text :=
  pad4 f.year ++ ('-' :: (pad2 f.month ++ ('-' :: (pad2 f.day ++ rest))))

def Fields.timeText (f : Fields) (rest : Text) : Text :=
  'T' :: (pad2 f.hour ++ (':' :: (pad2 f.minute ++ (':' :: (pad2 f.second ++ rest)))))

def Iso.text (iso : Iso) : Text :=
  iso.fields.dateText
    (match iso.zone with
    | none => []
    | some zone => iso.fields.timeText zone.text)

def Iso.instant (iso : Iso) : Int :=
  ((iso.fields.days * microsPerDay + iso.fields.micros : Nat) : Int) - (iso.zone.map Zone.micros).getD 0

/-! ### Reading what was written -/

/-- The first alternative that reads the front of the text. -/
def firstOf (alternatives : List Alternative) (xs : Text) : Option (Text × Text) :=
  (alternatives.filterMap (takeAlternative · xs)).head?

section Reading

variable {alternatives : List Alternative} {ps : List Piece} {xs pre rest t r : Text} {groups : List Text} {c : Char}
  {p : Class}

theorem matchAll_group (h : firstOf alternatives xs = some (t, rest))
    (hrest : (matchAll ps rest).head? = some (groups, r)) :
    (matchAll (.group alternatives :: ps) xs).head? = some (t :: groups, r) := by
  obtain ⟨ways, hways⟩ := List.head?_eq_some_iff.mp h
  obtain ⟨others, hothers⟩ := List.head?_eq_some_iff.mp hrest
  rw [matchAll, hways, List.flatMap_cons]
  dsimp only
  rw [hothers]
  rfl

theorem matchAll_char (h : p c = true) : matchAll (.char p :: ps) (c :: xs) = matchAll ps xs := by
  rw [matchAll, if_pos h]

/-- An alternative reads no further than it is long. -/
theorem takeAlternative_append : ∀ {alt : Alternative} {pre : Text}, alt.length ≤ pre.length →
    takeAlternative alt (pre ++ rest) = (takeAlternative alt pre).map fun x => (x.1, x.2 ++ rest)
  | [], _, _ => by simp [takeAlternative]
  | _ :: _, [], h => by simp at h
  | p :: ps, c :: cs, h => by
    have ih : takeAlternative ps (cs ++ rest) = (takeAlternative ps cs).map fun x => (x.1, x.2 ++ rest) :=
      takeAlternative_append (by simpa using h)
    rw [List.cons_append, takeAlternative, takeAlternative, ih]
    split
    · simp [Option.map_map, Function.comp_def]
    · rfl

theorem firstOf_append (hlen : ∀ alt ∈ alternatives, alt.length ≤ pre.length)
    (h : firstOf alternatives pre = some (pre, [])) : firstOf alternatives (pre ++ rest) = some (pre, rest) := by
  have hmap : alternatives.filterMap (takeAlternative · (pre ++ rest)) =
      (alternatives.filterMap (takeAlternative · pre)).map fun x => (x.1, x.2 ++ rest) := by
    rw [List.map_filterMap]
    exact List.filterMap_congr fun alt halt => takeAlternative_append (hlen alt halt)
  rw [firstOf] at h
  rw [firstOf, hmap, List.head?_map, h]
  rfl

theorem takeAlternative_eq : ∀ {alt : Alternative} {xs t rest : Text},
    takeAlternative alt xs = some (t, rest) → xs = t ++ rest
  | [], xs, _, _, h => by
    rw [takeAlternative, Option.some.injEq, Prod.mk.injEq] at h
    rw [← h.1, ← h.2, List.nil_append]
  | _ :: _, [], _, _, h => by cases h
  | p :: ps, c :: cs, _, _, h => by
    rw [takeAlternative] at h
    split at h
    · obtain ⟨⟨t', rest'⟩, htake, heq⟩ := Option.map_eq_some_iff.mp h
      cases heq
      rw [takeAlternative_eq htake, List.cons_append]
    · cases h

/-- A character that has to be there has to be there. -/
theorem matchAll_eq_nil : ∀ {ps : List Piece} {xs : Text}, .char p ∈ ps → (∀ c ∈ xs, p c = false) → matchAll ps xs = []
  | .char q :: ps, [], _, _ => rfl
  | .char q :: ps, c :: cs, hmem, hxs => by
    rw [matchAll]
    split
    · rename_i hq
      rcases List.mem_cons.mp hmem with heq | hmem
      · cases heq
        rw [hxs c List.mem_cons_self] at hq
        cases hq
      · exact matchAll_eq_nil hmem fun d hd => hxs d (List.mem_cons_of_mem c hd)
    · rfl
  | .group alternatives :: ps, xs, hmem, hxs => by
    have hps : .char p ∈ ps := (List.mem_cons.mp hmem).resolve_left fun heq => by cases heq
    rw [matchAll, List.flatMap_eq_nil_iff]
    rintro ⟨t, rest⟩ hway
    obtain ⟨alt, _, htake⟩ := List.mem_filterMap.mp hway
    rw [takeAlternative_eq htake] at hxs
    have hnone : matchAll ps rest = [] := matchAll_eq_nil hps fun c hc => hxs c (List.mem_append_right t hc)
    dsimp only
    rw [hnone, List.map_nil]

end Reading

/-- What the character of a digit is, and what it is not. -/
theorem digitChar_spec : ∀ k < 10, digit (Nat.digitChar k) = true ∧ digitValue (Nat.digitChar k) = k ∧
    isSpace (Nat.digitChar k) = false ∧ Nat.digitChar k ≠ ':' ∧ oneOf ['T', 't'] (Nat.digitChar k) = false := by
  decide +kernel

theorem digit_digitChar (k : Nat) (h : k < 10) : digit (Nat.digitChar k) = true := (digitChar_spec k h).1

theorem digitValue_digitChar (k : Nat) (h : k < 10) : digitValue (Nat.digitChar k) = k := (digitChar_spec k h).2.1

theorem strip_eq_self {t : Text} (h : ∀ c ∈ t, isSpace c = false) : strip t = t := by
  have hfront : ∀ {l : Text}, (∀ c ∈ l, isSpace c = false) → l.dropWhile isSpace = l := fun {l} hl => by
    cases l with
    | nil => rfl
    | cons c l => rw [List.dropWhile_cons, hl c List.mem_cons_self]; rfl
  rw [strip, hfront h, hfront fun c hc => h c (List.mem_reverse.mp hc), List.reverse_reverse]

/-- Digits are read from the left. -/
theorem number_digits {ds : List Nat} (h : ∀ d ∈ ds, d < 10) :
    number (ds.map Nat.digitChar) = ds.foldl (fun n d => 10 * n + d) 0 := by
  have hfold : ∀ (ds : List Nat) (n : Nat), (∀ d ∈ ds, d < 10) →
      (ds.map Nat.digitChar).foldl (fun n c => 10 * n + digitValue c) n = ds.foldl (fun n d => 10 * n + d) n := by
    intro ds
    induction ds with
    | nil => intro n _; rfl
    | cons d ds ih =>
      intro n hds
      rw [List.map_cons, List.foldl_cons, List.foldl_cons, digitValue_digitChar d (hds d List.mem_cons_self)]
      exact ih _ fun k hk => hds k (List.mem_cons_of_mem d hk)
  rw [number, strip_eq_self, hfold ds 0 h]
  intro c hc
  obtain ⟨d, hd, rfl⟩ := List.mem_map.mp hc
  exact (digitChar_spec d (h d hd)).2.2.1

theorem number_pad2 {n : Nat} (h : n < 100) : number (pad2 n) = n := by
  have := @number_digits [n / 10, n % 10] (by simp; omega)
  rw [List.map_cons, List.map_cons, List.map_nil] at this
  rw [pad2, this, List.foldl_cons, List.foldl_cons, List.foldl_nil]
  omega

theorem number_pad4 {n : Nat} (h : n < 10000) : number (pad4 n) = n := by
  have := @number_digits [n / 100 / 10, n / 100 % 10, n % 100 / 10, n % 100 % 10] (by simp; omega)
  simp only [List.map_cons, List.map_nil, List.foldl_cons, List.foldl_nil] at this
  rw [pad4, pad2, pad2, List.cons_append, List.cons_append, List.nil_append, this]
  omega

theorem firstOf_year {n : Nat} (h : n < 10000) (rest : Text) :
    firstOf yearGroup (pad4 n ++ rest) = some (pad4 n, rest) := by
  refine firstOf_append (by simp [yearGroup, pad4, pad2]) ?_
  simp [firstOf, yearGroup, pad4, pad2, takeAlternative, digit_digitChar _ (show n / 100 / 10 < 10 by omega),
    digit_digitChar _ (show n / 100 % 10 < 10 by omega), digit_digitChar _ (show n % 100 / 10 < 10 by omega),
    digit_digitChar _ (show n % 10 < 10 by omega), Nat.mod_mod_of_dvd]

theorem firstOf_date : (∀ n < 12, firstOf monthGroup (pad2 (n + 1)) = some (pad2 (n + 1), [])) ∧
    ∀ n < 31, firstOf dayGroup (pad2 (n + 1)) = some (pad2 (n + 1), []) := by
  decide +kernel

theorem firstOf_time : (∀ n < 24, firstOf hourGroup (pad2 n) = some (pad2 n, [])) ∧
    ∀ n < 60, firstOf minuteGroup (pad2 n) = some (pad2 n, []) ∧ firstOf secondGroup (pad2 n) = some (pad2 n, []) := by
  decide +kernel

theorem firstOf_month {n : Nat} (h1 : 1 ≤ n) (h : n ≤ 12) (rest : Text) :
    firstOf monthGroup (pad2 n ++ rest) = some (pad2 n, rest) := by
  obtain ⟨m, rfl⟩ := Nat.exists_eq_add_of_le' h1
  exact firstOf_append (by simp [monthGroup, pad2]) (firstOf_date.1 m (by omega))

theorem firstOf_day {n : Nat} (h1 : 1 ≤ n) (h : n ≤ 31) (rest : Text) :
    firstOf dayGroup (pad2 n ++ rest) = some (pad2 n, rest) := by
  obtain ⟨m, rfl⟩ := Nat.exists_eq_add_of_le' h1
  exact firstOf_append (by simp [dayGroup, pad2]) (firstOf_date.2 m (by omega))

theorem firstOf_hour {n : Nat} (h : n < 24) (rest : Text) :
    firstOf hourGroup (pad2 n ++ rest) = some (pad2 n, rest) :=
  firstOf_append (by simp [hourGroup, pad2]) (firstOf_time.1 n h)

theorem firstOf_minute {n : Nat} (h : n < 60) (rest : Text) :
    firstOf minuteGroup (pad2 n ++ rest) = some (pad2 n, rest) :=
  firstOf_append (by simp [minuteGroup, pad2]) (firstOf_time.2 n h).1

theorem firstOf_second {n : Nat} (h : n < 60) (rest : Text) :
    firstOf secondGroup (pad2 n ++ rest) = some (pad2 n, rest) :=
  firstOf_append (by simp [secondGroup, pad2]) (firstOf_time.2 n h).2

section Formats

variable {f : Fields} {ps : List Piece} {rest r : Text} {groups : List Text}

theorem matchAll_date (hf : f.Exists) (h : (matchAll ps rest).head? = some (groups, r)) :
    (matchAll (dateFormat ++ ps) (f.dateText rest)).head? =
      some (pad4 f.year :: pad2 f.month :: pad2 f.day :: groups, r) := by
  obtain ⟨_, hy, hm1, hm2, hd1, hd2, _⟩ := hf
  have hday := hd2.trans (daysInMonth_le _ _)
  simp only [dateFormat, List.cons_append, List.nil_append, Fields.dateText]
  refine matchAll_group (firstOf_year (by omega) _) ?_
  rw [matchAll_char rfl]
  refine matchAll_group (firstOf_month hm1 hm2 _) ?_
  rw [matchAll_char rfl]
  exact matchAll_group (firstOf_day hd1 hday _) h

theorem matchAll_time (hf : f.Exists) (h : (matchAll ps rest).head? = some (groups, r)) :
    (matchAll (timeFormat ++ ps) (f.timeText rest)).head? =
      some (pad2 f.hour :: pad2 f.minute :: pad2 f.second :: groups, r) := by
  obtain ⟨_, _, _, _, _, _, hh, hmi, hs⟩ := hf
  simp only [timeFormat, List.cons_append, List.nil_append, Fields.timeText]
  rw [matchAll_char rfl]
  refine matchAll_group (firstOf_hour hh _) ?_
  rw [matchAll_char rfl]
  refine matchAll_group (firstOf_minute hmi _) ?_
  rw [matchAll_char rfl]
  exact matchAll_group (firstOf_second hs _) h

end Formats

section Zones

variable {zone : Zone}

theorem minuteDigits {n : Nat} (h : n < 60) : between '0' '5' (Nat.digitChar (n / 10)) = true ∧
    digit (Nat.digitChar (n % 10)) = true := by
  have htens : ∀ k < 6, between '0' '5' (Nat.digitChar k) = true := by decide
  exact ⟨htens _ (by omega), digit_digitChar _ (by omega)⟩

theorem hourDigits {n : Nat} (h : n < 24) :
    digit (Nat.digitChar (n / 10)) = true ∧ digit (Nat.digitChar (n % 10)) = true :=
  ⟨digit_digitChar _ (by omega), digit_digitChar _ (by omega)⟩

theorem firstOf_zone (h : zone.Valid) : firstOf zoneGroup zone.text = some (zone.text, []) := by
  cases zone with
  | z => rfl
  | offset negative colon hours minutes =>
    obtain ⟨hh1, hh2⟩ := hourDigits h.1
    obtain ⟨hm1, hm2⟩ := minuteDigits h.2
    cases negative <;> cases colon <;>
      simp [firstOf, zoneGroup, zoneSeconds, optionalColon, Zone.text, pad2, takeAlternative, hh1, hh2, hm1, hm2,
        oneOf, only]

/-- The colons of a zone are taken out. -/
theorem withoutColons_zone {negative colon : Bool} {hours minutes : Nat} (hm : minutes < 60) :
    withoutColons (Zone.offset negative colon hours minutes).text =
      some ((if negative then '-' else '+') :: (pad2 hours ++ pad2 minutes)) := by
  have hcolon : Nat.digitChar (minutes / 10) ≠ ':' := (digitChar_spec _ (by omega)).2.2.2.1
  cases colon with
  | true => simp [withoutColons, Zone.text, pad2]
  | false => simp [withoutColons, Zone.text, pad2, hcolon]

/-- A zone of hours and minutes, after the colons are out. -/
theorem gmtoff_eq {z z' : Text} {hours minutes : Nat} (hne : z ≠ ['Z']) (hcolons : withoutColons z = some z')
    (hhours : number ((z'.drop 1).take 2) = hours) (hminutes : number ((z'.drop 3).take 2) = minutes)
    (hseconds : (z'.drop 5).take 2 = []) (hfraction : z'.drop 8 = []) (hrange : hours < 24 ∧ minutes < 60) :
    gmtoff z = some (if z'.head? = some '-' then -(((hours * 60 + minutes) * 60 * 1000000 : Nat) : Int)
      else ((hours * 60 + minutes) * 60 * 1000000 : Nat)) := by
  have hzeros : number ([] ++ List.replicate (6 - List.length ([] : Text)) '0') = 0 :=
    @number_digits [0, 0, 0, 0, 0, 0] (by simp)
  have hnothing : number [] = 0 := rfl
  have hsum : ((hours * 60 + minutes) * 60 + 0) * 1000000 + 0 = (hours * 60 + minutes) * 60 * 1000000 := by omega
  have hmicros : (hours * 60 + minutes) * 60 * 1000000 < microsPerDay := by
    unfold microsPerDay
    omega
  rw [gmtoff, if_neg hne, hcolons, Option.bind_eq_bind, Option.bind_some, hseconds, hfraction, numberOrZero,
    if_pos List.all_nil, Option.bind_eq_bind, Option.bind_some]
  dsimp only
  rw [hzeros, hhours, hminutes, hnothing, hsum, if_pos hmicros]

theorem gmtoff_zone (h : zone.Valid) : gmtoff zone.text = some zone.micros := by
  cases zone with
  | z => rfl
  | offset negative colon hours minutes =>
    have hne : (Zone.offset negative colon hours minutes).text ≠ ['Z'] := by simp [Zone.text, pad2]
    have heq := gmtoff_eq hne (withoutColons_zone h.2) (number_pad2 (n := hours) (by have := h.1; omega))
      (number_pad2 (n := minutes) (by have := h.2; omega)) rfl rfl h
    rw [heq]
    cases negative <;> simp [Zone.micros]

end Zones

/-! ### The three formats -/

section Formats

variable {f : Fields} {zone : Zone}

theorem fieldsOf_pad (h : f.Exists) :
    fieldsOf (pad4 f.year) (pad2 f.month) (pad2 f.day) = { year := f.year, month := f.month, day := f.day } := by
  obtain ⟨_, hy, _, hm, _, hd, _⟩ := h
  have hday := hd.trans (daysInMonth_le _ _)
  rw [fieldsOf, number_pad4 (by omega), number_pad2 (by omega), number_pad2 (by omega)]

theorem fields_pad (h : f.Exists) :
    (fieldsOf (pad4 f.year) (pad2 f.month) (pad2 f.day)).at (pad2 f.hour) (pad2 f.minute) (pad2 f.second) = f := by
  obtain ⟨_, _, _, _, _, _, hh, hmi, hs⟩ := id h
  rw [fieldsOf_pad h, Fields.at, number_pad2 (by omega), number_pad2 (by omega), number_pad2 (by omega)]

theorem dateTime_eq (h : f.Exists) (offset : Int) :
    dateTime f offset = some ⟨f.days, f.micros, offset, f.inRange h⟩ := dif_pos h

theorem strptime_zoned (h : f.Exists) (hzone : zone.Valid) :
    strptime zonedFormat (f.dateText (f.timeText zone.text)) = some ⟨f.days, f.micros, zone.micros, f.inRange h⟩ := by
  have hread : (matchAll zonedFormat (f.dateText (f.timeText zone.text))).head? =
      some ([pad4 f.year, pad2 f.month, pad2 f.day, pad2 f.hour, pad2 f.minute, pad2 f.second, zone.text], []) :=
    matchAll_date h (matchAll_time h (matchAll_group (firstOf_zone hzone) rfl))
  rw [strptime, hread]
  dsimp only
  rw [ofGroups, gmtoff_zone hzone, Option.bind_some, fields_pad h, dateTime_eq h]

/-- The characters of a date. -/
theorem dateText_no_time (h : f.Exists) : ∀ c ∈ f.dateText [], oneOf ['T', 't'] c = false := by
  obtain ⟨_, hy, _, hm, _, hd, _⟩ := h
  have hday := hd.trans (daysInMonth_le _ _)
  have hdigit : ∀ k < 10, oneOf ['T', 't'] (Nat.digitChar k) = false := fun k hk => (digitChar_spec k hk).2.2.2.2
  have hpad : ∀ {n}, n < 100 → ∀ c ∈ pad2 n, oneOf ['T', 't'] c = false := fun {n} hn => by
    rw [pad2, List.forall_mem_cons, List.forall_mem_singleton]
    exact ⟨hdigit _ (by omega), hdigit _ (by omega)⟩
  simp only [Fields.dateText, pad4, List.forall_mem_append, List.forall_mem_cons, List.append_nil]
  exact ⟨⟨hpad (by omega), hpad (by omega)⟩, rfl, hpad (by omega), rfl, hpad (by omega)⟩

theorem strptime_date (h : f.Exists) (hdate : f.hour = 0 ∧ f.minute = 0 ∧ f.second = 0) :
    strptime dateFormat (f.dateText []) = some ⟨f.days, f.micros, 0, f.inRange h⟩ := by
  have hread : (matchAll (dateFormat ++ []) (f.dateText [])).head? =
      some ([pad4 f.year, pad2 f.month, pad2 f.day], []) := matchAll_date h rfl
  have heq : { year := f.year, month := f.month, day := f.day } = f := by
    obtain ⟨year, month, day, hour, minute, second⟩ := f
    obtain ⟨hh, hmi, hs⟩ := hdate
    cases hh
    cases hmi
    cases hs
    rfl
  rw [List.append_nil] at hread
  rw [strptime, hread]
  dsimp only
  rw [ofGroups, fieldsOf_pad h, heq, dateTime_eq h]

end Formats

/-- `strptime` with the first of the formats that reads the text. -/
def strptimeAny (formats : List (List Piece)) (text : Text) : Option DateTime := formats.findSome? (strptime · text)

/-- An ISO 8601 text denotes its instant. -/
theorem strptime_iso {iso : Iso} (h : iso.Valid) :
    ∃ dt, strptimeAny [zonedFormat, utcFormat, dateFormat] iso.text = some dt ∧ dt.instant = iso.instant := by
  obtain ⟨f, zone⟩ := iso
  have hf : f.Exists := h.fields
  cases zone with
  | some zone =>
    refine ⟨⟨f.days, f.micros, zone.micros, f.inRange hf⟩, ?_, rfl⟩
    rw [strptimeAny, List.findSome?_cons]
    dsimp only [Iso.text]
    rw [strptime_zoned hf (h.zone zone rfl)]
  | none =>
    have hnone : ∀ ps, .char (oneOf ['T', 't']) ∈ ps → strptime ps (f.dateText []) = none := fun ps hps => by
      rw [strptime, matchAll_eq_nil hps (dateText_no_time hf)]
      rfl
    refine ⟨⟨f.days, f.micros, 0, f.inRange hf⟩, ?_, rfl⟩
    rw [strptimeAny, List.findSome?_cons]
    dsimp only [Iso.text]
    rw [hnone zonedFormat (by simp [zonedFormat, timeFormat])]
    dsimp only
    rw [List.findSome?_cons, hnone utcFormat (by simp [utcFormat, timeFormat])]
    dsimp only
    rw [List.findSome?_cons, strptime_date hf (h.date rfl)]

end ContextBroker.Strptime
