import ContextBroker.Core.Cut
import ContextBroker.Core.KeyedMerge
import ContextBroker.L1Data.Schema

/-!
# JSON text

`json.dumps` and `json.loads`. A number is its `repr`; what the `repr` of a
token is, is a parameter. The fuel of a reading is the length of the text.
-/
namespace ContextBroker.Imperator

/-! ## json.dumps -/

/-- A Python value of `json`; a number by its `repr`. -/
inductive Json where
  | null
  | bool (b : Bool)
  | num (repr : Text)
  | str (s : Text)
  | arr (items : List Json)
  | obj (fields : List (Text × Json))

/-- `bool(value)`; a number is 0 if its `repr` is one of these. -/
def Json.truthy : Json → Bool
  | .null => false
  | .bool b => b
  | .num repr => repr != "0".toList && repr != "0.0".toList && repr != "-0.0".toList
  | .str s => s != []
  | .arr items => !items.isEmpty
  | .obj fields => !fields.isEmpty

/-- `format(n, '04x')`. -/
def hex4 (n : Nat) : Text := [4096, 256, 16, 1].map fun unit => Nat.digitChar (n / unit % 16)

/-- `ensure_ascii`: what is not printable ASCII is escaped, above U+FFFF as a
surrogate pair. -/
def escapeChar (c : Char) : Text :=
  let n := c.toNat
  if n = 0x5c ∨ n = 0x22 then ['\x5c', c]
  else if n = 8 then "\\b".toList
  else if n = 9 then "\\t".toList
  else if n = 10 then "\\n".toList
  else if n = 12 then "\\f".toList
  else if n = 13 then "\\r".toList
  else if 0x20 ≤ n ∧ n ≤ 0x7e then [c]
  else if n < 0x10000 then "\\u".toList ++ hex4 n
  else
    "\\u".toList ++ hex4 (0xd800 + (n - 0x10000) / 0x400) ++ "\\u".toList ++ hex4 (0xdc00 + (n - 0x10000) % 0x400)

def quoted (s : Text) : Text := ['\x22'] ++ s.flatMap escapeChar ++ ['\x22']

mutual

/-- `json.dumps`. -/
def dumps : Json → Text
  | .null => "null".toList
  | .bool true => "true".toList
  | .bool false => "false".toList
  | .num repr => repr
  | .str s => quoted s
  | .arr items => "[".toList ++ List.intercalate ", ".toList (dumpsItems items) ++ "]".toList
  | .obj fields => "\x7b".toList ++ List.intercalate ", ".toList (dumpsFields fields) ++ "\x7d".toList

def dumpsItems : List Json → List Text
  | [] => []
  | item :: rest => dumps item :: dumpsItems rest

def dumpsFields : List (Text × Json) → List Text
  | [] => []
  | (key, value) :: rest => (quoted key ++ ": ".toList ++ dumps value) :: dumpsFields rest

end

end ContextBroker.Imperator

namespace ContextBroker.JsonText

open Imperator

/-! ## json.loads -/

def isWhitespace (c : Char) : Bool := c == ' ' || c == '\t' || c == '\n' || c == '\r'

def skipWhitespace (text : Text) : Text := text.dropWhile isWhitespace

def isDigit (c : Char) : Bool := decide ('0' ≤ c) && decide (c ≤ '9')

def hexDigit (c : Char) : Option Nat :=
  if '0' ≤ c ∧ c ≤ '9' then some (c.toNat - 0x30)
  else if 'a' ≤ c ∧ c ≤ 'f' then some (c.toNat - 0x61 + 10)
  else if 'A' ≤ c ∧ c ≤ 'F' then some (c.toNat - 0x41 + 10)
  else none

def fourHex : Text → Option (Nat × Text)
  | a :: b :: c :: d :: text => do
    let a ← hexDigit a
    let b ← hexDigit b
    let c ← hexDigit c
    let d ← hexDigit d
    return (((a * 16 + b) * 16 + c) * 16 + d, text)
  | _ => none

def unescape : Char → Option Char
  | '"' => some '"'
  | '\\' => some '\\'
  | '/' => some '/'
  | 'b' => some '\x08'
  | 'f' => some '\x0c'
  | 'n' => some '\n'
  | 'r' => some '\r'
  | 't' => some '\t'
  | _ => none

/-- A character of a string. A surrogate without its other half is no
character here, and is not read. -/
def scanChar : Text → Option (Char × Text)
  | '\\' :: 'u' :: text =>
    (fourHex text).bind fun (n, text) =>
      if 0xd800 ≤ n ∧ n < 0xdc00 then
        match text with
        | '\\' :: 'u' :: text =>
          (fourHex text).bind fun (m, text) =>
            if 0xdc00 ≤ m ∧ m < 0xe000 then
              some (Char.ofNat (0x10000 + (n - 0xd800) * 0x400 + (m - 0xdc00)), text)
            else none
        | _ => none
      else if 0xdc00 ≤ n ∧ n < 0xe000 then none
      else some (Char.ofNat n, text)
  | '\\' :: c :: text => (unescape c).map fun c => (c, text)
  | ['\\'] => none
  | c :: text => if c.toNat < 0x20 then none else some (c, text)
  | [] => none

/-- `scanstring`, after the opening quote. -/
def scanString : Nat → Text → Option (Text × Text)
  | 0, _ => none
  | fuel + 1, text =>
    if text.head? = some '"' then some ([], text.tail)
    else (scanChar text).bind fun (c, text) => (scanString fuel text).map fun (s, text) => (c :: s, text)

def integerPart : Text → Option (Text × Text)
  | [] => none
  | c :: text =>
    if c = '0' then some (['0'], text)
    else if isDigit c then some (c :: text.takeWhile isDigit, text.dropWhile isDigit)
    else none

/-- `(\.\d+)?` -/
def fraction : Text → Text × Text
  | [] => ([], [])
  | c :: text =>
    if c = '.' ∧ text.takeWhile isDigit ≠ [] then ('.' :: text.takeWhile isDigit, text.dropWhile isDigit)
    else ([], c :: text)

def sign (signs : List Char) : Text → Text × Text
  | [] => ([], [])
  | c :: text => if c ∈ signs then ([c], text) else ([], c :: text)

/-- `([eE][-+]?\d+)?` -/
def exponent : Text → Text × Text
  | [] => ([], [])
  | c :: text =>
    let (s, digits) := sign ['-', '+'] text
    if (c = 'e' ∨ c = 'E') ∧ digits.takeWhile isDigit ≠ [] then
      (c :: (s ++ digits.takeWhile isDigit), digits.dropWhile isDigit)
    else ([], c :: text)

/-- `NUMBER_RE.match` -/
def matchNumber (text : Text) : Option (Text × Text) :=
  (integerPart (sign ['-'] text).2).map fun (i, rest) =>
    ((sign ['-'] text).1 ++ (i ++ ((fraction rest).1 ++ (exponent (fraction rest).2).1)),
      (exponent (fraction rest).2).2)

def literals : List (Text × Json) :=
  [("null".toList, .null), ("true".toList, .bool true), ("false".toList, .bool false),
    ("NaN".toList, .num "NaN".toList), ("Infinity".toList, .num "Infinity".toList),
    ("-Infinity".toList, .num "-Infinity".toList)]

/-- `number` is the `repr` of the number that a token denotes, none if it is too
long for an `int`. -/
def scanAtom (number : Text → Option Text) (text : Text) : Option (Json × Text) :=
  match literals.find? fun (word, _) => word.isPrefixOf text with
  | some (word, v) => some (v, text.drop word.length)
  | none => (matchNumber text).bind fun (token, rest) => (number token).map fun repr => (.num repr, rest)

/-- The dict of the pairs: a later one takes the place of one with its key. -/
def dict (pairs : List (Text × Json)) : List (Text × Json) := KeyedMerge.merge Prod.fst [] pairs

mutual

def scanOnce (number : Text → Option Text) : Nat → Text → Option (Json × Text)
  | 0, _ => none
  | _ + 1, [] => none
  | fuel + 1, c :: text =>
    if c = '"' then (scanString (text.length + 1) text).map fun (s, text) => (.str s, text)
    else if c = '[' then
      if (skipWhitespace text).head? = some ']' then some (.arr [], (skipWhitespace text).tail)
      else (scanItems number fuel (skipWhitespace text)).map fun (items, text) => (.arr items, text)
    else if c = '\x7b' then
      if (skipWhitespace text).head? = some '\x7d' then some (.obj [], (skipWhitespace text).tail)
      else (scanFields number fuel (skipWhitespace text)).map fun (fields, text) => (.obj (dict fields), text)
    else scanAtom number (c :: text)

/-- The items up to the closing bracket. -/
def scanItems (number : Text → Option Text) : Nat → Text → Option (List Json × Text)
  | 0, _ => none
  | fuel + 1, text =>
    (scanOnce number fuel text).bind fun (v, text) =>
      match skipWhitespace text with
      | [] => none
      | c :: text =>
        if c = ']' then some ([v], text)
        else if c = ',' then
          (scanItems number fuel (skipWhitespace text)).map fun (items, text) => (v :: items, text)
        else none

/-- The fields up to the closing brace. -/
def scanFields (number : Text → Option Text) : Nat → Text → Option (List (Text × Json) × Text)
  | 0, _ => none
  | fuel + 1, text =>
    if text.head? = some '"' then
      (scanString text.length text.tail).bind fun (key, text) =>
        if (skipWhitespace text).head? = some ':' then
          (scanOnce number fuel (skipWhitespace (skipWhitespace text).tail)).bind fun (v, text) =>
            match skipWhitespace text with
            | [] => none
            | c :: text =>
              if c = '\x7d' then some ([(key, v)], text)
              else if c = ',' then
                (scanFields number fuel (skipWhitespace text)).map fun (fields, text) => ((key, v) :: fields, text)
              else none
        else none
    else none

end

/-- `json.loads(text)`; none is a `JSONDecodeError`. -/
def loads (number : Text → Option Text) (text : Text) : Option Json :=
  match scanOnce number text.length (skipWhitespace text) with
  | some (v, rest) => if skipWhitespace rest = [] then some v else none
  | none => none

/-! ## Numbers -/

/-- A character of a number. -/
def InNumber (c : Char) : Prop := isDigit c = true ∨ c ∈ ['-', '+', '.', 'e', 'E']

section Numbers

variable {text token rest : Text} {c : Char}

theorem mem_digits (h : c ∈ text.takeWhile isDigit) : InNumber c := .inl (List.all_eq_true.mp List.all_takeWhile c h)

theorem sign_eq {signs : List Char} (hsigns : ∀ c ∈ signs, InNumber c) (text : Text) :
    text = (sign signs text).1 ++ (sign signs text).2 ∧ ∀ c ∈ (sign signs text).1, InNumber c := by
  cases text with
  | nil => exact ⟨rfl, List.forall_mem_nil _⟩
  | cons c text =>
    rw [sign]
    split
    · exact ⟨rfl, by simpa using hsigns c ‹_›⟩
    · exact ⟨rfl, List.forall_mem_nil _⟩

theorem integerPart_eq (h : integerPart text = some (token, rest)) :
    text = token ++ rest ∧ ∀ c ∈ token, InNumber c := by
  cases text with
  | nil => cases h
  | cons c text =>
    rw [integerPart] at h
    split at h
    · rename_i hc
      cases h
      exact ⟨by rw [hc]; rfl, fun d hd => .inl (by rw [List.mem_singleton.mp hd]; rfl)⟩
    · split at h
      · rename_i hc
        cases h
        refine ⟨by rw [List.cons_append, List.takeWhile_append_dropWhile], fun d hd => ?_⟩
        rcases List.mem_cons.mp hd with rfl | hd
        · exact .inl hc
        · exact mem_digits hd
      · cases h

theorem fraction_eq (text : Text) :
    text = (fraction text).1 ++ (fraction text).2 ∧ ∀ c ∈ (fraction text).1, InNumber c := by
  cases text with
  | nil => exact ⟨rfl, List.forall_mem_nil _⟩
  | cons c text =>
    rw [fraction]
    split
    · rename_i hc
      refine ⟨by rw [List.cons_append, List.takeWhile_append_dropWhile, hc.1], fun d hd => ?_⟩
      rcases List.mem_cons.mp hd with rfl | hd
      · exact .inr (by decide)
      · exact mem_digits hd
    · exact ⟨rfl, List.forall_mem_nil _⟩

theorem exponent_eq (text : Text) :
    text = (exponent text).1 ++ (exponent text).2 ∧ ∀ c ∈ (exponent text).1, InNumber c := by
  cases text with
  | nil => exact ⟨rfl, List.forall_mem_nil _⟩
  | cons c text =>
    obtain ⟨hsign, hmem⟩ := @sign_eq ['-', '+'] (by simp [InNumber]) text
    rw [exponent]
    dsimp only
    split
    · rename_i hc
      refine ⟨?_, fun d hd => ?_⟩
      · rw [List.cons_append, List.append_assoc, List.takeWhile_append_dropWhile, ← hsign]
      · rcases List.mem_cons.mp hd with rfl | hd
        · exact .inr (by rcases hc.1 with rfl | rfl <;> decide)
        · rcases List.mem_append.mp hd with hd | hd
          · exact hmem d hd
          · exact mem_digits hd
    · exact ⟨rfl, List.forall_mem_nil _⟩

theorem matchNumber_eq (h : matchNumber text = some (token, rest)) :
    text = token ++ rest ∧ ∀ c ∈ token, InNumber c := by
  obtain ⟨hs, hsmem⟩ := @sign_eq ['-'] (by simp [InNumber]) text
  rw [matchNumber] at h
  obtain ⟨⟨i, text'⟩, hi, heq⟩ := Option.map_eq_some_iff.mp h
  obtain ⟨hi, himem⟩ := integerPart_eq hi
  obtain ⟨hf, hfmem⟩ := fraction_eq text'
  obtain ⟨he, hemem⟩ := exponent_eq (fraction text').2
  obtain ⟨rfl, rfl⟩ := Prod.mk.inj heq
  constructor
  · rw [List.append_assoc, List.append_assoc, List.append_assoc, ← he, ← hf, ← hi, ← hs]
  · simp only [List.forall_mem_append]
    exact ⟨hsmem, himem, hfmem, hemem⟩

end Numbers

end ContextBroker.JsonText
