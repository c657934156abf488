import ContextBroker.Core.Substitute
import ContextBroker.L1Data.Schema
import Mathlib.Data.List.TakeWhile

/-!
# Cleaning a text for compaction (`context_broker_ae/memory_extraction.py`)

`clean_for_compaction` substitutes six patterns, one after the other, and
strips the result. The patterns read the characters of cells, so that a cell
can carry where it comes from; `cleanForCompaction` is the case of cells that
are characters.

* `map_clean`: what a cell carries does not change the cleaning.
* `mem_clean`: a cell that no code pattern takes is in the result, or a
  formatting pattern took it, as what its name says.
* `clean_eq_iff`: a stripped text is a fixed point exactly if no pattern
  matches in it.
-/
namespace ContextBroker.Cleaning

open Substitute

section Patterns

variable {α : Type} (ch : α → Char) (lit : Char → α)

/-- The text has a fence here. -/
def startsFence (xs : List α) : Bool := (xs.take 3).map ch == ['`', '`', '`']

/-- The cells before the first fence. -/
def toFence : List α → Option Nat
  | [] => none
  | c :: rest => if startsFence ch (c :: rest) then some 0 else (toFence rest).map (· + 1)

/-- A cell of an inline span. -/
def inSpan (c : α) : Bool := ch c != '`' && ch c != '\n'

def isChar (m : Char) (c : α) : Bool := ch c == m

/-- `^` and `$` with `re.MULTILINE`. -/
def atLineEnd (next : Option α) : Bool := next.all (isChar ch '\n')

/-- `_CODE_BLOCK_RE`, three back-ticks to the next three. -/
def findCodeBlock (_ : Option α) (xs : List α) : Option (Nat × List α) :=
  if startsFence ch xs then
    (toFence ch (xs.drop 3)).map fun n => (n + 6, "[code block removed]".toList.map lit)
  else none

/-- `_INLINE_CODE_RE`, ten characters or more between two back-ticks of a
line. -/
def findInlineCode (_ : Option α) : List α → Option (Nat × List α)
  | [] => none
  | c :: rest =>
    let span := rest.takeWhile (inSpan ch)
    if isChar ch '`' c && 10 ≤ span.length && (rest.dropWhile (inSpan ch)).head?.any (isChar ch '`') then
      some (span.length + 2, "[code]".toList.map lit)
    else none

/-- `_MARKDOWN_HEADER_RE`, `^#{1,6}\\s+`. -/
def findMarkdownHeader (previous : Option α) (xs : List α) : Option (Nat × List α) :=
  let hashes := xs.takeWhile (isChar ch '#')
  let spaces := (xs.dropWhile (isChar ch '#')).takeWhile (isSpace <| ch ·)
  if atLineEnd ch previous && 1 ≤ hashes.length && hashes.length ≤ 6 && !spaces.isEmpty then
    some (hashes.length + spaces.length, [])
  else none

/-- A line of three or more `m`. -/
def findRule (m : Char) (previous : Option α) (xs : List α) : Option (Nat × List α) :=
  let run := xs.takeWhile (isChar ch m)
  if atLineEnd ch previous && 3 ≤ run.length && atLineEnd ch (xs.dropWhile (isChar ch m)).head? then
    some (run.length, [])
  else none

/-- `_MARKDOWN_HR_RE`. -/
def findMarkdownHr (previous : Option α) (xs : List α) : Option (Nat × List α) :=
  ['*', '-', '_'].findSome? fun m => findRule ch m previous xs

/-- `_MARKDOWN_BOLD_RE`, with its group. -/
def findMarkdownBold (_ : Option α) (xs : List α) : Option (Nat × List α) :=
  let inner := (xs.drop 2).takeWhile fun c => !isChar ch '*' c
  let after := (xs.drop 2).dropWhile fun c => !isChar ch '*' c
  if (xs.take 2).map ch == ['*', '*'] && !inner.isEmpty && (after.take 2).map ch == ['*', '*'] then
    some (inner.length + 4, inner)
  else none

/-- `_MULTI_NEWLINE_RE`. -/
def findMultiNewline (_ : Option α) (xs : List α) : Option (Nat × List α) :=
  let run := xs.takeWhile (isChar ch '\n')
  if 3 ≤ run.length then some (run.length, "\n\n".toList.map lit) else none

/-! ## What the patterns match -/

/-- All cells are `m`. -/
def All (m : Char) (xs : List α) : Prop := ∀ c ∈ xs, ch c = m

/-- A text between two fences. -/
def IsCodeBlock (seg : List α) : Prop :=
  ∃ opening body closing, seg = opening ++ (body ++ closing) ∧ All ch '`' opening ∧ opening.length = 3 ∧
    All ch '`' closing ∧ closing.length = 3

/-- A span of a line between two back-ticks. -/
def IsInlineCode (seg : List α) : Prop :=
  ∃ tick span tick', seg = tick :: (span ++ [tick']) ∧ ch tick = '`' ∧ ch tick' = '`' ∧
    (∀ c ∈ span, inSpan ch c = true) ∧ 10 ≤ span.length

/-- Up to six hashes at the start of a line, and the white space after them. -/
def IsHeaderMarker (previous : Option α) (seg : List α) : Prop :=
  atLineEnd ch previous = true ∧ ∃ hashes spaces, seg = hashes ++ spaces ∧ All ch '#' hashes ∧ 1 ≤ hashes.length ∧
    hashes.length ≤ 6 ∧ spaces ≠ [] ∧ ∀ c ∈ spaces, isSpace (ch c) = true

/-- A line of asterisks, hyphens or underscores. -/
def IsRule (previous : Option α) (seg rest : List α) : Prop :=
  atLineEnd ch previous = true ∧ atLineEnd ch rest.head? = true ∧ 3 ≤ seg.length ∧
    (All ch '*' seg ∨ All ch '-' seg ∨ All ch '_' seg)

/-- Two pairs of asterisks, and a text without one between them. -/
def IsBold (seg inner : List α) : Prop :=
  ∃ opening closing, seg = opening ++ (inner ++ closing) ∧ All ch '*' opening ∧ opening.length = 2 ∧
    All ch '*' closing ∧ closing.length = 2 ∧ inner ≠ [] ∧ ∀ c ∈ inner, ch c ≠ '*'

/-- Three line breaks or more. -/
def IsBlankLines (seg : List α) : Prop := All ch '
' seg ∧ 3 ≤ seg.length

variable {ch lit} {previous : Option α} {xs r : List α} {n : Nat}

theorem all_of_map_eq {m : Char} {k : Nat} (h : xs.map ch = List.replicate k m) : All ch m xs ∧ xs.length = k := by
  refine ⟨fun c hc => ?_, ?_⟩
  · have hmem : ch c ∈ List.replicate k m := h ▸ List.mem_map_of_mem hc
    exact (List.mem_replicate.mp hmem).2
  · have hlen := congrArg List.length h
    rwa [List.length_map, List.length_replicate] at hlen

theorem all_takeWhile (m : Char) (xs : List α) : All ch m (xs.takeWhile (isChar ch m)) := fun c hc => by
  simpa [isChar] using List.mem_takeWhile_imp hc

theorem startsFence_eq (h : startsFence ch xs = true) :
    ∃ fence rest, xs = fence ++ rest ∧ All ch '`' fence ∧ fence.length = 3 := by
  obtain ⟨hall, hlen⟩ := @all_of_map_eq _ ch _ '`' 3 (beq_iff_eq.mp h)
  exact ⟨xs.take 3, xs.drop 3, (List.take_append_drop 3 xs).symm, hall, hlen⟩

/-- The first fence. -/
theorem toFence_eq {k : Nat} (h : toFence ch xs = some k) :
    ∃ body rest, xs = body ++ rest ∧ body.length = k ∧ startsFence ch rest = true := by
  induction xs generalizing k with
  | nil => cases h
  | cons c xs ih =>
    unfold toFence at h
    split at h
    · rename_i hstarts
      obtain rfl := Option.some.inj h
      exact ⟨[], c :: xs, rfl, rfl, hstarts⟩
    · obtain ⟨k', hk', rfl⟩ := Option.map_eq_some_iff.mp h
      obtain ⟨body, rest, rfl, hlen, hstarts⟩ := ih hk'
      exact ⟨c :: body, rest, rfl, by rw [List.length_cons, hlen], hstarts⟩

theorem findCodeBlock_eq (h : findCodeBlock ch lit previous xs = some (n, r)) :
    ∃ seg rest, xs = seg ++ rest ∧ seg.length = n ∧ IsCodeBlock ch seg ∧ r = "[code block removed]".toList.map lit := by
  obtain ⟨hstarts, hfound⟩ := Option.ite_none_right_eq_some.mp h
  obtain ⟨k, hk, hfound⟩ := Option.map_eq_some_iff.mp hfound
  obtain ⟨rfl, rfl⟩ := Prod.mk.inj hfound
  obtain ⟨opening, rest, rfl, hopening, hthree⟩ := startsFence_eq hstarts
  rw [List.drop_left' hthree] at hk
  obtain ⟨body, rest, rfl, hlen, hends⟩ := toFence_eq hk
  obtain ⟨closing, rest, rfl, hclosing, hthree'⟩ := startsFence_eq hends
  refine ⟨opening ++ (body ++ closing), rest, by simp, ?_, ⟨opening, body, closing, rfl, hopening, hthree, hclosing,
    hthree'⟩, rfl⟩
  rw [List.length_append, List.length_append]
  omega

theorem findInlineCode_eq (h : findInlineCode ch lit previous xs = some (n, r)) :
    ∃ seg rest, xs = seg ++ rest ∧ seg.length = n ∧ IsInlineCode ch seg ∧ r = "[code]".toList.map lit := by
  cases xs with
  | nil => cases h
  | cons c xs =>
    obtain ⟨hcond, hfound⟩ := Option.ite_none_right_eq_some.mp h
    obtain ⟨rfl, rfl⟩ := Prod.mk.inj (Option.some.inj hfound)
    simp only [Bool.and_eq_true, decide_eq_true_eq] at hcond
    obtain ⟨⟨htick, hlong⟩, hclose⟩ := hcond
    cases hafter : xs.dropWhile (inSpan ch) with
    | nil => simp [hafter] at hclose
    | cons tick' rest =>
      refine ⟨c :: (xs.takeWhile (inSpan ch) ++ [tick']), rest, ?_, ?_, ?_, rfl⟩
      · rw [List.cons_append, List.append_assoc, List.singleton_append, ← hafter, List.takeWhile_append_dropWhile]
      · rw [List.length_cons, List.length_append, List.length_singleton]
      · refine ⟨c, _, tick', rfl, by simpa [isChar] using htick, ?_, fun _ => List.mem_takeWhile_imp, hlong⟩
        simpa [hafter, isChar] using hclose

theorem findMarkdownHeader_eq (h : findMarkdownHeader ch previous xs = some (n, r)) :
    ∃ seg rest, xs = seg ++ rest ∧ seg.length = n ∧ IsHeaderMarker ch previous seg ∧ r = [] := by
  obtain ⟨hcond, hfound⟩ := Option.ite_none_right_eq_some.mp h
  obtain ⟨rfl, rfl⟩ := Prod.mk.inj (Option.some.inj hfound)
  simp only [Bool.and_eq_true, decide_eq_true_eq, Bool.not_eq_true', List.isEmpty_eq_false_iff] at hcond
  obtain ⟨⟨⟨hline, hone⟩, hsix⟩, hspaces⟩ := hcond
  refine ⟨_, (xs.dropWhile (isChar ch '#')).dropWhile (isSpace <| ch ·), ?_, List.length_append, ?_, rfl⟩
  · rw [List.append_assoc, List.takeWhile_append_dropWhile, List.takeWhile_append_dropWhile]
  · exact ⟨hline, _, _, rfl, all_takeWhile '#' xs, hone, hsix, hspaces, fun _ => List.mem_takeWhile_imp⟩

theorem findRule_eq {m : Char} (h : findRule ch m previous xs = some (n, r)) :
    ∃ seg rest, xs = seg ++ rest ∧ seg.length = n ∧ r = [] ∧ atLineEnd ch previous = true ∧
      atLineEnd ch rest.head? = true ∧ 3 ≤ seg.length ∧ All ch m seg := by
  obtain ⟨hcond, hfound⟩ := Option.ite_none_right_eq_some.mp h
  obtain ⟨rfl, rfl⟩ := Prod.mk.inj (Option.some.inj hfound)
  simp only [Bool.and_eq_true, decide_eq_true_eq] at hcond
  obtain ⟨⟨hline, hthree⟩, hend⟩ := hcond
  exact ⟨_, _, (List.takeWhile_append_dropWhile).symm, rfl, rfl, hline, hend, hthree, all_takeWhile m xs⟩

theorem findMarkdownHr_eq (h : findMarkdownHr ch previous xs = some (n, r)) :
    ∃ seg rest, xs = seg ++ rest ∧ seg.length = n ∧ IsRule ch previous seg rest ∧ r = [] := by
  obtain ⟨m, hm, hrule⟩ := List.exists_of_findSome?_eq_some h
  obtain ⟨seg, rest, hxs, hlen, hr, hline, hend, hthree, hall⟩ := findRule_eq hrule
  refine ⟨seg, rest, hxs, hlen, ⟨hline, hend, hthree, ?_⟩, hr⟩
  simp only [List.mem_cons, List.not_mem_nil, or_false] at hm
  rcases hm with rfl | rfl | rfl
  · exact .inl hall
  · exact .inr (.inl hall)
  · exact .inr (.inr hall)

theorem findMarkdownBold_eq (h : findMarkdownBold ch previous xs = some (n, r)) :
    ∃ seg rest, xs = seg ++ rest ∧ seg.length = n ∧ IsBold ch seg r := by
  obtain ⟨hcond, hfound⟩ := Option.ite_none_right_eq_some.mp h
  obtain ⟨rfl, rfl⟩ := Prod.mk.inj (Option.some.inj hfound)
  simp only [Bool.and_eq_true, beq_iff_eq, Bool.not_eq_true', List.isEmpty_eq_false_iff] at hcond
  obtain ⟨⟨hopen, hinner⟩, hclose⟩ := hcond
  obtain ⟨hopens, htwo⟩ := @all_of_map_eq _ ch _ '*' 2 hopen
  obtain ⟨hcloses, htwo'⟩ := @all_of_map_eq _ ch _ '*' 2 hclose
  refine ⟨_, ((xs.drop 2).dropWhile fun c => !isChar ch '*' c).drop 2, ?_, ?_,
    ⟨xs.take 2, _, rfl, hopens, htwo, hcloses, htwo', hinner, fun c hc => ?_⟩⟩
  · rw [List.append_assoc, List.append_assoc, List.take_append_drop, List.takeWhile_append_dropWhile,
      List.take_append_drop]
  · rw [List.length_append, List.length_append, htwo, htwo']
    omega
  · simpa [isChar] using List.mem_takeWhile_imp hc

theorem findMultiNewline_eq (h : findMultiNewline ch lit previous xs = some (n, r)) :
    ∃ seg rest, xs = seg ++ rest ∧ seg.length = n ∧ IsBlankLines ch seg ∧ r = "

".toList.map lit := by
  obtain ⟨hthree, hfound⟩ := Option.ite_none_right_eq_some.mp h
  obtain ⟨rfl, rfl⟩ := Prod.mk.inj (Option.some.inj hfound)
  exact ⟨_, _, (List.takeWhile_append_dropWhile).symm, rfl, ⟨all_takeWhile '
' xs, hthree⟩, rfl⟩

end Patterns

/-! ## The cleaning -/

section Clean

variable {α : Type} (ch : α → Char) (lit : Char → α)

def codeBlock : Pattern α where
  find := findCodeBlock ch lit
  bounds h := by
    obtain ⟨seg, rest, rfl, rfl, ⟨opening, body, closing, rfl, -, hthree, -, -⟩, -⟩ := findCodeBlock_eq h
    simp only [List.length_append]
    omega

def inlineCode : Pattern α where
  find := findInlineCode ch lit
  bounds h := by
    obtain ⟨seg, rest, rfl, rfl, ⟨tick, span, tick', rfl, -⟩, -⟩ := findInlineCode_eq h
    simp

def markdownHeader : Pattern α where
  find := findMarkdownHeader ch
  bounds h := by
    obtain ⟨seg, rest, rfl, rfl, ⟨-, hashes, spaces, rfl, -, hone, -⟩, -⟩ := findMarkdownHeader_eq h
    simp only [List.length_append]
    omega

def markdownHr : Pattern α where
  find := findMarkdownHr ch
  bounds h := by
    obtain ⟨seg, rest, rfl, rfl, ⟨-, -, hthree, -⟩, -⟩ := findMarkdownHr_eq h
    simp only [List.length_append]
    omega

def markdownBold : Pattern α where
  find := findMarkdownBold ch
  bounds h := by
    obtain ⟨seg, rest, rfl, rfl, opening, closing, rfl, -, htwo, -⟩ := findMarkdownBold_eq h
    simp only [List.length_append]
    omega

def multiNewline : Pattern α where
  find := findMultiNewline ch lit
  bounds h := by
    obtain ⟨seg, rest, rfl, rfl, ⟨-, hthree⟩, -⟩ := findMultiNewline_eq h
    simp only [List.length_append]
    omega

/-- `str.strip`. -/
def stripCells (xs : List α) : List α :=
  ((xs.dropWhile (isSpace <| ch ·)).reverse.dropWhile (isSpace <| ch ·)).reverse

def withoutBlocks (xs : List α) : List α := sub (codeBlock ch lit) xs

def withoutCode (xs : List α) : List α := sub (inlineCode ch lit) (withoutBlocks ch lit xs)

def withoutHeaders (xs : List α) : List α := sub (markdownHeader ch) (withoutCode ch lit xs)

def withoutRules (xs : List α) : List α := sub (markdownHr ch) (withoutHeaders ch lit xs)

def withoutBold (xs : List α) : List α := sub (markdownBold ch) (withoutRules ch lit xs)

def withoutBlankLines (xs : List α) : List α := sub (multiNewline ch lit) (withoutBold ch lit xs)

/-- The cells that are left of a text. -/
def clean (xs : List α) : List α := stripCells ch (withoutBlankLines ch lit xs)

end Clean

/-- mirrors memory_extraction.py:21-45 -/
def cleanForCompaction (text : Text) : Text := clean id id text

section Labels

variable {α : Type} {ch : α → Char} {lit : Char → α}

/-! ### What the cells carry -/

theorem lits_map (hlit : ∀ c, ch (lit c) = c) (text : Text) : (text.map lit).map ch = text.map id := by
  rw [List.map_map]
  exact List.map_congr_left fun c _ => hlit c

theorem startsFence_map (xs : List α) : startsFence id (xs.map ch) = startsFence ch xs := by
  simp only [startsFence, ← List.map_take, List.map_map, Function.id_comp]

theorem toFence_map (xs : List α) : toFence id (xs.map ch) = toFence ch xs := by
  induction xs with
  | nil => rfl
  | cons c xs ih =>
    have hstarts := @startsFence_map _ ch (c :: xs)
    rw [List.map_cons] at hstarts ⊢
    rw [toFence, toFence, hstarts, ih]

theorem findCodeBlock_map (hlit : ∀ c, ch (lit c) = c) (previous : Option α) (xs : List α) :
    findCodeBlock id id (previous.map ch) (xs.map ch) =
      (findCodeBlock ch lit previous xs).map fun found => (found.1, found.2.map ch) := by
  unfold findCodeBlock
  rw [startsFence_map, ← List.map_drop, toFence_map]
  split
  · cases toFence ch (xs.drop 3) with
    | none => rfl
    | some k => simp only [Option.map_some, lits_map hlit]
  · rfl

theorem head?_map_any (p : Char → Bool) (xs : List α) :
    (xs.map ch).head?.any p = xs.head?.any fun c => p (ch c) := by
  cases xs <;> rfl

theorem takeWhile_map_ch (p : Char → Bool) (xs : List α) :
    (xs.map ch).takeWhile p = (xs.takeWhile fun c => p (ch c)).map ch :=
  List.takeWhile_map

theorem dropWhile_map_ch (p : Char → Bool) (xs : List α) :
    (xs.map ch).dropWhile p = (xs.dropWhile fun c => p (ch c)).map ch :=
  List.dropWhile_map

theorem ite_map (b : Prop) [Decidable b] (n : Nat) (r : List α) :
    (if b then some (n, r.map ch) else none) =
      (if b then some (n, r) else none).map fun found => (found.1, found.2.map ch) := by
  split <;> rfl

theorem findInlineCode_map (hlit : ∀ c, ch (lit c) = c) (previous : Option α) (xs : List α) :
    findInlineCode id id (previous.map ch) (xs.map ch) =
      (findInlineCode ch lit previous xs).map fun found => (found.1, found.2.map ch) := by
  cases xs with
  | nil => rfl
  | cons c xs =>
    simp only [List.map_cons, findInlineCode, takeWhile_map_ch, dropWhile_map_ch, List.length_map, head?_map_any]
    rw [← ite_map, lits_map hlit]
    rfl

theorem atLineEnd_map (next : Option α) : atLineEnd id (next.map ch) = atLineEnd ch next := by
  cases next <;> rfl

theorem findMarkdownHeader_map (previous : Option α) (xs : List α) :
    findMarkdownHeader id (previous.map ch) (xs.map ch) =
      (findMarkdownHeader ch previous xs).map fun found => (found.1, found.2.map ch) := by
  simp only [findMarkdownHeader, takeWhile_map_ch, dropWhile_map_ch, List.length_map, atLineEnd_map, List.isEmpty_map]
  rw [← ite_map]
  rfl

theorem findRule_map (m : Char) (previous : Option α) (xs : List α) :
    findRule id m (previous.map ch) (xs.map ch) =
      (findRule ch m previous xs).map fun found => (found.1, found.2.map ch) := by
  simp only [findRule, takeWhile_map_ch, dropWhile_map_ch, List.length_map, atLineEnd_map, List.head?_map]
  rw [← ite_map]
  rfl

theorem findMarkdownHr_map (previous : Option α) (xs : List α) :
    findMarkdownHr id (previous.map ch) (xs.map ch) =
      (findMarkdownHr ch previous xs).map fun found => (found.1, found.2.map ch) := by
  simp only [findMarkdownHr, List.findSome?_cons, List.findSome?_nil, findRule_map]
  cases findRule ch '*' previous xs <;> cases findRule ch '-' previous xs <;> cases findRule ch '_' previous xs <;> rfl

theorem findMarkdownBold_map (previous : Option α) (xs : List α) :
    findMarkdownBold id (previous.map ch) (xs.map ch) =
      (findMarkdownBold ch previous xs).map fun found => (found.1, found.2.map ch) := by
  simp only [findMarkdownBold, ← List.map_drop, takeWhile_map_ch, dropWhile_map_ch, ← List.map_take, List.map_map,
    Function.id_comp, List.length_map, List.isEmpty_map]
  rw [← ite_map]
  rfl

theorem findMultiNewline_map (hlit : ∀ c, ch (lit c) = c) (previous : Option α) (xs : List α) :
    findMultiNewline id id (previous.map ch) (xs.map ch) =
      (findMultiNewline ch lit previous xs).map fun found => (found.1, found.2.map ch) := by
  simp only [findMultiNewline, takeWhile_map_ch, List.length_map]
  rw [← ite_map, lits_map hlit]
  rfl

theorem stripCells_map (xs : List α) : stripCells id (xs.map ch) = (stripCells ch xs).map ch := by
  simp only [stripCells, dropWhile_map_ch, ← List.map_reverse]
  rfl

theorem stripCells_eq_strip (text : Text) : stripCells id text = strip text := rfl

/-- **What a cell carries** does not change the cleaning. -/
theorem map_clean (hlit : ∀ c, ch (lit c) = c) (xs : List α) :
    (clean ch lit xs).map ch = cleanForCompaction (xs.map ch) := by
  have hblocks := @sub_map α Char (codeBlock ch lit) (codeBlock id id) ch (findCodeBlock_map hlit)
  have hcode := @sub_map α Char (inlineCode ch lit) (inlineCode id id) ch (findInlineCode_map hlit)
  have hheaders := @sub_map α Char (markdownHeader ch) (markdownHeader id) ch findMarkdownHeader_map
  have hrules := @sub_map α Char (markdownHr ch) (markdownHr id) ch findMarkdownHr_map
  have hbold := @sub_map α Char (markdownBold ch) (markdownBold id) ch findMarkdownBold_map
  have hlines := @sub_map α Char (multiNewline ch lit) (multiNewline id id) ch (findMultiNewline_map hlit)
  simp only [clean, cleanForCompaction, withoutBlankLines, withoutBold, withoutRules, withoutHeaders, withoutCode,
    withoutBlocks, ← stripCells_map, ← hlines, ← hbold, ← hrules, ← hheaders, ← hcode, ← hblocks]

end Labels

/-! ## The matches -/

section Matches

variable {α : Type} {ch : α → Char} {lit : Char → α} {previous : Option α} {seg rest r xs : List α}

theorem codeBlock_matches (h : (codeBlock ch lit).Matches previous seg rest r) :
    IsCodeBlock ch seg ∧ r = "[code block removed]".toList.map lit := by
  obtain ⟨seg', rest', hsplit, hlen, hshape, hr⟩ := @findCodeBlock_eq α ch lit previous _ _ _ h.2
  obtain rfl := (List.append_inj hsplit hlen.symm).1
  exact ⟨hshape, hr⟩

theorem inlineCode_matches (h : (inlineCode ch lit).Matches previous seg rest r) :
    IsInlineCode ch seg ∧ r = "[code]".toList.map lit := by
  obtain ⟨seg', rest', hsplit, hlen, hshape, hr⟩ := @findInlineCode_eq α ch lit previous _ _ _ h.2
  obtain rfl := (List.append_inj hsplit hlen.symm).1
  exact ⟨hshape, hr⟩

theorem markdownHeader_matches (h : (markdownHeader ch).Matches previous seg rest r) :
    IsHeaderMarker ch previous seg ∧ r = [] := by
  obtain ⟨seg', rest', hsplit, hlen, hshape, hr⟩ := findMarkdownHeader_eq h.2
  obtain rfl := (List.append_inj hsplit hlen.symm).1
  exact ⟨hshape, hr⟩

theorem markdownHr_matches (h : (markdownHr ch).Matches previous seg rest r) :
    IsRule ch previous seg rest ∧ r = [] := by
  obtain ⟨seg', rest', hsplit, hlen, hshape, hr⟩ := findMarkdownHr_eq h.2
  obtain ⟨rfl, rfl⟩ := List.append_inj hsplit hlen.symm
  exact ⟨hshape, hr⟩

theorem markdownBold_matches (h : (markdownBold ch).Matches previous seg rest r) : IsBold ch seg r := by
  obtain ⟨seg', rest', hsplit, hlen, hshape⟩ := @findMarkdownBold_eq α ch previous _ _ _ h.2
  obtain rfl := (List.append_inj hsplit hlen.symm).1
  exact hshape

theorem multiNewline_matches (h : (multiNewline ch lit).Matches previous seg rest r) :
    IsBlankLines ch seg ∧ r = "\n\n".toList.map lit := by
  obtain ⟨seg', rest', hsplit, hlen, hshape, hr⟩ := @findMultiNewline_eq α ch lit previous _ _ _ h.2
  obtain rfl := (List.append_inj hsplit hlen.symm).1
  exact ⟨hshape, hr⟩

/-! ### Fixed points -/

theorem stripCells_sublist (xs : List α) : (stripCells ch xs).Sublist xs := by
  have htail : ((xs.dropWhile (isSpace <| ch ·)).reverse.dropWhile (isSpace <| ch ·)).reverse.Sublist
      (xs.dropWhile (isSpace <| ch ·)).reverse.reverse :=
    (List.dropWhile_sublist _).reverse
  rw [List.reverse_reverse] at htail
  exact htail.trans (List.dropWhile_sublist _)

end Matches

/-- No pattern matches in the text. -/
structure NoPattern (text : Text) : Prop where
  codeBlock : (codeBlock id id).Absent none text
  inlineCode : (inlineCode id id).Absent none text
  markdownHeader : (markdownHeader id).Absent none text
  markdownHr : (markdownHr id).Absent none text
  markdownBold : (markdownBold id).Absent none text
  multiNewline : (multiNewline id id).Absent none text

section FixedPoints

def isTick (c : Char) : Bool := c == '`'

theorem countP_all {m : Char} {q : Char → Bool} {xs : Text} (h : All id m xs) (hm : q m = true) :
    xs.countP q = xs.length := by
  rw [List.countP_eq_length]
  intro c hc
  rw [show c = m from h c hc]
  exact hm

/-- The code patterns take back-ticks, and none puts one in. -/
theorem codeBlock_ticks {previous : Option Char} {seg rest r : Text}
    (h : (codeBlock id id).Matches previous seg rest r) :
    r.countP isTick < seg.countP isTick := by
  obtain ⟨⟨opening, body, closing, rfl, hopening, hthree, -, -⟩, rfl⟩ := codeBlock_matches h
  have hnone : ("[code block removed]".toList.map id).countP isTick = 0 := by decide
  rw [hnone, List.countP_append, countP_all hopening rfl]
  omega

theorem inlineCode_ticks {previous : Option Char} {seg rest r : Text}
    (h : (inlineCode id id).Matches previous seg rest r) : r.countP isTick < seg.countP isTick := by
  obtain ⟨⟨tick, span, tick', rfl, htick, -⟩, rfl⟩ := inlineCode_matches h
  have hnone : ("[code]".toList.map id).countP isTick = 0 := by decide
  have hpos : isTick tick = true := beq_iff_eq.mpr htick
  rw [hnone, List.countP_cons_of_pos hpos]
  omega

/-- The others take something, and put nothing in. -/
theorem markdownHeader_shrinks {previous : Option Char} {seg rest r : Text} (q : Char → Bool)
    (h : (markdownHeader id).Matches previous seg rest r) : r.countP q ≤ seg.countP q ∧ r.length < seg.length := by
  obtain ⟨-, rfl⟩ := markdownHeader_matches h
  exact ⟨Nat.zero_le _, List.length_pos_iff.mpr h.1⟩

theorem markdownHr_shrinks {previous : Option Char} {seg rest r : Text} (q : Char → Bool)
    (h : (markdownHr id).Matches previous seg rest r) : r.countP q ≤ seg.countP q ∧ r.length < seg.length := by
  obtain ⟨-, rfl⟩ := markdownHr_matches h
  exact ⟨Nat.zero_le _, List.length_pos_iff.mpr h.1⟩

theorem markdownBold_shrinks {previous : Option Char} {seg rest r : Text} (q : Char → Bool)
    (h : (markdownBold id).Matches previous seg rest r) : r.countP q ≤ seg.countP q ∧ r.length < seg.length := by
  obtain ⟨opening, closing, rfl, -, htwo, -, htwo', -, -⟩ := markdownBold_matches h
  simp only [List.countP_append, List.length_append]
  omega

theorem multiNewline_shrinks {previous : Option Char} {seg rest r : Text}
    (h : (multiNewline id id).Matches previous seg rest r) :
    r.countP isTick ≤ seg.countP isTick ∧ r.length < seg.length := by
  obtain ⟨⟨-, hthree⟩, rfl⟩ := multiNewline_matches h
  have hnone : ("\n\n".toList.map id).countP isTick = 0 := by decide
  rw [hnone]
  exact ⟨Nat.zero_le _, hthree⟩

/-- What such a substitution does to a text. -/
theorem sub_shrinks {p : Pattern Char} (hp : ∀ {previous seg rest r}, p.Matches previous seg rest r →
    r.countP isTick ≤ seg.countP isTick ∧ r.length < seg.length) (xs : Text) :
    (sub p xs).countP isTick ≤ xs.countP isTick ∧ (sub p xs).length ≤ xs.length ∧
      ((sub p xs).length = xs.length → p.Absent none xs ∧ sub p xs = xs) := by
  have hscan := scan_sub p xs
  have hlength := hscan.lt_or_eq (fun _ => true) fun hm => by
    rw [List.countP_true]
    exact (hp hm).2
  rw [List.countP_true] at hlength
  refine ⟨hscan.count_le isTick fun hm => (hp hm).1, ?_, fun heq => hlength.resolve_left (by omega)⟩
  rcases hlength with hlt | ⟨-, heq⟩
  · omega
  · rw [heq]

/-- Code patterns apart, the cleaning only shrinks a text. -/
theorem clean_shrinks (text : Text) :
    (cleanForCompaction text).countP isTick ≤ (withoutCode id id text).countP isTick ∧
      (cleanForCompaction text).length ≤ (withoutCode id id text).length ∧
      ((cleanForCompaction text).length = (withoutCode id id text).length →
        (markdownHeader id).Absent none (withoutCode id id text) ∧
          (markdownHr id).Absent none (withoutCode id id text) ∧
          (markdownBold id).Absent none (withoutCode id id text) ∧
          (multiNewline id id).Absent none (withoutCode id id text) ∧
          cleanForCompaction text = strip (withoutCode id id text)) := by
  obtain ⟨hticks, hlen, hheader⟩ := sub_shrinks (markdownHeader_shrinks isTick) (withoutCode id id text)
  obtain ⟨hticks', hlen', hrule⟩ := sub_shrinks (markdownHr_shrinks isTick) (withoutHeaders id id text)
  obtain ⟨hticks₂, hlen₂, hbold⟩ := sub_shrinks (markdownBold_shrinks isTick) (withoutRules id id text)
  obtain ⟨hticks₃, hlen₃, hlines⟩ := sub_shrinks multiNewline_shrinks (withoutBold id id text)
  have hstrip : (cleanForCompaction text).Sublist (withoutBlankLines id id text) := stripCells_sublist _
  have hsticks : (cleanForCompaction text).countP isTick ≤ (withoutBlankLines id id text).countP isTick :=
    hstrip.countP_le
  have hslen := hstrip.length_le
  rw [← withoutHeaders] at hticks hlen hheader
  rw [← withoutRules] at hticks' hlen' hrule
  rw [← withoutBold] at hticks₂ hlen₂ hbold
  rw [← withoutBlankLines] at hticks₃ hlen₃ hlines
  refine ⟨by omega, by omega, fun heq => ?_⟩
  obtain ⟨habsent, hone⟩ := hheader (by omega)
  obtain ⟨habsent', htwo⟩ := hrule (by omega)
  obtain ⟨habsent₂, hthree⟩ := hbold (by omega)
  obtain ⟨habsent₃, hfour⟩ := hlines (by omega)
  rw [hone] at habsent' htwo
  rw [htwo] at habsent₂ hthree
  rw [hthree] at habsent₃ hfour
  refine ⟨habsent, habsent', habsent₂, habsent₃, ?_⟩
  rw [cleanForCompaction, clean, hfour]
  exact stripCells_eq_strip _

/-- **Fixed points** are the stripped texts in which no pattern matches. -/
theorem clean_eq_iff (text : Text) :
    cleanForCompaction text = text ↔ NoPattern text ∧ strip text = text := by
  constructor
  · intro h
    have hcode := (scan_sub (codeBlock id id) text).lt_or_eq isTick codeBlock_ticks
    have hinline := (scan_sub (inlineCode id id) (withoutBlocks id id text)).lt_or_eq isTick inlineCode_ticks
    obtain ⟨hticks, hlen, hrest⟩ := clean_shrinks text
    rw [h] at hticks hlen hrest
    have hblocks : (codeBlock id id).Absent none text ∧ withoutBlocks id id text = text := by
      refine hcode.resolve_left fun hlt => ?_
      have hle := (scan_sub (inlineCode id id) (withoutBlocks id id text)).count_le isTick fun hm =>
        Nat.le_of_lt (inlineCode_ticks hm)
      exact absurd (Nat.lt_of_le_of_lt (Nat.le_trans hticks hle) hlt) (Nat.lt_irrefl _)
    rw [hblocks.2] at hinline
    have hspans : (inlineCode id id).Absent none text ∧ withoutCode id id text = text := by
      rw [withoutCode, hblocks.2]
      refine hinline.resolve_left fun hlt => ?_
      rw [withoutCode, hblocks.2] at hticks
      exact absurd (Nat.lt_of_le_of_lt hticks hlt) (Nat.lt_irrefl _)
    rw [hspans.2] at hrest
    obtain ⟨hheader, hrule, hbold, hlines, hstrip⟩ := hrest rfl
    exact ⟨⟨hblocks.1, hspans.1, hheader, hrule, hbold, hlines⟩, hstrip.symm⟩
  · rintro ⟨⟨hblocks, hspans, hheader, hrule, hbold, hlines⟩, hstrip⟩
    have hone : withoutBlocks id id text = text := sub_of_absent hblocks
    have htwo : withoutCode id id text = text := by rw [withoutCode, hone, sub_of_absent hspans]
    have hthree : withoutHeaders id id text = text := by rw [withoutHeaders, htwo, sub_of_absent hheader]
    have hfour : withoutRules id id text = text := by rw [withoutRules, hthree, sub_of_absent hrule]
    have hfive : withoutBold id id text = text := by rw [withoutBold, hfour, sub_of_absent hbold]
    have hsix : withoutBlankLines id id text = text := by rw [withoutBlankLines, hfive, sub_of_absent hlines]
    rw [cleanForCompaction, clean, hsix]
    exact hstrip

theorem dropWhile_of_head {p : Char → Bool} {l : Text} (h : ∀ c, l.head? = some c → p c = false) :
    l.dropWhile p = l := by
  cases l with
  | nil => rfl
  | cons c l => rw [List.dropWhile_cons, h c rfl]; rfl

theorem head_dropWhile {p : Char → Bool} {l : Text} {c : Char} (h : (l.dropWhile p).head? = some c) : p c = false := by
  have hnot := List.head?_dropWhile_not p l
  rwa [h] at hnot

/-- A stripped text is stripped. -/
theorem strip_strip (text : Text) : strip (strip text) = strip text := by
  unfold strip
  -- the head of the result is the head of the text without its leading space
  have hfront : (((text.dropWhile isSpace).reverse.dropWhile isSpace).reverse).dropWhile isSpace =
      ((text.dropWhile isSpace).reverse.dropWhile isSpace).reverse := by
    refine dropWhile_of_head fun c hc => ?_
    obtain ⟨before, hbefore⟩ := List.dropWhile_suffix isSpace (l := (text.dropWhile isSpace).reverse)
    have hwhole := congrArg List.reverse hbefore
    rw [List.reverse_append, List.reverse_reverse] at hwhole
    refine @head_dropWhile isSpace text c ?_
    rw [← hwhole, List.head?_append, hc]
    rfl
  rw [hfront, List.reverse_reverse, dropWhile_of_head fun c hc => head_dropWhile hc]

end FixedPoints

/-! ## What is kept -/

section Kept

variable {α : Type} {ch : α → Char} {lit : Char → α} {xs : List α} {c : α}

variable (ch lit) in
/-- A cell that a formatting pattern or the stripping takes, as part of what
it is there for. -/
inductive Formatting (xs : List α) (c : α) : Prop where
  | headerMarker {before seg rest : List α} : withoutCode ch lit xs = before ++ seg ++ rest →
    IsHeaderMarker ch (behind none before) seg → c ∈ seg → Formatting xs c
  | rule {before seg rest : List α} : withoutHeaders ch lit xs = before ++ seg ++ rest →
    IsRule ch (behind none before) seg rest → c ∈ seg → Formatting xs c
  | boldMarker {before seg rest inner : List α} : withoutRules ch lit xs = before ++ seg ++ rest →
    IsBold ch seg inner → c ∈ seg → c ∉ inner → Formatting xs c
  | blankLine {before seg rest : List α} : withoutBold ch lit xs = before ++ seg ++ rest →
    IsBlankLines ch seg → c ∈ seg → Formatting xs c
  | outer {before rest : List α} : withoutBlankLines ch lit xs = before ++ clean ch lit xs ++ rest →
    (∀ d ∈ before ++ rest, isSpace (ch d) = true) → c ∈ before ++ rest → Formatting xs c

/-- What `str.strip` takes off. -/
theorem stripCells_eq (ch : α → Char) (xs : List α) :
    ∃ before rest, xs = before ++ stripCells ch xs ++ rest ∧ ∀ d ∈ before ++ rest, isSpace (ch d) = true := by
  refine ⟨xs.takeWhile (isSpace <| ch ·),
    ((xs.dropWhile (isSpace <| ch ·)).reverse.takeWhile (isSpace <| ch ·)).reverse, ?_, fun d hd => ?_⟩
  · rw [stripCells, List.append_assoc, ← List.reverse_append, List.takeWhile_append_dropWhile, List.reverse_reverse,
      List.takeWhile_append_dropWhile]
  · rcases List.mem_append.mp hd with hd | hd
    · exact (List.mem_takeWhile_imp hd :)
    · exact (List.mem_takeWhile_imp (List.mem_reverse.mp hd) :)

/-- **Only formatting is taken** from what the code patterns leave. -/
theorem mem_clean (hc : c ∈ withoutCode ch lit xs) : c ∈ clean ch lit xs ∨ Formatting ch lit xs c := by
  have hheaders : c ∈ withoutHeaders ch lit xs ∨ Formatting ch lit xs c := by
    rcases (scan_sub (markdownHeader ch) _).kept hc with h | ⟨before, seg, rest, r, hxs, hm, hseg, -⟩
    · exact .inl h
    · exact .inr (.headerMarker hxs (markdownHeader_matches hm).1 hseg)
  have hrules : c ∈ withoutRules ch lit xs ∨ Formatting ch lit xs c := by
    refine hheaders.elim (fun hc => ?_) .inr
    rcases (scan_sub (markdownHr ch) _).kept hc with h | ⟨before, seg, rest, r, hxs, hm, hseg, -⟩
    · exact .inl h
    · exact .inr (.rule hxs (markdownHr_matches hm).1 hseg)
  have hbold : c ∈ withoutBold ch lit xs ∨ Formatting ch lit xs c := by
    refine hrules.elim (fun hc => ?_) .inr
    rcases (scan_sub (markdownBold ch) _).kept hc with h | ⟨before, seg, rest, r, hxs, hm, hseg, hr⟩
    · exact .inl h
    · exact .inr (.boldMarker hxs (markdownBold_matches hm) hseg hr)
  have hlines : c ∈ withoutBlankLines ch lit xs ∨ Formatting ch lit xs c := by
    refine hbold.elim (fun hc => ?_) .inr
    rcases (scan_sub (multiNewline ch lit) _).kept hc with h | ⟨before, seg, rest, r, hxs, hm, hseg, -⟩
    · exact .inl h
    · exact .inr (.blankLine hxs (multiNewline_matches hm).1 hseg)
  refine hlines.elim (fun hc => ?_) .inr
  obtain ⟨before, rest, hxs, hspace⟩ := stripCells_eq ch (withoutBlankLines ch lit xs)
  by_cases hout : c ∈ before ++ rest
  · exact .inr (.outer hxs hspace hout)
  · rw [hxs, List.append_assoc, List.mem_append, List.mem_append] at hc
    rw [List.mem_append, not_or] at hout
    exact .inl ((hc.resolve_left hout.1).resolve_right hout.2)

section Order

variable {ι : Type} (tag : α → Option ι) (htag : ∀ c, tag (lit c) = none) (xs : List α)

include htag

theorem filterMap_lits (text : Text) : (text.map lit).filterMap tag = [] := by
  rw [List.filterMap_map, List.filterMap_eq_nil_iff]
  exact fun c _ => htag c

theorem withoutBlocks_sublist : ((withoutBlocks ch lit xs).filterMap tag).Sublist (xs.filterMap tag) :=
  (scan_sub (codeBlock ch lit) xs).filterMap_sublist tag fun hm => by
    rw [(codeBlock_matches hm).2, filterMap_lits tag htag]
    exact List.nil_sublist _

theorem withoutCode_sublist :
    ((withoutCode ch lit xs).filterMap tag).Sublist ((withoutBlocks ch lit xs).filterMap tag) :=
  (scan_sub (inlineCode ch lit) (withoutBlocks ch lit xs)).filterMap_sublist tag fun hm => by
    rw [(inlineCode_matches hm).2, filterMap_lits tag htag]
    exact List.nil_sublist _

theorem clean_sublist_code : ((clean ch lit xs).filterMap tag).Sublist ((withoutCode ch lit xs).filterMap tag) := by
  have hheaders := (scan_sub (markdownHeader ch) (withoutCode ch lit xs)).filterMap_sublist tag fun hm => by
    rw [(markdownHeader_matches hm).2]
    exact List.nil_sublist _
  have hrules := (scan_sub (markdownHr ch) (withoutHeaders ch lit xs)).filterMap_sublist tag fun hm => by
    rw [(markdownHr_matches hm).2]
    exact List.nil_sublist _
  have hbold := (scan_sub (markdownBold ch) (withoutRules ch lit xs)).filterMap_sublist tag fun hm => by
    obtain ⟨opening, closing, rfl, -⟩ := markdownBold_matches hm
    exact ((List.sublist_append_left _ closing).trans (List.sublist_append_right opening _)).filterMap tag
  have hlines := (scan_sub (multiNewline ch lit) (withoutBold ch lit xs)).filterMap_sublist tag fun hm => by
    rw [(multiNewline_matches hm).2, filterMap_lits tag htag]
    exact List.nil_sublist _
  exact ((stripCells_sublist _).filterMap tag).trans (hlines.trans (hbold.trans (hrules.trans hheaders)))

/-- **What the cells carry** stays in its order. -/
theorem clean_sublist : ((clean ch lit xs).filterMap tag).Sublist (xs.filterMap tag) :=
  (clean_sublist_code tag htag xs).trans ((withoutCode_sublist tag htag xs).trans (withoutBlocks_sublist tag htag xs))

end Order

end Kept

end ContextBroker.Cleaning
