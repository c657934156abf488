import ContextBroker.L3Assembly.Cleaning

/-!
# Inline spans and the prose between them

In a text whose back-ticks pair up on their lines, `_INLINE_CODE_RE` should
take the long spans and leave the short ones. A short span does not match, so
its closing back-tick is tried as an opening one.

* `withoutCode_render`: if no line has ten characters or more between a short
  span and its next back-tick, exactly the long spans are taken.
* `clean_keeps_prose`: then every character outside the spans is in the
  result or was formatting, in its order, and the result is a fixed point
  exactly if no pattern matches in it.
-/
namespace ContextBroker.Cleaning

open Substitute

/-- A text whose back-ticks pair up, piece by piece. -/
inductive Piece (α : Type) where
  | plain (c : α)
  | span (tick : α) (text : List α) (tick' : α)
  deriving DecidableEq, Repr

section Pieces

variable {α : Type} (ch : α → Char) (lit : Char → α)

namespace Piece

def cells : Piece α → List α
  | plain c => [c]
  | span tick text tick' => tick :: (text ++ [tick'])

/-- A span does not go over a line or another back-tick. -/
def Ok : Piece α → Prop
  | plain c => ch c ≠ '`'
  | span tick text tick' => ch tick = '`' ∧ ch tick' = '`' ∧ ∀ c ∈ text, inSpan ch c = true

instance (p : Piece α) : Decidable (p.Ok ch) := by
  cases p <;> unfold Ok <;> infer_instance

/-- A character of a line, outside the spans. -/
def isProse : Piece α → Bool
  | plain c => ch c != '\n'
  | span _ _ _ => false

def isSpan : Piece α → Bool
  | plain _ => false
  | span _ _ _ => true

/-- The cells outside the spans. -/
def outside : Piece α → List α
  | plain c => [c]
  | span _ _ _ => []

/-- A short span stays, a long one is replaced. -/
def shortened : Piece α → List α
  | plain c => [c]
  | span tick text tick' =>
    if 10 ≤ text.length then "[code]".toList.map lit else tick :: (text ++ [tick'])

end Piece

def render (ps : List (Piece α)) : List α := ps.flatMap Piece.cells

/-- Fewer than ten characters follow before the next span of the line. -/
def nearSpan (ps : List (Piece α)) : Bool :=
  !(ps.dropWhile (Piece.isProse ch)).head?.any Piece.isSpan || (ps.takeWhile (Piece.isProse ch)).length < 10

/-- After a short span it is not far to the next one of the line. -/
def Spaced : List (Piece α) → Bool
  | [] => true
  | .plain _ :: ps => Spaced ps
  | .span _ text _ :: ps => (10 ≤ text.length || nearSpan ch ps) && Spaced ps

variable {ch lit} {previous : Option α} {ps : List (Piece α)}

theorem render_cons (p : Piece α) (ps : List (Piece α)) : render (p :: ps) = p.cells ++ render ps :=
  List.flatMap_cons

/-- No code without a back-tick. -/
theorem findInlineCode_of_ne (previous : Option α) {c : α} {rest : List α} (h : ch c ≠ '`') :
    findInlineCode ch lit previous (c :: rest) = none := by
  have hc : isChar ch '`' c = false := by simpa [isChar] using h
  simp [findInlineCode, hc]

/-- No code where the next back-tick is near. -/
theorem findInlineCode_of_near (previous : Option α) {c : α} {rest : List α}
    (h : ∀ span tick after, rest = span ++ tick :: after → (∀ d ∈ span, inSpan ch d = true) → ch tick = '`' →
      span.length < 10) : findInlineCode ch lit previous (c :: rest) = none := by
  cases hfind : findInlineCode ch lit previous (c :: rest) with
  | none => rfl
  | some found =>
    obtain ⟨seg, after, hxs, -, ⟨tick, span, tick', rfl, -, htick', hspan, hlong⟩, -⟩ :=
      @findInlineCode_eq α ch lit previous _ found.2 found.1 hfind
    obtain ⟨rfl, rfl⟩ := List.cons.inj hxs
    have hnear := h span tick' after (by simp) hspan htick'
    omega

/-- Cells of a line up to a back-tick are prose up to a span. -/
theorem render_split {span after : List α} {tick : α} (hps : ∀ p ∈ ps, p.Ok ch)
    (h : render ps = span ++ tick :: after) (hspan : ∀ c ∈ span, inSpan ch c = true) (htick : ch tick = '`') :
    (ps.takeWhile (Piece.isProse ch)).length = span.length ∧
      (ps.dropWhile (Piece.isProse ch)).head?.any Piece.isSpan = true := by
  induction ps generalizing span with
  | nil => exact absurd h (by simp [render])
  | cons p ps ih =>
    have hp := hps p List.mem_cons_self
    rw [render_cons] at h
    cases p with
    | span t text t' =>
      cases span with
      | nil => exact ⟨rfl, rfl⟩
      | cons c span =>
        obtain ⟨rfl, -⟩ := List.cons.inj h
        have hc := hspan t List.mem_cons_self
        simp [inSpan, hp.1] at hc
    | plain c =>
      cases span with
      | nil =>
        obtain ⟨rfl, -⟩ := List.cons.inj h
        exact absurd htick hp
      | cons d span =>
        obtain ⟨rfl, hrest⟩ := List.cons.inj h
        have hc : Piece.isProse ch (.plain c) = true := by
          have hin := hspan c List.mem_cons_self
          simp only [inSpan, Bool.and_eq_true] at hin
          exact hin.2
        obtain ⟨hlen, hspan'⟩ := ih (fun p hp => hps p (List.mem_cons_of_mem _ hp)) hrest
          fun e he => hspan e (List.mem_cons_of_mem _ he)
        rw [List.takeWhile_cons_of_pos hc, List.dropWhile_cons_of_pos hc]
        exact ⟨by rw [List.length_cons, List.length_cons, hlen], hspan'⟩

theorem skips_of_ne {k rest : List α} (h : ∀ c ∈ k, ch c ≠ '`') : (inlineCode ch lit).Skips previous k rest :=
  skips_of_forall fun c hc before _ => findInlineCode_of_ne before (h c hc)

theorem takeWhile_inSpan {text rest : List α} {tick : α} (htext : ∀ c ∈ text, inSpan ch c = true)
    (htick : ch tick = '`') : (text ++ tick :: rest).takeWhile (inSpan ch) = text ∧
      (text ++ tick :: rest).dropWhile (inSpan ch) = tick :: rest := by
  have hstop : inSpan ch tick = false := by simp [inSpan, htick]
  rw [List.takeWhile_append_of_pos htext, List.dropWhile_append_of_pos htext, List.takeWhile_cons, List.dropWhile_cons,
    hstop]
  simp

/-- A long span is code. -/
theorem matches_long {tick tick' : α} {text rest : List α} (hok : (Piece.span tick text tick').Ok ch)
    (hlong : 10 ≤ text.length) :
    (inlineCode ch lit).Matches previous (tick :: (text ++ [tick'])) rest ("[code]".toList.map lit) := by
  obtain ⟨htick, htick', htext⟩ := hok
  obtain ⟨htake, hdrop⟩ := @takeWhile_inSpan α ch text rest tick' htext htick'
  have hrest : tick :: (text ++ [tick']) ++ rest = tick :: (text ++ tick' :: rest) := by simp
  refine ⟨List.cons_ne_nil _ _, ?_⟩
  rw [hrest]
  simp only [inlineCode, findInlineCode, htake, hdrop, List.length_cons, List.length_append, List.length_nil]
  rw [if_pos]
  simp [isChar, htick, htick', hlong]

/-- A short one with none near behind it is not. -/
theorem skips_short {tick tick' : α} {text : List α} (hok : (Piece.span tick text tick').Ok ch)
    (hps : ∀ p ∈ ps, p.Ok ch) (hshort : text.length < 10) (hnear : nearSpan ch ps = true) :
    (inlineCode ch lit).Skips previous (tick :: (text ++ [tick'])) (render ps) := by
  obtain ⟨htick, htick', htext⟩ := hok
  have hne : ∀ c ∈ text, ch c ≠ '`' := fun c hc heq => by simpa [inSpan, heq] using htext c hc
  have hopen : findInlineCode ch lit previous (tick :: (text ++ [tick'] ++ render ps)) = none := by
    refine findInlineCode_of_near previous fun span t after hrest hspan ht => ?_
    rw [List.append_assoc, List.singleton_append] at hrest
    have hsame := congrArg (List.takeWhile (inSpan ch)) hrest
    rw [(takeWhile_inSpan htext htick').1, (takeWhile_inSpan hspan ht).1] at hsame
    rwa [← hsame]
  have hclose : ∀ before, findInlineCode ch lit before (tick' :: render ps) = none := by
    intro before
    refine findInlineCode_of_near before fun span t after hrest hspan ht => ?_
    obtain ⟨hlen, hany⟩ := render_split hps hrest hspan ht
    unfold nearSpan at hnear
    rw [hany, hlen] at hnear
    simpa using hnear
  exact ⟨hopen, skips_append (skips_of_ne hne) ⟨hclose (behind (some tick) text), trivial⟩⟩

/-- **The long spans** are what the inline pattern takes. -/
theorem sub_inlineCode (hps : ∀ p ∈ ps, p.Ok ch) (hspaced : Spaced ch ps = true) :
    subFrom (inlineCode ch lit) 0 previous (render ps) = ps.flatMap (Piece.shortened lit) := by
  induction ps generalizing previous with
  | nil => rfl
  | cons p ps ih =>
    have hp := hps p List.mem_cons_self
    have hrest : ∀ q ∈ ps, q.Ok ch := fun q hq => hps q (List.mem_cons_of_mem p hq)
    rw [render_cons, List.flatMap_cons]
    cases p with
    | plain c =>
      have hnone : (inlineCode ch lit).find previous (c :: render ps) = none := findInlineCode_of_ne previous hp
      rw [Piece.cells, List.singleton_append, subFrom_of_none hnone, ih hrest hspaced]
      rfl
    | span tick text tick' =>
      simp only [Spaced, Bool.and_eq_true, Bool.or_eq_true, decide_eq_true_eq] at hspaced
      obtain ⟨hfirst, hspaced⟩ := hspaced
      by_cases hlong : 10 ≤ text.length
      · have hshort : Piece.shortened lit (.span tick text tick') = "[code]".toList.map lit := if_pos hlong
        rw [Piece.cells, subFrom_of_match (matches_long hp hlong), ih hrest hspaced, hshort]
      · have hshort : Piece.shortened lit (.span tick text tick') = tick :: (text ++ [tick']) := if_neg hlong
        have hskips := @skips_short α ch lit previous ps tick tick' text hp hrest (by omega)
          (hfirst.resolve_left hlong)
        rw [Piece.cells, subFrom_of_skips hskips, ih hrest hspaced, hshort]

end Pieces

/-! ## Texts -/

/-- A character, with its position in the text it comes from. -/
structure Cell where
  char : Char
  position : Option Nat
  deriving DecidableEq, Repr

def Cell.lit (c : Char) : Cell := ⟨c, none⟩

def cells (text : Text) : List Cell := text.zipIdx.map fun x => ⟨x.1, some x.2⟩

/-- What the cleaning leaves of a text. -/
def cleanCells (text : Text) : List Cell := clean Cell.char Cell.lit (cells text)

/-- The back-ticks of the text pair up, within its lines. -/
def Pairs (text : Text) (ps : List (Piece Cell)) : Prop := render ps = cells text ∧ ∀ p ∈ ps, p.Ok Cell.char

instance (text : Text) (ps : List (Piece Cell)) : Decidable (Pairs text ps) := inferInstanceAs (Decidable (_ ∧ _))

/-- Nowhere three back-ticks in a row. -/
def NoFence (text : Text) : Prop := ¬['`', '`', '`'] <:+: text

instance (text : Text) : Decidable (NoFence text) := inferInstanceAs (Decidable (¬_))

theorem cells_char (text : Text) : (cells text).map Cell.char = text := by
  rw [cells, List.map_map]
  exact List.zipIdx_map_fst 0 text

theorem cells_position (text : Text) : (cells text).filterMap Cell.position = List.range text.length := by
  rw [cells, List.filterMap_map]
  have hsnd : Cell.position ∘ (fun x : Char × Nat => (⟨x.1, some x.2⟩ : Cell)) = some ∘ Prod.snd := rfl
  rw [hsnd, List.filterMap_eq_map, List.zipIdx_map_snd, List.range_eq_range']

theorem codeBlock_absent {xs : List Cell} (h : NoFence (xs.map Cell.char)) :
    (codeBlock Cell.char Cell.lit).Absent none xs := by
  intro before rest hxs _
  refine if_neg fun hstarts => h ?_
  obtain ⟨fence, after, rfl, hall, hthree⟩ := startsFence_eq hstarts
  have hfence : fence.map Cell.char = ['`', '`', '`'] := by
    have hrep : fence.map Cell.char = List.replicate fence.length '`' := List.map_eq_replicate_iff.mpr hall
    rw [hrep, hthree]
    rfl
  refine ⟨before.map Cell.char, after.map Cell.char, ?_⟩
  rw [hxs, List.map_append, List.map_append, hfence, List.append_assoc]

/-- Without fences and with near spans, the code patterns take exactly the
long spans. -/
theorem withoutCode_render {text : Text} {ps : List (Piece Cell)} (hpairs : Pairs text ps) (hfence : NoFence text)
    (hspaced : Spaced Cell.char ps = true) :
    withoutCode Cell.char Cell.lit (cells text) = ps.flatMap (Piece.shortened Cell.lit) := by
  have hblocks : withoutBlocks Cell.char Cell.lit (cells text) = cells text :=
    sub_of_absent (codeBlock_absent ((cells_char text).symm ▸ hfence))
  rw [withoutCode, hblocks, ← hpairs.1]
  exact sub_inlineCode hpairs.2 hspaced

theorem outside_subset (ps : List (Piece Cell)) :
    ps.flatMap Piece.outside ⊆ ps.flatMap (Piece.shortened Cell.lit) := by
  intro c hc
  obtain ⟨p, hp, hcp⟩ := List.mem_flatMap.mp hc
  refine List.mem_flatMap.mpr ⟨p, hp, ?_⟩
  cases p with
  | plain d => exact hcp
  | span tick span tick' => cases hcp

/-- **Prose is kept.** In a text without fences whose back-ticks pair up, with
no short span far before the next one of its line, every character outside
the spans is in the result or was formatting, and what is left is in its
order. The result is a fixed point exactly if no pattern matches in it. -/
theorem clean_keeps_prose (text : Text) (ps : List (Piece Cell)) (hpairs : Pairs text ps) (hfence : NoFence text)
    (hspaced : Spaced Cell.char ps = true) :
    (cleanCells text).map Cell.char = cleanForCompaction text ∧
      (∀ c ∈ ps.flatMap Piece.outside,
        c ∈ cleanCells text ∨ Formatting Cell.char Cell.lit (cells text) c) ∧
      ((cleanCells text).filterMap Cell.position).Sublist (List.range text.length) ∧
      (cleanForCompaction (cleanForCompaction text) = cleanForCompaction text ↔
        NoPattern (cleanForCompaction text)) := by
  refine ⟨?_, fun c hc => ?_, ?_, ?_⟩
  · rw [cleanCells, map_clean fun _ => rfl, cells_char]
  · refine mem_clean ?_
    rw [withoutCode_render hpairs hfence hspaced]
    exact outside_subset ps hc
  · rw [← cells_position]
    exact clean_sublist Cell.position (fun _ => rfl) (cells text)
  · rw [clean_eq_iff]
    exact and_iff_left (strip_strip _)

def sampleText : Text := "a `b` c".toList

def sampleSpans : List (Piece Cell) :=
  [.plain ⟨'a', some 0⟩, .plain ⟨' ', some 1⟩, .span ⟨'`', some 2⟩ [⟨'b', some 3⟩] ⟨'`', some 4⟩, .plain ⟨' ', some 5⟩,
    .plain ⟨'c', some 6⟩]

theorem clean_keeps_prose_sample :
    (cleanCells sampleText).map Cell.char = cleanForCompaction sampleText ∧
      (∀ c ∈ sampleSpans.flatMap Piece.outside,
        c ∈ cleanCells sampleText ∨ Formatting Cell.char Cell.lit (cells sampleText) c) ∧
      ((cleanCells sampleText).filterMap Cell.position).Sublist (List.range sampleText.length) ∧
      (cleanForCompaction (cleanForCompaction sampleText) = cleanForCompaction sampleText ↔
        NoPattern (cleanForCompaction sampleText)) :=
  clean_keeps_prose sampleText sampleSpans (by decide) (by decide +kernel) (by decide)

/-- The path between two short spans is taken for code, by a slip of the pattern;
and a header in a header is left for a second cleaning, as each pattern is
substituted once. -/
theorem clean_takes_path :
    cleanForCompaction "`ls` lists src/main.py and `rm`".toList = "`ls[code]rm`".toList ∧
      cleanForCompaction "# # Plan".toList = "# Plan".toList ∧
      cleanForCompaction "# Plan".toList = "Plan".toList := by
  decide +kernel

end ContextBroker.Cleaning
