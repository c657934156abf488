import Mathlib.Data.List.Infix

/-!
# Lines of a text in parts

A decoder is fed a text in parts and gives each line when its break has come, as
httpx documents `aiter_lines`: the breaks are those of `str.splitlines`. The lines
do not depend on the parts (`feedAll_lines`), more text only adds to them
(`lines_isPrefix`), and a text that was written line by line is read line by line
(`lines_cons`).
-/
namespace ContextBroker.LineDecoder

/-- The line breaks of `str.splitlines`. -/
def isBreak (c : Char) : Bool :=
  c.toNat ∈ [0x0a, 0x0b, 0x0c, 0x0d, 0x1c, 0x1d, 0x1e, 0x85, 0x2028, 0x2029]

/-- The line so far, and whether a carriage return has just ended the one
before. -/
structure Decoder where
  line : List Char := []
  afterReturn : Bool := false
  deriving DecidableEq, Repr

/-- A line feed after a carriage return is of the same break. -/
def Decoder.step (d : Decoder) (c : Char) : List (List Char) × Decoder :=
  if d.afterReturn && c == '\n' then ([], ⟨d.line, false⟩)
  else if isBreak c then ([d.line], ⟨[], c == '\r'⟩)
  else ([], ⟨d.line ++ [c], false⟩)

/-- The lines of a part, and the decoder after it. -/
def Decoder.feed (d : Decoder) : List Char → List (List Char) × Decoder
  | [] => ([], d)
  | c :: text => ((d.step c).1 ++ ((d.step c).2.feed text).1, ((d.step c).2.feed text).2)

def Decoder.feedAll (d : Decoder) : List (List Char) → List (List Char) × Decoder
  | [] => ([], d)
  | part :: parts => ((d.feed part).1 ++ ((d.feed part).2.feedAll parts).1, ((d.feed part).2.feedAll parts).2)

/-- What is left when the text is over. -/
def Decoder.flush (d : Decoder) : List (List Char) := if d.line = [] then [] else [d.line]

def lines (text : List Char) : List (List Char) := (Decoder.feed {} text).1

variable {d : Decoder} {text line rest : List Char}

@[simp] theorem feed_nil : d.feed [] = ([], d) := rfl

theorem feed_append (d : Decoder) (text rest : List Char) :
    d.feed (text ++ rest) = ((d.feed text).1 ++ ((d.feed text).2.feed rest).1, ((d.feed text).2.feed rest).2) := by
  induction text generalizing d with
  | nil => simp
  | cons c text ih => simp [Decoder.feed, ih]

/-- **Any parts** of a text give its lines. -/
theorem feedAll_flatten (d : Decoder) (parts : List (List Char)) : d.feedAll parts = d.feed parts.flatten := by
  induction parts generalizing d with
  | nil => rfl
  | cons part parts ih => rw [Decoder.feedAll, List.flatten_cons, feed_append, ih]

/-- **More text** only adds lines. -/
theorem lines_isPrefix (h : text <+: rest) : lines text <+: lines rest := by
  obtain ⟨more, rfl⟩ := h
  rw [lines, lines, feed_append]
  exact List.prefix_append _ _

theorem feed_plain (h : ∀ c ∈ text, isBreak c = false) : ∀ d : Decoder, d.afterReturn = false →
    d.feed text = ([], ⟨d.line ++ text, false⟩) := by
  induction text with
  | nil =>
    rintro ⟨line, afterReturn⟩ hd
    simp_all
  | cons c text ih =>
    obtain ⟨hc, htext⟩ := List.forall_mem_cons.mp h
    intro d hd
    have hstep : d.step c = ([], ⟨d.line ++ [c], false⟩) := by simp [Decoder.step, hd, hc]
    simp [Decoder.feed, hstep, ih htext]

/-- **A line** without a break in it, and a line feed. -/
theorem lines_cons (h : ∀ c ∈ line, isBreak c = false) (rest : List Char) :
    lines (line ++ '\n' :: rest) = line :: lines rest := by
  have hfeed : Decoder.feed ⟨line, false⟩ ('\n' :: rest) = (line :: lines rest, (Decoder.feed {} rest).2) := rfl
  rw [lines, feed_append, feed_plain h _ rfl]
  show [] ++ (Decoder.feed ⟨line, false⟩ ('\n' :: rest)).1 = _
  rw [hfeed, List.nil_append]

/-- After a line feed nothing of the text is left over. -/
theorem feed_rest (h : text.getLast? = some '\n') (d : Decoder) (hd : d.afterReturn = false ∨ d.line = []) :
    (d.feed text).2.line = [] := by
  induction text generalizing d with
  | nil => cases h
  | cons c text ih =>
    cases text with
    | nil =>
      obtain rfl : c = '\n' := by simpa using h
      cases hreturn : d.afterReturn with
      | false => simp [Decoder.feed, Decoder.step, hreturn, isBreak]
      | true =>
        have hline : d.line = [] := hd.resolve_left (by simp [hreturn])
        simp [Decoder.feed, Decoder.step, hreturn, hline]
    | cons c' text =>
      rw [List.getLast?_cons_cons] at h
      refine ih h _ ?_
      unfold Decoder.step
      split
      · exact .inl rfl
      · split
        · exact .inr rfl
        · exact .inl rfl

end ContextBroker.LineDecoder
