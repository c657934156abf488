import ContextBroker.L3Assembly.CleaningBold
import ContextBroker.L3Assembly.CleaningFences
import ContextBroker.L3Assembly.CleaningSpans

/-!
# Patterns over headers and contents

A chunk is a list of headers with their contents, each content but the last
with the line break that joins it to the next header. Its cells know the
message they are of (`Mark`). A pattern finds the messages `Apart` if it
substitutes each content for itself; what it takes is then of one message.

* `LinePattern.apart`, `LinePattern.spared`: inline spans, markers, rules and
  blank lines, exactly if no match begins in a header.
* `FencesApart.apart`, `fencesApart_of_count`: code blocks, exactly if no pair of
  fences has a header between them.
* `BoldApart.apart`, `boldApart_of_count`: bold texts, exactly if no marker is
  left open that is closed behind.
-/
namespace ContextBroker.Cleaning

open Substitute

/-! ## Where a pattern of lines ends -/

section Borders

variable {α : Type} {ch : α → Char} {lit : Char → α} {xs rest : List α} {previous : Option α}

/-- Cells up to one that is in the text, or comes next. -/
theorem span_append {p : α → Bool} (h : (∀ d ∈ rest.head?, p d = false) ∨ ∃ d ∈ xs, p d = false) :
    (xs ++ rest).takeWhile p = xs.takeWhile p ∧ (xs ++ rest).dropWhile p = xs.dropWhile p ++ rest := by
  induction xs with
  | nil =>
    have hhead := h.resolve_right fun ⟨d, hd, _⟩ => absurd hd List.not_mem_nil
    cases rest with
    | nil => exact ⟨rfl, rfl⟩
    | cons d rest =>
      have hd := hhead d rfl
      rw [List.nil_append, List.takeWhile_cons_of_neg (by simp [hd]), List.dropWhile_cons_of_neg (by simp [hd])]
      exact ⟨rfl, rfl⟩
  | cons c xs ih =>
    cases hc : p c with
    | false =>
      rw [List.cons_append, List.takeWhile_cons_of_neg (by simp [hc]), List.takeWhile_cons_of_neg (by simp [hc]),
        List.dropWhile_cons_of_neg (by simp [hc]), List.dropWhile_cons_of_neg (by simp [hc])]
      exact ⟨rfl, rfl⟩
    | true =>
      obtain ⟨htake, hdrop⟩ := ih (h.imp_right fun ⟨d, hd, hpd⟩ => by
        rcases List.mem_cons.mp hd with rfl | hd
        · rw [hc] at hpd
          cases hpd
        · exact ⟨d, hd, hpd⟩)
      rw [List.cons_append, List.takeWhile_cons_of_pos hc, List.takeWhile_cons_of_pos hc,
        List.dropWhile_cons_of_pos hc, List.dropWhile_cons_of_pos hc, htake, hdrop]
      exact ⟨rfl, rfl⟩

theorem mem_dropWhile {p : α → Bool} {d : α} (hd : d ∈ xs) (hp : p d = false) : d ∈ xs.dropWhile p := by
  rw [← List.takeWhile_append_dropWhile (p := p) (l := xs)] at hd
  refine (List.mem_append.mp hd).resolve_left fun htake => ?_
  have hpd : p d = true := List.mem_takeWhile_imp htake
  rw [hp] at hpd
  cases hpd

/-- A marker ends before the bracket of a header. -/
theorem findMarkdownHeader_append (h : (∀ d ∈ rest.head?, ch d = '[') ∨ ∃ d ∈ xs, ch d = ']') :
    findMarkdownHeader ch previous (xs ++ rest) = findMarkdownHeader ch previous xs := by
  have hhash := @span_append α xs rest (isChar ch '#') (h.imp
    (fun hnext d hd => by simp [isChar, hnext d hd]) fun ⟨d, hd, hch⟩ => ⟨d, hd, by simp [isChar, hch]⟩)
  have hspace := @span_append α (xs.dropWhile (isChar ch '#')) rest (isSpace <| ch ·) (h.imp
    (fun hnext d hd => by rw [hnext d hd]; decide) fun ⟨d, hd, hch⟩ =>
      ⟨d, mem_dropWhile hd (by simp [isChar, hch]), by rw [hch]; decide⟩)
  rw [findMarkdownHeader, findMarkdownHeader, hhash.1, hhash.2, hspace.1]

/-- A rule ends with its line. -/
theorem findMarkdownHr_append (h : ∃ d ∈ xs, ch d = '\n' ∨ ch d = ']') :
    findMarkdownHr ch previous (xs ++ rest) = findMarkdownHr ch previous xs := by
  obtain ⟨d, hd, hch⟩ := h
  have hrule : ∀ m, m ≠ '\n' → m ≠ ']' → findRule ch m previous (xs ++ rest) = findRule ch m previous xs := by
    intro m hline hbracket
    have hnot : isChar ch m d = false := by
      rcases hch with hch | hch
      · simpa [isChar, hch] using hline.symm
      · simpa [isChar, hch] using hbracket.symm
    obtain ⟨htake, hdrop⟩ := @span_append α xs rest (isChar ch m) (.inr ⟨d, hd, hnot⟩)
    have hmem := mem_dropWhile hd hnot
    have hhead : (xs.dropWhile (isChar ch m) ++ rest).head? = (xs.dropWhile (isChar ch m)).head? := by
      rw [List.head?_append_of_ne_nil _ (List.ne_nil_of_mem hmem)]
    rw [findRule, findRule, htake, hdrop, hhead]
  simp only [findMarkdownHr, List.findSome?_cons, List.findSome?_nil, hrule '*' (by decide) (by decide),
    hrule '-' (by decide) (by decide), hrule '_' (by decide) (by decide)]

theorem findMultiNewline_append (h : (∀ d ∈ rest.head?, ch d = '[') ∨ ∃ d ∈ xs, ch d = ']') :
    findMultiNewline ch lit previous (xs ++ rest) = findMultiNewline ch lit previous xs := by
  have hlines := @span_append α xs rest (isChar ch '\n') (h.imp
    (fun hnext d hd => by simp [isChar, hnext d hd]) fun ⟨d, hd, hch⟩ => ⟨d, hd, by simp [isChar, hch]⟩)
  rw [findMultiNewline, findMultiNewline, hlines.1]

/-- A span ends with its line. -/
theorem findInlineCode_border {n : α} (hn : ch n = '\n') (hends : xs.getLast? = some n) :
    findInlineCode ch lit previous (xs ++ rest) = findInlineCode ch lit previous xs := by
  obtain ⟨v, rfl⟩ := List.getLast?_eq_some_iff.mp hends
  have hline : ∀ after, atLineEnd ch (n :: after).head? = true := fun after => by simp [atLineEnd, isChar, hn]
  cases v with
  | nil =>
    have htick : ch n ≠ '`' := by rw [hn]; decide
    exact (findInlineCode_of_ne previous htick).trans (findInlineCode_of_ne previous htick).symm
  | cons c v =>
    have hover := @findInlineCode_append α ch (n :: rest) lit previous (hline rest) c v
    have hown := @findInlineCode_append α ch [n] lit previous (hline []) c v
    rw [List.append_assoc, List.cons_append, List.cons_append]
    exact hover.trans hown.symm

/-- Behind a line break, what a marker takes leaves a line break before it. -/
theorem markdownHeader_ends {ys : List α} (h : Scan (markdownHeader ch) previous xs ys)
    (hxs : ∃ d ∈ xs.getLast?, ch d = '\n') :
    (∃ d ∈ ys.getLast?, ch d = '\n') ∨ ys = [] ∧ atLineEnd ch previous = true := by
  induction h with
  | done => obtain ⟨d, hd, -⟩ := hxs; cases hd
  | @keep _ c rest ys _ hscan ih =>
    cases rest with
    | nil =>
      rw [hscan.eq_nil rfl]
      exact .inl hxs
    | cons d rest =>
      rw [List.getLast?_cons_cons] at hxs
      rcases ih hxs with ⟨e, he, hch⟩ | ⟨rfl, hline⟩
      · exact .inl ⟨e, by rw [List.getLast?_cons, he]; rfl, hch⟩
      · exact .inl ⟨c, rfl, by simpa [atLineEnd, isChar] using hline⟩
  | @replace _ seg rest r ys hm hscan ih =>
    obtain ⟨⟨hline, -⟩, rfl⟩ := markdownHeader_matches hm
    cases rest with
    | nil =>
      rw [hscan.eq_nil rfl]
      exact .inr ⟨rfl, hline⟩
    | cons d rest =>
      rw [List.getLast?_append_cons] at hxs
      rcases ih hxs with hends | ⟨rfl, -⟩
      · exact .inl hends
      · exact .inr ⟨rfl, hline⟩

end Borders

/-! ## Cells of a chunk -/

/-- A character, the message whose line it is in, and whether it is of the header. -/
structure Mark where
  char : Char
  message : Option Nat
  header : Bool
  deriving DecidableEq, Repr

def Mark.lit (c : Char) : Mark := ⟨c, none, false⟩

/-- Headers, each with the content behind it. -/
def flat {α : Type} (ps : List (List α × List α)) : List α := ps.flatMap fun x => x.1 ++ x.2

/-- The contents substituted, each for itself. -/
def passed {α : Type} (p : Pattern α) (ps : List (List α × List α)) : List (List α × List α) :=
  ps.map fun x => (x.1, sub p x.2)

/-- A cell of a header, or one that is neither of the `i`-th message nor put in. No
pattern puts an asterisk in. -/
def foreign (i : Nat) (c : Mark) : Bool :=
  c.header || !(c.message == some i || c.message == none && c.char != '*')

structure IsHeader (i : Nat) (k : List Mark) : Prop where
  opens : ∃ c l, k = c :: l ∧ c.char = '['
  closes : ∃ l c, k = l ++ [c] ∧ c.char = ']'
  all : ∀ c ∈ k, c.header = true ∧ c.message = some i

structure IsContent (i : Nat) (u : List Mark) : Prop where
  opens : ∃ c l, u = c :: l ∧ c.char = ' '
  own : u.countP (foreign i) = 0

/-- The text ends with a line break. -/
def EndsLine (u : List Mark) : Prop := ∃ c ∈ u.getLast?, c.char = '\n'

/-- Headers and contents of messages from the `i`-th on, each content but the last with
its line break. -/
def Shaped : Nat → List (List Mark × List Mark) → Prop
  | _, [] => True
  | i, x :: ps => IsHeader i x.1 ∧ IsContent i x.2 ∧ (ps = [] ∨ EndsLine x.2) ∧ Shaped (i + 1) ps

/-- All cells that belong to a message belong to one. -/
def OneMessage (seg : List Mark) : Prop :=
  ∀ c ∈ seg, ∀ d ∈ seg, ∀ i ∈ c.message, ∀ j ∈ d.message, i = j

/-- The contents are substituted each for itself, and so are the matches. -/
structure Apart (p : Pattern Mark) (ps : List (List Mark × List Mark)) : Prop where
  reads : sub p (flat ps) = flat (passed p ps)
  takes : taken p (flat ps) = ps.flatMap fun x => taken p x.2

/-- Not a pattern of brackets and blanks, and what is put in is of no message. -/
structure Artifact (p : Pattern Mark) : Prop where
  starts : ∀ (a : Option Mark) (c : Mark) (xs : List Mark), c.char = '[' ∨ c.char = ' ' → p.find a (c :: xs) = none
  foreign_le : ∀ (i : Nat) {a : Option Mark} {seg rest r : List Mark}, p.Matches a seg rest r →
    r.countP (foreign i) ≤ seg.countP (foreign i)
  header_le : ∀ {a : Option Mark} {seg rest r : List Mark}, p.Matches a seg rest r →
    r.countP Mark.header ≤ seg.countP Mark.header
  header_lt : ∀ {a : Option Mark} {c : Mark} {seg rest r : List Mark}, p.Matches a (c :: seg) rest r →
    c.header = true → r.countP Mark.header < (c :: seg).countP Mark.header

section Passes

variable {p : Pattern Mark} {i : Nat} {ps : List (List Mark × List Mark)} {x : List Mark × List Mark}
  {k u rest seg : List Mark} {previous : Option Mark}

@[simp] theorem flat_cons {α : Type} (x : List α × List α) (ps : List (List α × List α)) :
    flat (x :: ps) = x.1 ++ (x.2 ++ flat ps) := by
  rw [flat, List.flatMap_cons, List.append_assoc]
  rfl

theorem mem_own {c : Mark} (hu : IsContent i u) (hc : c ∈ u) :
    c.header = false ∧ (c.message = some i ∨ c.message = none ∧ c.char ≠ '*') := by
  have hnot := List.countP_eq_zero.mp hu.own c hc
  simpa [foreign, or_iff_not_imp_left] using hnot

theorem IsContent.no_header (hu : IsContent i u) : u.countP Mark.header = 0 := by
  rw [List.countP_eq_zero]
  intro c hc
  rw [(mem_own hu hc).1]
  exact Bool.false_ne_true

theorem IsContent.oneMessage (hu : IsContent i u) (hseg : ∀ c ∈ seg, c ∈ u) : OneMessage seg := by
  have hown : ∀ c ∈ seg, ∀ j ∈ c.message, j = i := fun c hc j hj => by
    rcases (mem_own hu (hseg c hc)).2 with h | ⟨h, -⟩ <;> rw [h] at hj
    · exact (Option.some.inj hj).symm
    · cases hj
  exact fun c hc d hd j hj j' hj' => (hown c hc j hj).trans (hown d hd j' hj').symm

/-- A text of messages begins with a bracket. -/
theorem Shaped.head (h : Shaped i ps) : ∀ c ∈ (flat ps).head?, c.char = '[' := by
  cases ps with
  | nil => exact fun c hc => by cases hc
  | cons x ps =>
    obtain ⟨c, l, hx, hc⟩ := h.1.opens
    rw [flat_cons, hx]
    exact fun d hd => Option.some.inj hd ▸ hc

theorem Artifact.restart (hp : Artifact p) (hrest : ∀ c ∈ rest.head?, c.char = '[' ∨ c.char = ' ') (a : Option Mark) :
    subFrom p 0 a rest = sub p rest ∧ takenFrom p 0 a rest = taken p rest := by
  cases rest with
  | nil => exact ⟨rfl, rfl⟩
  | cons c rest =>
    exact subFrom_of_head (fun b xs => hp.starts b c xs (hrest c rfl)) a none rest

theorem IsContent.head (hu : IsContent i u) (rest : List Mark) :
    ∀ c ∈ (u ++ rest).head?, c.char = '[' ∨ c.char = ' ' := by
  obtain ⟨c, l, rfl, hc⟩ := hu.opens
  exact fun d hd => .inr (Option.some.inj hd ▸ hc)

theorem IsContent.passed (hp : Artifact p) (hu : IsContent i u) : IsContent i (sub p u) where
  opens := by
    obtain ⟨c, l, rfl, hc⟩ := hu.opens
    exact ⟨c, _, subFrom_of_none (hp.starts none c l (.inr hc)), hc⟩
  own := Nat.le_zero.mp (hu.own ▸ (scan_sub p u).count_le (foreign i) (hp.foreign_le i))

/-- Behind a header that no match begins in, the content is read from its start. -/
theorem Artifact.header_append (hp : Artifact p) (hu : IsContent i u) (h : p.Skips none k (u ++ rest)) :
    sub p (k ++ (u ++ rest)) = k ++ sub p (u ++ rest) ∧ taken p (k ++ (u ++ rest)) = taken p (u ++ rest) := by
  obtain ⟨hsub, htaken⟩ := hp.restart (hu.head rest) (behind none k)
  rw [sub, subFrom_of_skips h, taken, takenFrom_of_skips h, hsub, htaken]
  exact ⟨rfl, rfl⟩

/-- Where no cell of a header is lost, no match begins in the first, and what follows
loses none. -/
theorem Artifact.skips_of_count (hp : Artifact p) (hk : IsHeader i k) (hu : IsContent i u)
    (h : (k ++ (u ++ rest)).countP Mark.header ≤ (sub p (k ++ (u ++ rest))).countP Mark.header) :
    p.Skips none k (u ++ rest) ∧ rest.countP Mark.header ≤ (sub p (u ++ rest)).countP Mark.header := by
  obtain ⟨hskips, hcount⟩ := Substitute.skips_of_count (fun c hc => (hk.all c hc).1) hp.header_le hp.header_lt h
  rw [(hp.restart (hu.head rest) (behind none k)).1, List.countP_append, hu.no_header,
    Nat.zero_add] at hcount
  exact ⟨hskips, hcount⟩

theorem Artifact.count_content (hp : Artifact p) (hu : IsContent i u)
    (happend : sub p (u ++ rest) = sub p u ++ sub p rest)
    (h : rest.countP Mark.header ≤ (sub p (u ++ rest)).countP Mark.header) :
    rest.countP Mark.header ≤ (sub p rest).countP Mark.header := by
  rwa [happend, List.countP_append, (hu.passed hp).no_header, Nat.zero_add] at h

/-- The first message apart from the others. -/
theorem Apart.cons (hp : Artifact p) (hu : IsContent i x.2) (hskips : p.Skips none x.1 (x.2 ++ flat ps))
    (hsub : sub p (x.2 ++ flat ps) = sub p x.2 ++ sub p (flat ps))
    (htaken : taken p (x.2 ++ flat ps) = taken p x.2 ++ taken p (flat ps)) (h : Apart p ps) : Apart p (x :: ps) where
  reads := by
    rw [flat_cons, (hp.header_append hu hskips).1, hsub, h.reads]
    exact (flat_cons (x.1, sub p x.2) (passed p ps)).symm
  takes := by
    rw [flat_cons, (hp.header_append hu hskips).2, htaken, h.takes, List.flatMap_cons]

theorem Apart.within (hps : Shaped i ps) (h : Apart p ps) : ∀ seg ∈ taken p (flat ps), OneMessage seg := by
  rw [h.takes]
  clear h
  induction ps generalizing i with
  | nil => exact fun seg hseg => absurd hseg List.not_mem_nil
  | cons x ps ih =>
    intro seg hseg
    rw [List.flatMap_cons] at hseg
    rcases List.mem_append.mp hseg with hseg | hseg
    · exact hps.2.1.oneMessage ((scan_sub p x.2).taken_subset seg hseg)
    · exact ih hps.2.2.2 seg hseg

/-! ### Patterns of a line -/

/-- No match goes from a content into what follows. -/
structure LinePattern (p : Pattern Mark) : Prop extends Artifact p where
  border : ∀ (a : Option Mark) (c : Mark) (w rest : List Mark), rest = [] ∨ EndsLine (c :: w) →
    (∀ d ∈ rest.head?, d.char = '[') → p.find a (c :: (w ++ rest)) = p.find a (c :: w)

theorem EndsLine.of_append {v w : List Mark} (hw : w ≠ []) (h : EndsLine (v ++ w)) : EndsLine w := by
  obtain ⟨c, w, rfl⟩ := List.exists_cons_of_ne_nil hw
  rwa [EndsLine, List.getLast?_append_cons] at h

theorem EndsLine.append (h : EndsLine u) (v : List Mark) : EndsLine (v ++ u) := by
  obtain ⟨c, hc, hch⟩ := h
  exact ⟨c, by rw [List.getLast?_append, hc]; rfl, hch⟩

variable (hp : LinePattern p)

include hp

theorem LinePattern.append (hrest : ∀ d ∈ rest.head?, d.char = '[') (hends : rest = [] ∨ EndsLine u) :
    sub p (u ++ rest) = sub p u ++ sub p rest ∧ taken p (u ++ rest) = taken p u ++ taken p rest := by
  have happend := (scan_sub p u).append rest (fun _ w => w = [] ∨ rest = [] ∨ EndsLine w)
    (fun a c w hw => hp.border a c w rest (hw.resolve_left (List.cons_ne_nil c w)) hrest)
    (fun a c w hw _ => ?_) (fun a seg w r hw hm => ?_) (.inr hends)
  · rwa [(hp.restart (fun c hc => .inl (hrest c hc)) (behind none u)).1,
      (hp.restart (fun c hc => .inl (hrest c hc)) (behind none u)).2] at happend
  · by_cases hnil : w = []
    · exact .inl hnil
    · exact .inr ((hw.resolve_left (List.cons_ne_nil c w)).imp_right fun h => EndsLine.of_append (v := [c]) hnil h)
  · by_cases hnil : w = []
    · exact .inl hnil
    · exact .inr ((hw.resolve_left (by simp [hm.1])).imp_right (EndsLine.of_append hnil))

theorem LinePattern.skips_iff (hrest : ∀ d ∈ rest.head?, d.char = '[')
    (hends : rest = [] ∨ EndsLine u) : p.Skips previous k (u ++ rest) ↔ p.Skips previous k u := by
  refine skips_append_iff fun a c w before _ => ?_
  have hborder := hp.border a c (w ++ u) rest (hends.imp_right fun h => h.append (c :: w)) hrest
  rwa [List.append_assoc] at hborder

/-- **Headers that no match begins in** keep the messages apart. -/
theorem LinePattern.apart (hps : Shaped i ps) (h : ∀ x ∈ ps, p.Skips none x.1 x.2) : Apart p ps := by
  induction ps generalizing i with
  | nil => exact ⟨rfl, rfl⟩
  | cons x ps ih =>
    obtain ⟨hk, hu, hends, hrest⟩ := hps
    have hends' : flat ps = [] ∨ EndsLine x.2 := hends.imp_left fun hnil => by rw [hnil]; rfl
    obtain ⟨hsub, htaken⟩ := hp.append hrest.head hends'
    exact .cons hp.toArtifact hu ((hp.skips_iff hrest.head hends').mpr (h x List.mem_cons_self)) hsub htaken
      (ih hrest fun y hy => h y (List.mem_cons_of_mem x hy))

/-- And where no header loses a cell, none begins in one. -/
theorem LinePattern.spared (hps : Shaped i ps)
    (h : (flat ps).countP Mark.header ≤ (sub p (flat ps)).countP Mark.header) : ∀ x ∈ ps, p.Skips none x.1 x.2 := by
  induction ps generalizing i with
  | nil => exact fun x hx => absurd hx List.not_mem_nil
  | cons x ps ih =>
    obtain ⟨hk, hu, hends, hrest⟩ := hps
    have hends' : flat ps = [] ∨ EndsLine x.2 := hends.imp_left fun hnil => by rw [hnil]; rfl
    rw [flat_cons] at h
    obtain ⟨hskips, hcount⟩ := hp.toArtifact.skips_of_count hk hu h
    have hrest' := hp.toArtifact.count_content hu (hp.append hrest.head hends').1 hcount
    intro y hy
    rcases List.mem_cons.mp hy with rfl | hy
    · exact (hp.skips_iff hrest.head hends').mp hskips
    · exact ih hrest hrest' y hy

end Passes

section Patterns

variable {p : Pattern Mark} {i : Nat} {ps : List (List Mark × List Mark)} {x : List Mark × List Mark}
  {k u rest seg : List Mark} {previous : Option Mark}

/-- A pattern that puts a text of its own in. -/
theorem artifact_of_lits
    (hstarts : ∀ (a : Option Mark) (c : Mark) (xs : List Mark), c.char = '[' ∨ c.char = ' ' → p.find a (c :: xs) = none)
    (hlits : ∀ {a : Option Mark} {seg rest r : List Mark}, p.Matches a seg rest r →
      ∃ text : Text, r = text.map Mark.lit ∧ '*' ∉ text) : Artifact p := by
  have hheader : ∀ {a : Option Mark} {seg rest r : List Mark}, p.Matches a seg rest r → r.countP Mark.header = 0 :=
    fun hm => by
      obtain ⟨text, rfl, -⟩ := hlits hm
      exact countP_lits (fun _ => rfl) text
  refine ⟨hstarts, fun i a seg rest r hm => ?_, fun hm => ?_, fun hm hc => ?_⟩
  · obtain ⟨text, rfl, hstar⟩ := hlits hm
    have hnone : (text.map Mark.lit).countP (foreign i) = 0 := by
      rw [List.countP_map, List.countP_eq_zero]
      intro c hc
      have hne : c ≠ '*' := fun h => hstar (h ▸ hc)
      simp [foreign, Mark.lit, hne]
    omega
  · rw [hheader hm]
    exact Nat.zero_le _
  · rw [hheader hm, List.countP_cons_of_pos hc]
    exact Nat.succ_pos _

theorem artifact_codeBlock : Artifact (codeBlock Mark.char Mark.lit) := by
  refine artifact_of_lits (fun a c xs hc => ?_) fun hm => ⟨_, (codeBlock_matches hm).2, by decide⟩
  have hstarts : startsFence Mark.char (c :: xs) = false := by rcases hc with hc | hc <;> simp [startsFence, hc]
  exact @findCodeBlock_of_not Mark Mark.char (c :: xs) Mark.lit a hstarts

theorem artifact_inlineCode : Artifact (inlineCode Mark.char Mark.lit) := by
  refine artifact_of_lits (fun a c xs hc => findInlineCode_of_ne a ?_) fun hm =>
    ⟨_, (inlineCode_matches hm).2, by decide⟩
  rcases hc with hc | hc <;> rw [hc] <;> decide

theorem artifact_markdownHeader : Artifact (markdownHeader Mark.char) := by
  refine artifact_of_lits (fun a c xs hc => ?_) fun hm => ⟨[], (markdownHeader_matches hm).2, List.not_mem_nil⟩
  rcases hc with hc | hc <;> simp [markdownHeader, findMarkdownHeader, isChar, hc]

theorem artifact_markdownHr : Artifact (markdownHr Mark.char) := by
  refine artifact_of_lits (fun a c xs hc => ?_) fun hm => ⟨[], (markdownHr_matches hm).2, List.not_mem_nil⟩
  rcases hc with hc | hc <;> simp [markdownHr, findMarkdownHr, findRule, isChar, hc]

theorem artifact_multiNewline : Artifact (multiNewline Mark.char Mark.lit) := by
  refine artifact_of_lits (fun a c xs hc => ?_) fun hm => ⟨_, (multiNewline_matches hm).2, by decide⟩
  rcases hc with hc | hc <;> simp [multiNewline, findMultiNewline, isChar, hc]

/-- Of a bold text the asterisks go. -/
theorem artifact_markdownBold : Artifact (markdownBold Mark.char) := by
  refine ⟨fun a c xs hc => ?_, fun i a seg rest r hm => ?_, fun hm => ?_, fun {a c seg rest r} hm hc => ?_⟩
  · rcases hc with hc | hc <;> simp [markdownBold, findMarkdownBold, hc]
  · obtain ⟨opening, closing, rfl, -⟩ := markdownBold_matches hm
    simp only [List.countP_append]
    omega
  · obtain ⟨opening, closing, rfl, -⟩ := markdownBold_matches hm
    simp only [List.countP_append]
    omega
  · obtain ⟨opening, closing, hseg, -, htwo, -⟩ := markdownBold_matches hm
    obtain ⟨d, e, rfl⟩ := List.length_eq_two.mp htwo
    obtain ⟨rfl, -⟩ := List.cons.inj hseg
    rw [hseg, List.countP_append, List.countP_append, List.countP_cons_of_pos hc]
    omega

theorem linePattern_inlineCode : LinePattern (inlineCode Mark.char Mark.lit) where
  toArtifact := artifact_inlineCode
  border a c w rest hends _ := by
    rcases hends with rfl | ⟨n, hn, hline⟩
    · rw [List.append_nil]
    · exact @findInlineCode_border Mark Mark.char Mark.lit (c :: w) rest a n hline hn

theorem linePattern_markdownHeader : LinePattern (markdownHeader Mark.char) where
  toArtifact := artifact_markdownHeader
  border a c w rest _ hrest := @findMarkdownHeader_append Mark Mark.char (c :: w) rest a (.inl hrest)

theorem linePattern_markdownHr : LinePattern (markdownHr Mark.char) where
  toArtifact := artifact_markdownHr
  border a c w rest hends _ := by
    rcases hends with rfl | ⟨n, hn, hline⟩
    · rw [List.append_nil]
    · exact @findMarkdownHr_append Mark Mark.char (c :: w) rest a ⟨n, List.mem_of_getLast? hn, .inl hline⟩

theorem linePattern_multiNewline : LinePattern (multiNewline Mark.char Mark.lit) where
  toArtifact := artifact_multiNewline
  border a c w rest _ hrest := @findMultiNewline_append Mark Mark.char Mark.lit (c :: w) rest a (.inl hrest)

/-! ### Contents stay contents -/

theorem endsLine_sub (hp : ∀ {a : Option Mark} {seg rest r : List Mark}, p.Matches a seg rest r →
    ∀ d ∈ seg.getLast?, d.char ≠ '\n') (hu : EndsLine u) : EndsLine (sub p u) := by
  obtain ⟨c, hc, hline⟩ := hu
  have hsame := (scan_sub p u).getLast?_eq (q := fun d => d.char == '\n')
    (fun hm d hd => by simpa using hp hm d hd) ⟨c, hc, by simpa using hline⟩
  exact ⟨c, hsame ▸ hc, hline⟩

theorem all_getLast {m : Char} {l : List Mark} (hall : All Mark.char m l) (hl : l ≠ []) (v : List Mark) :
    ∀ d ∈ (v ++ l).getLast?, d.char = m := by
  intro d hd
  obtain ⟨c, l, rfl⟩ := List.exists_cons_of_ne_nil hl
  rw [List.getLast?_append_cons] at hd
  exact hall d (List.mem_of_getLast? hd)

theorem endsLine_codeBlock (hu : EndsLine u) : EndsLine (sub (codeBlock Mark.char Mark.lit) u) := by
  refine endsLine_sub (fun hm d hd => ?_) hu
  obtain ⟨⟨opening, body, closing, rfl, -, -, hclosing, hthree⟩, -⟩ := codeBlock_matches hm
  rw [← List.append_assoc] at hd
  rw [all_getLast hclosing (List.ne_nil_of_length_pos (by omega)) _ d hd]
  decide

theorem endsLine_inlineCode (hu : EndsLine u) : EndsLine (sub (inlineCode Mark.char Mark.lit) u) := by
  refine endsLine_sub (fun hm d hd => ?_) hu
  obtain ⟨⟨tick, span, tick', rfl, -, htick', -⟩, -⟩ := inlineCode_matches hm
  rw [← List.cons_append, List.getLast?_concat] at hd
  obtain rfl := Option.some.inj hd
  rw [htick']
  decide

theorem endsLine_markdownHr (hu : EndsLine u) : EndsLine (sub (markdownHr Mark.char) u) := by
  refine endsLine_sub (fun hm d hd => ?_) hu
  obtain ⟨⟨-, -, -, hall⟩, -⟩ := markdownHr_matches hm
  have hmem := List.mem_of_getLast? hd
  rcases hall with hall | hall | hall <;> rw [hall d hmem] <;> decide

theorem endsLine_markdownBold (hu : EndsLine u) : EndsLine (sub (markdownBold Mark.char) u) := by
  refine endsLine_sub (fun hm d hd => ?_) hu
  obtain ⟨opening, closing, rfl, -, -, hclosing, htwo, -⟩ := markdownBold_matches hm
  rw [← List.append_assoc] at hd
  rw [all_getLast hclosing (List.ne_nil_of_length_pos (by omega)) _ d hd]
  decide

theorem endsLine_markdownHeader (hc : IsContent i u) (hu : EndsLine u) :
    EndsLine (sub (markdownHeader Mark.char) u) := by
  obtain ⟨c, l, rfl, hblank⟩ := hc.opens
  have hfirst : sub (markdownHeader Mark.char) (c :: l) = c :: subFrom (markdownHeader Mark.char) 0 (some c) l :=
    subFrom_of_none (artifact_markdownHeader.starts none c l (.inr hblank))
  have hl : l ≠ [] := by
    rintro rfl
    obtain ⟨d, hd, hline⟩ := hu
    obtain rfl : c = d := Option.some.inj hd
    rw [hblank] at hline
    exact absurd hline (by decide)
  have hends := markdownHeader_ends (scan_subFrom (markdownHeader Mark.char) (some c) l) (hu.of_append (v := [c]) hl)
  rcases hends with hends | ⟨-, hline⟩
  · rw [hfirst]
    exact EndsLine.append hends [c]
  · simp [atLineEnd, isChar, hblank] at hline

theorem Shaped.passed (hp : Artifact p) (hends : ∀ {i u}, IsContent i u → EndsLine u → EndsLine (sub p u))
    (hps : Shaped i ps) : Shaped i (passed p ps) := by
  induction ps generalizing i with
  | nil => trivial
  | cons x ps ih =>
    obtain ⟨hk, hu, hline, hrest⟩ := hps
    refine ⟨hk, hu.passed hp, hline.imp (fun hnil => ?_) (hends hu), ih hrest⟩
    rw [hnil]
    rfl

end Patterns

/-! ## Fences -/

section Fences

variable {α : Type} (ch : α → Char)

/-- The fences of messages. -/
def chunkFences : List (List α × List α) → Nat
  | [] => 0
  | x :: ps => fences ch x.1 + fences ch x.2 + chunkFences ps

/-- Of the fences read in pairs, no pair has a header, or a part of one,
between them. -/
def FencesApart : List (List α × List α) → Prop
  | [] => True
  | x :: ps => chunkFences ch (x :: ps) ≤ 1 ∨
    fences ch x.1 = 0 ∧ (fences ch x.2 % 2 = 0 ∨ chunkFences ch ps = 0) ∧ FencesApart ps

end Fences

section Blocks

variable {i : Nat} {ps : List (List Mark × List Mark)} {x : List Mark × List Mark} {k u xs rest : List Mark}

theorem Shaped.noTick (hps : Shaped i ps) : NoTickNext Mark.char (flat ps) := fun c hc => by
  rw [hps.head c hc]
  decide

theorem IsContent.noTick (hu : IsContent i u) : NoTickNext Mark.char (u ++ rest) := fun c hc => by
  rcases hu.head _ c hc with h | h <;> rw [h] <;> decide

theorem fences_flat (hps : Shaped i ps) : fences Mark.char (flat ps) = chunkFences Mark.char ps := by
  induction ps generalizing i with
  | nil => rfl
  | cons x ps ih =>
    rw [flat_cons, fences_append hps.2.1.noTick, fences_append hps.2.2.2.noTick, ih hps.2.2.2, chunkFences]
    omega

theorem apart_of_le_one (hps : Shaped i ps) (hone : chunkFences Mark.char ps ≤ 1) :
    Apart (codeBlock Mark.char Mark.lit) ps := by
  obtain ⟨hsub, htaken⟩ := codeBlock_of_le_one (scan_sub _ (flat ps)) (by rwa [fences_flat hps])
  have hown : ∀ x ∈ ps,
      sub (codeBlock Mark.char Mark.lit) x.2 = x.2 ∧ taken (codeBlock Mark.char Mark.lit) x.2 = [] := by
    intro x hx
    refine codeBlock_of_le_one (scan_sub _ x.2) (le_trans ?_ hone)
    clear hsub htaken hps hone
    induction ps with
    | nil => cases hx
    | cons y ps ih =>
      rw [chunkFences]
      rcases List.mem_cons.mp hx with rfl | hx
      · omega
      · have := ih hx
        omega
  refine ⟨?_, ?_⟩
  · have hsame : passed (codeBlock Mark.char Mark.lit) ps = ps := by
      rw [passed]
      conv_rhs => rw [← List.map_id ps]
      exact List.map_congr_left fun x hx => by rw [(hown x hx).1]; rfl
    rw [hsame]
    exact hsub
  · rw [List.flatMap_eq_nil_iff.mpr fun x hx => (hown x hx).2]
    exact htaken

/-- **Fences apart** keep the messages apart. -/
theorem FencesApart.apart (hps : Shaped i ps) (h : FencesApart Mark.char ps) :
    Apart (codeBlock Mark.char Mark.lit) ps := by
  induction ps generalizing i with
  | nil => exact ⟨rfl, rfl⟩
  | cons x ps ih =>
    rcases h with hone | ⟨hheader, hpair, hrest⟩
    · exact apart_of_le_one hps hone
    · obtain ⟨hk, hu, hends, hps'⟩ := hps
      rw [← fences_flat hps'] at hpair
      obtain ⟨hsub, htaken⟩ := @codeBlock_append Mark Mark.char x.2 (flat ps) Mark.lit hps'.noTick hpair
      exact .cons artifact_codeBlock hu (skips_codeBlock hu.noTick hheader) hsub htaken (ih hps' hrest)

/-- **And where no header loses a cell**, the fences are apart. -/
theorem fencesApart_of_count (hps : Shaped i ps)
    (h : (flat ps).countP Mark.header ≤ (sub (codeBlock Mark.char Mark.lit) (flat ps)).countP Mark.header) :
    FencesApart Mark.char ps := by
  induction ps generalizing i with
  | nil => trivial
  | cons x ps ih =>
    obtain ⟨hk, hu, hends, hps'⟩ := hps
    rw [flat_cons] at h
    obtain ⟨hskips, hcount⟩ := artifact_codeBlock.skips_of_count hk hu h
    by_cases hheader : fences Mark.char x.1 = 0
    · by_cases hpair : fences Mark.char x.2 % 2 = 0 ∨ chunkFences Mark.char ps = 0
      · have hpair' := hpair
        rw [← fences_flat hps'] at hpair'
        have hsub := (@codeBlock_append Mark Mark.char x.2 (flat ps) Mark.lit hps'.noTick hpair').1
        exact .inr ⟨hheader, hpair, ih hps' (artifact_codeBlock.count_content hu hsub hcount)⟩
      · -- the fence left open takes the bracket of the next header
        rw [not_or] at hpair
        exfalso
        cases hto : toFence Mark.char (flat ps) with
        | none =>
          rw [toFence_eq_none, fences_flat hps'] at hto
          exact hpair.2 hto
        | some n =>
          have hlit : ∀ c, (Mark.lit c).header = false := fun _ => rfl
          obtain ⟨left, hleft, hown⟩ := sub_codeBlock_odd hlit hps'.noTick hto (scan_sub _ x.2) (by omega)
          have hafter := (scan_sub (codeBlock Mark.char Mark.lit) ((flat ps).drop (n + 3))).count_le _
            artifact_codeBlock.header_le
          rw [hu.no_header] at hown
          rw [hleft, List.countP_append] at hcount
          cases ps with
          | nil => cases hto
          | cons y ps =>
            obtain ⟨c, l, hy, -⟩ := hps'.1.opens
            have hc := (hps'.1.all c (by rw [hy]; exact List.mem_cons_self)).1
            rw [flat_cons, hy, List.cons_append, List.drop_succ_cons] at hafter
            rw [flat_cons, hy, List.cons_append, List.countP_cons_of_pos hc, List.drop_succ_cons] at hcount
            have hdropped := (List.drop_sublist (n + 2) (l ++ (y.2 ++ flat ps))).countP_le (p := Mark.header)
            omega
    · have hone := fences_of_skips hu.noTick hheader hskips
      refine .inl ?_
      rw [chunkFences, ← fences_flat hps', Nat.add_assoc, ← fences_append hps'.noTick, ← fences_append hu.noTick, hone]

end Blocks

/-! ## Bold texts -/

section BoldApart

variable {α : Type} (ch : α → Char)

/-- No bold marker that a header or a content leaves open is closed behind it. -/
def BoldApart : List (List α × List α) → Prop
  | [] => True
  | x :: ps => (leavesOpen ch 0 x.1 && closes ch (x.2 ++ flat ps)) = false ∧
    (leavesOpen ch 0 x.2 && closes ch (flat ps)) = false ∧ BoldApart ps

end BoldApart

section Bolds

variable {i : Nat} {ps : List (List Mark × List Mark)} {k u rest : List Mark}

theorem Shaped.noStar (hps : Shaped i ps) : NoStarNext Mark.char (flat ps) := fun c hc => by
  rw [hps.head c hc]
  decide

theorem IsContent.noStar (hu : IsContent i u) : NoStarNext Mark.char (u ++ rest) := fun c hc => by
  rcases hu.head _ c hc with h | h <;> rw [h] <;> decide

/-- **Bold texts apart** keep the messages apart. -/
theorem BoldApart.apart (hps : Shaped i ps) (hskips : ∀ x ∈ ps, (markdownBold Mark.char).Skips none x.1 [])
    (h : BoldApart Mark.char ps) : Apart (markdownBold Mark.char) ps := by
  induction ps generalizing i with
  | nil => exact ⟨rfl, rfl⟩
  | cons x ps ih =>
    obtain ⟨hheader, hcontent, hrest⟩ := h
    obtain ⟨hk, hu, hends, hps'⟩ := hps
    obtain ⟨hsub, htaken⟩ := markdownBold_append hps'.noStar hcontent
    exact .cons artifact_markdownBold hu ((skips_markdownBold hu.noStar).mpr ⟨hskips x List.mem_cons_self, hheader⟩)
      hsub htaken (ih hps' (fun y hy => hskips y (List.mem_cons_of_mem x hy)) hrest)

/-- **And where no header loses a cell**, and no bold text is of two messages, they are
apart. -/
theorem boldApart_of_count (hps : Shaped i ps)
    (h : (flat ps).countP Mark.header ≤ (sub (markdownBold Mark.char) (flat ps)).countP Mark.header)
    (hone : ∀ seg ∈ taken (markdownBold Mark.char) (flat ps), OneMessage seg) :
    (∀ x ∈ ps, (markdownBold Mark.char).Skips none x.1 []) ∧ BoldApart Mark.char ps := by
  induction ps generalizing i with
  | nil => exact ⟨fun x hx => absurd hx List.not_mem_nil, trivial⟩
  | cons x ps ih =>
    obtain ⟨hk, hu, hends, hps'⟩ := hps
    rw [flat_cons] at h hone
    obtain ⟨hskips, hcount⟩ := artifact_markdownBold.skips_of_count hk hu h
    rw [(artifact_markdownBold.header_append hu hskips).2] at hone
    obtain ⟨hown, hheader⟩ := (skips_markdownBold hu.noStar).mp hskips
    have hcontent : (leavesOpen Mark.char 0 x.2 && closes Mark.char (flat ps)) = false := by
      by_contra hcross
      rw [Bool.not_eq_false, Bool.and_eq_true] at hcross
      cases ps with
      | nil => exact absurd hcross.2 Bool.false_ne_true
      | cons y ps =>
        -- the bold text has an asterisk of the content and the bracket of the next header
        obtain ⟨c, l, hy, -⟩ := hps'.1.opens
        have hc := (hps'.1.all c (by rw [hy]; exact List.mem_cons_self)).2
        rw [flat_cons, hy, List.cons_append] at hcross hone
        have hnext : NoStarNext Mark.char (c :: (l ++ (y.2 ++ flat ps))) := by
          have := hps'.noStar
          rwa [flat_cons, hy, List.cons_append] at this
        obtain ⟨seg, hseg, hcseg, d, hdseg, hd, hstar⟩ :=
          taken_of_closes hnext hcross.2 (scan_sub (markdownBold Mark.char) x.2) hcross.1
        have hdown := (mem_own hu hd).2.resolve_right fun hlit => hlit.2 hstar
        exact absurd (hone seg hseg d hdseg c hcseg i hdown (i + 1) hc) (by omega)
    obtain ⟨hsub, htaken⟩ := markdownBold_append hps'.noStar hcontent
    rw [htaken] at hone
    obtain ⟨hskips', hrest⟩ := ih hps' (artifact_markdownBold.count_content hu hsub hcount) fun seg hseg =>
      hone seg (List.mem_append_right _ hseg)
    refine ⟨fun y hy => ?_, hheader, hcontent, hrest⟩
    rcases List.mem_cons.mp hy with rfl | hy
    · exact hown
    · exact hskips' y hy

end Bolds

end ContextBroker.Cleaning
