import ContextBroker.L3Assembly.ChunkPieces

/-!
# The headers of a chunk (`build_types/standard_tiered.py`)

`_summarize_chunk` joins the messages of a chunk, each behind its header
`[role | sender]`, and cleans the joined text. A fence that a message leaves
open runs to the next fence, in whatever message that is, and so does a bold
marker.

* `Separate.within`, `separate_of_within`: pass by pass, the messages are apart.
* `separate_iff`: that is a condition on the headers and contents alone.
* `messages_apart_iff`: no message is dropped exactly if it holds.
-/
namespace ContextBroker.Cleaning

open Substitute

/-! ## The chunk -/

/-- The keys that `_summarize_chunk` reads. -/
structure ChunkMessage where
  role : Text
  sender : Text
  content : Option Text
  deriving DecidableEq, Repr

namespace ChunkMessage

/-- `[role | sender]` -/
def header (m : ChunkMessage) : Text := "[".toList ++ (m.role ++ " | ".toList ++ m.sender ++ "]".toList)

/-- What stands behind the header. -/
def text (m : ChunkMessage) : Text := " ".toList ++ m.content.getD []

end ChunkMessage

/-- `chunk_text`, as it is joined. -/
def chunkText (ms : List ChunkMessage) : Text := List.intercalate "\n".toList (ms.map fun m => m.header ++ m.text)

/-- What the summariser is sent. mirrors build_types/standard_tiered.py:408-415 -/
def sentText (ms : List ChunkMessage) : Text := cleanForCompaction (chunkText ms)

/-- The header and the content of each message, with the line break that joins it to the
next. -/
def pieces : List ChunkMessage → List (Text × Text)
  | [] => []
  | m :: ms => (m.header, m.text ++ if ms.isEmpty then [] else "\n".toList) :: pieces ms

def markCells (i : Nat) (header : Bool) (text : Text) : List Mark := text.map (⟨·, some i, header⟩)

/-- The cells of messages from the `i`-th on. -/
def markedFrom : Nat → List (Text × Text) → List (List Mark × List Mark)
  | _, [] => []
  | i, x :: ps => (markCells i true x.1, markCells i false x.2) :: markedFrom (i + 1) ps

def marked (ms : List ChunkMessage) : List (List Mark × List Mark) := markedFrom 0 (pieces ms)

/-- What the cleaning leaves of a chunk. -/
def cleanedChunk (ms : List ChunkMessage) : List Mark := clean Mark.char Mark.lit (flat (marked ms))

/-- The matches of the six patterns, each in what the patterns before it leave. -/
def matchesOf {α : Type} (ch : α → Char) (lit : Char → α) (xs : List α) : List (List α) :=
  taken (codeBlock ch lit) xs ++ taken (inlineCode ch lit) (withoutBlocks ch lit xs) ++
    taken (markdownHeader ch) (withoutCode ch lit xs) ++ taken (markdownHr ch) (withoutHeaders ch lit xs) ++
    taken (markdownBold ch) (withoutRules ch lit xs) ++ taken (multiNewline ch lit) (withoutBold ch lit xs)

/-- Each header is there, in its order, and no match has cells of two messages. -/
structure MessagesApart (ms : List ChunkMessage) : Prop where
  headers : InOrder ((marked ms).map (·.1)) (cleanedChunk ms)
  within : ∀ seg ∈ matchesOf Mark.char Mark.lit (flat (marked ms)), OneMessage seg

/-- No pattern but that of the fences has a match that begins in the header. An inline
span may end in the content, without its blocks. -/
structure HeaderSpared (x : Text × Text) : Prop where
  inlineCode : (inlineCode id id).Skips none x.1 (withoutBlocks id id x.2)
  markdownHeader : (markdownHeader id).Skips none x.1 []
  markdownHr : (markdownHr id).Skips none x.1 []
  markdownBold : (markdownBold id).Skips none x.1 []
  multiNewline : (multiNewline id id).Skips none x.1 []

section Chunk

variable {i : Nat} {m : ChunkMessage} {ms : List ChunkMessage} {x : Text × Text} {ps : List (Text × Text)}

/-- The characters of a header and a content. -/
def chars (x : List Mark × List Mark) : Text × Text := (x.1.map Mark.char, x.2.map Mark.char)

theorem markCells_char (i : Nat) (header : Bool) (text : Text) : (markCells i header text).map Mark.char = text := by
  rw [markCells, List.map_map]
  exact List.map_id _

theorem markedFrom_chars (i : Nat) (ps : List (Text × Text)) : (markedFrom i ps).map chars = ps := by
  induction ps generalizing i with
  | nil => rfl
  | cons x ps ih =>
    rw [markedFrom, List.map_cons, ih, chars, markCells_char, markCells_char]

theorem marked_chars (ms : List ChunkMessage) : (marked ms).map chars = pieces ms := markedFrom_chars 0 _

theorem flat_chars (ps : List (List Mark × List Mark)) : (flat ps).map Mark.char = flat (ps.map chars) := by
  induction ps with
  | nil => rfl
  | cons x ps ih => rw [flat_cons, List.map_append, List.map_append, ih, List.map_cons, flat_cons, chars]

theorem flat_pieces (ms : List ChunkMessage) : flat (pieces ms) = chunkText ms := by
  induction ms with
  | nil => rfl
  | cons m ms ih =>
    rw [pieces, flat_cons, ih]
    cases ms with
    | nil => simp [chunkText]
    | cons m' ms =>
      simp only [chunkText, List.map_cons, List.intercalate_cons_cons, List.isEmpty_cons, Bool.false_eq_true, if_false,
        List.append_assoc]

/-- The cells are those of the text that is sent. -/
theorem cleanedChunk_char (ms : List ChunkMessage) : (cleanedChunk ms).map Mark.char = sentText ms := by
  rw [cleanedChunk, map_clean fun _ => rfl, flat_chars, marked_chars, flat_pieces]
  rfl

theorem isHeader_mark (i : Nat) (m : ChunkMessage) : IsHeader i (markCells i true m.header) where
  opens := ⟨⟨'[', some i, true⟩, _, rfl, rfl⟩
  closes := by
    refine ⟨markCells i true ("[".toList ++ (m.role ++ " | ".toList ++ m.sender)), ⟨']', some i, true⟩, ?_, rfl⟩
    rw [markCells, ChunkMessage.header, ← List.append_assoc, List.map_append]
    rfl
  all c hc := by
    obtain ⟨d, -, rfl⟩ := List.mem_map.mp hc
    exact ⟨rfl, rfl⟩

theorem isContent_mark (i : Nat) (text : Text) : IsContent i (markCells i false (' ' :: text)) where
  opens := ⟨_, _, rfl, rfl⟩
  own := by
    rw [List.countP_eq_zero]
    intro c hc
    obtain ⟨d, -, rfl⟩ := List.mem_map.mp hc
    simp [foreign]

theorem shaped_pieces (i : Nat) (ms : List ChunkMessage) : Shaped i (markedFrom i (pieces ms)) := by
  induction ms generalizing i with
  | nil => trivial
  | cons m ms ih =>
    refine ⟨isHeader_mark i m, isContent_mark i _, ?_, ih (i + 1)⟩
    cases ms with
    | nil => exact .inl rfl
    | cons m' ms => exact .inr ⟨⟨'\n', some i, false⟩, by simp [markCells], rfl⟩

theorem shaped_marked (ms : List ChunkMessage) : Shaped 0 (marked ms) := shaped_pieces 0 ms

/-! ### What the patterns read of a chunk, and what of its characters -/

theorem chunkFences_chars (ps : List (List Mark × List Mark)) :
    chunkFences id (ps.map chars) = chunkFences Mark.char ps := by
  induction ps with
  | nil => rfl
  | cons x ps ih => rw [List.map_cons, chunkFences, chunkFences, ih, chars, fences_map, fences_map]

theorem fencesApart_chars (ps : List (List Mark × List Mark)) :
    FencesApart id (ps.map chars) ↔ FencesApart Mark.char ps := by
  induction ps with
  | nil => exact Iff.rfl
  | cons x ps ih =>
    have hall := chunkFences_chars (x :: ps)
    rw [List.map_cons] at hall ⊢
    rw [FencesApart, FencesApart, hall, chunkFences_chars, ih, chars, fences_map, fences_map]

theorem boldApart_chars (ps : List (List Mark × List Mark)) :
    BoldApart id (ps.map chars) ↔ BoldApart Mark.char ps := by
  induction ps with
  | nil => exact Iff.rfl
  | cons x ps ih =>
    rw [List.map_cons, BoldApart, BoldApart, ih, ← flat_chars, chars, leavesOpen_map, leavesOpen_map, ← List.map_append,
      closes_map, closes_map]

end Chunk

/-! ## The six passes over a chunk -/

section Stages

variable {i : Nat} {ps : List (List Mark × List Mark)} {ks : List (List Mark)} {xs : List Mark}

def afterBlocks (ps : List (List Mark × List Mark)) : List (List Mark × List Mark) :=
  passed (codeBlock Mark.char Mark.lit) ps

def afterCode (ps : List (List Mark × List Mark)) : List (List Mark × List Mark) :=
  passed (inlineCode Mark.char Mark.lit) (afterBlocks ps)

def afterHeaders (ps : List (List Mark × List Mark)) : List (List Mark × List Mark) :=
  passed (markdownHeader Mark.char) (afterCode ps)

def afterRules (ps : List (List Mark × List Mark)) : List (List Mark × List Mark) :=
  passed (markdownHr Mark.char) (afterHeaders ps)

def afterBold (ps : List (List Mark × List Mark)) : List (List Mark × List Mark) :=
  passed (markdownBold Mark.char) (afterRules ps)

/-- Each pattern finds the messages apart, in what the patterns before it leave of
them. -/
structure Separate (ps : List (List Mark × List Mark)) : Prop where
  fences : FencesApart Mark.char ps
  spans : ∀ x ∈ afterBlocks ps, (inlineCode Mark.char Mark.lit).Skips none x.1 x.2
  markers : ∀ x ∈ afterCode ps, (markdownHeader Mark.char).Skips none x.1 x.2
  rules : ∀ x ∈ afterHeaders ps, (markdownHr Mark.char).Skips none x.1 x.2
  boldHeaders : ∀ x ∈ afterRules ps, (markdownBold Mark.char).Skips none x.1 []
  bold : BoldApart Mark.char (afterRules ps)
  blankLines : ∀ x ∈ afterBold ps, (multiNewline Mark.char Mark.lit).Skips none x.1 x.2

theorem shaped_afterBlocks (hps : Shaped i ps) : Shaped i (afterBlocks ps) :=
  hps.passed artifact_codeBlock fun _ => endsLine_codeBlock

theorem shaped_afterCode (hps : Shaped i ps) : Shaped i (afterCode ps) :=
  (shaped_afterBlocks hps).passed artifact_inlineCode fun _ => endsLine_inlineCode

theorem shaped_afterHeaders (hps : Shaped i ps) : Shaped i (afterHeaders ps) :=
  (shaped_afterCode hps).passed artifact_markdownHeader endsLine_markdownHeader

theorem shaped_afterRules (hps : Shaped i ps) : Shaped i (afterRules ps) :=
  (shaped_afterHeaders hps).passed artifact_markdownHr fun _ => endsLine_markdownHr

theorem shaped_afterBold (hps : Shaped i ps) : Shaped i (afterBold ps) :=
  (shaped_afterRules hps).passed artifact_markdownBold fun _ => endsLine_markdownBold

theorem passed_headers (p : Pattern Mark) (ps : List (List Mark × List Mark)) :
    (passed p ps).map (·.1) = ps.map (·.1) := by
  rw [passed, List.map_map]
  rfl

theorem isHeader_headers (hps : Shaped i ps) : ∀ k ∈ ps.map (·.1), ∃ j, IsHeader j k := by
  induction ps generalizing i with
  | nil => exact fun k hk => absurd hk List.not_mem_nil
  | cons x ps ih =>
    intro k hk
    rcases List.mem_cons.mp hk with rfl | hk
    · exact ⟨i, hps.1⟩
    · exact ih hps.2.2.2 k hk

theorem countP_flat (hps : Shaped i ps) : (flat ps).countP Mark.header = (ps.map (·.1)).flatten.length := by
  induction ps generalizing i with
  | nil => rfl
  | cons x ps ih =>
    rw [flat_cons, List.countP_append, List.countP_append, hps.2.1.no_header, ih hps.2.2.2, List.map_cons,
      List.flatten_cons, List.length_append, List.countP_eq_length.mpr fun c hc => (hps.1.all c hc).1, Nat.zero_add]

theorem inOrder_flat (ps : List (List Mark × List Mark)) : InOrder (ps.map (·.1)) (flat ps) := by
  induction ps with
  | nil => trivial
  | cons x ps ih => exact ⟨[], x.2 ++ flat ps, flat_cons x ps, ih.prepend x.2⟩

/-- A header begins and ends with what `strip` leaves. -/
theorem inOrder_stripCells (hks : ∀ k ∈ ks, ∃ i, IsHeader i k) (h : InOrder ks xs) :
    InOrder ks (stripCells Mark.char xs) := by
  obtain ⟨before, rest, hxs, hspace⟩ := stripCells_eq Mark.char xs
  rw [hxs, List.append_assoc] at h
  have hfront := h.of_append_left (q := (isSpace <| Mark.char ·)) (fun c hc => hspace c (List.mem_append_left rest hc))
    fun k hk => by
      obtain ⟨i, hi⟩ := hks k hk
      obtain ⟨c, l, rfl, hc⟩ := hi.opens
      exact ⟨c, l, rfl, by rw [hc]; decide⟩
  refine hfront.of_append_right (q := (isSpace <| Mark.char ·))
    (fun c hc => hspace c (List.mem_append_right before hc)) fun k hk => ?_
  obtain ⟨i, hi⟩ := hks k hk
  obtain ⟨l, c, rfl, hc⟩ := hi.closes
  exact ⟨l, c, rfl, by rw [hc]; decide⟩

/-- **Messages that are separate** stay so: their headers are there, and no match is of
two of them. -/
theorem Separate.within (hps : Shaped i ps) (h : Separate ps) :
    InOrder (ps.map (·.1)) (clean Mark.char Mark.lit (flat ps)) ∧
      ∀ seg ∈ matchesOf Mark.char Mark.lit (flat ps), OneMessage seg := by
  have hblocks := h.fences.apart hps
  have hcode := linePattern_inlineCode.apart (shaped_afterBlocks hps) h.spans
  have hheaders := linePattern_markdownHeader.apart (shaped_afterCode hps) h.markers
  have hrules := linePattern_markdownHr.apart (shaped_afterHeaders hps) h.rules
  have hbold := h.bold.apart (shaped_afterRules hps) h.boldHeaders
  have hlines := linePattern_multiNewline.apart (shaped_afterBold hps) h.blankLines
  have hone : withoutBlocks Mark.char Mark.lit (flat ps) = flat (afterBlocks ps) := hblocks.reads
  have htwo : withoutCode Mark.char Mark.lit (flat ps) = flat (afterCode ps) := by
    rw [withoutCode, hone]
    exact hcode.reads
  have hthree : withoutHeaders Mark.char Mark.lit (flat ps) = flat (afterHeaders ps) := by
    rw [withoutHeaders, htwo]
    exact hheaders.reads
  have hfour : withoutRules Mark.char Mark.lit (flat ps) = flat (afterRules ps) := by
    rw [withoutRules, hthree]
    exact hrules.reads
  have hfive : withoutBold Mark.char Mark.lit (flat ps) = flat (afterBold ps) := by
    rw [withoutBold, hfour]
    exact hbold.reads
  constructor
  · have hkept := inOrder_flat (passed (multiNewline Mark.char Mark.lit) (afterBold ps))
    rw [passed_headers, afterBold, passed_headers, afterRules, passed_headers, afterHeaders, passed_headers, afterCode,
      passed_headers, afterBlocks, passed_headers] at hkept
    rw [clean, withoutBlankLines, hfive, hlines.reads]
    exact inOrder_stripCells (isHeader_headers hps) hkept
  · rw [matchesOf, hone, htwo, hthree, hfour, hfive]
    simp only [List.mem_append]
    rintro seg (((((hseg | hseg) | hseg) | hseg) | hseg) | hseg)
    · exact hblocks.within hps seg hseg
    · exact hcode.within (shaped_afterBlocks hps) seg hseg
    · exact hheaders.within (shaped_afterCode hps) seg hseg
    · exact hrules.within (shaped_afterHeaders hps) seg hseg
    · exact hbold.within (shaped_afterRules hps) seg hseg
    · exact hlines.within (shaped_afterBold hps) seg hseg

/-- No pass adds header cells; so where none is missing in the end, none takes one. -/
theorem header_counts (h : xs.countP Mark.header ≤ (clean Mark.char Mark.lit xs).countP Mark.header) :
    xs.countP Mark.header ≤ (withoutBlocks Mark.char Mark.lit xs).countP Mark.header ∧
    (withoutBlocks Mark.char Mark.lit xs).countP Mark.header ≤
      (withoutCode Mark.char Mark.lit xs).countP Mark.header ∧
    (withoutCode Mark.char Mark.lit xs).countP Mark.header ≤
      (withoutHeaders Mark.char Mark.lit xs).countP Mark.header ∧
    (withoutHeaders Mark.char Mark.lit xs).countP Mark.header ≤
      (withoutRules Mark.char Mark.lit xs).countP Mark.header ∧
    (withoutRules Mark.char Mark.lit xs).countP Mark.header ≤
      (withoutBold Mark.char Mark.lit xs).countP Mark.header ∧
    (withoutBold Mark.char Mark.lit xs).countP Mark.header ≤
      (withoutBlankLines Mark.char Mark.lit xs).countP Mark.header := by
  have hsub : ∀ {p : Pattern Mark}, Artifact p → ∀ ys : List Mark,
      (sub p ys).countP Mark.header ≤ ys.countP Mark.header :=
    fun {p} hp ys => (scan_sub p ys).count_le _ hp.header_le
  have hblocks := hsub artifact_codeBlock xs
  have hcode := hsub artifact_inlineCode (withoutBlocks Mark.char Mark.lit xs)
  have hmarkers := hsub artifact_markdownHeader (withoutCode Mark.char Mark.lit xs)
  have hrules := hsub artifact_markdownHr (withoutHeaders Mark.char Mark.lit xs)
  have hbold := hsub artifact_markdownBold (withoutRules Mark.char Mark.lit xs)
  have hlines := hsub artifact_multiNewline (withoutBold Mark.char Mark.lit xs)
  have hstrip := (@stripCells_sublist Mark Mark.char (withoutBlankLines Mark.char Mark.lit xs)).countP_le
    (p := Mark.header)
  rw [← clean] at hstrip
  rw [← withoutBlocks] at hblocks
  rw [← withoutCode] at hcode
  rw [← withoutHeaders] at hmarkers
  rw [← withoutRules] at hrules
  rw [← withoutBold] at hbold
  rw [← withoutBlankLines] at hlines
  omega

/-- **And where all headers are there**, and no bold text is of two messages, the
messages are separate. -/
theorem separate_of_within (hps : Shaped i ps) (hheaders : InOrder (ps.map (·.1)) (clean Mark.char Mark.lit (flat ps)))
    (hone : ∀ seg ∈ matchesOf Mark.char Mark.lit (flat ps), OneMessage seg) : Separate ps := by
  have hall := hheaders.length_le (q := Mark.header) fun k hk c hc => by
    obtain ⟨j, hj⟩ := isHeader_headers hps k hk
    exact (hj.all c hc).1
  rw [← countP_flat hps] at hall
  obtain ⟨hblocks, hcode, hmarkers, hrules, hbold, hlines⟩ := header_counts hall
  have hfences := fencesApart_of_count hps hblocks
  have hfirst : withoutBlocks Mark.char Mark.lit (flat ps) = flat (afterBlocks ps) := (hfences.apart hps).reads
  rw [withoutCode, hfirst] at hcode
  have hspans := linePattern_inlineCode.spared (shaped_afterBlocks hps) hcode
  have hsecond : withoutCode Mark.char Mark.lit (flat ps) = flat (afterCode ps) := by
    rw [withoutCode, hfirst]
    exact (linePattern_inlineCode.apart (shaped_afterBlocks hps) hspans).reads
  rw [withoutHeaders, hsecond] at hmarkers
  have hmarkers' := linePattern_markdownHeader.spared (shaped_afterCode hps) hmarkers
  have hthird : withoutHeaders Mark.char Mark.lit (flat ps) = flat (afterHeaders ps) := by
    rw [withoutHeaders, hsecond]
    exact (linePattern_markdownHeader.apart (shaped_afterCode hps) hmarkers').reads
  rw [withoutRules, hthird] at hrules
  have hrules' := linePattern_markdownHr.spared (shaped_afterHeaders hps) hrules
  have hfourth : withoutRules Mark.char Mark.lit (flat ps) = flat (afterRules ps) := by
    rw [withoutRules, hthird]
    exact (linePattern_markdownHr.apart (shaped_afterHeaders hps) hrules').reads
  rw [withoutBold, hfourth] at hbold
  obtain ⟨hskips, hbold'⟩ := boldApart_of_count (shaped_afterRules hps) hbold fun seg hseg => hone seg <| by
    rw [matchesOf, hfourth]
    exact List.mem_append_left _ (List.mem_append_right _ hseg)
  have hfifth : withoutBold Mark.char Mark.lit (flat ps) = flat (afterBold ps) := by
    rw [withoutBold, hfourth]
    exact (hbold'.apart (shaped_afterRules hps) hskips).reads
  rw [withoutBlankLines, hfifth] at hlines
  exact ⟨hfences, hspans, hmarkers', hrules', hskips, hbold',
    linePattern_multiNewline.spared (shaped_afterBold hps) hlines⟩

end Stages

/-! ## The condition on the input -/

section Input

variable {i : Nat} {ps : List (List Mark × List Mark)} {k u : List Mark}

theorem map_withoutBlocks (u : List Mark) :
    (withoutBlocks Mark.char Mark.lit u).map Mark.char = withoutBlocks id id (u.map Mark.char) :=
  (sub_map Mark.char (findCodeBlock_map fun _ => rfl) u).symm

theorem map_withoutRules (u : List Mark) :
    (withoutRules Mark.char Mark.lit u).map Mark.char = withoutRules id id (u.map Mark.char) := by
  have hcode := @sub_map Mark Char (inlineCode Mark.char Mark.lit) (inlineCode id id) Mark.char
    (findInlineCode_map fun _ => rfl)
  have hheaders := @sub_map Mark Char (markdownHeader Mark.char) (markdownHeader id) Mark.char findMarkdownHeader_map
  have hrules := @sub_map Mark Char (markdownHr Mark.char) (markdownHr id) Mark.char findMarkdownHr_map
  simp only [withoutRules, withoutHeaders, withoutCode, ← hrules, ← hheaders, ← hcode, map_withoutBlocks]

/-- The bracket of a header ends what a pattern of its lines reads. -/
theorem IsHeader.skips_iff {p : Pattern Mark} (hk : IsHeader i k)
    (hp : ∀ (a : Option Mark) (xs rest : List Mark), (∃ d ∈ xs, d.char = ']') → p.find a (xs ++ rest) = p.find a xs) :
    p.Skips none k u ↔ p.Skips none k [] := by
  refine skips_append_iff fun a c w before hsplit => ?_
  obtain ⟨l, b, hlast, hb⟩ := hk.closes
  have hmem : b ∈ c :: w := by
    have hends := congrArg List.getLast? (hsplit.symm.trans hlast)
    rw [List.getLast?_append_cons, List.getLast?_concat] at hends
    exact List.mem_of_getLast? hends
  rw [List.append_nil]
  exact hp a (c :: w) u ⟨b, hmem, hb⟩

theorem isHeader_of_mem (hps : Shaped i ps) {x : List Mark × List Mark} (hx : x ∈ ps) : ∃ j, IsHeader j x.1 :=
  isHeader_headers hps x.1 (List.mem_map_of_mem hx)

/-- A condition on each header and what a pass leaves of its content, as one on their
characters. -/
theorem forall_stage (f : List Mark → List Mark) {Q : List Mark → List Mark → Prop} {Q' : Text × Text → Prop}
    (h : ∀ x ∈ ps, Q x.1 (f x.2) ↔ Q' (chars x)) :
    (∀ x ∈ ps.map fun x => (x.1, f x.2), Q x.1 x.2) ↔ ∀ x ∈ ps.map chars, Q' x := by
  rw [List.forall_mem_map, List.forall_mem_map]
  exact forall₂_congr h

theorem afterCode_eq (ps : List (List Mark × List Mark)) :
    afterCode ps = ps.map fun x => (x.1, withoutCode Mark.char Mark.lit x.2) := by
  rw [afterCode, afterBlocks, passed, passed, List.map_map]
  rfl

theorem afterHeaders_eq (ps : List (List Mark × List Mark)) :
    afterHeaders ps = ps.map fun x => (x.1, withoutHeaders Mark.char Mark.lit x.2) := by
  rw [afterHeaders, afterCode_eq, passed, List.map_map]
  rfl

theorem afterRules_eq (ps : List (List Mark × List Mark)) :
    afterRules ps = ps.map fun x => (x.1, withoutRules Mark.char Mark.lit x.2) := by
  rw [afterRules, afterHeaders_eq, passed, List.map_map]
  rfl

theorem afterBold_eq (ps : List (List Mark × List Mark)) :
    afterBold ps = ps.map fun x => (x.1, withoutBold Mark.char Mark.lit x.2) := by
  rw [afterBold, afterRules_eq, passed, List.map_map]
  rfl

theorem afterRules_chars (ps : List (List Mark × List Mark)) :
    (afterRules ps).map chars = (ps.map chars).map fun x => (x.1, withoutRules id id x.2) := by
  rw [afterRules_eq, List.map_map, List.map_map]
  refine List.map_congr_left fun x _ => ?_
  simp only [Function.comp_apply, chars, map_withoutRules]

/-- Messages are separate exactly if their characters say so. -/
theorem separate_iff (hps : Shaped i ps) :
    Separate ps ↔ FencesApart id (ps.map chars) ∧ (∀ x ∈ ps.map chars, HeaderSpared x) ∧
      BoldApart id ((ps.map chars).map fun x => (x.1, withoutRules id id x.2)) := by
  have hspans : (∀ x ∈ afterBlocks ps, (inlineCode Mark.char Mark.lit).Skips none x.1 x.2) ↔
      ∀ x ∈ ps.map chars, (inlineCode id id).Skips none x.1 (withoutBlocks id id x.2) := by
    refine forall_stage (withoutBlocks Mark.char Mark.lit) fun x _ => ?_
    rw [← skips_map _ (inlineCode id id) Mark.char (findInlineCode_map fun _ => rfl), map_withoutBlocks]
    rfl
  have hmarkers : (∀ x ∈ afterCode ps, (markdownHeader Mark.char).Skips none x.1 x.2) ↔
      ∀ x ∈ ps.map chars, (markdownHeader id).Skips none x.1 [] := by
    rw [afterCode_eq]
    refine forall_stage _ fun x hx => ?_
    obtain ⟨j, hj⟩ := isHeader_of_mem hps hx
    rw [hj.skips_iff fun a xs rest h => findMarkdownHeader_append (.inr h),
      ← skips_map _ (markdownHeader id) Mark.char findMarkdownHeader_map]
    rfl
  have hrules : (∀ x ∈ afterHeaders ps, (markdownHr Mark.char).Skips none x.1 x.2) ↔
      ∀ x ∈ ps.map chars, (markdownHr id).Skips none x.1 [] := by
    rw [afterHeaders_eq]
    refine forall_stage _ fun x hx => ?_
    obtain ⟨j, hj⟩ := isHeader_of_mem hps hx
    rw [hj.skips_iff fun a xs rest ⟨d, hd, hch⟩ => findMarkdownHr_append ⟨d, hd, .inr hch⟩,
      ← skips_map _ (markdownHr id) Mark.char findMarkdownHr_map]
    rfl
  have hbold : (∀ x ∈ afterRules ps, (markdownBold Mark.char).Skips none x.1 []) ↔
      ∀ x ∈ ps.map chars, (markdownBold id).Skips none x.1 [] := by
    rw [afterRules_eq]
    refine forall_stage (Q := fun k _ => (markdownBold Mark.char).Skips none k []) _ fun x hx => ?_
    rw [← skips_map _ (markdownBold id) Mark.char findMarkdownBold_map]
    rfl
  have hlines : (∀ x ∈ afterBold ps, (multiNewline Mark.char Mark.lit).Skips none x.1 x.2) ↔
      ∀ x ∈ ps.map chars, (multiNewline id id).Skips none x.1 [] := by
    rw [afterBold_eq]
    refine forall_stage _ fun x hx => ?_
    obtain ⟨j, hj⟩ := isHeader_of_mem hps hx
    rw [hj.skips_iff fun a xs rest h => @findMultiNewline_append Mark Mark.char Mark.lit xs rest a (.inr h),
      ← skips_map _ (multiNewline id id) Mark.char (findMultiNewline_map fun _ => rfl)]
    rfl
  rw [fencesApart_chars, ← afterRules_chars, boldApart_chars]
  constructor
  · rintro ⟨hfences, h1, h2, h3, h4, h5, h6⟩
    exact ⟨hfences, fun x hx => ⟨hspans.mp h1 x hx, hmarkers.mp h2 x hx, hrules.mp h3 x hx, hbold.mp h4 x hx,
      hlines.mp h6 x hx⟩, h5⟩
  · rintro ⟨hfences, hspared, h5⟩
    exact ⟨hfences, hspans.mpr fun x hx => (hspared x hx).inlineCode,
      hmarkers.mpr fun x hx => (hspared x hx).markdownHeader, hrules.mpr fun x hx => (hspared x hx).markdownHr,
      hbold.mpr fun x hx => (hspared x hx).markdownBold, h5, hlines.mpr fun x hx => (hspared x hx).multiNewline⟩

end Input

/-- **No message is dropped** exactly if the fences are apart, no other match begins in a
header, and no bold marker is left open that a later message closes. -/
theorem messages_apart_iff (ms : List ChunkMessage) :
    MessagesApart ms ↔ FencesApart id (pieces ms) ∧ (∀ x ∈ pieces ms, HeaderSpared x) ∧
      BoldApart id ((pieces ms).map fun x => (x.1, withoutRules id id x.2)) := by
  rw [← marked_chars ms, ← separate_iff (shaped_marked ms)]
  constructor
  · rintro ⟨hheaders, hwithin⟩
    exact separate_of_within (shaped_marked ms) hheaders hwithin
  · intro h
    obtain ⟨hheaders, hwithin⟩ := h.within (shaped_marked ms)
    exact ⟨hheaders, hwithin⟩

/-- A content ends in a fence, the next one has a fence in it. -/
def openFence : List ChunkMessage :=
  [⟨"user".toList, "ann".toList, some "see log: ```".toList⟩,
    ⟨"assistant".toList, "bot".toList, some "done, ``` is open".toList⟩]

/-- Two asterisks in each content, and no others. -/
def openBold : List ChunkMessage :=
  [⟨"user".toList, "ann".toList, some "use 2 ** n here".toList⟩,
    ⟨"assistant".toList, "bot".toList, some "no, 3 ** n is right".toList⟩]

/-- The second header is taken for code, or for bold text. -/
theorem messages_apart_false :
    ¬MessagesApart openFence ∧ sentText openFence = "[user | ann] see log: [code block removed] is open".toList ∧
      ¬MessagesApart openBold ∧
      sentText openBold = "[user | ann] use 2  n here\n[assistant | bot] no, 3  n is right".toList := by
  refine ⟨fun h => ?_, by decide +kernel, fun h => ?_, by decide +kernel⟩
  · have hlost : ¬(markCells 1 true openFence[1].header) <:+: cleanedChunk openFence := by decide +kernel
    exact hlost (h.headers.isInfix (List.mem_cons_of_mem _ List.mem_cons_self))
  · have hcross : ∃ seg ∈ matchesOf Mark.char Mark.lit (flat (marked openBold)), ∃ c ∈ seg, ∃ d ∈ seg,
        c.message = some 0 ∧ d.message = some 1 := by decide +kernel
    obtain ⟨seg, hseg, c, hc, d, hd, hzero, hone⟩ := hcross
    exact absurd (h.within seg hseg c hc d hd 0 hzero 1 hone) Nat.zero_ne_one

end ContextBroker.Cleaning
