import ContextBroker.L1Data.JsonModes

/-!
# The output of an extraction

The model answers with a JSON object, bare or in a fence. The fence is found
by splitting the text at back-ticks, wherever they stand, so that a string of
the object with three of them is taken for a fence.

`extracted_iff`: the object comes back exactly if its text has no fence and its
facts can be counted. With a fence in a string the text is either cut within
the string, and no JSON (`scan_of_loads`), or it begins in the string, and its
strings are what stands between strings (`reading_clean`), so that it is no text of
the same object.
-/
namespace ContextBroker.ExtractionOutput

open Imperator JsonText Cut

/-! ## run_extraction_llm -/

def fence : Text := ['\x60', '\x60', '\x60']

def jsonFence : Text := fence ++ "json".toList

/-- mirrors cea_extraction_flow.py:186-189 -/
def unfence (text : Text) : Text :=
  match cut jsonFence text with
  | some (_, rest) => upTo fence (upTo jsonFence rest)
  | none =>
    match cut fence text with
    | some (_, rest) => upTo fence (upTo fence rest)
    | none => text

/-- `extraction_output`, or none with the error "Invalid extraction output" or
"Extraction LLM error". -/
inductive Outcome where
  | output (v : Json)
  | invalid
  | failed

/-- `len(extraction_output.get("facts", []))`; none is an `AttributeError` or a `TypeError`. -/
def factCount : Json → Option Nat
  | .obj fields =>
    match fields.lookup "facts".toList with
    | none => some 0
    | some (.arr items) => some items.length
    | some (.str s) => some s.length
    | some (.obj fields) => some fields.length
    | some _ => none
  | _ => none

/-- What is done with the text of the response.
mirrors cea_extraction_flow.py:184-215 -/
def runExtractionLlm (number : Text → Option Text) (responseText : Text) : Outcome :=
  match loads number (unfence responseText) with
  | none => .invalid
  | some v =>
    match factCount v with
    | some _ => .output v
    | none => .failed

/-! ## Responses -/

/-- A JSON object. -/
structure JsonObject (number : Text → Option Text) where
  fields : List (Text × Json)
  valid : JsonText.Valid number (.obj fields)

def JsonObject.value {number : Text → Option Text} (o : JsonObject number) : Json := .obj o.fields

/-- A fence of three back-ticks with prose around it that has none. -/
structure Fenced where
  json : Bool
  before : Text
  gap : Text
  gap' : Text
  after : Text
  before_free : ¬ fence <:+: before
  /-- The fence has no fourth back-tick. -/
  before_last : before.getLast? ≠ some '\x60'
  gap_white : ∀ c ∈ gap, isWhitespace c = true
  gap_white' : ∀ c ∈ gap', isWhitespace c = true
  after_free : ¬ fence <:+: after
  after_head : after.head? ≠ some '\x60'
  /-- Else the fence that closes would be one that opens. -/
  after_json : json = false → ¬ "json".toList <+: after

inductive Wrapping where
  | bare
  | fenced (f : Fenced)

/-- The text in the fence. -/
def Fenced.body (f : Fenced) (text : Text) : Text := f.gap ++ (text ++ f.gap')

def Fenced.opening (f : Fenced) : Text := if f.json then jsonFence else fence

def Wrapping.text : Wrapping → Text → Text
  | .bare, text => text
  | .fenced f, text => f.before ++ (f.opening ++ (f.body text ++ (fence ++ f.after)))

/-! ## Fences -/

section Fences

variable {xs u text : Text} {c : Char}

theorem fence_eq : fence = ['\x60', '\x60', '\x60'] := rfl

theorem jsonFence_eq : jsonFence = fence ++ "json".toList := rfl

theorem fence_ne_nil : fence ≠ [] := by decide

theorem jsonFence_ne_nil : jsonFence ≠ [] := by decide

theorem fence_starts_json : fence <+: jsonFence := ⟨"json".toList, rfl⟩

theorem not_mem_fence (hc : c ≠ '\x60') : c ∉ fence := by
  rw [fence_eq]
  simp [hc]

/-- Text without back-ticks has no part in a fence. -/
theorem fence_append_left (h : '\x60' ∉ u) : fence <:+: u ++ xs ↔ fence <:+: xs := by
  induction u with
  | nil => rfl
  | cons c u ih =>
    have hstart : ¬ fence <+: c :: (u ++ xs) := fun hp => by
      rw [fence_eq, List.cons_prefix_cons] at hp
      exact h (by rw [hp.1]; exact List.mem_cons_self)
    rw [List.cons_append, List.infix_cons_iff, ih fun hmem => h (List.mem_cons_of_mem c hmem)]
    exact or_iff_right hstart

theorem fence_append_right (h : '\x60' ∉ u) : fence <:+: xs ++ u ↔ fence <:+: xs := by
  have hreverse : ∀ l : Text, fence <:+: l.reverse ↔ fence <:+: l := fun l => @List.reverse_infix _ fence l
  rw [← hreverse, List.reverse_append, fence_append_left (by simpa using h), hreverse]

/-- Nothing opens at the fence that closes or after it. -/
theorem not_infix_closing (hfree : ¬ fence <:+: xs) (hhead : xs.head? ≠ some '\x60')
    (hjson : ¬ "json".toList <+: xs) : ¬ jsonFence <:+: fence ++ xs := by
  have htick : ∀ {w : Text}, ¬ '\x60' :: w <+: xs := fun {w} => by
    rintro ⟨tail, rfl⟩
    exact hhead rfl
  intro h
  rw [fence_eq, List.cons_append, List.cons_append, List.cons_append, List.nil_append, List.infix_cons_iff,
    List.infix_cons_iff, List.infix_cons_iff] at h
  rcases h with h | h | h | h
  · rw [jsonFence_eq, fence_eq, List.cons_append, List.cons_append, List.cons_append, List.cons_prefix_cons,
      List.cons_prefix_cons, List.cons_prefix_cons] at h
    exact hjson h.2.2.2
  · rw [jsonFence_eq, fence_eq, List.cons_append, List.cons_append, List.cons_prefix_cons, List.cons_prefix_cons] at h
    exact htick h.2.2
  · rw [jsonFence_eq, fence_eq, List.cons_append, List.cons_prefix_cons] at h
    exact htick h.2
  · exact hfree (fence_starts_json.isInfix.trans h)

/-- Prose that has no fence is passed over. -/
theorem cut_prose {word : Text} (hword : fence <+: word) (hfree : ¬ fence <:+: u) (hlast : u.getLast? ≠ some '\x60') :
    cut word (u ++ xs) = (cut word xs).map fun (front, rest) => (u ++ front, rest) := by
  rcases List.eq_nil_or_concat u with rfl | ⟨u, c, rfl⟩
  · rw [List.nil_append]
    cases cut word xs <;> rfl
  · rw [List.concat_eq_append] at hfree hlast ⊢
    have hc : c ≠ '\x60' := fun hc => hlast (by rw [hc]; simp)
    have hu : ¬ fence <:+: u := fun h => hfree (h.trans (List.prefix_append u [c]).isInfix)
    rw [List.append_assoc, List.singleton_append, cut_append_cons hword (not_mem_fence hc) hu]
    refine congrArg (Option.map · _) (funext fun parts => ?_)
    dsimp only
    rw [List.append_assoc, List.singleton_append]

/-- The fence that opens is not a ```json fence if there is no "json" in it. -/
theorem cut_fence (hxs : xs.head? = some c) (hc : c ≠ '\x60' ∧ c ≠ 'j') :
    cut jsonFence (fence ++ xs) = (cut jsonFence xs).map fun (front, rest) => (fence ++ front, rest) := by
  obtain ⟨xs, rfl⟩ := List.head?_eq_some_iff.mp hxs
  have h1 : ¬ jsonFence <+: '\x60' :: '\x60' :: '\x60' :: c :: xs := fun h => by
    have h : "json".toList <+: c :: xs := (List.prefix_append_right_inj fence).mp h
    exact hc.2 (List.cons_prefix_cons.mp h).1.symm
  have h2 : ¬ jsonFence <+: '\x60' :: '\x60' :: c :: xs := fun h => by
    rw [jsonFence_eq, fence_eq, List.cons_append, List.cons_append, List.cons_append, List.cons_prefix_cons,
      List.cons_prefix_cons, List.cons_prefix_cons] at h
    exact hc.1 h.2.2.1.symm
  have h3 : ¬ jsonFence <+: '\x60' :: c :: xs := fun h => by
    rw [jsonFence_eq, fence_eq, List.cons_append, List.cons_append, List.cons_prefix_cons, List.cons_prefix_cons] at h
    exact hc.1 h.2.1.symm
  rw [fence_eq, List.cons_append, List.cons_append, List.cons_append, List.nil_append, cut_of_not_start h1,
    cut_of_not_start h2, cut_of_not_start h3, Option.map_map, Option.map_map]
  rfl

end Fences

/-! ## The text in a fence -/

section Body

variable {number : Text → Option Text} (f : Fenced) (o : JsonObject number)

theorem white_not_mem {c : Char} (h : isWhitespace c = true) : c ∉ jsonFence := by
  simp only [isWhitespace, Bool.or_eq_true, beq_iff_eq] at h
  rcases h with ((rfl | rfl) | rfl) | rfl <;> decide

theorem body_head (xs : Text) :
    ∃ c, (f.body (dumps o.value) ++ xs).head? = some c ∧ c ≠ '\x60' ∧ c ≠ 'j' := by
  have hj : ∀ {c}, c ∉ jsonFence → c ≠ '\x60' ∧ c ≠ 'j' := fun hc => by
    constructor <;> rintro rfl <;> exact hc (by decide)
  cases hgap : f.gap with
  | nil => exact ⟨'\x7b', by rw [Fenced.body, hgap, JsonObject.value, dumps_obj]; rfl, by decide⟩
  | cons c gap =>
    have hwhite : isWhitespace c = true := f.gap_white c (by rw [hgap]; exact List.mem_cons_self)
    exact ⟨c, by rw [Fenced.body, hgap]; rfl, hj (white_not_mem hwhite)⟩

theorem body_last : ∃ u c, f.body (dumps o.value) = u ++ [c] ∧ c ∉ jsonFence := by
  rcases List.eq_nil_or_concat f.gap' with hgap | ⟨gap, c, hgap⟩
  · refine ⟨f.gap ++ '\x7b' :: fieldsText o.fields, '\x7d', ?_, by decide⟩
    rw [Fenced.body, hgap, JsonObject.value, dumps_obj, List.append_nil, List.append_assoc, List.cons_append]
  · rw [List.concat_eq_append] at hgap
    refine ⟨f.gap ++ (dumps o.value ++ gap), c, by rw [Fenced.body, hgap]; simp, white_not_mem ?_⟩
    exact f.gap_white' c (by rw [hgap]; simp)

theorem closed_white {xs : Text} (h : ∀ c ∈ xs, isWhitespace c = true) : Closed xs := closed_plain fun c hc => by
  have hc := h c hc
  constructor
  · rintro rfl
    cases hc
  · rintro (rfl | rfl) <;> cases hc

theorem closed_body : Closed (f.body (dumps o.value)) :=
  (closed_white f.gap_white).append ((closed_dumps o.valid).append (closed_white f.gap_white'))

theorem fence_body : fence <:+: f.body (dumps o.value) ↔ fence <:+: dumps o.value := by
  have hwhite : ∀ {xs : Text}, (∀ c ∈ xs, isWhitespace c = true) → '\x60' ∉ xs := fun h hmem => by
    cases h _ hmem
  rw [Fenced.body, fence_append_left (hwhite f.gap_white), fence_append_right (hwhite f.gap_white')]

theorem loads_body : loads number (f.body (dumps o.value)) = some o.value :=
  loads_dumps o.valid f.gap_white f.gap_white'

/-! ### Without a fence in the object -/

theorem closing_none (hjson : f.json = false) : cut jsonFence (fence ++ f.after) = none :=
  (cut_eq_none jsonFence_ne_nil).mpr (not_infix_closing f.after_free f.after_head (f.after_json hjson))

/-- A ```json fence can only be the one that closes. -/
theorem closing_cases : cut jsonFence (fence ++ f.after) = none ∨
    ∃ rest, cut jsonFence (fence ++ f.after) = some ([], rest) := by
  by_cases hjson : "json".toList <+: f.after
  · obtain ⟨rest, hrest⟩ := hjson
    refine .inr ⟨rest, ?_⟩
    rw [← hrest, ← List.append_assoc]
    exact cut_word jsonFence_ne_nil rest
  · exact .inl ((cut_eq_none jsonFence_ne_nil).mpr (not_infix_closing f.after_free f.after_head hjson))

theorem upTo_body (hfree : ¬ fence <:+: dumps o.value) {word : Text} (hword : word = fence ∨ word = jsonFence) :
    upTo fence (upTo word (f.body (dumps o.value) ++ (fence ++ f.after))) = f.body (dumps o.value) := by
  obtain ⟨u, c, hbody, hc⟩ := body_last f o
  have hbodyfree : ¬ fence <:+: f.body (dumps o.value) := fun h => hfree ((fence_body f o).mp h)
  have hu : ¬ fence <:+: u := fun h => hbodyfree (by rw [hbody]; exact h.trans (List.prefix_append u [c]).isInfix)
  have hcf : c ∉ fence := fun h => hc (fence_starts_json.subset h)
  have hself : upTo fence (f.body (dumps o.value)) = f.body (dumps o.value) :=
    upTo_of_none ((cut_eq_none fence_ne_nil).mpr hbodyfree)
  have hfence : upTo fence (f.body (dumps o.value) ++ (fence ++ f.after)) = f.body (dumps o.value) := by
    refine @upTo_of_cut _ _ _ _ _ f.after ?_
    rw [hbody, List.append_assoc, List.singleton_append, cut_append_cons List.prefix_rfl hcf hu,
      cut_word fence_ne_nil]
    rfl
  rcases hword with rfl | rfl
  · rw [hfence, hself]
  · have hcut : cut jsonFence (f.body (dumps o.value) ++ (fence ++ f.after)) =
        (cut jsonFence (fence ++ f.after)).map fun (front, rest) => (u ++ c :: front, rest) := by
      rw [hbody, List.append_assoc, List.singleton_append, cut_append_cons fence_starts_json hcf hu]
    rcases closing_cases f with hnone | ⟨rest, hsome⟩
    · rw [hnone, Option.map_none] at hcut
      rw [upTo_of_none hcut]
      exact hfence
    · rw [hsome, Option.map_some] at hcut
      rw [upTo_of_cut hcut, ← hbody]
      exact hself

/-- Before the fence that closes there is a character that no fence has. -/
theorem cut_closing {xs u : Text} {d : Char} (hxs : xs = u ++ [d]) (hd : d ∉ jsonFence) (hfree : ¬ jsonFence <:+: u)
    (hjson : f.json = false) : cut jsonFence (xs ++ (fence ++ f.after)) = none := by
  rw [hxs, List.append_assoc, List.singleton_append, cut_append_cons List.prefix_rfl hd hfree, closing_none f hjson]
  rfl

theorem cut_opening_json (hjson : f.json = true) (xs : Text) :
    cut jsonFence (f.before ++ (f.opening ++ xs)) = some (f.before ++ [], xs) := by
  rw [cut_prose fence_starts_json f.before_free f.before_last, Fenced.opening, hjson, if_pos rfl, cut_word jsonFence_ne_nil]
  rfl

theorem cut_opening (hjson : f.json = false) (xs : Text) :
    cut fence (f.before ++ (f.opening ++ xs)) = some (f.before ++ [], xs) := by
  have hopening : f.opening = fence := by rw [Fenced.opening, hjson]; rfl
  rw [cut_prose List.prefix_rfl f.before_free f.before_last, hopening, cut_word fence_ne_nil]
  rfl

/-- In a plain fence only the object could have a ```json fence. -/
theorem cut_plain (hjson : f.json = false) {xs : Text} (hxs : xs = f.body (dumps o.value) ++ (fence ++ f.after)) :
    cut jsonFence (f.before ++ (f.opening ++ xs)) =
      (cut jsonFence xs).map fun (front, rest) => (f.before ++ (fence ++ front), rest) := by
  obtain ⟨c, hhead, hc⟩ := body_head f o (fence ++ f.after)
  have hopening : f.opening = fence := by rw [Fenced.opening, hjson]; rfl
  rw [← hxs] at hhead
  rw [cut_prose fence_starts_json f.before_free f.before_last, hopening, cut_fence hhead hc, Option.map_map]
  rfl

theorem unfence_free (hfree : ¬ fence <:+: dumps o.value) :
    unfence (Wrapping.text (.fenced f) (dumps o.value)) = f.body (dumps o.value) := by
  rw [unfence, Wrapping.text]
  cases hjson : f.json with
  | true =>
    rw [cut_opening_json f hjson]
    exact upTo_body f o hfree (.inr rfl)
  | false =>
    obtain ⟨u, d, hbody, hd⟩ := body_last f o
    have hu : ¬ jsonFence <:+: u := fun h => hfree ((fence_body f o).mp (by
      rw [hbody]
      exact (fence_starts_json.isInfix.trans h).trans (List.prefix_append u [d]).isInfix))
    rw [cut_plain f o hjson rfl, cut_closing f hbody hd hu hjson, cut_opening f hjson]
    exact upTo_body f o hfree (.inl rfl)

/-! ### With a fence in the object -/

variable {f o} {D t xs front rest : Text} {v : Json}

/-- Before a back-tick of the object the text is in a string, and no JSON. -/
theorem loads_cut (hclosed : Closed D) (hcut : D = t ++ '\x60' :: rest) : loads number t = none := by
  cases hread : loads number t with
  | none => rfl
  | some v =>
    rw [hcut] at hclosed
    obtain ⟨_, hclean⟩ := clean_append.mp hclosed.1
    exact absurd (scan_of_loads hread) (hclean.1 (.inl rfl))

/-- After a fence it begins in a string. -/
theorem clean_after (hclosed : Closed D) (hcut : D = front ++ (fence ++ rest)) : Clean .inside rest := by
  rw [hcut] at hclosed
  obtain ⟨_, hclean⟩ := clean_append.mp hclosed.1
  have hin : scan .outside front ≠ .outside := hclean.1 (.inl rfl)
  have hscan : scan (scan .outside front) fence = .inside := by
    cases hmode : scan .outside front with
    | outside => exact absurd hmode hin
    | inside => rfl
    | escape => rfl
  have hrest := (clean_append.mp hclean).2
  rwa [hscan] at hrest

theorem tick_of_fence (h : fence <:+: xs) : '\x60' ∈ xs := h.subset List.mem_cons_self

/-- A part of what is after a fence is not the text of the object. -/
theorem loads_after (hfence : fence <:+: dumps o.value) (hclean : Clean .inside rest) (ht : t <+: rest) :
    loads number t ≠ some o.value := by
  intro hread
  obtain ⟨tail, rfl⟩ := ht
  have hmade := (reading_clean.loads_keeps hread (clean_append.mp hclean).1).1
  exact tick_dumps o.valid hmade (tick_of_fence hfence)

/-- What is left of the text up to a fence ends before a back-tick of the object. -/
theorem upTo_cut {w' : Text} (hfence : fence <:+: D) :
    ∃ rest, D = upTo fence (upTo ('\x60' :: w') (D ++ xs)) ++ '\x60' :: rest := by
  have hfree : ¬ fence <:+: upTo fence (upTo ('\x60' :: w') (D ++ xs)) := not_infix_upTo fence_ne_nil _
  have htail : D ++ xs = upTo fence (upTo ('\x60' :: w') (D ++ xs)) ∨
      ∃ tail, D ++ xs = upTo fence (upTo ('\x60' :: w') (D ++ xs)) ++ '\x60' :: tail :=
    (upTo_upTo (D ++ xs)).imp_left Eq.symm
  generalize upTo fence (upTo ('\x60' :: w') (D ++ xs)) = t at hfree htail ⊢
  rcases htail with htail | ⟨tail, htail⟩
  · exact absurd (by rw [← htail]; exact hfence.trans (List.prefix_append D xs).isInfix) hfree
  · rcases List.append_eq_append_iff.mp htail with ⟨part, hpart, _⟩ | ⟨part, hpart, hrest⟩
    · exact absurd (by rw [hpart]; exact hfence.trans (List.prefix_append D part).isInfix) hfree
    · cases part with
      | nil =>
        rw [List.append_nil] at hpart
        exact absurd (by rw [← hpart]; exact hfence) hfree
      | cons c part =>
        obtain ⟨rfl, _⟩ := List.cons.inj hrest
        exact ⟨part, hpart⟩

/-- An object with a fence does not come back. -/
theorem loads_bare (hfence : fence <:+: dumps o.value) : loads number (unfence (dumps o.value)) ≠ some o.value := by
  have hclosed := closed_dumps o.valid
  rw [unfence]
  cases hjson : cut jsonFence (dumps o.value) with
  | some parts =>
    obtain ⟨front, rest⟩ := parts
    have hcut : dumps o.value = front ++ (fence ++ ("json".toList ++ rest)) :=
      (cut_eq hjson).trans (by rw [jsonFence, List.append_assoc])
    have hclean : Clean .inside rest := (clean_append.mp (clean_after hclosed hcut)).2
    exact loads_after hfence hclean ((upTo_initial _).trans (upTo_initial rest))
  | none =>
    cases hplain : cut fence (dumps o.value) with
    | some parts =>
      obtain ⟨front, rest⟩ := parts
      exact loads_after hfence (clean_after hclosed (cut_eq hplain)) ((upTo_initial _).trans (upTo_initial rest))
    | none => exact absurd hfence ((cut_eq_none fence_ne_nil).mp hplain)

/-- The object has a ```json fence in a string of its own. -/
theorem upTo_inner {rest : Text} (hcut : f.body (dumps o.value) = front ++ (jsonFence ++ rest))
    (hjson : f.json = false) :
    upTo fence (upTo jsonFence (rest ++ (fence ++ f.after))) <+: rest := by
  obtain ⟨u, d, hbody, hd⟩ := body_last f o
  cases hinner : cut jsonFence rest with
  | some parts =>
    obtain ⟨front', rest'⟩ := parts
    rw [upTo_of_cut (cut_append hinner (fence ++ f.after))]
    exact (upTo_initial front').trans ⟨jsonFence ++ rest', (cut_eq hinner).symm⟩
  | none =>
    have hnone := (cut_eq_none jsonFence_ne_nil).mp hinner
    rcases List.eq_nil_or_concat rest with rfl | ⟨u', d', hrest⟩
    · -- the last character of the body would be one of the fence
      have hlast := congrArg List.getLast? (hbody.symm.trans hcut)
      rw [List.append_nil, List.getLast?_concat, List.getLast?_append_of_ne_nil front jsonFence_ne_nil] at hlast
      exact absurd (List.mem_of_getLast? hlast.symm) hd
    · rw [List.concat_eq_append] at hrest
      have hd' : d' = d := by
        have hlast := congrArg List.getLast? (hbody.symm.trans hcut)
        rw [hrest] at hlast
        simpa [← List.append_assoc] using hlast.symm
      have hu' : ¬ jsonFence <:+: u' := fun h =>
        hnone (by rw [hrest]; exact h.trans (List.prefix_append u' [d']).isInfix)
      rw [upTo_of_none (cut_closing f hrest (hd' ▸ hd) hu' hjson)]
      exact upTo_append_initial fence_ne_nil rest f.after

theorem loads_fenced (hfence : fence <:+: dumps o.value) :
    loads number (unfence (Wrapping.text (.fenced f) (dumps o.value))) ≠ some o.value := by
  have hclosed := closed_body f o
  have hbody : fence <:+: f.body (dumps o.value) := (fence_body f o).mpr hfence
  have hcutoff : ∀ {w'}, loads number (upTo fence (upTo ('\x60' :: w')
      (f.body (dumps o.value) ++ (fence ++ f.after)))) ≠ some o.value := fun {w'} => by
    obtain ⟨rest, hrest⟩ := @upTo_cut _ (fence ++ f.after) w' hbody
    rw [loads_cut hclosed hrest]
    simp
  rw [unfence, Wrapping.text]
  cases hjson : f.json with
  | true =>
    rw [cut_opening_json f hjson]
    exact hcutoff
  | false =>
    rw [cut_plain f o hjson rfl]
    cases hinner : cut jsonFence (f.body (dumps o.value)) with
    | some parts =>
      obtain ⟨front, rest⟩ := parts
      have hcut : f.body (dumps o.value) = front ++ (fence ++ ("json".toList ++ rest)) :=
        (cut_eq hinner).trans (by rw [jsonFence, List.append_assoc])
      have hclean : Clean .inside rest := (clean_append.mp (clean_after hclosed hcut)).2
      rw [cut_append hinner]
      exact loads_after hfence hclean (upTo_inner (cut_eq hinner) hjson)
    | none =>
      obtain ⟨u, d, hlast, hd⟩ := body_last f o
      have hnone := (cut_eq_none jsonFence_ne_nil).mp hinner
      have hu : ¬ jsonFence <:+: u := fun h => hnone (by
        rw [hlast]
        exact h.trans (List.prefix_append u [d]).isInfix)
      rw [cut_closing f hlast hd hu hjson, cut_opening f hjson]
      exact hcutoff

end Body

/-! ## What the worker reads -/

theorem runExtractionLlm_output {number : Text → Option Text} {text : Text} {v : Json} :
    runExtractionLlm number text = .output v ↔ loads number (unfence text) = some v ∧ (factCount v).isSome := by
  rw [runExtractionLlm]
  cases hread : loads number (unfence text) with
  | none => simp
  | some read =>
    rw [Option.some.injEq]
    cases hcount : factCount read with
    | none =>
      refine iff_of_false (by simp [hcount]) ?_
      rintro ⟨rfl, hsome⟩
      rw [hcount] at hsome
      cases hsome
    | some n =>
      have hout : (match factCount read with | some _ => Outcome.output read | none => .failed) = .output read := by
        rw [hcount]
      dsimp only
      rw [hout, Outcome.output.injEq]
      exact ⟨fun h => ⟨h, by rw [← h, hcount]; rfl⟩, And.left⟩

/-- The response is read as the object exactly if the object has no fence. -/
theorem loads_unfence {number : Text → Option Text} (o : JsonObject number) (w : Wrapping) :
    loads number (unfence (w.text (dumps o.value))) = some o.value ↔ ¬ fence <:+: dumps o.value := by
  refine ⟨fun hread hfence => ?_, fun hfree => ?_⟩
  · cases w with
    | bare => exact loads_bare hfence hread
    | fenced f => exact loads_fenced hfence hread
  · cases w with
    | bare =>
      have hjson : ¬ jsonFence <:+: dumps o.value := fun h => hfree (fence_starts_json.isInfix.trans h)
      have hnone : unfence (dumps o.value) = dumps o.value := by
        rw [unfence, (cut_eq_none jsonFence_ne_nil).mpr hjson, (cut_eq_none fence_ne_nil).mpr hfree]
      have hread : loads number ([] ++ (dumps o.value ++ [])) = some o.value :=
        loads_dumps o.valid (List.forall_mem_nil _) (List.forall_mem_nil _)
      rw [List.nil_append, List.append_nil] at hread
      rw [Wrapping.text, hnone]
      exact hread
    | fenced f =>
      rw [unfence_free f o hfree]
      exact loads_body f o

theorem extracted_iff (number : Text → Option Text) (o : JsonObject number) (w : Wrapping) :
    runExtractionLlm number (w.text (dumps o.value)) = .output o.value ↔
      ¬ fence <:+: dumps o.value ∧ (factCount o.value).isSome := by
  rw [runExtractionLlm_output, loads_unfence]

/-- `{"facts": [{"content": "```"}]}` -/
def fencedFact : JsonObject some where
  fields := [("facts".toList, .arr [.obj [("content".toList, .str fence)]])]
  valid :=
    .obj (List.nodup_singleton _) (List.forall_mem_singleton.mpr (.arr (List.forall_mem_singleton.mpr
      (.obj (List.nodup_singleton _) (List.forall_mem_singleton.mpr (.str fence))))))

/-- A string with a fence: the response is cut within the string. -/
theorem quoted_fence_invalid : ¬ ∀ (o : JsonObject some) (w : Wrapping),
    runExtractionLlm some (w.text (dumps o.value)) = .output o.value := by
  intro h
  have hinvalid : runExtractionLlm some (dumps fencedFact.value) = .invalid := rfl
  cases hinvalid.symm.trans (h fencedFact .bare)

end ContextBroker.ExtractionOutput
