import ContextBroker.L1Data.JsonRoundTrip

/-!
# In and out of JSON strings

`scan` follows a text in and out of its strings. The text of a value ends
outside, and back-ticks and backslashes stand in its strings only
(`closed_dumps`). It is printable ASCII (`printable_dumps`).
-/
namespace ContextBroker.JsonText

open Imperator

/-! ## In and out of strings -/

inductive Mode where
  | outside | inside | escape
  deriving DecidableEq, Repr

def step : Mode → Char → Mode
  | .outside, c => if c = '"' then .inside else .outside
  | .inside, c => if c = '"' then .outside else if c = '\\' then .escape else .inside
  | .escape, _ => .inside

def scan (m : Mode) (text : Text) : Mode := text.foldl step m

/-- A character that stands in strings only. -/
def StringOnly (c : Char) : Prop := c = '\x60' ∨ c = '\\'

/-- Such characters are read in strings only. -/
def Clean : Mode → Text → Prop
  | _, [] => True
  | m, c :: text => (StringOnly c → m ≠ .outside) ∧ Clean (step m c) text

section Modes

variable {m : Mode} {c : Char} {u text s : Text} {number : Text → Option Text} {v : Json}

theorem scan_append (m : Mode) (u text : Text) : scan m (u ++ text) = scan (scan m u) text := List.foldl_append

theorem clean_append : ∀ {m : Mode} {u : Text}, Clean m (u ++ text) ↔ Clean m u ∧ Clean (scan m u) text
  | m, [] => by simp [Clean, scan]
  | m, c :: u => by
    rw [List.cons_append, Clean, Clean, clean_append (m := step m c) (u := u), and_assoc]
    rfl

/-- A text that ends outside as it began, with its strings well made. -/
def Closed (u : Text) : Prop := Clean .outside u ∧ scan .outside u = .outside

theorem Closed.append {w : Text} (hu : Closed u) (hw : Closed w) : Closed (u ++ w) := by
  obtain ⟨hclean, hscan⟩ := hu
  refine ⟨clean_append.mpr ⟨hclean, by rw [hscan]; exact hw.1⟩, ?_⟩
  rw [scan_append, hscan, hw.2]

theorem closed_plain : ∀ {u : Text}, (∀ c ∈ u, c ≠ '"' ∧ ¬ StringOnly c) → Closed u
  | [], _ => ⟨trivial, rfl⟩
  | c :: u, h => by
    obtain ⟨⟨hquote, hc⟩, hu⟩ := List.forall_mem_cons.mp h
    have hstep : step .outside c = .outside := if_neg hquote
    obtain ⟨hclean, hscan⟩ := closed_plain hu
    refine ⟨⟨fun hs => absurd hs hc, by rw [hstep]; exact hclean⟩, ?_⟩
    rw [scan, List.foldl_cons, hstep]
    exact hscan

theorem closed_intercalate {sep : Text} (hsep : Closed sep) : ∀ {l : List Text}, (∀ u ∈ l, Closed u) →
    Closed (List.intercalate sep l)
  | [], _ => ⟨trivial, rfl⟩
  | [u], h => by
    rw [List.intercalate_singleton]
    exact h u List.mem_cons_self
  | u :: w :: l, h => by
    obtain ⟨hu, hl⟩ := List.forall_mem_cons.mp h
    rw [List.intercalate_cons_cons, List.append_assoc]
    exact hu.append (hsep.append (closed_intercalate hsep hl))

/-- A text that stays in the string that it is in. -/
def Inner (u : Text) : Prop := Clean .inside u ∧ scan .inside u = .inside

theorem Inner.append {w : Text} (hu : Inner u) (hw : Inner w) : Inner (u ++ w) := by
  obtain ⟨hclean, hscan⟩ := hu
  refine ⟨clean_append.mpr ⟨hclean, by rw [hscan]; exact hw.1⟩, ?_⟩
  rw [scan_append, hscan, hw.2]

theorem inner_plain : ∀ {u : Text}, (∀ c ∈ u, c ≠ '"' ∧ c ≠ '\\') → Inner u
  | [], _ => ⟨trivial, rfl⟩
  | c :: u, h => by
    obtain ⟨⟨hquote, hc⟩, hu⟩ := List.forall_mem_cons.mp h
    have hstep : step .inside c = .inside := by rw [step, if_neg hquote, if_neg hc]
    obtain ⟨hclean, hscan⟩ := inner_plain hu
    refine ⟨⟨fun _ => by simp, by rw [hstep]; exact hclean⟩, ?_⟩
    rw [scan, List.foldl_cons, hstep]
    exact hscan

theorem inner_escape (c : Char) : Inner ['\\', c] := ⟨⟨fun _ => by simp, fun _ => by simp [step], trivial⟩, rfl⟩

theorem hex4_plain (n : Nat) : ∀ c ∈ hex4 n, c ≠ '"' ∧ c ≠ '\\' ∧ c ≠ '\x60' := by
  have hdigits : ∀ k < 16, Nat.digitChar k ≠ '"' ∧ Nat.digitChar k ≠ '\\' ∧ Nat.digitChar k ≠ '\x60' := by
    decide +kernel
  intro c hc
  obtain ⟨unit, _, rfl⟩ := List.mem_map.mp hc
  exact hdigits _ (Nat.mod_lt _ (by decide))

theorem inner_escapeChar (c : Char) : Inner (escapeChar c) := by
  have hcode : ∀ n, Inner ("\\u".toList ++ hex4 n) := fun n =>
    (inner_escape 'u').append (inner_plain fun c hc => ⟨(hex4_plain n c hc).1, (hex4_plain n c hc).2.1⟩)
  rw [escapeChar]
  split_ifs with h1 h2 h3 h4 h5 h6 h7 h8
  · exact inner_escape c
  · exact inner_escape 'b'
  · exact inner_escape 't'
  · exact inner_escape 'n'
  · exact inner_escape 'f'
  · exact inner_escape 'r'
  · refine inner_plain fun d hd => ?_
    rw [List.mem_singleton.mp hd]
    exact ⟨fun hc => h1 (.inr (by rw [hc]; rfl)), fun hc => h1 (.inl (by rw [hc]; rfl))⟩
  · exact hcode _
  · rw [List.append_assoc]
    exact (hcode _).append (hcode _)

theorem inner_escaped : ∀ s : Text, Inner (s.flatMap escapeChar)
  | [] => ⟨trivial, rfl⟩
  | c :: s => by
    rw [List.flatMap_cons]
    exact (inner_escapeChar c).append (inner_escaped s)

theorem closed_string (s : Text) : Closed ('"' :: (s.flatMap escapeChar ++ ['"'])) := by
  obtain ⟨hclean, hscan⟩ := inner_escaped s
  refine ⟨⟨fun h => absurd h (by simp [StringOnly]), ?_⟩, ?_⟩
  · refine clean_append.mpr ⟨hclean, ?_⟩
    change Clean (scan .inside _) _
    rw [hscan]
    exact ⟨fun _ => by simp, trivial⟩
  · change scan .inside _ = _
    rw [scan_append, hscan]
    rfl

/-- **Outside its strings** the text of a value has no character that is for
strings only, by induction on the value. -/
theorem closed_dumps (h : Valid number v) : Closed (dumps v) := by
  have hsep : Closed ", ".toList := closed_plain (by simp [StringOnly])
  induction h with
  | null => exact closed_plain (by simp [dumps, StringOnly])
  | bool b => cases b <;> exact closed_plain (by simp [dumps, StringOnly])
  | @num repr h hrepr =>
    rw [dumps]
    refine closed_plain fun c hc => ?_
    have hall : ∀ c ∈ repr, InNumber c := by
      have hread : matchNumber (repr ++ []) = some (repr, []) := matchNumber_append h fun c hc => by cases hc
      exact (matchNumber_eq hread).2
    rcases hall c hc with hdigit | hother
    · constructor
      · rintro rfl
        cases hdigit
      · rintro (rfl | rfl) <;> cases hdigit
    · constructor
      · rintro rfl
        simp at hother
      · rintro (rfl | rfl) <;> simp at hother
  | str s => exact closed_string s
  | @arr items h ih =>
    rw [dumps_arr]
    have hitems : Closed (itemsText items) := closed_intercalate hsep fun u hu => by
      obtain ⟨v, hv, rfl⟩ := List.mem_map.mp hu
      exact ih v hv
    exact (closed_plain (u := ['[']) (by simp [StringOnly])).append
      (hitems.append (closed_plain (by simp [StringOnly])))
  | @obj fields hkeys h ih =>
    rw [dumps_obj]
    have hfields : Closed (fieldsText fields) := closed_intercalate hsep fun u hu => by
      obtain ⟨f, hf, rfl⟩ := List.mem_map.mp hu
      have hfield : fieldText f = '"' :: (f.1.flatMap escapeChar ++ ['"']) ++ ([':', ' '] ++ dumps f.2) := by
        simp [fieldText]
      rw [hfield]
      exact (closed_string f.1).append ((closed_plain (by simp [StringOnly])).append (ih f hf))
    exact (closed_plain (u := ['\x7b']) (by simp [StringOnly])).append
      (hfields.append (closed_plain (by simp [StringOnly])))

/-! ## Texts cut out of one -/

/-- Outside for the one is inside for the other: of a text that begins within a
string, the strings are what stands between strings. -/
theorem reading_clean : Reading (Clean .inside) (Clean .outside) (· ≠ '\x60') where
  structural h hquote hslash := by
    have hclean := h.2
    rwa [step, if_neg hquote, if_neg hslash] at hclean
  opening h := h.2
  closing h := h.2
  char h hquote _ := by
    have hclean := h.2
    rw [step, if_neg hquote] at hclean
    exact ⟨fun hc => h.1 (.inl hc) rfl, hclean⟩
  escape h := absurd rfl (h.1 (.inr rfl))

theorem reading_scan (m : Mode) : Reading (scan .outside · = m) (scan .inside · = m) fun _ => True where
  structural h hquote _ := by rwa [scan, List.foldl_cons, step, if_neg hquote] at h
  opening h := h
  closing h := h
  char h hquote hslash := by
    rw [scan, List.foldl_cons, step, if_neg hquote, if_neg hslash] at h
    exact ⟨trivial, h⟩
  escape h := ⟨h, fun _ => trivial⟩

/-- What can be read ends outside its strings. -/
theorem scan_of_loads (hread : loads number text = some v) : scan .outside text = .outside := by
  obtain ⟨_, rest, hwhite, hscan⟩ := (reading_scan (scan .outside text)).loads_keeps hread rfl
  have hplain : Closed rest := closed_plain fun c hc => by
    have hc := hwhite c hc
    constructor
    · rintro rfl
      cases hc
    · rintro (rfl | rfl) <;> cases hc
  rw [← hscan]
  exact hplain.2

theorem tick_escapeChar {c : Char} (h : '\x60' ∈ escapeChar c) : c = '\x60' := by
  have hcode : ∀ n, '\x60' ∉ "\\u".toList ++ hex4 n := fun n hn => by
    rcases List.mem_append.mp hn with hn | hn
    · simp at hn
    · exact (hex4_plain n _ hn).2.2 rfl
  rw [escapeChar] at h
  split_ifs at h with h1 h2 h3 h4 h5 h6 h7 h8
  · rcases List.mem_cons.mp h with h | h
    · cases h
    · exact (List.mem_singleton.mp h).symm
  · simp at h
  · simp at h
  · simp at h
  · simp at h
  · simp at h
  · exact (List.mem_singleton.mp h).symm
  · exact absurd h (hcode _)
  · rw [List.append_assoc] at h
    exact absurd h fun h => (List.mem_append.mp h).elim (hcode _) (hcode _)

theorem mem_intercalate {sep : Text} : ∀ {l : List Text}, c ∈ List.intercalate sep l → c ∈ sep ∨ ∃ u ∈ l, c ∈ u
  | [], h => by cases h
  | [u], h => by
    rw [List.intercalate_singleton] at h
    exact .inr ⟨u, List.mem_cons_self, h⟩
  | u :: w :: l, h => by
    rw [List.intercalate_cons_cons, List.append_assoc] at h
    rcases List.mem_append.mp h with h | h
    · exact .inr ⟨u, List.mem_cons_self, h⟩
    · rcases List.mem_append.mp h with h | h
      · exact .inl h
      · exact (mem_intercalate h).imp_right fun ⟨x, hx, hc⟩ => ⟨x, List.mem_cons_of_mem u hx, hc⟩

/-- A back-tick in the text of a value stands in a string of the value. -/
theorem tick_dumps (h : Valid number v) (hmade : Made (· ≠ '\x60') v) : '\x60' ∉ dumps v := by
  have hstring : ∀ {s : Text}, (∀ c ∈ s, c ≠ '\x60') → '\x60' ∉ s.flatMap escapeChar := fun hs hmem => by
    obtain ⟨c, hc, hmem⟩ := List.mem_flatMap.mp hmem
    exact hs c hc (tick_escapeChar hmem)
  induction h with
  | null => simp [dumps]
  | bool b => cases b <;> simp [dumps]
  | @num repr h hrepr =>
    intro hmem
    have hread : matchNumber (repr ++ []) = some (repr, []) := matchNumber_append h fun c hc => by cases hc
    rcases (matchNumber_eq hread).2 _ hmem with hdigit | hother
    · cases hdigit
    · simp at hother
  | str s =>
    cases hmade with | str hs =>
    rw [dumps_str]
    simp [hstring hs]
  | @arr items h ih =>
    cases hmade with | arr hitems =>
    rw [dumps_arr]
    have hmem : '\x60' ∉ itemsText items := fun hmem => by
      rcases mem_intercalate hmem with hsep | ⟨u, hu, hmem⟩
      · simp at hsep
      · obtain ⟨v, hv, rfl⟩ := List.mem_map.mp hu
        exact ih v hv (hitems v hv) hmem
    simp [hmem]
  | @obj fields hkeys h ih =>
    cases hmade with | obj hnames hvalues =>
    rw [dumps_obj]
    have hmem : '\x60' ∉ fieldsText fields := fun hmem => by
      rcases mem_intercalate hmem with hsep | ⟨u, hu, hmem⟩
      · simp at hsep
      · obtain ⟨f, hf, rfl⟩ := List.mem_map.mp hu
        have hvalue := ih f hf (hvalues f hf)
        simp [fieldText, hstring (hnames f hf), hvalue] at hmem
    simp [hmem]

/-! ## Printable ASCII -/

def Printable (c : Char) : Prop := 0x20 ≤ c.toNat ∧ c.toNat ≤ 0x7e

instance (c : Char) : Decidable (Printable c) := inferInstanceAs (Decidable (_ ∧ _))

theorem printable_hex4 (n : Nat) : ∀ c ∈ hex4 n, Printable c := by
  have hdigits : ∀ k < 16, 0x20 ≤ (Nat.digitChar k).toNat ∧ (Nat.digitChar k).toNat ≤ 0x7e := by decide +kernel
  intro c hc
  obtain ⟨unit, _, rfl⟩ := List.mem_map.mp hc
  exact hdigits _ (Nat.mod_lt _ (by decide))

theorem printable_escapeChar (c : Char) : ∀ d ∈ escapeChar c, Printable d := by
  have hcode : ∀ n, ∀ d ∈ "\\u".toList ++ hex4 n, Printable d := fun n =>
    List.forall_mem_append.mpr ⟨by simp [Printable], printable_hex4 n⟩
  rw [escapeChar]
  split_ifs with h1 h2 h3 h4 h5 h6 h7 h8
  · simp only [List.forall_mem_cons, List.not_mem_nil, false_imp_iff, implies_true, and_true, Printable]
    rcases h1 with h1 | h1 <;> exact ⟨by decide, by omega⟩
  · simp [Printable]
  · simp [Printable]
  · simp [Printable]
  · simp [Printable]
  · simp [Printable]
  · simpa [Printable] using h7
  · exact hcode _
  · rw [List.append_assoc]
    exact List.forall_mem_append.mpr ⟨hcode _, hcode _⟩

theorem printable_escaped (s : Text) : ∀ c ∈ s.flatMap escapeChar, Printable c := fun c hc => by
  obtain ⟨d, _, hc⟩ := List.mem_flatMap.mp hc
  exact printable_escapeChar d c hc

theorem printable_join {l : List Text} (h : ∀ u ∈ l, ∀ c ∈ u, Printable c) :
    ∀ c ∈ List.intercalate ", ".toList l, Printable c := fun c hc => by
  rcases mem_intercalate hc with hsep | ⟨u, hu, hc⟩
  · have hseparator : ∀ c ∈ ", ".toList, Printable c := by simp [Printable]
    exact hseparator c hsep
  · exact h u hu c hc

/-- **Printable ASCII** is all that the text of a value has. -/
theorem printable_dumps (h : Valid number v) : ∀ c ∈ dumps v, Printable c := by
  induction h with
  | null => simp [dumps, Printable]
  | bool b => cases b <;> simp [dumps, Printable]
  | @num repr h hrepr =>
    intro c hc
    have hread : matchNumber (repr ++ []) = some (repr, []) := matchNumber_append h fun c hc => by cases hc
    rcases (matchNumber_eq hread).2 c hc with hdigit | hother
    · simp only [isDigit, Bool.and_eq_true, decide_eq_true_eq] at hdigit
      have hlow : 0x30 ≤ c.toNat := hdigit.1
      have hhigh : c.toNat ≤ 0x39 := hdigit.2
      exact ⟨by omega, by omega⟩
    · simp only [List.mem_cons, List.not_mem_nil, or_false] at hother
      rcases hother with rfl | rfl | rfl | rfl | rfl <;> exact ⟨by decide, by decide⟩
  | str s =>
    rw [dumps_str]
    simpa [Printable, or_imp, forall_and] using printable_escaped s
  | @arr items h ih =>
    have hmem : ∀ c ∈ itemsText items, Printable c := printable_join (List.forall_mem_map.mpr ih)
    rw [dumps_arr]
    simpa [Printable, or_imp, forall_and] using hmem
  | @obj fields hkeys h ih =>
    have hfield : ∀ f ∈ fields, ∀ c ∈ fieldText f, Printable c := fun f hf => by
      have hquote : Printable '"' ∧ Printable ':' ∧ Printable ' ' := by simp [Printable]
      simp only [fieldText, List.forall_mem_cons, List.forall_mem_append]
      exact ⟨hquote.1, printable_escaped f.1, hquote.1, hquote.2.1, hquote.2.2, ih f hf⟩
    have hmem : ∀ c ∈ fieldsText fields, Printable c := printable_join (List.forall_mem_map.mpr hfield)
    rw [dumps_obj]
    simpa [Printable, or_imp, forall_and] using hmem

end Modes

end ContextBroker.JsonText
