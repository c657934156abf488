import ContextBroker.Core.Placeholders
import ContextBroker.L3Assembly.Cleaning

/-!
# The extraction prompt (`context_broker_ae/cea_extraction_flow.py`)

`run_extraction_llm` fills the placeholders of its template in with
`str.replace`, one after the other, so a value that is put in is read again
for the placeholders that follow. The prompt is followed character by
character, each with its origin (`labelledPrompt`).

`prompt_simultaneous_iff`: nothing inside a value is replaced, and the prompt is the
template with its own placeholders filled in, exactly if in the template with
the earlier placeholders filled in each placeholder occurs in characters of
the template only.
-/
namespace ContextBroker.ExtractionPrompt
open Placeholders Cleaning

/-- What the prompt is made of. A fact has an id and a memory. -/
structure State where
  existingFacts : List (Option Text × Option Text) := []
  content : Text
  tier2Context : Option Text := none
  tier3Context : Option Text := none

/-- Two digits. -/
def pad (n : Nat) : Text := [Nat.digitChar (n / 10), Nat.digitChar (n % 10)]

/-- `strftime("%Y-%m-%d")` -/
def currentDate (year month day : Nat) : Text := Nat.toDigits 10 year ++ ['-'] ++ pad month ++ ['-'] ++ pad day

/-- `text or default` -/
def orDefault (text default : Text) : Text := if text = [] then default else text

/-- mirrors cea_extraction_flow.py:149-155 -/
def existingFactsText (facts : List (Option Text × Option Text)) : Text :=
  orDefault (facts.flatMap fun fact =>
    "- [".toList ++ fact.1.getD ['?'] ++ "] ".toList ++ fact.2.getD [] ++ ['\n']) "(none)".toList

def contentText (s : State) : Text := orDefault (cleanForCompaction s.content) "(no extractable content)".toList

def tierText (tier : Option Text) : Text := orDefault (cleanForCompaction (tier.getD [])) "(none)".toList

/-- mirrors cea_extraction_flow.py:149-178 -/
def extractionPrompt (template date : Text) (s : State) : Text :=
  let prompt := template
  let prompt := strReplace "{current_date}".toList date prompt
  let prompt := strReplace "{existing_facts}".toList (existingFactsText s.existingFacts) prompt
  let prompt := strReplace "{content}".toList (contentText s) prompt
  let prompt := strReplace "{tier2_context}".toList (tierText s.tier2Context) prompt
  strReplace "{tier3_context}".toList (tierText s.tier3Context) prompt

/-- The placeholders with their values, in the order they are filled in. -/
def entries (date : Text) (s : State) : List Entry :=
  [⟨"{current_date}".toList, date⟩, ⟨"{existing_facts}".toList, existingFactsText s.existingFacts⟩,
    ⟨"{content}".toList, contentText s⟩, ⟨"{tier2_context}".toList, tierText s.tier2Context⟩,
    ⟨"{tier3_context}".toList, tierText s.tier3Context⟩]

/-- The prompt with the origin of each character. -/
def labelledPrompt (text date : Text) (s : State) : List Placeholders.Cell :=
  sequential (entries date s) (template text)

theorem orDefault_ne_nil {text default : Text} (h : default ≠ []) : orDefault text default ≠ [] := by
  unfold orDefault
  split
  · exact h
  · assumption

theorem currentDate_ne_nil (year month day : Nat) : currentDate year month day ≠ [] := by
  simp [currentDate]

theorem entries_proper (year month day : Nat) (s : State) :
    ∀ e ∈ entries (currentDate year month day) s, e.Proper := by
  intro e he
  simp only [entries, List.mem_cons, List.not_mem_nil, or_false] at he
  rcases he with rfl | rfl | rfl | rfl | rfl
  · exact ⟨⟨_, rfl, by decide⟩, currentDate_ne_nil year month day⟩
  all_goals exact ⟨⟨_, rfl, by decide⟩, orDefault_ne_nil (by decide)⟩

/-- The characters of the labelled prompt are the prompt. -/
theorem labelledPrompt_chars (text date : Text) (s : State) :
    (labelledPrompt text date s).map Placeholders.Cell.char = extractionPrompt text date s := by
  have htemplate : (template text).map Placeholders.Cell.char = text := by simp [template, Function.comp_def]
  simp only [labelledPrompt, entries, sequential, List.zipIdx_cons, List.zipIdx_nil, List.foldl_cons, List.foldl_nil,
    strReplace_map, htemplate, extractionPrompt]

/-- **The substitution is simultaneous**, as text and with nothing inside a
value replaced, exactly if the placeholders stay apart from the values. -/
theorem prompt_simultaneous_iff (text : Text) (year month day : Nat) (s : State) :
    ((labelledPrompt text (currentDate year month day) s).map Placeholders.Cell.char =
        extractionPrompt text (currentDate year month day) s) ∧
      (labelledPrompt text (currentDate year month day) s =
          simultaneous (entries (currentDate year month day) s) (template text) ↔
        Apart (entries (currentDate year month day) s) (template text)) :=
  ⟨labelledPrompt_chars text _ s, sequential_eq_iff (entries_proper year month day s) (origin_template text)⟩

/-- A message that quotes a placeholder has its own text replaced. -/
theorem quoted_placeholder_replaced :
    ¬ ∀ (text : Text) (year month day : Nat) (s : State),
      (∀ e ∈ entries (currentDate year month day) s, e.word <:+: text) →
        extractionPrompt text (currentDate year month day) s =
          (simultaneous (entries (currentDate year month day) s) (template text)).map Placeholders.Cell.char := by
  intro h
  have := h "{current_date}{existing_facts}{content}{tier2_context}{tier3_context}".toList 2026 1 2
    { content := "{tier2_context}".toList, tier2Context := some "t".toList } (by decide +kernel)
  revert this
  decide +kernel

end ContextBroker.ExtractionPrompt
