import ContextBroker.L7Agent.Imperator
import Mathlib.Data.List.Chain
import Mathlib.Data.List.Infix
import Mathlib.Data.List.TakeWhile

/-!
# The messages a model call gets

`llm_call_node` truncates the message list (CB-R3-06) and rewrites it so that
no two user turns or model turns are adjacent. Both steps are read from the
left: what a prefix of the list has become decides what the next message does,
so each property has one lemma about a message at the end.

* `speaker_sanitize`: the rewriting keeps the last message that is not a tool
  result, which is why no tool call is separated from its results.
* `trimmed_iff`: the list that is sent is well formed, and it keeps the last
  message exactly when the list is not over the limit or the messages kept are
  not all tool results.
-/
namespace ContextBroker.Imperator

namespace Body

def isHuman : Body → Bool
  | .human _ => true
  | _ => false

def isAi : Body → Bool
  | .ai _ _ => true
  | _ => false

def isSystem : Body → Bool
  | .system _ => true
  | _ => false

/-- An `AIMessage` with tool calls. -/
def isCall : Body → Bool
  | .ai _ (_ :: _) => true
  | _ => false

end Body

/-- The last message that is not a tool result. -/
def speaker (l : List Body) : Option Body := (l.filter (!·.isTool)).getLast?

/-- Only tool results follow an `AIMessage` with tool calls. -/
def callOpen (l : List Body) : Prop := ∃ m, speaker l = some m ∧ m.isCall = true

/-- Every `ToolMessage` follows, with only `ToolMessage`s between, an
`AIMessage` with tool calls. -/
def ToolRule (l : List Body) : Prop := ∀ pre m, pre ++ [m] <+: l → m.isTool = true → callOpen pre

/-- A `SystemMessage`, then messages that keep the tool-call rule. -/
structure WellFormed (l : List Body) : Prop where
  system : ∃ m, l.head? = some m ∧ m.isSystem = true
  rule : ToolRule l

/-- What is sent for the list `l` under a limit. -/
structure Trimmed (limit : Int) (l sent : List Body) : Prop where
  system : sent.head? = l.head?
  length : sent.length ≤ limit
  rule : ToolRule sent
  humans : sent.IsChain fun a b => ¬ (a.isHuman = true ∧ b.isHuman = true)
  models : sent.IsChain fun a b => ¬ (a.isAi = true ∧ b.isAi = true)
  sublist : sent.Sublist l
  last : sent.getLast? = l.getLast?

/-! ## A message at the end -/

section Snoc

variable {l : List Body} {m : Body}

theorem speaker_snoc_tool (h : m.isTool = true) : speaker (l ++ [m]) = speaker l := by
  simp [speaker, List.filter_append, h]

theorem speaker_snoc (h : m.isTool = false) : speaker (l ++ [m]) = some m := by
  simp [speaker, List.filter_append, h]

theorem toolRule_nil : ToolRule [] := by
  intro pre m h _
  simp at h

theorem ToolRule.mono {l' : List Body} (h : ToolRule l) (hp : l' <+: l) : ToolRule l' :=
  fun pre m hm ht => h pre m (hm.trans hp) ht

theorem toolRule_snoc : ToolRule (l ++ [m]) ↔ ToolRule l ∧ (m.isTool = true → callOpen l) := by
  constructor
  · intro h
    exact ⟨h.mono (List.prefix_append _ _), fun ht => h l m ⟨[], by simp⟩ ht⟩
  · rintro ⟨h, hm⟩ pre m' hp ht
    rcases List.prefix_concat_iff.mp hp with heq | hp
    · obtain ⟨rfl, rfl⟩ : pre = l ∧ m' = m := by simpa using List.append_inj' heq rfl
      exact hm ht
    · exact h pre m' hp ht

/-- What the message does to a list sanitized so far. -/
theorem sanitizeOne_cases (l : List Body) (m : Body) :
    sanitizeOne l m = l ++ [m] ∧
        (∀ a ∈ l.getLast?, ¬ (a.isHuman = true ∧ m.isHuman = true) ∧ ¬ (a.isAi = true ∧ m.isAi = true)) ∨
      ∃ pre a, l = pre ++ [a] ∧ sanitizeOne l m = pre ++ [m] ∧
        (a.isHuman = true ∧ m.isHuman = true ∨ a.isAi = true ∧ m.isAi = true) := by
  rcases List.eq_nil_or_concat l with rfl | ⟨pre, a, rfl⟩
  · exact .inl ⟨by simp [sanitizeOne], by simp⟩
  · rw [List.concat_eq_append]
    by_cases hsame : a.isHuman = true ∧ m.isHuman = true ∨ a.isAi = true ∧ m.isAi = true
    · refine .inr ⟨pre, a, rfl, ?_, hsame⟩
      cases a <;> cases m <;> simp_all [sanitizeOne, Body.isHuman, Body.isAi]
    · refine .inl ⟨?_, ?_⟩
      · cases a <;> cases m <;> simp_all [sanitizeOne, Body.isHuman, Body.isAi]
      · simpa [not_or] using hsame

theorem sanitize_snoc : sanitize (l ++ [m]) = sanitizeOne (sanitize l) m := by
  simp [sanitize, List.foldl_append]

theorem not_tool_of_replaced {a : Body} (h : a.isHuman = true ∧ m.isHuman = true ∨ a.isAi = true ∧ m.isAi = true) :
    m.isTool = false := by
  cases m <;> simp_all [Body.isHuman, Body.isAi, Body.isTool]

theorem not_tool_of_system (h : m.isSystem = true) : m.isTool = false := by
  cases m <;> simp_all [Body.isSystem, Body.isTool]

theorem getLast?_sanitizeOne (l : List Body) (m : Body) : (sanitizeOne l m).getLast? = some m := by
  rcases sanitizeOne_cases l m with ⟨h, _⟩ | ⟨pre, a, _, h, _⟩
  · simp [h]
  · simp [h]

end Snoc

/-! ## The rewriting -/

variable {l : List Body}

theorem getLast?_sanitize (l : List Body) : (sanitize l).getLast? = l.getLast? := by
  rcases List.eq_nil_or_concat l with rfl | ⟨pre, m, rfl⟩
  · rfl
  · rw [List.concat_eq_append, sanitize_snoc, getLast?_sanitizeOne, List.getLast?_concat]

theorem sanitize_sublist (l : List Body) : (sanitize l).Sublist l := by
  induction l using List.reverseRecOn with
  | nil => exact List.Sublist.slnil
  | append_singleton l m ih =>
    rw [sanitize_snoc]
    rcases sanitizeOne_cases (sanitize l) m with ⟨h, _⟩ | ⟨pre, a, hl, h, _⟩
    · rw [h]
      exact ih.append (List.Sublist.refl _)
    · rw [h]
      rw [hl] at ih
      exact ((List.sublist_append_left _ _).trans ih).append (List.Sublist.refl _)

/-- A message is only ever replaced by one that is no tool result. -/
theorem speaker_sanitize (l : List Body) : speaker (sanitize l) = speaker l := by
  induction l using List.reverseRecOn with
  | nil => rfl
  | append_singleton l m ih =>
    rw [sanitize_snoc]
    rcases sanitizeOne_cases (sanitize l) m with ⟨h, _⟩ | ⟨pre, a, _, h, hsame⟩
    · rw [h]
      cases ht : m.isTool with
      | true => rw [speaker_snoc_tool ht, speaker_snoc_tool ht, ih]
      | false => rw [speaker_snoc ht, speaker_snoc ht]
    · have ht := not_tool_of_replaced hsame
      rw [h, speaker_snoc ht, speaker_snoc ht]

theorem sanitize_rule (h : ToolRule l) : ToolRule (sanitize l) := by
  induction l using List.reverseRecOn with
  | nil => exact toolRule_nil
  | append_singleton l m ih =>
    obtain ⟨hl, hm⟩ := toolRule_snoc.mp h
    rw [sanitize_snoc]
    rcases sanitizeOne_cases (sanitize l) m with ⟨h, _⟩ | ⟨pre, a, hs, h, hsame⟩
    · rw [h, toolRule_snoc]
      refine ⟨ih hl, fun ht => ?_⟩
      rw [callOpen, speaker_sanitize]
      exact hm ht
    · rw [h, toolRule_snoc]
      have hrule := ih hl
      rw [hs] at hrule
      exact ⟨hrule.mono (List.prefix_append _ _), fun ht => absurd ht (by simp [not_tool_of_replaced hsame])⟩

/-- Two messages of one kind are not left adjacent. -/
theorem sanitize_isChain (kind : Body → Bool)
    (hkind : ∀ a m, kind a = true ∧ kind m = true → a.isHuman = true ∧ m.isHuman = true ∨ a.isAi = true ∧ m.isAi = true)
    (hsame : ∀ a m, a.isHuman = true ∧ m.isHuman = true ∨ a.isAi = true ∧ m.isAi = true → kind a = kind m)
    (l : List Body) : (sanitize l).IsChain fun a b => ¬ (kind a = true ∧ kind b = true) := by
  induction l using List.reverseRecOn with
  | nil => exact List.isChain_nil
  | append_singleton l m ih =>
    rw [sanitize_snoc]
    rcases sanitizeOne_cases (sanitize l) m with ⟨h, hdiff⟩ | ⟨pre, a, hs, h, heq⟩
    · rw [h]
      refine ih.append (List.isChain_singleton _) fun a ha b hb hab => ?_
      obtain rfl : m = b := by simpa using hb
      rcases hkind a m hab with h | h
      · exact (hdiff a ha).1 h
      · exact (hdiff a ha).2 h
    · rw [h]
      rw [hs] at ih
      have ⟨hpre, _, hlast⟩ := List.isChain_append.mp ih
      refine hpre.append (List.isChain_singleton _) fun b hb c hc hbc => ?_
      obtain rfl : m = c := by simpa using hc
      refine hlast b hb a (by simp) ⟨hbc.1, ?_⟩
      rw [hsame a m heq]
      exact hbc.2

theorem sanitize_humans (l : List Body) :
    (sanitize l).IsChain fun a b => ¬ (a.isHuman = true ∧ b.isHuman = true) := by
  refine sanitize_isChain Body.isHuman (fun _ _ h => .inl h) (fun a m h => ?_) l
  cases a <;> cases m <;> simp_all [Body.isHuman, Body.isAi]

theorem sanitize_models (l : List Body) : (sanitize l).IsChain fun a b => ¬ (a.isAi = true ∧ b.isAi = true) := by
  refine sanitize_isChain Body.isAi (fun _ _ h => .inr h) (fun a m h => ?_) l
  cases a <;> cases m <;> simp_all [Body.isHuman, Body.isAi]

/-- A leading `SystemMessage` stays where it is. -/
theorem sanitize_head {m : Body} (hm : m.isSystem = true) (l : List Body) :
    (sanitize (m :: l)).head? = some m := by
  induction l using List.reverseRecOn with
  | nil => rfl
  | append_singleton l a ih =>
    rw [← List.cons_append, sanitize_snoc]
    rcases sanitizeOne_cases (sanitize (m :: l)) a with ⟨h, _⟩ | ⟨pre, b, hs, h, hsame⟩
    · rw [h, List.head?_append, ih, Option.some_or]
    · rw [h]
      cases pre with
      | nil =>
        rw [hs] at ih
        obtain rfl : b = m := by simpa using ih
        cases b <;> simp_all [Body.isSystem, Body.isHuman, Body.isAi]
      | cons c pre =>
        rw [hs] at ih
        simpa using ih

/-! ## The truncation -/

section Truncate

variable {limit : Int}

/-- The messages of `l` that a truncation may keep after the first. -/
def tail (limit : Int) (l : List Body) : List Body := l.drop (l.length - (limit - 1)).toNat

theorem truncateMessages_le (h : (l.length : Int) ≤ limit) : truncateMessages limit l = l := by
  rw [truncateMessages, if_neg (not_lt.mpr h)]

theorem truncateMessages_gt {s : Body} {rest : List Body} (h : limit < ((s :: rest).length : Int)) :
    truncateMessages limit (s :: rest) = s :: (tail limit (s :: rest)).dropWhile (·.isTool) := by
  rw [truncateMessages, if_pos h]
  rfl

/-- The cut is behind the first message. -/
theorem tail_suffix {s : Body} {rest : List Body} (h : limit < ((s :: rest).length : Int)) :
    tail limit (s :: rest) <:+ rest := by
  obtain ⟨k, hk⟩ : ∃ k, (((s :: rest).length : Int) - (limit - 1)).toNat = k + 1 :=
    Nat.exists_eq_succ_of_ne_zero (by omega)
  rw [tail, hk, List.drop_succ_cons]
  exact List.drop_suffix _ _

theorem length_tail {s : Body} {rest : List Body} (h2 : 2 ≤ limit) (h : limit < ((s :: rest).length : Int)) :
    ((tail limit (s :: rest)).length : Int) = limit - 1 := by
  rw [tail, List.length_drop]
  omega

theorem getLast?_of_suffix {t : List Body} (h : t <:+ l) (hne : t ≠ []) : l.getLast? = t.getLast? := by
  obtain ⟨pre, rfl⟩ := h
  rw [List.getLast?_append, List.getLast?_eq_some_getLast hne, Option.some_or]

theorem kept_suffix {s : Body} {rest : List Body} (h : limit < ((s :: rest).length : Int)) :
    (tail limit (s :: rest)).dropWhile (·.isTool) <:+ rest :=
  (List.dropWhile_suffix _).trans (tail_suffix h)

/-- A suffix of the list that does not start with a tool result keeps the rule
behind a `SystemMessage`. -/
theorem ToolRule.cut {s : Body} {rest kept : List Body} (h : ToolRule (s :: rest)) (hs : s.isSystem = true)
    (hk : kept <:+ rest) (hhead : ∀ m ∈ kept.head?, m.isTool = false) : ToolRule (s :: kept) := by
  obtain ⟨pre, rfl⟩ := hk
  rintro p m hp ht
  cases p with
  | nil =>
    obtain rfl : m = s := by simpa [List.cons_prefix_cons] using hp
    exact absurd ht (by simp [not_tool_of_system hs])
  | cons a p =>
    obtain ⟨rfl, hkept⟩ : a = s ∧ p ++ [m] <+: kept := List.cons_prefix_cons.mp hp
    cases p with
    | nil =>
      obtain ⟨t, rfl⟩ := hkept
      exact absurd ht (by simp [hhead m (by simp)])
    | cons b p =>
      have hb : b.isTool = false := by
        obtain ⟨t, rfl⟩ := hkept
        exact hhead b (by simp)
      have hopen := h (a :: pre ++ b :: p) m (by
        rw [List.append_assoc, List.cons_append, List.cons_append]
        exact List.cons_prefix_cons.mpr ⟨rfl, (List.prefix_append_right_inj pre).mpr hkept⟩) ht
      -- the message that opened the calls is not before the cut
      have hspeaker : ∀ q : List Body, speaker (q ++ b :: p) = ((b :: p).filter (!·.isTool)).getLast? := by
        intro q
        rw [speaker, List.filter_append, List.getLast?_append]
        cases hlast : ((b :: p).filter (!·.isTool)).getLast? with
        | none => simp [List.getLast?_eq_none_iff, hb] at hlast
        | some c => rfl
      rw [callOpen, hspeaker] at hopen
      rw [callOpen, ← List.singleton_append, hspeaker]
      exact hopen

theorem dropWhile_head (l : List Body) : ∀ m ∈ (l.dropWhile (·.isTool)).head?, m.isTool = false := by
  intro m hm
  have := List.head?_dropWhile_not (·.isTool) l
  rw [Option.mem_def.mp hm] at this
  simpa using this

/-- What the truncation keeps, the last message apart. -/
theorem WellFormed.truncate (h : WellFormed l) (h2 : 2 ≤ limit) :
    WellFormed (truncateMessages limit l) ∧ (truncateMessages limit l).head? = l.head? ∧
      ((truncateMessages limit l).length : Int) ≤ limit ∧ (truncateMessages limit l).Sublist l := by
  by_cases hle : (l.length : Int) ≤ limit
  · rw [truncateMessages_le hle]
    exact ⟨h, rfl, hle, List.Sublist.refl _⟩
  · obtain ⟨s, hs, hsys⟩ := h.system
    obtain ⟨rest, rfl⟩ : ∃ rest, l = s :: rest := by
      cases l with
      | nil => cases hs
      | cons a rest => exact ⟨rest, by rw [Option.some.inj hs]⟩
    have hgt := not_le.mp hle
    have hsuffix := kept_suffix hgt
    have hlen : ((tail limit (s :: rest)).dropWhile (·.isTool)).length ≤ (tail limit (s :: rest)).length :=
      (List.dropWhile_suffix _).length_le
    have hlen' := length_tail h2 hgt
    rw [truncateMessages_gt hgt]
    refine ⟨⟨⟨s, rfl, hsys⟩, h.rule.cut hsys hsuffix (dropWhile_head _)⟩, rfl, ?_, hsuffix.sublist.cons_cons s⟩
    rw [List.length_cons]
    omega

/-- The truncation keeps the last message, except behind tool results only. -/
theorem getLast?_truncate_iff (h : WellFormed l) (h2 : 2 ≤ limit) :
    (truncateMessages limit l).getLast? = l.getLast? ↔
      (l.length : Int) ≤ limit ∨ ∃ m ∈ tail limit l, m.isTool = false := by
  by_cases hle : (l.length : Int) ≤ limit
  · rw [truncateMessages_le hle]
    exact iff_of_true rfl (.inl hle)
  · obtain ⟨s, hs, hsys⟩ := h.system
    obtain ⟨rest, rfl⟩ : ∃ rest, l = s :: rest := by
      cases l with
      | nil => cases hs
      | cons a rest => exact ⟨rest, by rw [Option.some.inj hs]⟩
    have hgt := not_le.mp hle
    have hlen := length_tail h2 hgt
    have htail : tail limit (s :: rest) ≠ [] := by
      intro h0
      rw [h0] at hlen
      simp at hlen
      omega
    have hlast := getLast?_of_suffix ((tail_suffix hgt).trans (List.suffix_cons s rest)) htail
    rw [truncateMessages_gt hgt, or_iff_right hle, hlast]
    by_cases hkept : (tail limit (s :: rest)).dropWhile (·.isTool) = []
    · have hall : ∀ m ∈ tail limit (s :: rest), m.isTool = true := List.dropWhile_eq_nil_iff.mp hkept
      rw [hkept, List.getLast?_singleton, List.getLast?_eq_some_getLast htail]
      refine iff_of_false (fun heq => ?_) fun ⟨m, hm, hnot⟩ => absurd (hall m hm) (by simp [hnot])
      have htool := hall _ (List.getLast_mem htail)
      rw [← Option.some.inj heq, not_tool_of_system hsys] at htool
      cases htool
    · rw [getLast?_of_suffix (List.suffix_cons s _) hkept, ← getLast?_of_suffix (List.dropWhile_suffix _) hkept]
      refine iff_of_true rfl ?_
      by_contra hnone
      refine hkept (List.dropWhile_eq_nil_iff.mpr fun m hm => ?_)
      by_contra hnot
      exact hnone ⟨m, hm, by simpa using hnot⟩

end Truncate

/-- **What is sent is well formed**, and keeps the last message exactly when
the list is within the limit or not all messages the cut leaves are tool
results. -/
theorem trimmed_iff (limit : Int) (h2 : 2 ≤ limit) (l : List Body) (h : WellFormed l) :
    Trimmed limit l (sanitize (truncateMessages limit l)) ↔
      (l.length : Int) ≤ limit ∨ ∃ m ∈ tail limit l, m.isTool = false := by
  obtain ⟨hw, hhead, hlen, hsub⟩ := h.truncate h2
  rw [← getLast?_truncate_iff h h2]
  constructor
  · intro ht
    rw [← getLast?_sanitize, ht.last]
  · intro hlast
    refine ⟨?_, ?_, sanitize_rule hw.rule, sanitize_humans _, sanitize_models _, (sanitize_sublist _).trans hsub, ?_⟩
    · obtain ⟨m, hm, hsys⟩ := hw.system
      obtain ⟨rest, hrest⟩ : ∃ rest, truncateMessages limit l = m :: rest := List.head?_eq_some_iff.mp hm
      rw [← hhead, hm, hrest]
      exact sanitize_head hsys rest
    · exact le_trans (by exact_mod_cast (sanitize_sublist _).length_le) hlen
    · rw [getLast?_sanitize, hlast]

/-- A question, the call of one tool and its result. -/
def exchange : List Body :=
  [.system "s".toList, .human "q".toList, .ai [] [⟨"1".toList, "t".toList, []⟩], .tool "r".toList "1".toList]

theorem exchange_wellFormed : WellFormed exchange := by
  refine ⟨⟨_, rfl, rfl⟩, ?_⟩
  show ToolRule ([.system "s".toList, .human "q".toList, .ai [] [⟨"1".toList, "t".toList, []⟩]] ++ [_])
  refine toolRule_snoc.mpr ⟨?_, fun _ => ⟨_, rfl, rfl⟩⟩
  rintro pre m ⟨t, ht⟩ htool
  have hmem : m ∈ [Body.system "s".toList, .human "q".toList, .ai [] [⟨"1".toList, "t".toList, []⟩]] := by
    rw [← ht]
    simp
  revert htool
  simp only [List.mem_cons, List.not_mem_nil, or_false] at hmem
  rcases hmem with rfl | rfl | rfl <;> simp [Body.isTool]

/-- Under a limit of 3 the question is cut. -/
theorem exchange_trimmed : Trimmed 3 exchange (sanitize (truncateMessages 3 exchange)) :=
  (trimmed_iff 3 (by decide) exchange exchange_wellFormed).mpr (.inr (by decide))

/-- Under a limit of 2 only the `SystemMessage` is sent. -/
theorem tool_results_all_cut :
    ¬ ∀ (limit : Int) (l : List Body), 2 ≤ limit → WellFormed l →
      Trimmed limit l (sanitize (truncateMessages limit l)) := by
  intro h
  have hlast := (h 2 exchange (by decide) exchange_wellFormed).last
  revert hlast
  decide

end ContextBroker.Imperator
