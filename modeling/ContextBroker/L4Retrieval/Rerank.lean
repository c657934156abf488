import ContextBroker.Core.Ranked
import Mathlib.Algebra.Order.Ring.Rat
import Mathlib.Data.List.Nodup
import Mathlib.Data.List.Pairwise

/-!
# Merging rerank scores (`context_broker_ae/search_flow.py`)

`_rerank_via_api` writes the scores of the service's answer into copies of the
candidates by index and sorts them with a default of 0. An index below 0
counts from the end, as list indexing does, and 0 is a score a service may
give: the merge is right on the answers `Sound` describes and on no others.

Each candidate carries its position in the input (a ghost no code reads).

* `writeScores_eq`: the loop leaves each candidate the last score written to it.
* `merged_iff`: the merge meets its specification for every number of results
  asked for exactly on the sound answers.
-/
namespace ContextBroker.Rerank
open Ranked

/-- An entry of the service's answer. -/
structure Item where
  index : Option Int := none
  relevanceScore : Option Rat := none
  deriving DecidableEq, Repr

/-- The answer; the providers use different keys. -/
structure Response where
  results : Option (List Item) := none
  choices : Option (List Item) := none
  data : Option (List Item) := none

/-- mirrors search_flow.py:55 -/
def Response.items (r : Response) : List Item :=
  ((r.results.filter (!·.isEmpty)).or ((r.choices.filter (!·.isEmpty)).or r.data)).getD []

/-- A candidate row with its position in the input. -/
structure Candidate (α : Type) where
  row : α
  position : Nat
  rerankScore : Option Rat := none
  deriving DecidableEq, Repr

inductive Raised where
  | http | index
  deriving DecidableEq, Repr

namespace Item

def idx (item : Item) : Int := item.index.getD 0

def score (item : Item) : Rat := item.relevanceScore.getD 0

end Item

/-- Where `scored[idx]` is in a list of length `n`. -/
def slot (n : Nat) (idx : Int) : Option Nat :=
  if 0 ≤ idx then if idx < n then some idx.toNat else none
  else if 0 ≤ n + idx then some (n + idx).toNat
  else none

variable {α : Type}

/-- `[dict(c) for c in candidates]` -/
def copies (candidates : List α) : List (Candidate α) := candidates.zipIdx.map fun c => ⟨c.1, c.2, none⟩

def Candidate.setScore (c : Candidate α) (score : Rat) : Candidate α := { c with rerankScore := some score }

/-- mirrors search_flow.py:60-64 -/
def writeScores (scored : List (Candidate α)) : List Item → Except Raised (List (Candidate α))
  | [] => .ok scored
  | item :: items =>
    if item.idx < scored.length then
      match slot scored.length item.idx with
      | none => .error .index
      | some k => writeScores (scored.modify k (·.setScore item.score)) items
    else writeScores scored items

def Candidate.key (c : Candidate α) : Rat := c.rerankScore.getD 0

/-- No response is a failed request. mirrors search_flow.py:24-67 -/
def rerankViaApi (candidates : List α) (topN : Nat) (response : Option Response) :
    Except Raised (List (Candidate α)) :=
  match response with
  | none => .error .http
  | some data =>
    match writeScores (copies candidates) data.items with
    | .error e => .error e
    | .ok scored => .ok ((sortDesc Candidate.key scored).take topN)

/-- The reranker's provider in the configuration. -/
inductive Provider where
  | none | api | unknown
  deriving DecidableEq, Repr

/-- A failed request degrades to the order of the search; an index error is
not among the exceptions caught. mirrors search_flow.py:490-517 -/
def rerankResults (provider : Provider) (candidates : List α) (topN limit : Nat) (response : Option Response) :
    Except Raised (List (Candidate α)) :=
  if provider = .none ∨ candidates = [] then .ok ((copies candidates).take limit)
  else if provider = .api then
    match rerankViaApi candidates topN response with
    | .ok reranked => .ok (reranked.take limit)
    | .error .http => .ok ((copies candidates).take limit)
    | .error .index => .error .index
  else .ok ((copies candidates).take limit)

/-! ## What the answer says -/

/-- The answer has an entry with this candidate's own index. -/
def Listed (items : List Item) (k : Nat) : Prop := ∃ item ∈ items, item.index = some (k : Int)

/-- The last score written to candidate `k` of `n`. -/
def lastScore (n : Nat) (items : List Item) (k : Nat) : Option Rat :=
  ((items.filter fun item => slot n item.idx == some k).getLast?).map (·.score)

/-- The returned list is a merge of the scores into the candidates. -/
structure Merged (candidates : List α) (items : List Item) (topN : Nat) (out : List (Candidate α)) : Prop where
  rows : ∀ c ∈ out, candidates[c.position]? = some c.row
  nodup : (out.map (·.position)).Nodup
  length : out.length = min topN candidates.length
  scored_iff : ∀ c ∈ out, c.rerankScore.isSome = true ↔ Listed items c.position
  /-- scored before unscored, also across the cut -/
  first : out.Pairwise fun a b => b.rerankScore.isSome = true → a.rerankScore.isSome = true
  kept : (∃ c ∈ out, c.rerankScore = none) → ∀ k < candidates.length, Listed items k → k ∈ out.map (·.position)
  sorted : out.Pairwise fun a b => ∀ s ∈ a.rerankScore, ∀ t ∈ b.rerankScore, t ≤ s

/-- Answers for `n` candidates that the merge reads as they are meant: no
index below `-n`; every candidate a score is written to has an entry of its
own; and each of these ends with a score above 0, or with 0 and before every
candidate without one. -/
structure Sound (n : Nat) (items : List Item) : Prop where
  inRange : ∀ item ∈ items, -(n : Int) ≤ item.idx
  own : ∀ item ∈ items, ∀ k, slot n item.idx = some k → Listed items k
  above : ∀ k < n, ∀ j < n, Listed items k → ¬ Listed items j →
    ∀ s ∈ lastScore n items k, 0 < s ∨ s = 0 ∧ k < j

/-! ## The loop -/

theorem slot_eq_none {n : Nat} {idx : Int} : slot n idx = none ↔ idx < -(n : Int) ∨ (n : Int) ≤ idx := by
  unfold slot
  split_ifs <;> simp <;> omega

theorem slot_own {n k : Nat} (h : k < n) : slot n k = some k := by
  have hk : (k : Int) < n := by exact_mod_cast h
  simp [slot, hk]

theorem slot_lt {n k : Nat} {idx : Int} (h : slot n idx = some k) : k < n := by
  unfold slot at h
  split_ifs at h <;> simp only [Option.some.injEq] at h <;> omega

/-- The `i`-th copy is of the `i`-th candidate. -/
def Placed (scored : List (Candidate α)) : Prop := ∀ (i : Nat) (h : i < scored.length), scored[i].position = i

theorem placed_copies (candidates : List α) : Placed (copies candidates) := by
  intro i h
  simp [copies]

theorem modify_eq_map {scored : List (Candidate α)} (h : Placed scored) (k : Nat) (f : Candidate α → Candidate α) :
    scored.modify k f = scored.map fun c => if c.position = k then f c else c := by
  refine List.ext_getElem (by simp) fun i h₁ h₂ => ?_
  rw [List.getElem_modify, List.getElem_map, h i (by simpa using h₂)]
  simp only [eq_comm]

theorem Placed.map {scored : List (Candidate α)} (h : Placed scored) {f : Candidate α → Candidate α}
    (hf : ∀ c, (f c).position = c.position) : Placed (scored.map f) := by
  intro i hi
  rw [List.getElem_map, hf]
  exact h i (by simpa using hi)

/-- The scores of a list of entries written at once. -/
def assign (n : Nat) (items : List Item) (c : Candidate α) : Candidate α :=
  { c with rerankScore := (lastScore n items c.position).or c.rerankScore }

theorem lastScore_cons_ne {n k : Nat} {item : Item} {items : List Item} (h : slot n item.idx ≠ some k) :
    lastScore n (item :: items) k = lastScore n items k := by
  rw [lastScore, List.filter_cons_of_neg (by simpa using h), lastScore]

theorem lastScore_cons_eq {n k : Nat} {item : Item} {items : List Item} (h : slot n item.idx = some k) :
    lastScore n (item :: items) k = (lastScore n items k).or (some item.score) := by
  rw [lastScore, List.filter_cons_of_pos (by simpa using h), List.getLast?_cons, lastScore]
  cases (items.filter fun item => slot n item.idx == some k).getLast? <;> rfl

/-- One entry, then the rest. -/
theorem assign_cons {n k : Nat} {item : Item} {items : List Item} (h : slot n item.idx = some k) (c : Candidate α) :
    assign n items (if c.position = k then c.setScore item.score else c) = assign n (item :: items) c := by
  by_cases hk : c.position = k
  · subst hk
    rw [if_pos rfl, assign, assign, lastScore_cons_eq h]
    cases h : lastScore n items c.position <;> simp [Candidate.setScore, h]
  · rw [if_neg hk, assign, assign, lastScore_cons_ne fun h' => hk (Option.some.inj (h.symm.trans h')).symm]

theorem writeScores_eq {items : List Item} {n : Nat} :
    ∀ {scored : List (Candidate α)}, scored.length = n → Placed scored → (∀ item ∈ items, -(n : Int) ≤ item.idx) →
      writeScores scored items = .ok (scored.map (assign n items)) := by
  induction items with
  | nil =>
    intro scored _ _ _
    exact congrArg Except.ok (List.map_id scored).symm
  | cons item items ih =>
    intro scored hlen hplaced hrange
    have ⟨hitem, hrest⟩ := List.forall_mem_cons.mp hrange
    rw [writeScores, hlen]
    split
    · rename_i hlt
      cases hslot : slot n item.idx with
      | none => exact absurd (slot_eq_none.mp hslot) (by omega)
      | some k =>
        have hset := hplaced.map (f := fun c => if c.position = k then c.setScore item.score else c)
          fun c => by split <;> rfl
        dsimp only
        rw [modify_eq_map hplaced, ih (by simpa using hlen) hset hrest, List.map_map]
        exact congrArg _ (List.map_congr_left fun c _ => assign_cons hslot c)
    · rename_i hge
      have hslot : slot n item.idx = none := slot_eq_none.mpr (.inr (not_lt.mp hge))
      rw [ih hlen hplaced hrest]
      refine congrArg _ (List.map_congr_left fun c _ => ?_)
      rw [assign, assign, lastScore_cons_ne (by simp [hslot])]

/-- An index below `-n` ends the loop. -/
theorem writeScores_error {items : List Item} {n : Nat} :
    ∀ {scored : List (Candidate α)}, scored.length = n → (¬ ∀ item ∈ items, -(n : Int) ≤ item.idx) →
      writeScores scored items = .error .index := by
  induction items with
  | nil =>
    intro scored _ h
    exact absurd (fun _ hmem => nomatch hmem) h
  | cons item items ih =>
    intro scored hlen h
    rw [List.forall_mem_cons, not_and'] at h
    rw [writeScores, hlen]
    by_cases hrest : ∀ item ∈ items, -(n : Int) ≤ item.idx
    · have hitem := not_le.mp (h hrest)
      rw [if_pos (by omega), slot_eq_none.mpr (.inl hitem)]
    · split
      · cases slot n item.idx with
        | none => rfl
        | some k => exact ih (by simpa using hlen) hrest
      · exact ih hlen hrest

/-! ## The sorted list -/

section Sorted

variable {candidates : List α} {items : List Item}

/-- The candidates with their scores, best first, before the cut. -/
def ranking (candidates : List α) (items : List Item) : List (Candidate α) :=
  sortDesc Candidate.key ((copies candidates).map (assign candidates.length items))

theorem length_ranking : (ranking candidates items).length = candidates.length := by
  simp [ranking, copies]

theorem mem_ranking {c : Candidate α} :
    c ∈ ranking candidates items ↔
      candidates[c.position]? = some c.row ∧ c.rerankScore = lastScore candidates.length items c.position := by
  simp only [ranking, mem_sortDesc, List.mem_map, copies, Prod.exists, List.mem_zipIdx_iff_getElem?]
  constructor
  · rintro ⟨_, ⟨row, i, hrow, rfl⟩, rfl⟩
    exact ⟨hrow, by simp [assign]⟩
  · rintro ⟨hrow, hscore⟩
    exact ⟨_, ⟨c.row, c.position, hrow, rfl⟩, by simp [assign, ← hscore]⟩

theorem exists_mem_ranking {k : Nat} (h : k < candidates.length) :
    ∃ c ∈ ranking candidates items, c.position = k ∧ c.rerankScore = lastScore candidates.length items k :=
  ⟨⟨candidates[k], k, _⟩, mem_ranking.mpr ⟨List.getElem?_eq_getElem h, rfl⟩, rfl, rfl⟩

theorem position_lt_of_mem {c : Candidate α} (h : c ∈ ranking candidates items) : c.position < candidates.length :=
  (List.getElem?_eq_some_iff.mp (mem_ranking.mp h).1).1

/-- By descending score, and by position where the scores are equal. -/
theorem ranking_order :
    (ranking candidates items).Pairwise (Before Candidate.key fun a b => a.position < b.position) := by
  refine sortDesc_stable ?_
  have hplaced : Placed ((copies candidates).map (assign candidates.length items)) :=
    (placed_copies candidates).map fun _ => rfl
  refine List.pairwise_iff_getElem.mpr fun i j hi hj hij => ?_
  rw [hplaced i hi, hplaced j hj]
  exact hij

theorem ranking_nodup : ((ranking candidates items).map (·.position)).Nodup := by
  have hperm := (sortDesc_perm Candidate.key ((copies candidates).map (assign candidates.length items))).map
    fun c : Candidate α => c.position
  refine hperm.nodup_iff.mpr ?_
  rw [List.map_map]
  have hpos : ((fun c : Candidate α => c.position) ∘ assign candidates.length items) = fun c => c.position := rfl
  rw [hpos, copies, List.map_map]
  show (candidates.zipIdx.map fun c => c.2).Nodup
  simp [List.zipIdx_map_snd, List.nodup_range']

theorem lastScore_isSome {n k : Nat} :
    (lastScore n items k).isSome = true ↔ ∃ item ∈ items, slot n item.idx = some k := by
  rw [lastScore, Option.isSome_map, Option.isSome_iff_ne_none, Ne, List.getLast?_eq_none_iff,
    List.filter_eq_nil_iff]
  simp

/-- On a sound answer the scored candidates are the listed ones. -/
theorem Sound.scored_iff (hs : Sound candidates.length items) {c : Candidate α} (hc : c ∈ ranking candidates items) :
    c.rerankScore.isSome = true ↔ Listed items c.position := by
  rw [(mem_ranking.mp hc).2, lastScore_isSome]
  constructor
  · rintro ⟨item, hitem, hslot⟩
    exact hs.own item hitem _ hslot
  · rintro ⟨item, hitem, hidx⟩
    exact ⟨item, hitem, by rw [Item.idx, hidx, Option.getD_some, slot_own (position_lt_of_mem hc)]⟩

/-- No unscored candidate is before a scored one. -/
theorem Sound.first (hs : Sound candidates.length items) :
    (ranking candidates items).Pairwise fun a b => b.rerankScore.isSome = true → a.rerankScore.isSome = true := by
  refine ranking_order.imp_of_mem fun {a b} ha hb hab hbs => ?_
  by_contra hna
  have hlisted := (hs.scored_iff hb).mp hbs
  have hnot : ¬ Listed items a.position := fun h => hna ((hs.scored_iff ha).mpr h)
  obtain ⟨s, hscore⟩ := Option.isSome_iff_exists.mp hbs
  have hlast : s ∈ lastScore candidates.length items b.position := by
    rw [← (mem_ranking.mp hb).2, hscore]
    rfl
  have habove := hs.above _ (position_lt_of_mem hb) _ (position_lt_of_mem ha) hlisted hnot s hlast
  have hkb : b.key = s := by rw [Candidate.key, hscore, Option.getD_some]
  have hka : a.key = 0 := by rw [Candidate.key, Option.not_isSome_iff_eq_none.mp hna, Option.getD_none]
  rcases hab with hlt | ⟨heq, hpos⟩
  · rw [hka, hkb] at hlt
    rcases habove with hgt | ⟨rfl, _⟩
    · exact lt_asymm hlt hgt
    · exact lt_irrefl _ hlt
  · rw [hka, hkb] at heq
    rcases habove with hgt | ⟨_, hbefore⟩
    · exact absurd heq hgt.ne'
    · omega

theorem Sound.merged (hs : Sound candidates.length items) (topN : Nat) :
    Merged candidates items topN ((ranking candidates items).take topN) where
  rows := fun c hc => (mem_ranking.mp (List.mem_of_mem_take hc)).1
  nodup := ranking_nodup.sublist ((List.take_sublist _ _).map _)
  length := by rw [List.length_take, length_ranking]
  scored_iff := fun c hc => hs.scored_iff (List.mem_of_mem_take hc)
  first := hs.first.sublist (List.take_sublist _ _)
  kept := by
    rintro ⟨c, hc, hnone⟩ k hk hlisted
    obtain ⟨d, hd, rfl, _⟩ := @exists_mem_ranking _ _ items _ hk
    have hsplit := List.take_append_drop topN (ranking candidates items)
    rw [← hsplit] at hd
    rcases List.mem_append.mp hd with hd | hd
    · exact List.mem_map.mpr ⟨d, hd, rfl⟩
    · have hpair := hs.first
      rw [← hsplit] at hpair
      have hscored := (hs.scored_iff (List.mem_of_mem_drop hd)).mpr hlisted
      have := (List.pairwise_append.mp hpair).2.2 c hc d hd hscored
      simp [hnone] at this
  sorted := by
    refine (ranking_order.sublist (List.take_sublist _ _)).imp fun {a b} hab s hs t ht => ?_
    have hka : a.key = s := by rw [Candidate.key, Option.mem_def.mp hs, Option.getD_some]
    have hkb : b.key = t := by rw [Candidate.key, Option.mem_def.mp ht, Option.getD_some]
    rw [← hka, ← hkb]
    exact hab.elim le_of_lt fun h => le_of_eq h.1

end Sorted

/-! ## The merge -/

theorem rerankViaApi_eq {candidates : List α} {topN : Nat} {data : Response}
    (h : ∀ item ∈ data.items, -(candidates.length : Int) ≤ item.idx) :
    rerankViaApi candidates topN (some data) = .ok ((ranking candidates data.items).take topN) := by
  have hlen : (copies candidates).length = candidates.length := by simp [copies]
  rw [rerankViaApi, writeScores_eq hlen (placed_copies candidates) h]
  rfl

theorem rerankViaApi_error {candidates : List α} {topN : Nat} {data : Response}
    (h : ¬ ∀ item ∈ data.items, -(candidates.length : Int) ≤ item.idx) :
    rerankViaApi candidates topN (some data) = .error .index := by
  have hlen : (copies candidates).length = candidates.length := by simp [copies]
  rw [rerankViaApi, writeScores_error hlen h]

/-- The merge returns a list that meets the specification, for every number of
results asked for. -/
def MergesCorrectly (candidates : List α) (data : Response) : Prop :=
  ∀ topN, ∃ out, rerankViaApi candidates topN (some data) = .ok out ∧ Merged candidates data.items topN out

/-- Of two items of a list one is before the other. -/
theorem pairwise_or {β : Type} {R : β → β → Prop} {l : List β} (h : l.Pairwise R) {a b : β} (ha : a ∈ l)
    (hb : b ∈ l) (hne : a ≠ b) : R a b ∨ R b a := by
  have hsym : l.Pairwise fun a b => R a b ∨ R b a := h.imp .inl
  have : Std.Symm fun a b => R a b ∨ R b a := ⟨fun _ _ => Or.symm⟩
  exact hsym.forall ha hb hne

/-- A merge that is right says what the answer must have been. -/
theorem sound_of_merged {candidates : List α} {data : Response} (h : MergesCorrectly candidates data) :
    Sound candidates.length data.items := by
  obtain ⟨out, hout, hm⟩ := h candidates.length
  have hrange : ∀ item ∈ data.items, -(candidates.length : Int) ≤ item.idx := by
    by_contra hnot
    rw [rerankViaApi_error hnot] at hout
    cases hout
  obtain rfl : ranking candidates data.items = out := by
    rw [rerankViaApi_eq hrange, Except.ok.injEq] at hout
    rw [← hout, List.take_of_length_le length_ranking.le]
  refine ⟨hrange, fun item hitem k hslot => ?_, fun k hk j hj hlisted hnot s hs => ?_⟩
  · obtain ⟨c, hc, rfl, hscore⟩ := @exists_mem_ranking _ _ data.items _ (slot_lt hslot)
    refine (hm.scored_iff c hc).mp ?_
    rw [hscore]
    exact lastScore_isSome.mpr ⟨item, hitem, hslot⟩
  · obtain ⟨c, hc, rfl, hcs⟩ := @exists_mem_ranking _ _ data.items _ hk
    obtain ⟨d, hd, rfl, hds⟩ := @exists_mem_ranking _ _ data.items _ hj
    have hne : c ≠ d := by
      rintro rfl
      exact hnot hlisted
    have hdnone : d.rerankScore = none := by
      by_contra hsome
      exact hnot ((hm.scored_iff d hd).mp (Option.isSome_iff_ne_none.mpr hsome))
    have hcsome : c.rerankScore = some s := by rw [hcs]; exact hs
    have hkc : c.key = s := by rw [Candidate.key, hcsome, Option.getD_some]
    have hkd : d.key = 0 := by rw [Candidate.key, hdnone, Option.getD_none]
    -- one of the two is before the other, and it cannot be the unscored one
    rcases pairwise_or (hm.first.and ranking_order) hc hd hne with ⟨_, hcd⟩ | ⟨hdc, _⟩
    · rcases hcd with hlt | ⟨heq, hpos⟩
      · exact .inl (by rwa [hkc, hkd] at hlt)
      · exact .inr ⟨by rw [hkc, hkd] at heq; exact heq.symm, hpos⟩
    · exact absurd (hdc (by simp [hcsome])) (by simp [hdnone])

/-- **The merge is right exactly on the sound answers.** -/
theorem merged_iff (candidates : List α) (data : Response) :
    MergesCorrectly candidates data ↔ Sound candidates.length data.items :=
  ⟨sound_of_merged, fun hs topN => ⟨_, rerankViaApi_eq hs.inRange, hs.merged topN⟩⟩

/-- A cross-encoder's logit of -1 puts the candidate it was given to behind the
one the service left out. -/
theorem negative_logit_sorts_last :
    ¬ ∀ (candidates : List String) (data : Response), MergesCorrectly candidates data := by
  intro h
  have hs := sound_of_merged (h ["a", "b"] { results := some [{ index := some 0, relevanceScore := some (-1) }] })
  have hlisted : Listed [({ index := some 0, relevanceScore := some (-1) } : Item)] 0 :=
    ⟨_, List.mem_singleton_self _, rfl⟩
  have hnot : ¬ Listed [({ index := some 0, relevanceScore := some (-1) } : Item)] 1 := by
    rintro ⟨item, hitem, hidx⟩
    rw [List.mem_singleton.mp hitem] at hidx
    simp at hidx
  have := hs.above 0 (by decide) 1 (by decide) hlisted hnot (-1) (by decide +kernel)
  revert this
  decide +kernel

end ContextBroker.Rerank
