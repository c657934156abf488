import ContextBroker.L3Assembly.Capacity

/-!
# The partition of the loaded messages

`calculate_compaction_state` as a function of its own, over any list of
messages with ascending sequence numbers, any tables, any settings and any
budget. `Partition cap due` is what is expected of the three lists it leaves:
tier 1 is the longest suffix within `cap`, there are older messages exactly
when `due` holds, and the chunks cut what is above the watermark.

No validator keeps the percentages from being negative, and so the ceiling
is not always at least 0. Below 0 the walk takes nothing, where no suffix,
not even the empty one, stays within the ceiling; and without messages there
is nothing older, although 0 tokens are above the ceiling. The cap is
therefore `max 0 ceiling`, and the trigger counts only with messages there
(`calculateCompactionState_partitions`).
-/
namespace ContextBroker.StandardTiered

open Rows

/-- mirrors build_types/tier_scaling.py:55-63 -/
def shouldTriggerCompaction (tier1Tokens maxBudget : Int) (dc : DeadbandConfig) (currentTier2Chunks : Option Nat) :
    Bool :=
  calculateTier1Ceiling maxBudget dc currentTier2Chunks < tier1Tokens

/-- What the node makes of the list `messages`, with watermark `wm` and
chunks of `size`. -/
structure Partition (cap : Int) (due : Prop) (wm size : Nat) (messages : List Message) (st : AssemblyState) : Prop where
  append : st.olderMessages ++ st.tier1Messages = messages
  tier1 : Longest (fun l => (total messageTokens l : Int) ≤ cap) messages st.tier1Messages
  older : st.olderMessages ≠ [] ↔ due
  chunks : st.chunks.flatten = st.olderMessages.filter (wm < ·.sequenceNumber)
  sizes : ∀ chunk ∈ st.chunks, chunk ≠ [] ∧ chunk.length ≤ size
  full : ∀ chunk ∈ st.chunks.dropLast, chunk.length = size

variable {config : Config} {env : Env} {db : Db} {st : AssemblyState} {bt : BuildTypeConfig} {budget : Int}

/-- The ceiling the node computes in the state `st`. -/
def stateCeiling (db : Db) (st : AssemblyState) (bt : BuildTypeConfig) (budget : Int) : Int :=
  calculateTier1Ceiling budget (extractDeadbandConfig bt) (some (db.active st.contextWindowId .two).length)

/-- All the messages, against the ceiling of the state. -/
def stateTriggers (db : Db) (st : AssemblyState) (bt : BuildTypeConfig) (budget : Int) : Bool :=
  shouldTriggerCompaction (total messageTokens st.allMessages) budget (extractDeadbandConfig bt)
    (some (db.active st.contextWindowId .two).length)

/-- Nothing is older exactly when the walk took everything. -/
theorem olderOf_eq_nil_iff {ceiling : Int} {messages : List Message} (hasc : Ascending (·.sequenceNumber) messages)
    (hne : messages ≠ []) : olderOf ceiling messages = [] ↔ (total messageTokens messages : Int) ≤ ceiling := by
  have happ : olderOf ceiling messages ++ fillTier1 ceiling messages = messages :=
    older_append_tier1 ceiling hasc hne
  have hfill : olderOf ceiling messages = [] ↔ fillTier1 ceiling messages = messages := by
    constructor
    · intro hnil
      rwa [hnil, List.nil_append] at happ
    · intro hall
      rw [hall] at happ
      exact List.append_left_eq_self.mp happ
  have hrev : fillTier1 ceiling messages = messages ↔
      takeWithin messageTokens ceiling 0 messages.reverse = messages.reverse := by
    rw [fillTier1, List.reverse_eq_iff]
  rw [hfill, hrev, takeWithin_eq_self_iff, total_reverse, List.reverse_eq_nil_iff]
  simp [hne]

/-- The calls of the node answer, and `chunk_size` is at least 1: it returns. -/
theorem calculateCompactionState_total (config : Config) (env : Env) (db : Db) (hbt : st.buildTypeConfig = some bt)
    (hbudget : st.maxTokenBudget = some budget) (hsize : 1 ≤ getTuning config .chunkSize 20) (hcount : env.fault .chunkCount = none)
    (hmark : env.fault .watermark = none) : ∃ st', calculateCompactionState config env db st = .ok st' := by
  by_cases hne : st.allMessages = []
  · exact ⟨_, if_pos hne⟩
  · simp only [calculateCompactionState, if_neg hne, hbt, hbudget, require, perform_of_none hcount, perform_of_none hmark,
      chunksOf, if_neg (show getTuning config .chunkSize 20 ≠ 0 by omega),
      if_neg (show ¬ getTuning config .chunkSize 20 < 0 by omega), bind, Except.bind, pure, Except.pure]
    split <;> exact ⟨_, rfl⟩

/-- **The partition**, for every list and every configuration. -/
theorem calculateCompactionState_partitions (config : Config) (env : Env) (db : Db) (st : AssemblyState)
    (bt : BuildTypeConfig) (budget : Int) (hbt : st.buildTypeConfig = some bt)
    (hbudget : st.maxTokenBudget = some budget) (hasc : Ascending (·.sequenceNumber) st.allMessages)
    (hsize : 1 ≤ getTuning config .chunkSize 20) (hcount : env.fault .chunkCount = none)
    (hmark : env.fault .watermark = none) :
    ∃ st', calculateCompactionState config env db st = .ok st' ∧
      Partition (max 0 (stateCeiling db st bt budget))
        (st.allMessages ≠ [] ∧ stateTriggers db st bt budget = true)
        (db.watermark st.contextWindowId) (chunkLength config) st.allMessages st' := by
  obtain ⟨st', hst'⟩ := calculateCompactionState_total config env db hbt hbudget hsize hcount hmark
  refine ⟨st', hst', ?_⟩
  by_cases hne : st.allMessages = []
  · have hstop : calculateCompactionState config env db st =
        .ok { st with tier1Messages := [], olderMessages := [], chunks := [] } := if_pos hne
    obtain rfl := Except.ok.inj (hst'.symm.trans hstop)
    refine ⟨hne.symm, ⟨List.nil_suffix, le_max_left _ _, fun l' hsuffix _ => hne ▸ hsuffix⟩, ?_, rfl, ?_, ?_⟩
    · simp [hne]
    · simp
    · simp
  · obtain ⟨chunks, atMax, rfl, hchunks, _, _⟩ := calculateCompactionState_of hbt hbudget rfl hne hst'
    have hlength : 0 < chunkLength config := by
      unfold chunkLength
      omega
    refine ⟨older_append_tier1 _ hasc hne, longest_fill messageTokens_pos _ _, ?_, ?_, fun chunk hc => ?_,
      fun chunk hc => ?_⟩
    · have hnil : olderOf (stateCeiling db st bt budget) st.allMessages = [] ↔
          (total messageTokens st.allMessages : Int) ≤ stateCeiling db st bt budget := olderOf_eq_nil_iff hasc hne
      have hdue : stateTriggers db st bt budget = true ↔
          stateCeiling db st bt budget < total messageTokens st.allMessages := decide_eq_true_iff
      rw [hdue, ← not_le, ← hnil]
      exact ⟨fun h => ⟨hne, h⟩, fun h => h.2⟩
    · show chunks.flatten = _
      rw [hchunks]
      exact slices_flatten hlength _
    · have hc' : chunk ∈ chunks := hc
      rw [hchunks] at hc'
      exact ⟨slices_ne_nil hlength _ chunk hc', slices_length_le hlength _ chunk hc'⟩
    · have hc' : chunk ∈ chunks.dropLast := hc
      rw [hchunks] at hc'
      exact slices_dropLast hlength _ chunk hc'

/-! ## Examples -/

/-- A floor below 0 makes room for an archival share that alone exceeds the
utilization. -/
def negativeFloor : BuildTypeConfig :=
  { tier1FloorPct := some (-1), tier3Pct := some (1 / 2), effectiveUtilization := some (1 / 4) }

def negativeConfig : Config := { buildTypes := [(.tieredSummary, negativeFloor)] }

/-- A window on a conversation with `messages`, after `load_messages`. -/
def loadedState (bt : BuildTypeConfig) (budget : Int) (messages : List Message) : AssemblyState :=
  { contextWindowId := 1, conversationId := 0, buildTypeConfig := some bt, maxTokenBudget := some budget
    allMessages := messages }

def numbered (tokens : List Nat) : List Message :=
  tokens.zipIdx.map fun (n, i) =>
    { id := i, conversationId := 0, role := .user, sender := ['u'], recipient := ['a'], content := none
      tokenCount := some n, priority := 1, sequenceNumber := i + 1, createdAt := 0 }

/-- Five messages, one of them larger than the whole ceiling of 2889 tokens. -/
theorem calculateCompactionState_partitions_default :
    ∃ st', calculateCompactionState defaultConfig (calm ['s']) {} (loadedState {} 3481 (numbered [40, 5000, 7, 0, 9])) =
        .ok st' ∧
      Partition (max 0 (stateCeiling {} (loadedState {} 3481 (numbered [40, 5000, 7, 0, 9])) {} 3481))
        (numbered [40, 5000, 7, 0, 9] ≠ [] ∧
          stateTriggers {} (loadedState {} 3481 (numbered [40, 5000, 7, 0, 9])) {} 3481 = true)
        0 20 (numbered [40, 5000, 7, 0, 9]) st' :=
  calculateCompactionState_partitions defaultConfig (calm ['s']) {} (loadedState {} 3481 (numbered [40, 5000, 7, 0, 9]))
    {} 3481 rfl rfl (by unfold Ascending; decide) (by decide) rfl rfl

/-- With `negativeConfig` and a window of 1024 effective tokens the ceiling is
-256: one message is older, tier 1 is empty and not within the ceiling. -/
theorem partition_negative :
    getBuildTypeConfig negativeConfig .tieredSummary = .ok negativeFloor ∧
      stateCeiling {} (loadedState negativeFloor 1024 (numbered [3])) negativeFloor 1024 = -256 ∧
      ∃ st', calculateCompactionState negativeConfig (calm ['s']) {} (loadedState negativeFloor 1024 (numbered [3])) =
          .ok st' ∧
        ¬ Partition (stateCeiling {} (loadedState negativeFloor 1024 (numbered [3])) negativeFloor 1024)
          (stateTriggers {} (loadedState negativeFloor 1024 (numbered [3])) negativeFloor 1024 = true)
          0 20 (numbered [3]) st' := by
  have hceiling : stateCeiling {} (loadedState negativeFloor 1024 (numbered [3])) negativeFloor 1024 = -256 := by
    decide +kernel
  have hbt : (loadedState negativeFloor 1024 (numbered [3])).buildTypeConfig = some negativeFloor := rfl
  refine ⟨by decide +kernel, hceiling, ?_⟩
  obtain ⟨st', hst'⟩ := calculateCompactionState_total negativeConfig (calm ['s']) {} hbt rfl (by decide) rfl rfl
  refine ⟨st', hst', fun h => ?_⟩
  have hholds := h.tier1.holds
  rw [hceiling] at hholds
  omega

end ContextBroker.StandardTiered
