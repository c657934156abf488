import ContextBroker.Core.StateGraph
import ContextBroker.L1Data.Config
import ContextBroker.L2Store.MessagePipeline

/-!
# The standard-tiered assembly graph

The eight nodes of `build_standard_tiered_assembly`, its routers and the
graph, as a `StateGraph` over the database and the assembly state.

What the code does not decide is in `Env`, one per pass: what
`pg_try_advisory_lock` answers, what the LLM replies or raises, which
exception a database call or a prompt load raises (`Env.fault`), the
messages other tasks store while a node runs (`Env.arrivals`), and the
clock. A unique violation is never a fault (`Env.genuine`): the insert
itself raises it, exactly when the key is taken.

A read-only node returns the new assembly state or raises; `compactTier1`
and `runFullCompaction` also return the database they leave, since the rows
inserted before an exception stay.
-/
namespace ContextBroker.StandardTiered

open Rows

/-! ## State and environment -/

inductive Node where
  | acquireAssemblyLock | loadWindowConfig | loadMessages | calculateCompactionState
  | compactTier1 | runFullCompaction | finalizeAssembly | releaseAssemblyLock
  deriving DecidableEq, Repr

/-- The calls of the nodes that can raise; `dup`, `insert` and `extraction`
are those for the chunk at an index. -/
inductive Site where
  | lock | window | summaryCount | messages | chunkCount | watermark
  | summarizer | chunkPrompt | dup (i : Nat) | insert (i : Nat) | extraction (i : Nat)
  | activeChunks | archival | archivalPrompt | archiver | commit | stamp | unlock
  deriving DecidableEq, Repr

structure Env where
  lockFree : Bool := true
  fault : Site → Option Exn := fun _ => none
  /-- The reply to the summarization of the chunk at an index. -/
  chunkReply : Nat → Except Exn Text
  /-- The replies to the two archival prompts. -/
  recentReply : Text → Except Exn Text
  headerReply : Text → Except Exn Text
  arrivals : Node → List Store := fun _ => []
  now : Time := 0
  genuine : ∀ s, fault s ≠ some .uniqueViolationError

inductive AssemblyError where
  | lockUnavailable (e : Exn)
  | windowNotFound (w : Id)
  | buildType (e : BuildTypeError)
  | promptLoading (e : Exn)
  deriving DecidableEq, Repr

/-- mirrors build_types/standard_tiered.py:83-108 -/
structure AssemblyState where
  contextWindowId : Id
  conversationId : Id
  window : Option Window := none
  buildTypeConfig : Option BuildTypeConfig := none
  maxTokenBudget : Option Int := none
  allMessages : List Message := []
  tier1Messages : List Message := []
  olderMessages : List Message := []
  chunks : List (List Message) := []
  tier2Summaries : List Text := []
  tier3Summary : Option Text := none
  tier2AtMax : Bool := false
  lockKey : Text := []
  lockAcquired : Bool := false
  hadErrors : Bool := false
  error : Option AssemblyError := none
  deriving DecidableEq

/-- `state[key]`. -/
def require {α : Type} : Option α → Except Exn α
  | some a => .ok a
  | none => .error .keyError

section Nodes

variable (config : Config) (env : Env)

/-! ## Locking and loading -/

/-- mirrors build_types/standard_tiered.py:111-164 -/
def acquireAssemblyLock (st : AssemblyState) : Except Exn AssemblyState :=
  let lockKey := "assembly_in_progress:".toList ++ (toString st.contextWindowId).toList
  match perform env.fault .lock env.lockFree with
  | .error e =>
    if e.caughtBy [.runtimeError, .osError, .connectionError] then
      .ok { st with lockKey, lockAcquired := false, error := some (.lockUnavailable e) }
    else .error e
  | .ok acquired => .ok { st with lockKey, lockAcquired := acquired }

/-- mirrors build_types/standard_tiered.py:167-203 -/
def loadWindowConfig (db : Db) (st : AssemblyState) : Except Exn AssemblyState := do
  match ← perform env.fault .window (db.window? st.contextWindowId) with
  | none => return { st with error := some (.windowNotFound st.contextWindowId) }
  | some window =>
    match getBuildTypeConfig config window.buildType with
    | .error e => return { st with error := some (.buildType e) }
    | .ok bt =>
      let utilization := bt.effectiveUtilization.getD EFFECTIVE_UTILIZATION_DEFAULT
      return { st with window := some window, buildTypeConfig := some bt,
                       maxTokenBudget := some (effectiveBudget window.maxTokenBudget utilization) }

/-- D-09: on a window without any summary row the limit also covers the
capped lookback. mirrors build_types/standard_tiered.py:232-241 -/
def lookbackLimit (bt : BuildTypeConfig) (maxBudget limit : Int) : Except Exn Int := do
  let lookback := Binary64.trunc (Binary64.mul maxBudget (bt.initialLookbackMultiplier.getD 3))
  let lookbackTokens := min lookback (bt.maxLookbackTokens.getD 400000)
  return max limit
    (← floorDiv lookbackTokens (getTuning config .tokensPerMessageEstimate 150))

/-- The LIMIT of `load_messages`.
mirrors build_types/standard_tiered.py:213-241 -/
def loadLimit (bt : BuildTypeConfig) (maxBudget : Int) (existingSummaries : Except Exn Nat) :
    Except Exn Int := do
  let limit ← adaptiveLimit config (calculateTier1Ceiling maxBudget (extractDeadbandConfig bt) none)
  if (← existingSummaries) = 0 then lookbackLimit config bt maxBudget limit else return limit

/-- mirrors build_types/standard_tiered.py:204-262 -/
def loadMessages (db : Db) (st : AssemblyState) : Except Exn AssemblyState := do
  let limit ← loadLimit config (st.buildTypeConfig.getD {}) (st.maxTokenBudget.getD 8192)
    (perform env.fault .summaryCount (db.summariesOf st.contextWindowId).length)
  let rows ← limitRows (← perform env.fault .messages (db.newestFirst st.conversationId)) limit
  return { st with allMessages := rows.reverse }

/-! ## Partition -/

/-- The backward walk: the newest messages whose tokens fit the ceiling.
mirrors build_types/standard_tiered.py:298-312 -/
def fillTier1 (ceiling : Int) (messages : List Message) : List Message :=
  (takeWithin messageTokens ceiling 0 messages.reverse).reverse

/-- `tier1_start_seq`: the first message of tier 1, one past the end if there
is none. mirrors build_types/standard_tiered.py:301,310 -/
def tier1StartSeq (messages tier1 : List Message) : Nat :=
  match tier1, messages.getLast? with
  | m :: _, _ => m.sequenceNumber
  | [], some m => m.sequenceNumber + 1
  | [], none => 0

/-- `[l[i : i + size] for i in range(0, len(l), size)]`: a size of 0 makes
`range` raise, a negative one makes it empty.
mirrors build_types/standard_tiered.py:351-355 -/
def chunksOf (size : Int) (l : List Message) : Except Exn (List (List Message)) :=
  if size = 0 then .error .valueError
  else if size < 0 then .ok []
  else .ok (slices size.toNat l)

/-- mirrors build_types/standard_tiered.py:265-372 -/
def calculateCompactionState (db : Db) (st : AssemblyState) : Except Exn AssemblyState := do
  if st.allMessages = [] then
    return { st with tier1Messages := [], olderMessages := [], chunks := [] }
  let bt ← require st.buildTypeConfig
  let maxBudget ← require st.maxTokenBudget
  let dc := extractDeadbandConfig bt
  let currentT2Count ← perform env.fault .chunkCount (db.active st.contextWindowId .two).length
  let tier1 := fillTier1 (calculateTier1Ceiling maxBudget dc (some currentT2Count)) st.allMessages
  let startSeq := tier1StartSeq st.allMessages tier1
  let older := st.allMessages.filter fun m => m.sequenceNumber < startSeq
  if older = [] then
    return { st with tier1Messages := tier1, olderMessages := [], chunks := [], tier2AtMax := false }
  let existingT2 ← perform env.fault .watermark
    (orderDesc (·.toSeq) (db.active st.contextWindowId .two)).head?
  let maxSummarizedSeq := (existingT2.map (·.toSeq)).getD 0
  let unsummarized := older.filter fun m => maxSummarizedSeq < m.sequenceNumber
  let chunks ← chunksOf (getTuning config .chunkSize 20) unsummarized
  return { st with tier1Messages := tier1, olderMessages := older, chunks
                   tier2AtMax := dc.tier2MaxChunks ≤ currentT2Count }

/-! ## Chunk compaction -/

/-- What the summarizer's handler catches becomes `None`.
mirrors build_types/standard_tiered.py:422-431 -/
def summarizeChunk (reply : Except Exn Text) : Except Exn (Option Text) :=
  match reply with
  | .ok text => .ok (some text)
  | .error e =>
    if e.caughtBy [.openaiApiError, .httpxHttpError, .valueError] then .ok none else .error e

/-- `asyncio.gather` over the chunks, the first of them at index `i`: one
uncaught exception is the whole gather's. -/
def gatherSummaries : Nat → List (List Message) → Except Exn (List (List Message × Option Text))
  | _, [] => .ok []
  | i, chunk :: rest => do
    let text ← summarizeChunk (env.chunkReply i)
    return (chunk, text) :: (← gatherSummaries (i + 1) rest)

/-- `tier2_budget + tier3_budget`.
mirrors build_types/standard_tiered.py:448-452 -/
def summaryBudget (maxBudget : Int) (dc : DeadbandConfig) : Int :=
  Binary64.trunc (Binary64.mul (Binary64.mul maxBudget dc.tier2ChunkPct) dc.tier2MaxChunks) +
    Binary64.trunc (Binary64.mul maxBudget dc.tier3Pct)

/-- The tier-2 row of a chunk.
mirrors build_types/standard_tiered.py:505-523 -/
def chunkRow (st : AssemblyState) (chunk : List Message) (first last : Message) (text : Text) :
    Summary :=
  { id := 0, conversationId := st.conversationId, contextWindowId := st.contextWindowId
    summaryText := text, tier := .two
    fromSeq := first.sequenceNumber, toSeq := last.sequenceNumber
    messageCount := some chunk.length, originalTokenCount := some (total messageTokens chunk)
    summaryTokenCount := some (text.length / 4) }

/-- The locals of the insert loop. -/
structure Progress where
  db : Db
  newSummaries : List Text := []
  cumulative : Nat := 0

/-- The insert loop from chunk index `i` on: `None` is skipped, the budget
guard breaks, a range already present is skipped, and an exception leaves the
rows inserted so far. mirrors build_types/standard_tiered.py:455-579 -/
def insertChunks (st : AssemblyState) (budget : Int) :
    Nat → List (List Message × Option Text) → Progress → Progress × Option Exn
  | _, [], p => (p, none)
  | i, (_, none) :: rest, p => insertChunks st budget (i + 1) rest p
  | i, (chunk, some text) :: rest, p =>
    if 0 < budget ∧ budget < p.cumulative + estimateTokens text then (p, none)
    else
      match chunk.head?, chunk.getLast? with
      | some first, some last =>
        let row := chunkRow st chunk first last text
        match perform env.fault (.dup i) ((p.db.active st.contextWindowId .two).any (·.key == row.key)) with
        | .error e => (p, some e)
        | .ok true => insertChunks st budget (i + 1) rest p
        | .ok false =>
          match perform env.fault (.insert i) (p.db.insertSummary row) with
          | .error e => (p, some e)
          | .ok (.error _) => insertChunks st budget (i + 1) rest p
          | .ok (.ok db') =>
            let p' : Progress := ⟨db', p.newSummaries ++ [text], p.cumulative + estimateTokens text⟩
            match perform env.fault (.extraction i) () with
            | .ok () => insertChunks st budget (i + 1) rest p'
            | .error e =>
              if e.caughtBy [.importError, .runtimeError, .valueError, .osError] then
                insertChunks st budget (i + 1) rest p'
              else (p', some e)
      | _, _ => (p, some .indexError)

/-- mirrors build_types/standard_tiered.py:375-589 -/
def compactTier1 (db : Db) (st : AssemblyState) : Db × Except Exn AssemblyState :=
  if st.chunks = [] then (db, .ok { st with tier2Summaries := [] })
  else
    match perform env.fault .summarizer () with
    | .error e => (db, .error e)
    | .ok () =>
      match perform env.fault .chunkPrompt () with
      | .error e =>
        if e.caughtBy [.runtimeError] then
          (db, .ok { st with tier2Summaries := [], error := some (.promptLoading e) })
        else (db, .error e)
      | .ok () =>
        match gatherSummaries env 0 st.chunks with
        | .error e => (db, .error e)
        | .ok results =>
          let dc := extractDeadbandConfig (st.buildTypeConfig.getD {})
          let budget := summaryBudget (st.maxTokenBudget.getD 0) dc
          match insertChunks env st budget 0 results { db } with
          | (p, some e) => (p.db, .error e)
          | (p, none) =>
            (p.db, .ok { st with tier2Summaries := p.newSummaries
                                 hadErrors := st.hadErrors || results.any (·.2.isNone) })

/-! ## Full compaction -/

/-- mirrors build_types/standard_tiered.py:617-629 -/
def consolidated (activeT2 : List Summary) (keepRecent : Int) : List Summary :=
  if 0 < keepRecent then activeT2.take (activeT2.length - keepRecent.toNat) else activeT2

/-- mirrors build_types/standard_tiered.py:685-688 -/
def recentPrompt (toConsolidate : List Summary) : Text :=
  "Consolidate these chunk summaries into a recent archival summary:\n\n".toList ++
    List.intercalate "\n\n".toList (toConsolidate.map (·.summaryText))

/-- mirrors build_types/standard_tiered.py:694-703 -/
def headerPrompt (existingT3 : Option Summary) (recent : Text) : Text :=
  match existingT3.map (·.summaryText) with
  | some (c :: cs) =>
    "[Existing historical header]\n".toList ++ (c :: cs) ++
      "\n\n[New content being archived]\n".toList ++ recent
  | _ => "[First archival — create historical header]\n".toList ++ recent

/-- The header row, keyed (window, 3, 0, 0).
mirrors build_types/standard_tiered.py:740-754 -/
def headerRow (st : AssemblyState) (header : Text) : Summary :=
  { id := 0, conversationId := st.conversationId, contextWindowId := st.contextWindowId
    summaryText := header, tier := .three, fromSeq := 0, toSeq := 0, messageCount := some 0 }

/-- The recent archival row, over the range of the consolidated chunks.
mirrors build_types/standard_tiered.py:756-771 -/
def archivalRow (st : AssemblyState) (toConsolidate : List Summary) (first last : Summary)
    (recent : Text) : Summary :=
  { id := 0, conversationId := st.conversationId, contextWindowId := st.contextWindowId
    summaryText := recent, tier := .three, fromSeq := first.fromSeq, toSeq := last.toSeq
    messageCount := some (total (fun r => r.messageCount.getD 0) toConsolidate) }

/-- The transaction: retire the archival rows and the consolidated chunks,
insert the new header and archival rows. Any exception rolls it back.
mirrors build_types/standard_tiered.py:716-771 -/
def archiveTransaction (db : Db) (st : AssemblyState) (toConsolidate : List Summary)
    (header recent : Text) : Except Exn Db := do
  let db := db.deactivate fun r =>
    r.contextWindowId == st.contextWindowId && r.tier == .three && r.isActive
  let db := db.deactivate fun r => (toConsolidate.map (·.id)).contains r.id
  let db ← db.insertSummary (headerRow st header)
  match toConsolidate.head?, toConsolidate.getLast? with
  | some first, some last => db.insertSummary (archivalRow st toConsolidate first last recent)
  | _, _ => .error .indexError

/-- The `try` block: two LLM calls, then the transaction if both texts are
non-empty. mirrors build_types/standard_tiered.py:682-781 -/
def archive (db : Db) (st : AssemblyState) (toConsolidate : List Summary)
    (existingT3 : Option Summary) : Except Exn (Option (Db × Text)) := do
  let recent ← env.recentReply (recentPrompt toConsolidate)
  let header ← env.headerReply (headerPrompt existingT3 recent)
  if recent = [] ∨ header = [] then return none
  else
    perform env.fault .commit ()
    let db' ← archiveTransaction db st toConsolidate header recent
    return some (db', header ++ "\n\n".toList ++ recent)

/-- mirrors build_types/standard_tiered.py:592-790 -/
def runFullCompaction (db : Db) (st : AssemblyState) : Db × Except Exn AssemblyState :=
  match perform env.fault .activeChunks (orderAsc (·.fromSeq) (db.active st.contextWindowId .two)) with
  | .error e => (db, .error e)
  | .ok activeT2 =>
    let dc := extractDeadbandConfig (st.buildTypeConfig.getD {})
    let keepRecent := dc.tier2MinChunks - 1
    if activeT2.length ≤ dc.tier2MinChunks ∨ activeT2.length ≤ keepRecent then
      (db, .ok { st with tier3Summary := none })
    else
      let toConsolidate := consolidated activeT2 keepRecent
      match perform env.fault .archival (orderDesc (·.toSeq) (db.active st.contextWindowId .three)).head? with
      | .error e => (db, .error e)
      | .ok existingT3 =>
        match perform env.fault .archivalPrompt () with
        | .error e =>
          if e.caughtBy [.runtimeError] then
            (db, .ok { st with tier3Summary := none, error := some (.promptLoading e) })
          else (db, .error e)
        | .ok () =>
          match perform env.fault .archiver () with
          | .error e => (db, .error e)
          | .ok () =>
            match archive env db st toConsolidate existingT3 with
            | .ok (some (db', text)) => (db', .ok { st with tier3Summary := some text })
            | .ok none => (db, .ok { st with tier3Summary := none })
            | .error e =>
              if e.caughtBy [.openaiApiError, .httpxHttpError, .valueError] then
                (db, .ok { st with tier3Summary := none, hadErrors := true })
              else (db, .error e)

/-! ## Finalize and release -/

/-- mirrors build_types/standard_tiered.py:793-820 -/
def finalizeAssembly (db : Db) (st : AssemblyState) : Db × Except Exn AssemblyState :=
  if st.hadErrors then (db, .ok st)
  else
    match perform env.fault .stamp () with
    | .error e => (db, .error e)
    | .ok () => (db.stampAssembled st.contextWindowId env.now, .ok st)

/-- mirrors build_types/standard_tiered.py:823-833 -/
def releaseAssemblyLock (st : AssemblyState) : Except Exn AssemblyState :=
  if st.lockKey ≠ [] ∧ st.lockAcquired then
    match perform env.fault .unlock () with
    | .error e => if e.caughtBy [.valueError, .osError] then .ok st else .error e
    | .ok () => .ok st
  else .ok st

/-! ## The graph -/

structure PassState where
  db : Db
  st : AssemblyState
  deriving DecidableEq

def nodeBody (n : Node) (db : Db) (st : AssemblyState) : Db × Except Exn AssemblyState :=
  match n with
  | .acquireAssemblyLock => (db, acquireAssemblyLock env st)
  | .loadWindowConfig => (db, loadWindowConfig config env db st)
  | .loadMessages => (db, loadMessages config env db st)
  | .calculateCompactionState => (db, calculateCompactionState config env db st)
  | .compactTier1 => compactTier1 env db st
  | .runFullCompaction => runFullCompaction env db st
  | .finalizeAssembly => finalizeAssembly env db st
  | .releaseAssemblyLock => (db, releaseAssemblyLock env st)

/-- A node, then what other tasks stored while it ran. -/
def node (n : Node) (s : PassState) : PassState × Option Exn :=
  match nodeBody config env n s.db s.st with
  | (db, .ok st) => (⟨db.storeAll (env.arrivals n), st⟩, none)
  | (db, .error e) => (⟨db.storeAll (env.arrivals n), s.st⟩, some e)

end Nodes

/-- The routers and the plain edges.
mirrors build_types/standard_tiered.py:836-932 -/
def route (n : Node) (s : PassState) : Option Node :=
  match n with
  | .acquireAssemblyLock => if s.st.lockAcquired then some .loadWindowConfig else none
  | .loadWindowConfig =>
    if s.st.error.isSome then some .releaseAssemblyLock else some .loadMessages
  | .loadMessages =>
    if s.st.error.isSome then some .releaseAssemblyLock
    else if s.st.allMessages = [] then some .finalizeAssembly
    else some .calculateCompactionState
  | .calculateCompactionState =>
    if s.st.error.isSome then some .releaseAssemblyLock
    else if s.st.chunks = [] then some .runFullCompaction
    else some .compactTier1
  | .compactTier1 =>
    if s.st.error.isSome then some .releaseAssemblyLock
    else if s.st.tier2AtMax then some .runFullCompaction
    else some .finalizeAssembly
  | .runFullCompaction => some .finalizeAssembly
  | .finalizeAssembly => some .releaseAssemblyLock
  | .releaseAssemblyLock => none

/-- The edges of the graph, each with the test that takes it. -/
inductive Edge (st : AssemblyState) : Node → Node → Prop where
  | locked (h : st.lockAcquired = true) : Edge st .acquireAssemblyLock .loadWindowConfig
  | configFailed (h : st.error.isSome = true) : Edge st .loadWindowConfig .releaseAssemblyLock
  | configured (h : st.error = none) : Edge st .loadWindowConfig .loadMessages
  | loadFailed (h : st.error.isSome = true) : Edge st .loadMessages .releaseAssemblyLock
  | noneLoaded (h : st.error = none) (hnil : st.allMessages = []) :
    Edge st .loadMessages .finalizeAssembly
  | loaded (h : st.error = none) (hne : st.allMessages ≠ []) :
    Edge st .loadMessages .calculateCompactionState
  | partitionFailed (h : st.error.isSome = true) :
    Edge st .calculateCompactionState .releaseAssemblyLock
  | noChunks (h : st.error = none) (hnil : st.chunks = []) :
    Edge st .calculateCompactionState .runFullCompaction
  | chunked (h : st.error = none) (hne : st.chunks ≠ []) :
    Edge st .calculateCompactionState .compactTier1
  | chunksFailed (h : st.error.isSome = true) : Edge st .compactTier1 .releaseAssemblyLock
  | tier2Full (h : st.error = none) (hmax : st.tier2AtMax = true) :
    Edge st .compactTier1 .runFullCompaction
  | tier2Open (h : st.error = none) (hmax : st.tier2AtMax = false) :
    Edge st .compactTier1 .finalizeAssembly
  | compacted : Edge st .runFullCompaction .finalizeAssembly
  | finalized : Edge st .finalizeAssembly .releaseAssemblyLock

theorem edge_of_route {n m : Node} {s : PassState} (h : route n s = some m) : Edge s.st n m := by
  have hnone : ¬ s.st.error.isSome = true → s.st.error = none := Option.not_isSome_iff_eq_none.mp
  cases n with
  | acquireAssemblyLock =>
    simp only [route] at h
    split at h
    · cases h
      exact .locked ‹_›
    · cases h
  | loadWindowConfig =>
    simp only [route] at h
    split at h <;> cases h
    · exact .configFailed ‹_›
    · exact .configured (hnone ‹_›)
  | loadMessages =>
    simp only [route] at h
    split at h <;> [skip; split at h] <;> cases h
    · exact .loadFailed ‹_›
    · exact .noneLoaded (hnone ‹_›) ‹_›
    · exact .loaded (hnone ‹_›) ‹_›
  | calculateCompactionState =>
    simp only [route] at h
    split at h <;> [skip; split at h] <;> cases h
    · exact .partitionFailed ‹_›
    · exact .noChunks (hnone ‹_›) ‹_›
    · exact .chunked (hnone ‹_›) ‹_›
  | compactTier1 =>
    simp only [route] at h
    split at h <;> [skip; split at h] <;> cases h
    · exact .chunksFailed ‹_›
    · exact .tier2Full (hnone ‹_›) ‹_›
    · rename_i hne hmax
      exact .tier2Open (hnone hne) (Bool.eq_false_iff.mpr hmax)
  | runFullCompaction =>
    cases h
    exact .compacted
  | finalizeAssembly =>
    cases h
    exact .finalized
  | releaseAssemblyLock => cases h

/-- Only the release, and the acquisition of a lock that is not free, end a
pass normally. -/
theorem route_eq_none {n : Node} {s : PassState} (h : route n s = none) :
    n = .releaseAssemblyLock ∨ n = .acquireAssemblyLock ∧ s.st.lockAcquired = false := by
  cases n with
  | acquireAssemblyLock =>
    simp only [route] at h
    split at h
    · cases h
    · rename_i hnot
      exact .inr ⟨rfl, by simpa using hnot⟩
  | releaseAssemblyLock => exact .inl rfl
  | loadWindowConfig => simp only [route] at h; split at h <;> cases h
  | loadMessages => simp only [route] at h; split at h <;> [skip; split at h] <;> cases h
  | calculateCompactionState => simp only [route] at h; split at h <;> [skip; split at h] <;> cases h
  | compactTier1 => simp only [route] at h; split at h <;> [skip; split at h] <;> cases h
  | runFullCompaction => cases h
  | finalizeAssembly => cases h

def Node.rank : Node → Nat
  | .acquireAssemblyLock => 7
  | .loadWindowConfig => 6
  | .loadMessages => 5
  | .calculateCompactionState => 4
  | .compactTier1 => 3
  | .runFullCompaction => 2
  | .finalizeAssembly => 1
  | .releaseAssemblyLock => 0

theorem rank_lt (n : Node) (s : PassState) (m : Node) (h : route n s = some m) : m.rank < n.rank := by
  cases edge_of_route h <;> decide

/-- mirrors build_types/standard_tiered.py:875-932 -/
def assemblyGraph (config : Config) (env : Env) : StateGraph Node PassState Exn where
  entry := .acquireAssemblyLock
  node := node config env
  route := route
  rank := Node.rank
  rank_lt := rank_lt

/-- One invocation for window `w` of conversation `c`. -/
def assemble (config : Config) (env : Env) (db : Db) (w c : Id) :
    StateGraph.Outcome Node PassState Exn :=
  (assemblyGraph config env).invoke ⟨db, { contextWindowId := w, conversationId := c }⟩

end ContextBroker.StandardTiered
