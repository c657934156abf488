import ContextBroker.L3Assembly.Runs
import Mathlib.Logic.Relation

/-!
# A pass, statement by statement

The nodes of the standard-tiered graph with one database call for each step,
so that anything can happen between two of them: between the two fetches of
`load_messages` and of `calculate_compaction_state`, between the check for a
duplicate and the insert, and between the fetches of `run_full_compaction`
and its transaction.

`alone_assemble`: with nothing in between, a pass is `assemble`.
-/
namespace ContextBroker.ConcurrentPasses

open Rows StandardTiered

/-! ## The nodes in parts -/

section Parts

variable (config : Config) (env : Env)

/-- `load_messages` with what its two fetches returned.
mirrors build_types/standard_tiered.py:204-262 -/
def loadWith (count : Except Exn Nat) (rows : Except Exn (List Message)) (st : AssemblyState) :
    Except Exn AssemblyState := do
  let limit ← loadLimit config (st.buildTypeConfig.getD {}) (st.maxTokenBudget.getD 8192) count
  let rows ← limitRows (← rows) limit
  return { st with allMessages := rows.reverse }

/-- `calculate_compaction_state` with what its two fetches returned.
mirrors build_types/standard_tiered.py:265-372 -/
def calculateWith (count : Except Exn Nat) (newest : Except Exn (Option Summary)) (st : AssemblyState) :
    Except Exn AssemblyState := do
  if st.allMessages = [] then
    return { st with tier1Messages := [], olderMessages := [], chunks := [] }
  let bt ← require st.buildTypeConfig
  let maxBudget ← require st.maxTokenBudget
  let dc := extractDeadbandConfig bt
  let currentT2Count ← count
  let tier1 := fillTier1 (calculateTier1Ceiling maxBudget dc (some currentT2Count)) st.allMessages
  let startSeq := tier1StartSeq st.allMessages tier1
  let older := st.allMessages.filter fun m => m.sequenceNumber < startSeq
  if older = [] then
    return { st with tier1Messages := tier1, olderMessages := [], chunks := [], tier2AtMax := false }
  let existingT2 ← newest
  let maxSummarizedSeq := (existingT2.map (·.toSeq)).getD 0
  let unsummarized := older.filter fun m => maxSummarizedSeq < m.sequenceNumber
  let chunks ← chunksOf (getTuning config .chunkSize 20) unsummarized
  return { st with tier1Messages := tier1, olderMessages := older, chunks
                   tier2AtMax := dc.tier2MaxChunks ≤ currentT2Count }

end Parts

/-! ## One pass -/

/-- The locals of the insert loop, without the database. -/
structure Locals where
  newSummaries : List Text := []
  cumulative : Nat := 0
  hadErrors : Bool := false

/-- The statement a pass executes next, with the locals of its node. -/
inductive Pc where
  | lock | window | summaryCount
  | messages (count : Except Exn Nat)
  | chunkCount
  | watermark (count : Except Exn Nat)
  | summarize
  /-- The loop has come to chunk index `i`. -/
  | check (i : Nat) (rest : List (List Message × Option Text)) (locals : Locals)
  | insert (i : Nat) (row : Summary) (rest : List (List Message × Option Text)) (locals : Locals)
  | activeChunks
  | archival (toConsolidate : List Summary)
  | commit (toConsolidate : List Summary) (existingT3 : Option Summary)
  | stamp | unlock | ended

/-- History: what a pass read of the conversation and its rows when it cut
its chunks, with the ids of the chunk rows that were active. -/
structure Plan where
  mark : Nat
  seen : List Id
  loaded : List Message
  chunks : List (List Message)

structure Pass where
  config : Config
  env : Env
  st : AssemblyState
  pc : Pc := .lock
  plan : Option Plan := none
  /-- History: the ids of the chunk rows it has stored. -/
  wrote : List Id := []

/-- The first statement of a node. -/
def entry : Node → Pc
  | .acquireAssemblyLock => .lock
  | .loadWindowConfig => .window
  | .loadMessages => .summaryCount
  | .calculateCompactionState => .chunkCount
  | .compactTier1 => .summarize
  | .runFullCompaction => .activeChunks
  | .finalizeAssembly => .stamp
  | .releaseAssemblyLock => .unlock

namespace Pass

/-- The pass leaves a node: an exception ends it where it is. -/
def leave (t : Pass) (n : Node) : Except Exn AssemblyState → Pass
  | .error _ => { t with pc := .ended }
  | .ok st => { t with st, pc := ((route n ⟨{}, st⟩).map entry).getD .ended }

/-- `compact_tier1` up to the first statement of its insert loop.
mirrors build_types/standard_tiered.py:375-455 -/
def summarize (t : Pass) : Pass :=
  if t.st.chunks = [] then t.leave .compactTier1 (.ok { t.st with tier2Summaries := [] })
  else
    match perform t.env.fault .summarizer () with
    | .error e => t.leave .compactTier1 (.error e)
    | .ok () =>
      match perform t.env.fault .chunkPrompt () with
      | .error e =>
        if e.caughtBy [.runtimeError] then
          t.leave .compactTier1 (.ok { t.st with tier2Summaries := [], error := some (.promptLoading e) })
        else t.leave .compactTier1 (.error e)
      | .ok () =>
        match gatherSummaries t.env 0 t.st.chunks with
        | .error e => t.leave .compactTier1 (.error e)
        | .ok results => { t with pc := .check 0 results { hadErrors := results.any (·.2.isNone) } }

def budget (t : Pass) : Int :=
  summaryBudget (t.st.maxTokenBudget.getD 0) (extractDeadbandConfig (t.st.buildTypeConfig.getD {}))

/-- After the insert loop. -/
def inserted (t : Pass) (locals : Locals) : Pass :=
  t.leave .compactTier1 (.ok { t.st with tier2Summaries := locals.newSummaries
                                         hadErrors := t.st.hadErrors || locals.hadErrors })

/-- The check for a chunk row with the same range.
mirrors build_types/standard_tiered.py:457-499 -/
def check (t : Pass) (db : Db) (i : Nat) (locals : Locals) : List (List Message × Option Text) → Pass
  | [] => t.inserted locals
  | (_, none) :: rest => { t with pc := .check (i + 1) rest locals }
  | (chunk, some text) :: rest =>
    if 0 < t.budget ∧ t.budget < locals.cumulative + estimateTokens text then t.inserted locals
    else
      match chunk.head?, chunk.getLast? with
      | some first, some last =>
        let row := chunkRow t.st chunk first last text
        match perform t.env.fault (.dup i) ((db.active t.st.contextWindowId .two).any (·.key == row.key)) with
        | .error e => t.leave .compactTier1 (.error e)
        | .ok true => { t with pc := .check (i + 1) rest locals }
        | .ok false => { t with pc := .insert i row rest locals }
      | _, _ => t.leave .compactTier1 (.error .indexError)

/-- The insert, and the extraction after it.
mirrors build_types/standard_tiered.py:501-579 -/
def insert (t : Pass) (db : Db) (i : Nat) (row : Summary) (rest : List (List Message × Option Text))
    (locals : Locals) : Db × Pass :=
  match perform t.env.fault (.insert i) (db.insertSummary row) with
  | .error e => (db, t.leave .compactTier1 (.error e))
  | .ok (.error _) => (db, { t with pc := .check (i + 1) rest locals })
  | .ok (.ok db') =>
    let t := { t with wrote := t.wrote ++ [db.nextId] }
    let locals := { locals with newSummaries := locals.newSummaries ++ [row.summaryText]
                                cumulative := locals.cumulative + estimateTokens row.summaryText }
    match perform t.env.fault (.extraction i) () with
    | .ok () => (db', { t with pc := .check (i + 1) rest locals })
    | .error e =>
      if e.caughtBy [.importError, .runtimeError, .valueError, .osError] then
        (db', { t with pc := .check (i + 1) rest locals })
      else (db', t.leave .compactTier1 (.error e))

/-- The first fetch of `run_full_compaction`.
mirrors build_types/standard_tiered.py:602-629 -/
def activeChunks (t : Pass) (db : Db) : Pass :=
  match perform t.env.fault .activeChunks (orderAsc (·.fromSeq) (db.active t.st.contextWindowId .two)) with
  | .error e => t.leave .runFullCompaction (.error e)
  | .ok activeT2 =>
    let dc := extractDeadbandConfig (t.st.buildTypeConfig.getD {})
    let keepRecent := dc.tier2MinChunks - 1
    if activeT2.length ≤ dc.tier2MinChunks ∨ activeT2.length ≤ keepRecent then
      t.leave .runFullCompaction (.ok { t.st with tier3Summary := none })
    else { t with pc := .archival (consolidated activeT2 keepRecent) }

/-- The second fetch, up to the transaction.
mirrors build_types/standard_tiered.py:631-680 -/
def archival (t : Pass) (db : Db) (toConsolidate : List Summary) : Pass :=
  match perform t.env.fault .archival (orderDesc (·.toSeq) (db.active t.st.contextWindowId .three)).head? with
  | .error e => t.leave .runFullCompaction (.error e)
  | .ok existingT3 =>
    match perform t.env.fault .archivalPrompt () with
    | .error e =>
      if e.caughtBy [.runtimeError] then
        t.leave .runFullCompaction (.ok { t.st with tier3Summary := none, error := some (.promptLoading e) })
      else t.leave .runFullCompaction (.error e)
    | .ok () =>
      match perform t.env.fault .archiver () with
      | .error e => t.leave .runFullCompaction (.error e)
      | .ok () => { t with pc := .commit toConsolidate existingT3 }

/-- The two LLM calls and the transaction.
mirrors build_types/standard_tiered.py:682-790 -/
def commit (t : Pass) (db : Db) (toConsolidate : List Summary) (existingT3 : Option Summary) : Db × Pass :=
  match archive t.env db t.st toConsolidate existingT3 with
  | .ok (some (db', text)) => (db', t.leave .runFullCompaction (.ok { t.st with tier3Summary := some text }))
  | .ok none => (db, t.leave .runFullCompaction (.ok { t.st with tier3Summary := none }))
  | .error e =>
    if e.caughtBy [.openaiApiError, .httpxHttpError, .valueError] then
      (db, t.leave .runFullCompaction (.ok { t.st with tier3Summary := none, hadErrors := true }))
    else (db, t.leave .runFullCompaction (.error e))

/-- The second fetch of `calculate_compaction_state`. What is read here and what
comes of it is remembered. -/
def partition (t : Pass) (db : Db) (count : Except Exn Nat) : Pass :=
  let active := db.active t.st.contextWindowId .two
  match calculateWith t.config count (perform t.env.fault .watermark (orderDesc (·.toSeq) active).head?) t.st with
  | .error e => t.leave .calculateCompactionState (.error e)
  | .ok st =>
    let plan := { mark := db.watermark t.st.contextWindowId, seen := active.map (·.id), loaded := st.allMessages
                  chunks := st.chunks }
    { t with plan := some plan }.leave .calculateCompactionState (.ok st)

/-- One statement. -/
def exec (db : Db) (t : Pass) : Db × Pass :=
  match t.pc with
  | .lock => (db, t.leave .acquireAssemblyLock (acquireAssemblyLock t.env t.st))
  | .window => (db, t.leave .loadWindowConfig (loadWindowConfig t.config t.env db t.st))
  | .summaryCount =>
    (db, { t with pc := .messages (perform t.env.fault .summaryCount (db.summariesOf t.st.contextWindowId).length) })
  | .messages count =>
    (db, t.leave .loadMessages
      (loadWith t.config count (perform t.env.fault .messages (db.newestFirst t.st.conversationId)) t.st))
  | .chunkCount =>
    (db, { t with pc := .watermark (perform t.env.fault .chunkCount (db.active t.st.contextWindowId .two).length) })
  | .watermark count => (db, t.partition db count)
  | .summarize => (db, t.summarize)
  | .check i rest locals => (db, t.check db i locals rest)
  | .insert i row rest locals => t.insert db i row rest locals
  | .activeChunks => (db, t.activeChunks db)
  | .archival toConsolidate => (db, t.archival db toConsolidate)
  | .commit toConsolidate existingT3 => t.commit db toConsolidate existingT3
  | .stamp =>
    let (db', out) := finalizeAssembly t.env db t.st
    (db', t.leave .finalizeAssembly out)
  | .unlock => (db, t.leave .releaseAssemblyLock (releaseAssemblyLock t.env t.st))
  | .ended => (db, t)

end Pass

/-! ## Alone -/

/-- Some statements of a pass, with nothing in between. -/
def Steps : Db × Pass → Db × Pass → Prop := Relation.ReflTransGen fun x y => Pass.exec x.1 x.2 = y

/-- Without its history. -/
def Pass.forget (t : Pass) : Pass := { t with plan := none, wrote := [] }

section Alone

variable {config : Config} {env : Env} {db db' : Db} {t t' u : Pass} {n : Node}

/-- The pass comes, on its own, to `db'` and to a pass like `u`. -/
def Leads (db : Db) (t : Pass) (db' : Db) (u : Pass) : Prop :=
  ∃ t', Steps (db, t) (db', t') ∧ t'.forget = u.forget

theorem Leads.stay (h : t.forget = u.forget) : Leads db t db u := ⟨t, .refl, h⟩

theorem Leads.step {db₁ : Db} {t₁ : Pass} (h : t.exec db = (db₁, t₁)) (hrest : Leads db₁ t₁ db' u) :
    Leads db t db' u := by
  obtain ⟨t', hsteps, hsame⟩ := hrest
  exact ⟨t', .head h hsteps, hsame⟩

theorem Leads.next (h : Leads (t.exec db).1 (t.exec db).2 db' u) : Leads db t db' u := .step rfl h

theorem Leads.congr (h : Leads db t db' t') (hsame : t'.forget = u.forget) : Leads db t db' u := by
  obtain ⟨x, hsteps, hx⟩ := h
  exact ⟨x, hsteps, hx.trans hsame⟩

/-- Leaving a node, a pass forgets where it was. -/
theorem forget_leave (t : Pass) (pc : Pc) (plan : Option Plan) (wrote : List Id) (out : Except Exn AssemblyState) :
    ({ t with pc, plan, wrote }.leave n out).forget = (t.leave n out).forget := by
  cases out <;> rfl

/-- How the insert loop leaves the node. -/
def Pass.loopEnd (t : Pass) (hadErrors : Bool) : Progress × Option Exn → Pass
  | (_, some e) => t.leave .compactTier1 (.error e)
  | (p, none) => t.inserted { newSummaries := p.newSummaries, cumulative := p.cumulative, hadErrors }

theorem forget_loopEnd (t : Pass) (pc : Pc) (wrote : List Id) (hadErrors : Bool) (out : Progress × Option Exn) :
    ({ t with pc, wrote }.loopEnd hadErrors out).forget = (t.loopEnd hadErrors out).forget := by
  obtain ⟨p, e⟩ := out
  cases e <;> rfl

/-- The insert of a row and what comes after it, if the rest of the loop is
as it should be. -/
theorem insert_alone {i : Nat} {row : Summary} {text : Text} {rest : List (List Message × Option Text)}
    {locals : Locals} (htext : row.summaryText = text)
    (hskip : Leads db { t with pc := .check (i + 1) rest locals }
      (insertChunks t.env t.st t.budget (i + 1) rest ⟨db, locals.newSummaries, locals.cumulative⟩).1.db
      (t.loopEnd locals.hadErrors
        (insertChunks t.env t.st t.budget (i + 1) rest ⟨db, locals.newSummaries, locals.cumulative⟩)))
    (ih : ∀ (i : Nat) (locals : Locals) (db : Db) (t : Pass), t.pc = .check i rest locals →
      Leads db t (insertChunks t.env t.st t.budget i rest ⟨db, locals.newSummaries, locals.cumulative⟩).1.db
        (t.loopEnd locals.hadErrors
          (insertChunks t.env t.st t.budget i rest ⟨db, locals.newSummaries, locals.cumulative⟩))) :
    let out := match perform t.env.fault (.insert i) (db.insertSummary row) with
      | .error e => (⟨db, locals.newSummaries, locals.cumulative⟩, some e)
      | .ok (.error _) =>
        insertChunks t.env t.st t.budget (i + 1) rest ⟨db, locals.newSummaries, locals.cumulative⟩
      | .ok (.ok db') =>
        let p' : Progress := ⟨db', locals.newSummaries ++ [text], locals.cumulative + estimateTokens text⟩
        match perform t.env.fault (.extraction i) () with
        | .ok () => insertChunks t.env t.st t.budget (i + 1) rest p'
        | .error e =>
          if e.caughtBy [.importError, .runtimeError, .valueError, .osError] then
            insertChunks t.env t.st t.budget (i + 1) rest p'
          else (p', some e)
    Leads db { t with pc := .insert i row rest locals } out.1.db (t.loopEnd locals.hadErrors out) := by
  intro out
  have hinsert : Pass.exec db { t with pc := .insert i row rest locals } =
      Pass.insert { t with pc := .insert i row rest locals } db i row rest locals := rfl
  refine .step hinsert ?_
  simp only [out, htext]
  cases perform t.env.fault (.insert i) (db.insertSummary row) with
  | error e => exact .stay (forget_leave t _ t.plan t.wrote _)
  | ok result =>
    cases result with
    | error e => exact hskip
    | ok db' =>
      let locals' : Locals :=
        ⟨locals.newSummaries ++ [text], locals.cumulative + estimateTokens text, locals.hadErrors⟩
      have hnext := (ih (i + 1) locals' db' { t with pc := .check (i + 1) rest locals'
                                                     wrote := t.wrote ++ [db.nextId] } rfl).congr
        (forget_loopEnd t _ _ _ _)
      dsimp only
      cases perform t.env.fault (.extraction i) () with
      | ok u => exact hnext
      | error e =>
        dsimp only
        split
        · exact hnext
        · exact .stay (forget_leave t _ t.plan _ _)

theorem loop_alone (rest : List (List Message × Option Text)) (i : Nat) (locals : Locals) (db : Db) (t : Pass)
    (hpc : t.pc = .check i rest locals) :
    Leads db t (insertChunks t.env t.st t.budget i rest ⟨db, locals.newSummaries, locals.cumulative⟩).1.db
      (t.loopEnd locals.hadErrors
        (insertChunks t.env t.st t.budget i rest ⟨db, locals.newSummaries, locals.cumulative⟩)) := by
  induction rest generalizing i locals db t with
  | nil =>
    have hdone : t.exec db = (db, t.inserted locals) := by simp only [Pass.exec, hpc, Pass.check]
    exact .step hdone (.stay rfl)
  | cons x rest ih =>
    obtain ⟨chunk, reply⟩ := x
    have hcheck : t.exec db = (db, t.check db i locals ((chunk, reply) :: rest)) := by simp only [Pass.exec, hpc]
    have hskip := (ih (i + 1) locals db { t with pc := .check (i + 1) rest locals } rfl).congr
      (forget_loopEnd t _ t.wrote _ _)
    cases reply with
    | none => exact .step hcheck hskip
    | some text =>
      refine .step hcheck ?_
      simp only [Pass.check, insertChunks]
      by_cases hguard : 0 < t.budget ∧ t.budget < locals.cumulative + estimateTokens text
      · simp only [if_pos hguard]
        exact .stay rfl
      simp only [if_neg hguard]
      cases chunk.head? with
      | none => exact .stay rfl
      | some first =>
        cases chunk.getLast? with
        | none => exact .stay rfl
        | some last =>
          dsimp only
          generalize hrow : chunkRow t.st chunk first last text = row
          have htext : row.summaryText = text := hrow ▸ rfl
          cases perform t.env.fault (.dup i) ((db.active t.st.contextWindowId .two).any (·.key == row.key)) with
          | error e => exact .stay rfl
          | ok known =>
            cases known with
            | true => exact hskip
            | false => exact insert_alone htext hskip ih

theorem calculate_parts (config : Config) (env : Env) (db : Db) (st : AssemblyState) :
    calculateCompactionState config env db st =
      calculateWith config (perform env.fault .chunkCount (db.active st.contextWindowId .two).length)
        (perform env.fault .watermark (orderDesc (·.toSeq) (db.active st.contextWindowId .two)).head?) st := rfl

theorem summarize_alone (db : Db) (t : Pass) (hpc : t.pc = .summarize) :
    Leads db t (compactTier1 t.env db t.st).1 (t.leave .compactTier1 (compactTier1 t.env db t.st).2) := by
  have hstep : t.exec db = (db, t.summarize) := by simp only [Pass.exec, hpc]
  refine .step hstep ?_
  unfold Pass.summarize compactTier1
  by_cases hnil : t.st.chunks = []
  · simp only [if_pos hnil]
    exact .stay rfl
  simp only [if_neg hnil]
  cases perform t.env.fault .summarizer () with
  | error e => exact .stay rfl
  | ok u =>
    cases perform t.env.fault .chunkPrompt () with
    | error e =>
      dsimp only
      split
      · exact .stay rfl
      · exact .stay rfl
    | ok u =>
      cases gatherSummaries t.env 0 t.st.chunks with
      | error e => exact .stay rfl
      | ok results =>
        have hloop := loop_alone results 0 { hadErrors := results.any (·.2.isNone) } db
          { t with pc := .check 0 results { hadErrors := results.any (·.2.isNone) } } rfl
        change Leads db _ (insertChunks t.env t.st t.budget 0 results { db }).1.db
          (Pass.loopEnd _ _ (insertChunks t.env t.st t.budget 0 results { db })) at hloop
        have hbudget : summaryBudget (t.st.maxTokenBudget.getD 0)
            (extractDeadbandConfig (t.st.buildTypeConfig.getD {})) = t.budget := rfl
        dsimp only
        rw [hbudget]
        generalize insertChunks t.env t.st t.budget 0 results { db } = out at hloop ⊢
        obtain ⟨p, e⟩ := out
        cases e with
        | none => exact hloop.congr (forget_loopEnd t _ t.wrote _ (p, none))
        | some e => exact hloop.congr (forget_loopEnd t _ t.wrote _ (p, some e))

/-- The LLM calls and the transaction end the node. -/
theorem commit_alone (db : Db) (t : Pass) (toConsolidate : List Summary) (existingT3 : Option Summary) :
    let out : Db × Except Exn AssemblyState := match archive t.env db t.st toConsolidate existingT3 with
      | .ok (some (db', text)) => (db', .ok { t.st with tier3Summary := some text })
      | .ok none => (db, .ok { t.st with tier3Summary := none })
      | .error e =>
        if e.caughtBy [.openaiApiError, .httpxHttpError, .valueError] then
          (db, .ok { t.st with tier3Summary := none, hadErrors := true })
        else (db, .error e)
    Leads db { t with pc := .commit toConsolidate existingT3 } out.1 (t.leave .runFullCompaction out.2) := by
  intro out
  have hcommit : Pass.exec db { t with pc := .commit toConsolidate existingT3 } =
      Pass.commit { t with pc := .commit toConsolidate existingT3 } db toConsolidate existingT3 := rfl
  refine .next ?_
  rw [hcommit]
  simp only [out, Pass.commit]
  cases archive t.env db t.st toConsolidate existingT3 with
  | ok result =>
    cases result with
    | some found => exact .stay (forget_leave t _ t.plan t.wrote _)
    | none => exact .stay (forget_leave t _ t.plan t.wrote _)
  | error e =>
    dsimp only
    split
    · exact .stay (forget_leave t _ t.plan t.wrote _)
    · exact .stay (forget_leave t _ t.plan t.wrote _)

theorem compaction_alone (db : Db) (t : Pass) (hpc : t.pc = .activeChunks) :
    Leads db t (runFullCompaction t.env db t.st).1
      (t.leave .runFullCompaction (runFullCompaction t.env db t.st).2) := by
  have hstep : t.exec db = (db, t.activeChunks db) := by simp only [Pass.exec, hpc]
  refine .step hstep ?_
  unfold Pass.activeChunks runFullCompaction
  cases perform t.env.fault .activeChunks (orderAsc (·.fromSeq) (db.active t.st.contextWindowId .two)) with
  | error e => exact .stay rfl
  | ok activeT2 =>
    dsimp only
    split
    · exact .stay rfl
    · generalize consolidated activeT2 _ = toConsolidate
      refine .next ?_
      change Leads db (Pass.archival { t with pc := .archival toConsolidate } db toConsolidate) _ _
      unfold Pass.archival
      cases perform t.env.fault .archival (orderDesc (·.toSeq) (db.active t.st.contextWindowId .three)).head? with
      | error e => exact .stay (forget_leave t _ t.plan t.wrote _)
      | ok existingT3 =>
        cases perform t.env.fault .archivalPrompt () with
        | error e =>
          dsimp only
          split
          · exact .stay (forget_leave t _ t.plan t.wrote _)
          · exact .stay (forget_leave t _ t.plan t.wrote _)
        | ok u =>
          cases perform t.env.fault .archiver () with
          | error e => exact .stay (forget_leave t _ t.plan t.wrote _)
          | ok u => exact commit_alone db t toConsolidate existingT3

/-- **A node alone** does what the node does. -/
theorem node_alone (n : Node) (db : Db) (t : Pass) (hpc : t.pc = entry n) :
    Leads db t (nodeBody t.config t.env n db t.st).1 (t.leave n (nodeBody t.config t.env n db t.st).2) := by
  obtain ⟨config, env, st, pc, plan, wrote⟩ := t
  obtain rfl : pc = entry n := hpc
  cases n with
  | acquireAssemblyLock => exact .next (.stay rfl)
  | loadWindowConfig => exact .next (.stay rfl)
  | loadMessages => exact .next (.next (.stay (forget_leave ⟨config, env, st, .lock, plan, wrote⟩ _ _ _ _)))
  | calculateCompactionState =>
    refine .next (.next (.stay ?_))
    simp only [nodeBody, calculate_parts]
    show (Pass.partition ⟨config, env, st, _, plan, wrote⟩ db _).forget = _
    unfold Pass.partition
    dsimp only
    cases calculateWith config (perform env.fault .chunkCount (db.active st.contextWindowId .two).length)
        (perform env.fault .watermark (orderDesc (·.toSeq) (db.active st.contextWindowId .two)).head?) st with
    | error e => exact forget_leave ⟨config, env, st, .chunkCount, plan, wrote⟩ _ _ _ _
    | ok st' => exact forget_leave ⟨config, env, st, .chunkCount, plan, wrote⟩ _ _ _ _
  | compactTier1 => exact summarize_alone db _ rfl
  | runFullCompaction => exact compaction_alone db _ rfl
  | finalizeAssembly => exact .next (.stay rfl)
  | releaseAssemblyLock => exact .next (.stay rfl)

theorem Leads.trans {db'' : Db} (h : Leads db t db' t')
    (h' : ∀ x : Pass, x.forget = t'.forget → Leads db' x db'' u) : Leads db t db'' u := by
  obtain ⟨x, hsteps, hx⟩ := h
  obtain ⟨y, hsteps', hy⟩ := h' x hx
  exact ⟨y, hsteps.trans hsteps', hy⟩

theorem route_congr (n : Node) (db db' : Db) (st : AssemblyState) : route n ⟨db, st⟩ = route n ⟨db', st⟩ := by
  cases n <;> rfl

/-- From the entry of a node on, a pass alone runs like the graph. -/
theorem runFrom_alone (n : Node) (db : Db) (t : Pass) (harrivals : ∀ n, t.env.arrivals n = [])
    (hpc : t.pc = entry n) :
    Leads db t ((assemblyGraph t.config t.env).runFrom n ⟨db, t.st⟩).final.db
      { t with st := ((assemblyGraph t.config t.env).runFrom n ⟨db, t.st⟩).final.st, pc := .ended } := by
  induction hk : n.rank using Nat.strongRecOn generalizing n db t with
  | ind k ih =>
    refine (node_alone n db t hpc).trans fun x hx => ?_
    have hnode : (assemblyGraph t.config t.env).node n ⟨db, t.st⟩ = node t.config t.env n ⟨db, t.st⟩ := rfl
    rw [StateGraph.runFrom_eq, hnode]
    unfold node
    simp only [harrivals, Db.storeAll, List.foldl_nil]
    generalize nodeBody t.config t.env n db t.st = out at hx ⊢
    obtain ⟨db', result⟩ := out
    cases result with
    | error e => exact .stay hx
    | ok st' =>
      dsimp only at hx ⊢
      rw [show (assemblyGraph t.config t.env).route n ⟨db', st'⟩ = route n ⟨{}, st'⟩ from route_congr n _ _ _]
      simp only [Pass.leave] at hx
      cases hroute : route n ⟨{}, st'⟩ with
      | none =>
        rw [hroute] at hx
        exact .stay hx
      | some m =>
        rw [hroute] at hx
        obtain ⟨config, env, st, pc, plan, wrote⟩ := x
        obtain ⟨rfl, rfl, rfl, rfl⟩ : config = t.config ∧ env = t.env ∧ st = st' ∧ pc = entry m := by
          injection hx with hconfig henv hst hpc
          exact ⟨hconfig, henv, hst, hpc⟩
        have hlt : m.rank < k := hk ▸ rank_lt n _ m hroute
        exact (ih m.rank hlt m db' ⟨t.config, t.env, st, entry m, plan, wrote⟩ harrivals rfl rfl).congr rfl

/-- **A pass alone is `assemble`**: when nothing else happens between its
statements, it ends with the tables and the state of one invocation. -/
theorem alone_assemble (config : Config) (env : Env) (harrivals : ∀ n, env.arrivals n = []) (db : Db) (w c : Id) :
    Leads db { config, env, st := { contextWindowId := w, conversationId := c } }
      (assemble config env db w c).final.db
      { config, env, st := (assemble config env db w c).final.st, pc := .ended } :=
  runFrom_alone .acquireAssemblyLock db { config, env, st := { contextWindowId := w, conversationId := c } }
    harrivals rfl

/-- Three messages, and a pass that compacts the oldest. -/
theorem alone_assemble_chat :
    Leads (broker.run (opened .tieredSummary 8 ++ chat 3 8))
      { config := defaultConfig, env := calm ['s'], st := { contextWindowId := 1, conversationId := 0 } }
      (assemble defaultConfig (calm ['s']) (broker.run (opened .tieredSummary 8 ++ chat 3 8)) 1 0).final.db
      { config := defaultConfig, env := calm ['s']
        st := (assemble defaultConfig (calm ['s']) (broker.run (opened .tieredSummary 8 ++ chat 3 8)) 1 0).final.st
        pc := .ended } :=
  alone_assemble defaultConfig (calm ['s']) (fun _ => rfl) _ 1 0

end Alone

end ContextBroker.ConcurrentPasses
