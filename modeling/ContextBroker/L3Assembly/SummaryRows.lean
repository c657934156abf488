import ContextBroker.L3Assembly.Course

/-!
# The rows the compaction nodes write

`compactTier1_rows`: `compact_tier1` appends one active tier-2 row for each
chunk it keeps, in order, and changes no other row; what it keeps are the
replies the budget guard admits (`admitted`).

`chunkRanges` are the ranges of all chunk rows of a window, active or
retired, in insertion order. `SameMessages`: no node changes a message.
-/
namespace ContextBroker

open Rows

def Summary.range (r : Summary) : Nat × Nat := (r.fromSeq, r.toSeq)

/-- The ranges of the tier-2 rows of window `w`, retired ones included. -/
def Db.chunkRanges (db : Db) (w : Id) : List (Nat × Nat) :=
  ((db.summariesOf w).filter (·.tier == .two)).map Summary.range

namespace StandardTiered

variable {config : Config} {env : Env} {db db' : Db} {st : AssemblyState}

/-! ## Chunk rows -/

/-- First and last sequence number of a chunk. -/
def chunkRange (chunk : List Message) : Nat × Nat :=
  ((chunk.head?.map (·.sequenceNumber)).getD 0, (chunk.getLast?.map (·.sequenceNumber)).getD 0)

theorem chunkRange_eq {chunk : List Message} {first last : Message} (hhead : chunk.head? = some first)
    (htail : chunk.getLast? = some last) :
    chunkRange chunk = (first.sequenceNumber, last.sequenceNumber) := by
  rw [chunkRange, hhead, htail]
  rfl

/-- The key of a chunk's row. -/
def chunkKey (st : AssemblyState) (chunk : List Message) : Id × Tier × Nat × Nat :=
  (st.contextWindowId, .two, chunkRange chunk)

theorem chunkRow_key {chunk : List Message} {first last : Message} (text : Text)
    (hhead : chunk.head? = some first) (htail : chunk.getLast? = some last) :
    (chunkRow st chunk first last text).key = chunkKey st chunk := by
  rw [chunkKey, chunkRange_eq hhead htail]
  rfl

/-- The texts the insert loop stores if no call raises: a chunk without a
reply or with a known key is skipped, and the guard stops at the first text
that does not fit on top of the texts stored before it in this pass. -/
def admitted (st : AssemblyState) (budget : Int) :
    List (Id × Tier × Nat × Nat) → Nat → List (List Message × Option Text) → List Text
  | _, _, [] => []
  | known, used, (_, none) :: rest => admitted st budget known used rest
  | known, used, (chunk, some text) :: rest =>
    if 0 < budget ∧ budget < used + estimateTokens text then []
    else if chunkKey st chunk ∈ known then admitted st budget known used rest
    else text :: admitted st budget (known ++ [chunkKey st chunk]) (used + estimateTokens text) rest

/-- One row for each chunk and its text, in order. -/
structure ChunkRows (st : AssemblyState) (kept : List (List Message × Text)) (rows : List Summary) :
    Prop where
  texts : rows.map (·.summaryText) = kept.map Prod.snd
  ranges : rows.map Summary.range = kept.map fun x => chunkRange x.1
  owned : ∀ r ∈ rows, r.contextWindowId = st.contextWindowId ∧ r.tier = .two ∧ r.isActive = true

theorem ChunkRows.nil (st : AssemblyState) : ChunkRows st [] [] := ⟨rfl, rfl, fun _ h => nomatch h⟩

theorem ChunkRows.cons {kept : List (List Message × Text)} {rows : List Summary} {chunk : List Message}
    {first last : Message} (hhead : chunk.head? = some first) (htail : chunk.getLast? = some last)
    (text : Text) (id : Id) (h : ChunkRows st kept rows) :
    ChunkRows st ((chunk, text) :: kept) ({ chunkRow st chunk first last text with id := id } :: rows) := by
  refine ⟨?_, ?_, fun r hr => ?_⟩
  · rw [List.map_cons, List.map_cons, h.texts]
    rfl
  · rw [List.map_cons, List.map_cons, h.ranges, chunkRange_eq hhead htail]
    rfl
  · rcases List.mem_cons.mp hr with rfl | hr
    · exact ⟨rfl, rfl, rfl⟩
    · exact h.owned r hr

/-- What the insert loop has appended after `results`, from progress `p`,
when it ended with `e`. -/
structure Appended (st : AssemblyState) (budget : Int) (results : List (List Message × Option Text))
    (p p' : Progress) (e : Option Exn) (kept : List (List Message × Text)) (rows : List Summary) :
    Prop where
  sublist : (kept.map fun x => (x.1, some x.2)).Sublist results
  written : ChunkRows st kept rows
  appended : p'.db.summaries = p.db.summaries ++ rows
  admits : kept.map Prod.snd <+: admitted st budget (p.db.summaries.map (·.key)) p.cumulative results
  complete : e = none →
    kept.map Prod.snd = admitted st budget (p.db.summaries.map (·.key)) p.cumulative results

section Loop

variable {budget : Int} {rest results : List (List Message × Option Text)} {p p' : Progress}
  {e : Option Exn} {kept : List (List Message × Text)} {rows : List Summary} {chunk : List Message}
  {text : Text}

theorem Appended.raised (st : AssemblyState) (budget : Int)
    (results : List (List Message × Option Text)) (p : Progress) (x : Exn) :
    Appended st budget results p p (some x) [] [] :=
  ⟨List.nil_sublist _, .nil st, (List.append_nil _).symm, List.nil_prefix, fun h => nomatch h⟩

theorem Appended.stopped
    (hstop : admitted st budget (p.db.summaries.map (·.key)) p.cumulative results = []) :
    Appended st budget results p p e [] [] :=
  ⟨List.nil_sublist _, .nil st, (List.append_nil _).symm, List.nil_prefix, fun _ => hstop.symm⟩

theorem Appended.skip (x : List Message × Option Text)
    (hskip : admitted st budget (p.db.summaries.map (·.key)) p.cumulative (x :: rest) =
      admitted st budget (p.db.summaries.map (·.key)) p.cumulative rest)
    (h : Appended st budget rest p p' e kept rows) : Appended st budget (x :: rest) p p' e kept rows :=
  ⟨h.sublist.cons x, h.written, h.appended, hskip ▸ h.admits, hskip ▸ h.complete⟩

/-- A chunk whose key is stored already. -/
theorem admitted_known {used : Nat} {known : List (Id × Tier × Nat × Nat)}
    (rest : List (List Message × Option Text))
    (hfits : ¬ (0 < budget ∧ budget < used + estimateTokens text)) (hknown : chunkKey st chunk ∈ known) :
    admitted st budget known used ((chunk, some text) :: rest) = admitted st budget known used rest := by
  rw [admitted, if_neg hfits, if_pos hknown]

theorem Appended.insert {first last : Message} {db₁ : Db}
    (hhead : chunk.head? = some first) (htail : chunk.getLast? = some last)
    (hfits : ¬ (0 < budget ∧ budget < p.cumulative + estimateTokens text))
    (hins : p.db.insertSummary (chunkRow st chunk first last text) = .ok db₁)
    (h : Appended st budget rest
      ⟨db₁, p.newSummaries ++ [text], p.cumulative + estimateTokens text⟩ p' e kept rows) :
    Appended st budget ((chunk, some text) :: rest) p p' e ((chunk, text) :: kept)
      ({ chunkRow st chunk first last text with id := p.db.nextId } :: rows) := by
  obtain ⟨hfresh, rfl⟩ := Db.insertSummary_eq_ok.mp hins
  have hkey : (chunkRow st chunk first last text).key = chunkKey st chunk := chunkRow_key text hhead htail
  have hnew : chunkKey st chunk ∉ p.db.summaries.map (·.key) := by
    intro hmem
    obtain ⟨r, hr, hrk⟩ := List.mem_map.mp hmem
    exact hfresh r hr (hrk.trans hkey.symm)
  have hstep : admitted st budget (p.db.summaries.map (·.key)) p.cumulative ((chunk, some text) :: rest) =
      text :: admitted st budget (p.db.summaries.map (·.key) ++
        [(chunkRow st chunk first last text).key]) (p.cumulative + estimateTokens text) rest := by
    rw [admitted, if_neg hfits, if_neg hnew, hkey]
  have hadmits := h.admits
  have hcomplete := h.complete
  simp only [List.map_append, List.map_cons, List.map_nil] at hadmits hcomplete
  refine ⟨h.sublist.cons_cons _, h.written.cons hhead htail text _, ?_, ?_, fun he => ?_⟩
  · rw [h.appended, List.append_assoc]
    rfl
  · rw [hstep, List.map_cons]
    exact List.cons_prefix_cons.mpr ⟨rfl, hadmits⟩
  · rw [hstep, List.map_cons]
    exact congrArg (text :: ·) (hcomplete he)

theorem insertChunks_appended (budget : Int) :
    ∀ (results : List (List Message × Option Text)) (i : Nat) (p : Progress), ∃ kept rows,
      Appended st budget results p (insertChunks env st budget i results p).1
        (insertChunks env st budget i results p).2 kept rows
  | [], _, p => ⟨[], [], .stopped rfl⟩
  | (chunk, none) :: rest, i, p => by
    obtain ⟨kept, rows, h⟩ := insertChunks_appended budget rest (i + 1) p
    exact ⟨kept, rows, h.skip _ rfl⟩
  | (chunk, some text) :: rest, i, p => by
    have hraised := Appended.raised st budget ((chunk, some text) :: rest) p
    obtain ⟨kept, rows, hskip⟩ := insertChunks_appended budget rest (i + 1) p
    simp only [insertChunks]
    split
    · rename_i hover
      exact ⟨_, _, .stopped (by rw [admitted, if_pos hover])⟩
    · rename_i hfits
      split
      · rename_i first last hhead htail
        have hkey : (chunkRow st chunk first last text).key = chunkKey st chunk := chunkRow_key text hhead htail
        have hknown : ∀ r ∈ p.db.summaries, r.key = (chunkRow st chunk first last text).key →
            chunkKey st chunk ∈ p.db.summaries.map (·.key) :=
          fun r hr hrk => List.mem_map.mpr ⟨r, hr, hrk.trans hkey⟩
        split
        · exact ⟨_, _, hraised _⟩
        · rename_i hdup
          obtain ⟨r, hr, hrk⟩ := List.any_eq_true.mp (perform_eq_ok hdup).symm
          have hin := hknown r (Db.mem_active.mp hr).1 (eq_of_beq hrk)
          exact ⟨_, _, hskip.skip _ (admitted_known rest hfits hin)⟩
        · split
          · exact ⟨_, _, hraised _⟩
          · rename_i x hins
            obtain ⟨_, r, hr, hrk⟩ := Db.insertSummary_eq_error (perform_eq_ok hins).symm
            exact ⟨_, _, hskip.skip _ (admitted_known rest hfits (hknown r hr hrk))⟩
          · rename_i db₁ hins
            have hins := (perform_eq_ok hins).symm
            let p₁ : Progress := ⟨db₁, p.newSummaries ++ [text], p.cumulative + estimateTokens text⟩
            obtain ⟨kept₁, rows₁, hgo⟩ := insertChunks_appended budget rest (i + 1) p₁
            have hloop := hgo.insert hhead htail hfits hins
            split
            · exact ⟨_, _, hloop⟩
            · split
              · exact ⟨_, _, hloop⟩
              · exact ⟨_, _, (Appended.raised st budget rest p₁ _).insert hhead htail hfits hins⟩
      · exact ⟨_, _, hraised _⟩

end Loop

/-- The texts the guard admits from the replies to the chunks of the pass. -/
def Admits (env : Env) (db : Db) (st : AssemblyState) (texts : List Text) : Prop :=
  ∃ results, gatherSummaries env 0 st.chunks = .ok results ∧
    texts = admitted st (passBudget st) (db.summaries.map (·.key)) 0 results

/-- **What `compact_tier1` writes.** -/
structure TierOneRows (env : Env) (db : Db) (st : AssemblyState) (db' : Db)
    (out : Except Exn AssemblyState) (kept : List (List Message × Text)) (rows : List Summary) : Prop where
  sublist : (kept.map Prod.fst).Sublist st.chunks
  written : ChunkRows st kept rows
  appended : db'.summaries = db.summaries ++ rows
  admits : kept ≠ [] → ∃ texts, Admits env db st texts ∧ kept.map Prod.snd <+: texts
  /-- Without an exception or an error everything admitted is stored. -/
  complete : st.chunks ≠ [] → ∀ st', out = .ok st' → st'.error = none →
    Admits env db st (kept.map Prod.snd)

theorem compactTier1_rows (env : Env) (db : Db) (st : AssemblyState) :
    ∃ kept rows, TierOneRows env db st (compactTier1 env db st).1 (compactTier1 env db st).2 kept rows := by
  have hstop : ∀ out, (st.chunks ≠ [] → ∀ st', out = .ok st' → st'.error ≠ none) →
      ∃ kept rows, TierOneRows env db st db out kept rows := fun out hout =>
    ⟨[], [], List.nil_sublist _, .nil st, (List.append_nil _).symm, fun h => absurd rfl h,
      fun hne st' hok herr => absurd herr (hout hne st' hok)⟩
  have h := compactTier1_cases env db st
  generalize (compactTier1 env db st).1 = db', (compactTier1 env db st).2 = out at h ⊢
  cases h with
  | raised e => exact hstop _ fun _ _ h => nomatch h
  | noChunks hnil => exact hstop _ fun hne => absurd hnil hne
  | noPrompt e =>
    refine hstop _ fun _ st' hok => ?_
    obtain rfl := Except.ok.inj hok
    exact fun h => nomatch h
  | @looped results p raised gathered h =>
    obtain ⟨kept, rows, happ⟩ : ∃ kept rows, Appended st (passBudget st) results { db } p raised kept rows := by
      have := @insertChunks_appended env st (passBudget st) results 0 { db }
      rwa [h] at this
    have hsub : (kept.map Prod.fst).Sublist st.chunks := by
      rw [← (gatherSummaries_ok gathered).1]
      simpa [List.map_map, Function.comp_def] using happ.sublist.map Prod.fst
    refine ⟨kept, rows, hsub, happ.written, happ.appended,
      fun _ => ⟨_, ⟨results, gathered, rfl⟩, happ.admits⟩, ?_⟩
    cases raised with
    | none => exact fun _ _ _ _ => ⟨results, gathered, happ.complete rfl⟩
    | some e => exact fun _ _ hok => nomatch hok

/-! ## Passes change no message -/

/-- The messages are the same, the windows are there with their columns, and
no id is given back. -/
structure SameMessages (db db' : Db) : Prop where
  messages : db'.messages = db.messages
  nextId : db.nextId ≤ db'.nextId
  windows : ∀ v x, db.window? v = some x → ∃ x', db'.window? v = some x' ∧ SameWindow x x'

section

variable {config : Config} {env : Env} {db db' db'' : Db} {st : AssemblyState}

/-- Summary rows changed, and nothing else. -/
theorem SameMessages.of_summaries (hmessages : db'.messages = db.messages) (hnextId : db.nextId ≤ db'.nextId)
    (hwindows : db'.windows = db.windows) : SameMessages db db' := by
  refine ⟨hmessages, hnextId, fun v x hx => ⟨x, ?_, rfl, rfl, rfl⟩⟩
  rw [Db.window?, hwindows]
  exact hx

theorem SameMessages.refl (db : Db) : SameMessages db db := .of_summaries rfl (Nat.le_refl _) rfl

theorem SameMessages.trans (h : SameMessages db db') (h' : SameMessages db' db'') : SameMessages db db'' := by
  refine ⟨h'.messages.trans h.messages, Nat.le_trans h.nextId h'.nextId, fun v x hx => ?_⟩
  obtain ⟨x', hx', hc, hb, hm⟩ := h.windows v x hx
  obtain ⟨x'', hx'', hc', hb', hm'⟩ := h'.windows v x' hx'
  exact ⟨x'', hx'', hc'.trans hc, hb'.trans hb, hm'.trans hm⟩

theorem SameMessages.of_insertSummary {row : Summary} (h : db.insertSummary row = .ok db') :
    SameMessages db db' := by
  obtain ⟨_, rfl⟩ := Db.insertSummary_eq_ok.mp h
  exact .of_summaries rfl (Nat.le_succ _) rfl

theorem insertChunks_sameMessages (budget : Int) :
    ∀ (results : List (List Message × Option Text)) (i : Nat) (p : Progress),
      SameMessages p.db (insertChunks env st budget i results p).1.db
  | [], _, p => .refl p.db
  | (_, none) :: rest, i, p => insertChunks_sameMessages budget rest (i + 1) p
  | (chunk, some text) :: rest, i, p => by
    have hskip := insertChunks_sameMessages budget rest (i + 1) p
    simp only [insertChunks]
    split
    · exact .refl p.db
    · split
      · split
        · exact .refl p.db
        · exact hskip
        · split
          · exact .refl p.db
          · exact hskip
          · rename_i db₁ hins
            have hone : SameMessages p.db db₁ := .of_insertSummary (perform_eq_ok hins).symm
            have hloop := insertChunks_sameMessages budget rest (i + 1)
              ⟨db₁, p.newSummaries ++ [text], p.cumulative + estimateTokens text⟩
            split
            · exact hone.trans hloop
            · split
              · exact hone.trans hloop
              · exact hone
      · exact .refl p.db

theorem nodeBody_sameMessages (config : Config) (env : Env) (n : Node) (db : Db)
    (st : AssemblyState) : SameMessages db (nodeBody config env n db st).1 := by
  have hrefl := SameMessages.refl db
  cases n with
  | acquireAssemblyLock | loadWindowConfig | loadMessages | calculateCompactionState
  | releaseAssemblyLock => exact hrefl
  | compactTier1 =>
    have h := compactTier1_cases env db st
    simp only [nodeBody]
    generalize (compactTier1 env db st).1 = db', (compactTier1 env db st).2 = out at h ⊢
    cases h with
    | raised | noChunks | noPrompt => exact hrefl
    | @looped results p _ _ h =>
      have hloop : SameMessages db (insertChunks env st (passBudget st) 0 results { db }).1.db :=
        insertChunks_sameMessages _ results 0 { db }
      rw [h] at hloop
      exact hloop
  | runFullCompaction =>
    have h := runFullCompaction_cases env db st
    simp only [nodeBody]
    generalize (runFullCompaction env db st).1 = db', (runFullCompaction env db st).2 = out at h ⊢
    cases h with
    | raised | few | noPrompt | unanswered => exact hrefl
    | committed header recent _ first last _ _ hcomm =>
      exact .of_summaries hcomm.messages (Nat.le.intro hcomm.nextId.symm) hcomm.windows
  | finalizeAssembly =>
    simp only [nodeBody, finalizeAssembly]
    split
    · exact hrefl
    · split
      · exact hrefl
      · exact ⟨rfl, Nat.le_refl _, (Keeps.of_stampAssembled _ _).windows⟩

end

end StandardTiered

end ContextBroker
