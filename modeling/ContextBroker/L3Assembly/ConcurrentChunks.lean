import ContextBroker.Core.Gather
import ContextBroker.L3Assembly.Runs

/-!
# The chunk summaries of a pass run concurrently

`compact_tier1` asks for the summaries of its chunks at once, at most
`max_concurrent_chunk_summaries` of them at a time, and `gather` waits for
them. `compactWith` is the node with what `gather` gave;
`StandardTiered.compactTier1` takes the replies chunk by chunk.

`compactTier1_concurrent`: whatever order the calls start and come back in,
the node ends as the one that takes them in turn. When a call raises what
`_summarize_chunk` does not catch, the exception may be another call's.
-/
namespace ContextBroker.StandardTiered

open LTS Gather

variable (env : Env)

/-- `_bounded_summarize` of chunk `j`, the first chunk being at index `i`.
mirrors build_types/standard_tiered.py:404-439 -/
def boundedSummarize (i : Nat) (chunks : List (List Message)) (j : Nat) : Except Exn (List Message × Option Text) :=
  (summarizeChunk (env.chunkReply (i + j))).map fun text => (chunks.getD j [], text)

/-- A call comes back with what its chunk's reply makes of it. -/
def summaryOf (chunks : List (List Message)) (j : Nat) (r : Except Exn (List Message × Option Text)) : Bool :=
  decide (r = boundedSummarize env 0 chunks j)

/-- The node with what its `gather` gives.
mirrors build_types/standard_tiered.py:375-589 -/
def compactWith (gathered : Except Exn (List (List Message × Option Text))) (db : Db) (st : AssemblyState) :
    Db × Except Exn AssemblyState :=
  if st.chunks = [] then (db, .ok { st with tier2Summaries := [] })
  else
    match perform env.fault .summarizer () with
    | .error e => (db, .error e)
    | .ok () =>
      match perform env.fault .chunkPrompt () with
      | .error e =>
        if e.caughtBy [.runtimeError] then
          (db, .ok { st with tier2Summaries := [], error := some (.promptLoading e) })
        else (db, .error e)
      | .ok () =>
        match gathered with
        | .error e => (db, .error e)
        | .ok results =>
          let dc := extractDeadbandConfig (st.buildTypeConfig.getD {})
          let budget := summaryBudget (st.maxTokenBudget.getD 0) dc
          match insertChunks env st budget 0 results { db } with
          | (p, some e) => (p.db, .error e)
          | (p, none) =>
            (p.db, .ok { st with tier2Summaries := p.newSummaries
                                 hadErrors := st.hadErrors || results.any (·.2.isNone) })

/-- The same tables, and the same state or an exception both times. -/
def SameEnd (x y : Db × Except Exn AssemblyState) : Prop :=
  x.1 = y.1 ∧ (x.2 = y.2 ∨ ∃ e e', x.2 = .error e ∧ y.2 = .error e')

section

variable {env} {db : Db} {st : AssemblyState}

theorem SameEnd.refl (x : Db × Except Exn AssemblyState) : SameEnd x x := ⟨rfl, .inl rfl⟩

theorem compactTier1_eq (env : Env) (db : Db) (st : AssemblyState) :
    compactTier1 env db st = compactWith env (gatherSummaries env 0 st.chunks) db st := rfl

/-- Until the inserts the node writes nothing. -/
theorem compactWith_error (e e' : Exn) :
    SameEnd (compactWith env (.error e) db st) (compactWith env (.error e') db st) := by
  unfold compactWith
  split
  · exact .refl _
  · cases perform env.fault .summarizer () with
    | error _ => exact .refl _
    | ok _ =>
      cases perform env.fault .chunkPrompt () with
      | error _ => exact .refl _
      | ok _ => exact ⟨rfl, .inr ⟨e, e', rfl, rfl⟩⟩

/-! ## Chunk by chunk -/

theorem boundedSummarize_cons (i j : Nat) (chunk : List Message) (chunks : List (List Message)) :
    boundedSummarize env i (chunk :: chunks) (j + 1) = boundedSummarize env (i + 1) chunks j := by
  simp only [boundedSummarize, List.getD_cons_succ]
  rw [show i + (j + 1) = i + 1 + j by omega]

/-- Replies that all came, in the order of the chunks. -/
theorem gatherSummaries_of_replies {i : Nat} {chunks : List (List Message)} {as : List (List Message × Option Text)}
    (hlen : as.length = chunks.length)
    (has : ∀ j a, as[j]? = some a → boundedSummarize env i chunks j = .ok a) :
    gatherSummaries env i chunks = .ok as := by
  induction chunks generalizing i as with
  | nil =>
    obtain rfl := List.length_eq_zero_iff.mp hlen
    rfl
  | cons chunk chunks ih =>
    cases as with
    | nil => cases hlen
    | cons a as =>
      have hfirst := has 0 a rfl
      have hrest : gatherSummaries env (i + 1) chunks = .ok as := by
        refine ih (Nat.succ.inj hlen) fun j b hb => ?_
        rw [← boundedSummarize_cons i j chunk]
        exact has (j + 1) b hb
      simp only [boundedSummarize, Nat.add_zero, List.getD_cons_zero] at hfirst
      cases hreply : summarizeChunk (env.chunkReply i) with
      | error e =>
        rw [hreply] at hfirst
        cases hfirst
      | ok text =>
        rw [hreply] at hfirst
        obtain rfl := Except.ok.inj hfirst
        simp only [gatherSummaries, hreply, hrest]
        rfl

/-- A reply that raised. -/
theorem gatherSummaries_of_raised {i j : Nat} {chunks : List (List Message)} {e : Exn} (hj : j < chunks.length)
    (he : boundedSummarize env i chunks j = .error e) : ∃ e', gatherSummaries env i chunks = .error e' := by
  induction chunks generalizing i j with
  | nil => cases hj
  | cons chunk chunks ih =>
    cases hreply : summarizeChunk (env.chunkReply i) with
    | error e' => exact ⟨e', by simp only [gatherSummaries, hreply]; rfl⟩
    | ok text =>
      cases j with
      | zero =>
        simp only [boundedSummarize, Nat.add_zero, hreply] at he
        cases he
      | succ j =>
        rw [boundedSummarize_cons] at he
        obtain ⟨e', hrest⟩ := ih (Nat.lt_of_succ_lt_succ hj) he
        exact ⟨e', by simp only [gatherSummaries, hreply, hrest]; rfl⟩

end

/-! ## In any order -/

/-- **The order of the calls does not matter.** In every interleaving at most
`maxConcurrent` calls are out; they come to an end unless the node is allowed
none at all; and what the node then does is what it does chunk by chunk. -/
theorem compactTier1_concurrent (db : Db) (st : AssemblyState) (maxConcurrent : Nat)
    (es : List (Gather.Event (Except Exn (List Message × Option Text))))
    (p : Pool (Except Exn (List Message × Option Text)))
    (h : exec (step (summaryOf env st.chunks)) (Pool.start maxConcurrent st.chunks.length) es = some p) :
    p.running ≤ maxConcurrent ∧ es.length ≤ 2 * st.chunks.length ∧
      (answer? p = none → ((∃ e p', step (summaryOf env st.chunks) p e = some p') ↔ 0 < maxConcurrent)) ∧
      ∀ gathered, answer? p = some gathered →
        SameEnd (compactWith env gathered db st) (compactTier1 env db st) := by
  have hinv := inv_exec h
  have hf : ∀ i r, summaryOf env st.chunks i r = true → r = boundedSummarize env 0 st.chunks i :=
    fun _ _ hr => of_decide_eq_true hr
  have hleft := left_exec h
  rw [left_start] at hleft
  refine ⟨running_le h, by omega, fun hnone => ?_, fun gathered hanswer => ?_⟩
  · exact enabled_iff h (fun i => ⟨_, decide_eq_true rfl⟩) (left_of_no_answer hinv hnone)
  · rw [compactTier1_eq]
    cases gathered with
    | ok as =>
      obtain ⟨hlen, has⟩ := answer_ok hf hinv hanswer
      rw [gatherSummaries_of_replies hlen has]
      exact .refl _
    | error e =>
      obtain ⟨j, hj, he⟩ := answer_error hf hinv hanswer
      obtain ⟨e', he'⟩ := gatherSummaries_of_raised hj he
      rw [he']
      exact compactWith_error e e'

/-- Two chunks, one permit, the second chunk first. -/
def secondFirst : AssemblyState :=
  { contextWindowId := 1, conversationId := 1, chunks := [[], []] }

def secondFirstEvents : List (Gather.Event (Except Exn (List Message × Option Text))) :=
  [.start 1, .finish 1 (.ok ([], some ['s'])), .start 0, .finish 0 (.ok ([], some ['s']))]

theorem compactTier1_concurrent_secondFirst :
    ∃ p, exec (step (summaryOf (calm ['s']) secondFirst.chunks)) (Pool.start 1 2) secondFirstEvents = some p ∧
      answer? p = some (.ok [([], some ['s']), ([], some ['s'])]) ∧
      SameEnd (compactWith (calm ['s']) (.ok [([], some ['s']), ([], some ['s'])]) {} secondFirst)
        (compactTier1 (calm ['s']) {} secondFirst) := by
  obtain ⟨p, hp⟩ : ∃ p, exec (step (summaryOf (calm ['s']) secondFirst.chunks)) (Pool.start 1 2)
      secondFirstEvents = some p := Option.isSome_iff_exists.mp (by decide)
  have hanswer : (exec (step (summaryOf (calm ['s']) secondFirst.chunks)) (Pool.start 1 2)
      secondFirstEvents).bind answer? = some (.ok [([], some ['s']), ([], some ['s'])]) := by decide
  rw [hp, Option.bind_some] at hanswer
  exact ⟨p, hp, hanswer,
    (compactTier1_concurrent (calm ['s']) {} secondFirst 1 secondFirstEvents p hp).2.2.2 _ hanswer⟩

end ContextBroker.StandardTiered
