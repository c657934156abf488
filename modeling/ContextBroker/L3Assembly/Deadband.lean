import ContextBroker.L3Assembly.Allocation
import ContextBroker.L3Assembly.Capacity
import ContextBroker.L3Assembly.LiveZone

/-!
# The deadband

The design compacts from the ceiling down to the floor. The code computes the
floor, and fills tier 1 up to the ceiling: what a pass leaves live is what
follows the first message the walk leaves out, the newest one that is over the
ceiling with all after it.

`deadband_iff`: a pass that compacted everything it cut leaves at most the
floor and one message, a live one or the one left out, exactly when little
enough follows that one; and then no later pass finds something to cut before
the rest of the way to its ceiling has been stored.
-/
namespace ContextBroker

open Rows Spans StandardTiered

/-- The tier-1 floor of a window. -/
def tierFloor (win : Window) (bt : BuildTypeConfig) : Int :=
  tier1Floor
    (effectiveBudget win.maxTokenBudget (bt.effectiveUtilization.getD EFFECTIVE_UTILIZATION_DEFAULT))
    (extractDeadbandConfig bt)

/-- Tokens of the rows of conversation `c` that are newer than `loaded`. -/
def Db.storedSince (db : Db) (c : Id) (loaded : List Message) : Nat :=
  db.tokensFrom c (maxOf (·.sequenceNumber) loaded + 1)

/-- The live tokens are at most the floor and one message, which is live or the
last that was compacted; and after any stores, a pass that cuts chunks has seen
the rest of the way to its ceiling stored. `evs` ends with the pass that ended in
`s`. -/
def Deadband (evs : List Event) (config : Config) (w : Id) (floor : Int) (s : PassState) : Prop :=
  ∃ x ∈ s.st.allMessages, s.db.watermark w ≤ x.sequenceNumber ∧
    (total messageTokens (liveMessages s.db w s.st.allMessages) : Int) ≤ floor + messageTokens x ∧
    ∀ (stores : List Store) (env' : Env) (win' : Window) (bt' : BuildTypeConfig) (s' : PassState),
      (broker.run (evs ++ stores.map .store)).window? w = some win' →
      getBuildTypeConfig config win'.buildType = .ok bt' →
      Enters config env' win' (broker.run (evs ++ stores.map .store)) .compactTier1 s' →
        passCeiling bt' win' (broker.run (evs ++ stores.map .store)) - floor - messageTokens x ≤
          s'.db.storedSince win'.conversationId s.st.allMessages

/-- The first message the walk leaves out: the newest that is over the ceiling
with all after it. -/
def LeftOut (ceiling : Int) (loaded : List Message) (m : Message) : Prop :=
  m ∈ loaded ∧ ceiling < tokensFrom loaded m ∧
    ∀ x ∈ loaded, ceiling < tokensFrom loaded x → x.sequenceNumber ≤ m.sequenceNumber

/-- What follows the first message left out is at most the floor and one message,
itself or one that follows. -/
def ShortTail (ceiling floor : Int) (loaded : List Message) : Prop :=
  ∃ m, LeftOut ceiling loaded m ∧ ∃ x ∈ loaded, m.sequenceNumber ≤ x.sequenceNumber ∧
    (total messageTokens (loaded.filter (m.sequenceNumber < ·.sequenceNumber)) : Int) ≤
      floor + messageTokens x

/-- The estimates of the replies to the chunks of the pass. -/
def resultTokens (x : List Message × Option Text) : Nat := estimateTokens (x.2.getD [])

/-- Every chunk of the pass gets a reply, and the budget guard lets all of
them in. -/
structure AllKept (env : Env) (st : AssemblyState) : Prop where
  replies : ∀ i < st.chunks.length, ∃ text, env.chunkReply i = .ok text
  budget : ∀ results, gatherSummaries env 0 st.chunks = .ok results → 0 < passBudget st →
    (total resultTokens results : Int) ≤ passBudget st

section

variable {config : Config} {env : Env} {win : Window} {bt : BuildTypeConfig} {db db' db₀ : Db}
  {st : AssemblyState} {s s₁ : PassState} {w c : Id}

/-! ## Every chunk gets its row -/

theorem admitted_all {budget : Int} : ∀ (results : List (List Message × Option Text))
    (known : List (Id × Tier × Nat × Nat)) (used : Nat), (∀ x ∈ results, x.2.isSome = true) →
    (0 < budget → ((used + total resultTokens results : Nat) : Int) ≤ budget) →
    (results.map fun x => chunkKey st x.1).Nodup → (∀ x ∈ results, chunkKey st x.1 ∉ known) →
    admitted st budget known used results = results.map fun x => x.2.getD []
  | [], _, _, _, _, _, _ => rfl
  | (chunk, none) :: rest, _, _, hsome, _, _, _ => nomatch hsome _ List.mem_cons_self
  | (chunk, some text) :: rest, known, used, hsome, hfits, hnodup, hnew => by
    rw [List.map_cons, List.nodup_cons] at hnodup
    simp only [total_cons, resultTokens, Option.getD_some] at hfits
    have htext : ¬ (0 < budget ∧ budget < used + estimateTokens text) := by
      rintro ⟨hpos, hover⟩
      have := hfits hpos
      omega
    rw [admitted, if_neg htext, if_neg (hnew _ List.mem_cons_self), List.map_cons]
    refine congrArg (text :: ·) (admitted_all rest _ _ (fun x hx => hsome x (List.mem_cons_of_mem _ hx))
      (fun hpos => ?_) hnodup.2 fun x hx => ?_)
    · have := hfits hpos
      omega
    · rw [List.mem_append, List.mem_singleton, not_or]
      refine ⟨hnew x (List.mem_cons_of_mem _ hx), fun heq => hnodup.1 ?_⟩
      exact List.mem_map.mpr ⟨x, hx, heq⟩

/-- Keys of chunks ahead of the watermark are new, and differ. -/
theorem StandardTiered.Ahead.keys {a : Nat} {chunks : List (List Message)}
    (h : Ahead db st.contextWindowId c a chunks) (hs : Sealed db st.contextWindowId) :
    (chunks.map (chunkKey st)).Nodup ∧
      ∀ chunk ∈ chunks, chunkKey st chunk ∉ db.summaries.map (·.key) := by
  obtain ⟨hchain, hbounds⟩ := h.chain
  constructor
  · have hranges : (chunks.map chunkRange).Nodup := by
      refine hchain.imp_of_mem fun {x y} hx hy hlt heq => ?_
      subst heq
      have := (hbounds _ hx).2
      omega
    have hinj : Function.Injective fun x : Nat × Nat => (st.contextWindowId, Tier.two, x) :=
      fun x y hxy => (Prod.mk.inj (Prod.mk.inj hxy).2).2
    have := hranges.map hinj
    rwa [List.map_map] at this
  · intro chunk hchunk hmem
    obtain ⟨r, hr, hkey⟩ := List.mem_map.mp hmem
    have hr : r ∈ (db.summariesOf st.contextWindowId).filter (·.tier == .two) := by
      have hcols := Prod.mk.inj hkey
      simp [Db.summariesOf, hr, hcols.1, (Prod.mk.inj hcols.2).1]
    have hrange : r.range = chunkRange chunk := (Prod.mk.inj (Prod.mk.inj hkey).2).2
    have hle : (chunkRange chunk).2 ≤ Spans.top Prod.snd (db.chunkRanges st.contextWindowId) :=
      le_maxOf (List.mem_map.mpr ⟨r, hr, hrange⟩)
    rw [hs.top] at hle
    have hb := hbounds _ (List.mem_map_of_mem hchunk)
    have habove := h.above
    omega

/-- The ranges of all chunks of the pass are stored. -/
theorem chunkRanges_allKept {a : Nat} (hah : Ahead db st.contextWindowId c a st.chunks)
    (hne : st.chunks ≠ []) (hs : Sealed db st.contextWindowId) (hall : AllKept env st) {st' : AssemblyState}
    (hret : (compactTier1 env db st).2 = .ok st') (herr : st'.error = none) :
    (compactTier1 env db st).1.chunkRanges st.contextWindowId =
      db.chunkRanges st.contextWindowId ++ st.chunks.map chunkRange := by
  obtain ⟨kept, rows, hrows⟩ := compactTier1_rows env db st
  obtain ⟨results, hresults, htexts⟩ := hrows.complete hne st' hret herr
  obtain ⟨hfst, hnone⟩ := gatherSummaries_ok hresults
  obtain ⟨hnodup, hnew⟩ := hah.keys hs
  rw [← hfst, List.map_map] at hnodup
  have hsome : ∀ x ∈ results, x.2.isSome = true := by
    rintro ⟨chunk, text⟩ hx
    obtain ⟨k, hk, hget⟩ := List.getElem_of_mem hx
    refine Option.isSome_iff_ne_none.mpr fun h => ?_
    obtain rfl : text = none := h
    obtain ⟨e, he⟩ := hnone k chunk (by rw [List.getElem?_eq_getElem hk, hget])
    obtain ⟨text, htext⟩ := hall.replies (0 + k) (by rw [← hfst, List.length_map]; omega)
    rw [he] at htext
    cases htext
  rw [admitted_all results _ 0 hsome (by simpa using hall.budget results hresults) hnodup fun x hx =>
    hnew _ (hfst ▸ List.mem_map_of_mem hx)] at htexts
  -- as many rows as chunks, so a row for every chunk
  have hlen := congrArg List.length htexts
  have hlen' := congrArg List.length hfst
  simp only [List.length_map] at hlen hlen'
  have hchunks : kept.map Prod.fst = st.chunks :=
    hrows.sublist.eq_of_length (by rw [List.length_map]; omega)
  rw [chunkRanges_own hrows.written hrows.appended, ← hchunks, List.map_map]
  rfl

/-- A chunk's range ends at its newest message. -/
theorem StandardTiered.Ahead.range_end {a : Nat} {chunks : List (List Message)} (h : Ahead db w c a chunks) :
    ∀ chunk ∈ chunks, (∀ m ∈ chunk, m.sequenceNumber ≤ (chunkRange chunk).2) ∧
      ∃ m ∈ chunk, m.sequenceNumber = (chunkRange chunk).2 := by
  induction chunks generalizing a with
  | nil => exact fun _ hx => nomatch hx
  | cons chunk rest ih =>
    obtain ⟨first, last, hhead, htail, hlast, _, _, hmem, _, hrest⟩ := h.cons
    intro x hx
    rcases List.mem_cons.mp hx with rfl | hx
    · rw [chunkRange_eq hhead htail]
      exact ⟨fun m hm => (hmem m hm).2, last, hlast, rfl⟩
    · exact ih hrest x hx

/-- The new watermark is the end of the overflow. -/
theorem watermark_allKept {a : Nat} (hah : Ahead db st.contextWindowId c a st.chunks)
    (hne : st.chunks ≠ []) (hs : Sealed db st.contextWindowId) (hs' : Sealed db' st.contextWindowId)
    (hranges : db'.chunkRanges st.contextWindowId =
      db.chunkRanges st.contextWindowId ++ st.chunks.map chunkRange) :
    (∀ m ∈ st.chunks.flatten, m.sequenceNumber ≤ db'.watermark st.contextWindowId) ∧
      ∃ m ∈ st.chunks.flatten, m.sequenceNumber = db'.watermark st.contextWindowId := by
  have htop := hs'.top
  rw [Spans.top, hranges, maxOf_append, ← Spans.top, hs.top] at htop
  obtain ⟨x, hx, hmax⟩ : ∃ x ∈ st.chunks.map chunkRange, x.2 = maxOf Prod.snd (st.chunks.map chunkRange) :=
    exists_maxOf (by simpa using hne)
  have habove := hah.above
  have hxb := hah.chain.2 x hx
  rw [← hmax] at htop
  constructor
  · intro m hm
    obtain ⟨chunk, hchunk, hm⟩ := List.mem_flatten.mp hm
    have hend := (hah.range_end chunk hchunk).1 m hm
    have hle : (chunkRange chunk).2 ≤ maxOf Prod.snd (st.chunks.map chunkRange) :=
      le_maxOf (List.mem_map_of_mem hchunk)
    omega
  · obtain ⟨chunk, hchunk, rfl⟩ := List.mem_map.mp hx
    obtain ⟨m, hm, hseq⟩ := (hah.range_end chunk hchunk).2
    exact ⟨m, List.mem_flatten.mpr ⟨chunk, hchunk, hm⟩, by omega⟩

/-! ## What is live, and what was stored since -/

/-- With the watermark at a loaded message, what is above it is live or newer
than the loaded list. -/
theorem tokensFrom_live {loaded : List Message} (hdb : db.Consecutive) (h : Stretch db c loaded)
    {m : Message} (hm : m ∈ loaded) :
    db.tokensFrom c (m.sequenceNumber + 1) ≤
      total messageTokens (loaded.filter (m.sequenceNumber < ·.sequenceNumber)) + db.storedSince c loaded := by
  obtain ⟨pre, new, hsplit⟩ := h
  have hasc : Ascending (·.sequenceNumber) (pre ++ loaded.map Message.core ++ new) :=
    hsplit ▸ (numbered_map_core.mpr (hdb c)).ascending
  obtain ⟨hfront, _, hnew⟩ := List.pairwise_append.mp hasc
  obtain ⟨_, _, hpre⟩ := List.pairwise_append.mp hfront
  have hpre : pre.filter (fun x => decide (m.sequenceNumber + 1 ≤ x.sequenceNumber)) = [] := by
    refine List.filter_eq_nil_iff.mpr fun x hx => ?_
    have hlt : x.sequenceNumber < m.sequenceNumber := hpre x hx m.core (List.mem_map_of_mem hm)
    simp only [decide_eq_true_eq]
    omega
  have hpast : new.filter (fun x => decide (maxOf (·.sequenceNumber) loaded + 1 ≤ x.sequenceNumber)) =
      new := by
    obtain ⟨last, hlast, hmax⟩ : ∃ x ∈ loaded, x.sequenceNumber = maxOf (·.sequenceNumber) loaded :=
      exists_maxOf (List.ne_nil_of_mem hm)
    refine List.filter_eq_self.mpr fun x hx => decide_eq_true ?_
    have hlt : last.sequenceNumber < x.sequenceNumber :=
      hnew last.core (List.mem_append_right _ (List.mem_map_of_mem hlast)) x hx
    omega
  have hfrom := total_filter_core (fun n => decide (m.sequenceNumber + 1 ≤ n)) (db.messagesOf c)
  have hlive := total_filter_core (fun n => decide (m.sequenceNumber + 1 ≤ n)) loaded
  have hsince := total_filter_core (fun n => decide (maxOf (·.sequenceNumber) loaded + 1 ≤ n))
    (db.messagesOf c)
  rw [hsplit, List.filter_append, List.filter_append, hpre, total_append, total_append] at hfrom
  rw [hsplit, List.filter_append, List.filter_append, hpast, total_append, total_append] at hsince
  have hle := total_sublist messageTokens (List.filter_sublist (l := new)
    (p := fun x => decide (m.sequenceNumber + 1 ≤ x.sequenceNumber)))
  show _ ≤ total messageTokens (loaded.filter fun x => decide (m.sequenceNumber + 1 ≤ x.sequenceNumber)) + _
  rw [Db.storedSince, Db.tokensFrom, Db.tokensFrom]
  simp only [total_nil] at hfrom
  omega

/-! ## The watermark of a pass that kept everything -/

theorem StandardTiered.Planned.flatten (hplan : Planned config win bt db₀ st) (hne : st.chunks ≠ []) :
    st.chunks.flatten = overflow (passCeiling bt win db₀) (db₀.watermark win.id) st.allMessages := by
  have hpos : 0 < chunkLength config := by
    refine Nat.pos_of_ne_zero fun h0 => hne ?_
    rw [hplan.chunks, h0, slices_zero]
  rw [hplan.chunks, slices_flatten hpos]

/-- The watermark moves to the newest message that is over the ceiling with
all after it. -/
theorem pass_watermark (hv : Valid db₀) (hw : db₀.window? win.id = some win)
    (hbt : getBuildTypeConfig config win.buildType = .ok bt) (hkeep : KeepsChunk config env win db₀)
    (hs : Sealed db₀ win.id) (h₁ : Enters config env win db₀ .compactTier1 s₁) (hall : AllKept env s₁.st)
    (hraised : (assemble config env db₀ win.id win.conversationId).raised = none)
    (herror : (assemble config env db₀ win.id win.conversationId).final.st.error = none) :
    (∀ m ∈ overflow (passCeiling bt win db₀) (db₀.watermark win.id) s₁.st.allMessages,
        m.sequenceNumber ≤ (assemble config env db₀ win.id win.conversationId).final.db.watermark win.id) ∧
      ∃ m ∈ overflow (passCeiling bt win db₀) (db₀.watermark win.id) s₁.st.allMessages,
        m.sequenceNumber =
          (assemble config env db₀ win.id win.conversationId).final.db.watermark win.id := by
  obtain ⟨hA, hbefore, bt', hplan⟩ := h₁.known hv hw
  obtain rfl := Except.ok.inj (hplan.configured.accepted.symm.trans hbt)
  have hid := (Assertion.effect _ hA).windowId
  obtain ⟨hb, hne, _, _, hp⟩ := hA
  obtain ⟨a, hah⟩ := hp.ahead hb hne
  have hs₁ : Sealed s₁.db s₁.st.contextWindowId := hid.symm ▸ sealed_congr hbefore hs
  obtain ⟨st', hret, herr, hfinal⟩ := final_chunks h₁ hraised herror
  have hmark : (assemble config env db₀ win.id win.conversationId).final.db.watermark win.id =
      (compactTier1 env s₁.db s₁.st).1.watermark win.id := by
    rcases hfinal with hrows | ⟨s₂, h₂, hrows⟩
    · simp only [Db.watermark, active_congr hrows]
    · -- full compaction keeps a row, and with it the watermark
      obtain ⟨hA₂, _, bt₂, hplan₂⟩ := h₂.known hv hw
      have heff := Assertion.effect _ hA₂
      have hmin : 2 ≤ passMin s₂.st := by
        rw [passMin, hplan₂.configured.buildTypeConfig]
        exact hkeep bt₂ hplan₂.configured.accepted
      have hfull := watermark_runFullCompaction env heff.valid hmin
      rw [heff.windowId] at hfull
      rw [Db.watermark, active_congr (final_rows h₂), ← Db.watermark, hfull]
      simp only [Db.watermark, active_congr hrows]
  have hranges := chunkRanges_allKept hah hne hs₁ hall hret herr
  have hend := watermark_allKept hah hne hs₁ (sealed_compactTier1 h₁ hv hw hs₁) hranges
  rw [hplan.flatten hne, hid, ← hmark] at hend
  exact hend

end

/-! ## Runs -/

section

variable {evs : List Event} {config : Config} {env : Env} {w : Id} {win : Window} {bt : BuildTypeConfig}
  {s₁ : PassState}

/-- Stores move no watermark and leave the window as it is. -/
theorem run_stores (evs : List Event) (stores : List Store) :
    (broker.run evs).Grows (broker.run (evs ++ stores.map .store)) := by
  induction stores using List.reverseRecOn with
  | nil =>
    rw [List.map_nil, List.append_nil]
    exact .refl _
  | append_singleton stores x ih =>
    rw [List.map_append, List.map_singleton, ← List.append_assoc, Machine.run_snoc]
    exact ih.trans (store_grows _ x)

/-- A pass that cuts chunks found the live messages and what came since over
its ceiling. -/
theorem ceiling_lt_stored {db₀ : Db} {loaded : List Message} {m : Message} (hv : Valid db₀)
    (hw : db₀.window? win.id = some win) (hbt : getBuildTypeConfig config win.buildType = .ok bt)
    (h₁ : Enters config env win db₀ .compactTier1 s₁) (hm : m ∈ loaded)
    (hmark : db₀.watermark win.id = m.sequenceNumber) (hloaded : Stretch db₀ win.conversationId loaded) :
    passCeiling bt win db₀ <
      total messageTokens (loaded.filter (m.sequenceNumber < ·.sequenceNumber)) +
        s₁.db.storedSince win.conversationId loaded := by
  obtain ⟨⟨hb, hne, _, _, hp⟩, _, bt', hplan⟩ := h₁.known hv hw
  obtain rfl := Except.ok.inj (hplan.configured.accepted.symm.trans hbt)
  obtain ⟨x, hx⟩ : ∃ x, x ∈ s₁.st.chunks.flatten := by
    obtain ⟨chunk, hchunk⟩ := List.exists_mem_of_ne_nil _ hne
    obtain ⟨x, hx⟩ := List.exists_mem_of_ne_nil _ (hp.nonempty chunk hchunk)
    exact ⟨x, List.mem_flatten.mpr ⟨chunk, hchunk, hx⟩⟩
  rw [hplan.flatten hne, mem_overflow, hmark] at hx
  obtain ⟨_, habove, hover⟩ := hx
  have hfrom := hb.stretch.tokens_le x.sequenceNumber
  have hlive := tokensFrom_live hb.valid.consecutive (hloaded.of_messages (hb.grows.messages _)) hm
  have hmono : s₁.db.tokensFrom win.conversationId x.sequenceNumber ≤
      s₁.db.tokensFrom win.conversationId (m.sequenceNumber + 1) :=
    total_from_anti messageTokens (·.sequenceNumber) habove _
  rw [tokensFrom] at hover
  omega

/-- **The deadband.** In a run whose passes on the window keep a chunk row, a
completed pass that kept a row for every chunk it cut leaves the floor and
one message exactly when that little follows the first message left out. -/
theorem deadband_iff (evs : List Event) (config : Config) (env : Env) (w : Id) (win : Window)
    (bt : BuildTypeConfig) (o : StateGraph.Outcome Node PassState Exn) (s₁ : PassState)
    (hwin : (broker.run evs).window? w = some win) (hbt : getBuildTypeConfig config win.buildType = .ok bt)
    (ho : passOutcome config env (broker.run evs) w = some o)
    (hkeep : EveryPass (evs ++ [.pass config w env]) w KeepsChunk) (hdone : Completed o.raised o.final)
    (h₁ : Enters config env win (broker.run evs) .compactTier1 s₁) (hall : AllKept env s₁.st) :
    Deadband (evs ++ [.pass config w env]) config w (tierFloor win bt) o.final ↔
      ShortTail (passCeiling bt win (broker.run evs)) (tierFloor win bt) s₁.st.allMessages := by
  have hv := valid_run evs
  have hrun := run_pass ho
  obtain ⟨win', hwin', rfl, heff⟩ := passOutcome_effect hv ho
  obtain rfl := Option.some.inj (hwin'.symm.trans hwin)
  obtain ⟨x, hx, _, _, rfl⟩ := passOutcome_eq_some ho
  obtain rfl := Option.some.inj (hx.symm.trans hwin)
  obtain ⟨hle, m, hm, hmark⟩ := pass_watermark hv hwin hbt (hkeep.last hwin) (sealed_run hkeep.init) h₁ hall
    hdone.raised hdone.error
  obtain ⟨hmem, habove, hover⟩ := mem_overflow.mp hm
  rw [Deadband, liveMessages, final_loaded h₁, ← hmark]
  have hstretch := heff.stretch
  rw [final_loaded h₁, ← hrun] at hstretch
  -- a message over the ceiling is at or below the watermark
  have hnewest : ∀ x' ∈ s₁.st.allMessages, passCeiling bt x (broker.run evs) < tokensFrom s₁.st.allMessages x' →
      x'.sequenceNumber ≤ m.sequenceNumber := by
    intro x' hx' hover'
    rcases Nat.lt_or_ge ((broker.run evs).watermark x.id) x'.sequenceNumber with hlt | hge
    · exact hmark ▸ hle x' (mem_overflow.mpr ⟨hx', hlt, hover'⟩)
    · omega
  constructor
  · rintro ⟨y, hy, habove', hlive, _⟩
    exact ⟨m, ⟨hmem, hover, hnewest⟩, y, hy, habove', hlive⟩
  · rintro ⟨m', ⟨hm', hover', hnewest'⟩, y, hy, habove', hshort⟩
    have hsame : m'.sequenceNumber = m.sequenceNumber := Nat.le_antisymm (hnewest m' hm' hover') (hnewest' m hmem hover)
    rw [hsame] at habove' hshort
    refine ⟨y, hy, habove', hshort, fun stores env' win'' bt' s' hwin'' hbt' h' => ?_⟩
    have hgrows := run_stores (evs ++ [.pass config x.id env]) stores
    obtain ⟨win₁, hwin₁, hconv, _, _⟩ :=
      (run_keeps evs ([.pass config x.id env] ++ stores.map .store)).windows x.id x hwin
    rw [← List.append_assoc] at hwin₁
    obtain rfl := Option.some.inj (hwin''.symm.trans hwin₁)
    have hid : win''.id = x.id := eq_of_beq (List.find?_some hwin₁ :)
    have hlater : (broker.run (evs ++ [.pass config x.id env] ++ stores.map .store)).watermark win''.id =
        m.sequenceNumber := by
      rw [hid, hgrows.watermark, hrun, hmark]
    have hlt := ceiling_lt_stored (valid_run _) (hid.symm ▸ hwin₁) hbt' h' hmem hlater
      (hconv ▸ hstretch.of_messages (hgrows.messages _))
    omega

end

/-! ## One message over a ceiling of 71 -/

theorem keepsChunk_tightRun :
    EveryPass (tightRun ++ [.pass defaultConfig 1 (calm longReply)]) 1 KeepsChunk := by
  refine EveryPass.snoc (.of_mem fun config env win db hmem => ?_) fun win _ => ?_
  · simp [tightRun, opened, chat, say] at hmem
  · exact keepsChunk_default rfl _ _ _

theorem allKept_tightRun : AllKept (calm longReply) atTightChunks.st := by
  refine ⟨fun _ _ => ⟨_, rfl⟩, fun results hresults _ => ?_⟩
  obtain rfl := Except.ok.inj (hresults.symm.trans gatherSummaries_tightChunks)
  decide +kernel

theorem completed_tightRun : ∃ o,
    passOutcome defaultConfig (calm longReply) (broker.run tightRun) 1 = some o ∧
      Completed o.raised o.final ∧ ∀ x ∈ o.final.st.allMessages,
        tierFloor tightWindow {} + messageTokens x <
          total messageTokens (liveMessages o.final.db 1 o.final.st.allMessages) := by
  have hdone : ∃ o ∈ passOutcome defaultConfig (calm longReply) (broker.run tightRun) 1,
      (o.raised = none ∧ o.final.st.error = none ∧ o.final.st.lockAcquired = true) ∧
        ∀ x ∈ o.final.st.allMessages, tierFloor tightWindow {} + messageTokens x <
          total messageTokens (liveMessages o.final.db 1 o.final.st.allMessages) := by
    decide +kernel
  obtain ⟨o, ho, ⟨hraised, herror, hlocked⟩, hlive⟩ := hdone
  exact ⟨o, ho, ⟨hraised, herror, hlocked⟩, hlive⟩

theorem deadband_iff_tightRun :
    ∃ o, passOutcome defaultConfig (calm longReply) (broker.run tightRun) 1 = some o ∧
      (Deadband (tightRun ++ [.pass defaultConfig 1 (calm longReply)]) defaultConfig 1
          (tierFloor tightWindow {}) o.final ↔
        ShortTail (passCeiling {} tightWindow (broker.run tightRun)) (tierFloor tightWindow {})
          atTightChunks.st.allMessages) := by
  obtain ⟨o, ho, hdone, _⟩ := completed_tightRun
  exact ⟨o, ho, deadband_iff tightRun defaultConfig (calm longReply) 1 tightWindow {} o atTightChunks
    (by decide +kernel) (by decide +kernel) ho keepsChunk_tightRun hdone enters_tightChunks
    allKept_tightRun⟩

/-- 64 live tokens, with a floor of 17 and messages of 8. -/
theorem deadband_false :
    ¬ ∀ (evs : List Event) (config : Config) (env : Env) (w : Id) (win : Window) (bt : BuildTypeConfig)
      (o : StateGraph.Outcome Node PassState Exn) (s₁ : PassState),
      (broker.run evs).window? w = some win → getBuildTypeConfig config win.buildType = .ok bt →
      passOutcome config env (broker.run evs) w = some o →
      EveryPass (evs ++ [.pass config w env]) w KeepsChunk → Completed o.raised o.final →
      Enters config env win (broker.run evs) .compactTier1 s₁ → AllKept env s₁.st →
        Deadband (evs ++ [.pass config w env]) config w (tierFloor win bt) o.final := by
  intro h
  obtain ⟨o, ho, hdone, hlive⟩ := completed_tightRun
  obtain ⟨x, hx, -, hle, _⟩ := h tightRun defaultConfig (calm longReply) 1 tightWindow {} o atTightChunks
    (by decide +kernel) (by decide +kernel) ho keepsChunk_tightRun hdone enters_tightChunks
    allKept_tightRun
  have := hlive x hx
  omega

end ContextBroker
