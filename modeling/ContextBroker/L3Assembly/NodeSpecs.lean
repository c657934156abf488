import ContextBroker.L3Assembly.Archiving

/-!
# What each assembly node does

One spec lemma per node, for callers that reason about a pass: which fields
of the assembly state it sets, and what it does to the tables.

* `Keeps`, `Evolves w`: how the tables may change in a pass on window `w`:
  messages and keys of summary rows stay, other windows keep their active
  rows.
* `loadMessages_ok`, `calculateCompactionState_ok`: the loaded list and its
  partition.
* `compactTier1_cases`: the ways out of `compact_tier1`, as
  `runFullCompaction_cases` lists those of `run_full_compaction`.
* `insertChunks_spec`: every chunk the insert loop has passed was either
  never summarized or has its range stored, and the stored rows extend the
  chain above the watermark.
* `archiveTransaction_spec`: what a committed full compaction leaves active.
-/
namespace ContextBroker.StandardTiered

open Rows Spans

/-! ## Evolution of the tables -/

/-- The same window, apart from its timestamp. -/
def SameWindow (x x' : Window) : Prop :=
  x'.conversationId = x.conversationId ∧ x'.buildType = x.buildType ∧
    x'.maxTokenBudget = x.maxTokenBudget

/-- Messages, windows and the keys of summary rows stay. -/
structure Keeps (db db' : Db) : Prop where
  messages : ∀ c, ∃ new,
    (db'.messagesOf c).map Message.core = (db.messagesOf c).map Message.core ++ new
  windows : ∀ v x, db.window? v = some x → ∃ x', db'.window? v = some x' ∧ SameWindow x x'
  keys : ∀ r ∈ db.summaries, ∃ r' ∈ db'.summaries, r'.key = r.key

/-- And so do the active rows of every window but `w`. -/
structure Evolves (w : Id) (db db' : Db) : Prop extends Keeps db db' where
  others : ∀ v, v ≠ w → ∀ t, db'.active v t = db.active v t

section

variable {w : Id} {db db' db'' : Db}

theorem Keeps.refl (db : Db) : Keeps db db :=
  ⟨fun _ => ⟨[], (List.append_nil _).symm⟩, fun _ x hx => ⟨x, hx, rfl, rfl, rfl⟩,
    fun r hr => ⟨r, hr, rfl⟩⟩

theorem Keeps.trans (h : Keeps db db') (h' : Keeps db' db'') : Keeps db db'' := by
  refine ⟨fun c => ?_, fun v x hx => ?_, fun r hr => ?_⟩
  · obtain ⟨new, hnew⟩ := h.messages c
    obtain ⟨new', hnew'⟩ := h'.messages c
    exact ⟨new ++ new', by rw [hnew', hnew, List.append_assoc]⟩
  · obtain ⟨x', hx', hc, hb, hm⟩ := h.windows v x hx
    obtain ⟨x'', hx'', hc', hb', hm'⟩ := h'.windows v x' hx'
    exact ⟨x'', hx'', hc'.trans hc, hb'.trans hb, hm'.trans hm⟩
  · obtain ⟨r', hr', hk⟩ := h.keys r hr
    obtain ⟨r'', hr'', hk'⟩ := h'.keys r' hr'
    exact ⟨r'', hr'', hk'.trans hk⟩

theorem Keeps.of_grows (h : db.Grows db') : Keeps db db' := by
  refine ⟨h.messages, fun v x hx => ⟨x, ?_, rfl, rfl, rfl⟩, ?_⟩
  · rw [h.window?]; exact hx
  · rw [h.summaries]; exact fun r hr => ⟨r, hr, rfl⟩

theorem Keeps.of_insertSummary {row : Summary} (h : db.insertSummary row = .ok db') :
    Keeps db db' := by
  obtain ⟨_, rfl⟩ := Db.insertSummary_eq_ok.mp h
  exact ⟨fun _ => ⟨[], (List.append_nil _).symm⟩, fun _ x hx => ⟨x, hx, rfl, rfl, rfl⟩,
    fun r hr => ⟨r, List.mem_append_left _ hr, rfl⟩⟩

theorem Keeps.of_deactivate (p : Summary → Bool) : Keeps db (db.deactivate p) := by
  refine ⟨fun _ => ⟨[], (List.append_nil _).symm⟩, fun _ x hx => ⟨x, hx, rfl, rfl, rfl⟩,
    fun r hr => ⟨_, List.mem_map_of_mem hr, ?_⟩⟩
  split <;> rfl

theorem Keeps.of_stampAssembled (v : Id) (now : Time) : Keeps db (db.stampAssembled v now) := by
  refine ⟨fun _ => ⟨[], (List.append_nil _).symm⟩, fun u x hx => ?_, fun r hr => ⟨r, hr, rfl⟩⟩
  rw [Db.window?_stampAssembled, hx]
  refine ⟨_, rfl, ?_⟩
  dsimp only
  split <;> exact ⟨rfl, rfl, rfl⟩

theorem Evolves.refl (w : Id) (db : Db) : Evolves w db db := ⟨.refl db, fun _ _ _ => rfl⟩

theorem Evolves.trans (h : Evolves w db db') (h' : Evolves w db' db'') : Evolves w db db'' :=
  ⟨h.toKeeps.trans h'.toKeeps, fun v hv t => (h'.others v hv t).trans (h.others v hv t)⟩

theorem Evolves.of_grows (h : db.Grows db') : Evolves w db db' :=
  ⟨.of_grows h, fun v _ t => h.active v t⟩

theorem Evolves.of_insertSummary {row : Summary} (hw : row.contextWindowId = w)
    (h : db.insertSummary row = .ok db') : Evolves w db db' := by
  refine ⟨.of_insertSummary h, fun v hv t => ?_⟩
  obtain ⟨_, rfl⟩ := Db.insertSummary_eq_ok.mp h
  rw [Db.active_append rfl, if_neg, List.append_nil]
  exact fun hact => hv (hact.1.symm.trans hw)

/-- Retiring rows of window `w` only. -/
theorem Evolves.of_deactivate {p : Summary → Bool}
    (hp : ∀ r ∈ db.summaries, p r = true → r.contextWindowId = w) :
    Evolves w db (db.deactivate p) := by
  refine ⟨.of_deactivate p, fun v hv t => ?_⟩
  rw [Db.active_deactivate]
  refine List.filter_eq_self.mpr fun r hr => ?_
  obtain ⟨hmem, hrv, _, _⟩ := Db.mem_active.mp hr
  cases hpr : p r with
  | false => rfl
  | true => exact absurd (hrv.symm.trans (hp r hmem hpr)) hv

theorem Evolves.of_stampAssembled (v : Id) (now : Time) : Evolves w db (db.stampAssembled v now) :=
  ⟨.of_stampAssembled v now, fun _ _ _ => rfl⟩

end

/-! ## Lock, window, messages -/

variable {config : Config} {env : Env} {db : Db} {st st' : AssemblyState}

theorem acquireAssemblyLock_ok (h : acquireAssemblyLock env st = .ok st') :
    ∃ key got err, st' = { st with lockKey := key, lockAcquired := got, error := err } := by
  unfold acquireAssemblyLock at h
  dsimp only at h
  split at h
  · split at h
    · exact ⟨_, _, _, (Except.ok.inj h).symm⟩
    · cases h
  · exact ⟨_, _, _, (Except.ok.inj h).symm⟩

/-- The window's configuration as the later nodes see it. -/
structure Configured (config : Config) (win : Window) (bt : BuildTypeConfig) (st : AssemblyState) :
    Prop where
  accepted : getBuildTypeConfig config win.buildType = .ok bt
  buildTypeConfig : st.buildTypeConfig = some bt
  maxTokenBudget : st.maxTokenBudget = some
    (effectiveBudget win.maxTokenBudget (bt.effectiveUtilization.getD EFFECTIVE_UTILIZATION_DEFAULT))

theorem loadWindowConfig_ok {win : Window} (hw : db.window? st.contextWindowId = some win)
    (h : loadWindowConfig config env db st = .ok st') :
    (∃ e, st' = { st with error := some e }) ∨
      ∃ bt b, st' = { st with window := some win, buildTypeConfig := some bt, maxTokenBudget := b } ∧
        Configured config win bt st' := by
  obtain ⟨found, hfound, h⟩ := bind_eq_ok.mp h
  obtain rfl := perform_eq_ok hfound
  rw [hw] at h
  dsimp only at h
  split at h
  · exact .inl ⟨_, (Except.ok.inj h).symm⟩
  · rename_i bt hbt
    obtain rfl := Except.ok.inj h
    exact .inr ⟨bt, _, rfl, hbt, rfl, rfl⟩

theorem adaptiveLimit_ok {ceiling limit : Int}
    (h : adaptiveLimit config ceiling = .ok limit) : 50 ≤ limit := by
  obtain ⟨_, _, h⟩ := bind_eq_ok.mp h
  obtain rfl := Except.ok.inj h
  exact le_max_left _ _

theorem loadLimit_ok {bt : BuildTypeConfig} {budget limit : Int}
    {existing : Except Exn Nat} (h : loadLimit config bt budget existing = .ok limit) :
    50 ≤ limit := by
  obtain ⟨adaptive, hadaptive, h⟩ := bind_eq_ok.mp h
  obtain ⟨n, _, h⟩ := bind_eq_ok.mp h
  have hle := adaptiveLimit_ok hadaptive
  split at h
  · obtain ⟨_, _, h⟩ := bind_eq_ok.mp h
    obtain rfl := Except.ok.inj h
    exact le_trans hle (le_max_left _ _)
  · exact (Except.ok.inj h) ▸ hle

/-- The loaded list: the newest rows up to the limit, oldest first. -/
theorem loadMessages_ok (hdb : db.Consecutive) (h : loadMessages config env db st = .ok st') :
    ∃ limit, loadLimit config (st.buildTypeConfig.getD {}) (st.maxTokenBudget.getD 8192)
        (perform env.fault .summaryCount (db.summariesOf st.contextWindowId).length) = .ok limit ∧
      st' = { st with
        allMessages := (db.messagesOf st.conversationId).drop
          ((db.messagesOf st.conversationId).length - limit.toNat) } := by
  obtain ⟨limit, hlimit, h⟩ := bind_eq_ok.mp h
  obtain ⟨rows, hrows, h⟩ := bind_eq_ok.mp h
  obtain ⟨cut, hcut, h⟩ := bind_eq_ok.mp h
  obtain rfl := perform_eq_ok hrows
  obtain ⟨_, rfl⟩ := limitRows_ok hcut
  obtain rfl := Except.ok.inj h
  refine ⟨limit, hlimit, ?_⟩
  rw [hdb.newestFirst, List.reverse_take, List.reverse_reverse, List.length_reverse]

/-! ## Partition -/

section Partition

variable {ceiling : Int} {messages : List Message}

theorem fillTier1_suffix (ceiling : Int) (messages : List Message) :
    fillTier1 ceiling messages <:+ messages := by
  have := @prefix_takeWithin _ messageTokens ceiling 0 messages.reverse
  simpa [fillTier1] using List.reverse_suffix.mpr this

theorem fillTier1_fits (ceiling : Int) (messages : List Message) :
    (total messageTokens (fillTier1 ceiling messages) : Int) ≤ max 0 ceiling := by
  unfold fillTier1
  rw [total_reverse]
  exact total_takeWithin_le _

/-- The message the walk stopped at does not fit on top of tier 1. -/
theorem fillTier1_stop {init : List Message} {m : Message}
    (h : messages = init ++ m :: fillTier1 ceiling messages) :
    ceiling < messageTokens m + total messageTokens (fillTier1 ceiling messages) := by
  have hrev : messages.reverse =
      takeWithin messageTokens ceiling 0 messages.reverse ++ m :: init.reverse := by
    conv_lhs => rw [h]
    simp [fillTier1]
  have hstop := takeWithin_stop 0 messages.reverse m init.reverse hrev
  simp only [fillTier1, total_reverse]
  omega

/-- Messages with an earlier number than tier 1, followed by tier 1, are the
loaded list. -/
theorem older_append_tier1 (ceiling : Int) (hasc : Ascending (·.sequenceNumber) messages) (hne : messages ≠ []) :
    (messages.filter fun m =>
        m.sequenceNumber < tier1StartSeq messages (fillTier1 ceiling messages)) ++
      fillTier1 ceiling messages = messages := by
  obtain ⟨init, hinit⟩ := fillTier1_suffix ceiling messages
  cases htier : fillTier1 ceiling messages with
  | nil =>
    obtain ⟨last, hlast⟩ : ∃ m, messages.getLast? = some m := ⟨_, List.getLast?_eq_some_getLast hne⟩
    simp only [tier1StartSeq, hlast, List.append_nil]
    refine List.filter_eq_self.mpr fun m hm => decide_eq_true ?_
    obtain ⟨front, rfl⟩ := List.getLast?_eq_some_iff.mp hlast
    rcases List.mem_append.mp hm with hm | hm
    · have hlt : m.sequenceNumber < last.sequenceNumber :=
        (List.pairwise_append.mp hasc).2.2 m hm last (List.mem_singleton_self _)
      omega
    · rw [List.mem_singleton.mp hm]
      omega
  | cons first rest =>
    rw [htier] at hinit
    subst hinit
    obtain ⟨_, htail, hlt⟩ := List.pairwise_append.mp hasc
    have hstart : tier1StartSeq (init ++ first :: rest) (first :: rest) = first.sequenceNumber := rfl
    have hinit : init.filter (fun m => decide (m.sequenceNumber < first.sequenceNumber)) = init :=
      List.filter_eq_self.mpr fun m hm => decide_eq_true (hlt m hm first List.mem_cons_self)
    have hrest : (first :: rest).filter (fun m => decide (m.sequenceNumber < first.sequenceNumber)) = [] := by
      refine List.filter_eq_nil_iff.mpr fun m hm => ?_
      rcases List.mem_cons.mp hm with rfl | hm
      · simp
      · have hfirst : first.sequenceNumber < m.sequenceNumber := (List.pairwise_cons.mp htail).1 m hm
        simp only [decide_eq_true_eq]
        omega
    rw [hstart, List.filter_append, hinit, hrest, List.append_nil]

end Partition

/-- What `calculate_compaction_state` leaves in the state, relative to the
watermark `wm` and the ceiling it computed. -/
structure Partitioned (wm : Nat) (ceiling : Int) (st : AssemblyState) : Prop where
  append : st.olderMessages ++ st.tier1Messages = st.allMessages
  /-- The last older message does not fit on top of tier 1. -/
  stop : ∀ init m, st.olderMessages = init ++ [m] →
    ceiling < messageTokens m + total messageTokens st.tier1Messages
  fits : (total messageTokens st.tier1Messages : Int) ≤ max 0 ceiling
  chunks : st.chunks = [] ∨ st.chunks.flatten = st.olderMessages.filter (wm < ·.sequenceNumber)
  nonempty : ∀ chunk ∈ st.chunks, chunk ≠ []

/-- The tier-1 ceiling of a pass that starts on `db`. -/
def passCeiling (bt : BuildTypeConfig) (win : Window) (db : Db) : Int :=
  calculateTier1Ceiling
    (effectiveBudget win.maxTokenBudget (bt.effectiveUtilization.getD EFFECTIVE_UTILIZATION_DEFAULT))
    (extractDeadbandConfig bt) (some (db.active win.id .two).length)

/-- The loaded messages before tier 1. -/
def olderOf (ceiling : Int) (messages : List Message) : List Message :=
  messages.filter fun m => m.sequenceNumber < tier1StartSeq messages (fillTier1 ceiling messages)

/-- `chunk_size` as a slice length; a negative one cuts nothing. -/
def chunkLength (config : Config) : Nat := (getTuning config .chunkSize 20).toNat

@[simp] theorem slices_zero (l : List Message) : slices 0 l = [] := by simp [slices]

theorem chunksOf_eq {l : List Message} {chunks : List (List Message)}
    (h : chunksOf (getTuning config .chunkSize 20) l = .ok chunks) :
    chunks = slices (chunkLength config) l := by
  unfold chunksOf at h
  split at h
  · cases h
  · split at h
    · rename_i hneg
      rw [chunkLength, Int.toNat_of_nonpos (Int.le_of_lt hneg), slices_zero]
      exact (Except.ok.inj h).symm
    · exact (Except.ok.inj h).symm

/-- What `calculate_compaction_state` computes from a loaded list, for any budget. -/
theorem calculateCompactionState_of {bt : BuildTypeConfig} {budget ceiling : Int} (hbt : st.buildTypeConfig = some bt)
    (hbudget : st.maxTokenBudget = some budget)
    (hceiling : ceiling = calculateTier1Ceiling budget (extractDeadbandConfig bt)
      (some (db.active st.contextWindowId .two).length))
    (hne : st.allMessages ≠ []) (h : calculateCompactionState config env db st = .ok st') :
    ∃ chunks atMax,
      st' = { st with tier1Messages := fillTier1 ceiling st.allMessages
                      olderMessages := olderOf ceiling st.allMessages
                      chunks := chunks, tier2AtMax := atMax } ∧
        chunks = slices (chunkLength config) ((olderOf ceiling st.allMessages).filter
          (db.watermark st.contextWindowId < ·.sequenceNumber)) ∧
        (chunks ≠ [] → atMax = decide ((extractDeadbandConfig bt).tier2MaxChunks ≤
          (db.active st.contextWindowId .two).length)) ∧
        (getTuning config .chunkSize 20 = 0 → olderOf ceiling st.allMessages = []) := by
  simp only [calculateCompactionState, if_neg hne] at h
  obtain ⟨bt', hbt', h⟩ := bind_eq_ok.mp h
  obtain ⟨budget', hbudget', h⟩ := bind_eq_ok.mp h
  obtain ⟨count, hcount, h⟩ := bind_eq_ok.mp h
  rw [hbt] at hbt'
  rw [hbudget] at hbudget'
  obtain rfl := Except.ok.inj hbt'
  obtain rfl := Except.ok.inj hbudget'
  obtain rfl := perform_eq_ok hcount
  rw [← hceiling] at h
  change (if olderOf ceiling st.allMessages = [] then _ else _) = _ at h
  split at h
  · rename_i hnil
    obtain rfl := Except.ok.inj h
    exact ⟨[], false, by rw [hnil], by rw [hnil]; simp, fun hc => absurd rfl hc, fun _ => hnil⟩
  · obtain ⟨existing, hex, h⟩ := bind_eq_ok.mp h
    obtain rfl := perform_eq_ok hex
    obtain ⟨chunks, hchunks, h⟩ := bind_eq_ok.mp h
    obtain rfl := Except.ok.inj h
    rw [← maxOf_eq_head_orderDesc] at hchunks
    refine ⟨_, _, rfl, chunksOf_eq hchunks, fun _ => rfl, fun h0 => ?_⟩
    rw [chunksOf, if_pos h0] at hchunks
    cases hchunks

theorem calculateCompactionState_eq {win : Window} {bt : BuildTypeConfig}
    (hcfg : Configured config win bt st) (hid : win.id = st.contextWindowId)
    (hne : st.allMessages ≠ []) (h : calculateCompactionState config env db st = .ok st') :
    ∃ chunks atMax,
      st' = { st with tier1Messages := fillTier1 (passCeiling bt win db) st.allMessages
                      olderMessages := olderOf (passCeiling bt win db) st.allMessages
                      chunks := chunks, tier2AtMax := atMax } ∧
        chunks = slices (chunkLength config) ((olderOf (passCeiling bt win db) st.allMessages).filter
          (db.watermark st.contextWindowId < ·.sequenceNumber)) ∧
        (chunks ≠ [] →
          atMax = decide ((extractDeadbandConfig bt).tier2MaxChunks ≤ (db.active win.id .two).length)) ∧
        (getTuning config .chunkSize 20 = 0 → olderOf (passCeiling bt win db) st.allMessages = []) := by
  rw [hid]
  exact calculateCompactionState_of hcfg.buildTypeConfig hcfg.maxTokenBudget (by rw [passCeiling, hid]) hne h

theorem calculateCompactionState_ok {win : Window} {bt : BuildTypeConfig}
    (hcfg : Configured config win bt st) (hid : win.id = st.contextWindowId)
    (hasc : Ascending (·.sequenceNumber) st.allMessages) (hne : st.allMessages ≠ [])
    (h : calculateCompactionState config env db st = .ok st') :
    ∃ tier1 older chunks atMax,
      st' = { st with tier1Messages := tier1, olderMessages := older, chunks := chunks
                      tier2AtMax := atMax } ∧
        Partitioned (db.watermark st.contextWindowId) (passCeiling bt win db) st' := by
  obtain ⟨chunks, atMax, rfl, hchunks, _, _⟩ := calculateCompactionState_eq hcfg hid hne h
  have happ := older_append_tier1 (passCeiling bt win db) hasc hne
  refine ⟨_, _, _, _, rfl, happ, fun init m hm => ?_, fillTier1_fits _ _, ?_, fun chunk hc => ?_⟩
  · change olderOf _ _ = _ at hm
    change olderOf _ _ ++ _ = _ at happ
    rw [hm, List.append_assoc] at happ
    exact fillTier1_stop happ.symm
  · rcases Nat.eq_zero_or_pos (chunkLength config) with h0 | hpos
    · rw [h0, slices_zero] at hchunks
      exact .inl hchunks
    · exact .inr (hchunks ▸ slices_flatten hpos _)
  · rcases Nat.eq_zero_or_pos (chunkLength config) with h0 | hpos
    · rw [h0, slices_zero] at hchunks
      exact absurd (hchunks ▸ hc) (List.not_mem_nil)
    · exact slices_ne_nil hpos _ _ (hchunks ▸ hc)

/-! ## The insert loop -/

/-- Position `s` lies in the range of some stored row of the window. -/
def Stored (db : Db) (w : Id) (s : Nat) : Prop := Covered (·.fromSeq) (·.toSeq) (db.summariesOf w) s

theorem stored_of_mem {r : Summary} {s : Nat} (hr : r ∈ db.summaries) (h : r.fromSeq ≤ s ∧ s ≤ r.toSeq) :
    Stored db r.contextWindowId s :=
  ⟨r, List.mem_filter.mpr ⟨hr, by simp⟩, h⟩

/-- A stored range stays stored. -/
theorem Keeps.stored {v : Id} {db db' : Db} {s : Nat} (h : Keeps db db')
    (hs : Stored db v s) : Stored db' v s := by
  obtain ⟨r, hr, hlo, hhi⟩ := hs
  obtain ⟨hmem, hv⟩ := List.mem_filter.mp hr
  obtain ⟨r', hr', hk⟩ := h.keys r hmem
  obtain ⟨hkw, _, hkf, hkt⟩ := Summary.key_inj hk
  have := stored_of_mem (s := s) hr' ⟨hkf ▸ hlo, hkt ▸ hhi⟩
  rwa [hkw, eq_of_beq hv] at this

/-- The chunks still to insert: non-empty, over consecutive sequence numbers
from `a` on, above the watermark and not past the conversation's end. -/
structure Ahead (db : Db) (w c : Id) (a : Nat) (chunks : List (List Message)) : Prop where
  nonempty : ∀ chunk ∈ chunks, chunk ≠ []
  numbered : Numbered (·.sequenceNumber) a chunks.flatten
  above : db.watermark w < a
  within : a + chunks.flatten.length ≤ db.count c + 1

/-- The ends of the next chunk, its members, and what is ahead of the rest. -/
theorem Ahead.cons {w c : Id} {a : Nat} {chunk : List Message} {rest : List (List Message)}
    (h : Ahead db w c a (chunk :: rest)) :
    ∃ first last, chunk.head? = some first ∧ chunk.getLast? = some last ∧ last ∈ chunk ∧
      first.sequenceNumber = a ∧ last.sequenceNumber + 1 = a + chunk.length ∧
      (∀ m ∈ chunk, a ≤ m.sequenceNumber ∧ m.sequenceNumber ≤ last.sequenceNumber) ∧
      (∀ m ∈ rest.flatten, last.sequenceNumber < m.sequenceNumber) ∧
      Ahead db w c (a + chunk.length) rest := by
  have hne := h.nonempty chunk List.mem_cons_self
  have hpos := List.length_pos_iff.mpr hne
  have hwithin := h.within
  rw [List.flatten_cons, List.length_append] at hwithin
  obtain ⟨hchunk, hrest⟩ := numbered_append.mp (List.flatten_cons ▸ h.numbered)
  have hlast : (chunk.getLast hne).sequenceNumber + 1 = a + chunk.length := by
    rw [List.getLast_eq_getElem, hchunk.getElem _ (by omega)]
    omega
  refine ⟨chunk.head hne, chunk.getLast hne, List.head?_eq_some_head hne,
    List.getLast?_eq_some_getLast hne, List.getLast_mem hne, ?_, hlast, fun m hm => ?_,
    fun m hm => ?_, fun x hx => h.nonempty x (List.mem_cons_of_mem _ hx), hrest, ?_, by omega⟩
  · rw [List.head_eq_getElem, hchunk.getElem 0 hpos, Nat.add_zero]
  · have := hchunk.mem hm
    omega
  · have := (hrest.mem hm).1
    omega
  · have := h.above
    omega

/-- Everything ahead is above the watermark. -/
theorem Ahead.watermark_lt {w c : Id} {a : Nat} {chunks : List (List Message)}
    (h : Ahead db w c a chunks) {chunk : List Message} {m : Message} (hc : chunk ∈ chunks)
    (hm : m ∈ chunk) : db.watermark w < m.sequenceNumber :=
  Nat.lt_of_lt_of_le h.above (h.numbered.mem (List.mem_flatten.mpr ⟨chunk, hc, hm⟩)).1

/-- What the insert loop has done with `results`, from `db` on. -/
structure Inserted (st : AssemblyState) (results : List (List Message × Option Text)) (db db' : Db) :
    Prop where
  valid : Valid db'
  evolves : Evolves st.contextWindowId db db'
  /-- The watermark stays, or moves up to a message of the chunks. -/
  mark : db'.watermark st.contextWindowId = db.watermark st.contextWindowId ∨
    ∃ m ∈ (results.map Prod.fst).flatten,
      db'.watermark st.contextWindowId = m.sequenceNumber ∧
        db.watermark st.contextWindowId < m.sequenceNumber
  /-- Up to the watermark every chunk was left without a summary or is stored. -/
  accounted : ∀ x ∈ results, ∀ m ∈ x.1, m.sequenceNumber ≤ db'.watermark st.contextWindowId →
    x.2 = none ∨ Stored db' st.contextWindowId m.sequenceNumber

section Loop

variable {win : Window} {a : Nat} {rest : List (List Message × Option Text)}

/-- The loop stopped before doing anything: nothing ahead is at the watermark. -/
theorem Inserted.stopped (st : AssemblyState) (hv : Valid db) {results : List (List Message × Option Text)}
    (hah : Ahead db st.contextWindowId st.conversationId a (results.map Prod.fst)) :
    Inserted st results db db := by
  refine ⟨hv, .refl _ _, .inl rfl, fun x hx m hm hle => ?_⟩
  exact absurd hle (Nat.not_le.mpr (hah.watermark_lt (List.mem_map_of_mem hx) hm))

/-- One chunk dealt with without moving the watermark, then the rest. -/
theorem Inserted.skip {db' : Db} {x : List Message × Option Text} (h : Inserted st rest db db')
    (hx : x.2 = none ∨ ∀ m ∈ x.1, Stored db st.contextWindowId m.sequenceNumber) :
    Inserted st (x :: rest) db db' := by
  refine ⟨h.valid, h.evolves, ?_, ?_⟩
  · rcases h.mark with hm | ⟨m, hm, hw, hlt⟩
    · exact .inl hm
    · exact .inr ⟨m, by simpa using .inr (by simpa using hm), hw, hlt⟩
  · intro y hy m hm hle
    rcases List.mem_cons.mp hy with rfl | hy
    · exact hx.imp_right fun hs => h.evolves.stored (hs m hm)
    · exact h.accounted y hy m hm hle

/-- One chunk stored, moving the watermark to its last message, then the rest. -/
theorem Inserted.stored {db₁ db' : Db} {x : List Message × Option Text} {last : Message}
    (h : Inserted st rest db₁ db') (hev : Evolves st.contextWindowId db db₁) (hlast : last ∈ x.1)
    (hmark : db₁.watermark st.contextWindowId = last.sequenceNumber)
    (habove : db.watermark st.contextWindowId < last.sequenceNumber)
    (hx : ∀ m ∈ x.1, Stored db₁ st.contextWindowId m.sequenceNumber) :
    Inserted st (x :: rest) db db' := by
  refine ⟨h.valid, hev.trans h.evolves, .inr ?_, ?_⟩
  · rcases h.mark with hm | ⟨m, hm, hw, hlt⟩
    · exact ⟨last, by simpa using .inl hlast, hm.trans hmark, habove⟩
    · exact ⟨m, by simpa using .inr (by simpa using hm), hw, by omega⟩
  · intro y hy m hm hle
    rcases List.mem_cons.mp hy with rfl | hy
    · exact .inr (h.evolves.stored (hx m hm))
    · exact h.accounted y hy m hm hle

/-- The row of the next chunk may be inserted, and moves the watermark to its
last message. -/
theorem insert_chunkRow {chunk : List Message} {first last : Message} {text : Text} {db₁ : Db}
    (hw : db.window? st.contextWindowId = some win) (hc : win.conversationId = st.conversationId)
    (hv : Valid db) (habove : db.watermark st.contextWindowId < first.sequenceNumber)
    (hle : first.sequenceNumber ≤ last.sequenceNumber)
    (hwithin : last.sequenceNumber ≤ db.count st.conversationId)
    (hins : db.insertSummary (chunkRow st chunk first last text) = .ok db₁) :
    Valid db₁ ∧ db₁.watermark st.contextWindowId = last.sequenceNumber ∧
      ∀ s, first.sequenceNumber ≤ s → s ≤ last.sequenceNumber → Stored db₁ st.contextWindowId s := by
  refine ⟨hv.insertSummary ⟨⟨win, hw, hc⟩, ⟨hle, hwithin⟩, ?_, ?_, fun _ => habove⟩ hins, ?_, ?_⟩
  · intro h0
    change first.sequenceNumber = 0 at h0
    omega
  · exact fun ht => nomatch ht
  · obtain ⟨_, rfl⟩ := Db.insertSummary_eq_ok.mp hins
    rw [Db.watermark, Db.active_append rfl, if_pos ⟨rfl, rfl, rfl⟩]
    exact @top_snoc _ Summary.fromSeq Summary.toSeq _ _ habove hle
  · intro s hlo hhi
    obtain ⟨_, rfl⟩ := Db.insertSummary_eq_ok.mp hins
    exact stored_of_mem (r := { chunkRow st chunk first last text with id := db.nextId })
      (List.mem_append_right _ (List.mem_singleton_self _)) ⟨hlo, hhi⟩

/-- A row under the key of the next chunk is stored: the chunk is skipped. -/
theorem Inserted.duplicate {db' : Db} {chunk : List Message} {first last : Message} {text : Text}
    (hah : Ahead db st.contextWindowId st.conversationId a (chunk :: rest.map Prod.fst))
    (hhead : chunk.head? = some first) (htail : chunk.getLast? = some last)
    (hdup : ∃ r ∈ db.summaries, r.key = (chunkRow st chunk first last text).key)
    (h : Inserted st rest db db') : Inserted st ((chunk, some text) :: rest) db db' := by
  obtain ⟨f, l, hhead', htail', _, hfirst, _, hmem, _, _⟩ := hah.cons
  obtain rfl := Option.some.inj (hhead'.symm.trans hhead)
  obtain rfl := Option.some.inj (htail'.symm.trans htail)
  obtain ⟨r, hr, hk⟩ := hdup
  obtain ⟨hkw, _, hkf, hkt⟩ := Summary.key_inj hk
  refine h.skip (.inr fun m hm => ?_)
  have hrange := hmem m hm
  have hstored := stored_of_mem (s := m.sequenceNumber) hr
    ⟨hkf.trans_le (by simpa [chunkRow, hfirst] using hrange.1), hkt ▸ hrange.2⟩
  rwa [hkw] at hstored

/-- The row of the next chunk is inserted, and the loop goes on from there. -/
theorem Inserted.insert {chunk : List Message} {first last : Message} {text : Text} {db₁ : Db}
    (hw : db.window? st.contextWindowId = some win) (hc : win.conversationId = st.conversationId)
    (hv : Valid db) (hah : Ahead db st.contextWindowId st.conversationId a (chunk :: rest.map Prod.fst))
    (hhead : chunk.head? = some first) (htail : chunk.getLast? = some last)
    (hins : db.insertSummary (chunkRow st chunk first last text) = .ok db₁) :
    db₁.window? st.contextWindowId = some win ∧ Valid db₁ ∧
      Ahead db₁ st.contextWindowId st.conversationId (a + chunk.length) (rest.map Prod.fst) ∧
      ∀ {db'}, Inserted st rest db₁ db' → Inserted st ((chunk, some text) :: rest) db db' := by
  obtain ⟨f, l, hhead', htail', hlast, hfirst, hlen, hmem, _, hrest⟩ := hah.cons
  obtain rfl := Option.some.inj (hhead'.symm.trans hhead)
  obtain rfl := Option.some.inj (htail'.symm.trans htail)
  have habove := hah.above
  have hwithin := hah.within
  have hpos : 0 < chunk.length := List.length_pos_of_mem hlast
  simp only [List.flatten_cons, List.length_append] at hwithin
  obtain ⟨hv₁, hmark, hstored⟩ := insert_chunkRow hw hc hv (by omega)
    (hmem f (List.mem_of_head? hhead)).2 (by omega) hins
  have hev : Evolves st.contextWindowId db db₁ := .of_insertSummary rfl hins
  have hx : ∀ m ∈ chunk, Stored db₁ st.contextWindowId m.sequenceNumber := by
    intro m hm
    exact hstored _ (hfirst ▸ (hmem m hm).1) (hmem m hm).2
  have habove₁ : db₁.watermark st.contextWindowId < a + chunk.length := by omega
  refine ⟨?_, hv₁, ?_, fun h => h.stored hev hlast hmark (by omega) hx⟩
  · obtain ⟨_, rfl⟩ := Db.insertSummary_eq_ok.mp hins
    exact hw
  · obtain ⟨_, rfl⟩ := Db.insertSummary_eq_ok.mp hins
    exact ⟨hrest.nonempty, hrest.numbered, habove₁, hrest.within⟩

theorem insertChunks_spec (budget : Int) (hc : win.conversationId = st.conversationId) :
    ∀ (results : List (List Message × Option Text)) (i : Nat) (p : Progress) (a : Nat),
      p.db.window? st.contextWindowId = some win → Valid p.db →
      Ahead p.db st.contextWindowId st.conversationId a (results.map Prod.fst) →
      Inserted st results p.db (insertChunks env st budget i results p).1.db
  | [], i, p, a, _, hv, hah => .stopped st hv hah
  | (chunk, none) :: rest, i, p, a, hw, hv, hah => by
    obtain ⟨first, last, _, _, _, _, _, _, _, hrest⟩ := hah.cons
    exact (insertChunks_spec budget hc rest (i + 1) p _ hw hv hrest).skip (.inl rfl)
  | (chunk, some text) :: rest, i, p, a, hw, hv, hah => by
    have hstop := Inserted.stopped st hv hah
    obtain ⟨first, last, hhead, htail, _, _, _, _, _, hrest⟩ := hah.cons
    have hskip := insertChunks_spec budget hc rest (i + 1) p _ hw hv hrest
    simp only [insertChunks, hhead, htail]
    split
    · exact hstop
    · split
      · exact hstop
      · rename_i hdup
        obtain ⟨r, hr, hk⟩ := List.any_eq_true.mp (perform_eq_ok hdup).symm
        exact hskip.duplicate hah hhead htail ⟨r, (Db.mem_active.mp hr).1, eq_of_beq hk⟩
      · split
        · exact hstop
        · rename_i e hins
          exact hskip.duplicate hah hhead htail (Db.insertSummary_eq_error (perform_eq_ok hins).symm).2
        · rename_i db₁ hins
          obtain ⟨hw₁, hv₁, hrest₁, hgo⟩ :=
            Inserted.insert hw hc hv hah hhead htail (perform_eq_ok hins).symm
          let p₁ : Progress := ⟨db₁, p.newSummaries ++ [text], p.cumulative + estimateTokens text⟩
          have hloop := hgo (insertChunks_spec budget hc rest (i + 1) p₁ _ hw₁ hv₁ hrest₁)
          split
          · exact hloop
          · split
            · exact hloop
            · exact hgo (.stopped st hv₁ hrest₁)

end Loop

/-! ## Chunk compaction -/

theorem summarizeChunk_none {reply : Except Exn Text} (h : summarizeChunk reply = .ok none) :
    ∃ e, reply = .error e := by
  unfold summarizeChunk at h
  split at h
  · cases h
  · exact ⟨_, rfl⟩

theorem gatherSummaries_ok : ∀ {i : Nat} {chunks : List (List Message)}
    {results : List (List Message × Option Text)}, gatherSummaries env i chunks = .ok results →
      results.map Prod.fst = chunks ∧
        ∀ k chunk, results[k]? = some (chunk, none) → ∃ e, env.chunkReply (i + k) = .error e
  | i, [], results, h => by
    obtain rfl := Except.ok.inj h
    exact ⟨rfl, fun _ _ hk => nomatch hk⟩
  | i, chunk :: rest, results, h => by
    obtain ⟨text, htext, h⟩ := bind_eq_ok.mp h
    obtain ⟨tail, htail, h⟩ := bind_eq_ok.mp h
    obtain rfl := Except.ok.inj h
    obtain ⟨hfst, hnone⟩ := gatherSummaries_ok htail
    refine ⟨by rw [List.map_cons, hfst], fun k c hk => ?_⟩
    cases k with
    | zero =>
      rw [List.getElem?_cons_zero, Option.some.injEq, Prod.mk.injEq] at hk
      exact summarizeChunk_none (hk.2 ▸ htext)
    | succ k =>
      rw [List.getElem?_cons_succ] at hk
      obtain ⟨e, he⟩ := hnone k c hk
      exact ⟨e, by rw [← he]; congr 1; omega⟩

/-- `tier2_budget + tier3_budget` of the pass. -/
def passBudget (st : AssemblyState) : Int :=
  summaryBudget (st.maxTokenBudget.getD 0) (extractDeadbandConfig (st.buildTypeConfig.getD {}))

/-- The ways out of `compact_tier1`: before the insert loop, with the tables
as they were, or as the loop ends. -/
inductive TierOne (env : Env) (db : Db) (st : AssemblyState) : Db → Except Exn AssemblyState → Prop where
  | raised (e : Exn) : TierOne env db st db (.error e)
  | noChunks (h : st.chunks = []) : TierOne env db st db (.ok { st with tier2Summaries := [] })
  | noPrompt (e : Exn) :
    TierOne env db st db (.ok { st with tier2Summaries := [], error := some (.promptLoading e) })
  | looped {results : List (List Message × Option Text)} {p : Progress} {raised : Option Exn}
    (gathered : gatherSummaries env 0 st.chunks = .ok results)
    (h : insertChunks env st (passBudget st) 0 results { db } = (p, raised)) :
    TierOne env db st p.db
      (match raised with
        | some e => .error e
        | none => .ok { st with tier2Summaries := p.newSummaries
                                hadErrors := st.hadErrors || results.any (·.2.isNone) })

theorem compactTier1_cases (env : Env) (db : Db) (st : AssemblyState) :
    TierOne env db st (compactTier1 env db st).1 (compactTier1 env db st).2 := by
  unfold compactTier1
  split
  · rename_i hnil
    exact .noChunks hnil
  · split
    · exact .raised _
    · split
      · split
        · exact .noPrompt _
        · exact .raised _
      · split
        · exact .raised _
        · rename_i results hresults
          dsimp only
          split
          · rename_i p e hloop
            exact .looped hresults hloop
          · rename_i p hloop
            exact .looped hresults hloop

/-- What `compact_tier1` does to the tables. -/
structure Compacted (env : Env) (st : AssemblyState) (db db' : Db) : Prop where
  valid : Valid db'
  evolves : Evolves st.contextWindowId db db'
  mark : db'.watermark st.contextWindowId = db.watermark st.contextWindowId ∨
    ∃ m ∈ st.chunks.flatten, db'.watermark st.contextWindowId = m.sequenceNumber ∧
      db.watermark st.contextWindowId < m.sequenceNumber
  /-- Up to the watermark, a chunk that is not stored is one whose LLM call failed. -/
  accounted : ∀ k chunk, st.chunks[k]? = some chunk → ∀ m ∈ chunk,
    m.sequenceNumber ≤ db'.watermark st.contextWindowId →
      (∃ e, env.chunkReply k = .error e) ∨ Stored db' st.contextWindowId m.sequenceNumber

theorem compactTier1_spec (env : Env) {win : Window} {a : Nat}
    (hw : db.window? st.contextWindowId = some win) (hc : win.conversationId = st.conversationId)
    (hv : Valid db) (hah : Ahead db st.contextWindowId st.conversationId a st.chunks) :
    Compacted env st db (compactTier1 env db st).1 := by
  have hstop : Compacted env st db db := by
    refine ⟨hv, .refl _ _, .inl rfl, fun k chunk hk m hm hle => ?_⟩
    exact absurd hle (Nat.not_le.mpr (hah.watermark_lt (List.mem_of_getElem? hk) hm))
  have h := compactTier1_cases env db st
  generalize (compactTier1 env db st).1 = db', (compactTier1 env db st).2 = out at h ⊢
  cases h with
  | raised | noChunks | noPrompt => exact hstop
  | @looped results p raised gathered h =>
    obtain ⟨hfst, hnone⟩ := gatherSummaries_ok gathered
    have hins : Inserted st results db (insertChunks env st (passBudget st) 0 results { db }).1.db :=
      insertChunks_spec _ hc results 0 { db } a hw hv (hfst ▸ hah)
    rw [h] at hins
    refine ⟨hins.valid, hins.evolves, hfst ▸ hins.mark, fun k chunk hk m hm hle => ?_⟩
    rw [← hfst, List.getElem?_map] at hk
    obtain ⟨⟨chunk', text⟩, hx, rfl⟩ := Option.map_eq_some_iff.mp hk
    rcases hins.accounted _ (List.mem_of_getElem? hx) m hm hle with hn | hs
    · refine .inl ?_
      obtain rfl : text = none := hn
      simpa using hnone k chunk' hx
    · exact .inr hs

/-! ## Full compaction -/

/-- Dropping the rows with the ids of the first `k`. -/
theorem filter_not_take {l : List Summary} (hnodup : (l.map (·.id)).Nodup) (k : Nat) :
    (l.filter fun r => !((l.take k).map (·.id)).contains r.id) = l.drop k := by
  conv_lhs => arg 2; rw [← List.take_append_drop k l]
  rw [← List.take_append_drop k l, List.map_append, List.nodup_append] at hnodup
  rw [List.filter_append, List.filter_eq_nil_iff.mpr, List.nil_append, List.filter_eq_self.mpr]
  · intro r hr
    simp only [Bool.not_eq_true', List.contains_eq_mem, decide_eq_false_iff_not]
    exact fun hmem => hnodup.2.2 _ hmem _ (List.mem_map_of_mem hr) rfl
  · intro r hr
    simp only [Bool.not_eq_true', List.contains_eq_mem, decide_eq_false_iff_not, not_not]
    exact List.mem_map_of_mem hr

theorem active_nodup (h : (db.summaries.map (·.id)).Nodup) (w : Id) (t : Tier) :
    ((db.active w t).map (·.id)).Nodup :=
  h.sublist (List.Sublist.map _ (List.filter_sublist.trans List.filter_sublist))

/-- The rows a transaction over the `k` oldest chunks leaves active. -/
theorem filter_not_oldest {w : Id} (hv : Valid db) (k : Nat) :
    ((db.active w .two).filter fun r => !(((db.active w .two).take k).map (·.id)).contains r.id) =
      (db.active w .two).drop k :=
  filter_not_take (active_nodup hv.nodup w .two) k

/-- An insert of a tier-3 row leaves the active chunks alone. -/
theorem active_two_insertSummary {row : Summary} {db' : Db} (w : Id) (ht : row.tier = .three)
    (h : db.insertSummary row = .ok db') : db'.active w .two = db.active w .two := by
  obtain ⟨_, rfl⟩ := Db.insertSummary_eq_ok.mp h
  rw [Db.active_append rfl, if_neg, List.append_nil]
  exact fun hact => nomatch ht.symm.trans hact.2.1

/-- Retiring the archival rows and the `k` oldest chunks of the window. -/
theorem retire_spec (st : AssemblyState) (hv : Valid db) (k : Nat) :
    Valid (retire db st ((db.active st.contextWindowId .two).take k)) ∧
      Evolves st.contextWindowId db (retire db st ((db.active st.contextWindowId .two).take k)) ∧
      (retire db st ((db.active st.contextWindowId .two).take k)).active st.contextWindowId .two =
        (db.active st.contextWindowId .two).drop k := by
  refine ⟨(hv.deactivate _).deactivate _, .trans (.of_deactivate fun r _ hp => ?_)
    (.of_deactivate fun r hr hp => ?_), ?_⟩
  · simp only [Bool.and_eq_true, beq_iff_eq] at hp
    exact hp.1.1
  · -- ids are unique, so the retired row is one of the window's chunks
    obtain ⟨r₀, hr₀, rfl⟩ := List.mem_map.mp hr
    have hid : (if (r₀.contextWindowId == st.contextWindowId && r₀.tier == .three && r₀.isActive) = true
        then { r₀ with isActive := false } else r₀).id = r₀.id := by split <;> rfl
    rw [hid] at hp
    obtain ⟨c, hc, hcid⟩ := List.mem_map.mp (List.contains_iff_mem.mp hp)
    obtain ⟨hcmem, hcw, _, _⟩ := Db.mem_active.mp (List.mem_of_mem_take hc)
    have : c = r₀ := List.inj_on_of_nodup_map hv.nodup hcmem hr₀ hcid
    subst this
    split <;> exact hcw
  · rw [retire, Db.active_deactivate, Db.active_deactivate, ← filter_not_oldest hv k]
    congr 1
    refine List.filter_eq_self.mpr fun r hr => ?_
    simp [(Db.mem_active.mp hr).2.2.1]

/-- A committed transaction over the `k` oldest chunks. -/
theorem archiveTransaction_spec {win : Window} {k : Nat} {header recent : Text} {db' : Db}
    (hw : db.window? st.contextWindowId = some win) (hc : win.conversationId = st.conversationId)
    (hv : Valid db)
    (h : archiveTransaction db st ((db.active st.contextWindowId .two).take k) header recent = .ok db') :
    Valid db' ∧ Evolves st.contextWindowId db db' ∧
      db'.active st.contextWindowId .two = (db.active st.contextWindowId .two).drop k := by
  obtain ⟨hv₂, hev₂, hact₂⟩ := retire_spec st hv k
  obtain ⟨db₁, hheader, h⟩ := bind_eq_ok.mp h
  change (retire db st ((db.active st.contextWindowId .two).take k)).insertSummary (headerRow st header) =
    .ok db₁ at hheader
  split at h
  case h_2 => cases h
  rename_i first last hfirst hlast
  have htake := List.take_sublist k (db.active st.contextWindowId .two)
  have hfirst_mem := htake.subset (List.mem_of_head? hfirst)
  have hlast_mem := htake.subset (List.mem_of_getLast? hlast)
  have hspan : first.fromSeq ≤ last.toSeq := by
    have hchain := (hv.chain st.contextWindowId).sublist htake
    have hrange := fun r hr => hv.activeRange st.contextWindowId .two r (htake.subset hr)
    rw [← hchain.top_eq_last hrange hlast]
    exact Nat.le_trans (hrange first (List.mem_of_head? hfirst)) (le_maxOf (List.mem_of_head? hfirst))
  have hwithin : last.toSeq ≤ db.count st.conversationId := by
    rw [← hc, ← hv.active_conversation hw hlast_mem]
    exact (hv.range last (Db.mem_active.mp hlast_mem).1).2
  have hpos := hv.active_two_pos hfirst_mem
  have hins₁ : Insertable (retire db st ((db.active st.contextWindowId .two).take k)) (headerRow st header) :=
    ⟨⟨win, hw, hc⟩, ⟨Nat.le_refl 0, Nat.zero_le _⟩, fun _ => rfl, fun _ => .inl rfl,
      fun ht => nomatch ht⟩
  have hv₁ := hv₂.insertSummary hins₁ hheader
  have hins : Insertable db₁
      (archivalRow st ((db.active st.contextWindowId .two).take k) first last recent) := by
    obtain ⟨_, rfl⟩ := Db.insertSummary_eq_ok.mp hheader
    refine ⟨⟨win, hw, hc⟩, ⟨hspan, hwithin⟩, fun h0 => absurd h0 hpos.ne', fun _ => .inr ?_,
      fun ht => nomatch ht⟩
    exact ⟨_, List.mem_append_right _ (List.mem_singleton_self _), rfl⟩
  have hev₁ : Evolves st.contextWindowId (retire db st ((db.active st.contextWindowId .two).take k)) db₁ :=
    .of_insertSummary rfl hheader
  have hev : Evolves st.contextWindowId db₁ db' := .of_insertSummary rfl h
  refine ⟨hv₁.insertSummary hins h, hev₂.trans (hev₁.trans hev), ?_⟩
  rw [active_two_insertSummary _ rfl h, active_two_insertSummary _ rfl hheader, hact₂]

/-- What `run_full_compaction` does to the tables. -/
theorem runFullCompaction_spec (env : Env) {win : Window} (hw : db.window? st.contextWindowId = some win)
    (hc : win.conversationId = st.conversationId) (hv : Valid db) :
    Valid (runFullCompaction env db st).1 ∧
      Evolves st.contextWindowId db (runFullCompaction env db st).1 ∧
      ∃ k, (runFullCompaction env db st).1.active st.contextWindowId .two =
        (db.active st.contextWindowId .two).drop k := by
  have h := runFullCompaction_cases env db st
  generalize (runFullCompaction env db st).1 = db', (runFullCompaction env db st).2 = out at h ⊢
  cases h with
  | raised | few | noPrompt | unanswered => exact ⟨hv, .refl _ _, 0, rfl⟩
  | committed header recent _ first last _ _ hcomm =>
    have htx := hcomm.ok
    rw [activeChunks, hv.orderAsc_active, consolidated_eq] at htx
    obtain ⟨hv', hev, hact⟩ := archiveTransaction_spec hw hc hv htx
    exact ⟨hv', hev, _, hact⟩

/-! ## The assembly state -/

theorem loadWindowConfig_state (h : loadWindowConfig config env db st = .ok st') :
    ∃ win bt b err, st' =
      { st with window := win, buildTypeConfig := bt, maxTokenBudget := b, error := err } := by
  obtain ⟨found, _, h⟩ := bind_eq_ok.mp h
  cases found with
  | none => exact ⟨_, _, _, _, (Except.ok.inj h).symm⟩
  | some win =>
    dsimp only at h
    split at h <;> exact ⟨_, _, _, _, (Except.ok.inj h).symm⟩

theorem loadMessages_state (h : loadMessages config env db st = .ok st') :
    ∃ rows, st' = { st with allMessages := rows } := by
  obtain ⟨limit, _, h⟩ := bind_eq_ok.mp h
  obtain ⟨rows, _, h⟩ := bind_eq_ok.mp h
  obtain ⟨cut, _, h⟩ := bind_eq_ok.mp h
  exact ⟨_, (Except.ok.inj h).symm⟩

theorem calculateCompactionState_state (h : calculateCompactionState config env db st = .ok st') :
    ∃ tier1 older chunks atMax, st' =
      { st with tier1Messages := tier1, olderMessages := older, chunks := chunks
                tier2AtMax := atMax } := by
  unfold calculateCompactionState at h
  split at h
  · exact ⟨_, _, _, _, (Except.ok.inj h).symm⟩
  · obtain ⟨bt, _, h⟩ := bind_eq_ok.mp h
    obtain ⟨budget, _, h⟩ := bind_eq_ok.mp h
    obtain ⟨count, _, h⟩ := bind_eq_ok.mp h
    dsimp only at h
    split at h
    · exact ⟨_, _, _, _, (Except.ok.inj h).symm⟩
    · obtain ⟨existing, _, h⟩ := bind_eq_ok.mp h
      obtain ⟨chunks, _, h⟩ := bind_eq_ok.mp h
      exact ⟨_, _, _, _, (Except.ok.inj h).symm⟩

theorem compactTier1_state (h : (compactTier1 env db st).2 = .ok st') :
    ∃ texts had err, st' = { st with tier2Summaries := texts, hadErrors := had, error := err } := by
  have hcases := compactTier1_cases env db st
  generalize (compactTier1 env db st).1 = db', (compactTier1 env db st).2 = out at h hcases
  cases hcases with
  | raised => cases h
  | noChunks | noPrompt => exact ⟨_, _, _, (Except.ok.inj h).symm⟩
  | @looped _ _ raised =>
    cases raised with
    | some e => cases h
    | none => exact ⟨_, _, _, (Except.ok.inj h).symm⟩

theorem runFullCompaction_state (h : (runFullCompaction env db st).2 = .ok st') :
    ∃ text had err, st' = { st with tier3Summary := text, hadErrors := had, error := err } := by
  have hcases := runFullCompaction_cases env db st
  generalize (runFullCompaction env db st).1 = db', (runFullCompaction env db st).2 = out at h hcases
  cases hcases with
  | raised => cases h
  | few | noPrompt | unanswered | committed => exact ⟨_, _, _, (Except.ok.inj h).symm⟩

theorem finalizeAssembly_state (h : (finalizeAssembly env db st).2 = .ok st') : st' = st := by
  unfold finalizeAssembly at h
  split at h
  · exact (Except.ok.inj h).symm
  · split at h
    · cases h
    · exact (Except.ok.inj h).symm

theorem releaseAssemblyLock_state (h : releaseAssemblyLock env st = .ok st') : st' = st := by
  unfold releaseAssemblyLock at h
  split at h
  · split at h
    · split at h
      · exact (Except.ok.inj h).symm
      · cases h
    · exact (Except.ok.inj h).symm
  · exact (Except.ok.inj h).symm

/-- The fields of the assembly state that only one node sets, or none. -/
theorem nodeBody_state {n : Node} (h : (nodeBody config env n db st).2 = .ok st') :
    st'.contextWindowId = st.contextWindowId ∧ st'.conversationId = st.conversationId ∧
      (n ≠ .loadMessages → st'.allMessages = st.allMessages) ∧
      (n ≠ .calculateCompactionState → st'.chunks = st.chunks ∧
        st'.olderMessages = st.olderMessages ∧ st'.tier1Messages = st.tier1Messages) := by
  cases n with
  | acquireAssemblyLock =>
    obtain ⟨_, _, _, rfl⟩ := acquireAssemblyLock_ok h
    exact ⟨rfl, rfl, fun _ => rfl, fun _ => ⟨rfl, rfl, rfl⟩⟩
  | loadWindowConfig =>
    obtain ⟨_, _, _, _, rfl⟩ := loadWindowConfig_state h
    exact ⟨rfl, rfl, fun _ => rfl, fun _ => ⟨rfl, rfl, rfl⟩⟩
  | loadMessages =>
    obtain ⟨_, rfl⟩ := loadMessages_state h
    exact ⟨rfl, rfl, fun hn => absurd rfl hn, fun _ => ⟨rfl, rfl, rfl⟩⟩
  | calculateCompactionState =>
    obtain ⟨_, _, _, _, rfl⟩ := calculateCompactionState_state h
    exact ⟨rfl, rfl, fun _ => rfl, fun hn => absurd rfl hn⟩
  | compactTier1 =>
    obtain ⟨_, _, _, rfl⟩ := compactTier1_state h
    exact ⟨rfl, rfl, fun _ => rfl, fun _ => ⟨rfl, rfl, rfl⟩⟩
  | runFullCompaction =>
    obtain ⟨_, _, _, rfl⟩ := runFullCompaction_state h
    exact ⟨rfl, rfl, fun _ => rfl, fun _ => ⟨rfl, rfl, rfl⟩⟩
  | finalizeAssembly =>
    obtain rfl := finalizeAssembly_state h
    exact ⟨rfl, rfl, fun _ => rfl, fun _ => ⟨rfl, rfl, rfl⟩⟩
  | releaseAssemblyLock =>
    obtain rfl := releaseAssemblyLock_state h
    exact ⟨rfl, rfl, fun _ => rfl, fun _ => ⟨rfl, rfl, rfl⟩⟩

end ContextBroker.StandardTiered
