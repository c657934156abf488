import ContextBroker.L3Assembly.FullCompaction
import ContextBroker.L3Assembly.Retiering

/-!
# Chunk rows tile the conversation upwards

`Sealed`: the ranges of all chunk rows of a window, retired ones included,
follow one another in the order of insertion, and the last one ends at the
watermark. A pass appends ranges above the watermark, and a full compaction
that keeps a row leaves the watermark where it is, so with
`tier2_min_chunks` at 2 or more a range is never opened again
(`sealed_run`).
-/
namespace ContextBroker

open Rows Spans StandardTiered

structure Sealed (db : Db) (w : Id) : Prop where
  chain : Chain Prod.fst Prod.snd (db.chunkRanges w)
  nonempty : ∀ x ∈ db.chunkRanges w, x.1 ≤ x.2
  top : top Prod.snd (db.chunkRanges w) = db.watermark w

section

variable {env : Env} {db db' : Db} {st : AssemblyState} {w : Id}

/-! ## The ranges after each statement -/

theorem chunkRanges_congr (h : db'.summaries = db.summaries) (w : Id) :
    db'.chunkRanges w = db.chunkRanges w := by
  simp only [Db.chunkRanges, Db.summariesOf, h]

theorem chunkRanges_append {rows : List Summary} (h : db'.summaries = db.summaries ++ rows) (w : Id) :
    db'.chunkRanges w = db.chunkRanges w ++
      ((rows.filter (·.contextWindowId == w)).filter (·.tier == .two)).map Summary.range := by
  simp only [Db.chunkRanges, Db.summariesOf, h, List.filter_append, List.map_append]

theorem chunkRanges_deactivate (p : Summary → Bool) (w : Id) :
    (db.deactivate p).chunkRanges w = db.chunkRanges w := by
  have hkey : ∀ r : Summary, (if p r then { r with isActive := false } else r).key = r.key := by
    intro r
    split <;> rfl
  have hcols := fun r => Summary.key_inj (hkey r)
  simp only [Db.chunkRanges, Db.summariesOf, Db.deactivate, List.filter_map, List.map_map]
  congr 1
  · funext r
    exact Prod.ext (hcols r).2.2.1 (hcols r).2.2.2
  · congr 1
    · funext r
      exact congrArg (· == Tier.two) (hcols r).2.1
    · congr 1
      funext r
      exact congrArg (· == w) (hcols r).1

/-- Full compaction touches no range. -/
theorem chunkRanges_committed {rows : List Summary} {header recent : Text} {first last : Summary}
    (h : Committed db st rows header recent first last db') (w : Id) :
    db'.chunkRanges w = db.chunkRanges w := by
  rw [chunkRanges_append h.rows, retire, chunkRanges_deactivate, chunkRanges_deactivate,
    List.filter_eq_nil_iff.mpr, List.map_nil, List.append_nil]
  intro r hr
  have hr := List.mem_of_mem_filter hr
  simp only [List.mem_cons, List.not_mem_nil, or_false] at hr
  rcases hr with rfl | rfl <;> simp [headerRow, archivalRow]

/-- Full compaction of any window, however it ends. -/
theorem chunkRanges_runFullCompaction (env : Env) (db : Db) (st : AssemblyState) (w : Id) :
    (runFullCompaction env db st).1.chunkRanges w = db.chunkRanges w := by
  have h := runFullCompaction_cases env db st
  generalize (runFullCompaction env db st).1 = db', (runFullCompaction env db st).2 = out at h ⊢
  cases h with
  | raised | few | noPrompt | unanswered => rfl
  | committed header recent _ first last _ _ hcomm => exact chunkRanges_committed hcomm w

section Rows

variable {kept : List (List Message × Text)} {rows : List Summary}

theorem chunkRanges_own (hrows : ChunkRows st kept rows)
    (h : db'.summaries = db.summaries ++ rows) :
    db'.chunkRanges st.contextWindowId = db.chunkRanges st.contextWindowId ++
      kept.map fun x => chunkRange x.1 := by
  rw [chunkRanges_append h, List.filter_eq_self.mpr, List.filter_eq_self.mpr, hrows.ranges]
  · intro r hr
    simp [(hrows.owned r hr).1]
  · intro r hr
    simp [(hrows.owned r (List.mem_of_mem_filter hr)).2.1]

theorem chunkRanges_other (hrows : ChunkRows st kept rows) (hw : w ≠ st.contextWindowId)
    (h : db'.summaries = db.summaries ++ rows) : db'.chunkRanges w = db.chunkRanges w := by
  have hnone : rows.filter (·.contextWindowId == w) = [] := by
    refine List.filter_eq_nil_iff.mpr fun r hr => ?_
    simpa [(hrows.owned r hr).1] using hw.symm
  rw [chunkRanges_append h, hnone, List.filter_nil, List.map_nil, List.append_nil]

/-- All appended rows are active. -/
theorem active_own (hrows : ChunkRows st kept rows) (h : db'.summaries = db.summaries ++ rows) :
    db'.active st.contextWindowId .two = db.active st.contextWindowId .two ++ rows := by
  simp only [Db.active, Db.summariesOf, h, List.filter_append]
  congr 1
  rw [List.filter_eq_self.mpr, List.filter_eq_self.mpr]
  · intro r hr
    simp [(hrows.owned r hr).1]
  · intro r hr
    have hown := hrows.owned r (List.mem_of_mem_filter hr)
    simp [hown.2.1, hown.2.2]

theorem maxOf_map {α β : Type} (key : β → Nat) (f : α → β) (l : List α) :
    maxOf key (l.map f) = maxOf (fun a => key (f a)) l := by
  induction l with
  | nil => rfl
  | cons a l ih => simp [ih]

/-- Ranges that follow one another above the top extend the tiling. -/
theorem Sealed.append (hs : Sealed db st.contextWindowId) (hrows : ChunkRows st kept rows)
    (h : db'.summaries = db.summaries ++ rows)
    (hchain : Chain Prod.fst Prod.snd (kept.map fun x => chunkRange x.1))
    (hkept : ∀ x ∈ kept, db.watermark st.contextWindowId < (chunkRange x.1).1 ∧
      (chunkRange x.1).1 ≤ (chunkRange x.1).2) : Sealed db' st.contextWindowId := by
  have hranges := chunkRanges_own hrows h
  refine ⟨?_, fun x hx => ?_, ?_⟩
  · rw [hranges]
    refine List.pairwise_append.mpr ⟨hs.chain, hchain, fun x hx y hy => ?_⟩
    obtain ⟨k, hk, rfl⟩ := List.mem_map.mp hy
    have hle : x.2 ≤ Spans.top Prod.snd (db.chunkRanges st.contextWindowId) := le_maxOf hx
    rw [hs.top] at hle
    have := (hkept k hk).1
    omega
  · rw [hranges] at hx
    rcases List.mem_append.mp hx with hx | hx
    · exact hs.nonempty x hx
    · obtain ⟨k, hk, rfl⟩ := List.mem_map.mp hx
      exact (hkept k hk).2
  · have htop := hs.top
    have hrow : maxOf Prod.snd (kept.map fun x => chunkRange x.1) = maxOf (·.toSeq) rows := by
      rw [← hrows.ranges, maxOf_map]
      rfl
    rw [Spans.top] at htop ⊢
    rw [hranges, maxOf_append, htop, hrow, Db.watermark, Db.watermark, active_own hrows h, maxOf_append]

end Rows

/-! ## The chunks of a pass -/

/-- The chunks ahead follow one another from `a` on. -/
theorem StandardTiered.Ahead.chain {c a : Nat} {chunks : List (List Message)} (h : Ahead db w c a chunks) :
    Chain Prod.fst Prod.snd (chunks.map chunkRange) ∧
      ∀ x ∈ chunks.map chunkRange, a ≤ x.1 ∧ x.1 ≤ x.2 := by
  induction chunks generalizing a with
  | nil => exact ⟨List.Pairwise.nil, fun _ hx => nomatch hx⟩
  | cons chunk rest ih =>
    obtain ⟨first, last, hhead, htail, hlast, hfirst, hlen, _, _, hrest⟩ := h.cons
    obtain ⟨hchain, hbounds⟩ := ih hrest
    have hpos := List.length_pos_of_mem hlast
    rw [List.map_cons, chunkRange_eq hhead htail]
    refine ⟨List.pairwise_cons.mpr ⟨fun x hx => ?_, hchain⟩, fun x hx => ?_⟩
    · have := (hbounds x hx).1
      dsimp only
      omega
    · rcases List.mem_cons.mp hx with rfl | hx
      · dsimp only
        omega
      · have := hbounds x hx
        omega

end

/-! ## Passes -/

section

variable {config : Config} {env : Env} {win : Window} {db₀ : Db} {s : PassState}

/-- The chunks `compact_tier1` finds are above the watermark. -/
theorem StandardTiered.Enters.ahead (h : Enters config env win db₀ .compactTier1 s) (hv : Valid db₀)
    (hw : db₀.window? win.id = some win) :
    ∃ a, Ahead s.db s.st.contextWindowId s.st.conversationId a s.st.chunks := by
  obtain ⟨hb, hne, bt, _, hp⟩ := (h.known hv hw).1
  exact hp.ahead hb hne

theorem sealed_compactTier1 (h : Enters config env win db₀ .compactTier1 s) (hv : Valid db₀)
    (hw : db₀.window? win.id = some win) (hs : Sealed s.db s.st.contextWindowId) :
    Sealed (compactTier1 env s.db s.st).1 s.st.contextWindowId := by
  obtain ⟨kept, rows, hsub, hrows, happ, _, _⟩ := compactTier1_rows env s.db s.st
  obtain ⟨a, hah⟩ := h.ahead hv hw
  obtain ⟨hchain, hbounds⟩ := hah.chain
  have hmap : (kept.map fun x => chunkRange x.1).Sublist (s.st.chunks.map chunkRange) := by
    simpa [List.map_map, Function.comp_def] using hsub.map chunkRange
  refine hs.append hrows happ (hchain.sublist hmap) fun x hx => ?_
  have hx := hbounds _ (hmap.subset (List.mem_map_of_mem hx))
  exact ⟨Nat.lt_of_lt_of_le hah.above hx.1, hx.2⟩

theorem sealed_runFullCompaction {bt : BuildTypeConfig} (hv : Valid s.db)
    (hbt : s.st.buildTypeConfig = some bt) (hmin : 2 ≤ (extractDeadbandConfig bt).tier2MinChunks)
    (hs : Sealed s.db s.st.contextWindowId) :
    Sealed (runFullCompaction env s.db s.st).1 s.st.contextWindowId := by
  have hranges := chunkRanges_runFullCompaction env s.db s.st s.st.contextWindowId
  have hpass : 2 ≤ passMin s.st := by
    rw [passMin, hbt]
    exact hmin
  have hmark := watermark_runFullCompaction env hv hpass
  exact ⟨hranges ▸ hs.chain, hranges ▸ hs.nonempty, by rw [hranges, hmark]; exact hs.top⟩

/-- Rows written for another window leave the ranges of `w` alone. -/
theorem chunkRanges_pass {w : Id} (hv : Valid db₀) (hw : db₀.window? win.id = some win)
    (hne : w ≠ win.id) {e : Option Exn} (h : Course config env win db₀ e s) :
    s.db.chunkRanges w = db₀.chunkRanges w := by
  refine h.rows (P := fun db => db.chunkRanges w = db₀.chunkRanges w) ?_ rfl ?_ ?_
  · exact fun _ _ hrows hP => (chunkRanges_congr hrows w).trans hP
  · intro s hs hP
    obtain ⟨kept, rows, _, hrows, happ, _, _⟩ := compactTier1_rows env s.db s.st
    have hid := (Assertion.effect _ (hs.known hv hw).1).windowId
    exact (chunkRanges_other hrows (hid ▸ hne) happ).trans hP
  · exact fun s _ hP => (chunkRanges_runFullCompaction env s.db s.st w).trans hP

/-- `tier2_min_chunks` of the configuration of a pass is at least 2. -/
def KeepsChunk (config : Config) (_ : Env) (win : Window) (_ : Db) : Prop :=
  ∀ bt, getBuildTypeConfig config win.buildType = .ok bt → 2 ≤ (extractDeadbandConfig bt).tier2MinChunks

theorem sealed_pass (hv : Valid db₀) (hw : db₀.window? win.id = some win)
    (hkeep : KeepsChunk config env win db₀) (hs : Sealed db₀ win.id) {e : Option Exn}
    (h : Course config env win db₀ e s) : Sealed s.db win.id := by
  refine h.rows (P := fun db => Sealed db win.id) ?_ hs ?_ ?_
  · intro db db' hrows hP
    have hranges := chunkRanges_congr hrows win.id
    have hmark : db'.watermark win.id = db.watermark win.id := by
      rw [Db.watermark, Db.watermark, active_congr hrows]
    exact ⟨hranges ▸ hP.chain, hranges ▸ hP.nonempty, by rw [hranges, hmark]; exact hP.top⟩
  · intro s hs hP
    have hid := (Assertion.effect _ (hs.known hv hw).1).windowId
    have := sealed_compactTier1 hs hv hw (hid ▸ hP)
    rwa [hid] at this
  · intro s hs hP
    have heff := Assertion.effect _ (hs.known hv hw).1
    obtain ⟨_, bt, hplan⟩ := (hs.known hv hw).2
    have := @sealed_runFullCompaction env s _ heff.valid hplan.configured.buildTypeConfig
      (hkeep bt hplan.configured.accepted) (heff.windowId ▸ hP)
    rwa [heff.windowId] at this

end

/-! ## Runs -/

theorem sealed_empty (w : Id) : Sealed {} w := ⟨List.Pairwise.nil, (fun _ hx => nomatch hx), rfl⟩

theorem sealed_congr {db db' : Db} {w : Id} (hrows : db'.summaries = db.summaries) (h : Sealed db w) :
    Sealed db' w := by
  have hranges := chunkRanges_congr hrows w
  have hmark : db'.watermark w = db.watermark w := by
    rw [Db.watermark, Db.watermark, active_congr hrows]
  exact ⟨hranges ▸ h.chain, hranges ▸ h.nonempty, by rw [hranges, hmark]; exact h.top⟩

theorem sealed_run {evs : List Event} {w : Id} (h : EveryPass evs w KeepsChunk) :
    Sealed (broker.run evs) w := by
  refine h.rows_inv (I := fun db => Sealed db w) (fun _ _ => sealed_congr) (sealed_empty w) ?_ ?_
  · rintro config env win db o hv hw rfl hkeep _ hcourse hs
    exact sealed_pass hv hw hkeep hs hcourse
  · intro config env win db o hv hw hne ho hcourse hs
    obtain ⟨win', hwin', hid, heff⟩ := passOutcome_effect hv ho
    have hranges := chunkRanges_pass hv hw hne hcourse
    have hmark : o.final.db.watermark w = db.watermark w := by
      rw [Db.watermark, Db.watermark, heff.evolves.others w (hid ▸ hne)]
    exact ⟨hranges ▸ hs.chain, hranges ▸ hs.nonempty, by rw [hranges, hmark]; exact hs.top⟩

/-- **Ranges never overlap** in a run whose passes on the window keep a chunk
row: active ranges are disjoint and non-empty, and each row inserted lies
above all inserted before it. -/
theorem ranges_disjoint (evs : List Event) (w : Id) (h : EveryPass evs w KeepsChunk) :
    DisjointRanges (broker.run evs) w ∧ Chain Prod.fst Prod.snd ((broker.run evs).chunkRanges w) :=
  ⟨disjointRanges_of_valid (valid_run evs) w, (sealed_run h).chain⟩

theorem keepsChunk_default {config : Config} (hconfig : config.buildTypes = defaultConfig.buildTypes)
    (env : Env) (win : Window) (db : Db) : KeepsChunk config env win db := by
  intro bt h
  obtain ⟨buildType, hb⟩ : ∃ b, win.buildType = b := ⟨_, rfl⟩
  rw [hb, getBuildTypeConfig, hconfig, ← getBuildTypeConfig] at h
  cases buildType with
  | slidingWindow | tieredSummary | enriched =>
    have hbt := Except.ok.inj (h.symm.trans (by decide +kernel : _ = Except.ok ({} : BuildTypeConfig)))
    subst hbt
    decide
  | other name => cases h

theorem ranges_disjoint_beforeFirst :
    DisjointRanges (broker.run beforeFirst) 1 ∧
      Chain Prod.fst Prod.snd ((broker.run beforeFirst).chunkRanges 1) := by
  refine ranges_disjoint beforeFirst 1 (.of_mem fun config env win db hmem => ?_)
  have hconfig : config = singleConfig := by
    simp [beforeFirst, opened, chat, say] at hmem
    exact hmem.1
  subst hconfig
  exact keepsChunk_default rfl env win db

end ContextBroker
