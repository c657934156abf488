import ContextBroker.L3Assembly.SummaryRows

/-!
# What full compaction re-tiers

`run_full_compaction` keeps the last `tier2_min_chunks - 1` chunk rows and
folds the rest into one archival row over their span. When no two active
ranges meet, nothing covered is lost (`committed_spanned`), from any state.

The watermark is the end of the last kept row, so it stays as long as a row
is kept. With `tier2_min_chunks` at 1 or below every row is consolidated and
the watermark falls back to 0, which opens the archived range again:
`retiered_iff`.
-/
namespace ContextBroker.StandardTiered

open Rows Spans

/-- The active chunk rows of window `w` have ranges of which no two meet. -/
structure DisjointRanges (db : Db) (w : Id) : Prop where
  nonempty : ∀ r ∈ db.active w .two, r.fromSeq ≤ r.toSeq
  disjoint : (db.active w .two).Pairwise fun r r' => r.toSeq < r'.fromSeq ∨ r'.toSeq < r.fromSeq

/-- The transaction of `run_full_compaction` commits and leaves `db'`. -/
def CommitsTo (env : Env) (db : Db) (st : AssemblyState) (db' : Db) : Prop :=
  ∃ header recent st',
    archiveTransaction db st (consolidated (activeChunks db st) (passMin st - 1)) header recent =
      .ok db' ∧
    runFullCompaction env db st = (db', .ok st')

/-- How many of the oldest chunk rows are consolidated. -/
def retiredCount (db : Db) (st : AssemblyState) : Nat :=
  (activeChunks db st).length - (passMin st - 1).toNat

/-- The most recent chunk rows stay, and `r` is an active archival row over
the span of the others, clear of the kept rows. -/
structure Spanned (db : Db) (st : AssemblyState) (db' : Db) (r : Summary) : Prop where
  kept : activeChunks db' st = (activeChunks db st).drop (retiredCount db st)
  active : r ∈ db'.active st.contextWindowId .three ∧ r.id = db.nextId + 1
  span : ∃ first last, ((activeChunks db st).take (retiredCount db st)).head? = some first ∧
    ((activeChunks db st).take (retiredCount db st)).getLast? = some last ∧
      r.range = (first.fromSeq, last.toSeq)
  clear : ∀ k ∈ activeChunks db' st, r.toSeq < k.fromSeq ∨ k.toSeq < r.fromSeq
  covered : ∀ n, Covered (·.fromSeq) (·.toSeq) (db.active st.contextWindowId .two) n →
    Covered (·.fromSeq) (·.toSeq) (r :: db'.active st.contextWindowId .two) n

/-- And the watermark is not lowered. -/
structure Retiered (db : Db) (st : AssemblyState) (db' : Db) (r : Summary) : Prop
    extends Spanned db st db' r where
  watermark : db.watermark st.contextWindowId ≤ db'.watermark st.contextWindowId

section

variable {env : Env} {db db' : Db} {st : AssemblyState} {w : Id} {header recent : Text}
  {first last : Summary}

theorem mem_activeChunks {r : Summary} : r ∈ activeChunks db st ↔ r ∈ db.active st.contextWindowId .two :=
  (orderAsc_perm _ _).mem_iff

theorem DisjointRanges.chain (h : DisjointRanges db st.contextWindowId) :
    Chain (·.fromSeq) (·.toSeq) (activeChunks db st) :=
  chain_orderAsc h.nonempty h.disjoint

/-- `active` reads the summary rows only. -/
theorem active_congr (h : db'.summaries = db.summaries) (w : Id) (t : Tier) :
    db'.active w t = db.active w t := by
  simp only [Db.active, Db.summariesOf, h]

/-- The rows that stay active in tier 2. -/
theorem Committed.active_two {rows : List Summary}
    (h : Committed db st rows header recent first last db') :
    db'.active st.contextWindowId .two =
      (db.active st.contextWindowId .two).filter fun r => !(rows.map (·.id)).contains r.id := by
  have hnew : (db'.active st.contextWindowId .two) = (retire db st rows).active st.contextWindowId .two := by
    simp only [Db.active, Db.summariesOf, h.rows, List.filter_append]
    simp [headerRow, archivalRow]
  rw [hnew, retire, Db.active_deactivate, Db.active_deactivate]
  congr 1
  refine List.filter_eq_self.mpr fun r hr => ?_
  simp [(Db.mem_active.mp hr).2.2.1]

/-- In order: the `k` oldest are gone. -/
theorem Committed.chunks_drop (hids : (db.summaries.map (·.id)).Nodup)
    (hdisj : DisjointRanges db st.contextWindowId) {k : Nat}
    (h : Committed db st ((activeChunks db st).take k) header recent first last db') :
    activeChunks db' st = (activeChunks db st).drop k := by
  have hperm : (activeChunks db st).Perm (db.active st.contextWindowId .two) := orderAsc_perm _ _
  have hnodup : ((activeChunks db st).map (·.id)).Nodup :=
    (hperm.map (·.id)).nodup_iff.mpr (active_nodup hids _ _)
  have hchain := hdisj.chain.sublist (List.drop_sublist k (activeChunks db st))
  have hrange : ∀ r ∈ (activeChunks db st).drop k, r.fromSeq ≤ r.toSeq :=
    fun r hr => hdisj.nonempty r (mem_activeChunks.mp (List.mem_of_mem_drop hr))
  refine orderAsc_eq_of_perm ?_ (hchain.ascending hrange)
  rw [h.active_two, ← filter_not_take hnodup k]
  exact (hperm.filter _).symm

/-- The new archival row. -/
theorem Committed.archival_mem {rows : List Summary}
    (h : Committed db st rows header recent first last db') :
    { archivalRow st rows first last recent with id := db.nextId + 1 } ∈
      db'.active st.contextWindowId .three := by
  refine Db.mem_active.mpr ⟨?_, rfl, rfl, rfl⟩
  rw [h.rows]
  exact List.mem_append_right _ (List.mem_cons_of_mem _ (List.mem_singleton_self _))

/-- A commit loses nothing that was covered. -/
theorem Committed.spanned (hids : (db.summaries.map (·.id)).Nodup)
    (hdisj : DisjointRanges db st.contextWindowId)
    (h : Committed db st ((activeChunks db st).take (retiredCount db st)) header recent first last db') :
    ∃ r, Spanned db st db' r := by
  have hkept := h.chunks_drop hids hdisj
  have hchain := hdisj.chain
  have hrange : ∀ r ∈ activeChunks db st, r.fromSeq ≤ r.toSeq :=
    fun r hr => hdisj.nonempty r (mem_activeChunks.mp hr)
  have hwithin : ∀ r ∈ (activeChunks db st).take (retiredCount db st),
      first.fromSeq ≤ r.fromSeq ∧ r.toSeq ≤ last.toSeq :=
    fun r hr => (hchain.sublist (List.take_sublist _ _)).within
      (fun r hr => hrange r (List.mem_of_mem_take hr)) h.front h.back hr
  refine ⟨_, hkept, ⟨h.archival_mem, rfl⟩, ⟨first, last, h.front, h.back, rfl⟩, fun x hx => ?_,
    fun n hn => ?_⟩
  · rw [hkept] at hx
    have hlast := List.mem_of_getLast? h.back
    rw [← List.take_append_drop (retiredCount db st) (activeChunks db st)] at hchain
    exact .inl ((List.pairwise_append.mp hchain).2.2 last hlast x hx)
  · obtain ⟨x, hx, hlo, hhi⟩ := hn
    have hx := mem_activeChunks.mpr hx
    rw [← List.take_append_drop (retiredCount db st) (activeChunks db st)] at hx
    rcases List.mem_append.mp hx with hx | hx
    · obtain ⟨hfrom, hto⟩ := hwithin x hx
      exact ⟨_, List.mem_cons_self, Nat.le_trans hfrom hlo, Nat.le_trans hhi hto⟩
    · rw [← hkept] at hx
      exact ⟨x, List.mem_cons_of_mem _ (mem_activeChunks.mp hx), hlo, hhi⟩

theorem watermark_activeChunks (db : Db) (st : AssemblyState) :
    db.watermark st.contextWindowId = top (·.toSeq) (activeChunks db st) :=
  (maxOf_perm (orderAsc_perm _ _)).symm

/-- A committed transaction consolidates a row that ends above 0: the ranges
of the header and the archival row differ. -/
theorem Committed.watermark_pos (hdisj : DisjointRanges db st.contextWindowId)
    (h : Committed db st ((activeChunks db st).take (retiredCount db st)) header recent first last db') :
    0 < db.watermark st.contextWindowId := by
  refine Nat.pos_of_ne_zero fun h0 => h.keyed ?_
  have hzero : ∀ r ∈ (activeChunks db st).take (retiredCount db st), r.toSeq = 0 := by
    intro r hr
    have hle : r.toSeq ≤ db.watermark st.contextWindowId :=
      le_maxOf (mem_activeChunks.mp (List.mem_of_mem_take hr))
    omega
  have hfirst := List.mem_of_head? h.front
  have hle := hdisj.nonempty first (mem_activeChunks.mp (List.mem_of_mem_take hfirst))
  have hf : first.fromSeq = 0 := by
    have := hzero first hfirst
    omega
  have hl := hzero last (List.mem_of_getLast? h.back)
  simp [Summary.key, Summary.headerKey, archivalRow, hf, hl]

/-- The watermark after a commit is the end of the last kept row. -/
theorem Committed.watermark (hids : (db.summaries.map (·.id)).Nodup)
    (hdisj : DisjointRanges db st.contextWindowId)
    (h : Committed db st ((activeChunks db st).take (retiredCount db st)) header recent first last db') :
    db'.watermark st.contextWindowId =
      top (·.toSeq) ((activeChunks db st).drop (retiredCount db st)) := by
  rw [watermark_activeChunks, h.chunks_drop hids hdisj]

theorem Committed.watermark_eq (hids : (db.summaries.map (·.id)).Nodup)
    (hdisj : DisjointRanges db st.contextWindowId)
    (h : Committed db st ((activeChunks db st).take (retiredCount db st)) header recent first last db')
    (hmin : 2 ≤ passMin st) : db'.watermark st.contextWindowId = db.watermark st.contextWindowId := by
  have hrange : ∀ r ∈ activeChunks db st, r.fromSeq ≤ r.toSeq :=
    fun r hr => hdisj.nonempty r (mem_activeChunks.mp hr)
  have hne := List.length_pos_of_mem (List.mem_of_mem_take (List.mem_of_head? h.front))
  have hkeep : retiredCount db st < (activeChunks db st).length := by
    rw [retiredCount]
    omega
  rw [h.watermark hids hdisj, watermark_activeChunks, hdisj.chain.top_drop hrange hkeep]

/-- **When full compaction keeps the watermark**, from any state with unique
ids and ranges of which no two meet: exactly if it keeps a chunk row. -/
theorem retiered_iff (env : Env) (db db' : Db) (st : AssemblyState)
    (hids : (db.summaries.map (·.id)).Nodup) (hdisj : DisjointRanges db st.contextWindowId)
    (hcommit : CommitsTo env db st db') : (∃ r, Retiered db st db' r) ↔ 2 ≤ passMin st := by
  obtain ⟨header, recent, st', htx, _⟩ := hcommit
  rw [consolidated_eq] at htx
  obtain ⟨first, last, hcomm⟩ := archiveTransaction_committed htx
  constructor
  · intro ⟨r, hr⟩
    by_contra hmin
    have hall : retiredCount db st = (activeChunks db st).length := by
      rw [retiredCount]
      omega
    have hpos := hcomm.watermark_pos hdisj
    have hle := hr.watermark
    rw [Committed.watermark hids hdisj hcomm, hall, List.drop_length] at hle
    exact absurd (Nat.lt_of_lt_of_le hpos hle) (Nat.lt_irrefl 0)
  · intro hmin
    obtain ⟨r, hr⟩ := hcomm.spanned hids hdisj
    exact ⟨r, hr, (hcomm.watermark_eq hids hdisj hmin).ge⟩

/-! ## In a run -/

theorem disjointRanges_of_valid (hv : Valid db) (w : Id) : DisjointRanges db w :=
  ⟨hv.activeRange w .two, (hv.chain w).imp .inl⟩

theorem activeChunks_eq (hv : Valid db) (st : AssemblyState) :
    activeChunks db st = db.active st.contextWindowId .two :=
  hv.orderAsc_active _

theorem watermark_runFullCompaction (env : Env) (hv : Valid db) (hmin : 2 ≤ passMin st) :
    (runFullCompaction env db st).1.watermark st.contextWindowId = db.watermark st.contextWindowId := by
  have h := runFullCompaction_cases env db st
  generalize (runFullCompaction env db st).1 = db', (runFullCompaction env db st).2 = out at h ⊢
  cases h with
  | raised | few | noPrompt | unanswered => rfl
  | committed header recent _ first last _ _ hcomm =>
    rw [consolidated_eq] at hcomm
    exact hcomm.watermark_eq hv.nodup (disjointRanges_of_valid hv _) hmin

end

/-- An active chunk row over message `n` in window 1. -/
def singleChunk (n : Nat) : Summary :=
  { id := n, conversationId := 0, contextWindowId := 1, summaryText := ['s'], tier := .two
    fromSeq := n, toSeq := n, messageCount := some 1 }

/-- Three chunks in window 1. -/
def threeChunks : Db := { summaries := [singleChunk 1, singleChunk 2, singleChunk 3], nextId := 4 }

/-- A pass on window 1 with `tier2_min_chunks` at `n`. -/
def keeping (n : Int) : AssemblyState :=
  { contextWindowId := 1, conversationId := 0, buildTypeConfig := some { tier2MinChunks := some n } }

theorem threeChunks_disjoint : DisjointRanges threeChunks 1 := ⟨by decide, by decide⟩

theorem commitsTo_keeping {n : Int} {db' : Db}
    (htx : archiveTransaction threeChunks (keeping n)
      (consolidated (activeChunks threeChunks (keeping n)) (passMin (keeping n) - 1)) ['s'] ['s'] = .ok db')
    (hrun : runFullCompaction (calm ['s']) threeChunks (keeping n) =
      (db', .ok { keeping n with tier3Summary := some "s\n\ns".toList })) :
    CommitsTo (calm ['s']) threeChunks (keeping n) db' :=
  ⟨['s'], ['s'], _, htx, hrun⟩

theorem retiered_iff_keeping :
    (∃ r, Retiered threeChunks (keeping 2) (runFullCompaction (calm ['s']) threeChunks (keeping 2)).1 r) ↔
      2 ≤ passMin (keeping 2) :=
  retiered_iff (calm ['s']) threeChunks _ (keeping 2) (by decide) threeChunks_disjoint
    (commitsTo_keeping (by decide +kernel) (by decide +kernel))

/-- With `tier2_min_chunks` at 1 the watermark falls from 3 to 0. -/
theorem retiered_false :
    ¬ ∀ (env : Env) (db db' : Db) (st : AssemblyState), (db.summaries.map (·.id)).Nodup →
      DisjointRanges db st.contextWindowId → CommitsTo env db st db' → ∃ r, Retiered db st db' r := by
  intro h
  obtain ⟨r, hr⟩ := h (calm ['s']) threeChunks
    (runFullCompaction (calm ['s']) threeChunks (keeping 1)).1 (keeping 1) (by decide)
    threeChunks_disjoint (commitsTo_keeping (by decide +kernel) (by decide +kernel))
  have hlow : (runFullCompaction (calm ['s']) threeChunks (keeping 1)).1.watermark 1 <
      threeChunks.watermark 1 := by
    decide +kernel
  exact absurd hr.watermark (Nat.not_le.mpr hlow)

end ContextBroker.StandardTiered
