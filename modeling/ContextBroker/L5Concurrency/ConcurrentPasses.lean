import ContextBroker.L5Concurrency.PassStatements

/-!
# Passes at once

Any number of passes, also on one window, interleaved statement by statement
with each other and with the rest of the broker. Nothing is assumed about
`pg_try_advisory_lock`: two passes on a window may both be told that they hold
it. A `SELECT`, an `INSERT` and the archival transaction are atomic.

Summary rows are appended and never change but for `is_active`, so what a pass
once read of their ids and keys stays true. `At` says what a pass may rely on
at each of its statements, `Planned` what stays true of the chunks it has cut.

* `accounted_reachable`: also here every message at or below the watermark
  lies in the range of a stored row, or a pass moved the watermark past it that
  had not loaded it or whose call for its chunk had failed.
* `overlap_unseen`: chunk rows of a window whose ranges meet were stored by
  different passes, and neither pass had seen the row of the other.
-/
namespace ContextBroker.ConcurrentPasses

open Rows StandardTiered LTS

/-! ## Rows by id and key -/

abbrev Key : Type := Id × Tier × Nat × Nat

/-- The columns of the summary rows that never change. -/
def rowKeys (db : Db) : List (Id × Key) := db.summaries.map fun r => (r.id, r.key)

/-- Row `id` is a chunk row of window `w` over `lo, ..., hi`. -/
def ChunkAt (db : Db) (w id : Id) (lo hi : Nat) : Prop := (id, (w, Tier.two, lo, hi)) ∈ rowKeys db

instance (db : Db) (w id : Id) (lo hi : Nat) : Decidable (ChunkAt db w id lo hi) := inferInstanceAs (Decidable (_ ∈ _))

/-- What the constraints of the tables and the numbering of messages give. -/
structure Tables (db : Db) : Prop where
  consecutive : db.Consecutive
  fresh : ∀ x ∈ rowKeys db, x.1 < db.nextId
  ids : ((rowKeys db).map Prod.fst).Nodup
  keys : ((rowKeys db).map Prod.snd).Nodup

section Tables

variable {db db' : Db}

theorem mem_rowKeys {r : Summary} (h : r ∈ db.summaries) : (r.id, r.key) ∈ rowKeys db :=
  List.mem_map_of_mem h

theorem stored_of_chunkAt {w id : Id} {lo hi n : Nat} (h : ChunkAt db w id lo hi) (hlo : lo ≤ n) (hhi : n ≤ hi) :
    Stored db w n := by
  obtain ⟨r, hr, hkey⟩ := List.mem_map.mp h
  simp only [Summary.key, Prod.mk.injEq] at hkey
  obtain ⟨-, rfl, -, rfl, rfl⟩ := hkey
  exact stored_of_mem hr ⟨hlo, hhi⟩

/-- What is stored stays stored. -/
theorem Stored.mono {w : Id} {n : Nat} (h : Stored db w n) (hsub : rowKeys db ⊆ rowKeys db') : Stored db' w n := by
  obtain ⟨r, hr, hlo, hhi⟩ := h
  obtain ⟨hmem, hw⟩ := List.mem_filter.mp hr
  obtain ⟨r', hr', hkey⟩ := List.mem_map.mp (hsub (mem_rowKeys hmem))
  simp only [Summary.key, Prod.mk.injEq] at hkey
  obtain ⟨-, hw', -, hlo', hhi'⟩ := hkey
  have hwin : r'.contextWindowId = w := hw'.trans (by simpa using hw)
  exact hwin ▸ stored_of_mem hr' ⟨hlo'.trans_le hlo, hhi.trans_eq hhi'.symm⟩

/-- A statement that leaves the ids and keys of the summary rows. -/
theorem Tables.same (h : Tables db) (hc : db'.Consecutive) (hrows : rowKeys db' = rowKeys db)
    (hid : db.nextId ≤ db'.nextId) : Tables db' where
  consecutive := hc
  fresh x hx := Nat.lt_of_lt_of_le (h.fresh x (hrows ▸ hx)) hid
  ids := hrows ▸ h.ids
  keys := hrows ▸ h.keys

theorem rowKeys_deactivate (p : Summary → Bool) : rowKeys (db.deactivate p) = rowKeys db := by
  simp only [rowKeys, Db.deactivate, List.map_map]
  refine List.map_congr_left fun r _ => ?_
  simp only [Function.comp]
  split
  · rfl
  · rfl

theorem rowKeys_insertSummary {row : Summary} (h : db.insertSummary row = .ok db') :
    rowKeys db' = rowKeys db ++ [(db.nextId, row.key)] := by
  obtain ⟨-, rfl⟩ := Db.insertSummary_eq_ok.mp h
  simp [rowKeys, Summary.key]

/-- The row of an insert, by its key. -/
theorem chunkAt_new {row : Summary} {w : Id} {lo hi : Nat} (hrows : rowKeys db' = rowKeys db ++ [(db.nextId, row.key)])
    (hkey : row.key = (w, .two, lo, hi)) : ChunkAt db' w db.nextId lo hi := by
  rw [ChunkAt, hrows, hkey]
  exact List.mem_append_right _ (List.mem_singleton_self _)

theorem Tables.insertSummary {row : Summary} (h : Tables db) (hins : db.insertSummary row = .ok db') :
    Tables db' := by
  have hrows := rowKeys_insertSummary hins
  obtain ⟨hkey, rfl⟩ := Db.insertSummary_eq_ok.mp hins
  refine ⟨h.consecutive, fun x hx => ?_, ?_, ?_⟩
  · rw [hrows] at hx
    rcases List.mem_append.mp hx with hx | hx
    · exact Nat.lt_succ_of_lt (h.fresh x hx)
    · rw [List.mem_singleton.mp hx]
      exact Nat.lt_succ_self _
  · rw [hrows, List.map_append, List.map_singleton]
    refine h.ids.append (List.nodup_singleton _) fun id hid hnew => ?_
    obtain ⟨x, hx, rfl⟩ := List.mem_map.mp hid
    have hlt := h.fresh x hx
    rw [List.mem_singleton.mp hnew] at hlt
    exact Nat.lt_irrefl _ hlt
  · rw [hrows, List.map_append, List.map_singleton]
    refine h.keys.append (List.nodup_singleton _) fun key hk hnew => ?_
    obtain ⟨x, hx, rfl⟩ := List.mem_map.mp hk
    obtain ⟨r, hr, rfl⟩ := List.mem_map.mp hx
    exact hkey r hr (List.mem_singleton.mp hnew)

theorem Tables.deactivate (h : Tables db) (p : Summary → Bool) : Tables (db.deactivate p) :=
  h.same h.consecutive (rowKeys_deactivate p) (Nat.le_refl _)

/-- The archival transaction adds two archival rows. -/
theorem rowKeys_archiveTransaction {st : AssemblyState} {toConsolidate : List Summary} {header recent : Text}
    (h : Tables db) (htx : archiveTransaction db st toConsolidate header recent = .ok db') :
    Tables db' ∧ ∃ new, rowKeys db' = rowKeys db ++ new ∧ ∀ x ∈ new, x.2.2.1 = Tier.three := by
  obtain ⟨db₁, hheader, hlast⟩ := bind_eq_ok.mp htx
  rw [← retire] at hheader
  have hretired : Tables (retire db st toConsolidate) := (h.deactivate _).deactivate _
  have hkeys : rowKeys (retire db st toConsolidate) = rowKeys db := by
    rw [retire, rowKeys_deactivate, rowKeys_deactivate]
  have htables := hretired.insertSummary hheader
  have hrows := rowKeys_insertSummary hheader
  cases hfirst : toConsolidate.head? with
  | none =>
    rw [hfirst] at hlast
    cases hlast
  | some first =>
    cases hend : toConsolidate.getLast? with
    | none =>
      rw [hfirst, hend] at hlast
      cases hlast
    | some last =>
      rw [hfirst, hend] at hlast
      refine ⟨htables.insertSummary hlast,
        [(db.nextId, (headerRow st header).key),
          (db₁.nextId, (archivalRow st toConsolidate first last recent).key)], ?_, fun x hx => ?_⟩
      · rw [rowKeys_insertSummary hlast, hrows, hkeys, List.append_assoc]
        rfl
      · rcases List.mem_pair.mp hx with rfl | rfl
        · rfl
        · rfl

end Tables

/-! ## What a pass may rely on -/

/-- Row `id` of window `w` covers `chunk`. -/
def RowOf (db : Db) (w id : Id) (chunk : List Message) : Prop :=
  ∃ first last, chunk.head? = some first ∧ chunk.getLast? = some last ∧
    ChunkAt db w id first.sequenceNumber last.sequenceNumber

/-- The insert loop before chunk index `i`: the call for an earlier chunk raised,
or there is a row for the chunk. -/
structure Pending (db : Db) (t : Pass) (chunks : List (List Message)) (i : Nat)
    (rest : List (List Message × Option Text)) : Prop where
  done : ∀ j chunk, j < i → chunks[j]? = some chunk →
    (∃ e, t.env.chunkReply j = .error e) ∨ ∃ id, RowOf db t.st.contextWindowId id chunk
  left : rest.map Prod.fst = chunks.drop i
  failed : ∀ k chunk, rest[k]? = some (chunk, none) → ∃ e, t.env.chunkReply (i + k) = .error e

/-- What a pass may rely on at a statement. -/
def At (db : Db) (t : Pass) : Pc → Prop
  | .lock | .window | .summaryCount | .messages _ => t.plan = none ∧ t.wrote = []
  | .chunkCount | .watermark _ =>
    t.plan = none ∧ t.wrote = [] ∧ Ascending (·.sequenceNumber) t.st.allMessages
  | .summarize => ∃ pl, t.plan = some pl ∧ pl.chunks = t.st.chunks
  | .check i rest _ => ∃ pl, t.plan = some pl ∧ Pending db t pl.chunks i rest
  | .insert i row rest _ =>
    ∃ pl chunk text first last, t.plan = some pl ∧ Pending db t pl.chunks i ((chunk, some text) :: rest) ∧
      chunk.head? = some first ∧ chunk.getLast? = some last ∧
      row.key = (t.st.contextWindowId, .two, first.sequenceNumber, last.sequenceNumber)
  | .activeChunks | .archival _ | .commit _ _ | .stamp | .unlock | .ended => True

/-- What stays true of a pass's plan. -/
structure Planned (db : Db) (w : Id) (pl : Plan) : Prop where
  mark : pl.mark = 0 ∨ ∃ id lo, ChunkAt db w id lo pl.mark
  seen : ∀ id ∈ pl.seen, ∃ lo hi, ChunkAt db w id lo hi ∧ hi ≤ pl.mark
  ascending : Ascending (·.sequenceNumber) pl.chunks.flatten
  above : ∀ m ∈ pl.chunks.flatten, pl.mark < m.sequenceNumber
  /-- Between the mark and a message of a chunk nothing loaded was left out. -/
  complete : ∀ m ∈ pl.loaded, pl.mark < m.sequenceNumber → ∀ x ∈ pl.chunks.flatten,
    m.sequenceNumber ≤ x.sequenceNumber → m ∈ pl.chunks.flatten

/-- The plan of a pass and the rows it has stored. -/
structure Record (db : Db) (t : Pass) : Prop where
  planned : ∀ pl, t.plan = some pl → Planned db t.st.contextWindowId pl
  wrote : ∀ id ∈ t.wrote, ∃ pl, t.plan = some pl ∧ ∃ chunk ∈ pl.chunks, RowOf db t.st.contextWindowId id chunk

structure PassInv (db : Db) (t : Pass) : Prop extends Record db t where
  pc : At db t t.pc

section Mono

variable {db db' : Db} {t : Pass}

theorem PassInv.here (h : PassInv db t) {pc : Pc} (hpc : t.pc = pc) : At db t pc := hpc ▸ h.pc

theorem RowOf.mono {w id : Id} {chunk : List Message} (h : RowOf db w id chunk) (hsub : rowKeys db ⊆ rowKeys db') :
    RowOf db' w id chunk := by
  obtain ⟨first, last, hfirst, hlast, hrow⟩ := h
  exact ⟨first, last, hfirst, hlast, hsub hrow⟩

theorem Pending.mono {chunks : List (List Message)} {i : Nat} {rest : List (List Message × Option Text)}
    (h : Pending db t chunks i rest) (hsub : rowKeys db ⊆ rowKeys db') : Pending db' t chunks i rest :=
  ⟨fun j chunk hj hchunk => (h.done j chunk hj hchunk).imp_right fun ⟨id, hrow⟩ => ⟨id, hrow.mono hsub⟩,
    h.left, h.failed⟩

theorem At.mono {pc : Pc} (h : At db t pc) (hsub : rowKeys db ⊆ rowKeys db') : At db' t pc := by
  cases pc with
  | check i rest locals =>
    obtain ⟨pl, hpl, hpending⟩ := h
    exact ⟨pl, hpl, hpending.mono hsub⟩
  | insert i row rest locals =>
    obtain ⟨pl, chunk, text, first, last, hpl, hpending, hrest⟩ := h
    exact ⟨pl, chunk, text, first, last, hpl, hpending.mono hsub, hrest⟩
  | _ => exact h

theorem Planned.mono {w : Id} {pl : Plan} (h : Planned db w pl) (hsub : rowKeys db ⊆ rowKeys db') :
    Planned db' w pl where
  mark := h.mark.imp_right fun ⟨id, lo, hrow⟩ => ⟨id, lo, hsub hrow⟩
  seen id hid := by
    obtain ⟨lo, hi, hrow, hle⟩ := h.seen id hid
    exact ⟨lo, hi, hsub hrow, hle⟩
  ascending := h.ascending
  above := h.above
  complete := h.complete

theorem Record.mono (h : Record db t) (hsub : rowKeys db ⊆ rowKeys db') : Record db' t where
  planned pl hpl := (h.planned pl hpl).mono hsub
  wrote id hid := by
    obtain ⟨pl, hpl, chunk, hchunk, hrow⟩ := h.wrote id hid
    exact ⟨pl, hpl, chunk, hchunk, hrow.mono hsub⟩

/-- Rows that others add take nothing away from a pass. -/
theorem PassInv.mono (h : PassInv db t) (hsub : rowKeys db ⊆ rowKeys db') : PassInv db' t :=
  ⟨h.toRecord.mono hsub, h.pc.mono hsub⟩

end Mono

/-! ## One statement -/

/-- What later statements keep of a pass. -/
structure Later (t t' : Pass) : Prop where
  env : t'.env = t.env
  window : t'.st.contextWindowId = t.st.contextWindowId
  plan : ∀ pl, t.plan = some pl → t'.plan = some pl
  wrote : ∀ id ∈ t.wrote, id ∈ t'.wrote

/-- The summary rows a statement adds: archival rows, or the chunk row of the
insert it executes. -/
inductive Adds (db : Db) (t : Pass) (db' : Db) (t' : Pass) : Prop where
  | archival (new : List (Id × Key)) (hrows : rowKeys db' = rowKeys db ++ new)
    (hthree : ∀ x ∈ new, x.2.2.1 = Tier.three)
  | chunk (i : Nat) (row : Summary) (rest : List (List Message × Option Text)) (locals : Locals)
    (hpc : t.pc = .insert i row rest locals) (hrows : rowKeys db' = rowKeys db ++ [(db.nextId, row.key)])
    (hwrote : db.nextId ∈ t'.wrote)

structure Executed (db : Db) (t : Pass) (db' : Db) (t' : Pass) : Prop where
  tables : Tables db'
  inv : PassInv db' t'
  later : Later t t'
  adds : Adds db t db' t'

section Statements

variable {db db' : Db} {t t' : Pass} {n : Node}

/-- The rows are as they were. -/
theorem Adds.same (h : rowKeys db' = rowKeys db) : Adds db t db' t' :=
  .archival [] (by rw [h, List.append_nil]) (fun _ hx => nomatch hx)

theorem Later.refl (t : Pass) : Later t t := ⟨rfl, rfl, fun _ => id, fun _ => id⟩

theorem Later.pc (t : Pass) (pc : Pc) : Later t { t with pc } := ⟨rfl, rfl, fun _ => id, fun _ => id⟩

theorem Later.trans {t₁ t₂ t₃ : Pass} (h : Later t₁ t₂) (h' : Later t₂ t₃) : Later t₁ t₃ :=
  ⟨h'.env.trans h.env, h'.window.trans h.window, fun pl hpl => h'.plan pl (h.plan pl hpl),
    fun id hid => h'.wrote id (h.wrote id hid)⟩

/-- To the next statement of the node. -/
theorem Record.to (h : Record db t) {pc : Pc} (hpc : At db t pc) :
    PassInv db { t with pc } ∧ Later t { t with pc } := by
  refine ⟨⟨⟨h.planned, h.wrote⟩, ?_⟩, .pc t pc⟩
  cases pc with
  | check i rest locals =>
    obtain ⟨pl, hpl, hpending⟩ := hpc
    exact ⟨pl, hpl, hpending.done, hpending.left, hpending.failed⟩
  | insert i row rest locals =>
    obtain ⟨pl, chunk, text, first, last, hpl, hpending, hrest⟩ := hpc
    exact ⟨pl, chunk, text, first, last, hpl, ⟨hpending.done, hpending.left, hpending.failed⟩, hrest⟩
  | _ => exact hpc

/-- Out of a node, along an edge to a node whose first statement may be next. -/
theorem Record.leave (h : Record db t) {out : Except Exn AssemblyState}
    (hst : ∀ st', out = .ok st' → st'.contextWindowId = t.st.contextWindowId)
    (hedge : ∀ st' m, out = .ok st' → Edge st' n m → At db { t with st := st', pc := entry m } (entry m)) :
    PassInv db (t.leave n out) ∧ Later t (t.leave n out) := by
  cases out with
  | error e => exact ⟨⟨⟨h.planned, h.wrote⟩, trivial⟩, .pc t .ended⟩
  | ok st' =>
    have hw := hst st' rfl
    refine ⟨⟨⟨fun pl hpl => ?_, fun id hid => ?_⟩, ?_⟩, rfl, hw, fun _ => id, fun _ => id⟩
    · exact Eq.mpr (by rw [← hw]; rfl) (h.planned pl hpl)
    · obtain ⟨pl, hpl, chunk, hchunk, hrow⟩ := h.wrote id hid
      exact ⟨pl, hpl, chunk, hchunk, Eq.mpr (by rw [← hw]; rfl) hrow⟩
    · show At db (t.leave n (.ok st')) (((route n ⟨{}, st'⟩).map entry).getD .ended)
      unfold Pass.leave
      dsimp only
      cases hroute : route n ⟨{}, st'⟩ with
      | none => trivial
      | some m => exact hedge st' m rfl (edge_of_route hroute)

theorem Executed.to (hT : Tables db) (h : PassInv db t) {pc : Pc} (hpc : At db t pc) : Executed db t db { t with pc } :=
  ⟨hT, (h.toRecord.to hpc).1, (h.toRecord.to hpc).2, .same rfl⟩

theorem Executed.leave (hT : Tables db) (h : PassInv db t) {out : Except Exn AssemblyState}
    (hst : ∀ st', out = .ok st' → st'.contextWindowId = t.st.contextWindowId)
    (hedge : ∀ st' m, out = .ok st' → Edge st' n m → At db { t with st := st', pc := entry m } (entry m)) :
    Executed db t db (t.leave n out) :=
  ⟨hT, (h.toRecord.leave hst hedge).1, (h.toRecord.leave hst hedge).2, .same rfl⟩

/-- After the cut no node relies on more than the record of the pass. -/
def Compacting : Node → Prop
  | .compactTier1 | .runFullCompaction | .finalizeAssembly | .releaseAssemblyLock => True
  | _ => False

theorem at_of_compacting {st' : AssemblyState} {m : Node} (hn : Compacting n) (hedge : Edge st' n m) :
    At db t (entry m) := by
  cases hedge with
  | chunksFailed | tier2Full | tier2Open | compacted | finalized => trivial
  | _ => exact hn.elim

theorem Record.late (h : Record db t) (hn : Compacting n) {out : Except Exn AssemblyState}
    (hst : ∀ st', out = .ok st' → st'.contextWindowId = t.st.contextWindowId) :
    PassInv db (t.leave n out) ∧ Later t (t.leave n out) :=
  h.leave hst fun _ _ _ hedge => at_of_compacting hn hedge

theorem Executed.late (hT : Tables db) (h : PassInv db t) (hn : Compacting n) {out : Except Exn AssemblyState}
    (hst : ∀ st', out = .ok st' → st'.contextWindowId = t.st.contextWindowId) :
    Executed db t db (t.leave n out) :=
  .leave hT h hst fun _ _ _ hedge => at_of_compacting hn hedge

/-- Out of such a node with another state of the same window. -/
theorem Executed.kept (hT : Tables db) (h : PassInv db t) (hn : Compacting n) {st' : AssemblyState}
    (hw : st'.contextWindowId = t.st.contextWindowId) : Executed db t db (t.leave n (.ok st')) :=
  .late hT h hn fun _ heq => Except.ok.inj heq ▸ hw

theorem Executed.raised (hT : Tables db) (h : PassInv db t) (e : Exn) : Executed db t db (t.leave n (.error e)) :=
  .leave hT h (fun _ h => nomatch h) fun _ _ h => nomatch h

/-! ### Up to the cut -/

theorem loadWith_ok {config : Config} {env : Env} {count : Except Exn Nat} {c : Id} {st st' : AssemblyState}
    (hdb : db.Consecutive) (h : loadWith config count (perform env.fault .messages (db.newestFirst c)) st = .ok st') :
    st'.contextWindowId = st.contextWindowId ∧ Ascending (·.sequenceNumber) st'.allMessages := by
  obtain ⟨limit, _, h⟩ := bind_eq_ok.mp h
  obtain ⟨rows, hrows, h⟩ := bind_eq_ok.mp h
  obtain ⟨cut, hcut, h⟩ := bind_eq_ok.mp h
  obtain rfl := perform_eq_ok hrows
  obtain ⟨-, rfl⟩ := limitRows_ok hcut
  obtain rfl := Except.ok.inj h
  refine ⟨rfl, ?_⟩
  dsimp only
  rw [hdb.newestFirst, List.reverse_take, List.reverse_reverse]
  exact (hdb c).ascending.sublist (List.drop_sublist _ _)

theorem calculateWith_ok {config : Config} {count : Except Exn Nat} {newest : Except Exn (Option Summary)}
    {st st' : AssemblyState} (h : calculateWith config count newest st = .ok st') :
    st'.contextWindowId = st.contextWindowId ∧ st'.allMessages = st.allMessages ∧
      (st'.chunks = [] ∨ ∃ row start, newest = .ok row ∧
        st'.chunks.flatten = (st.allMessages.filter fun m => m.sequenceNumber < start).filter fun m =>
          (row.map (·.toSeq)).getD 0 < m.sequenceNumber) := by
  unfold calculateWith at h
  split at h
  · obtain rfl := Except.ok.inj h
    exact ⟨rfl, rfl, .inl rfl⟩
  · obtain ⟨bt, _, h⟩ := bind_eq_ok.mp h
    obtain ⟨budget, _, h⟩ := bind_eq_ok.mp h
    obtain ⟨n, _, h⟩ := bind_eq_ok.mp h
    dsimp only at h
    split at h
    · obtain rfl := Except.ok.inj h
      exact ⟨rfl, rfl, .inl rfl⟩
    · obtain ⟨row, hrow, h⟩ := bind_eq_ok.mp h
      obtain ⟨chunks, hchunks, h⟩ := bind_eq_ok.mp h
      obtain rfl := Except.ok.inj h
      refine ⟨rfl, rfl, ?_⟩
      have heq := chunksOf_eq hchunks
      rcases Nat.eq_zero_or_pos (chunkLength config) with h0 | hpos
      · rw [h0, slices_zero] at heq
        exact .inl heq
      · exact .inr ⟨row, _, hrow, heq ▸ slices_flatten hpos _⟩

theorem chunkAt_of_active {w : Id} {r : Summary} (h : r ∈ db.active w .two) : ChunkAt db w r.id r.fromSeq r.toSeq := by
  obtain ⟨hmem, rfl, htier, -⟩ := Db.mem_active.mp h
  have hrow := mem_rowKeys hmem
  rw [Summary.key, htier] at hrow
  exact hrow

/-- The watermark is the end of a chunk row. -/
theorem watermark_chunkAt (db : Db) (w : Id) : db.watermark w = 0 ∨ ∃ id lo, ChunkAt db w id lo (db.watermark w) := by
  by_cases hnil : db.active w .two = []
  · left
    rw [Db.watermark, hnil, maxOf_nil]
  · obtain ⟨r, hr, hmax⟩ := @exists_maxOf _ (·.toSeq) _ hnil
    exact .inr ⟨r.id, r.fromSeq, by rw [Db.watermark, ← hmax]; exact chunkAt_of_active hr⟩

/-- **The cut**: what `calculate_compaction_state` leaves is planned. -/
theorem planned_of_cut {config : Config} {env : Env} {count : Except Exn Nat} {st st' : AssemblyState}
    (hasc : Ascending (·.sequenceNumber) st.allMessages)
    (h : calculateWith config count
      (perform env.fault .watermark (orderDesc (·.toSeq) (db.active st.contextWindowId .two)).head?) st = .ok st') :
    Planned db st.contextWindowId
      { mark := db.watermark st.contextWindowId, seen := (db.active st.contextWindowId .two).map (·.id)
        loaded := st'.allMessages, chunks := st'.chunks } := by
  obtain ⟨-, hall, hchunks⟩ := calculateWith_ok h
  have hmark := watermark_chunkAt db st.contextWindowId
  have hseen : ∀ id ∈ (db.active st.contextWindowId .two).map (·.id), ∃ lo hi,
      ChunkAt db st.contextWindowId id lo hi ∧ hi ≤ db.watermark st.contextWindowId := by
    intro id hid
    obtain ⟨r, hr, rfl⟩ := List.mem_map.mp hid
    exact ⟨r.fromSeq, r.toSeq, chunkAt_of_active hr, le_maxOf hr⟩
  rcases hchunks with hnil | ⟨row, start, hrow, hflat⟩
  · refine ⟨hmark, hseen, ?_, ?_, ?_⟩ <;> simp [hnil, Ascending]
  · obtain rfl := perform_eq_ok hrow
    rw [← maxOf_eq_head_orderDesc] at hflat
    change st'.chunks.flatten =
      List.filter (fun m => decide (db.watermark st.contextWindowId < m.sequenceNumber)) _ at hflat
    refine ⟨hmark, hseen, ?_, fun m hm => ?_, fun m hm hlt x hx hle => ?_⟩
    · rw [hflat]
      exact hasc.sublist (List.filter_sublist.trans List.filter_sublist)
    · rw [hflat] at hm
      exact of_decide_eq_true (List.mem_filter.mp hm).2
    · dsimp only at hm hlt hx ⊢
      rw [hflat] at hx ⊢
      rw [hall] at hm
      have hstart := of_decide_eq_true (List.mem_filter.mp (List.mem_filter.mp hx).1).2
      exact List.mem_filter.mpr
        ⟨List.mem_filter.mpr ⟨hm, decide_eq_true (Nat.lt_of_le_of_lt hle hstart)⟩, decide_eq_true hlt⟩

theorem partition_ok (hT : Tables db) {count : Except Exn Nat} (h : PassInv db t) (hpc : t.pc = .watermark count) :
    Executed db t db (t.partition db count) := by
  obtain ⟨hplan, hwrote, hasc⟩ := h.here hpc
  unfold Pass.partition
  dsimp only
  cases hcut : calculateWith t.config count
      (perform t.env.fault .watermark (orderDesc (·.toSeq) (db.active t.st.contextWindowId .two)).head?) t.st with
  | error e => exact .raised hT h e
  | ok st' =>
    have hplanned := planned_of_cut hasc hcut
    obtain ⟨hw, -, -⟩ := calculateWith_ok hcut
    let pl : Plan :=
      { mark := db.watermark t.st.contextWindowId, seen := (db.active t.st.contextWindowId .two).map (·.id)
        loaded := st'.allMessages, chunks := st'.chunks }
    have hrecord : Record db { t with plan := some pl } := by
      refine ⟨fun pl' hpl => ?_, fun id hid => ?_⟩
      · obtain rfl : pl = pl' := Option.some.inj hpl
        exact hplanned
      · rw [show ({ t with plan := some pl } : Pass).wrote = t.wrote from rfl, hwrote] at hid
        cases hid
    obtain ⟨hinv, hlater⟩ := @Record.leave _ _ .calculateCompactionState hrecord (.ok st')
      (fun st'' heq => by cases heq; exact hw) fun st'' m heq hedge => by
        cases heq
        cases hedge with
        | partitionFailed | noChunks => trivial
        | chunked => exact ⟨pl, rfl, rfl⟩
    have hcut : Later t { t with plan := some pl } := by
      refine ⟨rfl, rfl, fun pl' hpl => ?_, fun _ => id⟩
      rw [hplan] at hpl
      cases hpl
    exact ⟨hT, hinv, hcut.trans hlater, .same rfl⟩

/-! ### The insert loop -/

/-- The chunk the loop has come to. -/
theorem Pending.chunk {chunks : List (List Message)} {i : Nat} {chunk : List Message} {reply : Option Text}
    {rest : List (List Message × Option Text)} (h : Pending db t chunks i ((chunk, reply) :: rest)) :
    chunks[i]? = some chunk := by
  have hleft : chunk :: rest.map Prod.fst = chunks.drop i := h.left
  rw [← List.head?_drop, ← hleft, List.head?_cons]

theorem Pending.next {chunks : List (List Message)} {i : Nat} {chunk : List Message} {reply : Option Text}
    {rest : List (List Message × Option Text)} (h : Pending db t chunks i ((chunk, reply) :: rest))
    (hdone : (∃ e, t.env.chunkReply i = .error e) ∨ ∃ id, RowOf db t.st.contextWindowId id chunk) :
    Pending db t chunks (i + 1) rest := by
  have hleft : chunk :: rest.map Prod.fst = chunks.drop i := h.left
  refine ⟨fun j chunk' hj hchunk => ?_, ?_, fun k chunk' hk => ?_⟩
  · rcases Nat.lt_succ_iff_lt_or_eq.mp hj with hlt | rfl
    · exact h.done j chunk' hlt hchunk
    · obtain rfl := Option.some.inj (h.chunk.symm.trans hchunk)
      exact hdone
  · rw [← List.tail_drop, ← hleft, List.tail_cons]
  · obtain ⟨e, he⟩ := h.failed (k + 1) chunk' hk
    exact ⟨e, by rw [← he]; congr 1; omega⟩

theorem summarize_ok (hT : Tables db) (h : PassInv db t) (hpc : t.pc = .summarize) :
    Executed db t db t.summarize := by
  obtain ⟨pl, hpl, hchunks⟩ := h.here hpc
  have hkept : ∀ st' : AssemblyState, st'.contextWindowId = t.st.contextWindowId →
      Executed db t db (t.leave .compactTier1 (.ok st')) := fun _ hw =>
    .kept (n := .compactTier1) hT h trivial hw
  unfold Pass.summarize
  split
  · exact hkept _ rfl
  cases perform t.env.fault .summarizer () with
  | error e => exact .raised hT h e
  | ok u =>
    cases perform t.env.fault .chunkPrompt () with
    | error e =>
      dsimp only
      split
      · exact hkept _ rfl
      · exact .raised hT h e
    | ok u =>
      cases hgathered : gatherSummaries t.env 0 t.st.chunks with
      | error e => exact .raised hT h e
      | ok results =>
        obtain ⟨hfst, hfailed⟩ := gatherSummaries_ok hgathered
        refine .to hT h ⟨pl, hpl, fun j chunk hj => absurd hj (Nat.not_lt_zero j), ?_, hfailed⟩
        rw [hfst, hchunks, List.drop_zero]

theorem check_ok (hT : Tables db) (h : PassInv db t) {i : Nat} {rest : List (List Message × Option Text)}
    {locals : Locals} (hpc : t.pc = .check i rest locals) : Executed db t db (t.check db i locals rest) := by
  obtain ⟨pl, hpl, hpending⟩ := h.here hpc
  have hend : Executed db t db (t.inserted locals) :=
    .kept (n := .compactTier1) hT h trivial rfl
  cases rest with
  | nil => exact hend
  | cons x rest =>
    obtain ⟨chunk, reply⟩ := x
    cases reply with
    | none => exact .to hT h ⟨pl, hpl, hpending.next (.inl (hpending.failed 0 chunk rfl))⟩
    | some text =>
      simp only [Pass.check]
      split
      · exact hend
      · cases hfirst : chunk.head? with
        | none => exact .raised hT h _
        | some first =>
          cases hlast : chunk.getLast? with
          | none => exact .raised hT h _
          | some last =>
            dsimp only
            cases hdup : perform t.env.fault (.dup i) ((db.active t.st.contextWindowId .two).any
                (·.key == (chunkRow t.st chunk first last text).key)) with
            | error e => exact .raised hT h e
            | ok known =>
              cases known with
              | false => exact .to hT h ⟨pl, chunk, text, first, last, hpl, hpending, hfirst, hlast, rfl⟩
              | true =>
                obtain ⟨r, hr, hkey⟩ := List.any_eq_true.mp (perform_eq_ok hdup).symm
                have hrow := chunkAt_of_active hr
                obtain ⟨-, -, hlo, hhi⟩ := Summary.key_inj (eq_of_beq hkey)
                rw [hlo, hhi] at hrow
                exact .to hT h ⟨pl, hpl, hpending.next (.inr ⟨r.id, first, last, hfirst, hlast, hrow⟩)⟩

theorem insert_ok (hT : Tables db) (h : PassInv db t) {i : Nat} {row : Summary}
    {rest : List (List Message × Option Text)} {locals : Locals} (hpc : t.pc = .insert i row rest locals) :
    Executed db t (t.insert db i row rest locals).1 (t.insert db i row rest locals).2 := by
  obtain ⟨pl, chunk, text, first, last, hpl, hpending, hfirst, hlast, hkey⟩ := h.here hpc
  unfold Pass.insert
  cases hins : perform t.env.fault (.insert i) (db.insertSummary row) with
  | error e => exact .raised (n := .compactTier1) hT h e
  | ok result =>
    cases result with
    | error e =>
      -- a row with the key is there: another pass was first
      obtain ⟨-, r, hr, hsame⟩ := Db.insertSummary_eq_error (perform_eq_ok hins).symm
      have hrow := mem_rowKeys hr
      rw [hsame, hkey] at hrow
      exact .to hT h ⟨pl, hpl, hpending.next (.inr ⟨r.id, first, last, hfirst, hlast, hrow⟩)⟩
    | ok db' =>
      have hdb := (perform_eq_ok hins).symm
      have hrows := rowKeys_insertSummary hdb
      have hsub : rowKeys db ⊆ rowKeys db' := hrows ▸ List.subset_append_left _ _
      have hrow : RowOf db' t.st.contextWindowId db.nextId chunk :=
        ⟨first, last, hfirst, hlast, chunkAt_new hrows hkey⟩
      have hmem : chunk ∈ pl.chunks := List.mem_of_getElem? hpending.chunk
      have hold := h.toRecord.mono hsub
      have hrecord : Record db' { t with wrote := t.wrote ++ [db.nextId] } := by
        refine ⟨hold.planned, fun id hid => ?_⟩
        rcases List.mem_append.mp hid with hid | hid
        · exact hold.wrote id hid
        · rw [List.mem_singleton.mp hid]
          exact ⟨pl, hpl, chunk, hmem, hrow⟩
      have hlater : Later t { t with wrote := t.wrote ++ [db.nextId] } :=
        ⟨rfl, rfl, fun _ => id, fun _ => List.mem_append_left _⟩
      have hafter := (hpending.mono hsub).next (.inr ⟨_, hrow⟩)
      have hnext : ∀ locals, At db' { t with wrote := t.wrote ++ [db.nextId] } (.check (i + 1) rest locals) :=
        fun _ => ⟨pl, hpl, hafter.done, hafter.left, hafter.failed⟩
      have hexec : ∀ t', PassInv db' t' ∧ Later { t with wrote := t.wrote ++ [db.nextId] } t' →
          Executed db t db' t' := fun t' ht' =>
        ⟨hT.insertSummary hdb, ht'.1, hlater.trans ht'.2,
          .chunk i row rest locals hpc hrows (ht'.2.wrote _ (List.mem_append_right _ (List.mem_singleton_self _)))⟩
      dsimp only
      cases perform t.env.fault (.extraction i) () with
      | ok u => exact hexec _ (hrecord.to (hnext _))
      | error e =>
        dsimp only
        split
        · exact hexec _ (hrecord.to (hnext _))
        · exact hexec _ (hrecord.late (n := .compactTier1) trivial fun _ (heq : Except.error e = _) => nomatch heq)

/-! ### After it -/

theorem activeChunks_ok (hT : Tables db) (h : PassInv db t) : Executed db t db (t.activeChunks db) := by
  unfold Pass.activeChunks
  cases perform t.env.fault .activeChunks (orderAsc (·.fromSeq) (db.active t.st.contextWindowId .two)) with
  | error e => exact .raised (n := .runFullCompaction) hT h e
  | ok activeT2 =>
    dsimp only
    split
    · exact .kept (n := .runFullCompaction) hT h trivial rfl
    · exact .to hT h trivial

theorem archival_ok (hT : Tables db) (h : PassInv db t) (toConsolidate : List Summary) :
    Executed db t db (t.archival db toConsolidate) := by
  unfold Pass.archival
  cases perform t.env.fault .archival (orderDesc (·.toSeq) (db.active t.st.contextWindowId .three)).head? with
  | error e => exact .raised (n := .runFullCompaction) hT h e
  | ok existingT3 =>
    cases perform t.env.fault .archivalPrompt () with
    | error e =>
      dsimp only
      split
      · exact .kept (n := .runFullCompaction) hT h trivial rfl
      · exact .raised (n := .runFullCompaction) hT h e
    | ok u =>
      cases perform t.env.fault .archiver () with
      | error e => exact .raised (n := .runFullCompaction) hT h e
      | ok u => exact .to hT h trivial

theorem commit_ok (hT : Tables db) (h : PassInv db t) (toConsolidate : List Summary) (existingT3 : Option Summary) :
    Executed db t (t.commit db toConsolidate existingT3).1 (t.commit db toConsolidate existingT3).2 := by
  unfold Pass.commit
  cases harchive : archive t.env db t.st toConsolidate existingT3 with
  | error e =>
    dsimp only
    split
    · exact .kept (n := .runFullCompaction) hT h trivial rfl
    · exact .raised (n := .runFullCompaction) hT h e
  | ok result =>
    cases result with
    | none => exact .kept (n := .runFullCompaction) hT h trivial rfl
    | some found =>
      obtain ⟨db', text⟩ := found
      dsimp only
      obtain ⟨recent, -, harchive⟩ := bind_eq_ok.mp harchive
      obtain ⟨header, -, harchive⟩ := bind_eq_ok.mp harchive
      split at harchive
      · cases harchive
      · obtain ⟨-, -, harchive⟩ := bind_eq_ok.mp harchive
        obtain ⟨db₁, htx, harchive⟩ := bind_eq_ok.mp harchive
        obtain ⟨rfl, -⟩ := Prod.mk.inj (Option.some.inj (Except.ok.inj harchive))
        obtain ⟨htables, new, hrows, hthree⟩ := rowKeys_archiveTransaction hT htx
        have hsub : rowKeys db ⊆ rowKeys db₁ := hrows ▸ List.subset_append_left _ _
        have hkept : Executed db₁ t db₁ (t.leave .runFullCompaction (.ok { t.st with tier3Summary := some text })) :=
          .kept (n := .runFullCompaction) htables (h.mono hsub) trivial rfl
        exact ⟨htables, hkept.inv, hkept.later, .archival new hrows hthree⟩

/-- **One statement** of a pass, whatever the tables have become in between. -/
theorem exec_ok (hT : Tables db) (h : PassInv db t) : Executed db t (t.exec db).1 (t.exec db).2 := by
  unfold Pass.exec
  cases hpc : t.pc with
  | lock =>
    refine .leave hT h (fun st' hok => ?_) fun st' m hok hedge => ?_
    · obtain ⟨_, _, _, rfl⟩ := acquireAssemblyLock_ok hok
      rfl
    · cases hedge
      exact h.here hpc
  | window =>
    refine .leave hT h (fun st' hok => ?_) fun st' m hok hedge => ?_
    · obtain ⟨_, _, _, _, rfl⟩ := loadWindowConfig_state hok
      rfl
    · cases hedge with
      | configFailed => trivial
      | configured => exact h.here hpc
  | summaryCount =>
    obtain ⟨hplan, hwrote⟩ := h.here hpc
    exact .to hT h ⟨hplan, hwrote⟩
  | messages count =>
    obtain ⟨hplan, hwrote⟩ := h.here hpc
    refine .leave hT h (fun st' hok => (loadWith_ok hT.consecutive hok).1) fun st' m hok hedge => ?_
    cases hedge with
    | loadFailed | noneLoaded => trivial
    | loaded => exact ⟨hplan, hwrote, (loadWith_ok hT.consecutive hok).2⟩
  | chunkCount =>
    obtain ⟨hplan, hwrote, hasc⟩ := h.here hpc
    exact .to hT h ⟨hplan, hwrote, hasc⟩
  | watermark count => exact partition_ok hT h hpc
  | summarize => exact summarize_ok hT h hpc
  | check i rest locals => exact check_ok hT h hpc
  | insert i row rest locals => exact insert_ok hT h hpc
  | activeChunks => exact activeChunks_ok hT h
  | archival toConsolidate => exact archival_ok hT h toConsolidate
  | commit toConsolidate existingT3 => exact commit_ok hT h toConsolidate existingT3
  | stamp =>
    dsimp only
    have hstamp : ∃ now, (finalizeAssembly t.env db t.st).1 = db ∨
        (finalizeAssembly t.env db t.st).1 = db.stampAssembled t.st.contextWindowId now := by
      refine ⟨t.env.now, ?_⟩
      unfold finalizeAssembly
      split
      · exact .inl rfl
      · split
        · exact .inl rfl
        · exact .inr rfl
    have hlate := @Record.late _ _ .finalizeAssembly h.toRecord trivial (finalizeAssembly t.env db t.st).2
      fun st' hok => congrArg (·.contextWindowId) (finalizeAssembly_state hok)
    obtain ⟨now, hdb | hdb⟩ := hstamp
    · rw [hdb]
      exact ⟨hT, hlate.1, hlate.2, .same rfl⟩
    · rw [hdb]
      exact ⟨hT.same hT.consecutive rfl (Nat.le_refl _), hlate.1.mono (List.Subset.refl _), hlate.2, .same rfl⟩
  | unlock =>
    refine .late (n := .releaseAssemblyLock) hT h trivial fun st' hok => ?_
    rw [releaseAssemblyLock_state hok]
  | ended => exact ⟨hT, h, .refl t, .same rfl⟩

end Statements

/-! ## The system -/

structure State where
  db : Db := {}
  tasks : Nat → Option Pass := fun _ => none

inductive Label where
  /-- What the broker does besides standard-tiered passes. -/
  | broker (e : Event)
  | start (p : Nat) (w : Id) (config : Config) (env : Env)
  /-- The next statement of a pass. -/
  | step (p : Nat)

/-- mirrors app/workers/db_worker.py:530-548 -/
def step (s : State) : Label → Option State
  | .broker (.pass _ _ _) => none
  | .broker e => some { s with db := e.apply s.db }
  | .start p w config env =>
    match s.tasks p, s.db.window? w with
    | none, some win =>
      if usesTiers win.buildType then
        let t : Pass := { config, env, st := { contextWindowId := w, conversationId := win.conversationId } }
        some { s with tasks := Function.update s.tasks p (some t) }
      else none
    | _, _ => none
  | .step p =>
    (s.tasks p).map fun t => ⟨(t.exec s.db).1, Function.update s.tasks p (some (t.exec s.db).2)⟩

def system : LTS State Label := .ofStep (· = {}) step

/-- The pass stored a chunk row that ends at `n` or later, and had not loaded
message number `n`, or its call for the chunk of the message had failed. -/
def PassedBy (db : Db) (t : Pass) (n : Nat) : Prop :=
  ∃ pl, t.plan = some pl ∧ pl.mark < n ∧
    (∃ id ∈ t.wrote, ∃ lo hi, ChunkAt db t.st.contextWindowId id lo hi ∧ n ≤ hi) ∧
    (n ∉ pl.loaded.map (·.sequenceNumber) ∨ ∃ k chunk e, pl.chunks[k]? = some chunk ∧
      n ∈ chunk.map (·.sequenceNumber) ∧ t.env.chunkReply k = .error e)

/-- What may have become of message number `n` of a window. -/
def Accounted (s : State) (w : Id) (n : Nat) : Prop :=
  Stored s.db w n ∨ ∃ p t, s.tasks p = some t ∧ t.st.contextWindowId = w ∧ PassedBy s.db t n

/-- The pass that stored a row. -/
def Owned (s : State) (w id : Id) : Prop :=
  ∃ p t, s.tasks p = some t ∧ t.st.contextWindowId = w ∧ id ∈ t.wrote

structure Inv (s : State) : Prop where
  tables : Tables s.db
  passes : ∀ p t, s.tasks p = some t → PassInv s.db t
  owned : ∀ w id lo hi, ChunkAt s.db w id lo hi → Owned s w id
  accounted : ∀ w id lo hi n, ChunkAt s.db w id lo hi → 0 < n → n ≤ hi → Accounted s w n

/-- Rows and passes only become more. -/
structure Extends (s s' : State) : Prop where
  rows : rowKeys s.db ⊆ rowKeys s'.db
  passes : ∀ p t, s.tasks p = some t → ∃ t', s'.tasks p = some t' ∧ Later t t'

section System

variable {s s' : State} {w id : Id} {n : Nat}

theorem Owned.mono (h : Owned s w id) (hext : Extends s s') : Owned s' w id := by
  obtain ⟨p, t, ht, hw, hid⟩ := h
  obtain ⟨t', ht', hlater⟩ := hext.passes p t ht
  exact ⟨p, t', ht', hlater.window.trans hw, hlater.wrote id hid⟩

theorem Accounted.mono (h : Accounted s w n) (hext : Extends s s') : Accounted s' w n := by
  rcases h with hstored | ⟨p, t, ht, hw, pl, hpl, hmark, ⟨id, hid, lo, hi, hrow, hle⟩, hcause⟩
  · exact .inl (Stored.mono hstored hext.rows)
  · obtain ⟨t', ht', hlater⟩ := hext.passes p t ht
    refine .inr ⟨p, t', ht', hlater.window.trans hw, pl, hlater.plan pl hpl, hmark,
      ⟨id, hlater.wrote id hid, lo, hi, ?_, hle⟩, ?_⟩
    · rw [hlater.window]
      exact hext.rows hrow
    · rw [hlater.env]
      exact hcause

/-- **The step rule**: what is left to show are the chunk rows that are new. -/
theorem Inv.extend (h : Inv s) (hext : Extends s s') (htables : Tables s'.db)
    (hpasses : ∀ p t, s'.tasks p = some t → PassInv s'.db t)
    (hnew : ∀ w id lo hi, ChunkAt s'.db w id lo hi → ChunkAt s.db w id lo hi ∨
      Owned s' w id ∧ ∀ n, 0 < n → n ≤ hi → Accounted s' w n) : Inv s' := by
  refine ⟨htables, hpasses, fun w id lo hi hrow => ?_, fun w id lo hi n hrow hpos hle => ?_⟩
  · rcases hnew w id lo hi hrow with hold | ⟨howned, -⟩
    · exact (h.owned w id lo hi hold).mono hext
    · exact howned
  · rcases hnew w id lo hi hrow with hold | ⟨-, haccounted⟩
    · exact (h.accounted w id lo hi n hold hpos hle).mono hext
    · exact haccounted n hpos hle

/-! ### Chunks in order -/

theorem RowOf.covers {db : Db} {chunk : List Message} {m : Message} (h : RowOf db w id chunk)
    (hasc : Ascending (·.sequenceNumber) chunk) (hm : m ∈ chunk) : Stored db w m.sequenceNumber := by
  obtain ⟨first, last, hfirst, hlast, hrow⟩ := h
  refine stored_of_chunkAt hrow ?_ ?_
  · obtain ⟨rest, rfl⟩ := List.head?_eq_some_iff.mp hfirst
    rcases List.mem_cons.mp hm with rfl | hm
    · exact Nat.le_refl _
    · exact Nat.le_of_lt ((List.pairwise_cons.mp hasc).1 m hm)
  · obtain ⟨init, rfl⟩ := List.getLast?_eq_some_iff.mp hlast
    rcases List.mem_append.mp hm with hm | hm
    · exact Nat.le_of_lt ((List.pairwise_append.mp hasc).2.2 m hm last (List.mem_singleton_self _))
    · rw [List.mem_singleton.mp hm]

theorem Planned.chunk {db : Db} {pl : Plan} (h : Planned db w pl) {chunk : List Message} (hc : chunk ∈ pl.chunks) :
    Ascending (·.sequenceNumber) chunk :=
  (List.pairwise_flatten.mp h.ascending).1 chunk hc

/-- A later chunk has the later messages. -/
theorem Planned.lt {db : Db} {pl : Plan} (h : Planned db w pl) {i j : Nat} {a b : List Message} {x y : Message}
    (hij : i < j) (ha : pl.chunks[i]? = some a) (hb : pl.chunks[j]? = some b) (hx : x ∈ a) (hy : y ∈ b) :
    x.sequenceNumber < y.sequenceNumber := by
  obtain ⟨hi, rfl⟩ := List.getElem?_eq_some_iff.mp ha
  obtain ⟨hj, rfl⟩ := List.getElem?_eq_some_iff.mp hb
  exact List.pairwise_iff_getElem.mp (List.pairwise_flatten.mp h.ascending).2 i j hi hj hij x hx y hy

/-! ### The steps -/

/-- **The row of an insert** accounts for everything up to its end: its chunk was
cut from what the pass had loaded above its mark, and the chunks before it are
done. -/
theorem insert_accounted (h : Inv s) (hext : Extends s s') {p i : Nat} {t t' : Pass} {row : Summary}
    {rest : List (List Message × Option Text)} {locals : Locals} (ht : s.tasks p = some t)
    (hpc : t.pc = .insert i row rest locals) (ht' : s'.tasks p = some t') (hlater : Later t t')
    (hrows : rowKeys s'.db = rowKeys s.db ++ [(s.db.nextId, row.key)]) (hwrote : s.db.nextId ∈ t'.wrote)
    (hpos : 0 < n) (hle : n ≤ row.toSeq) : Accounted s' t.st.contextWindowId n := by
  have hinv := h.passes p t ht
  obtain ⟨pl, chunk, text, first, last, hpl, hpending, hfirst, hlast, hkey⟩ := hinv.here hpc
  have hplanned := hinv.planned pl hpl
  have hto : row.toSeq = last.sequenceNumber := by
    simp only [Summary.key, Prod.mk.injEq] at hkey
    exact hkey.2.2.2
  have hnewRow : ChunkAt s'.db t.st.contextWindowId s.db.nextId first.sequenceNumber last.sequenceNumber :=
    chunkAt_new hrows hkey
  have hhere := hpending.chunk
  have hlastMem : last ∈ chunk := List.mem_of_getLast? hlast
  rcases Nat.lt_or_ge pl.mark n with hmark | hmark
  swap
  · rcases hplanned.mark with h0 | ⟨id, lo, hrow⟩
    · omega
    · exact (h.accounted _ id lo pl.mark n hrow hpos hmark).mono hext
  have hpassed : (n ∉ pl.loaded.map (·.sequenceNumber) ∨ ∃ k chunk e, pl.chunks[k]? = some chunk ∧
      n ∈ chunk.map (·.sequenceNumber) ∧ t.env.chunkReply k = .error e) → Accounted s' t.st.contextWindowId n := by
    intro hcause
    refine .inr ⟨p, t', ht', hlater.window, pl, hlater.plan pl hpl, hmark,
      ⟨_, hwrote, _, _, by rw [hlater.window]; exact hnewRow, hto ▸ hle⟩, ?_⟩
    rw [hlater.env]
    exact hcause
  by_cases hloaded : n ∈ pl.loaded.map (·.sequenceNumber)
  · obtain ⟨m, hm, rfl⟩ := List.mem_map.mp hloaded
    have hin : m ∈ pl.chunks.flatten := hplanned.complete m hm hmark last
      (List.mem_flatten.mpr ⟨chunk, List.mem_of_getElem? hhere, hlastMem⟩) (hto ▸ hle)
    obtain ⟨own, hown, hmem⟩ := List.mem_flatten.mp hin
    obtain ⟨j, hj⟩ := List.mem_iff_getElem?.mp hown
    have hji : j < i + 1 := by
      by_contra hgt
      have hlt := hplanned.lt (by omega : i < j) hhere hj hlastMem hmem
      omega
    have hdone := (hpending.mono hext.rows).next (.inr ⟨_, first, last, hfirst, hlast, hnewRow⟩)
    rcases hdone.done j own hji hj with ⟨e, he⟩ | ⟨id, hrow⟩
    · exact hpassed (.inr ⟨j, own, e, hj, List.mem_map_of_mem hmem, he⟩)
    · exact .inl (hrow.covers (hplanned.chunk hown) hmem)
  · exact hpassed (.inl hloaded)

theorem inv_exec (h : Inv s) {p : Nat} {t : Pass} (ht : s.tasks p = some t) :
    Inv ⟨(t.exec s.db).1, Function.update s.tasks p (some (t.exec s.db).2)⟩ := by
  obtain ⟨htables, hinv, hlater, hadds⟩ := exec_ok h.tables (h.passes p t ht)
  generalize (t.exec s.db).1 = db' at htables hinv hadds ⊢
  generalize (t.exec s.db).2 = t' at hinv hlater hadds ⊢
  have hsub : rowKeys s.db ⊆ rowKeys db' := by
    cases hadds with
    | archival new hrows _ => exact hrows ▸ List.subset_append_left _ _
    | chunk i row rest locals _ hrows _ => exact hrows ▸ List.subset_append_left _ _
  have hhere : Function.update s.tasks p (some t') p = some t' := Function.update_self _ _ _
  have hext : Extends s ⟨db', Function.update s.tasks p (some t')⟩ := by
    refine ⟨hsub, fun q u hu => ?_⟩
    by_cases hq : q = p
    · subst hq
      obtain rfl := Option.some.inj (ht.symm.trans hu)
      exact ⟨t', hhere, hlater⟩
    · exact ⟨u, (Function.update_of_ne hq (some t') s.tasks).trans hu, .refl u⟩
  refine h.extend hext htables (fun q u hu => ?_) fun w id lo hi hrow => ?_
  · by_cases hq : q = p
    · subst hq
      obtain rfl := Option.some.inj (hhere.symm.trans hu)
      exact hinv
    · have hbefore := (Function.update_of_ne hq (some t') s.tasks).symm.trans hu
      exact (h.passes q u hbefore).mono hsub
  · cases hadds with
    | archival new hrows hthree =>
      rw [ChunkAt, hrows] at hrow
      rcases List.mem_append.mp hrow with hold | hmem
      · exact .inl hold
      · exact absurd (hthree _ hmem) (by simp)
    | chunk i row rest locals hpc hrows hwrote =>
      rw [ChunkAt, hrows] at hrow
      rcases List.mem_append.mp hrow with hold | hmem
      · exact .inl hold
      · obtain ⟨rfl, hkey⟩ := Prod.mk.inj (List.mem_singleton.mp hmem)
        have hwindow : row.contextWindowId = t.st.contextWindowId := by
          obtain ⟨_, _, _, _, _, _, _, _, _, hkey'⟩ := (h.passes p t ht).here hpc
          exact congrArg Prod.fst hkey'
        simp only [Summary.key, Prod.mk.injEq] at hkey
        obtain ⟨rfl, -, -, rfl⟩ := hkey
        refine .inr ⟨⟨p, t', hhere, hlater.window.trans hwindow.symm, hwrote⟩, fun n hpos hle => ?_⟩
        rw [hwindow]
        exact insert_accounted h hext ht hpc hhere hlater hrows hwrote hpos hle

/-- What the broker does in between leaves the summary rows. -/
theorem broker_same {db : Db} (hT : Tables db) {e : Event} (he : ∀ config w env, e ≠ .pass config w env) :
    Tables (e.apply db) ∧ rowKeys (e.apply db) = rowKeys db := by
  have hgrows : ∀ db', db.Grows db' → db'.Consecutive → Tables db' ∧ rowKeys db' = rowKeys db := fun db' hg hc => by
    have hrows : rowKeys db' = rowKeys db := by rw [rowKeys, hg.summaries, rowKeys]
    exact ⟨hT.same hc hrows hg.nextId, hrows⟩
  cases e with
  | pass config w env => exact absurd rfl (he config w env)
  | createConversation supplied now =>
    refine hgrows _ (createConversation_grows db supplied now) ?_
    show Db.Consecutive (db.createConversation supplied now)
    unfold Db.createConversation
    dsimp only
    split
    · exact hT.consecutive
    · exact hT.consecutive
  | createWindow c participant buildType budget =>
    show Tables (db.createWindow c participant buildType budget) ∧
      rowKeys (db.createWindow c participant buildType budget) = rowKeys db
    unfold Db.createWindow
    split
    · exact ⟨hT, rfl⟩
    · split
      · exact ⟨hT, rfl⟩
      · exact ⟨hT.same hT.consecutive rfl (Nat.le_succ _), rfl⟩
  | store st => exact hgrows _ (store_grows db st) (store_consecutive hT.consecutive st)
  | slide v env =>
    simp only [Event.apply]
    cases db.window? v with
    | none => exact ⟨hT, rfl⟩
    | some win =>
      dsimp only
      split
      · rcases Passthrough.assemble_final env db v with h | ⟨u, now, h⟩
        · rw [h]
          exact ⟨hT, rfl⟩
        · rw [h]
          exact ⟨hT.same hT.consecutive rfl (Nat.le_refl _), rfl⟩
      · exact ⟨hT, rfl⟩

theorem inv_broker (h : Inv s) {e : Event} (he : ∀ config w env, e ≠ .pass config w env) :
    Inv { s with db := e.apply s.db } := by
  obtain ⟨htables, hrows⟩ := broker_same h.tables he
  have hsub : rowKeys s.db ⊆ rowKeys (e.apply s.db) := by rw [hrows]; exact List.Subset.refl _
  refine h.extend ⟨hsub, fun p t ht => ⟨t, ht, .refl t⟩⟩ htables (fun p t ht => (h.passes p t ht).mono hsub)
    fun w id lo hi hrow => .inl ?_
  rw [ChunkAt, hrows] at hrow
  exact hrow

theorem inv_start (h : Inv s) {p : Nat} (hfree : s.tasks p = none) (config : Config) (env : Env) (st : AssemblyState) :
    Inv { s with tasks := Function.update s.tasks p (some { config, env, st }) } := by
  refine h.extend ⟨List.Subset.refl _, fun q u hu => ⟨u, ?_, .refl u⟩⟩ h.tables (fun q u hu => ?_)
    fun w id lo hi => .inl
  · have hq : q ≠ p := fun heq => by rw [heq, hfree] at hu; cases hu
    show Function.update s.tasks p _ q = some u
    rw [Function.update_of_ne hq]
    exact hu
  · change Function.update s.tasks p _ q = some u at hu
    by_cases hq : q = p
    · subst hq
      rw [Function.update_self] at hu
      obtain rfl := Option.some.inj hu
      exact ⟨⟨nofun, nofun⟩, rfl, rfl⟩
    · rw [Function.update_of_ne hq] at hu
      exact h.passes q u hu

theorem inv_init : Inv {} where
  tables := ⟨fun _ => rfl, fun _ h => absurd h List.not_mem_nil, List.nodup_nil, List.nodup_nil⟩
  passes _ _ h := absurd h.symm (Option.some_ne_none _)
  owned _ _ _ _ h := absurd h List.not_mem_nil
  accounted _ _ _ _ _ h := absurd h List.not_mem_nil

theorem inv_step {l : Label} (h : Inv s) (hs : step s l = some s') : Inv s' := by
  cases l with
  | broker e =>
    cases e with
    | pass config w env => cases hs
    | _ =>
      obtain rfl := Option.some.inj hs
      exact inv_broker h nofun
  | start p w config env =>
    simp only [step] at hs
    split at hs
    · rename_i win hfree _
      obtain ⟨-, hs⟩ := Option.ite_none_right_eq_some.mp hs
      obtain rfl := Option.some.inj hs
      exact inv_start h hfree config env _
    · cases hs
  | step p =>
    obtain ⟨t, ht, rfl⟩ := Option.map_eq_some_iff.mp hs
    exact inv_exec h ht

theorem inductive_inv : system.Inductive Inv where
  init s hs := by
    obtain rfl : s = {} := hs
    exact inv_init
  step _ _ _ h hs := inv_step h hs

end System

/-! ## In every interleaving -/

/-- **The watermark accounts for what it passes**, however passes, also on one
window, and the rest of the broker interleave: a number at or below the watermark
lies in the range of a stored row, or a pass that stored a row past it had not
loaded the message, or its call for the chunk of the message had failed. -/
theorem accounted_reachable {s : State} (h : system.Reachable s) (w : Id) {n : Nat} (hpos : 0 < n)
    (hle : n ≤ s.db.watermark w) : Accounted s w n := by
  have hinv := inductive_inv.reachable h
  rcases watermark_chunkAt s.db w with h0 | ⟨id, lo, hrow⟩
  · omega
  · exact hinv.accounted w id lo _ n hrow hpos hle

theorem Tables.chunkAt_eq {db : Db} (h : Tables db) {w id : Id} {lo hi lo' hi' : Nat} (h₁ : ChunkAt db w id lo hi)
    (h₂ : ChunkAt db w id lo' hi') : lo = lo' ∧ hi = hi' := by
  have heq := List.inj_on_of_nodup_map h.ids h₁ h₂ rfl
  simpa using heq

/-- A row of a pass is the row of a chunk above its mark. -/
theorem Inv.chunk_of {s : State} (h : Inv s) {p : Nat} {t : Pass} {w id : Id} {lo hi : Nat} (ht : s.tasks p = some t)
    (hw : t.st.contextWindowId = w) (hid : id ∈ t.wrote) (hrow : ChunkAt s.db w id lo hi) :
    ∃ pl, t.plan = some pl ∧ Planned s.db w pl ∧ pl.mark < lo ∧ ∃ (i : Nat) (chunk : List Message),
      pl.chunks[i]? = some chunk ∧ ∃ first last, chunk.head? = some first ∧ chunk.getLast? = some last ∧
        first.sequenceNumber = lo ∧ last.sequenceNumber = hi := by
  subst hw
  obtain ⟨pl, hpl, chunk, hchunk, first, last, hfirst, hlast, hown⟩ := (h.passes p t ht).wrote id hid
  obtain ⟨rfl, rfl⟩ := h.tables.chunkAt_eq hrow hown
  have hplanned := (h.passes p t ht).planned pl hpl
  have habove := hplanned.above first (List.mem_flatten.mpr ⟨chunk, hchunk, List.mem_of_head? hfirst⟩)
  obtain ⟨i, hi⟩ := List.mem_iff_getElem?.mp hchunk
  exact ⟨pl, hpl, hplanned, habove, i, chunk, hi, first, last, hfirst, hlast, rfl, rfl⟩

/-- **Rows that overlap**: in every interleaving, two chunk rows of a window whose
ranges meet were stored by different passes, and neither of them had seen the row
of the other active when it cut its chunks. -/
theorem overlap_unseen {s : State} (h : system.Reachable s) {w id₁ id₂ : Id} {lo₁ hi₁ lo₂ hi₂ : Nat}
    (h₁ : ChunkAt s.db w id₁ lo₁ hi₁) (h₂ : ChunkAt s.db w id₂ lo₂ hi₂) (hne : id₁ ≠ id₂)
    (hmeet : lo₁ ≤ hi₂ ∧ lo₂ ≤ hi₁) :
    ∃ p₁ p₂ t₁ t₂ pl₁ pl₂, p₁ ≠ p₂ ∧ s.tasks p₁ = some t₁ ∧ s.tasks p₂ = some t₂ ∧
      t₁.plan = some pl₁ ∧ t₂.plan = some pl₂ ∧ id₁ ∈ t₁.wrote ∧ id₂ ∈ t₂.wrote ∧
      id₁ ∉ pl₂.seen ∧ id₂ ∉ pl₁.seen := by
  have hinv := inductive_inv.reachable h
  obtain ⟨p₁, t₁, ht₁, hw₁, hid₁⟩ := hinv.owned w id₁ lo₁ hi₁ h₁
  obtain ⟨p₂, t₂, ht₂, hw₂, hid₂⟩ := hinv.owned w id₂ lo₂ hi₂ h₂
  obtain ⟨pl₁, hpl₁, hplanned₁, hmark₁, i, c₁, hi, a₁, b₁, ha₁, hb₁, hlo₁, hhi₁⟩ := hinv.chunk_of ht₁ hw₁ hid₁ h₁
  obtain ⟨pl₂, hpl₂, hplanned₂, hmark₂, j, c₂, hj, a₂, b₂, ha₂, hb₂, hlo₂, hhi₂⟩ := hinv.chunk_of ht₂ hw₂ hid₂ h₂
  refine ⟨p₁, p₂, t₁, t₂, pl₁, pl₂, ?_, ht₁, ht₂, hpl₁, hpl₂, hid₁, hid₂, fun hseen => ?_, fun hseen => ?_⟩
  · -- chunks of one pass follow one another
    intro hp
    subst hp
    obtain rfl := Option.some.inj (ht₁.symm.trans ht₂)
    obtain rfl := Option.some.inj (hpl₁.symm.trans hpl₂)
    rcases Nat.lt_trichotomy i j with hlt | rfl | hgt
    · have hbefore := hplanned₁.lt hlt hi hj (List.mem_of_getLast? hb₁) (List.mem_of_head? ha₂)
      omega
    · obtain rfl := Option.some.inj (hi.symm.trans hj)
      obtain rfl := Option.some.inj (ha₁.symm.trans ha₂)
      obtain rfl := Option.some.inj (hb₁.symm.trans hb₂)
      rw [← hlo₁, ← hhi₁] at h₁
      rw [← hlo₂, ← hhi₂] at h₂
      exact hne (congrArg Prod.fst (List.inj_on_of_nodup_map hinv.tables.keys h₁ h₂ rfl))
    · have hbefore := hplanned₁.lt hgt hj hi (List.mem_of_getLast? hb₂) (List.mem_of_head? ha₁)
      omega
  · obtain ⟨lo, hi, hrow, hle⟩ := hplanned₂.seen id₁ hseen
    obtain ⟨-, rfl⟩ := hinv.tables.chunkAt_eq hrow h₁
    omega
  · obtain ⟨lo, hi, hrow, hle⟩ := hplanned₁.seen id₂ hseen
    obtain ⟨-, rfl⟩ := hinv.tables.chunkAt_eq hrow h₂
    omega

/-! ## Two passes on one window -/

/-- Three messages, and pass 0 up to its insert; one more message, and pass 1 up to
its insert; then both insert. -/
def twoPasses : List Label :=
  (opened .tieredSummary 8 ++ chat 3 8).map .broker ++ .start 0 1 defaultConfig (calm ['s']) ::
    List.replicate 8 (.step 0) ++ .broker (say "b" 8) :: .start 1 1 defaultConfig (calm ['s']) ::
    List.replicate 8 (.step 1) ++ [.step 1, .step 0]

theorem twoPasses_rows : ∃ s, system.Reachable s ∧ s.db.watermark 1 = 2 ∧
    ChunkAt s.db 1 6 1 2 ∧ ChunkAt s.db 1 7 1 1 := by
  have hrun : (exec step {} twoPasses).any (fun s => decide (s.db.watermark 1 = 2 ∧
      ChunkAt s.db 1 6 1 2 ∧ ChunkAt s.db 1 7 1 1)) = true := by
    decide +kernel
  obtain ⟨s, hs, hrows⟩ := (Option.any_eq_true _ _).mp hrun
  exact ⟨s, ⟨{}, twoPasses, rfl, run_of_exec hs⟩, of_decide_eq_true hrows⟩

theorem accounted_reachable_twoPasses : ∃ s, system.Reachable s ∧ s.db.watermark 1 = 2 ∧ Accounted s 1 2 := by
  obtain ⟨s, hs, hmark, -⟩ := twoPasses_rows
  exact ⟨s, hs, hmark, accounted_reachable hs 1 (by decide) (by omega)⟩

/-- Message 1 is in the rows of both passes. -/
theorem overlap_unseen_twoPasses : ∃ s : State, ChunkAt s.db 1 6 1 2 ∧ ChunkAt s.db 1 7 1 1 ∧
    ∃ p₁ p₂ t₁ t₂ pl₁ pl₂, p₁ ≠ p₂ ∧ s.tasks p₁ = some t₁ ∧ s.tasks p₂ = some t₂ ∧
      t₁.plan = some pl₁ ∧ t₂.plan = some pl₂ ∧ 6 ∈ t₁.wrote ∧ 7 ∈ t₂.wrote ∧ 6 ∉ pl₂.seen ∧ 7 ∉ pl₁.seen := by
  obtain ⟨s, hs, -, h₁, h₂⟩ := twoPasses_rows
  exact ⟨s, h₁, h₂, overlap_unseen hs h₁ h₂ (by decide) (by decide)⟩

end ContextBroker.ConcurrentPasses
