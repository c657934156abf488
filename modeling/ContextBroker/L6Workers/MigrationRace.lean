import ContextBroker.L6Workers.EmbeddingColumn

/-!
# A batch in flight across a migration

A batch whose vectors were computed with the old model can be written after
the wipe. Rows of the batch are not looked at again once they hold a vector
(`stale_stays`), so a stale one is there to stay.

`stale_iff`: when the migration has returned, no row holds an embedding of
the old model exactly when the worker wrote none after the wipe, and the wipe
took place or had nothing to remove.
-/
namespace ContextBroker.Workers

open EmbeddingWorker LTS

/-- The row holds an embedding computed with `old`. -/
def Row.Stale (old : EmbeddingsConfig) (r : Row) : Prop := ∃ v, r.embedding = some v ∧ v.source = some old

/-- No row does. -/
def Fresh (old : EmbeddingsConfig) (s : State) : Prop := ∀ r ∈ s.table.rows, ¬ r.Stale old

/-- The tool is past the wipe of the message embeddings. -/
def Migration.wiped : Migration → Prop
  | .idle => False
  | .running _ rest => .wipeMessages ∉ rest
  | .returned => True
  | .failed => False

/-- A step that leaves no stale embedding behind: past the wipe a vector of
the old model is not written, and a database error that keeps the tool from
the wipe comes when there is nothing to remove. -/
def Clean (settings : Settings) (old : EmbeddingsConfig) (s : State) : Label → Prop
  | .work reply => s.migration.wiped → reply = .ok →
    ∀ id v, request settings s.worker.pc = some (.store id v) → s.table.fits v = true → v.source ≠ some old
  | .statement (some e) =>
    match s.migration with
    | .running _ (statement :: rest) => statement ≠ .updateConfig → e.caughtBy [.postgresError, .osError] = true →
      .wipeMessages ∈ statement :: rest → Fresh old s
    | _ => True
  | _ => True

section

variable {settings : Settings} {old : EmbeddingsConfig} {s s' : State} {l : Label}

theorem fresh_of_rows (h : s'.table.rows = s.table.rows) : Fresh old s' ↔ Fresh old s := by
  unfold Fresh
  rw [h]

theorem fresh_wiped (h : s'.table.rows = s.table.wipe.rows) : Fresh old s' := by
  intro r hr hstale
  rw [h] at hr
  obtain ⟨r', _, rfl⟩ := List.mem_map.mp hr
  obtain ⟨v, hv, _⟩ := hstale
  cases hv

/-- A row on the worker's list has no embedding. -/
theorem Inv.null (hI : Inv s) {r : Row} (hr : r ∈ s.table.rows) (hid : r.id ∈ todo s.worker.pc) :
    r.embedding = none := by
  obtain ⟨r', hr', hsame, hnull⟩ := hI.pending r.id hid
  rwa [← List.inj_on_of_nodup_map hI.nodup hr' hr hsame]

/-- **A write** leaves no stale row exactly when the vector is not one of the
old model. -/
theorem fresh_write (hI : Inv s) (hfresh : Fresh old s) {id : Id} {v : Embedding} (hid : id ∈ todo s.worker.pc)
    (h : s'.table.rows = (s.table.set id v).rows) : Fresh old s' ↔ v.source ≠ some old := by
  constructor
  · intro hnone hv
    obtain ⟨r, hr, rfl, _⟩ := hI.pending id hid
    refine hnone { r with embedding := some v } ?_ ⟨v, rfl, hv⟩
    rw [h]
    exact List.mem_map.mpr ⟨r, hr, if_pos rfl⟩
  · intro hv r hr hstale
    rw [h] at hr
    obtain ⟨r', hr', rfl⟩ := List.mem_map.mp hr
    split at hstale
    · obtain ⟨v', hv', hsource⟩ := hstale
      obtain rfl := Option.some.inj hv'
      exact hv hsource
    · exact hfresh r' hr' hstale

/-- What is left after a statement other than the wipe. -/
theorem wiped_next {new : EmbeddingsConfig} {statement : Statement} {rest : List Statement}
    (h : statement ≠ .wipeMessages) :
    (if rest = [] then Migration.returned else .running new rest).wiped ↔ .wipeMessages ∉ statement :: rest := by
  by_cases hrest : rest = []
  · subst hrest
    simp [Migration.wiped, h.symm]
  · simp [hrest, Migration.wiped, h.symm]

theorem rows_kept {statement : Statement} (h : statement ≠ .wipeMessages) (new : EmbeddingsConfig) (s : State) :
    (statement.apply new s).table.rows = s.table.rows :=
  (statement.rows_apply new s).2.resolve_right fun hwipe => h hwipe.1

theorem work_frame {reply : Reply} (h : work settings s reply = some s') : s'.migration = s.migration := by
  obtain ⟨_, _, _, _, _, _, _, rfl⟩ := work_eq_some.mp h
  rfl

/-- **One step**, from a state that is fresh if it is past the wipe. -/
theorem fresh_step_iff (hI : Inv s) (hP : s.migration.wiped → Fresh old s) (h : step settings s l = some s') :
    (s'.migration.wiped → Fresh old s') ↔ Clean settings old s l := by
  cases l with
  | arrive id content priority createdAt =>
    simp only [step] at h
    split at h
    · cases h
    · obtain rfl := Option.some.inj h
      refine iff_of_true (fun hw r hr hstale => ?_) trivial
      rcases List.mem_append.mp hr with hr | hr
      · exact hP hw r hr hstale
      · obtain rfl := List.mem_singleton.mp hr
        obtain ⟨v, hv, _⟩ := hstale
        cases hv
  | work reply =>
    rw [work_frame h]
    by_cases hw : s.migration.wiped
    · cases work_step h with
      | wrote id v rest asked ok fits rows before _ =>
        have hwrite : Fresh old s' ↔ v.source ≠ some old :=
          fresh_write hI (hP hw) (by rw [before]; exact List.mem_cons_self) rows
        constructor
        · intro hfresh _ _ id' v' hreq _
          obtain ⟨rfl, rfl⟩ := Request.store.inj (Option.some.inj (asked.symm.trans hreq))
          exact hwrite.mp (hfresh hw)
        · intro hclean _
          exact hwrite.mpr (hclean hw ok id v asked fits)
      | kept asked rows _ =>
        refine iff_of_true (fun _ => (fresh_of_rows rows).mpr (hP hw)) fun _ hok id v hreq hfits => ?_
        rw [asked id v hreq hok] at hfits
        cases hfits
    · exact iff_of_true (fun hw' => absurd hw' hw) fun hw' => absurd hw' hw
  | migrate new =>
    obtain ⟨_, h⟩ := Option.ite_none_right_eq_some.mp h
    obtain rfl := Option.some.inj h
    exact iff_of_true (fun hw => absurd (by decide) hw) trivial
  | statement fault =>
    cases runStatement_cases h with
    | ran new statement rest running ok =>
      subst ok
      refine iff_of_true (fun hw => ?_) trivial
      by_cases hst : statement = .wipeMessages
      · subst hst
        exact fresh_wiped rfl
      · have hw' : s.migration.wiped := by
          rw [running]
          exact (wiped_next hst).mp hw
        exact (fresh_of_rows (rows_kept hst new s)).mpr (hP hw')
    | reported new statement rest e running raised caught =>
      subst raised
      simp only [Clean, running]
      constructor
      · intro hfresh _ _ _
        exact hfresh trivial
      · intro hclean _
        by_cases hmem : .wipeMessages ∈ statement :: rest
        · exact hclean caught.1 caught.2 hmem
        · exact hP (running ▸ hmem)
    | failed new statement rest e running raised uncaught =>
      subst raised
      simp only [Clean, running]
      exact iff_of_true (fun hw => hw.elim) fun hst hc => absurd ⟨hst, hc⟩ uncaught

/-- A stale row past the wipe, or a tool that failed: neither goes away. -/
def Lost (old : EmbeddingsConfig) (s : State) : Prop := s.migration.wiped ∧ ¬ Fresh old s ∨ s.migration = .failed

/-- **A stale row stays**: the worker does not write to it again, and the wipe
is over. -/
theorem stale_stays (hI : Inv s) (hL : Lost old s) (h : step settings s l = some s') : Lost old s' := by
  have hrows : s.migration.wiped → ¬ Fresh old s → s'.migration.wiped →
      (∀ r ∈ s.table.rows, r.Stale old → r ∈ s'.table.rows) → Lost old s' := by
    intro _ hstale hw' hkept
    refine .inl ⟨hw', fun hfresh => hstale fun r hr hs => hfresh r (hkept r hr hs) hs⟩
  cases l with
  | arrive id content priority createdAt =>
    simp only [step] at h
    split at h
    · cases h
    · obtain rfl := Option.some.inj h
      rcases hL with ⟨hw, hstale⟩ | hfailed
      · exact hrows hw hstale hw fun r hr _ => List.mem_append_left _ hr
      · exact .inr hfailed
  | work reply =>
    have hm := work_frame h
    rcases hL with ⟨hw, hstale⟩ | hfailed
    · refine hrows hw hstale (by rw [hm]; exact hw) fun r hr hs => ?_
      cases work_step h with
      | wrote id v rest _ _ _ rows before _ =>
        rw [rows]
        refine Table.mem_set hr fun hid => ?_
        have hnull := hI.null hr (by rw [hid, before]; exact List.mem_cons_self)
        obtain ⟨v', hv', _⟩ := hs
        rw [hnull] at hv'
        cases hv'
      | kept _ rows _ => rwa [rows]
    · exact .inr (hm.trans hfailed)
  | migrate new =>
    obtain ⟨hidle, _⟩ := Option.ite_none_right_eq_some.mp h
    rcases hL with ⟨hw, _⟩ | hfailed
    · rw [hidle] at hw
      exact hw.elim
    · rw [hidle] at hfailed
      cases hfailed
  | statement fault =>
    cases runStatement_cases h with
    | ran new statement rest running =>
      rcases hL with ⟨hw, hstale⟩ | hfailed
      · have hw' : .wipeMessages ∉ statement :: rest := by
          rw [running] at hw
          exact hw
        have hst : statement ≠ .wipeMessages := fun heq => hw' (heq ▸ List.mem_cons_self)
        refine hrows hw hstale ((@wiped_next new _ _ hst).mpr hw') fun r hr _ => ?_
        rwa [rows_kept hst new s]
      · rw [running] at hfailed
        cases hfailed
    | reported _ _ _ _ running =>
      rcases hL with ⟨hw, hstale⟩ | hfailed
      · exact hrows hw hstale trivial fun r hr _ => hr
      · rw [running] at hfailed
        cases hfailed
    | failed => exact .inr rfl

end

/-- **No stale embedding**, in every interleaving of one migration with the
worker: when the tool has returned (and at whatever point the worker is then,
the end of its batch included), no row holds an embedding of the old model
exactly when every step of the run was clean. -/
theorem stale_iff (settings : Settings) (config : WorkerConfig) (ls : List Label) (s : State)
    (h : exec (step settings) (start config) ls = some s) (hreturned : s.migration = .returned) :
    Fresh config.embeddings s ↔
      ∀ t l t', Takes (step settings) (start config) ls t l t' → Clean settings config.embeddings t l := by
  have hiff : (∀ t, Passes (step settings) (start config) ls t → t.migration.wiped → Fresh config.embeddings t) ↔
      ∀ t l t', Takes (step settings) (start config) ls t l t' → Clean settings config.embeddings t l :=
    always_iff (I := Inv) (fun _ _ _ hI _ h => hI.step h) (fun _ _ _ hI hP h => fresh_step_iff hI hP h) (Inv.start config)
      (fun hw => hw.elim) ls
  rw [← hiff]
  constructor
  · intro hfresh t hpass hw
    by_contra hstale
    have hI : Inv t := hpass.inv (fun _ _ _ hI h => hI.step h) (Inv.start config)
    obtain ⟨rest, hrest⟩ := hpass.rest h
    have hend : Inv s ∧ Lost config.embeddings s :=
      (passes_of_exec hrest).inv (I := fun t => Inv t ∧ Lost config.embeddings t)
        (fun _ _ _ h hs => ⟨h.1.step hs, stale_stays h.1 h.2 hs⟩) ⟨hI, .inl ⟨hw, hstale⟩⟩
    rcases hend.2 with ⟨_, hno⟩ | hfailed
    · exact hno hfresh
    · exact nomatch hreturned.symm.trans hfailed
  · intro hall
    exact hall s (passes_of_exec h) (by rw [hreturned]; trivial)

/-! ## Sample runs -/

def oldConfig : WorkerConfig := { embeddings := { model := "small".toList, embeddingDims := some 2 } }

def newModel : EmbeddingsConfig := { model := "large".toList, embeddingDims := some 2 }

/-- The tool, undisturbed. -/
def migrated (new : EmbeddingsConfig) : List Label := .migrate new :: List.replicate plan.length (.statement none)

/-- A message arrives and the worker has its vector. -/
def batchOf (dim : Nat) : List Label :=
  [.arrive 1 (some "hello".toList) 0 0] ++ List.replicate 5 (.work .ok) ++ [.work (.vectors [dim])]

/-- The worker is done with its batch when the migration starts. -/
theorem stale_iff_serial :
    ∃ s, exec (step {}) (start oldConfig) (batchOf 2 ++ List.replicate 4 (.work .ok) ++ migrated newModel) = some s ∧
      (Fresh oldConfig.embeddings s ↔ ∀ t l t', Takes (step {}) (start oldConfig)
        (batchOf 2 ++ List.replicate 4 (.work .ok) ++ migrated newModel) t l t' →
          Clean {} oldConfig.embeddings t l) := by
  obtain ⟨s, hs, hreturned⟩ : ∃ s, exec (step {}) (start oldConfig)
      (batchOf 2 ++ List.replicate 4 (.work .ok) ++ migrated newModel) = some s ∧ s.migration = .returned :=
    ⟨_, rfl, by decide⟩
  exact ⟨s, hs, stale_iff {} oldConfig _ s hs hreturned⟩

/-- The migration runs while the vectors are on their way to the table. -/
theorem stale_false :
    ¬ ∀ (settings : Settings) (config : WorkerConfig) (ls : List Label) (s : State),
      exec (step settings) (start config) ls = some s → s.migration = .returned → s.worker.pc = .loadConfig →
        Fresh config.embeddings s := by
  intro h
  obtain ⟨s, hs, hreturned, hhead, hrow⟩ : ∃ s, exec (step {}) (start oldConfig)
      (batchOf 2 ++ migrated newModel ++ List.replicate 4 (.work .ok)) = some s ∧ s.migration = .returned ∧
      s.worker.pc = .loadConfig ∧
        (⟨1, some "hello".toList, 0, 0, some ⟨2, some oldConfig.embeddings⟩⟩ : Row) ∈ s.table.rows :=
    ⟨_, rfl, by decide, by decide, by decide⟩
  exact h {} oldConfig _ s hs hreturned hhead _ hrow ⟨_, rfl, rfl⟩

end ContextBroker.Workers
