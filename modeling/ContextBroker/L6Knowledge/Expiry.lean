import ContextBroker.L6Knowledge.QualityWrapper

/-!
# Expired knowledge

A search filters by the metadata rows it reads, so what keeps expired
knowledge hidden is its row. `cleanup_expired` deletes the row of a fact
after the fact, but that of a relation while Mem0 keeps the relation, and
either one under a search that has its target in hand.

`Inv`: what Mem0 holds and what a search has found has the row of every
expiry on record for it. Only the deletion of a row can end it (`Clean`).
-/
namespace ContextBroker.QualityWrapper

open LTS State

/-- `expires_at` in the row of a target. -/
def expiresAt? (t : QualityTables) (x : Target) : Option Time := (t.metadata? x).bind (·.expiresAt)

/-- The row of `x` has every expiry of `l` for it. -/
def Covers (t : QualityTables) (l : List (Target × Time)) (x : Target) : Prop :=
  ∀ e, (x, e) ∈ l → expiresAt? t x = some e

/-- No result had expired by a row older than the search. -/
def Answer.Fresh (a : Answer) : Prop :=
  ∀ item ∈ a.vectorFacts ++ a.graphRelations, ∀ e, (item.target, e) ∈ a.earlier → ¬e < a.time

def State.Fresh (s : State) : Prop := ∀ a ∈ s.answers, a.Fresh

structure Inv (s : State) : Prop where
  held : ∀ x ∈ s.memories, Covers s.tables s.recorded x
  earlier : ∀ i hits earlier, s.task i = some (.searching hits earlier) → earlier ⊆ s.recorded
  found : ∀ i hits earlier, s.task i = some (.searching hits earlier) → ∀ x ∈ hits, Covers s.tables earlier x
  batch : ∀ i hits batch earlier, s.task i = some (.enriching hits batch earlier) → ∀ x ∈ hits, ∀ e,
    (x, e) ∈ earlier → (batch.find? (·.target == x)).bind (·.expiresAt) = some e
  finite : ∃ n, ∀ i, n ≤ i → s.task i = none

/-- Without the row of `x`, nothing that has expired can come up: neither
Mem0 nor a search has it, as far as its expiries still count. -/
def State.Dispensable (s : State) (x : Target) : Prop :=
  (x ∈ s.memories → ∀ e, (x, e) ∉ s.recorded) ∧
    ∀ i hits earlier, s.task i = some (.searching hits earlier) → x ∈ hits → ∀ e, (x, e) ∉ earlier

/-- A step that deletes a metadata row deletes a dispensable one. -/
def Clean (s : State) : Label → Prop
  | .resume i (.ok _) => ∀ x rest adds, s.task i = some (.purging x rest adds) → s.Dispensable x
  | _ => True

/-! ## Steps that leave the rows alone -/

def Task.isSearch : Task → Bool
  | .searching _ _ => true
  | .enriching _ _ _ => true
  | .checking _ => false
  | .adding => false
  | .fetching _ _ => false
  | .deleting _ _ _ => false
  | .purging _ _ _ => false

structure Quiet (s s' : State) : Prop where
  metadata : s'.tables.metadata = s.tables.metadata
  recorded : s'.recorded = s.recorded
  memories : s'.memories ⊆ s.memories
  task : ∀ i t, s'.task i = some t → s.task i = some t ∨ t.isSearch = false
  finite : (∃ n, ∀ i, n ≤ i → s.task i = none) → ∃ n, ∀ i, n ≤ i → s'.task i = none
  answers : s'.answers = s.answers

section

variable {s s' s'' : State} {settings : Settings} {i : Nat}

theorem Quiet.refl (s : State) : Quiet s s :=
  ⟨rfl, rfl, fun _ h => h, fun _ _ h => .inl h, id, rfl⟩

theorem Quiet.trans (h : Quiet s s') (h' : Quiet s' s'') : Quiet s s'' where
  metadata := h'.metadata.trans h.metadata
  recorded := h'.recorded.trans h.recorded
  memories := fun _ hx => h.memories (h'.memories hx)
  task := by
    intro i t ht
    cases h'.task i t ht with
    | inl hold => exact h.task i t hold
    | inr hquiet => exact .inr hquiet
  finite := fun hf => h'.finite (h.finite hf)
  answers := h'.answers.trans h.answers

theorem become_finite {task : Option Task} (h : ∃ n, ∀ i, n ≤ i → s.task i = none) :
    ∃ n, ∀ j, n ≤ j → (s.become i task).task j = none := by
  obtain ⟨n, hn⟩ := h
  refine ⟨max n (i + 1), fun j hj => ?_⟩
  have hne : j ≠ i := by omega
  simpa [become, hne] using hn j (by omega)

theorem become_quiet {task : Option Task} (h : ∀ t ∈ task, t.isSearch = false) : Quiet s (s.become i task) where
  metadata := rfl
  recorded := rfl
  memories := fun _ hx => hx
  task := by
    intro j t ht
    by_cases hj : j = i
    · subst hj
      exact .inr (h t (by simpa [become] using ht))
    · exact .inl (by simpa [become, hj] using ht)
  finite := become_finite
  answers := rfl

theorem forget_quiet (removed : List Target) : Quiet s (s.forget removed) where
  metadata := rfl
  recorded := rfl
  memories := fun _ hx => (List.mem_filter.mp hx).1
  task := fun _ _ h => .inl h
  finite := id
  answers := rfl

/-- The counters and clocks. -/
theorem quiet_of_eq (htables : s'.tables.metadata = s.tables.metadata) (hrecorded : s'.recorded = s.recorded)
    (hmemories : s'.memories = s.memories) (htask : s'.task = s.task) (hanswers : s'.answers = s.answers) :
    Quiet s s' where
  metadata := htables
  recorded := hrecorded
  memories := fun _ hx => hmemories ▸ hx
  task := fun _ _ h => .inl (htask ▸ h)
  finite := fun h => htask ▸ h
  answers := hanswers

theorem callMem0Add_quiet : Quiet s (s.callMem0Add i) := by
  have hadding : Quiet s (s.become i (some .adding)) := become_quiet (by simp [Task.isSearch])
  exact hadding.trans (quiet_of_eq rfl rfl rfl rfl rfl)

theorem beforeMem0Add_quiet : Quiet s (s.beforeMem0Add settings i) := by
  unfold beforeMem0Add
  split
  · have hfetching : Quiet s (s.become i (some (.fetching true s.now))) := become_quiet (by simp [Task.isSearch])
    exact hfetching.trans (quiet_of_eq rfl rfl rfl rfl rfl)
  · exact callMem0Add_quiet

theorem add_quiet {call : AddCall} : Quiet s (s.add settings i call) := by
  unfold State.add
  split
  · exact .refl s
  · split
    · exact become_quiet (by simp [Task.isSearch])
    · exact beforeMem0Add_quiet

theorem maybeCleanup_quiet : Quiet s (s.maybeCleanup settings i) := by
  unfold maybeCleanup
  split
  · have hfetching : Quiet s (s.become i (some (.fetching false s.now))) := become_quiet (by simp [Task.isSearch])
    exact hfetching.trans (quiet_of_eq rfl rfl rfl rfl rfl)
  · exact .refl s

theorem nextRow_quiet {adds : Bool} {rows : List Target} : Quiet s (s.nextRow i adds rows) := by
  unfold nextRow
  split
  · split
    · exact callMem0Add_quiet
    · exact become_quiet (by simp)
  · exact become_quiet (by split <;> simp [Task.isSearch])

theorem expiresAt_congr {t t' : QualityTables} (h : t'.metadata = t.metadata) (x : Target) :
    expiresAt? t' x = expiresAt? t x := by
  simp [expiresAt?, QualityTables.metadata?, h]

theorem Inv.quiet (hI : Inv s) (h : Quiet s s') : Inv s' where
  held := by
    intro x hx e he
    rw [expiresAt_congr h.metadata]
    exact hI.held x (h.memories hx) e (h.recorded ▸ he)
  earlier := by
    intro j hits earlier hj
    have hold := (h.task j _ hj).resolve_right (by simp [Task.isSearch])
    exact h.recorded ▸ hI.earlier j hits earlier hold
  found := by
    intro j hits earlier hj x hx e he
    have hold := (h.task j _ hj).resolve_right (by simp [Task.isSearch])
    rw [expiresAt_congr h.metadata]
    exact hI.found j hits earlier hold x hx e he
  batch := by
    intro j hits batch earlier hj
    exact hI.batch j hits batch earlier ((h.task j _ hj).resolve_right (by simp [Task.isSearch]))
  finite := h.finite hI.finite

end

/-! ## The others -/

section

variable {s s' : State} {settings : Settings} {i : Nat}

theorem Inv.initial (memories : List Target) (now : Time) : Inv (initial memories now) where
  held := by simp [Covers, QualityWrapper.initial]
  earlier := by simp [QualityWrapper.initial]
  found := by simp [QualityWrapper.initial]
  batch := by simp [QualityWrapper.initial]
  finite := ⟨0, fun _ _ => rfl⟩

/-- An insert keeps the rows there are, and puts on record what it inserts. -/
theorem writeMetadata_cases (s : State) (fields : MetadataFields) (conversationId : Option Id)
    (conversationExists : Id → Bool) (fault : Option Exn) :
    let s' := s.writeMetadata fields conversationId conversationExists fault
    Quiet s s' ∨ ∃ q : Metadata, (∀ r ∈ s.tables.metadata, r.target ≠ q.target) ∧
      s' = { s with tables := { s.tables with metadata := s.tables.metadata ++ [q] }
                    recorded := s.recorded ++ (expiry q).toList } := by
  unfold State.writeMetadata
  obtain hsame | ⟨c, -, -, hnew, hrow⟩ :=
    s.tables.writeMetadata_cases conversationExists fault s.now fields conversationId
  · left
    refine quiet_of_eq ?_ ?_ rfl rfl rfl <;> simp [hsame]
  · right
    refine ⟨{ fields with conversationId := c, extractedAt := s.now }, hnew, ?_⟩
    simp only [hrow, List.drop_left, List.filterMap_cons, List.filterMap_nil]
    cases expiry { fields with conversationId := c, extractedAt := s.now } <;> rfl

theorem expiresAt_append {t : QualityTables} {q : Metadata} {x : Target} {e : Time}
    (h : expiresAt? t x = some e) : expiresAt? { t with metadata := t.metadata ++ [q] } x = some e := by
  obtain ⟨r, hr, he⟩ := Option.bind_eq_some_iff.mp h
  refine Option.bind_eq_some_iff.mpr ⟨r, ?_, he⟩
  unfold QualityTables.metadata? at hr ⊢
  rw [List.find?_append, hr]
  rfl

theorem expiresAt_new {t : QualityTables} {q : Metadata} (h : ∀ r ∈ t.metadata, r.target ≠ q.target) :
    expiresAt? { t with metadata := t.metadata ++ [q] } q.target = q.expiresAt := by
  have hnone : t.metadata.find? (·.target == q.target) = none := by
    simpa [List.find?_eq_none] using h
  simp [expiresAt?, QualityTables.metadata?, List.find?_append, hnone]

theorem Inv.insert {q : Metadata} (hI : Inv s) (hnew : ∀ r ∈ s.tables.metadata, r.target ≠ q.target) :
    Inv { s with tables := { s.tables with metadata := s.tables.metadata ++ [q] }
                 recorded := s.recorded ++ (expiry q).toList } where
  held := by
    intro x hx e he
    rcases List.mem_append.mp he with hold | hadded
    · exact expiresAt_append (hI.held x hx e hold)
    · obtain ⟨e', he', hpair⟩ := Option.map_eq_some_iff.mp (Option.mem_toList.mp hadded)
      obtain ⟨rfl, rfl⟩ := Prod.mk.inj hpair
      rw [expiresAt_new hnew, he']
  earlier := fun j hits earlier hj => List.subset_append_of_subset_left _ (hI.earlier j hits earlier hj)
  found := fun j hits earlier hj x hx e he => expiresAt_append (hI.found j hits earlier hj x hx e he)
  batch := hI.batch
  finite := hI.finite

theorem supersede_searching {stored : List Target} {t : Task} {hits : List Target} {earlier : List (Target × Time)}
    (h : t.supersede stored = .searching hits earlier) :
    ∃ old, t = .searching hits old ∧ earlier = old.filter (·.1 ∉ stored) := by
  cases t <;> simp_all [Task.supersede]

theorem supersede_enriching {stored : List Target} {t : Task} {hits : List Target} {batch : List Metadata}
    {earlier : List (Target × Time)} (h : t.supersede stored = .enriching hits batch earlier) :
    ∃ old, t = .enriching hits batch old ∧ earlier = old.filter (·.1 ∉ stored) := by
  cases t <;> simp_all [Task.supersede]

/-- What an add touches starts afresh. -/
theorem Inv.mem0 (hI : Inv s) (stored removed : List Target) : Inv (s.mem0 stored removed) where
  held := by
    intro x hx e he
    obtain ⟨hrec, hfresh⟩ := List.mem_filter.mp he
    have hold : x ∈ s.memories := by
      rcases List.mem_append.mp hx with hkept | hstored
      · exact (List.mem_filter.mp hkept).1
      · simp [hstored] at hfresh
    exact hI.held x hold e hrec
  earlier := by
    intro j hits earlier hj
    obtain ⟨t, ht, hsup⟩ := Option.map_eq_some_iff.mp hj
    obtain ⟨old, rfl, rfl⟩ := supersede_searching hsup
    exact List.filter_subset _ (hI.earlier j hits old ht)
  found := by
    intro j hits earlier hj x hx e he
    obtain ⟨t, ht, hsup⟩ := Option.map_eq_some_iff.mp hj
    obtain ⟨old, rfl, rfl⟩ := supersede_searching hsup
    exact hI.found j hits old ht x hx e (List.mem_filter.mp he).1
  batch := by
    intro j hits batch earlier hj x hx e he
    obtain ⟨t, ht, hsup⟩ := Option.map_eq_some_iff.mp hj
    obtain ⟨old, rfl, rfl⟩ := supersede_enriching hsup
    exact hI.batch j hits batch old ht x hx e (List.mem_filter.mp he).1
  finite := by
    obtain ⟨n, hn⟩ := hI.finite
    exact ⟨n, fun j hj => by simp [State.mem0, hn j hj]⟩

theorem expiresAt_purge {x y : Target} (h : y ≠ x) : expiresAt? (s.purge x).tables y = expiresAt? s.tables y := by
  have hfind : (s.tables.metadata.filter (·.target != x)).find? (·.target == y) =
      s.tables.metadata.find? (·.target == y) := by
    rw [List.find?_filter]
    congr 1
    funext q
    by_cases hq : q.target = y <;> simp [hq, h]
  simp [expiresAt?, QualityTables.metadata?, purge, hfind]

theorem Inv.purge {x : Target} (hI : Inv s) (h : s.Dispensable x) : Inv (s.purge x) where
  held := by
    intro y hy e he
    by_cases hyx : y = x
    · subst hyx
      exact absurd he (h.1 hy e)
    · rw [expiresAt_purge hyx]
      exact hI.held y hy e he
  earlier := hI.earlier
  found := by
    intro j hits earlier hj y hy e he
    by_cases hyx : y = x
    · subst hyx
      exact absurd he (h.2 j hits earlier hj hy e)
    · rw [expiresAt_purge hyx]
      exact hI.found j hits earlier hj y hy e he
  batch := hI.batch
  finite := hI.finite

/-- A task that searches takes another one's place or its own. -/
theorem become_search {task t : Task} {j : Nat} (h : (s.become i (some task)).task j = some t) :
    j = i ∧ task = t ∨ s.task j = some t := by
  by_cases hj : j = i
  · subst hj
    exact .inl ⟨rfl, by simpa [become] using h⟩
  · exact .inr (by simpa [become, hj] using h)

theorem Inv.search (hI : Inv s) : Inv (s.become i (some (.searching [] s.recorded))) where
  held := hI.held
  earlier := by
    intro j hits earlier hj
    obtain ⟨-, htask⟩ | hold := become_search hj
    · obtain ⟨-, rfl⟩ := Task.searching.inj htask
      exact fun _ h => h
    · exact hI.earlier j hits earlier hold
  found := by
    intro j hits earlier hj
    obtain ⟨-, htask⟩ | hold := become_search hj
    · obtain ⟨rfl, -⟩ := Task.searching.inj htask
      simp
    · exact hI.found j hits earlier hold
  batch := by
    intro j hits batch earlier hj
    obtain ⟨-, htask⟩ | hold := become_search hj
    · cases htask
    · exact hI.batch j hits batch earlier hold
  finite := become_finite hI.finite

/-- What a search finds is held, so its rows are there. -/
theorem Inv.find {hits found : List Target} {earlier : List (Target × Time)} (hI : Inv s)
    (htask : s.task i = some (.searching found earlier)) (hheld : hits ⊆ s.memories) :
    Inv (s.become i (some (.searching (found ++ hits) earlier))) where
  held := hI.held
  earlier := by
    intro j hits' earlier' hj
    obtain ⟨-, hnew⟩ | hold := become_search hj
    · obtain ⟨-, rfl⟩ := Task.searching.inj hnew
      exact hI.earlier i found earlier htask
    · exact hI.earlier j hits' earlier' hold
  found := by
    intro j hits' earlier' hj x hx
    obtain ⟨-, hnew⟩ | hold := become_search hj
    · obtain ⟨rfl, rfl⟩ := Task.searching.inj hnew
      rcases List.mem_append.mp hx with hfound | hhit
      · exact hI.found i found earlier htask x hfound
      · exact fun e he => hI.held x (hheld hhit) e (hI.earlier i found earlier htask he)
    · exact hI.found j hits' earlier' hold x hx
  batch := by
    intro j hits' batch earlier' hj
    obtain ⟨-, hnew⟩ | hold := become_search hj
    · cases hnew
    · exact hI.batch j hits' batch earlier' hold
  finite := become_finite hI.finite

theorem find_batch {t : QualityTables} {hits : List Target} {x : Target} (hx : x ∈ hits) :
    (getMetadataBatch t hits).find? (·.target == x) = t.metadata? x := by
  unfold getMetadataBatch QualityTables.metadata?
  rw [List.find?_filter]
  congr 1
  funext q
  by_cases hq : q.target = x <;> simp [hq, hx]

theorem Inv.readMetadata {hits : List Target} {earlier : List (Target × Time)} (hI : Inv s)
    (htask : s.task i = some (.searching hits earlier)) :
    Inv (s.become i (some (.enriching hits (getMetadataBatch s.tables hits) earlier))) where
  held := hI.held
  earlier := by
    intro j hits' earlier' hj
    obtain ⟨-, hnew⟩ | hold := become_search hj
    · cases hnew
    · exact hI.earlier j hits' earlier' hold
  found := by
    intro j hits' earlier' hj
    obtain ⟨-, hnew⟩ | hold := become_search hj
    · cases hnew
    · exact hI.found j hits' earlier' hold
  batch := by
    intro j hits' batch earlier' hj x hx e he
    obtain ⟨-, hnew⟩ | hold := become_search hj
    · obtain ⟨rfl, rfl, rfl⟩ := Task.enriching.inj hnew
      rw [find_batch hx]
      exact hI.found i hits earlier htask x hx e he
    · exact hI.batch j hits' batch earlier' hold x hx e he
  finite := become_finite hI.finite

theorem mem_enrich {t : QualityTables} {batch : List Metadata} {now : Time} {hits : List Target} {item : Item}
    (h : item ∈ enrich t batch now hits) :
    item.target ∈ hits ∧ ∀ e, (batch.find? (·.target == item.target)).bind (·.expiresAt) = some e → ¬e < now := by
  obtain ⟨x, hx, hitem⟩ := List.mem_filterMap.mp h
  dsimp only at hitem
  split at hitem
  · cases hitem
  · rename_i hfresh
    obtain rfl := Option.some.inj hitem
    refine ⟨hx, fun e he hlt => hfresh ?_⟩
    obtain ⟨q, hq, hexp⟩ := Option.bind_eq_some_iff.mp he
    simp [hq, Metadata.expired, hexp, hlt]

theorem answer_fresh {hits : List Target} {batch : List Metadata} {earlier : List (Target × Time)} (hI : Inv s)
    (htask : s.task i = some (.enriching hits batch earlier)) : (s.answer hits batch earlier).Fresh := by
  have hpart : ∀ p : Target → Bool, ∀ item ∈ enrich s.tables batch s.now (hits.filter p), ∀ e,
      (item.target, e) ∈ earlier → ¬e < s.now := by
    intro p item hitem e he
    obtain ⟨hmem, hrow⟩ := mem_enrich hitem
    exact hrow e (hI.batch i hits batch earlier htask _ (List.mem_filter.mp hmem).1 e he)
  intro item hitem
  rcases List.mem_append.mp hitem with hfact | hrelation
  · exact hpart _ item hfact
  · exact hpart _ item hrelation

/-! ## Runs -/

/-- Every search so far was right, and the rows are there for the next. -/
structure Good (s : State) : Prop where
  inv : Inv s
  fresh : s.Fresh

theorem Good.quiet (hg : Good s) (h : Quiet s s') : Good s' :=
  ⟨hg.inv.quiet h, fun a ha => hg.fresh a (h.answers ▸ ha)⟩

theorem spawn_quiet {i : Nat} {t : State} (hg : Good s) (ht : Quiet s t) (h : s.spawn i t = some s') : Good s' := by
  unfold spawn at h
  split at h
  · obtain rfl := Option.some.inj h
    exact hg.quiet ht
  · cases h

theorem resume_good {task : Task} {reply : Reply} (hg : Good s) (htask : s.task i = some task)
    (hclean : Clean s (.resume i reply)) : Good (s.resume settings i task reply) := by
  have hend : Quiet s (s.become i none) := become_quiet (by simp)
  cases reply with
  | raised e removed =>
    cases task with
    | deleting x rest adds =>
      unfold State.resume
      dsimp only
      split
      · exact hg.quiet ((forget_quiet removed).trans (become_quiet (by simp)))
      · exact hg.quiet ((forget_quiet removed).trans nextRow_quiet)
    | checking call => exact hg.quiet hend
    | adding => exact hg.quiet hend
    | fetching adds now => exact hg.quiet hend
    | purging x rest adds => exact hg.quiet hend
    | searching hits earlier => exact hg.quiet hend
    | enriching hits batch earlier => exact hg.quiet hend
  | ok removed =>
    cases task with
    | checking call =>
      unfold State.resume
      dsimp only
      split
      · exact hg.quiet hend
      · exact hg.quiet beforeMem0Add_quiet
    | adding => exact hg.quiet hend
    | fetching adds now => exact hg.quiet nextRow_quiet
    | deleting x rest adds =>
      exact hg.quiet ((forget_quiet (x :: removed)).trans (become_quiet (by simp [Task.isSearch])))
    | purging x rest adds =>
      have hpurged : Good (s.purge x) := ⟨hg.inv.purge (hclean x rest adds htask), hg.fresh⟩
      exact hpurged.quiet nextRow_quiet
    | searching hits earlier => exact ⟨hg.inv.readMetadata htask, hg.fresh⟩
    | enriching hits batch earlier =>
      have hinv := hg.inv.quiet hend
      refine ⟨⟨hinv.held, hinv.earlier, hinv.found, hinv.batch, hinv.finite⟩, fun a ha => ?_⟩
      rcases List.mem_append.mp ha with hold | hnew
      · exact hg.fresh a hold
      · obtain rfl := List.mem_singleton.mp hnew
        exact answer_fresh hg.inv htask

/-- **One step** keeps expired knowledge hidden if it is clean. -/
theorem step_good {l : Label} (hg : Good s) (hclean : Clean s l) (h : step settings s l = some s') : Good s' := by
  cases l with
  | tick now monotonic =>
    simp only [step, Option.ite_none_right_eq_some] at h
    obtain ⟨-, h⟩ := h
    obtain rfl := Option.some.inj h
    exact hg.quiet (quiet_of_eq rfl rfl rfl rfl rfl)
  | mem0 stored removed =>
    simp only [step, Option.ite_none_left_eq_some] at h
    obtain ⟨-, h⟩ := h
    obtain rfl := Option.some.inj h
    exact ⟨hg.inv.mem0 stored removed, hg.fresh⟩
  | forget removed =>
    obtain rfl := Option.some.inj h
    exact hg.quiet (forget_quiet removed)
  | writeMetadata fields conversationId conversationExists fault =>
    obtain rfl := Option.some.inj h
    obtain hquiet | ⟨q, hnew, hs'⟩ := writeMetadata_cases s fields conversationId conversationExists fault
    · exact hg.quiet hquiet
    · rw [hs']
      exact ⟨hg.inv.insert hnew, hg.fresh⟩
  | recordFeedback event fault =>
    obtain rfl := Option.some.inj h
    refine hg.quiet (quiet_of_eq ?_ rfl rfl rfl rfl)
    exact QualityTables.recordFeedback_metadata s.tables fault event
  | add i call => exact spawn_quiet hg add_quiet h
  | maybeCleanup i => exact spawn_quiet hg maybeCleanup_quiet h
  | cleanupExpired i => exact spawn_quiet hg (become_quiet (by simp [Task.isSearch])) h
  | search i =>
    simp only [step, spawn, Option.ite_none_right_eq_some] at h
    obtain ⟨-, h⟩ := h
    obtain rfl := Option.some.inj h
    exact ⟨hg.inv.search, hg.fresh⟩
  | find i hits =>
    simp only [step] at h
    split at h
    · rename_i found earlier htask
      simp only [Option.ite_none_right_eq_some] at h
      obtain ⟨hheld, h⟩ := h
      obtain rfl := Option.some.inj h
      exact ⟨hg.inv.find htask hheld, hg.fresh⟩
    · cases h
  | resume i reply =>
    obtain ⟨task, htask, rfl⟩ := Option.map_eq_some_iff.mp h
    exact resume_good hg htask hclean

/-! ## After a row is lost -/

/-- The runs of clean steps. -/
def cleanSteps (settings : Settings) : LTS State Label :=
  ⟨fun _ => True, fun s l s' => Clean s l ∧ step settings s l = some s'⟩

/-- No search has returned expired knowledge, and none will while the steps
are clean. -/
def Safe (settings : Settings) (s : State) : Prop := ∀ ls t, (cleanSteps settings).Run s ls t → t.Fresh

theorem Good.safe (hg : Good s) : Safe settings s := by
  intro ls t hrun
  induction hrun with
  | nil => exact hg.fresh
  | cons hs _ ih => exact ih (step_good hg hs.1 hs.2)

theorem Safe.step {l : Label} (hsafe : Safe settings s) (h : step settings s l = some s') (hclean : Clean s l) :
    Safe settings s' := fun ls t hrun => hsafe (l :: ls) t (.cons ⟨hclean, h⟩ hrun)

theorem enrich_of_none {t : QualityTables} {batch : List Metadata} {now : Time} {hits : List Target} {x : Target}
    (hx : x ∈ hits) (hrow : batch.find? (·.target == x) = none) :
    ⟨x, none, usefulness t x⟩ ∈ enrich t batch now hits :=
  List.mem_filterMap.mpr ⟨x, hx, by simp [hrow]⟩

/-- A search that has found a target without its row returns it, past its
expiry too. -/
theorem not_safe_of_found {j : Nat} {hits : List Target} {earlier : List (Target × Time)} {x : Target} {e : Time}
    (htask : s.task j = some (.searching hits earlier)) (hx : x ∈ hits) (he : (x, e) ∈ earlier)
    (hrow : s.tables.metadata? x = none) : ¬Safe settings s := by
  intro hsafe
  let late : State := { s with now := max s.now (e + 1) }
  let enriching : State := late.become j (some (.enriching hits (getMetadataBatch s.tables hits) earlier))
  have htick : step settings s (.tick (max s.now (e + 1)) s.monotonic) = some late := by
    simp [step, late]
  have hread : step settings late (.resume j (.ok [])) = some enriching := by
    have hlate : late.task j = some (.searching hits earlier) := htask
    simp only [step, hlate]
    rfl
  have hbatch : enriching.task j = some (.enriching hits (getMetadataBatch s.tables hits) earlier) := by
    simp [enriching, become]
  have hclean₁ : Clean late (.resume j (.ok [])) := by
    intro y rest adds hpurging
    cases htask.symm.trans hpurging
  have hclean₂ : Clean enriching (.resume j (.ok [])) := by
    intro y rest adds hpurging
    cases hbatch.symm.trans hpurging
  have hanswer : Safe settings _ := ((hsafe.step htick trivial).step hread hclean₁).step
    (show step settings enriching (.resume j (.ok [])) = some _ by simp only [step, hbatch]; rfl) hclean₂
  let a := enriching.answer hits (getMetadataBatch s.tables hits) earlier
  have hfresh : a.Fresh := hanswer [] _ (.nil _) a (List.mem_append_right _ (List.mem_singleton.mpr rfl))
  have hreturned : (⟨x, none, usefulness s.tables x⟩ : Item) ∈ a.vectorFacts ++ a.graphRelations := by
    have hnone := (find_batch (t := s.tables) hx).trans hrow
    obtain ⟨type, id⟩ := x
    cases type with
    | fact =>
      exact List.mem_append_left _ (enrich_of_none (List.mem_filter.mpr ⟨hx, by simp⟩) hnone)
    | relation =>
      exact List.mem_append_right _ (enrich_of_none (List.mem_filter.mpr ⟨hx, by simp⟩) hnone)
  have hlt : e < a.time := by
    show e < max s.now (e + 1)
    exact lt_of_lt_of_le (Nat.lt_succ_self e) (le_max_right _ _)
  exact hfresh _ hreturned e he hlt

theorem not_safe_of_held {x : Target} {e : Time} (hfinite : ∃ n, ∀ i, n ≤ i → s.task i = none)
    (hx : x ∈ s.memories) (he : (x, e) ∈ s.recorded) (hrow : s.tables.metadata? x = none) : ¬Safe settings s := by
  intro hsafe
  obtain ⟨n, hn⟩ := hfinite
  have hfree : s.task n = none := hn n (le_refl n)
  let searching := s.become n (some (.searching [] s.recorded))
  have htask : searching.task n = some (.searching [] s.recorded) := by simp [searching, become]
  have hsearch : step settings s (.search n) = some searching := by simp [step, spawn, hfree, searching]
  have hfind : step settings searching (.find n [x]) =
      some (searching.become n (some (.searching ([] ++ [x]) s.recorded))) := by
    simp only [step, htask]
    exact if_pos (by simpa [searching, become] using hx)
  have hfound := (hsafe.step hsearch trivial).step hfind trivial
  have hheld : (searching.become n (some (.searching ([] ++ [x]) s.recorded))).task n =
      some (.searching ([] ++ [x]) s.recorded) := by simp [become]
  exact not_safe_of_found hheld (by simp) he hrow hfound

theorem nextRow_frame (s : State) (i : Nat) (adds : Bool) (rows : List Target) :
    (s.nextRow i adds rows).memories = s.memories ∧ (s.nextRow i adds rows).recorded = s.recorded ∧
      (s.nextRow i adds rows).tables = s.tables ∧ ∀ j, j ≠ i → (s.nextRow i adds rows).task j = s.task j := by
  unfold nextRow
  split
  · split <;> simp +contextual [callMem0Add, become]
  · simp +contextual [become]

/-- A row that was not dispensable is missed. -/
theorem clean_of_safe {l : Label} (hg : Good s) (h : step settings s l = some s') (hsafe : Safe settings s') :
    Clean s l := by
  cases l with
  | resume i reply =>
    cases reply with
    | raised e removed => trivial
    | ok removed =>
      intro x rest adds htask
      have hs' : s' = (s.purge x).nextRow i adds rest := by
        simp only [step, htask, Option.map_some] at h
        exact (Option.some.inj h).symm
      obtain ⟨hmemories, hrecorded, htables, htasks⟩ := nextRow_frame (s.purge x) i adds rest
      have hrow : s'.tables.metadata? x = none := by
        rw [hs', htables]
        simp [QualityTables.metadata?, State.purge, List.find?_eq_none]
      refine ⟨fun hx e he => ?_, fun j hits earlier hj hx e he => ?_⟩
      · have hfinite : ∃ n, ∀ i, n ≤ i → s'.task i = none := hs' ▸ nextRow_quiet.finite hg.inv.finite
        refine not_safe_of_held (x := x) (e := e) hfinite ?_ ?_ hrow hsafe
        · rw [hs', hmemories]
          exact hx
        · rw [hs', hrecorded]
          exact he
      · have hji : j ≠ i := by
          intro hji
          subst hji
          cases hj.symm.trans htask
        refine not_safe_of_found (j := j) ?_ hx he hrow hsafe
        rw [hs', htasks j hji]
        exact hj
  | _ => trivial

/-- **Expired knowledge stays hidden** in a run exactly as long as the rows
that are deleted are dispensable. -/
theorem expired_hidden_iff (settings : Settings) (memories : List Target) (now : Time) (ls : List Label) :
    (∀ t, Passes (step settings) (initial memories now) ls t → Safe settings t) ↔
      ∀ t l t', Takes (step settings) (initial memories now) ls t l t' → Clean t l := by
  have hinitial : Good (initial memories now) :=
    ⟨.initial memories now, fun a ha => absurd ha List.not_mem_nil⟩
  refine always_iff (I := Good) (fun _ _ _ hg hclean h => step_good hg hclean h) (fun s l s' hg _ h => ?_)
    hinitial hinitial.safe ls
  exact ⟨clean_of_safe hg h, fun hclean => (step_good hg hclean h).safe⟩

end

/-! ## Sample runs -/

def plainSettings : Settings := { search := fun _ _ => false, md5 := id }

/-- An add stores fact 0 and relation 1; `target` gets metadata that expires
at 5. -/
def temporary (target : Target) : List Label :=
  [.add 0 { content := "lives in Lisbon".toList, userId := "mira".toList, conversationId := some 7 },
    .mem0 [(.fact, 0), (.relation, 1)] [], .resume 0 (.ok []),
    .writeMetadata { target, extractionModel := "m".toList, userId := "mira".toList, expiresAt := some 5 } (some 7)
      (fun _ => true) none]

/-- A search at 10, after a cleanup that kept the relation and deleted its
row. -/
def relationCleaned : List Label :=
  temporary (.relation, 1) ++
    [.tick 10 0, .cleanupExpired 0, .resume 0 (.ok []), .resume 0 (.ok []), .search 0, .find 0 [(.relation, 1)],
      .resume 0 (.ok []), .resume 0 (.ok [])]

/-- A cleanup between the hits of a search and its metadata. -/
def factRead : List Label :=
  temporary (.fact, 0) ++
    [.tick 10 0, .search 0, .find 0 [(.fact, 0)], .cleanupExpired 1, .resume 1 (.ok []), .resume 1 (.ok []),
      .resume 1 (.ok []), .resume 0 (.ok []), .resume 0 (.ok [])]

/-- A search that returns expired knowledge. -/
theorem expired_hidden_false :
    ¬∀ (settings : Settings) (memories : List Target) (now : Time) (ls : List Label) (t : State),
      Passes (step settings) (initial memories now) ls t → t.Fresh := by
  intro h
  have hanswers : (exec (step plainSettings) (initial [] 0) relationCleaned).map (·.answers) =
      some [⟨10, [], [⟨(.relation, 1), none, none⟩], [((.relation, 1), 5)]⟩] := by decide +kernel
  obtain ⟨t, ht, hreturned⟩ := Option.map_eq_some_iff.mp hanswers
  have hfresh := h plainSettings [] 0 relationCleaned t (passes_of_exec ht) _
    (hreturned ▸ List.mem_singleton.mpr rfl)
  exact hfresh ⟨(.relation, 1), none, none⟩ (by simp) 5 (by simp) (by decide)

example : (exec (step plainSettings) (initial [] 0) factRead).map (·.answers) =
    some [⟨10, [⟨(.fact, 0), none, none⟩], [], [((.fact, 0), 5)]⟩] := by decide +kernel

end ContextBroker.QualityWrapper
