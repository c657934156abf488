import ContextBroker.L6Knowledge.Dispatch
import Mathlib.Tactic.NormNum

/-!
# The metadata a dispatch leaves

After a dispatch the ids Mem0 returned should have metadata rows, and the
row of a fact's memory should say what the fact said. A response is read for
its first result and for the dicts of its relation list, a target that has a
row keeps it, and the relations of one fact share one natural key.

* `metadata_for_every_id_iff`: every id has a row, at each point of a
  dispatch, exactly if each had one or gets an accepted write.
* `metadata_written_once`: the row of a memory stays as it is, and a new one
  says what its fact said, if neither score is zero.
* `metadata_reflects_iff`: the row says what its fact said, after each fact,
  exactly if it said so before or is new, and neither score is zero.
-/
namespace ContextBroker.Dispatch

open LTS UniqueInsert

/-- The writes of a turn. -/
def wanted (env : Env) (u : Turn) (f : Fact) (s : State) : List Target :=
  ((answer env u f s).map Response.written).getD []

/-- What Mem0 has returned by the end of a turn. -/
def returnedBy (env : Env) (u : Turn) (f : Fact) (s : State) : List Target :=
  s.returned ++ ((answer env u f s).map Response.targets).getD []

/-! ## Every id has a row -/

/-- Every id Mem0 returned has a metadata row. -/
def Covered (s : State) : Prop := ∀ x ∈ s.returned, Known (·.target) s.tables.metadata x

instance (s : State) : Decidable (Covered s) := inferInstanceAs (Decidable (∀ x ∈ s.returned, _))

/-- Each id has a row that the clean-up of the turn leaves, or the write for
it is made and accepted. -/
def Covers (env : Env) (s : State) (x : Fact × Turn) : Prop :=
  ∀ y ∈ returnedBy env x.2 x.1 s, Known (·.target) (found env x.2 x.1 s).metadata y ∨
    Accepted env x.2 x.1 (found env x.2 x.1 s) (wanted env x.2 x.1 s) y

section

variable {env : Env} {s s' : State} {x : Fact × Turn}

theorem covered_step (h : step env s x = some s') : Covered s' ↔ Covers env s x := by
  obtain ⟨hmeta, -, hreturned, -, -⟩ := step_outcome h
  unfold Covered Covers
  rw [hmeta, hreturned]
  exact forall₂_congr fun y _ => known_written env x.2 x.1 _ _ y

theorem covered_start (tables : QualityTables) (lastCleanup : Time) : Covered (.start tables lastCleanup) :=
  fun _ hx => absurd hx List.not_mem_nil

/-- **Metadata for every id.** At each point of a dispatch every id that Mem0
has returned has a row, if and only if each turn meets `Covers`. -/
theorem metadata_for_every_id_iff (env : Env) (tables : QualityTables) (lastCleanup : Time)
    (run : List (Fact × Turn)) :
    (∀ facts rest s, run = facts ++ rest →
        dispatchExtractionResults env (.start tables lastCleanup) facts = some s → Covered s) ↔
      ∀ s x s', Takes (step env) (.start tables lastCleanup) run s x s' → Covers env s x :=
  initial_parts_iff (fun _ _ _ _ h => covered_step h) (covered_start tables lastCleanup) run

end

/-! ### Ids without one -/

/-- A conversation whose clock starts in 2025. -/
def sampleEnv : Env where
  search := fun _ _ => false
  md5 := id
  conversationId := some 1
  upper := List.map Char.toUpper
  resolveTemporal := fun _ _ => some (some 1767225600)
  eventDedupKey := fun _ eventType agentId _ => eventType ++ agentId
  jsonDumps := fun key _ => key

def sampleFact : Fact where
  content := "Ann leads the Kestrel project.".toList
  userId := some "ann".toList
  originalUtterance := some "I lead Kestrel.".toList

/-- Mem0 splits the fact in two and merges two relations. -/
def splitTurn : Turn where
  now := 1760000000
  mem0 := ⟨[1, 2], .ok (.dict [some 1, some 2] (.dict [.item (some 7), .item (some 8)]))⟩

/-- The same fact, with the rows of its queries as the graph store of Mem0
returns them. -/
def nestedTurn : Turn where
  now := 1760000000
  mem0 := ⟨[1], .ok (.dict [some 1] (.dict [.rows [some 7]]))⟩

/-- The second result and the second relation get no row, and a relation
among the rows of a query gets none. -/
theorem ids_without_metadata :
    (dispatchExtractionResults sampleEnv (.start {} 0) [(sampleFact, splitTurn)]).any (fun s =>
        s.returned == [(.fact, 1), (.fact, 2), (.relation, 7), (.relation, 8)] &&
          s.tables.metadata.map (·.target) == [(.fact, 1), (.relation, 7)] && !decide (Covered s)) = true ∧
      (dispatchExtractionResults sampleEnv (.start {} 0) [(sampleFact, nestedTurn)]).any (fun s =>
        s.returned == [(.fact, 1), (.relation, 7)] && s.tables.metadata.map (·.target) == [(.fact, 1)] &&
          !decide (Covered s)) = true := by
  decide +kernel

/-! ## The row says what the fact said -/

/-- The row holds what was supplied. -/
def Supplied.In (d : Supplied) (q : Metadata) : Prop :=
  q.durability = d.durability ∧ q.confidence = d.confidence ∧ q.sourceType = d.sourceType ∧ q.expiresAt = d.expiresAt

instance (d : Supplied) (q : Metadata) : Decidable (d.In q) := inferInstanceAs (Decidable (_ ∧ _))

/-- The row of the memory the last fact became holds what it said. -/
def Reflected (s : State) : Prop := ∀ d ∈ s.last, ∃ q ∈ s.tables.metadata? (.fact, d.memoryId), d.In q

instance (s : State) : Decidable (Reflected s) :=
  inferInstanceAs (Decidable (∀ d ∈ s.last, ∃ q ∈ s.tables.metadata? (.fact, d.memoryId), d.In q))

/-- The memory has a row that says what the fact says, or it has none, the
write is accepted and neither score is zero. -/
def Fits (env : Env) (s : State) (x : Fact × Turn) : Prop :=
  ∀ m ∈ (answer env x.2 x.1 s).bind Response.memoryId,
    (∃ q ∈ (found env x.2 x.1 s).metadata? (.fact, m), (x.1.supplied (x.1.expiresOn env x.2) m).In q) ∨
      (found env x.2 x.1 s).metadata? (.fact, m) = none ∧
        Accepted env x.2 x.1 (found env x.2 x.1 s) (wanted env x.2 x.1 s) (.fact, m) ∧
        x.1.durability ≠ some 0 ∧ x.1.confidence ≠ some 0

section

variable {env : Env} {s s' : State} {x : Fact × Turn}

/-- Only zero is not stored as it is. -/
theorem orHalf_eq (value : Option Rat) : orHalf value = value.getD (1 / 2) ↔ value ≠ some 0 := by
  cases value with
  | none => simp [orHalf]
  | some q =>
    by_cases hq : q = 0
    · subst hq
      simp only [orHalf, if_true, Option.getD_some, ne_eq, not_true_eq_false, iff_false]
      norm_num
    · simp [orHalf, hq]

theorem supplied_in_row (u : Turn) (f : Fact) (c m : Id) :
    (f.supplied (f.expiresOn env u) m).In (f.row env u c (.fact, m)) ↔
      f.durability ≠ some 0 ∧ f.confidence ≠ some 0 := by
  rw [← orHalf_eq, ← orHalf_eq]
  exact ⟨fun h => ⟨h.1, h.2.1⟩, fun h => ⟨h.1, h.2, rfl, rfl⟩⟩

/-- The row of a memory after the writes. -/
theorem in_written (u : Turn) (f : Fact) (t : QualityTables) (xs : List Target) (m : Id) :
    (∃ q ∈ (written env u f t xs).metadata? (.fact, m), (f.supplied (f.expiresOn env u) m).In q) ↔
      (∃ q ∈ t.metadata? (.fact, m), (f.supplied (f.expiresOn env u) m).In q) ∨
        t.metadata? (.fact, m) = none ∧ Accepted env u f t xs (.fact, m) ∧
          f.durability ≠ some 0 ∧ f.confidence ≠ some 0 := by
  constructor
  · rintro ⟨q, hq, hin⟩
    rcases (metadata?_written env u f t xs _ q).mp hq with hold | ⟨hnone, haccepted, c, -, rfl⟩
    · exact .inl ⟨q, hold, hin⟩
    · exact .inr ⟨hnone, haccepted, (supplied_in_row u f c m).mp hin⟩
  · rintro (⟨q, hold, hin⟩ | ⟨hnone, haccepted, hscores⟩)
    · exact ⟨q, (metadata?_written env u f t xs _ q).mpr (.inl hold), hin⟩
    · obtain ⟨c, hc, -⟩ := id haccepted
      refine ⟨f.row env u c (.fact, m), ?_, (supplied_in_row u f c m).mpr hscores⟩
      exact (metadata?_written env u f t xs _ _).mpr (.inr ⟨hnone, haccepted, c, hc, rfl⟩)

theorem reflected_step (h : step env s x = some s') : Reflected s' ↔ Fits env s x := by
  obtain ⟨hmeta, -, -, hlast, -⟩ := step_outcome h
  have hrow : ∀ y, s'.tables.metadata? y =
      (written env x.2 x.1 (found env x.2 x.1 s) (wanted env x.2 x.1 s)).metadata? y := fun y => by
    rw [QualityTables.metadata?, hmeta]
    rfl
  have hlast' : s'.last = ((answer env x.2 x.1 s).bind Response.memoryId).map
      (x.1.supplied (x.1.expiresOn env x.2)) := hlast.trans (Option.or_none)
  unfold Reflected Fits
  simp only [hrow, hlast', Option.mem_map, forall_exists_index, and_imp, forall_apply_eq_imp_iff₂]
  exact forall₂_congr fun m _ => in_written x.2 x.1 _ _ m

theorem reflected_start (tables : QualityTables) (lastCleanup : Time) : Reflected (.start tables lastCleanup) :=
  fun _ hd => absurd hd (Option.not_mem_none _)

/-- **The last dispatch shows.** After each fact of a dispatch the row of the
memory it became holds what the fact said, if and only if each turn meets
`Fits`. -/
theorem metadata_reflects_iff (env : Env) (tables : QualityTables) (lastCleanup : Time)
    (run : List (Fact × Turn)) :
    (∀ facts rest s, run = facts ++ rest →
        dispatchExtractionResults env (.start tables lastCleanup) facts = some s → Reflected s) ↔
      ∀ s x s', Takes (step env) (.start tables lastCleanup) run s x s' → Fits env s x :=
  initial_parts_iff (fun _ _ _ _ h => reflected_step h) (reflected_start tables lastCleanup) run

/-- No row is changed: those that the writes find stay, and a memory that has
none gets the one that says what its fact says, if the write is accepted. -/
structure WrittenOnce (env : Env) (s : State) (x : Fact × Turn) (s' : State) : Prop where
  kept : (found env x.2 x.1 s).metadata <+: s'.tables.metadata
  again : ∀ m ∈ (answer env x.2 x.1 s).bind Response.memoryId, ∀ q ∈ (found env x.2 x.1 s).metadata? (.fact, m),
    s'.tables.metadata? (.fact, m) = some q
  first : ∀ m ∈ (answer env x.2 x.1 s).bind Response.memoryId, (found env x.2 x.1 s).metadata? (.fact, m) = none →
    (Known (·.target) s'.tables.metadata (.fact, m) ↔
      Accepted env x.2 x.1 (found env x.2 x.1 s) (wanted env x.2 x.1 s) (.fact, m)) ∧
      (x.1.durability ≠ some 0 → x.1.confidence ≠ some 0 →
        ∀ q ∈ s'.tables.metadata? (.fact, m), (x.1.supplied (x.1.expiresOn env x.2) m).In q)

/-- **Metadata are written once.** In every run of a dispatch the row of the
memory a fact becomes is the one it has, or a new one that says what the fact
says, if its scores are other than zero. -/
theorem metadata_written_once (env : Env) (tables : QualityTables) (lastCleanup : Time) (run : List (Fact × Turn))
    (s : State) (x : Fact × Turn) (s' : State) (h : Takes (step env) (.start tables lastCleanup) run s x s') :
    WrittenOnce env s x s' := by
  obtain ⟨hmeta, -⟩ := step_outcome h.enabled
  have hmeta' : s'.tables.metadata =
      (written env x.2 x.1 (found env x.2 x.1 s) (wanted env x.2 x.1 s)).metadata := hmeta
  have hrow : ∀ y, s'.tables.metadata? y =
      (written env x.2 x.1 (found env x.2 x.1 s) (wanted env x.2 x.1 s)).metadata? y := fun y => by
    rw [QualityTables.metadata?, hmeta']
    rfl
  refine ⟨?_, fun m _ q hq => ?_, fun m _ hnone => ⟨?_, fun hdurability hconfidence q hq => ?_⟩⟩
  · rw [hmeta']
    exact metadata_kept env x.2 x.1 _ _
  · rw [hrow]
    exact metadata?_of_known hq _
  · rw [hmeta', known_written]
    exact or_iff_right (metadata?_eq_none.mp hnone)
  · rw [hrow] at hq
    rcases (metadata?_written env x.2 x.1 _ _ _ q).mp hq with hold | ⟨-, -, c, -, rfl⟩
    · exact absurd (hnone.symm.trans hold) (Option.some_ne_none q).symm
    · exact (supplied_in_row x.2 x.1 c m).mpr ⟨hdurability, hconfidence⟩

end

/-! ### A fact said again -/

def trialFact : Fact where
  content := "The trial of the Kestrel plan runs until January.".toList
  userId := some "ann".toList
  originalUtterance := some "The trial runs until January.".toList
  expiresAt := some "2026-01-01".toList
  durability := some (1 / 5)

/-- It is permanent now. -/
def permanentFact : Fact where
  content := "The Kestrel plan is permanent.".toList
  userId := some "ann".toList
  originalUtterance := some "We keep Kestrel for good.".toList
  durability := some (9 / 10)

/-- A fact that is worth nothing. -/
def fleetingFact : Fact := { sampleFact with durability := some 0 }

def addTurn (now : Time) (created : List Id) (id : Id) : Turn where
  now
  mem0 := ⟨created, .ok (.dict [some id] .absent)⟩

/-- Long after, a clean-up is due. -/
def laterTurn : Turn := { addTurn 1767300000 [2] 2 with monotonic := 7300000 }

/-- Both facts become one memory. -/
def trialRun : List (Fact × Turn) :=
  [(trialFact, addTurn 1760000000 [1] 1), (permanentFact, addTurn 1760000000 [] 1)]

/-- The first fact gets its row, and the second leaves it. -/
theorem metadata_written_once_trial :
    ∃ s s', step sampleEnv (.start {} 0) (trialFact, addTurn 1760000000 [1] 1) = some s ∧
      step sampleEnv s (permanentFact, addTurn 1760000000 [] 1) = some s' ∧
      WrittenOnce sampleEnv (.start {} 0) (trialFact, addTurn 1760000000 [1] 1) s ∧
      WrittenOnce sampleEnv s (permanentFact, addTurn 1760000000 [] 1) s' := by
  obtain ⟨s', hs'⟩ := Option.isSome_iff_exists.mp
    (by decide +kernel : ((step sampleEnv (.start {} 0) (trialFact, addTurn 1760000000 [1] 1)).bind fun s =>
      step sampleEnv s (permanentFact, addTurn 1760000000 [] 1)).isSome = true)
  obtain ⟨s, hs, hs'⟩ := Option.bind_eq_some_iff.mp hs'
  exact ⟨s, s', hs, hs', metadata_written_once sampleEnv {} 0 trialRun _ _ s (.here _ hs),
    metadata_written_once sampleEnv {} 0 trialRun s _ s' (.next hs (.here [] hs'))⟩

/-- Mem0 updates the memory of the first fact for the second. Its row keeps
the first expiry, and the clean-up deletes it. A zero is stored as a half, by a
slip of `or`. -/
theorem restated_fact_expires :
    (dispatchExtractionResults sampleEnv (.start {} 0)
        [(trialFact, addTurn 1760000000 [1] 1), (permanentFact, addTurn 1760000000 [] 1)]).any (fun s =>
        s.tables.metadata.map (fun q => (q.target, q.durability, q.expiresAt)) ==
          [((.fact, 1), 1 / 5, some 1767225600)] && !decide (Reflected s)) = true ∧
      (dispatchExtractionResults sampleEnv (.start {} 0)
        [(trialFact, addTurn 1760000000 [1] 1), (permanentFact, addTurn 1760000000 [] 1),
          (sampleFact, laterTurn)]).any (fun s => s.tables.metadata.map (·.target) == [(.fact, 2)]) = true ∧
      (dispatchExtractionResults sampleEnv (.start {} 0) [(fleetingFact, addTurn 1760000000 [1] 1)]).any (fun s =>
        s.tables.metadata.map (·.durability) == [1 / 2] && !decide (Reflected s)) = true := by
  decide +kernel

end ContextBroker.Dispatch
