import ContextBroker.L6Knowledge.DispatchMetadata

/-!
# Dispatching an extraction twice

The second dispatch of the same output adds a fact again unless `add` finds
its natural key in the metadata, which it looks for only if the fact has an
utterance.

* `twice_iff`: a second dispatch leaves metadata and memories as they are,
  whatever Mem0 does, exactly if every fact to be added is on record.
* `dispatch_twice_iff`: so it is at each point of the first dispatch exactly
  if each of its turns keeps or puts the facts on record.
-/
namespace ContextBroker.Dispatch

open QualityWrapper LTS UniqueInsert

/-- A fact that some dispatch would add. -/
def Fact.Addable (env : Env) (f : Fact) : Prop :=
  f.Wanted env ∧ ∃ date, (f.expiry env date).isOk = true

/-- `add` finds the fact by its natural key. -/
def Fact.OnRecord (env : Env) (f : Fact) (t : QualityTables) : Prop :=
  env.conversationId.isSome = true ∧ f.utterance ≠ [] ∧ isDuplicate env.toSettings t (f.call env) = true

/-- **Dispatching twice is dispatching once**: a second dispatch of the facts
dispatched changes no metadata and creates no memory. -/
def TwiceAsOnce (env : Env) (s : State) : Prop :=
  ∀ again s', again.map Prod.fst = s.dispatched → dispatchExtractionResults env s again = some s' →
    s'.tables.metadata = s.tables.metadata ∧ s'.created.Perm s.created

/-- Facts with one natural key. -/
def Fact.SameKey (env : Env) (f g : Fact) : Prop :=
  f.userId.getD "unknown".toList = g.userId.getD "unknown".toList ∧ f.utterance = g.utterance ∧
    env.md5 f.content = env.md5 g.content

/-- After the clean-up of the turn every fact dispatched that is to be added
is on record, or it has the natural key of this turn's fact, and one of its
writes adds a row. -/
def Records (env : Env) (s : State) (x : Fact × Turn) : Prop :=
  ∀ g ∈ s.dispatched ++ [x.1], g.Addable env → g.OnRecord env (found env x.2 x.1 s) ∨
    g.utterance ≠ [] ∧ x.1.SameKey env g ∧ ∃ y, ¬Known (·.target) (found env x.2 x.1 s).metadata y ∧
      Accepted env x.2 x.1 (found env x.2 x.1 s) (wanted env x.2 x.1 s) y

section

variable {env : Env} {u : Turn} {f g : Fact} {s s' : State} {t t' : QualityTables} {x : Fact × Turn}

theorem onRecord_congr (h : t'.metadata = t.metadata) : g.OnRecord env t' ↔ g.OnRecord env t := by
  unfold Fact.OnRecord isDuplicate
  rw [h]

theorem onRecord_iff : g.OnRecord env t ↔ ∃ c, env.conversationId = some c ∧ g.utterance ≠ [] ∧
    ∃ q ∈ t.metadata, q.userId = g.userId.getD "unknown".toList ∧ q.conversationId = c ∧
      q.originalUtterance = g.utterance ∧ q.contentHash = some (env.md5 g.content) := by
  unfold Fact.OnRecord
  cases hc : env.conversationId with
  | none => simp
  | some c =>
    have hdup : isDuplicate env.toSettings t (g.call env) = true ↔
        ∃ q ∈ t.metadata, q.userId = g.userId.getD "unknown".toList ∧ q.conversationId = c ∧
          q.originalUtterance = g.utterance ∧ q.contentHash = some (env.md5 g.content) := by
      simp [isDuplicate, Fact.call, hc, and_assoc]
    rw [hdup]
    exact ⟨fun h => ⟨c, rfl, h.2⟩, fun ⟨c', hc', h⟩ => ⟨rfl, Option.some.inj hc' ▸ h⟩⟩

/-- What a lookup that is answered says. -/
theorem lookup_of_onRecord (h : g.OnRecord env s.tables) : ¬Sent env u g s := by
  rintro ⟨-, -, hlookup⟩
  obtain ⟨hid, hu, hdup⟩ := h
  have hasks : ((g.call env).conversationId.isSome && decide ((g.call env).dedupUtterance ≠ [])) = true := by
    simp only [Fact.call, hid, Bool.true_and]
    exact decide_eq_true hu
  unfold lookup at hlookup
  rw [if_pos hasks] at hlookup
  cases hfault : u.lookupFault with
  | none => simp [hfault, hdup, Except.toOption] at hlookup
  | some e => simp [hfault, Except.toOption] at hlookup

/-- **A fact is on record** after the writes of another. -/
theorem onRecord_written (env : Env) (u : Turn) (f g : Fact) (t : QualityTables) (xs : List Target) :
    g.OnRecord env (written env u f t xs) ↔ g.OnRecord env t ∨
      g.utterance ≠ [] ∧ f.SameKey env g ∧ ∃ y, ¬Known (·.target) t.metadata y ∧ Accepted env u f t xs y := by
  constructor
  · intro h
    obtain ⟨c, hc, hu, q, hq, huser, hconv, hutterance, hhash⟩ := onRecord_iff.mp h
    rcases mem_written hq with hold | ⟨c', y, -, hnew, rfl⟩
    · exact .inl (onRecord_iff.mpr ⟨c, hc, hu, q, hold, huser, hconv, hutterance, hhash⟩)
    · refine .inr ⟨hu, ⟨huser, hutterance, Option.some.inj hhash⟩, y, hnew, ?_⟩
      exact ((known_written env u f t xs y).mp ⟨_, hq, rfl⟩).resolve_left hnew
  · rintro (h | ⟨hu, ⟨huser, hutterance, hhash⟩, y, hnew, haccepted⟩)
    · obtain ⟨c, hc, hu, q, hq, hrest⟩ := onRecord_iff.mp h
      exact onRecord_iff.mpr ⟨c, hc, hu, q, (metadata_kept env u f t xs).subset hq, hrest⟩
    · obtain ⟨q, hq, htarget⟩ := (known_written env u f t xs y).mpr (.inr haccepted)
      rcases mem_written hq with hold | ⟨c, y, hc, -, rfl⟩
      · exact absurd ⟨q, hold, htarget⟩ hnew
      · obtain ⟨hid, -⟩ := Option.filter_eq_some_iff.mp hc
        exact onRecord_iff.mpr ⟨c, hid, hu, _, hq, huser, rfl, hutterance, congrArg some hhash⟩

/-- A turn of a fact that is on record, or not to be added, does nothing. -/
theorem step_of_onRecord (h : step env s x = some s') (hx : x.1.Addable env → x.1.OnRecord env s.tables) :
    s'.tables.metadata = s.tables.metadata ∧ s'.created = s.created := by
  have hsent : ¬Sent env x.2 x.1 s := fun hsent =>
    lookup_of_onRecord (hx ⟨hsent.1, _, hsent.2.1⟩) hsent
  have hasked : ¬Asked env x.2 x.1 s := fun h => hsent h.1
  obtain ⟨hmeta, hcreated, -, -, -⟩ := step_outcome h
  have hfound : found env x.2 x.1 s = s.tables := if_neg hsent
  have hanswer : answer env x.2 x.1 s = none := if_neg hasked
  constructor
  · have hwritten : s'.tables.metadata =
        (written env x.2 x.1 (found env x.2 x.1 s) (wanted env x.2 x.1 s)).metadata := hmeta
    rw [hwritten, wanted, hanswer, hfound]
    rfl
  · have hall : s'.created = s.created ++ if Asked env x.2 x.1 s then x.2.mem0.created else [] := hcreated
    rw [hall, if_neg hasked, List.append_nil]

/-- A dispatch of facts on record does nothing. -/
theorem dispatch_of_onRecord {again : List (Fact × Turn)}
    (h : dispatchExtractionResults env s again = some s')
    (hagain : ∀ x ∈ again, x.1.Addable env → x.1.OnRecord env s.tables) :
    s'.tables.metadata = s.tables.metadata ∧ s'.created = s.created := by
  induction again generalizing s with
  | nil =>
    obtain rfl := Option.some.inj h
    exact ⟨rfl, rfl⟩
  | cons x again ih =>
    obtain ⟨s₁, hs₁, hrest⟩ := Option.bind_eq_some_iff.mp h
    obtain ⟨hmeta, hcreated⟩ := step_of_onRecord hs₁ (hagain x List.mem_cons_self)
    obtain ⟨hmeta', hcreated'⟩ := ih hrest fun y hy hadd =>
      (onRecord_congr hmeta).mpr (hagain y (List.mem_cons_of_mem x hy) hadd)
    exact ⟨hmeta'.trans hmeta, hcreated'.trans hcreated⟩

/-! ## A second dispatch that is not idle -/

/-- A turn in which nothing fails and Mem0 stores a new memory. -/
def smoothTurn (date : Time) : Turn where
  extractionDate := date
  mem0 := ⟨[0], .ok (.dict [some 0] .absent)⟩

theorem cleanupRows_smooth (date : Time) (t : QualityTables) (xs : List Target) :
    (cleanupRows (smoothTurn date) t xs).2 = .ok () := by
  induction xs generalizing t with
  | nil => rfl
  | cons x rest ih =>
    have hdelete : (if x.1 = .fact then (smoothTurn date).deleteFault x.2 else none) = none := ite_self none
    unfold cleanupRows
    rw [hdelete]
    exact ih _

theorem maybeCleanup_smooth (env : Env) (date : Time) (t : QualityTables) (lastCleanup : Time) :
    (maybeCleanup env (smoothTurn date) t lastCleanup).2.2 = .ok () := by
  unfold maybeCleanup
  split
  · exact cleanupRows_smooth date t _
  · rfl

theorem writeAll_smooth (env : Env) (date : Time) (fields : Target → MetadataFields) (t : QualityTables)
    (xs : List Target) (i : Nat) : (writeAll env (smoothTurn date) fields t xs i).2 = .ok () := by
  induction xs generalizing t i with
  | nil => rfl
  | cons x rest ih =>
    unfold writeAll
    cases hid : env.conversationId with
    | none => exact ih t (i + 1)
    | some c =>
      have hc : conversation env (smoothTurn date) = some c := Option.filter_eq_some_iff.mpr ⟨hid, rfl⟩
      have hwrite := @writeMetadata_eq env (smoothTurn date) t c hc (fields x)
      rw [hid] at hwrite
      have hfault : (smoothTurn date).insertFault i = none := rfl
      rw [hfault, hwrite]
      exact ih _ (i + 1)

theorem feedback_smooth (env : Env) (date : Time) (i : Nat) (s : State) (id : Id) (eventType key : Text)
    (other : Id) : (feedback env (smoothTurn date) i s id eventType key other).2 = .ok () := by
  have hfault : (smoothTurn date).feedbackFault i = none := rfl
  simp only [feedback, hfault, QualityTables.recordFeedback]
  split <;> rfl

theorem conclude_smooth (env : Env) (date : Time) (f : Fact) (m : Id) (s : State) :
    (conclude env (smoothTurn date) f m s).2 = .ok () := by
  unfold conclude
  split
  · rfl
  · split
    · cases f.relatedFactId with
      | none => rfl
      | some related => exact feedback_smooth env date _ _ _ _ _ _
    · split
      · cases f.relatedFactId with
        | none => rfl
        | some related =>
          dsimp only
          split
          · rename_i h
            exact (congrArg Prod.snd h).symm.trans (feedback_smooth env date _ _ _ _ _ _)
          · exact feedback_smooth env date _ _ _ _ _ _
      · rfl

theorem afterAdd_smooth (env : Env) (date : Time) (f : Fact) (expiresAt : Option Time) (s : State) :
    (afterAdd env (smoothTurn date) f expiresAt (callMem0 (smoothTurn date) s)).2 = .ok () := by
  have hresult : (smoothTurn date).mem0.result = .ok (.dict [some 0] .absent) := rfl
  have hid : (Response.dict [some 0] .absent).memoryId = some 0 := rfl
  simp only [callMem0, hresult, afterAdd, hid, writeAll_smooth]
  exact conclude_smooth env date f 0 _

theorem step_smooth (env : Env) (s : State) (f : Fact) (date : Time) :
    (step env s (f, smoothTurn date)).isSome = true := by
  have hcaught : ∀ e, (dispatchFact env (smoothTurn date) f
      { s with last := none, dispatched := s.dispatched ++ [f] }).2 = .error e → e = .overflowError := by
    intro e he
    by_cases hsent : Sent env (smoothTurn date) f { s with last := none, dispatched := s.dispatched ++ [f] }
    · rw [dispatchFact_of_sent hsent, add_of_sent hsent] at he
      have hclean := maybeCleanup_smooth env date s.tables s.lastCleanup
      dsimp only at he
      cases hrun : maybeCleanup env (smoothTurn date) s.tables s.lastCleanup with
      | mk tables rest =>
        obtain ⟨lastCleanup, result⟩ := rest
        rw [hrun] at he hclean
        obtain rfl : result = .ok () := hclean
        rw [afterAdd_smooth] at he
        cases he
    · exact ((dispatchFact_of_not_sent hsent).2 e he).resolve_right nofun
  unfold step
  split
  · rename_i e hrun
    obtain rfl := hcaught e (congrArg Prod.snd hrun)
    rfl
  · rfl

theorem created_step (h : step env s x = some s') :
    s'.created = s.created ++ if Asked env x.2 x.1 s then x.2.mem0.created else [] := (step_outcome h).created

theorem created_le {again : List (Fact × Turn)} (h : dispatchExtractionResults env s again = some s') :
    s.created.length ≤ s'.created.length := by
  induction again generalizing s with
  | nil =>
    obtain rfl := Option.some.inj h
    exact Nat.le_refl _
  | cons x again ih =>
    obtain ⟨s₁, hs₁, hrest⟩ := Option.bind_eq_some_iff.mp h
    have hone := congrArg List.length (created_step hs₁)
    rw [List.length_append] at hone
    exact Nat.le_trans (by omega) (ih hrest)

/-- In a smooth turn Mem0 is asked, or nothing happens. -/
theorem smooth_cases {date : Time} (h : step env s (f, smoothTurn date) = some s') :
    (Sent env (smoothTurn date) f s ∧ s.created.length < s'.created.length) ∨
      ¬Sent env (smoothTurn date) f s ∧ s'.tables.metadata = s.tables.metadata := by
  by_cases hsent : Sent env (smoothTurn date) f s
  · have hasked : Asked env (smoothTurn date) f s := ⟨hsent, by rw [maybeCleanup_smooth]; rfl⟩
    have hcreated : s'.created = s.created ++ [0] := (created_step h).trans (by rw [if_pos hasked]; rfl)
    refine .inl ⟨hsent, ?_⟩
    rw [hcreated, List.length_append]
    exact Nat.lt_succ_self _
  · have hasked : ¬Asked env (smoothTurn date) f s := fun h => hsent h.1
    have hfound : found env (smoothTurn date) f s = s.tables := if_neg hsent
    have hanswer : answer env (smoothTurn date) f s = none := if_neg hasked
    have hmeta : s'.tables.metadata = (written env (smoothTurn date) f (found env (smoothTurn date) f s)
      (wanted env (smoothTurn date) f s)).metadata := (step_outcome h).metadata
    rw [wanted, hanswer, hfound] at hmeta
    exact .inr ⟨hsent, hmeta⟩

theorem sent_smooth {date : Time} (hwanted : g.Wanted env) (hdate : (g.expiry env date).isOk = true)
    (h : ¬g.OnRecord env s.tables) : Sent env (smoothTurn date) g s := by
  refine ⟨hwanted, hdate, ?_⟩
  have hfault : (smoothTurn date).lookupFault = none := rfl
  unfold lookup
  split
  · rename_i hasks
    obtain ⟨hid, hu⟩ := Bool.and_eq_true_iff.mp hasks
    have hdup : isDuplicate env.toSettings s.tables (g.call env) = false :=
      (Bool.not_eq_true _).mp fun hdup => h ⟨hid, of_decide_eq_true hu, hdup⟩
    rw [hfault, hdup]
    rfl
  · rfl

/-- **A fact that is not on record** is added again. -/
theorem created_lt {date : Time} (hwanted : g.Wanted env) (hdate : (g.expiry env date).isOk = true) :
    ∀ (facts : List Fact) (s : State), g ∈ facts → ¬g.OnRecord env s.tables →
      ∃ s', dispatchExtractionResults env s (facts.map (·, smoothTurn date)) = some s' ∧
        s.created.length < s'.created.length := by
  have hruns : ∀ (facts : List Fact) (s : State),
      ∃ s', dispatchExtractionResults env s (facts.map (·, smoothTurn date)) = some s' := by
    intro facts
    induction facts with
    | nil => exact fun s => ⟨s, rfl⟩
    | cons f facts ih =>
      intro s
      obtain ⟨s₁, hs₁⟩ := Option.isSome_iff_exists.mp (step_smooth env s f date)
      obtain ⟨s', hs'⟩ := ih s₁
      exact ⟨s', Option.bind_eq_some_iff.mpr ⟨s₁, hs₁, hs'⟩⟩
  intro facts
  induction facts with
  | nil => exact fun s hg => absurd hg List.not_mem_nil
  | cons f facts ih =>
    intro s hg hrecord
    obtain ⟨s₁, hs₁⟩ := Option.isSome_iff_exists.mp (step_smooth env s f date)
    rcases smooth_cases hs₁ with ⟨-, hgrows⟩ | ⟨hsent, hmeta⟩
    · obtain ⟨s', hs'⟩ := hruns facts s₁
      exact ⟨s', Option.bind_eq_some_iff.mpr ⟨s₁, hs₁, hs'⟩, Nat.lt_of_lt_of_le hgrows (created_le hs')⟩
    · -- the head is another fact: this one would be sent
      have hrest : g ∈ facts := by
        rcases List.mem_cons.mp hg with rfl | hg
        · exact absurd (sent_smooth hwanted hdate hrecord) hsent
        · exact hg
      obtain ⟨s', hs', hgrows⟩ := ih s₁ hrest ((onRecord_congr hmeta).not.mpr hrecord)
      have hle := congrArg List.length (created_step hs₁)
      rw [List.length_append] at hle
      exact ⟨s', Option.bind_eq_some_iff.mpr ⟨s₁, hs₁, hs'⟩, by omega⟩

/-! ## Results -/

/-- **A second dispatch.** It leaves everything as it is, whatever Mem0 does,
exactly if every fact to be added is on record. -/
theorem twice_iff (env : Env) (s : State) :
    TwiceAsOnce env s ↔ ∀ g ∈ s.dispatched, g.Addable env → g.OnRecord env s.tables := by
  constructor
  · rintro h g hg ⟨hwanted, date, hdate⟩
    refine not_not.mp fun hrecord => ?_
    obtain ⟨s', hs', hgrows⟩ := created_lt hwanted hdate s.dispatched s hg hrecord
    have hfacts : (s.dispatched.map (·, smoothTurn date)).map Prod.fst = s.dispatched := by
      rw [List.map_map]
      exact List.map_id _
    exact absurd (h _ s' hfacts hs').2.length_eq (Nat.ne_of_gt hgrows)
  · intro h again s' hagain hs'
    have hall : ∀ x ∈ again, x.1.Addable env → x.1.OnRecord env s.tables := fun x hx =>
      h x.1 (hagain ▸ List.mem_map_of_mem hx)
    obtain ⟨hmeta, hcreated⟩ := dispatch_of_onRecord hs' hall
    exact ⟨hmeta, hcreated ▸ List.Perm.refl _⟩

theorem twice_step (h : step env s x = some s') : TwiceAsOnce env s' ↔ Records env s x := by
  obtain ⟨hmeta, -, -, -, hdispatched⟩ := step_outcome h
  have hmeta' : s'.tables.metadata =
      (written env x.2 x.1 (found env x.2 x.1 s) (wanted env x.2 x.1 s)).metadata := hmeta
  rw [twice_iff, hdispatched]
  refine forall₂_congr fun g _ => imp_congr_right fun _ => ?_
  rw [onRecord_congr hmeta', onRecord_written]

theorem twice_start (env : Env) (tables : QualityTables) (lastCleanup : Time) :
    TwiceAsOnce env (.start tables lastCleanup) :=
  (twice_iff env _).mpr fun _ hg => absurd hg List.not_mem_nil

/-- **Dispatching an output twice.** At each point of a dispatch, dispatching
the facts so far again leaves metadata and memories as they are, whatever Mem0
returns, if and only if each turn meets `Records`. -/
theorem dispatch_twice_iff (env : Env) (tables : QualityTables) (lastCleanup : Time) (run : List (Fact × Turn)) :
    (∀ facts rest s, run = facts ++ rest →
        dispatchExtractionResults env (.start tables lastCleanup) facts = some s → TwiceAsOnce env s) ↔
      ∀ s x s', Takes (step env) (.start tables lastCleanup) run s x s' → Records env s x :=
  initial_parts_iff (fun _ _ _ _ h => twice_step h) (twice_start env tables lastCleanup) run

end

/-! ## Outputs that are not idempotent -/

/-- The user said nothing that would be quoted. -/
def silentFact : Fact := { sampleFact with originalUtterance := none }

/-- A fact without an utterance is stored again, and gets a second row. A
fact whose memory has a row already is stored again as well: its metadata were
left out the first time. -/
theorem second_dispatch_adds :
    ((dispatchExtractionResults sampleEnv (.start {} 0) [(silentFact, addTurn 1760000000 [1] 1)]).any fun s =>
        s.created == [1] && (dispatchExtractionResults sampleEnv s [(silentFact, addTurn 1760000060 [2] 2)]).any
          fun s' => s'.created == [1, 2] && s'.tables.metadata.map (·.target) == [(.fact, 1), (.fact, 2)]) = true ∧
      ((dispatchExtractionResults sampleEnv (.start {} 0) [(trialFact, addTurn 1760000000 [1] 1),
        (permanentFact, addTurn 1760000000 [] 1)]).any fun s =>
        s.created == [1] && (dispatchExtractionResults sampleEnv s [(trialFact, addTurn 1760000060 [] 1),
          (permanentFact, addTurn 1760000060 [2] 2)]).any fun s' =>
            s'.created == [1, 2] && s'.tables.metadata.map (·.target) == [(.fact, 1), (.fact, 2)]) = true := by
  decide +kernel

end ContextBroker.Dispatch
