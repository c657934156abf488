import ContextBroker.L3Assembly.Runs

/-!
# The live zone

What a pass leaves above the watermark is live: not summarized. The walk of
`calculate_compaction_state` stops at a message that does not fit the
ceiling, so whoever moved the watermark to a message had that message and
the rest of the conversation exceed its ceiling, and the conversation only
grows (`marked_run`).

`live_zone_preserved`: after any pass of a run, the newest loaded message is
live unless it alone exceeds the ceiling, and the live tokens reach the
floor unless the loaded list does not, or the message at the watermark alone
exceeds ceiling minus floor. The ceiling is that of the pass that moved the
watermark to where it is.
-/
namespace ContextBroker

open Rows StandardTiered

/-- Tokens of the conversation's messages from number `n` on. -/
def Db.tokensFrom (db : Db) (c : Id) (n : Nat) : Nat :=
  total messageTokens ((db.messagesOf c).filter (n ≤ ·.sequenceNumber))

/-- A pass of the run moved the watermark of window `w` up to `n`; its tier-1
ceiling was `C`. -/
def MovedTo (evs : List Event) (w : Id) (n : Nat) (C : Int) : Prop :=
  ∃ pre config env post win bt o, evs = pre ++ .pass config w env :: post ∧
    (broker.run pre).window? w = some win ∧ getBuildTypeConfig config win.buildType = .ok bt ∧
    C = passCeiling bt win (broker.run pre) ∧
    passOutcome config env (broker.run pre) w = some o ∧
    (broker.run pre).watermark w < n ∧ o.final.db.watermark w = n

/-- The messages from the watermark on exceed the ceiling of the pass that
moved it there. -/
def Marked (evs : List Event) (db : Db) (w : Id) : Prop :=
  ∀ win, db.window? w = some win → db.watermark w = 0 ∨
    ∃ C, MovedTo evs w (db.watermark w) C ∧
      C < db.tokensFrom win.conversationId (db.watermark w)

section

variable {db db' : Db} {c : Id} {loaded : List Message} {evs : List Event} {w : Id} {n : Nat} {C : Int}

theorem MovedTo.snoc (h : MovedTo evs w n C) (e : Event) : MovedTo (evs ++ [e]) w n C := by
  obtain ⟨pre, config, env, post, win, bt, o, rfl, rest⟩ := h
  exact ⟨pre, config, env, post ++ [e], win, bt, o, by simp, rest⟩

/-! ## Tokens of a growing conversation -/

/-- `repeat_count` does not enter the estimate. -/
theorem total_filter_core (p : Nat → Bool) (l : List Message) :
    total messageTokens ((l.map Message.core).filter fun m => p m.sequenceNumber) =
      total messageTokens (l.filter fun m => p m.sequenceNumber) := by
  induction l with
  | nil => rfl
  | cons m l ih =>
    by_cases hp : p m.sequenceNumber = true
    · simp [hp, ih]
    · simp [hp, ih]

theorem tokensFrom_mono
    (h : ∃ new, (db'.messagesOf c).map Message.core = (db.messagesOf c).map Message.core ++ new)
    (n : Nat) : db.tokensFrom c n ≤ db'.tokensFrom c n := by
  obtain ⟨new, h⟩ := h
  have hdb := total_filter_core (fun s => decide (n ≤ s)) (db.messagesOf c)
  have hdb' := total_filter_core (fun s => decide (n ≤ s)) (db'.messagesOf c)
  rw [h, List.filter_append, total_append] at hdb'
  unfold Db.tokensFrom
  omega

theorem StandardTiered.Stretch.tokens_le (h : Stretch db c loaded) (n : Nat) :
    total messageTokens (loaded.filter (n ≤ ·.sequenceNumber)) ≤ db.tokensFrom c n := by
  obtain ⟨pre, new, h⟩ := h
  have hdb := total_filter_core (fun s => decide (n ≤ s)) (db.messagesOf c)
  have hloaded := total_filter_core (fun s => decide (n ≤ s)) loaded
  rw [h, List.filter_append, List.filter_append, total_append, total_append] at hdb
  unfold Db.tokensFrom
  omega

/-- From a loaded message on, nothing of the conversation is missing. -/
theorem StandardTiered.Reaches.tokens_le (h : Reaches db c loaded) {x : Message} (hx : x ∈ loaded)
    (hle : x.sequenceNumber ≤ n) :
    db.tokensFrom c n ≤ total messageTokens (loaded.filter (n ≤ ·.sequenceNumber)) := by
  obtain ⟨db', k, hg, hdb', rfl⟩ := h
  have hk := (Numbered.drop (hdb' c) k).mem hx
  refine Nat.le_trans (tokensFrom_mono (hg.messages c) n) ?_
  have hskip : ((db'.messagesOf c).take k).filter (fun m => decide (n ≤ m.sequenceNumber)) = [] := by
    refine List.filter_eq_nil_iff.mpr fun m hm => ?_
    obtain ⟨i, hi, rfl⟩ := List.getElem_of_mem hm
    rw [List.getElem_take]
    rw [List.length_take] at hi
    have := Numbered.getElem (hdb' c) i (by omega)
    simp only [decide_eq_true_eq]
    omega
  unfold Db.tokensFrom
  conv_lhs => rw [← List.take_append_drop k (db'.messagesOf c)]
  rw [List.filter_append, hskip, List.nil_append]

/-- From a loaded message on, every message of `db` is loaded. -/
theorem StandardTiered.Reaches.exists_number (h : Reaches db c loaded) {x : Message} (hx : x ∈ loaded)
    (hle : x.sequenceNumber ≤ n) (hcount : n ≤ db.count c) : ∃ m ∈ loaded, m.sequenceNumber = n := by
  obtain ⟨db', k, hg, hdb', rfl⟩ := h
  have hnum := Numbered.drop (hdb' c) k
  have hk := hnum.mem hx
  have hle' := hg.count_le c
  rw [Db.count, Db.count] at hle'
  rw [Db.count] at hcount
  refine hnum.exists_key (by omega) ?_
  rw [List.length_drop]
  omega

/-! ## The watermark in a run -/

theorem window_watermark (hv : Valid db) (hw : db.window? w = none) : db.watermark w = 0 := by
  have hnil : db.active w .two = [] := by
    refine List.eq_nil_iff_forall_not_mem.mpr fun r hr => ?_
    obtain ⟨hmem, rfl, _, _⟩ := Db.mem_active.mp hr
    obtain ⟨x, hx, _⟩ := hv.owner r hmem
    rw [hw] at hx
    cases hx
  rw [Db.watermark, hnil, maxOf_nil]

/-- A later database with the same watermark. -/
theorem Marked.later (hv : Valid db) (h : Marked evs db w) (hk : Keeps db db')
    (hmark : db'.watermark w = db.watermark w) (e : Event) : Marked (evs ++ [e]) db' w := by
  intro win hwin
  rw [hmark]
  cases hold : db.window? w with
  | none => exact .inl (window_watermark hv hold)
  | some x =>
    obtain ⟨x', hx', hconv, _, _⟩ := hk.windows w x hold
    obtain rfl : x' = win := Option.some.inj (hx'.symm.trans hwin)
    rcases h x hold with h0 | ⟨C, hC, hlt⟩
    · exact .inl h0
    · have hmono := tokensFrom_mono (hk.messages x.conversationId) (db.watermark w)
      refine .inr ⟨C, hC.snoc e, ?_⟩
      rw [hconv]
      omega

theorem StandardTiered.Advanced.movedTo {config : Config} {env : Env} {win : Window} {m : Message}
    {o : StateGraph.Outcome Node PassState Exn} (hwin : (broker.run evs).window? w = some win)
    (hid : win.id = w) (ho : passOutcome config env (broker.run evs) w = some o)
    (h : Advanced config env win (broker.run evs) o.final m) :
    ∃ C, MovedTo (evs ++ [.pass config w env]) w m.sequenceNumber C ∧
      C < total messageTokens (o.final.st.allMessages.filter (m.sequenceNumber ≤ ·.sequenceNumber)) := by
  subst hid
  obtain ⟨bt, hbt, hlt⟩ := h.ceiling
  exact ⟨_, ⟨evs, config, env, [], win, bt, o, rfl, hwin, hbt, rfl, ho, h.above, h.mark⟩, hlt⟩

theorem marked_run (evs : List Event) (w : Id) : Marked evs (broker.run evs) w := by
  refine Machine.run_hist (M := broker) (P := fun evs db => Marked evs db w) ?_ ?_ evs
  · intro win hwin
    cases hwin
  · intro evs e ih
    have hv := valid_run evs
    show Marked _ (e.apply (broker.run evs)) w
    rcases event_cases hv e w with ⟨config, env, o, rfl, ho, happ⟩ | hquiet
    · obtain ⟨win, hwin, rfl, heff⟩ := passOutcome_effect hv ho
      rw [happ]
      rcases heff.mark with hm | hm | ⟨m, hadv⟩
      · exact ih.later hv heff.evolves.toKeeps hm _
      · exact fun _ _ => .inl hm
      · intro win' hwin'
        obtain ⟨x, hx, hconv, _, _⟩ := heff.evolves.windows _ _ hwin
        obtain rfl : x = win' := Option.some.inj (hx.symm.trans hwin')
        obtain ⟨C, hC, hlt⟩ := hadv.movedTo hwin rfl ho
        have hle := heff.stretch.tokens_le m.sequenceNumber
        refine .inr ⟨C, hadv.mark.symm ▸ hC, ?_⟩
        rw [hadv.mark, hconv]
        omega
    · exact ih.later hv hquiet.toKeeps hquiet.watermark e

/-! ## After a pass -/

/-- Where the watermark is after a pass: below the loaded list, or at one of
its messages, which with the rest exceeds the ceiling. -/
theorem pass_marked {config : Config} {env : Env} {o : StateGraph.Outcome Node PassState Exn}
    (ho : passOutcome config env (broker.run evs) w = some o) :
    (∀ m ∈ o.final.st.allMessages, o.final.db.watermark w < m.sequenceNumber) ∨
      ∃ m ∈ o.final.st.allMessages, m.sequenceNumber = o.final.db.watermark w ∧
        ∃ C, MovedTo (evs ++ [.pass config w env]) w (o.final.db.watermark w) C ∧
          C < total messageTokens
            (o.final.st.allMessages.filter (o.final.db.watermark w ≤ ·.sequenceNumber)) := by
  have hv := valid_run evs
  obtain ⟨win, hwin, rfl, heff⟩ := passOutcome_effect hv ho
  by_cases hall : ∀ m ∈ o.final.st.allMessages, o.final.db.watermark win.id < m.sequenceNumber
  · exact .inl hall
  · simp only [not_forall, Nat.not_lt] at hall
    obtain ⟨x, hx, hle⟩ := hall
    refine .inr ?_
    obtain ⟨a, ha, hnum, _⟩ := heff.stretch.numbered heff.valid.consecutive
    have hxpos := (hnum.mem hx).1
    rcases heff.mark with hm | hm | ⟨m, hadv⟩
    · rw [hm] at hle ⊢
      obtain ⟨m, hmem, hseq⟩ := heff.reaches.exists_number hx hle (hv.watermark_le hwin)
      have htokens := heff.reaches.tokens_le hx hle
      rcases marked_run evs win.id win hwin with h0 | ⟨C, hC, hlt⟩
      · omega
      · exact ⟨m, hmem, hseq, C, hC.snoc _, by omega⟩
    · omega
    · obtain ⟨C, hC, hlt⟩ := hadv.movedTo hwin rfl ho
      rw [hadv.mark]
      exact ⟨m, hadv.mem, rfl, C, hC, hlt⟩

end

/-- The tier-1 floor of a pass on `win`, if its configuration is accepted. -/
def passFloor (config : Config) (win : Window) : Option Int :=
  match getBuildTypeConfig config win.buildType with
  | .ok bt => some (tier1Floor
      (effectiveBudget win.maxTokenBudget (bt.effectiveUtilization.getD EFFECTIVE_UTILIZATION_DEFAULT))
      (extractDeadbandConfig bt))
  | .error _ => none

/-- The part of the loaded list above the watermark. -/
def liveMessages (db : Db) (w : Id) (loaded : List Message) : List Message :=
  loaded.filter (db.watermark w < ·.sequenceNumber)

/-- The live zone after the last pass of `evs`, a pass on `win`. -/
structure LiveZone (evs : List Event) (config : Config) (win : Window) (s : PassState) : Prop where
  newest : ∀ m, s.st.allMessages.getLast? = some m →
    s.db.watermark win.id < m.sequenceNumber ∨
      ∃ C, MovedTo evs win.id (s.db.watermark win.id) C ∧ C < messageTokens m
  tokens : ∀ floor ∈ passFloor config win,
    floor ≤ total messageTokens (liveMessages s.db win.id s.st.allMessages) ∨
      total messageTokens s.st.allMessages < floor ∨
      ∃ m ∈ s.st.allMessages, m.sequenceNumber = s.db.watermark win.id ∧
        ∃ C, MovedTo evs win.id (s.db.watermark win.id) C ∧ C - floor < messageTokens m

/-- **The live zone is preserved** by any pass of any run, however it ends. -/
theorem live_zone_preserved (evs : List Event) (config : Config) (env : Env) (w : Id) (win : Window)
    (o : StateGraph.Outcome Node PassState Exn) (hwin : (broker.run evs).window? w = some win)
    (ho : passOutcome config env (broker.run evs) w = some o) :
    LiveZone (evs ++ [.pass config w env]) config win o.final := by
  obtain rfl : win.id = w := eq_of_beq (List.find?_some hwin :)
  obtain ⟨_, _, _, heff⟩ := passOutcome_effect (valid_run evs) ho
  obtain ⟨a, _, hnum, _⟩ := heff.stretch.numbered heff.valid.consecutive
  have hasc := hnum.ascending
  constructor
  case newest =>
    intro m hlast
    have hmem := List.mem_of_getLast? hlast
    rcases pass_marked ho with hall | ⟨x, hx, hseq, C, hC, hlt⟩
    · exact .inl (hall m hmem)
    · rw [← hseq] at hC hlt ⊢
      rcases Nat.lt_or_ge x.sequenceNumber m.sequenceNumber with hlive | hge
      · exact .inl hlive
      · -- nothing is newer than m, so m alone exceeds the ceiling
        refine .inr ⟨C, hC, ?_⟩
        have hm := hasc.total_last messageTokens hlast
        have := total_from_anti messageTokens (·.sequenceNumber) hge o.final.st.allMessages
        omega
  case tokens =>
    intro floor _
    rcases pass_marked ho with hall | ⟨x, hx, hseq, C, hC, hlt⟩
    · have hlive : liveMessages o.final.db win.id o.final.st.allMessages = o.final.st.allMessages :=
        List.filter_eq_self.mpr fun m hm => decide_eq_true (hall m hm)
      rw [hlive]
      omega
    · by_cases hfloor :
          floor ≤ total messageTokens (liveMessages o.final.db win.id o.final.st.allMessages)
      · exact .inl hfloor
      · have hx' := hasc.total_from messageTokens hx
        rw [hseq] at hx'
        rw [liveMessages] at hfloor
        exact .inr (.inr ⟨x, hx, hseq, C, hC, by omega⟩)

theorem live_zone_preserved_chat :
    ∃ o, passOutcome defaultConfig (calm ['s']) (broker.run (opened .tieredSummary 8 ++ chat 3 8)) 1 =
        some o ∧
      LiveZone (opened .tieredSummary 8 ++ chat 3 8 ++ [.pass defaultConfig 1 (calm ['s'])])
        defaultConfig sampleWindow o.final := by
  have hsome : (passOutcome defaultConfig (calm ['s'])
      (broker.run (opened .tieredSummary 8 ++ chat 3 8)) 1).isSome = true := by
    decide +kernel
  exact ⟨_, (Option.some_get hsome).symm, live_zone_preserved (opened .tieredSummary 8 ++ chat 3 8)
    defaultConfig (calm ['s']) 1 sampleWindow _ (by decide +kernel) (Option.some_get hsome).symm⟩

/-- One message of ten tokens over a ceiling of five is summarized by the
first pass, although nothing is newer. -/
theorem newest_live_false :
    ¬ ∀ (evs : List Event) (config : Config) (env : Env) (w : Id) (win : Window),
      (broker.run evs).window? w = some win → (passFloor config win).isSome = true →
        ∀ o ∈ passOutcome config env (broker.run evs) w, ∀ m,
          o.final.st.allMessages.getLast? = some m → o.final.db.watermark w < m.sequenceNumber := by
  intro h
  have hsummarized : ∃ o ∈ passOutcome defaultConfig (calm ['s'])
        (broker.run (opened .tieredSummary 8 ++ [say "a" 40])) 1,
      ∃ m ∈ o.final.st.allMessages.getLast?, m.sequenceNumber ≤ o.final.db.watermark 1 := by
    decide +kernel
  obtain ⟨o, ho, m, hm, hle⟩ := hsummarized
  have hlt := h (opened .tieredSummary 8 ++ [say "a" 40]) defaultConfig (calm ['s']) 1 sampleWindow
    (by decide +kernel) (by decide +kernel) o ho m hm
  omega

end ContextBroker
