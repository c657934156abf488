import ContextBroker.L5Concurrency.SseSessions

/-!
# Session-mode tool calls

A `tools/call` with a `sessionId` is dispatched first; only its response
needs the session. `CallStep` lists what a step does to the calls:
`dispatch` is the one that executes a tool, `lookup` and `deliver` answer.

`rejected_executed`: a call rejected for its session has been executed, once,
and only its response is lost; so a client that tries again until it is
accepted has the tool executed once for each attempt.
-/
namespace ContextBroker.Mcp

open LTS

section

variable {C W R : Type} {tool : C → W → W × Except Exn R} {w : W} {s s' : State C W R} {l : Label C}

/-- The answer to `c` says that its session is unknown, gone or full. -/
def Call.Rejected (c : Call C R) : Prop := ∃ r : Response R, c.phase = .answered r ∧ r.isRejection = true

/-- What a step does to the calls and to the world. -/
inductive CallStep (tool : C → W → W × Except Exn R) (s s' : State C W R) : Prop where
  | unchanged (call : s'.call = s.call) (world : s'.world = s.world) (executed : s'.executed = s.executed)
    (enqueued : s'.enqueued = s.enqueued)
  | received (p : RequestId) (c : Call C R) (fresh : s.call p = none) (phase : c.phase = .received)
    (call : s'.call = Function.update s.call p (some c)) (world : s'.world = s.world)
    (executed : s'.executed = s.executed) (enqueued : s'.enqueued = s.enqueued)
  | dispatched (p : RequestId) (c : Call C R) (phase : Phase R) (before : s.call p = some c)
    (received : c.phase = .received) (after : phase ≠ .received) (accepted : phase ≠ .answered .queued)
    (rejected : ∀ r : Response R, phase = .answered r → r.isRejection = false)
    (call : s'.call = Function.update s.call p (some { c with phase }))
    (world : s'.world = (tool c.tool s.world).1) (executed : s'.executed = s.executed ++ [(p, c.tool)])
    (enqueued : s'.enqueued = s.enqueued)
  /-- An answer, or the way to it. -/
  | moved (p : RequestId) (c : Call C R) (phase : Phase R) (before : s.call p = some c)
    (received : c.phase ≠ .received) (unanswered : ∀ r, c.phase ≠ .answered r) (after : phase ≠ .received)
    (call : s'.call = Function.update s.call p (some { c with phase })) (world : s'.world = s.world)
    (executed : s'.executed = s.executed)
    (enqueued : s'.enqueued = s.enqueued ∨ phase = .answered .queued ∧ s'.enqueued = s.enqueued ++ [p])
    (registry : phase = .answered .queued ∨ s'.toRegistry = s.toRegistry)

theorem dispatch_callStep {p : RequestId} {c : Call C R} (hc : s.call p = some c) (hphase : c.phase = .received) :
    CallStep tool s (dispatch tool s p c) := by
  unfold dispatch
  cases hresult : (tool c.tool s.world).2 with
  | ok r =>
    exact .dispatched p c (.dispatched r) hc hphase nofun nofun nofun
      (by simp only [State.setPhase, hresult]) rfl rfl rfl
  | error e =>
    refine .dispatched p c (.answered (.failed e)) hc hphase nofun nofun (fun r hr => ?_)
      (by simp only [State.setPhase, hresult]) rfl rfl rfl
    obtain rfl := Phase.answered.inj hr
    rfl

theorem lookup_callStep {p : RequestId} {c : Call C R} {r : R} (hc : s.call p = some c)
    (hphase : c.phase = .dispatched r) : CallStep tool s (lookup s p c r) := by
  have hreceived : c.phase ≠ .received := by simp [hphase]
  have hopen : ∀ x, c.phase ≠ .answered x := by simp [hphase]
  unfold lookup
  cases c.session with
  | none => exact .moved p c (.answered (.result r)) hc hreceived hopen nofun rfl rfl rfl (.inl rfl) (.inr rfl)
  | some id =>
    refine .moved p c (if id ∈ s.ids then .located id r else .answered (.notFound id)) hc hreceived hopen ?_
      rfl rfl rfl (.inl rfl) (.inr rfl)
    split <;> nofun

theorem deliver_callStep {p : RequestId} {c : Call C R} {id : SessionId} {r : R} (hc : s.call p = some c)
    (hphase : c.phase = .located id r) : CallStep tool s (deliver s p c id r) := by
  have hreceived : c.phase ≠ .received := by simp [hphase]
  have hopen : ∀ x, c.phase ≠ .answered x := by simp [hphase]
  unfold deliver
  split
  · exact .moved p c (.answered (.disconnected id)) hc hreceived hopen nofun rfl rfl rfl (.inl rfl) (.inr rfl)
  · split
    · exact .moved p c (.answered .queueFull) hc hreceived hopen nofun rfl rfl rfl (.inl rfl) (.inr rfl)
    · exact .moved p c (.answered .queued) hc hreceived hopen nofun rfl rfl rfl (.inr ⟨rfl, rfl⟩) (.inl rfl)

theorem connect_callStep (s : State C W R) (id : SessionId) (limits : Limits) (now : Time) :
    CallStep tool s (connect s id limits now) := by
  unfold connect
  split <;> exact .unchanged rfl rfl rfl rfl

theorem step_calls (h : step tool s l = some s') : CallStep tool s s' := by
  cases l with
  | connect id limits now =>
    obtain ⟨_, h⟩ := Option.ite_none_right_eq_some.mp h
    obtain rfl := Option.some.inj h
    exact connect_callStep s id limits now
  | start id | drop id | consume id | finish id =>
    obtain ⟨_, h⟩ := Option.ite_none_right_eq_some.mp h
    obtain rfl := Option.some.inj h
    exact .unchanged rfl rfl rfl rfl
  | receive p t session =>
    obtain ⟨hfresh, h⟩ := Option.ite_none_right_eq_some.mp h
    obtain rfl := Option.some.inj h
    exact .received p { tool := t, session } hfresh rfl rfl rfl rfl rfl
  | dispatch p =>
    simp only [step] at h
    split at h
    · rename_i t session hc
      obtain rfl := Option.some.inj h
      exact dispatch_callStep hc rfl
    · cases h
  | lookup p =>
    simp only [step] at h
    split at h
    · rename_i t session r hc
      obtain rfl := Option.some.inj h
      exact lookup_callStep hc rfl
    · cases h
  | deliver p =>
    simp only [step] at h
    split at h
    · rename_i t session id r hc
      obtain rfl := Option.some.inj h
      exact deliver_callStep hc rfl
    · cases h

/-- The effects of the tool calls executed, in order. -/
def effects (tool : C → W → W × Except Exn R) (w : W) (executed : List (RequestId × C)) : W :=
  executed.foldl (fun w x => (tool x.2 w).1) w

/-- The calls executed are those past their dispatch, each of them once, and
the world is what they made of it. -/
structure Tracked (tool : C → W → W × Except Exn R) (w : W) (s : State C W R) : Prop where
  nodup : (s.executed.map Prod.fst).Nodup
  executed : ∀ p t, (p, t) ∈ s.executed ↔ ∃ c, s.call p = some c ∧ c.tool = t ∧ c.phase ≠ .received
  enqueued : ∀ p ∈ s.enqueued, ∃ c, s.call p = some c ∧ c.phase = .answered .queued
  world : s.world = effects tool w s.executed

theorem Tracked.initial (w : W) : Tracked tool w (initial w) := by
  refine ⟨List.nodup_nil, fun p t => ?_, nofun, rfl⟩
  constructor
  · nofun
  · intro ⟨c, hc, _⟩
    cases hc

theorem Tracked.step (hT : Tracked tool w s) (h : step tool s l = some s') : Tracked tool w s' := by
  cases step_calls h with
  | unchanged call world executed enqueued =>
    exact ⟨executed ▸ hT.nodup, by rw [call, executed]; exact hT.executed, by rw [call, enqueued]; exact hT.enqueued,
      by rw [world, executed]; exact hT.world⟩
  | received p c fresh phase call world executed enqueued =>
    refine ⟨executed ▸ hT.nodup, fun q t => ?_, fun q hq => ?_, by rw [world, executed]; exact hT.world⟩
    · rw [executed, hT.executed, call]
      by_cases hqp : q = p
      · subst hqp
        simp [fresh, phase]
      · rw [Function.update_of_ne hqp]
    · obtain ⟨d, hd, hphase⟩ := hT.enqueued q (enqueued ▸ hq)
      refine ⟨d, ?_, hphase⟩
      rw [call, Function.update_of_ne (by rintro rfl; exact nomatch fresh.symm.trans hd), hd]
  | dispatched p c phase before received after accepted _ call world executed enqueued =>
    have hnot : ∀ t, (p, t) ∉ s.executed := fun t ht => by
      obtain ⟨d, hd, _, hphase⟩ := (hT.executed p t).mp ht
      obtain rfl := Option.some.inj (before.symm.trans hd)
      exact hphase received
    refine ⟨?_, fun q t => ?_, fun q hq => ?_, ?_⟩
    · rw [executed, List.map_append, List.nodup_append]
      refine ⟨hT.nodup, List.nodup_singleton _, fun q hq q' hq' => ?_⟩
      obtain rfl := List.mem_singleton.mp hq'
      obtain ⟨⟨q'', t⟩, hmem, rfl⟩ := List.mem_map.mp hq
      rintro rfl
      exact hnot t hmem
    · rw [executed, List.mem_append, List.mem_singleton, hT.executed, call]
      by_cases hqp : q = p
      · subst hqp
        simp [before, received, after, eq_comm]
      · rw [Function.update_of_ne hqp]
        simp [hqp]
    · obtain ⟨d, hd, hphase⟩ := hT.enqueued q (enqueued ▸ hq)
      refine ⟨d, ?_, hphase⟩
      have hqp : q ≠ p := by
        rintro rfl
        obtain rfl := Option.some.inj (before.symm.trans hd)
        exact nomatch received.symm.trans hphase
      rw [call, Function.update_of_ne hqp, hd]
    · rw [world, executed, hT.world, effects, effects, List.foldl_append]
      rfl
  | moved p c phase before received unanswered after call world executed enqueued _ =>
    refine ⟨executed ▸ hT.nodup, fun q t => ?_, fun q hq => ?_, by rw [world, executed]; exact hT.world⟩
    · rw [executed, hT.executed, call]
      by_cases hqp : q = p
      · subst hqp
        simp [before, received, after]
      · rw [Function.update_of_ne hqp]
    · by_cases hqp : q = p
      · subst hqp
        rcases enqueued with henq | ⟨hphase, _⟩
        · obtain ⟨d, hd, hphase⟩ := hT.enqueued q (henq ▸ hq)
          obtain rfl := Option.some.inj (before.symm.trans hd)
          exact absurd hphase (unanswered _)
        · exact ⟨{ c with phase }, by rw [call, Function.update_self], hphase⟩
      · have hold : q ∈ s.enqueued := by
          rcases enqueued with henq | ⟨_, henq⟩
          · exact henq ▸ hq
          · rw [henq, List.mem_append, List.mem_singleton] at hq
            exact hq.resolve_right hqp
        obtain ⟨d, hd, hphase⟩ := hT.enqueued q hold
        exact ⟨d, by rw [call, Function.update_of_ne hqp, hd], hphase⟩

/-- What is in a queue was put there by an accepted call. -/
def Linked (s : State C W R) : Prop := ∀ id, ∀ m ∈ s.queue id, m.request ∈ s.enqueued

/-- A step that puts nothing into a queue. -/
theorem Linked.of_subset (hL : Linked s) (hqueue : ∀ id, s'.queue id ⊆ s.queue id)
    (henqueued : s'.enqueued = s.enqueued) : Linked s' := fun id m hm =>
  henqueued ▸ hL id m (hqueue id hm)

theorem connect_queue (s : State C W R) (id : SessionId) (limits : Limits) (now : Time) (id' : SessionId) :
    (connect s id limits now).queue id' ⊆ s.queue id' := by
  have hevicted := (evictStaleSessions_evicted s.toRegistry limits now).queue
  unfold connect
  generalize evictStaleSessions s.toRegistry limits now = out at hevicted ⊢
  obtain ⟨g, e⟩ := out
  have hg : g.queue = s.queue := hevicted
  cases e with
  | some e => exact List.Perm.subset (List.Perm.of_eq (congrFun hg id'))
  | none =>
    by_cases hid : id' = id
    · subst hid
      simp
    · simp [Function.update_of_ne hid, hg]

theorem take_queue (g : Registry R) (id id' : SessionId) : (g.take id).queue id' ⊆ g.queue id' := by
  by_cases hid : id' = id
  · subst hid
    simp [Registry.take, List.Sublist.subset (List.tail_sublist _)]
  · simp [Registry.take, Function.update_of_ne hid]

theorem remove_queue (g : Registry R) (id : SessionId) : (g.remove id).queue = g.queue := by
  unfold Registry.remove
  split <;> rfl

theorem deliver_linked (hL : Linked s) (p : RequestId) (c : Call C R) (id : SessionId) (r : R) :
    Linked (deliver s p c id r) := by
  unfold deliver
  split
  · exact hL
  · split
    · exact hL
    · intro id' m hm
      by_cases hid : id' = id
      · subst hid
        simp only [Registry.put, Function.update_self, List.mem_append, List.mem_singleton] at hm ⊢
        rcases hm with hm | rfl
        · exact .inl (hL id' m hm)
        · exact .inr rfl
      · simp only [Registry.put, Function.update_of_ne hid] at hm
        exact List.mem_append_left _ (hL id' m hm)

theorem Linked.step (hL : Linked s) (h : step tool s l = some s') : Linked s' := by
  cases l with
  | connect id limits now =>
    obtain ⟨_, h⟩ := Option.ite_none_right_eq_some.mp h
    obtain rfl := Option.some.inj h
    refine hL.of_subset (connect_queue s id limits now) ?_
    unfold connect
    split <;> rfl
  | start id | drop id =>
    obtain ⟨_, h⟩ := Option.ite_none_right_eq_some.mp h
    obtain rfl := Option.some.inj h
    exact hL
  | consume id =>
    obtain ⟨_, h⟩ := Option.ite_none_right_eq_some.mp h
    obtain rfl := Option.some.inj h
    exact hL.of_subset (take_queue s.toRegistry id) rfl
  | finish id =>
    obtain ⟨_, h⟩ := Option.ite_none_right_eq_some.mp h
    obtain rfl := Option.some.inj h
    exact hL.of_subset (fun id' => List.Perm.subset (List.Perm.of_eq (congrFun (remove_queue s.toRegistry id) id'))) rfl
  | receive p t session =>
    obtain ⟨_, h⟩ := Option.ite_none_right_eq_some.mp h
    obtain rfl := Option.some.inj h
    exact hL
  | dispatch p =>
    simp only [Mcp.step] at h
    split at h
    · obtain rfl := Option.some.inj h
      exact hL
    · cases h
  | lookup p =>
    simp only [Mcp.step] at h
    split at h
    · obtain rfl := Option.some.inj h
      unfold lookup
      split <;> exact hL
    · cases h
  | deliver p =>
    simp only [Mcp.step] at h
    split at h
    · obtain rfl := Option.some.inj h
      exact deliver_linked hL p _ _ _
    · cases h

/-- **Queued responses** are those of accepted calls. -/
theorem linked_inductive (w : W) : (system tool w).Inductive Linked where
  init := by
    rintro s rfl
    exact fun _ _ hm => absurd hm List.not_mem_nil
  step _ _ _ hL h := hL.step h

theorem tracked_inductive (w : W) : (system tool w).Inductive (Tracked tool w) where
  init := by
    rintro s rfl
    exact .initial w
  step _ _ _ hT h := hT.step h

/-- The step that rejects a call changes nothing but its phase. -/
theorem rejecting_step {p : RequestId} {c c' : Call C R} (h : step tool s l = some s') (hc : s.call p = some c)
    (hopen : ¬ c.Rejected) (hc' : s'.call p = some c') (hrej : c'.Rejected) :
    s'.toRegistry = s.toRegistry ∧ s'.world = s.world ∧ s'.executed = s.executed := by
  obtain ⟨r, hphase, hr⟩ := hrej
  have hother : ∀ (q : RequestId) (d : Call C R), s'.call = Function.update s.call q (some d) → q ≠ p → False :=
    fun q d hcall hqp => by
      rw [hcall, Function.update_of_ne hqp.symm, hc] at hc'
      obtain rfl := Option.some.inj hc'
      exact hopen ⟨r, hphase, hr⟩
  cases step_calls h with
  | unchanged call =>
    rw [call, hc] at hc'
    obtain rfl := Option.some.inj hc'
    exact absurd ⟨r, hphase, hr⟩ hopen
  | received q d fresh _ call =>
    refine (hother q d call ?_).elim
    rintro rfl
    exact nomatch fresh.symm.trans hc
  | dispatched q d phase before _ _ _ rejected call =>
    by_cases hqp : q = p
    · subst hqp
      rw [call, Function.update_self] at hc'
      obtain rfl := Option.some.inj hc'
      rw [rejected r hphase] at hr
      cases hr
    · exact (hother q _ call hqp).elim
  | moved q d phase _ _ _ _ call world executed _ registry =>
    by_cases hqp : q = p
    · subst hqp
      rw [call, Function.update_self] at hc'
      obtain rfl := Option.some.inj hc'
      rcases registry with hqueued | hsame
      · obtain rfl := Phase.answered.inj (hphase.symm.trans hqueued)
        cases hr
      · exact ⟨hsame, world, executed⟩
    · exact (hother q _ call hqp).elim

/-- A call that is past its dispatch was executed once. -/
theorem Tracked.once (hT : Tracked tool w s) {p : RequestId} {c : Call C R} (hc : s.call p = some c)
    (hphase : c.phase ≠ .received) : s.executed.filter (·.1 == p) = [(p, c.tool)] := by
  have hmem : (p, c.tool) ∈ s.executed := (hT.executed p c.tool).mpr ⟨c, hc, rfl, hphase⟩
  obtain ⟨l₁, l₂, hl⟩ := List.append_of_mem hmem
  have hnodup := hT.nodup
  rw [hl, List.map_append, List.map_cons] at hnodup
  have hnot := (List.nodup_cons.mp (List.nodup_middle.mp hnodup)).1
  rw [← List.map_append] at hnot
  have hne : ∀ x ∈ l₁ ++ l₂, ¬ (x.1 == p) = true := fun x hx h =>
    hnot (List.mem_map.mpr ⟨x, hx, eq_of_beq h⟩)
  have h₁ := List.filter_eq_nil_iff.mpr fun x hx => hne x (List.mem_append_left l₂ hx)
  have h₂ := List.filter_eq_nil_iff.mpr fun x hx => hne x (List.mem_append_right l₁ hx)
  rw [hl, List.filter_append, List.filter_cons, h₁, h₂]
  simp

/-- Different calls past their dispatch: one execution each. -/
theorem Tracked.attempts (hT : Tracked tool w s) {ps : List RequestId} (hnodup : ps.Nodup)
    (h : ∀ p ∈ ps, ∃ c, s.call p = some c ∧ c.phase ≠ .received) :
    (s.executed.filter fun x => ps.contains x.1).length = ps.length := by
  have hperm : ((s.executed.filter fun x => ps.contains x.1).map Prod.fst).Perm ps := by
    refine (List.perm_ext_iff_of_nodup ((List.filter_sublist.map _).nodup hT.nodup) hnodup).mpr fun p => ?_
    constructor
    · intro hp
      obtain ⟨x, hx, rfl⟩ := List.mem_map.mp hp
      exact List.contains_iff_mem.mp (List.mem_filter.mp hx).2
    · intro hp
      obtain ⟨c, hc, hphase⟩ := h p hp
      exact List.mem_map.mpr ⟨(p, c.tool), List.mem_filter.mpr
        ⟨(hT.executed p c.tool).mpr ⟨c, hc, rfl, hphase⟩, List.contains_iff_mem.mpr hp⟩, rfl⟩
  rw [← hperm.length_eq, List.length_map]

/-- **Rejected calls.** A call rejected for its session has been executed
once, before its session was looked up, and its response is in no queue. The
step that rejects it changes neither the sessions nor the world. What the
world is comes from all the calls executed, rejected ones included: a client
that sends a call again after each rejection has it executed once for each
attempt. -/
theorem rejected_executed (tool : C → W → W × Except Exn R) (w : W) {s : State C W R}
    (h : (system tool w).Reachable s) :
    (∀ p c, s.call p = some c → c.Rejected →
      s.executed.filter (·.1 == p) = [(p, c.tool)] ∧ p ∉ s.enqueued ∧ ∀ id, ∀ m ∈ s.queue id, m.request ≠ p) ∧
    (∀ l s' p c c', step tool s l = some s' → s.call p = some c → ¬ c.Rejected → s'.call p = some c' →
      c'.Rejected → s'.toRegistry = s.toRegistry ∧ s'.world = s.world ∧ s'.executed = s.executed) ∧
    s.world = effects tool w s.executed ∧
    ∀ ps : List RequestId, ps.Nodup →
      (∀ p ∈ ps, ∃ c, s.call p = some c ∧ (c.Rejected ∨ c.phase = .answered .queued)) →
      (s.executed.filter fun x => ps.contains x.1).length = ps.length := by
  have hT : Tracked tool w s := (tracked_inductive w).reachable h
  have hL : Linked s := (linked_inductive w).reachable h
  have hanswered : ∀ c : Call C R, c.Rejected → c.phase ≠ .received := by
    intro c hrej
    obtain ⟨r, hphase, _⟩ := hrej
    simp [hphase]
  have hnot : ∀ p c, s.call p = some c → c.Rejected → p ∉ s.enqueued := by
    intro p c hc hrej henq
    obtain ⟨d, hd, hphase⟩ := hT.enqueued p henq
    obtain rfl := Option.some.inj (hc.symm.trans hd)
    obtain ⟨r, hr, hreject⟩ := hrej
    obtain rfl := Phase.answered.inj (hr.symm.trans hphase)
    cases hreject
  refine ⟨fun p c hc hrej => ⟨hT.once hc (hanswered c hrej), hnot p c hc hrej, fun id m hm hp => ?_⟩, ?_, hT.world, ?_⟩
  · exact hnot p c hc hrej (hp ▸ hL id m hm)
  · intro l s' p c c' hs hc hopen hc' hrej
    exact rejecting_step hs hc hopen hc' hrej
  · intro ps hnodup hps
    refine hT.attempts hnodup fun p hp => ?_
    obtain ⟨c, hc, hphase⟩ := hps p hp
    refine ⟨c, hc, ?_⟩
    rcases hphase with hrej | hqueued
    · exact hanswered c hrej
    · simp [hqueued]

end

/-! ## Sample runs -/

/-- A client posts to session 7, which it has not opened; it opens it and
tries again. -/
def retried : List (Label Unit) :=
  [.receive 0 () (some 7), .dispatch 0, .lookup 0, .connect 7 {} 0] ++ post 1 7

/-- The retry is the second execution. -/
theorem rejected_executed_retried :
    ∃ s : State Unit Nat Nat, (system countingTool 0).Reachable s ∧
      s.executed.filter (·.1 == 0) = [(0, ())] ∧ s.world = 2 ∧
      (s.executed.filter fun x => [0, 1].contains x.1).length = 2 := by
  obtain ⟨s, hs, h₀, h₁, hworld⟩ : ∃ s, exec (step countingTool) (initial 0) retried = some s ∧
      s.call 0 = some ⟨(), some 7, .answered (.notFound 7)⟩ ∧
      s.call 1 = some ⟨(), some 7, .answered .queued⟩ ∧ s.world = 2 := ⟨_, rfl, by decide, by decide, by decide⟩
  have hreach : (system countingTool 0).Reachable s := ⟨_, _, rfl, run_of_exec hs⟩
  have hmain := rejected_executed countingTool 0 hreach
  refine ⟨s, hreach, (hmain.1 0 _ h₀ ⟨_, rfl, rfl⟩).1, hworld, hmain.2.2.2 [0, 1] (by decide) fun p hp => ?_⟩
  obtain rfl | hp := List.mem_cons.mp hp
  · exact ⟨_, h₀, .inl ⟨_, rfl, rfl⟩⟩
  · obtain rfl := List.mem_singleton.mp hp
    exact ⟨_, h₁, .inr rfl⟩

/-- A call to an unknown session is executed. -/
theorem rejected_unexecuted_false :
    ¬ ∀ s : State Unit Nat Nat, (system countingTool 0).Reachable s →
      ∀ p c, s.call p = some c → c.Rejected → s.executed.filter (·.1 == p) = [] := by
  intro h
  obtain ⟨s, hs, hc, hexec⟩ : ∃ s, exec (step countingTool) (initial 0)
      [.receive 0 () (some 7), .dispatch 0, .lookup 0] = some s ∧
      s.call 0 = some ⟨(), some 7, .answered (.notFound 7)⟩ ∧ s.executed = [(0, ())] :=
    ⟨_, rfl, by decide, by decide⟩
  have hnone := h s ⟨_, _, rfl, run_of_exec hs⟩ 0 _ hc ⟨_, rfl, rfl⟩
  rw [hexec] at hnone
  cases hnone

end ContextBroker.Mcp
