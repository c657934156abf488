import ContextBroker.L5Concurrency.SseSessions

/-!
# Session limits

What a `GET /mcp` leaves, on the sessions of `SseSessions`: `_evict_stale_sessions`
removes those past the TTL, then the oldest over the cap, then the oldest until the
counter is within the limit of queued messages; the new session is added after that.

`limits_hold_iff`: in any run, each `GET` leaves the sessions within its limits
exactly if there is room for one more. The cap is enforced before the session is
added, so with `max_sessions` sessions there are `max_sessions + 1` after it,
unless the pressure of the queues evicts another.
-/
namespace ContextBroker.Mcp

open Rows LTS

/-! ## What the rules leave -/

section Rules

variable {R : Type} (g : Registry R) (limits : Limits) (now : Time)

def Session.expired (sessionTtl : Int) (now : Time) (x : Session) : Bool := sessionTtl < (now : Int) - x.createdAt

/-- The sessions within the TTL. -/
def Registry.live : List Session := g.sessions.filter fun x => !x.expired limits.sessionTtl now

def Registry.overCap : Nat := (g.live limits now).length - limits.maxSessions.toNat

/-- The newest `max_sessions` of them. -/
def Registry.capped : List Session := (g.live limits now).drop (g.overCap limits now)

/-- The counter, less the queues of the others. -/
def Registry.charged : Int :=
  g.totalQueued - (total (qsize g.queue) (g.sessions.filter fun x => x.expired limits.sessionTtl now) : Nat) -
    (total (qsize g.queue) ((g.live limits now).take (g.overCap limits now)) : Nat)

theorem evictOverCap_eq (size : Session → Nat) {cap : Int} (hcap : 0 ≤ cap) :
    ∀ (xs : List Session) (n : Int), evictOverCap size cap xs n =
      (xs.drop (xs.length - cap.toNat), n - (total size (xs.take (xs.length - cap.toNat)) : Nat), none)
  | [], n => by
    rw [evictOverCap, if_neg (by omega)]
    simp
  | x :: xs, n => by
    have ih := evictOverCap_eq size hcap xs (n - size x)
    unfold evictOverCap
    by_cases hover : cap < ((x :: xs).length : Nat)
    · have hdrop : (x :: xs).length - cap.toNat = xs.length - cap.toNat + 1 := by
        simp only [List.length_cons] at hover ⊢
        omega
      rw [if_pos hover, ih, hdrop, List.drop_succ_cons, List.take_succ_cons, total_cons]
      refine Prod.ext rfl (Prod.ext ?_ rfl)
      dsimp only
      omega
    · have hdrop : (x :: xs).length - cap.toNat = 0 := by omega
      rw [if_neg hover, hdrop, List.drop_zero, List.take_zero, total_nil]
      simp

/-- The oldest sessions go until the counter is within the limit. -/
theorem evictUnderPressure_eq (size : Session → Nat) (cap : Int) : ∀ (xs : List Session) (n : Int),
    ∃ k ≤ xs.length, evictUnderPressure size cap xs n = (xs.drop k, n - (total size (xs.take k) : Nat)) ∧
      (k = xs.length ∨ n - (total size (xs.take k) : Nat) ≤ cap) ∧
      ∀ j < k, cap < n - (total size (xs.take j) : Nat)
  | [], n => ⟨0, Nat.le_refl 0, by simp [evictUnderPressure], .inl rfl, fun j hj => absurd hj (Nat.not_lt_zero j)⟩
  | x :: xs, n => by
    unfold evictUnderPressure
    by_cases hpressure : cap < n
    · obtain ⟨k, hk, heq, hstop, hbefore⟩ := evictUnderPressure_eq size cap xs (n - size x)
      have hcharge : ∀ j, n - (total size ((x :: xs).take (j + 1)) : Nat) =
          n - size x - (total size (xs.take j) : Nat) := by
        intro j
        rw [List.take_succ_cons, total_cons]
        omega
      refine ⟨k + 1, Nat.succ_le_succ hk, by rw [if_pos hpressure, heq, hcharge, List.drop_succ_cons], ?_, ?_⟩
      · rw [hcharge, List.length_cons]
        exact hstop.imp_left (congrArg (· + 1))
      · intro j hj
        cases j with
        | zero => simpa using hpressure
        | succ j =>
          rw [hcharge]
          exact hbefore j (Nat.lt_of_succ_lt_succ hj)
    · refine ⟨0, Nat.zero_le _, by simp [if_neg hpressure], .inr ?_, fun j hj => absurd hj (Nat.not_lt_zero j)⟩
      simpa using hpressure

/-- `_evict_stale_sessions`, by what it evicts. -/
theorem evictStaleSessions_eq (hcap : 0 ≤ limits.maxSessions) :
    ∃ k ≤ (g.capped limits now).length,
      evictStaleSessions g limits now =
        ({ g with
          sessions := (g.capped limits now).drop k
          totalQueued := g.charged limits now - (total (qsize g.queue) ((g.capped limits now).take k) : Nat) }, none) ∧
      (k = (g.capped limits now).length ∨
        g.charged limits now - (total (qsize g.queue) ((g.capped limits now).take k) : Nat) ≤ limits.maxTotalQueued) ∧
      ∀ j < k, limits.maxTotalQueued <
        g.charged limits now - (total (qsize g.queue) ((g.capped limits now).take j) : Nat) := by
  obtain ⟨k, hk, heq, hstop, hbefore⟩ :=
    evictUnderPressure_eq (qsize g.queue) limits.maxTotalQueued (g.capped limits now) (g.charged limits now)
  refine ⟨k, hk, ?_, hstop, hbefore⟩
  have hexpired : evictExpired g now limits.sessionTtl = { g with
      sessions := g.live limits now
      totalQueued := g.totalQueued -
        (total (qsize g.queue) (g.sessions.filter fun x => x.expired limits.sessionTtl now) : Nat) } := rfl
  have hover : evictOverCap (qsize g.queue) limits.maxSessions (g.live limits now) (g.totalQueued -
      (total (qsize g.queue) (g.sessions.filter fun x => x.expired limits.sessionTtl now) : Nat)) =
      (g.capped limits now, g.charged limits now, none) := evictOverCap_eq (qsize g.queue) hcap _ _
  unfold evictStaleSessions
  rw [hexpired]
  dsimp only
  rw [hover]
  dsimp only
  rw [heq]

end Rules

/-! ## After a `GET` -/

section

variable {C W R : Type} {s s' : State C W R} {id : SessionId} {limits : Limits} {now : Time}

/-- The session opened at `now` is registered, and with it the sessions are
within the limits. -/
structure WithinLimits (s s' : State C W R) (id : SessionId) (limits : Limits) (now : Time) : Prop where
  registered : ⟨id, now⟩ ∈ s'.sessions
  bounded : (s'.sessions.length : Int) ≤ limits.maxSessions
  fresh : ∀ x ∈ s'.sessions, x.expired limits.sessionTtl now = false
  /-- Apart from the TTL, the oldest are evicted. -/
  oldestFirst : ∃ k, s'.sessions = (s.live limits now).drop k ++ [⟨id, now⟩]
  terminates : (evictStaleSessions s.toRegistry limits now).2 = none
  relieved : (evictStaleSessions s.toRegistry limits now).1.sessions = [] ∨
    (evictStaleSessions s.toRegistry limits now).1.totalQueued ≤ limits.maxTotalQueued ∧
      ((evictStaleSessions s.toRegistry limits now).1.queued : Int) ≤ limits.maxTotalQueued

/-- There is room for one more session: the TTL or the cap leaves fewer than
`max_sessions`, or the counter is over its limit and evicts another. -/
structure HasRoom (s : State C W R) (limits : Limits) (now : Time) : Prop where
  ttl : 0 ≤ limits.sessionTtl
  room : ((s.live limits now).length : Int) < limits.maxSessions ∨ limits.maxTotalQueued < s.charged limits now
  /-- The counter does not pass for less than the queues hold. -/
  counted : ∀ k < (s.capped limits now).length,
    s.charged limits now - (total (qsize s.queue) ((s.capped limits now).take k) : Nat) ≤ limits.maxTotalQueued →
      (total (qsize s.queue) ((s.capped limits now).drop k) : Int) ≤ limits.maxTotalQueued

theorem not_expired_self (ttl : Int) : (Session.expired ttl now ⟨id, now⟩ = false) ↔ 0 ≤ ttl := by
  simp [Session.expired]

theorem length_capped (g : Registry R) (limits : Limits) (now : Time) (h : 0 ≤ limits.maxSessions) :
    ((g.capped limits now).length : Int) = min ((g.live limits now).length : Int) limits.maxSessions := by
  simp only [Registry.capped, Registry.overCap, List.length_drop]
  omega

theorem total_drop_le (size : Session → Nat) (xs : List Session) {j k : Nat} (h : j ≤ k) :
    total size (xs.drop k) ≤ total size (xs.drop j) :=
  total_sublist size (List.drop_sublist_drop_left xs h)

/-- **One `GET`** leaves the sessions within its limits exactly if there is
room for its own. -/
theorem withinLimits_iff (hcap : 1 ≤ limits.maxSessions) :
    WithinLimits s (connect s id limits now) id limits now ↔ HasRoom s limits now := by
  obtain ⟨k, hk, heq, hstop, hbefore⟩ := evictStaleSessions_eq s.toRegistry limits now (by omega)
  have hlength := length_capped s.toRegistry limits now (by omega)
  have hsessions : (connect s id limits now).sessions = (s.capped limits now).drop k ++ [⟨id, now⟩] := by
    unfold connect
    rw [heq]
  have hdropped : (((s.capped limits now).drop k ++ [(⟨id, now⟩ : Session)]).length : Int) =
      (s.capped limits now).length - k + 1 := by
    rw [List.length_append, List.length_drop, List.length_singleton]
    omega
  constructor
  · intro h
    have hfresh := h.fresh ⟨id, now⟩ h.registered
    have hbounded := h.bounded
    rw [hsessions, hdropped] at hbounded
    refine ⟨(not_expired_self _).mp hfresh, ?_, fun j hj hcounter => ?_⟩
    · by_contra hfull
      obtain ⟨hmany, hquiet⟩ := not_or.mp hfull
      have hpos : 0 < k := by omega
      have hcharged := hbefore 0 hpos
      simp at hcharged
      omega
    · have hle : k ≤ j := by
        by_contra hlt
        have := hbefore j (by omega)
        omega
      have hrelieved := h.relieved
      rw [heq] at hrelieved
      rcases hrelieved with hnone | ⟨_, hqueued⟩
      · have := congrArg List.length hnone
        simp at this
        omega
      · exact (Int.ofNat_le.mpr (total_drop_le _ _ hle)).trans hqueued
  · intro h
    refine ⟨by rw [hsessions]; simp, ?_, ?_, ?_, by rw [heq], ?_⟩
    · rw [hsessions, hdropped]
      rcases h.room with hroom | hpressure
      · omega
      · cases k with
        | zero =>
          rcases hstop with hempty | hquiet
          · omega
          · simp at hquiet
            omega
        | succ k => omega
    · intro x hx
      rw [hsessions] at hx
      rcases List.mem_append.mp hx with hx | hx
      · have hlive := List.mem_of_mem_drop (List.mem_of_mem_drop hx)
        simpa using (List.mem_filter.mp hlive).2
      · rw [List.mem_singleton.mp hx]
        exact (not_expired_self _).mpr h.ttl
    · exact ⟨_, by rw [hsessions, Registry.capped, List.drop_drop]⟩
    · rw [heq]
      rcases hstop with hempty | hquiet
      · exact .inl (by simp [hempty])
      · rcases Nat.lt_or_ge k (s.capped limits now).length with hlt | hge
        · exact .inr ⟨hquiet, h.counted k hlt hquiet⟩
        · exact .inl (List.drop_of_length_le hge)

/-- With an exact counter nothing but the TTL and the room matters. -/
theorem hasRoom_iff_of_exact (h : s.Exact) : HasRoom s limits now ↔ 0 ≤ limits.sessionTtl ∧
    (((s.live limits now).length : Int) < limits.maxSessions ∨ limits.maxTotalQueued < s.charged limits now) := by
  have hexact : s.totalQueued = s.queued := h
  have hexpired := total_perm (qsize s.queue) (List.filter_append_perm (fun x : Session =>
    x.expired limits.sessionTtl now) s.sessions)
  have hcap := congrArg (total (qsize s.queue)) (List.take_append_drop (s.overCap limits now) (s.live limits now))
  refine ⟨fun hroom => ⟨hroom.ttl, hroom.room⟩, fun ⟨httl, hroom⟩ => ⟨httl, hroom, fun k _ hcounter => ?_⟩⟩
  have hpressure := congrArg (total (qsize s.queue)) (List.take_append_drop k (s.capped limits now))
  rw [total_append] at hexpired hcap hpressure
  unfold Registry.charged at hcounter
  unfold Registry.queued at hexact
  unfold Registry.live at hcap hcounter
  unfold Registry.capped Registry.live at hpressure hcounter ⊢
  omega

/-- **Session limits.** In any run, every `GET` with a cap of at least one leaves
the sessions within its limits exactly if at each there is room for one more. -/
theorem limits_hold_iff (tool : C → W → W × Except Exn R) (w : W) (ls : List (Label C)) :
    (∀ s id limits now s', Takes (step tool) (initial w) ls s (.connect id limits now) s' →
        1 ≤ limits.maxSessions → WithinLimits s s' id limits now) ↔
      ∀ s id limits now s', Takes (step tool) (initial w) ls s (.connect id limits now) s' →
        1 ≤ limits.maxSessions → HasRoom s limits now := by
  have hstep : ∀ {s id limits now s'}, Takes (step tool) (initial w) ls s (.connect id limits now) s' →
      s' = connect s id limits now := fun h =>
    (Option.some.inj (Option.ite_none_right_eq_some.mp h.enabled).2).symm
  refine forall₅_congr fun s id limits now s' => forall_congr' fun h => forall_congr' fun hcap => ?_
  rw [hstep h]
  exact withinLimits_iff hcap

end

/-- Two `GET`s under a cap of one session. -/
def secondSession : List (Label Unit) := [.connect 0 { maxSessions := 1 } 0, .connect 1 { maxSessions := 1 } 1]

/-- Both sessions are registered. -/
theorem cap_exceeded :
    ¬ ∀ (ls : List (Label Unit)) (s : State Unit Nat Nat) (id : SessionId) (limits : Limits) (now : Time)
        (s' : State Unit Nat Nat), Takes (step countingTool) (initial 0) ls s (.connect id limits now) s' →
      1 ≤ limits.maxSessions → WithinLimits s s' id limits now := by
  intro h
  have htakes : Takes (step countingTool) (initial 0) secondSession _ (.connect 1 { maxSessions := 1 } 1) _ :=
    .next rfl (.here [] rfl)
  exact absurd (h _ _ _ _ _ _ htakes (by decide)).bounded (by decide)

end ContextBroker.Mcp
