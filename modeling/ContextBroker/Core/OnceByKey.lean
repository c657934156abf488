import Mathlib.Data.List.Nodup

/-!
# Recording once by key

`recorded key accepts present calls` goes through the calls in order and
records those that are accepted and whose key is not there yet, which adds
it. Callers mean an identity of their own, of which the key is a function.

* `keys_nodup`, `exists_recorded`: each key is recorded at most once, and
  each new one that an accepted call has is.
* `exactly_once_iff`: each identity is recorded exactly once if and only if no key
  was there before, calls of one key have one identity, and each key has a
  call that is accepted.
-/
namespace ContextBroker.OnceByKey

variable {C K I : Type} [DecidableEq K] [DecidableEq I] (key : C → K) (accepts : C → Bool)

def recorded : List K → List C → List C
  | _, [] => []
  | present, c :: cs =>
    if accepts c && !present.contains (key c) then c :: recorded (present ++ [key c]) cs
    else recorded present cs

variable {key accepts}

theorem recorded_cons (present : List K) (c : C) (cs : List C) :
    recorded key accepts present (c :: cs) =
      if accepts c = true ∧ key c ∉ present then c :: recorded key accepts (present ++ [key c]) cs
      else recorded key accepts present cs := by
  simp [recorded]

/-- What is recorded is a call that was accepted and whose key was new. -/
theorem mem_recorded {present : List K} {cs : List C} {r : C} (h : r ∈ recorded key accepts present cs) :
    r ∈ cs ∧ accepts r = true ∧ key r ∉ present := by
  induction cs generalizing present with
  | nil => cases h
  | cons c cs ih =>
    rw [recorded_cons] at h
    split at h
    · rename_i hnew
      rcases List.mem_cons.mp h with rfl | hrest
      · exact ⟨List.mem_cons_self, hnew⟩
      · obtain ⟨hmem, haccepts, hkey⟩ := ih hrest
        exact ⟨List.mem_cons_of_mem c hmem, haccepts, fun hp => hkey (List.mem_append_left _ hp)⟩
    · obtain ⟨hmem, hrest⟩ := ih h
      exact ⟨List.mem_cons_of_mem c hmem, hrest⟩

theorem keys_nodup (present : List K) (cs : List C) : ((recorded key accepts present cs).map key).Nodup := by
  induction cs generalizing present with
  | nil => exact List.nodup_nil
  | cons c cs ih =>
    rw [recorded_cons]
    split
    · refine List.nodup_cons.mpr ⟨fun hmem => ?_, ih _⟩
      obtain ⟨r, hr, hkey⟩ := List.mem_map.mp hmem
      refine (mem_recorded hr).2.2 ?_
      rw [hkey]
      exact List.mem_append_right _ List.mem_cons_self
    · exact ih present

/-- A new key that an accepted call has is recorded. -/
theorem exists_recorded {present : List K} {cs : List C} {c : C} (hmem : c ∈ cs) (haccepts : accepts c = true)
    (hnew : key c ∉ present) : ∃ r ∈ recorded key accepts present cs, key r = key c := by
  induction cs generalizing present with
  | nil => cases hmem
  | cons d cs ih =>
    rw [recorded_cons]
    by_cases hd : accepts d = true ∧ key d ∉ present
    · rw [if_pos hd]
      by_cases hkey : key d = key c
      · exact ⟨d, List.mem_cons_self, hkey⟩
      · have hc : c ∈ cs := by
          rcases List.mem_cons.mp hmem with rfl | hc
          · exact absurd rfl hkey
          · exact hc
        have hnew' : key c ∉ present ++ [key d] := by
          simpa [hnew] using fun h : key c = key d => hkey h.symm
        obtain ⟨r, hr, hrkey⟩ := ih hc hnew'
        exact ⟨r, List.mem_cons_of_mem d hr, hrkey⟩
    · rw [if_neg hd]
      refine ih ?_ hnew
      rcases List.mem_cons.mp hmem with rfl | hc
      · exact absurd ⟨haccepts, hnew⟩ hd
      · exact hc

variable (key accepts) in
/-- Each identity among the calls is recorded exactly once. -/
def Exact (ident : C → I) (present : List K) (cs : List C) : Prop :=
  ∀ c ∈ cs, (recorded key accepts present cs).countP (fun r => decide (ident r = ident c)) = 1

/-- What is recorded under one key is one call. -/
theorem countP_key {present : List K} {cs : List C} {r : C} (h : r ∈ recorded key accepts present cs) :
    (recorded key accepts present cs).countP (fun x => decide (key x = key r)) = 1 := by
  have hcount := List.count_eq_one_of_mem (keys_nodup present cs) (List.mem_map_of_mem (f := key) h)
  rw [List.count, List.countP_map] at hcount
  rw [← hcount]
  exact List.countP_congr fun x _ => by simp

/-- **Recording once by key is exact** when keys tell identities apart. -/
theorem exactly_once_iff {ident : C → I} (hident : ∀ c c', ident c = ident c' → key c = key c') (present : List K)
    (cs : List C) :
    Exact key accepts ident present cs ↔
      (∀ c ∈ cs, key c ∉ present) ∧ (∀ c ∈ cs, ∀ c' ∈ cs, key c = key c' → ident c = ident c') ∧
        ∀ c ∈ cs, ∃ c' ∈ cs, key c' = key c ∧ accepts c' = true := by
  have hfound : Exact key accepts ident present cs → ∀ c ∈ cs, ∃ r ∈ recorded key accepts present cs,
      ident r = ident c := by
    intro h c hc
    have hpos : 0 < (recorded key accepts present cs).countP (fun r => decide (ident r = ident c)) := by
      rw [h c hc]
      exact Nat.one_pos
    obtain ⟨r, hr, hri⟩ := List.countP_pos_iff.mp hpos
    exact ⟨r, hr, of_decide_eq_true hri⟩
  refine ⟨fun h => ⟨fun c hc => ?_, fun c hc c' hc' hkey => ?_, fun c hc => ?_⟩, fun ⟨hnew, hone, hsome⟩ => ?_⟩
  · obtain ⟨r, hr, hri⟩ := hfound h c hc
    rw [← hident r c hri]
    exact (mem_recorded hr).2.2
  · obtain ⟨r, hr, hri⟩ := hfound h c hc
    obtain ⟨r', hr', hri'⟩ := hfound h c' hc'
    have hsame : r = r' :=
      List.inj_on_of_nodup_map (keys_nodup present cs) hr hr'
        ((hident _ _ hri).trans (hkey.trans (hident _ _ hri').symm))
    rw [← hri, hsame, hri']
  · obtain ⟨r, hr, hri⟩ := hfound h c hc
    exact ⟨r, (mem_recorded hr).1, hident _ _ hri, (mem_recorded hr).2.1⟩
  · intro c hc
    obtain ⟨c', hc', hkey', haccepts⟩ := hsome c hc
    obtain ⟨r, hr, hrkey⟩ := exists_recorded hc' haccepts (hnew c' hc')
    have hrc : key r = key c := hrkey.trans hkey'
    rw [← countP_key hr]
    refine List.countP_congr fun x hx => ?_
    have hxc : ident x = ident c ↔ key x = key r := by
      rw [hrc]
      exact ⟨hident x c, hone x (mem_recorded hx).1 c hc⟩
    simpa using hxc

end ContextBroker.OnceByKey
