import Mathlib.Data.List.Nodup

/-!
# A bounded memo

A dict of at most `cap` results under keys. A request looks its key up, and on
a miss the oldest entry makes room before the result is built and kept.
Requests with one key need not want the same result: `Right` says that no
request finds what another one wants. `right_fetch_iff`: a request keeps that
so unless it builds a result under a key of requests that want another.
-/
namespace ContextBroker.Memo

variable {K A Q : Type} [BEq K] [LawfulBEq K]

/-- `if len(cache) >= cap: del cache[next(iter(cache))]`. -/
def evict (cap : Nat) (cache : List (K × A)) : List (K × A) :=
  if cap ≤ cache.length then cache.tail else cache

/-- `build` is `none` where building raises. -/
def fetch (cap : Nat) (cache : List (K × A)) (key : K) (build : Option A) : List (K × A) × Option A :=
  match cache.lookup key with
  | some a => (cache, some a)
  | none =>
    match build with
    | none => (evict cap cache, none)
    | some a => (evict cap cache ++ [(key, a)], some a)

/-- What a request finds under its key is what it wants. -/
def Right (key : Q → Option K) (want : Q → Option A) (cache : List (K × A)) : Prop :=
  ∀ q k a, key q = some k → cache.lookup k = some a → want q = some a

variable {cap : Nat} {cache : List (K × A)} {key : Q → Option K} {want : Q → Option A} {q : Q} {k : K} {a : A}

theorem mem_keys_of_lookup (h : cache.lookup k = some a) : k ∈ cache.map Prod.fst := by
  obtain ⟨l₁, l₂, rfl, _⟩ := List.lookup_eq_some_iff.mp h
  exact List.mem_map_of_mem (List.mem_append_right _ List.mem_cons_self)

theorem not_mem_keys_of_lookup (h : cache.lookup k = none) : k ∉ cache.map Prod.fst := by
  intro hmem
  obtain ⟨p, hp, rfl⟩ := List.mem_map.mp hmem
  simpa using List.lookup_eq_none_iff.mp h p hp

omit [BEq K] [LawfulBEq K] in
theorem evict_sublist : List.Sublist (evict cap cache) cache := by
  unfold evict
  split
  · exact List.tail_sublist cache
  · exact .refl cache

/-- What is left after an eviction was there before. -/
theorem lookup_evict (hnodup : (cache.map Prod.fst).Nodup) (h : (evict cap cache).lookup k = some a) :
    cache.lookup k = some a := by
  unfold evict at h
  split at h
  · cases cache with
    | nil => exact h
    | cons p rest =>
      have hne : (k == p.1) = false := by
        rw [beq_eq_false_iff_ne]
        rintro rfl
        exact (List.nodup_cons.mp hnodup).1 (mem_keys_of_lookup h)
      rw [List.lookup_cons, hne]
      exact h
  · exact h

omit [LawfulBEq K] in
theorem lookup_evict_of_none (h : cache.lookup k = none) : (evict cap cache).lookup k = none := by
  rw [List.lookup_eq_none_iff] at h ⊢
  exact fun p hp => h p (evict_sublist.subset hp)

/-- Keys stay unique. -/
theorem nodup_fetch (hnodup : (cache.map Prod.fst).Nodup) (k : K) (build : Option A) :
    ((fetch cap cache k build).1.map Prod.fst).Nodup := by
  have hkept : ((evict cap cache).map Prod.fst).Nodup := hnodup.sublist (evict_sublist.map Prod.fst)
  unfold fetch
  split
  · exact hnodup
  · rename_i hmiss
    split
    · exact hkept
    · rw [List.map_append]
      refine hkept.append (List.nodup_singleton _) fun x hx hx' => ?_
      obtain rfl := List.mem_singleton.mp hx'
      exact not_mem_keys_of_lookup (lookup_evict_of_none hmiss) hx

omit [LawfulBEq K] in
/-- What a request gets is either what it has built or what it has found. -/
theorem right_iff_fetch :
    Right key want cache ↔
      ∀ q k a, key q = some k → (fetch cap cache k (want q)).2 = some a → want q = some a := by
  constructor
  · intro h q k a hk hget
    unfold fetch at hget
    split at hget
    · rename_i b hfound
      obtain rfl := Option.some.inj hget
      exact h q k b hk hfound
    · split at hget
      · cases hget
      · rename_i b hbuilt
        obtain rfl := Option.some.inj hget
        exact hbuilt
  · intro h q k a hk hfound
    refine h q k a hk ?_
    unfold fetch
    rw [hfound]

theorem Right.evict (hnodup : (cache.map Prod.fst).Nodup) (h : Right key want cache) :
    Right key want (evict cap cache) :=
  fun q k a hk hfound => h q k a hk (lookup_evict hnodup hfound)

/-- **A request keeps the memo right**, exactly if what it builds is what
every request with its key wants. -/
theorem right_fetch_iff (hnodup : (cache.map Prod.fst).Nodup) (h : Right key want cache) :
    Right key want (fetch cap cache k (want q)).1 ↔
      (cache.lookup k = none → ∀ a, want q = some a → ∀ q', key q' = some k → want q' = some a) := by
  unfold fetch
  cases hfound : cache.lookup k with
  | some a => simp [h]
  | none =>
    cases hwant : want q with
    | none => simpa using h.evict hnodup
    | some a =>
      have hkept : (Memo.evict cap cache).lookup k = none := lookup_evict_of_none hfound
      simp only [Option.some.injEq, forall_const, forall_eq']
      constructor
      · intro hright q' hk'
        refine hright q' k a hk' ?_
        rw [List.lookup_append, hkept]
        simp
      · intro hsame q' k' a' hk' hfound'
        rw [List.lookup_append] at hfound'
        rcases Option.or_eq_some_iff.mp hfound' with hold | ⟨_, hnew⟩
        · exact (h.evict hnodup) q' k' a' hk' hold
        · rw [List.lookup_cons] at hnew
          split at hnew
          · rename_i heq
            obtain rfl := Option.some.inj hnew
            exact hsame q' (by rw [hk', eq_of_beq heq])
          · cases hnew

end ContextBroker.Memo
