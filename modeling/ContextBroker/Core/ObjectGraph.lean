import Mathlib.Data.List.Induction

/-!
# Documents with shared parts

A document is a graph of objects: a value is a scalar or a reference to a
mapping or a list, and one object may be held in several places, or in itself.
A path is a list of steps from a value, and `follow` goes them.

`setItem` assigns a scalar to one key of one object, in place. A path to another
object still leads there (`follow_setItem_of_ref`), if it was a scalar that
was assigned to; and all is as it was but at the item if one path alone leads to the
object (`follow_setItem_of_unique`). `put` assigns to a key that may be new.
-/
namespace ContextBroker.ObjectGraph

variable {K S : Type}

inductive Value (S : Type) where
  | leaf (s : S)
  | ref (r : Nat)
  deriving DecidableEq

inductive Object (K S : Type) where
  | dict (items : List (K × Value S))
  | list (items : List (Value S))
  deriving DecidableEq

/-- An object for each reference; past its end they are empty mappings. -/
abbrev Heap (K S : Type) := List (Object K S)

def Heap.object (heap : Heap K S) (r : Nat) : Object K S := heap[r]?.getD (.dict [])

inductive Step (K : Type) where
  | key (k : K)
  | index (i : Nat)
  deriving DecidableEq

/-- What there is to see of a value without going further. -/
inductive Look (S : Type) where
  | scalar (s : S)
  | mapping
  | sequence
  deriving DecidableEq

def Object.look : Object K S → Look S
  | .dict _ => .mapping
  | .list _ => .sequence

def look (heap : Heap K S) : Value S → Look S
  | .leaf s => .scalar s
  | .ref r => (heap.object r).look

section Paths

variable [DecidableEq K]

def Object.child : Object K S → Step K → Option (Value S)
  | .dict items, .key k => items.lookup k
  | .list items, .index i => items[i]?
  | _, _ => none

def child (heap : Heap K S) : Value S → Step K → Option (Value S)
  | .ref r, s => (heap.object r).child s
  | .leaf _, _ => none

def follow (heap : Heap K S) (v : Value S) : List (Step K) → Option (Value S)
  | [] => some v
  | s :: p => (child heap v s).bind (follow heap · p)

def Object.setItem (k : K) (new : S) : Object K S → Object K S
  | .dict items => .dict (items.map fun (k', v) => if k' = k then (k', .leaf new) else (k', v))
  | .list items => .list items

/-- `object[key] = new`, of a key that it has. -/
def setItem (heap : Heap K S) (r : Nat) (k : K) (new : S) : Heap K S := heap.modify r (Object.setItem k new)

def Object.put (k : K) (v : Value S) : Object K S → Object K S
  | .dict items =>
    .dict (if (items.lookup k).isSome then items.map fun (k', w) => if k' = k then (k', v) else (k', w)
      else items ++ [(k, v)])
  | .list items => .list items

/-- `object[key] = value`; a key that it does not have comes last. -/
def put (heap : Heap K S) (r : Nat) (k : K) (v : Value S) : Heap K S :=
  (heap ++ List.replicate (r + 1 - heap.length) (Object.dict [])).modify r (Object.put k v)

/-- Scalars for several keys, one after the other. -/
def assignAll (heap : Heap K S) (r : Nat) (items : List (K × S)) : Heap K S :=
  items.foldl (fun heap (k, s) => put heap r k (.leaf s)) heap

/-! ## One step -/

section Step

variable {heap : Heap K S} {r x : Nat} {k : K} {new : S} {v root : Value S} {s : Step K}

theorem follow_append : ∀ (v : Value S) (p q : List (Step K)),
    follow heap v (p ++ q) = (follow heap v p).bind (follow heap · q)
  | _, [], _ => rfl
  | v, s :: p, q => by
    rw [List.cons_append, follow, follow, Option.bind_assoc]
    exact congrArg _ (funext fun w => follow_append w p q)

theorem follow_concat (p : List (Step K)) :
    follow heap v (p ++ [s]) = (follow heap v p).bind (child heap · s) := by
  rw [follow_append]
  exact congrArg _ (funext fun w => Option.bind_fun_some _)

theorem object_setItem : (setItem heap r k new).object x =
    if x = r then (heap.object x).setItem k new else heap.object x := by
  rw [Heap.object, Heap.object, setItem, List.getElem?_modify]
  by_cases hx : x = r
  · cases heap[x]? <;> simp [hx, Object.setItem]
  · cases heap[x]? <;> simp [hx, Ne.symm hx]

theorem look_setItem : look (setItem heap r k new) v = look heap v := by
  cases v with
  | leaf s => rfl
  | ref x =>
    rw [look, look, object_setItem]
    split
    · cases heap.object x <;> rfl
    · rfl

theorem lookup_map_set {items : List (K × Value S)} {k' : K} :
    (items.map fun (j, w) => if j = k then (j, v) else (j, w)).lookup k' =
      if k' = k then (items.lookup k').map fun _ => v else items.lookup k' := by
  induction items with
  | nil => simp
  | cons item items ih =>
    obtain ⟨j, w⟩ := item
    by_cases hk : k' = j
    · subst hk
      by_cases hj : k' = k <;> simp [hj]
    · have hne : (k' == j) = false := by simpa using hk
      rw [List.map_cons, @List.lookup_cons _ _ _ items, hne]
      dsimp only
      split <;> rw [List.lookup_cons, hne] <;> exact ih

theorem child_object_setItem (o : Object K S) :
    (o.setItem k new).child s = if s = .key k then (o.child s).map fun _ => .leaf new else o.child s := by
  cases o with
  | dict items =>
    cases s with
    | key k' => simp only [Object.setItem, Object.child, lookup_map_set, Step.key.injEq]
    | index i => rw [if_neg (by simp)]; rfl
  | list items =>
    cases s with
    | key k' => simp [Object.setItem, Object.child]
    | index i => rw [if_neg (by simp)]; rfl

/-- Nothing but one item of one object is not what it was. -/
def SameBut (heap heap' : Heap K S) (r : Nat) (k : K) : Prop :=
  ∀ v s, (v = .ref r → s ≠ .key k) → child heap' v s = child heap v s

theorem child_setItem_self :
    child (setItem heap r k new) (.ref r) (.key k) = (child heap (.ref r) (.key k)).map fun _ => .leaf new := by
  rw [child, child, object_setItem, if_pos rfl, child_object_setItem, if_pos rfl]

/-- Only that step is not what it was. -/
theorem child_setItem_of_ne (h : v = .ref r → s ≠ .key k) : child (setItem heap r k new) v s = child heap v s := by
  cases v with
  | leaf s => rfl
  | ref x =>
    rw [child, child, object_setItem]
    split
    · rename_i hx
      rw [child_object_setItem, if_neg (h (hx ▸ rfl))]
    · rfl

/-- It is if the same is assigned. -/
theorem child_setItem_same (h : child heap (.ref r) (.key k) = some (.leaf new)) :
    child (setItem heap r k new) v s = child heap v s := by
  by_cases hv : v = .ref r
  · by_cases hs : s = .key k
    · rw [hv, hs, child_setItem_self, h]
      rfl
    · exact child_setItem_of_ne fun _ => hs
  · exact child_setItem_of_ne fun hv' => absurd hv' hv

end Step

/-! ## Paths -/

variable {heap heap' : Heap K S} {r x : Nat} {k : K} {new old : S} {root v : Value S} {p q : List (Step K)}

/-- A path leads where it led, or comes by the item. -/
theorem follow_setItem_cases (q : List (Step K)) : follow (setItem heap r k new) root q = follow heap root q ∨
    follow (setItem heap r k new) root q = some (.leaf new) ∨ follow (setItem heap r k new) root q = none := by
  induction q using List.reverseRecOn with
  | nil => exact .inl rfl
  | append_singleton q s ih =>
    rw [follow_concat, follow_concat]
    rcases ih with ih | ih | ih <;> rw [ih]
    · cases follow heap root q with
      | none => exact .inl rfl
      | some v =>
        rw [Option.bind_some, Option.bind_some]
        by_cases h : v = .ref r ∧ s = .key k
        · obtain ⟨rfl, rfl⟩ := h
          rw [child_setItem_self]
          cases child heap (.ref r) (.key k) with
          | none => exact .inl rfl
          | some old => exact .inr (.inl rfl)
        · exact .inl (child_setItem_of_ne fun hv hs => h ⟨hv, hs⟩)
    · exact .inr (.inr rfl)
    · exact .inr (.inr rfl)

/-- The item holds the new value, unless the path to it came by it already. -/
theorem follow_setItem_item (hp : follow heap root p = some (.ref r))
    (hitem : child heap (.ref r) (.key k) = some v) :
    follow (setItem heap r k new) root (p ++ [.key k]) = some (.leaf new) ∨
      follow (setItem heap r k new) root (p ++ [.key k]) = none := by
  rw [follow_concat]
  rcases @follow_setItem_cases _ _ _ heap r k new root p with h | h | h <;> rw [h]
  · left
    rw [hp, Option.bind_some, child_setItem_self, hitem]
    rfl
  · exact .inr rfl
  · exact .inr rfl

/-- Where a scalar is assigned to, the objects stay where they are. -/
theorem follow_setItem_of_ref (hitem : child heap (.ref r) (.key k) = some (.leaf old)) (q : List (Step K)) :
    ∀ x, follow heap root q = some (.ref x) → follow (setItem heap r k new) root q = some (.ref x) := by
  induction q using List.reverseRecOn with
  | nil => exact fun x h => h
  | append_singleton q s ih =>
    intro x h
    rw [follow_concat] at h ⊢
    obtain ⟨v, hv, hstep⟩ := Option.bind_eq_some_iff.mp h
    cases v with
    | leaf s => cases hstep
    | ref y =>
      rw [ih y hv, Option.bind_some, child_setItem_of_ne]
      · exact hstep
      · rintro hy rfl
        rw [hy, hitem] at hstep
        cases hstep

/-- All is as it was but at the item, if there is one path to its object. -/
theorem SameBut.follow_of_unique (h : SameBut heap heap' r k)
    (hp : ∀ q, follow heap root q = some (.ref r) → q = p) (q : List (Step K)) :
    ¬ p ++ [.key k] <+: q → follow heap' root q = follow heap root q := by
  induction q using List.reverseRecOn with
  | nil => exact fun _ => rfl
  | append_singleton q s ih =>
    intro hq
    have hprefix : ¬ p ++ [.key k] <+: q := fun h => hq (h.trans (List.prefix_append q [s]))
    rw [follow_concat, follow_concat, ih hprefix]
    cases hv : follow heap root q with
    | none => rfl
    | some v =>
      refine h v s fun hr hs => hq ?_
      rw [hr] at hv
      have hwhole : p ++ [.key k] = q ++ [s] := by rw [hp q hv, hs]
      exact hwhole ▸ List.prefix_rfl

theorem follow_setItem_of_unique (hp : ∀ q, follow heap root q = some (.ref r) → q = p) (q : List (Step K)) :
    ¬ p ++ [.key k] <+: q → follow (setItem heap r k new) root q = follow heap root q :=
  SameBut.follow_of_unique (fun _ _ => child_setItem_of_ne) hp q

theorem follow_setItem_same (h : child heap (.ref r) (.key k) = some (.leaf new)) :
    ∀ (v : Value S) (q : List (Step K)), follow (setItem heap r k new) v q = follow heap v q
  | _, [] => rfl
  | v, s :: q => by
    rw [follow, follow, child_setItem_same h]
    exact congrArg _ (funext fun w => follow_setItem_same h w q)

end Paths

/-! ## Keys that may be new -/

section

variable [DecidableEq K] {heap heap' : Heap K S} {r x : Nat} {k : K} {new : S} {root v w : Value S} {s : Step K}
  {p q : List (Step K)} {items : List (K × S)}

omit [DecidableEq K] in
theorem object_pad (heap : Heap K S) (n x : Nat) :
    Heap.object (heap ++ List.replicate n (.dict [])) x = heap.object x := by
  rw [Heap.object, Heap.object, List.getElem?_append]
  split
  · rfl
  · rename_i hx
    rw [List.getElem?_replicate, List.getElem?_eq_none (Nat.le_of_not_lt hx)]
    split <;> rfl

theorem object_put : (put heap r k v).object x = if x = r then (heap.object x).put k v else heap.object x := by
  rw [← object_pad heap (r + 1 - heap.length) x, Heap.object, Heap.object, put, List.getElem?_modify]
  by_cases hx : x = r
  · have hlt : x < (heap ++ List.replicate (r + 1 - heap.length) (Object.dict [])).length := by
      rw [List.length_append, List.length_replicate]
      omega
    rw [List.getElem?_eq_getElem hlt]
    simp [hx]
  · simp [hx, Ne.symm hx]

theorem lookup_put {items : List (K × Value S)} {k' : K} :
    (if (items.lookup k).isSome then items.map fun (j, w) => if j = k then (j, v) else (j, w)
      else items ++ [(k, v)]).lookup k' = if k' = k then some v else items.lookup k' := by
  split
  · rename_i hsome
    obtain ⟨old, hold⟩ := Option.isSome_iff_exists.mp hsome
    rw [lookup_map_set]
    split
    · rename_i hk
      rw [hk, hold]
      rfl
    · rfl
  · rename_i hnone
    rw [Option.not_isSome_iff_eq_none] at hnone
    rw [List.lookup_append]
    split
    · rename_i hk
      rw [hk, hnone]
      simp
    · rename_i hk
      have hne : (k' == k) = false := by simpa using hk
      rw [List.lookup_cons, hne, List.lookup_nil, Option.or_none]

theorem child_put_self (h : (heap.object r).look = .mapping) :
    child (put heap r k v) (.ref r) (.key k) = some v := by
  rw [child, object_put, if_pos rfl]
  cases hobject : heap.object r with
  | dict items => rw [Object.put, Object.child, lookup_put, if_pos rfl]
  | list items => rw [hobject] at h; cases h

theorem sameBut_put : SameBut heap (put heap r k v) r k := by
  intro w s h
  cases w with
  | leaf s => rfl
  | ref x =>
    rw [child, child, object_put]
    split
    · rename_i hx
      have hs : s ≠ .key k := h (congrArg _ hx)
      cases heap.object x with
      | list items => rfl
      | dict items =>
        cases s with
        | index i => rfl
        | key k' =>
          have hk : k' ≠ k := fun hk => hs (congrArg _ hk)
          rw [Object.put, Object.child, Object.child, lookup_put, if_neg hk]
    · rfl

theorem look_put : look (put heap r k v) w = look heap w := by
  cases w with
  | leaf s => rfl
  | ref x =>
    rw [look, look, object_put]
    split
    · cases heap.object x <;> rfl
    · rfl

/-! ### Paths -/

/-- A new item is in the way of no path. -/
theorem SameBut.follow_of_new (h : SameBut heap heap' r k) (hnew : child heap (.ref r) (.key k) = none)
    (q : List (Step K)) : ∀ v, follow heap root q = some v → follow heap' root q = some v := by
  induction q using List.reverseRecOn with
  | nil => exact fun _ h => h
  | append_singleton q s ih =>
    intro v hv
    rw [follow_concat] at hv ⊢
    obtain ⟨u, hu, hstep⟩ := Option.bind_eq_some_iff.mp hv
    rw [ih u hu, Option.bind_some, h u s]
    · exact hstep
    · rintro rfl rfl
      rw [hnew] at hstep
      cases hstep

/-- With a scalar for the item, no path to an object is new. -/
theorem SameBut.follow_ref (h : SameBut heap heap' r k) (hitem : child heap' (.ref r) (.key k) = some (.leaf new))
    (q : List (Step K)) : ∀ x, follow heap' root q = some (.ref x) → follow heap root q = some (.ref x) := by
  induction q using List.reverseRecOn with
  | nil => exact fun _ h => h
  | append_singleton q s ih =>
    intro x hx
    rw [follow_concat] at hx ⊢
    obtain ⟨u, hu, hstep⟩ := Option.bind_eq_some_iff.mp hx
    cases u with
    | leaf _ => cases hstep
    | ref y =>
      rw [ih y hu, Option.bind_some, ← h (.ref y) s]
      · exact hstep
      · rintro hy rfl
        rw [hy, hitem] at hstep
        cases hstep

/-- To a key that is there, it assigns in place. -/
theorem put_eq_setItem (h : child heap (.ref r) (.key k) = some v) :
    put heap r k (.leaf new) = setItem heap r k new := by
  have hlt : r < heap.length := by
    refine Nat.lt_of_not_le fun hle => ?_
    rw [child, Heap.object, List.getElem?_eq_none hle] at h
    cases h
  have hobject : heap[r]? = some (heap.object r) := by
    rw [Heap.object, List.getElem?_eq_getElem hlt]
    rfl
  have hput : (heap.object r).put k (.leaf new) = (heap.object r).setItem k new := by
    rw [child] at h
    cases hitems : heap.object r with
    | list items => rfl
    | dict items =>
      rw [hitems, Object.child] at h
      rw [Object.put, h, Option.isSome_some, if_pos rfl]
      rfl
  rw [put, Nat.sub_eq_zero_of_le hlt, List.replicate_zero, List.append_nil, setItem]
  refine List.ext_getElem? fun x => ?_
  rw [List.getElem?_modify, List.getElem?_modify]
  by_cases hx : r = x
  · subst hx
    simp [hobject, hput]
  · simp [hx]

/-! ### Several items -/

theorem assignAll_cons (item : K × S) (items : List (K × S)) :
    assignAll heap r (item :: items) = assignAll (put heap r item.1 (.leaf item.2)) r items := rfl

theorem look_assignAll : ∀ {items : List (K × S)} {heap : Heap K S}, look (assignAll heap r items) w = look heap w
  | [], _ => rfl
  | item :: items, heap => by
    rw [assignAll_cons, look_assignAll, look_put]

theorem child_assignAll_of_notMem : ∀ {items : List (K × S)} {heap : Heap K S}, k ∉ items.map Prod.fst →
    child (assignAll heap r items) (.ref r) (.key k) = child heap (.ref r) (.key k)
  | [], _, _ => rfl
  | item :: items, heap, h => by
    rw [List.map_cons, List.mem_cons, not_or] at h
    exact (child_assignAll_of_notMem h.2).trans (sameBut_put _ _ fun _ hk => h.1 (Step.key.inj hk))

/-- Each key has its scalar. -/
theorem child_assignAll : ∀ {items : List (K × S)} {heap : Heap K S}, (heap.object r).look = .mapping →
    (items.map Prod.fst).Nodup → (k, new) ∈ items →
    child (assignAll heap r items) (.ref r) (.key k) = some (.leaf new)
  | [], _, _, _, h => absurd h List.not_mem_nil
  | (k', new') :: items, heap, hmapping, hnodup, h => by
    rw [List.map_cons, List.nodup_cons] at hnodup
    have hmapping' : ((put heap r k' (.leaf new')).object r).look = .mapping := look_put (w := .ref r).trans hmapping
    rcases List.mem_cons.mp h with h | h
    · cases h
      exact (child_assignAll_of_notMem hnodup.1).trans (child_put_self hmapping)
    · rw [assignAll_cons]
      exact child_assignAll hmapping' hnodup.2 h

/-- **Other paths** lead where they led, if one path leads to the object. -/
theorem follow_assignAll : ∀ {items : List (K × S)} {heap : Heap K S}, (heap.object r).look = .mapping →
    (∀ q, follow heap root q = some (.ref r) → q = p) → (∀ item ∈ items, ¬ p ++ [.key item.1] <+: q) →
    follow (assignAll heap r items) root q = follow heap root q
  | [], _, _, _, _ => rfl
  | (k, new) :: items, heap, hmapping, hunique, hq => by
    have hmapping' : ((put heap r k (.leaf new)).object r).look = .mapping := look_put (w := .ref r).trans hmapping
    have hself : child (put heap r k (.leaf new)) (.ref r) (.key k) = some (.leaf new) := child_put_self hmapping
    have hsame : SameBut heap (put heap r k (.leaf new)) r k := sameBut_put
    have hrest := follow_assignAll hmapping' (fun q' hq' => hunique q' (hsame.follow_ref hself q' r hq'))
      fun item hitem => hq item (List.mem_cons_of_mem _ hitem)
    rw [assignAll_cons]
    exact hrest.trans (hsame.follow_of_unique hunique q (hq _ List.mem_cons_self))

end

end ContextBroker.ObjectGraph
