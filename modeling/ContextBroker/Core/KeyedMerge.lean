import Mathlib.Data.List.Nodup

/-!
# Merging lists by key

`merge key l r` reads `r` in order: an element whose key is in the list takes
the place of the one that has it, any other is appended. Elements that are
there already change nothing (`merge_of_subset`), new ones come after them
(`merge_of_new`).
-/
namespace ContextBroker.KeyedMerge

variable {α κ : Type} [DecidableEq κ] (key : α → κ)

def upsert (l : List α) (a : α) : List α :=
  if key a ∈ l.map key then l.map fun b => if key b = key a then a else b else l ++ [a]

def merge (l r : List α) : List α := r.foldl (upsert key) l

@[simp] theorem merge_nil (l : List α) : merge key l [] = l := rfl

@[simp] theorem merge_append (l r r' : List α) : merge key l (r ++ r') = merge key (merge key l r) r' :=
  List.foldl_append

variable {key}

theorem mem_of_mem_upsert {l : List α} {a b : α} (h : b ∈ upsert key l a) : b ∈ l ∨ b = a := by
  unfold upsert at h
  split at h
  · obtain ⟨c, hc, rfl⟩ := List.mem_map.mp h
    split
    · exact .inr rfl
    · exact .inl hc
  · exact (List.mem_append.mp h).imp_right List.mem_singleton.mp

theorem mem_of_mem_merge {l r : List α} {b : α} (h : b ∈ merge key l r) : b ∈ l ∨ b ∈ r := by
  induction r generalizing l with
  | nil => exact .inl h
  | cons a r ih =>
    rcases ih h with hl | hr
    · rcases mem_of_mem_upsert hl with hl | rfl
      · exact .inl hl
      · exact .inr List.mem_cons_self
    · exact .inr (List.mem_cons_of_mem a hr)

theorem upsert_of_mem {l : List α} {a : α} (hnodup : (l.map key).Nodup) (ha : a ∈ l) : upsert key l a = l := by
  have hsame : ∀ b ∈ l, (if key b = key a then a else b) = b := by
    intro b hb
    split
    · rename_i hkey
      exact (List.inj_on_of_nodup_map hnodup hb ha hkey).symm
    · rfl
  rw [upsert, if_pos (List.mem_map_of_mem ha)]
  exact (List.map_congr_left hsame).trans (List.map_id' l)

/-- What is there already stays where it is. -/
theorem merge_of_subset {l r : List α} (hnodup : (l.map key).Nodup) (h : r ⊆ l) : merge key l r = l := by
  induction r with
  | nil => rfl
  | cons a r ih =>
    show merge key (upsert key l a) r = l
    rw [upsert_of_mem hnodup (h List.mem_cons_self)]
    exact ih fun b hb => h (List.mem_cons_of_mem a hb)

/-- What is new comes after it, in order. -/
theorem merge_of_new {l r : List α} (hnodup : (r.map key).Nodup) (h : ∀ a ∈ r, key a ∉ l.map key) :
    merge key l r = l ++ r := by
  induction r generalizing l with
  | nil => simp
  | cons a r ih =>
    obtain ⟨hhead, htail⟩ := List.nodup_cons.mp hnodup
    show merge key (upsert key l a) r = l ++ a :: r
    rw [upsert, if_neg (h a List.mem_cons_self), ih htail]
    · simp
    · intro b hb hmem
      rw [List.map_append, List.mem_append, List.map_singleton, List.mem_singleton] at hmem
      rcases hmem with hold | hkey
      · exact h b (List.mem_cons_of_mem a hb) hold
      · exact hhead (hkey ▸ List.mem_map_of_mem hb)

end ContextBroker.KeyedMerge
