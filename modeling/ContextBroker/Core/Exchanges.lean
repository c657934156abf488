import ContextBroker.Core.Rows

/-!
# Questions and their answers in a list

Some elements of a list ask for keys, later ones answer a key, and between
an answer and the element that asked there are only elements of the
answering kind: the shape of a chat log with tool calls and tool results.
Elements `α`, keys `K`, and who asks and answers what (`Rules`) are
arbitrary.

A suffix of a well-formed list can lack the element that asked.
`wellFormed_longest_iff` says when the longest suffix that fits some limits
does not: whenever an answer and all after it fit, so do the element it
answers and all after that.
-/
namespace ContextBroker.Exchanges

open Rows

/-- `passes` are the elements that may stand between. -/
structure Rules (α K : Type) where
  passes : α → Bool
  asks : α → K → Prop
  answers : α → Option K

variable {α K : Type} {R : Rules α K}

/-- The last element of `before` that does not pass asks for `k`. -/
def Rules.Asked (R : Rules α K) (before : List α) (k : K) : Prop :=
  ∃ pre a mid, before = pre ++ a :: mid ∧ R.passes a = false ∧ R.asks a k ∧ ∀ x ∈ mid, R.passes x = true

/-- Every answer has been asked for. -/
def Rules.WellFormed (R : Rules α K) (l : List α) : Prop :=
  ∀ before m after, l = before ++ m :: after → ∀ k, R.answers m = some k → R.Asked before k

theorem wellFormed_nil : R.WellFormed [] := by
  intro before m after h
  simp at h

/-- Along the list: the next element answers nothing, or something asked for. -/
theorem WellFormed.snoc {l : List α} {m : α} (hl : R.WellFormed l) (hm : ∀ k, R.answers m = some k → R.Asked l k) :
    R.WellFormed (l ++ [m]) := by
  intro before m' after hsplit k hk
  rcases List.eq_nil_or_concat after with rfl | ⟨after, m'', rfl⟩
  · obtain ⟨rfl, hlast⟩ := List.append_inj' hsplit rfl
    obtain ⟨rfl, _⟩ := List.cons.inj hlast
    exact hm k hk
  · have hend : l ++ [m] = (before ++ m' :: after) ++ [m''] := by rw [hsplit]; simp
    obtain ⟨rfl, _⟩ := List.append_inj' hend rfl
    exact hl before m' after rfl k hk

/-- The last element that does not pass is found from the end. -/
theorem last_unique {pre pre' mid mid' : List α} {a a' : α} (h : pre ++ a :: mid = pre' ++ a' :: mid')
    (ha : R.passes a = false) (ha' : R.passes a' = false) (hmid : ∀ x ∈ mid, R.passes x = true)
    (hmid' : ∀ x ∈ mid', R.passes x = true) : pre = pre' ∧ a = a' ∧ mid = mid' := by
  have htake : ∀ {pre mid : List α} {a : α}, R.passes a = false → (∀ x ∈ mid, R.passes x = true) →
      (pre ++ a :: mid).reverse.takeWhile R.passes = mid.reverse := by
    intro pre mid a ha hmid
    rw [List.reverse_append, List.reverse_cons, List.append_assoc, List.takeWhile_append_of_pos
      fun x hx => hmid x (List.mem_reverse.mp hx)]
    simp [ha]
  have hsame : mid = mid' := by
    rw [← List.reverse_inj, ← htake ha hmid, h, htake ha' hmid']
  subst hsame
  obtain ⟨hpre, hcons⟩ := List.append_inj' h rfl
  exact ⟨hpre, (List.cons.inj hcons).1, rfl⟩

/-- **A longest suffix is well formed** exactly when the limits never let an
answer in without the element it answers. -/
theorem wellFormed_longest_iff {fits : List α → Prop} {l kept : List α}
    (hclosed : ∀ l l', l' <:+ l → fits l → fits l') (hl : R.WellFormed l) (hk : Longest fits l kept) :
    R.WellFormed kept ↔
      ∀ pre a mid m post, l = pre ++ a :: (mid ++ m :: post) → R.passes a = false → (∀ x ∈ mid, R.passes x = true) →
        (R.answers m).isSome = true → fits (m :: post) → fits (a :: (mid ++ m :: post)) := by
  obtain ⟨front, hfront⟩ := hk.suffix
  constructor
  · intro hwell pre a mid m post hsplit ha hmid hm hfit
    obtain ⟨k, hk'⟩ := Option.isSome_iff_exists.mp hm
    have hpost : m :: post <:+ l := ⟨pre ++ a :: mid, by rw [hsplit]; simp⟩
    obtain ⟨before, hbefore⟩ := hk.longest (m :: post) hpost hfit
    obtain ⟨pre', a', mid', rfl, ha', _, hmid'⟩ := hwell before m post hbefore.symm k hk'
    -- the element asked in `kept` is the one asked in `l`
    have heq : (front ++ pre') ++ a' :: mid' = pre ++ a :: mid := by
      have hboth : ((front ++ pre') ++ a' :: mid') ++ m :: post = (pre ++ a :: mid) ++ m :: post := by
        rw [List.append_assoc front, List.append_assoc front, hbefore, hfront, hsplit]
        simp
      exact List.append_cancel_right hboth
    obtain ⟨-, rfl, rfl⟩ := last_unique (R := R) heq ha' ha hmid' hmid
    exact hclosed kept _ ⟨pre', by rw [← hbefore]; simp⟩ hk.holds
  · intro hcut before m after hkept k hk'
    have hl' : l = (front ++ before) ++ m :: after := by rw [← hfront, hkept, List.append_assoc]
    obtain ⟨pre, a, mid, hbefore, ha, hasks, hmid⟩ := hl (front ++ before) m after hl' k hk'
    have hsplit : l = pre ++ a :: (mid ++ m :: after) := by rw [hl', hbefore]; simp
    have hfit : fits (m :: after) := hclosed kept _ ⟨before, hkept.symm⟩ hk.holds
    have hall := hcut pre a mid m after hsplit ha hmid (Option.isSome_iff_exists.mpr ⟨k, hk'⟩) hfit
    obtain ⟨pre', hpre'⟩ := hk.longest _ ⟨pre, hsplit.symm⟩ hall
    refine ⟨pre', a, mid, ?_, ha, hasks, hmid⟩
    have hboth : (pre' ++ a :: mid) ++ m :: after = before ++ m :: after := by
      rw [← hkept, ← hpre']
      simp
    exact (List.append_cancel_right hboth).symm

/-! ## Other views of the elements, and a preamble -/

variable {β : Type}

/-- The rules read through `f`. -/
def Rules.comap (R : Rules β K) (f : α → β) : Rules α K := ⟨R.passes ∘ f, fun a => R.asks (f a), R.answers ∘ f⟩

theorem asked_map {R : Rules β K} (f : α → β) (before : List α) (k : K) :
    R.Asked (before.map f) k ↔ (R.comap f).Asked before k := by
  constructor
  · intro ⟨pre, a, mid, h, ha, hasks, hmid⟩
    obtain ⟨pre', rest, rfl, rfl, hrest⟩ := List.map_eq_append_iff.mp h
    obtain ⟨a', mid', rfl, rfl, rfl⟩ := List.map_eq_cons_iff.mp hrest
    exact ⟨pre', a', mid', rfl, ha, hasks, fun x hx => hmid _ (List.mem_map_of_mem hx)⟩
  · rintro ⟨pre, a, mid, rfl, ha, hasks, hmid⟩
    refine ⟨pre.map f, f a, mid.map f, by simp, ha, hasks, fun x hx => ?_⟩
    obtain ⟨x', hx', rfl⟩ := List.mem_map.mp hx
    exact hmid x' hx'

theorem wellFormed_map {R : Rules β K} (f : α → β) (l : List α) :
    R.WellFormed (l.map f) ↔ (R.comap f).WellFormed l := by
  constructor
  · rintro h before m after rfl k hk
    exact (asked_map f before k).mp (h (before.map f) (f m) (after.map f) (by simp) k hk)
  · intro h before m after hsplit k hk
    obtain ⟨before', rest, rfl, rfl, hrest⟩ := List.map_eq_append_iff.mp hsplit
    obtain ⟨m', after', rfl, rfl, rfl⟩ := List.map_eq_cons_iff.mp hrest
    exact (asked_map f before' k).mpr (h before' m' after' rfl k hk)

/-- Elements in front that neither ask nor answer do not matter. -/
theorem wellFormed_append_left {front l : List α} (hanswers : ∀ x ∈ front, R.answers x = none)
    (hasks : ∀ x ∈ front, ∀ k, ¬ R.asks x k) : R.WellFormed (front ++ l) ↔ R.WellFormed l := by
  constructor
  · rintro h before m after rfl k hk
    obtain ⟨pre, a, mid, heq, ha, hask, hmid⟩ := h (front ++ before) m after (by simp) k hk
    rcases List.append_eq_append_iff.mp heq with ⟨pre', rfl, hbefore⟩ | ⟨rest, hfront, hrest⟩
    · exact ⟨pre', a, mid, hbefore, ha, hask, hmid⟩
    · cases rest with
      | nil => exact ⟨[], a, mid, by simpa using hrest.symm, ha, hask, hmid⟩
      | cons b rest =>
        obtain ⟨rfl, _⟩ := List.cons.inj hrest
        exact absurd hask (hasks a (by rw [hfront]; simp) k)
  · intro h before m after hsplit k hk
    rcases List.append_eq_append_iff.mp hsplit with ⟨before', rfl, hl⟩ | ⟨rest, hfront, hrest⟩
    · obtain ⟨pre, a, mid, rfl, ha, hask, hmid⟩ := h before' m after hl k hk
      exact ⟨front ++ pre, a, mid, by simp, ha, hask, hmid⟩
    · cases rest with
      | nil =>
        obtain ⟨pre, a, mid, hnil, _⟩ := h [] m after (by simpa using hrest.symm) k hk
        simp at hnil
      | cons b rest =>
        obtain ⟨rfl, _⟩ := List.cons.inj hrest
        rw [hanswers m (by rw [hfront]; simp)] at hk
        cases hk

end ContextBroker.Exchanges
