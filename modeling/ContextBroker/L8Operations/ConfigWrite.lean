import ContextBroker.Core.ObjectGraph
import ContextBroker.L6Knowledge.Temporal

/-!
# `config_write`

The tool that changes one setting of `config.yml`: keys that begin with the
name of a TE key are refused; the sections of the dotted key are walked; the
value is converted after the kind of the old one, which it replaces in place;
and the file is opened for writing, which empties it, and the document dumped.

A document may hold one section in several places (YAML aliases), so it is a
graph of objects (`Core.ObjectGraph`). `Correct` is the frame of the tool: the
document is what it was but at the addressed leaf, whose kind stays; the TE
keys and no others are refused; and where an error is returned the file is
untouched. `correct_iff` says of which calls that is true.
-/
namespace ContextBroker.ConfigWrite

open ObjectGraph

/-! ## Documents -/

/-- What is no container; `F` is `float`, and `other` a date, a time or bytes. -/
inductive Scalar (F : Type) where
  | bool (b : Bool)
  | int (i : Int)
  | float (x : F)
  | str (t : Text)
  | null
  | other (text : Text)
  deriving DecidableEq

inductive Kind where
  | bool | int | float | str
  deriving DecidableEq, Repr

variable {F : Type}

def Scalar.kind : Scalar F → Option Kind
  | .bool _ => some .bool
  | .int _ => some .int
  | .float _ => some .float
  | .str _ => some .str
  | .null | .other _ => none

/-- A document that is a mapping. -/
structure Config (F : Type) where
  heap : Heap (Scalar F) (Scalar F)
  root : Nat
  mapping : (heap.object root).look = .mapping

/-- What the tool calls. A file that holds no mapping is left out. -/
structure Python (F : Type) where
  /-- `yaml.safe_load`; none is a `YAMLError`. -/
  load : Text → Option (Config F)
  /-- `yaml.dump(config, default_flow_style=False)` -/
  dump : Config F → Text
  /-- `int(value)`; none is a `ValueError`. -/
  int : Text → Option Int
  /-- `float(value)`; none is a `ValueError`. -/
  float : Text → Option F

variable [DecidableEq F]

def Config.follow (c : Config F) (p : List (Step (Scalar F))) : Option (Value (Scalar F)) :=
  ObjectGraph.follow c.heap (.ref c.root) p

/-- What there is to see at the end of a path. -/
def Config.look (c : Config F) (p : List (Step (Scalar F))) : Option (Look (Scalar F)) :=
  (c.follow p).map (ObjectGraph.look c.heap)

theorem look_object_setItem {heap : Heap (Scalar F) (Scalar F)} {r x : Nat} {k new : Scalar F} :
    ((setItem heap r k new).object x).look = (heap.object x).look := look_setItem (v := .ref x)

def Config.set (c : Config F) (r : Nat) (k new : Scalar F) : Config F :=
  ⟨setItem c.heap r k new, c.root, look_object_setItem.trans c.mapping⟩

/-! ## The tool -/

/-- `key.split(".")` -/
def split (key : Text) : List Text := key.splitOn '.'

def sections (key : Text) : List Text := (split key).dropLast

def leafName (key : Text) : Text := (split key).getLastD []

def topLevel (key : Text) : Text := (split key).headD []

/-- The path of a key. -/
def address (parts : List Text) : List (Step (Scalar F)) := parts.map fun part => .key (.str part)

def teKeys : List Text := ["imperator".toList, "system_prompt".toList, "identity".toList, "purpose".toList]

/-- The exceptions that are caught. -/
inductive Failure where
  | osError | yamlError | valueError
  deriving DecidableEq, Repr

/-- Opening the file for writing is refused, or it is emptied and so many
characters are written before a failure, or all of them. -/
inductive Write where
  | refused
  | cut (written : Nat)
  | whole
  deriving DecidableEq, Repr

/-- What the file system does in a call: reading may raise, and writing. -/
structure Disk where
  read : Option Failure
  write : Write

/-- The texts that are returned. -/
inductive Reply (F : Type) where
  /-- "Cannot modify TE config key ..." -/
  | teKey
  /-- "Config path ... not found." -/
  | pathNotFound
  /-- "Config key ... not found. Available keys at this level: ..." -/
  | keyNotFound (available : List (Scalar F))
  /-- "Updated ...: old → new." -/
  | updated (old : Value (Scalar F)) (new : Scalar F)
  /-- "Config write error: ..." -/
  | failed (failure : Failure)
  deriving DecidableEq

def Reply.isError : Reply F → Bool
  | .updated _ _ => false
  | _ => true

/-- The section that the parts lead to. -/
def walk (heap : Heap (Scalar F) (Scalar F)) : Nat → List Text → Option Nat
  | r, [] => some r
  | r, part :: parts =>
    match child heap (.ref r) (.key (.str part)) with
    | some (.ref target) => if (heap.object target).look = .mapping then walk heap target parts else none
    | _ => none

/-- `list(target.keys())` -/
def keys : Object (Scalar F) (Scalar F) → List (Scalar F)
  | .dict items => items.map Prod.fst
  | .list _ => []

local instance : LawfulBEq Text := inferInstance

/-- The value after the kind of the old one; none is a `ValueError`. -/
def convert (py : Python F) (old : Value (Scalar F)) (value : Text) : Option (Scalar F) :=
  match old with
  | .leaf (.bool _) =>
    some (.bool (decide (Temporal.lower value ∈ ["true".toList, "1".toList, "yes".toList])))
  | .leaf (.int _) => (py.int value).map .int
  | .leaf (.float _) => (py.float value).map .float
  | _ => some (.str value)

/-- The reply and the file.
mirrors admin.py:104-170 -/
def configWrite (py : Python F) (disk : Disk) (content key value : Text) : Reply F × Text :=
  if teKeys.any (List.isPrefixOf · key) then (.teKey, content)
  else match disk.read with
    | some failure => (.failed failure, content)
    | none =>
      match py.load content with
      | none => (.failed .yamlError, content)
      | some config =>
        match walk config.heap config.root (sections key) with
        | none => (.pathNotFound, content)
        | some target =>
          match child config.heap (.ref target) (.key (.str (leafName key))) with
          | none => (.keyNotFound (keys (config.heap.object target)), content)
          | some old =>
            match convert py old value with
            | none => (.failed .valueError, content)
            | some new =>
              let text := py.dump (config.set target (.str (leafName key)) new)
              match disk.write with
              | .refused => (.failed .osError, content)
              | .cut written => (.failed .osError, text.take written)
              | .whole => (.updated old new, text)

/-! ## Its frame -/

/-- Two scalars of one of the four kinds. -/
def SameKind (before after : Option (Look (Scalar F))) : Prop :=
  ∃ s s' kind, before = some (.scalar s) ∧ after = some (.scalar s') ∧ s.kind = some kind ∧ s'.kind = some kind

/-- The second document is the first but at the addressed leaf, which is of the
kind it was of. -/
def Framed (c c' : Config F) (key : Text) : Prop :=
  ∀ p, c'.look p = c.look p ∨ p = address (split key) ∧ SameKind (c.look p) (c'.look p)

/-- What a call owes its caller. -/
structure Correct (py : Python F) (disk : Disk) (content key value : Text) : Prop where
  leaf : ∀ c, py.load content = some c →
    ∃ c', py.load (configWrite py disk content key value).2 = some c' ∧ Framed c c' key
  te : topLevel key ∈ teKeys → configWrite py disk content key value = (.teKey, content)
  ae : topLevel key ∉ teKeys → (configWrite py disk content key value).1 ≠ .teKey
  unchanged : (configWrite py disk content key value).1.isError = true →
    (configWrite py disk content key value).2 = content

/-- The item that a key leads to in a file, and the value for it. -/
structure Found (py : Python F) (content key value : Text) (c : Config F) (target : Nat) (old : Value (Scalar F))
    (new : Scalar F) : Prop where
  load : py.load content = some c
  walk : walk c.heap c.root (sections key) = some target
  item : child c.heap (.ref target) (.key (.str (leafName key))) = some old
  convert : convert py old value = some new

/-- A document that is dumped is read again. -/
def ReadsBack (py : Python F) (content key value : Text) : Prop :=
  ∀ c target old new, Found py content key value c target old new →
    ∃ c', py.load (py.dump (c.set target (.str (leafName key)) new)) = some c' ∧
      ∀ p, c'.look p = (c.set target (.str (leafName key)) new).look p

/-- The calls that do what they should: the key does not merely begin with the
name of a TE key; and if there is an item to assign to, writing is refused, or
it fails and leaves the text that was there, or the old value is a boolean, an
integer, a float or a string, and either it is the new one or its section is
in one place only. -/
def Safe (py : Python F) (disk : Disk) (content key value : Text) : Prop :=
  ((∃ k ∈ teKeys, k <+: topLevel key) → topLevel key ∈ teKeys) ∧
  (topLevel key ∉ teKeys → disk.read = none → ∀ c target old new, Found py content key value c target old new →
    match disk.write with
    | .refused => True
    | .cut written => (py.dump (c.set target (.str (leafName key)) new)).take written = content
    | .whole => (∃ s kind, old = .leaf s ∧ s.kind = some kind) ∧
      (old = .leaf new ∨ ∀ p, c.follow p = some (.ref target) → p = address (sections key)))

/-! ## Keys -/

section Keys

variable {key k : Text}

theorem split_eq (key : Text) : ∃ parts, split key = key.takeWhile (· ≠ '.') :: parts := by
  induction key with
  | nil => exact ⟨[], rfl⟩
  | cons c key ih =>
    obtain ⟨parts, ih⟩ := ih
    rw [split] at ih ⊢
    rw [List.splitOn_cons_eq_if_modifyHead, ih, List.takeWhile_cons]
    by_cases hc : c = '.' <;> simp [hc]

theorem topLevel_eq (key : Text) : topLevel key = key.takeWhile (· ≠ '.') := by
  obtain ⟨parts, h⟩ := split_eq key
  rw [topLevel, h]
  rfl

/-- The first part of a key is all that the guard sees of it. -/
theorem prefix_topLevel (hk : ∀ c ∈ k, c ≠ '.') : k <+: topLevel key ↔ k <+: key := by
  rw [topLevel_eq]
  constructor
  · exact fun h => h.trans (List.takeWhile_prefix _)
  · rintro ⟨rest, rfl⟩
    rw [List.takeWhile_append_of_pos (by simpa using hk)]
    exact List.prefix_append _ _

theorem guard_iff :
    (teKeys.any (List.isPrefixOf · key)) = true ↔ ∃ k ∈ teKeys, k <+: topLevel key := by
  have hdots : ∀ k ∈ teKeys, ∀ c ∈ k, c ≠ '.' := by simp [teKeys]
  rw [List.any_eq_true]
  constructor
  · rintro ⟨k, hk, h⟩
    exact ⟨k, hk, (prefix_topLevel (hdots k hk)).mpr (List.isPrefixOf_iff_prefix.mp h)⟩
  · rintro ⟨k, hk, h⟩
    exact ⟨k, hk, List.isPrefixOf_iff_prefix.mpr ((prefix_topLevel (hdots k hk)).mp h)⟩

omit [DecidableEq F] in
theorem address_split (key : Text) :
    (address (split key) : List (Step (Scalar F))) = address (sections key) ++ [.key (.str (leafName key))] := by
  obtain ⟨parts, h⟩ := split_eq key
  have hne : split key ≠ [] := by rw [h]; exact List.cons_ne_nil _ _
  have hlast : leafName key = (split key).getLast hne := by
    rw [leafName, List.getLastD_eq_getLast?, List.getLast?_eq_some_getLast hne]
    rfl
  conv_lhs => rw [← List.dropLast_append_getLast hne, address, List.map_append, List.map_singleton, ← hlast]
  rfl

end Keys

/-! ## The way to an item -/

section Way

variable {py : Python F} {disk : Disk} {content key value : Text} {c : Config F} {target : Nat}
  {old : Value (Scalar F)} {new : Scalar F}

theorem follow_walk {heap : Heap (Scalar F) (Scalar F)} : ∀ {parts : List Text} {r : Nat},
    walk heap r parts = some target → follow heap (.ref r) (address parts) = some (.ref target)
  | [], _, h => by
    cases h
    rfl
  | part :: parts, r, h => by
    rw [walk] at h
    split at h
    · rename_i x hx
      split at h
      · rw [address, List.map_cons, follow, hx, Option.bind_some]
        exact follow_walk h
      · cases h
    · cases h

namespace Found

variable (h : Found py content key value c target old new)

include h

theorem follow_sections : c.follow (address (sections key)) = some (.ref target) := follow_walk h.walk

theorem follow_address : c.follow (address (split key)) = some old := by
  rw [Config.follow, address_split, follow_concat]
  rw [show follow c.heap (.ref c.root) (address (sections key)) = some (.ref target) from h.follow_sections]
  exact h.item

theorem look_address : c.look (address (split key)) = some (ObjectGraph.look c.heap old) := by
  rw [Config.look, h.follow_address]
  rfl

end Found

/-! ## What a call does -/

theorem configWrite_guarded (h : ∃ k ∈ teKeys, k <+: topLevel key) :
    configWrite py disk content key value = (.teKey, content) := by
  rw [configWrite, if_pos (guard_iff.mpr h)]

theorem configWrite_found (hguard : ¬ ∃ k ∈ teKeys, k <+: topLevel key) (hread : disk.read = none)
    (h : Found py content key value c target old new) : configWrite py disk content key value =
      match disk.write with
      | .refused => (.failed .osError, content)
      | .cut written => (.failed .osError, (py.dump (c.set target (.str (leafName key)) new)).take written)
      | .whole => (.updated old new, py.dump (c.set target (.str (leafName key)) new)) := by
  rw [configWrite, if_neg (fun hg => hguard (guard_iff.mp hg)), hread]
  dsimp only
  rw [h.load]
  dsimp only
  rw [h.walk]
  dsimp only
  rw [h.item]
  dsimp only
  rw [h.convert]

/-- Without an item to assign to there is an error, and the file is not opened. -/
theorem configWrite_not_found (hguard : ¬ ∃ k ∈ teKeys, k <+: topLevel key)
    (h : disk.read = none → ∀ c target old new, ¬ Found py content key value c target old new) :
    (configWrite py disk content key value).1 ≠ .teKey ∧ (configWrite py disk content key value).2 = content := by
  rw [configWrite, if_neg (fun hg => hguard (guard_iff.mp hg))]
  cases hread : disk.read with
  | some failure => exact ⟨by simp, rfl⟩
  | none =>
    cases hload : py.load content with
    | none => exact ⟨by simp, rfl⟩
    | some c =>
      dsimp only
      cases hwalk : walk c.heap c.root (sections key) with
      | none => exact ⟨by simp, rfl⟩
      | some target =>
        dsimp only
        cases hitem : child c.heap (.ref target) (.key (.str (leafName key))) with
        | none => exact ⟨by simp, rfl⟩
        | some old =>
          dsimp only
          cases hconvert : convert py old value with
          | none => exact ⟨by simp, rfl⟩
          | some new => exact absurd ⟨hload, hwalk, hitem, hconvert⟩ (h hread c target old new)

/-! ## The item that is assigned to -/

theorem look_set {p : List (Step (Scalar F))} {k : Scalar F} : (c.set target k new).look p =
    ((c.set target k new).follow p).map (ObjectGraph.look c.heap) :=
  congrArg (Option.map · _) (funext fun _ => look_setItem)

omit [DecidableEq F] in
theorem kind_convert {s : Scalar F} (hconvert : convert py (.leaf s) value = some new) {kind : Kind}
    (hkind : s.kind = some kind) : new.kind = some kind := by
  cases s with
  | bool b => cases hconvert; exact hkind
  | int i =>
    obtain ⟨j, _, rfl⟩ := Option.map_eq_some_iff.mp hconvert
    exact hkind
  | float x =>
    obtain ⟨y, _, rfl⟩ := Option.map_eq_some_iff.mp hconvert
    exact hkind
  | str t => cases hconvert; exact hkind
  | null => cases hkind
  | other t => cases hkind

omit [DecidableEq F] in
/-- What the conversion gives is of a kind. -/
theorem convert_kind (h : convert py old value = some new) : ∃ kind, new.kind = some kind := by
  unfold convert at h
  split at h
  · cases h; exact ⟨_, rfl⟩
  · obtain ⟨i, _, rfl⟩ := Option.map_eq_some_iff.mp h; exact ⟨_, rfl⟩
  · obtain ⟨x, _, rfl⟩ := Option.map_eq_some_iff.mp h; exact ⟨_, rfl⟩
  · cases h; exact ⟨_, rfl⟩

omit [DecidableEq F] in
theorem leaf_of_look {heap : Heap (Scalar F) (Scalar F)} {v : Value (Scalar F)} {s : Scalar F}
    (h : ObjectGraph.look heap v = .scalar s) : v = .leaf s := by
  cases v with
  | leaf s' =>
    cases h
    rfl
  | ref r =>
    rw [ObjectGraph.look] at h
    cases hobject : heap.object r <;> rw [hobject] at h <;> cases h

namespace Found

variable (h : Found py content key value c target old new)

include h

theorem framed_same (hsame : old = .leaf new) : Framed c (c.set target (.str (leafName key)) new) key := by
  intro p
  have hitem := h.item
  rw [hsame] at hitem
  rw [look_set]
  exact .inl (congrArg (Option.map _) (follow_setItem_same hitem _ p))

theorem follow_set_leaf {s : Scalar F} (hold : old = .leaf s) :
    (c.set target (.str (leafName key)) new).follow (address (split key)) = some (.leaf new) := by
  have hitem := h.item
  rw [hold] at hitem
  have hsections : (c.set target (.str (leafName key)) new).follow (address (sections key)) = some (.ref target) :=
    follow_setItem_of_ref hitem _ target h.follow_sections
  rw [Config.follow] at hsections ⊢
  rw [address_split, follow_concat, hsections, Option.bind_some]
  change child (setItem _ _ _ _) _ _ = _
  rw [child_setItem_self, hitem]
  rfl

/-- The frame, where one path alone leads to the section. -/
theorem framed_unique {s : Scalar F} {kind : Kind} (hold : old = .leaf s) (hkind : s.kind = some kind)
    (hunique : ∀ p, c.follow p = some (.ref target) → p = address (sections key)) :
    Framed c (c.set target (.str (leafName key)) new) key := by
  intro p
  have hset := h.follow_set_leaf hold
  have haddress := h.follow_address
  rw [hold] at haddress
  by_cases hprefix : address (split key) <+: p
  · obtain ⟨rest, rfl⟩ := hprefix
    cases rest with
    | nil =>
      rw [List.append_nil, look_set, hset, Config.look, haddress]
      have hconvert := h.convert
      rw [hold] at hconvert
      exact .inr ⟨rfl, s, new, kind, rfl, rfl, hkind, kind_convert hconvert hkind⟩
    | cons step rest =>
      -- there is nothing below a scalar
      rw [Config.follow] at hset haddress
      left
      rw [look_set, Config.look, Config.follow, Config.follow, follow_append, follow_append, hset, haddress]
      rfl
  · left
    rw [look_set]
    refine congrArg (Option.map _) (follow_setItem_of_unique hunique p ?_)
    rwa [← address_split]

/-- The document with the item assigned is right only if the old value was of a
kind, and its section in one place, or nothing changed. -/
theorem of_framed (hframed : Framed c (c.set target (.str (leafName key)) new) key) :
    (∃ s kind, old = .leaf s ∧ s.kind = some kind) ∧
      (old = .leaf new ∨ ∀ p, c.follow p = some (.ref target) → p = address (sections key)) := by
  have hkind : ∃ s kind, old = .leaf s ∧ s.kind = some kind := by
    rcases hframed (address (split key)) with hlook | ⟨_, s, _, kind, hbefore, _, hs, _⟩
    · rw [look_set, h.look_address, Config.follow, address_split] at hlook
      have hset : follow (setItem c.heap target (.str (leafName key)) new) (.ref c.root)
          (address (sections key) ++ [.key (.str (leafName key))]) = some (.leaf new) ∨ _ = none :=
        follow_setItem_item h.follow_sections h.item
      obtain ⟨kind, hnew⟩ := convert_kind h.convert
      rcases hset with hset | hset
      · exact ⟨new, kind, leaf_of_look (Option.some.inj ((congrArg (Option.map _) hset).symm.trans hlook)).symm, hnew⟩
      · exact absurd ((congrArg (Option.map _) hset).symm.trans hlook) (by simp)
    · rw [h.look_address] at hbefore
      exact ⟨s, kind, leaf_of_look (Option.some.inj hbefore), hs⟩
  refine ⟨hkind, ?_⟩
  obtain ⟨s, kind, hold, _⟩ := hkind
  by_cases hsame : old = .leaf new
  · exact .inl hsame
  · refine .inr fun p hp => ?_
    -- the item is seen through the other path too
    have hitem := h.item
    rw [hold] at hitem
    have hstays : (c.set target (.str (leafName key)) new).follow p = some (.ref target) :=
      follow_setItem_of_ref hitem p target hp
    have hbefore : c.look (p ++ [.key (.str (leafName key))]) = some (.scalar s) := by
      rw [Config.follow] at hp
      rw [Config.look, Config.follow, follow_concat, hp, Option.bind_some, hitem]
      rfl
    have hafter : (c.set target (.str (leafName key)) new).look (p ++ [.key (.str (leafName key))]) =
        some (.scalar new) := by
      rw [Config.follow] at hstays
      rw [look_set, Config.follow, follow_concat, hstays, Option.bind_some]
      change (child (setItem _ _ _ _) _ _).map _ = _
      rw [child_setItem_self, hitem]
      rfl
    rcases hframed (p ++ [.key (.str (leafName key))]) with hlook | ⟨haddress, _⟩
    · rw [hbefore, hafter] at hlook
      cases hlook
      exact absurd hold hsame
    · rw [address_split] at haddress
      exact List.append_cancel_right haddress

end Found

/-! ## The frame of a call -/

theorem guarded_of_te (h : topLevel key ∈ teKeys) : ∃ k ∈ teKeys, k <+: topLevel key :=
  ⟨topLevel key, h, List.prefix_rfl⟩

theorem leaf_of_content (hcontent : (configWrite py disk content key value).2 = content) (c : Config F)
    (hload : py.load content = some c) :
    ∃ c', py.load (configWrite py disk content key value).2 = some c' ∧ Framed c c' key :=
  ⟨c, by rw [hcontent, hload], fun _ => .inl rfl⟩

theorem correct_of_unchanged (hte : topLevel key ∉ teKeys)
    (hreply : (configWrite py disk content key value).1 ≠ .teKey)
    (hcontent : (configWrite py disk content key value).2 = content) : Correct py disk content key value :=
  ⟨leaf_of_content hcontent, fun h => absurd h hte, fun _ => hreply, fun _ => hcontent⟩

theorem correct_of_safe (hback : ReadsBack py content key value) (h : Safe py disk content key value) :
    Correct py disk content key value := by
  obtain ⟨hnames, hwrite⟩ := h
  by_cases hguard : ∃ k ∈ teKeys, k <+: topLevel key
  · have hrefused : configWrite py disk content key value = (.teKey, content) := configWrite_guarded hguard
    have hcontent := congrArg Prod.snd hrefused
    exact ⟨leaf_of_content hcontent, fun _ => hrefused, fun hte => absurd (hnames hguard) hte, fun _ => hcontent⟩
  have hte : topLevel key ∉ teKeys := fun hte => hguard (guarded_of_te hte)
  by_cases hfound : disk.read = none ∧ ∃ c target old new, Found py content key value c target old new
  · obtain ⟨hread, c, target, old, new, hfound⟩ := hfound
    have hcall := configWrite_found hguard hread hfound
    have hwrite := hwrite hte hread c target old new hfound
    cases hdisk : disk.write with
    | refused =>
      rw [hdisk] at hcall
      exact correct_of_unchanged hte (by rw [hcall]; simp) (by rw [hcall])
    | cut written =>
      rw [hdisk] at hcall hwrite
      dsimp only at hcall hwrite
      rw [hwrite] at hcall
      exact correct_of_unchanged hte (by rw [hcall]; simp) (by rw [hcall])
    | whole =>
      rw [hdisk] at hcall hwrite
      obtain ⟨⟨s, kind, hold, hkind⟩, hframe⟩ := hwrite
      refine ⟨fun c' hload => ?_, fun h => absurd h hte, fun _ => by rw [hcall]; simp, fun h => ?_⟩
      · obtain rfl : c = c' := Option.some.inj (hfound.load.symm.trans hload)
        obtain ⟨c', hread', hlook⟩ := hback c target old new hfound
        have hframed : Framed c (c.set target (.str (leafName key)) new) key := by
          rcases hframe with hsame | hunique
          · exact hfound.framed_same hsame
          · exact hfound.framed_unique hold hkind hunique
        refine ⟨c', by rw [hcall]; exact hread', fun p => ?_⟩
        rw [hlook]
        exact hframed p
      · rw [hcall] at h
        cases h
  · have hmissing := @configWrite_not_found _ _ py disk content key value hguard
      fun hread c target old new h => hfound ⟨hread, c, target, old, new, h⟩
    exact correct_of_unchanged hte hmissing.1 hmissing.2

theorem safe_of_correct (hback : ReadsBack py content key value) (h : Correct py disk content key value) :
    Safe py disk content key value := by
  constructor
  · intro hguard
    by_contra hte
    exact h.ae hte (by rw [configWrite_guarded hguard])
  · intro hte hread c target old new hfound
    have hguard : ¬ ∃ k ∈ teKeys, k <+: topLevel key := fun hguard => h.ae hte (by rw [configWrite_guarded hguard])
    have hcall := configWrite_found hguard hread hfound
    cases hdisk : disk.write with
    | refused => trivial
    | cut written =>
      rw [hdisk] at hcall
      have hcontent := h.unchanged (by rw [hcall]; rfl)
      rwa [hcall] at hcontent
    | whole =>
      rw [hdisk] at hcall
      obtain ⟨c', hload, hframed⟩ := h.leaf c hfound.load
      obtain ⟨c'', hread', hlook⟩ := hback c target old new hfound
      rw [hcall] at hload
      obtain rfl : c'' = c' := Option.some.inj (hread'.symm.trans hload)
      refine hfound.of_framed fun p => ?_
      rw [← hlook]
      exact hframed p

/-- **One leaf and nothing else** changes exactly in the calls that are
`Safe`: not where the name of a setting begins with that of a TE key, not
where a section, a list, a date or nothing is assigned to, not where a
section is in two places, and not where a write fails after the file is
emptied. -/
theorem correct_iff (hback : ReadsBack py content key value) :
    Correct py disk content key value ↔ Safe py disk content key value :=
  ⟨safe_of_correct hback, correct_of_safe hback⟩

/-- There is one item to find. -/
theorem Found.unique {c' : Config F} {target' : Nat} {old' : Value (Scalar F)} {new' : Scalar F}
    (h : Found py content key value c target old new) (h' : Found py content key value c' target' old' new') :
    c = c' ∧ target = target' ∧ old = old' ∧ new = new' := by
  obtain rfl : c = c' := Option.some.inj (h.load.symm.trans h'.load)
  obtain rfl : target = target' := Option.some.inj (h.walk.symm.trans h'.walk)
  obtain rfl : old = old' := Option.some.inj (h.item.symm.trans h'.item)
  exact ⟨rfl, rfl, rfl, Option.some.inj (h.convert.symm.trans h'.convert)⟩

theorem readsBack_of_found (h : Found py content key value c target old new)
    (hload : py.load (py.dump (c.set target (.str (leafName key)) new)) =
      some (c.set target (.str (leafName key)) new)) : ReadsBack py content key value := by
  intro c' target' old' new' h'
  obtain ⟨rfl, rfl, rfl, rfl⟩ := h.unique h'
  exact ⟨_, hload, fun _ => rfl⟩

end Way

/-! ## A file -/

def fileText : Text := "tuning:\n  batch_size: 50\n".toList

def tuning (batchSize : Int) : Config Unit where
  heap := [.dict [(.str "tuning".toList, .ref 1)],
    .dict [(.str "batch_size".toList, .leaf (.int batchSize))]]
  root := 0
  mapping := rfl

def overwritten : Config Unit := (tuning 50).set 0 (.str "tuning".toList) (.str "fast".toList)

/-- Reads and writes that file and what becomes of it. -/
def yaml : Python Unit where
  load text :=
    if text = fileText then some (tuning 50)
    else if text = "tuning:\n  batch_size: 100\n".toList then some (tuning 100)
    else if text = "tuning: fast\n".toList then some overwritten
    else none
  dump c :=
    if c.heap = (tuning 100).heap then "tuning:\n  batch_size: 100\n".toList
    else if c.heap = overwritten.heap then "tuning: fast\n".toList
    else fileText
  int text := if text = "100".toList then some 100 else none
  float _ := none

def disk : Disk := ⟨none, .whole⟩

theorem found_batchSize : Found yaml fileText "tuning.batch_size".toList "100".toList (tuning 50) 1 (.leaf (.int 50))
    (.int 100) :=
  ⟨rfl, rfl, rfl, rfl⟩

theorem child_root {s : Step (Scalar Unit)} {v : Value (Scalar Unit)}
    (h : child (tuning 50).heap (.ref 0) s = some v) : s = .key (.str "tuning".toList) ∧ v = .ref 1 := by
  cases s with
  | key k =>
    change ([(Scalar.str "tuning".toList, Value.ref 1)].lookup k) = some v at h
    rw [List.lookup_cons] at h
    split at h
    · rename_i hk
      cases h
      exact ⟨congrArg _ (eq_of_beq hk), rfl⟩
    · cases h
  | index i => cases h

theorem child_tuning {s : Step (Scalar Unit)} {v : Value (Scalar Unit)}
    (h : child (tuning 50).heap (.ref 1) s = some v) : v = .leaf (.int 50) := by
  cases s with
  | key k =>
    change ([(Scalar.str "batch_size".toList, Value.leaf (Scalar.int 50))].lookup k) = some v at h
    rw [List.lookup_cons] at h
    split at h <;> cases h
    rfl
  | index i => cases h

/-- One path leads to the section. -/
theorem tuning_path : ∀ p, (tuning 50).follow p = some (.ref 1) → p = [.key (.str "tuning".toList)]
  | [], h => by cases h
  | [s], h => by
    obtain ⟨v, hv, _⟩ := Option.bind_eq_some_iff.mp h
    rw [(child_root hv).1]
  | s :: s' :: p, h => by
    obtain ⟨v, hv, h⟩ := Option.bind_eq_some_iff.mp h
    obtain ⟨_, rfl⟩ := child_root hv
    obtain ⟨w, hw, h⟩ := Option.bind_eq_some_iff.mp h
    rw [child_tuning hw] at h
    cases p <;> cases h

theorem batchSize_written : Correct yaml disk fileText "tuning.batch_size".toList "100".toList := by
  refine (correct_iff (readsBack_of_found found_batchSize rfl)).mpr ⟨by decide, ?_⟩
  intro _ _ c target old new h
  obtain ⟨rfl, rfl, rfl, rfl⟩ := found_batchSize.unique h
  exact ⟨⟨.int 50, .int, rfl, rfl⟩, .inr tuning_path⟩

theorem found_tuning : Found yaml fileText "tuning".toList "fast".toList (tuning 50) 0 (.ref 1)
    (.str "fast".toList) :=
  ⟨rfl, rfl, rfl, rfl⟩

/-- A section becomes a string. -/
theorem section_overwritten : ReadsBack yaml fileText "tuning".toList "fast".toList ∧
    ¬ Correct yaml disk fileText "tuning".toList "fast".toList := by
  have hback := readsBack_of_found found_tuning rfl
  refine ⟨hback, fun h => ?_⟩
  have hwrite := (safe_of_correct hback h).2 (by decide) rfl _ _ _ _ found_tuning
  obtain ⟨⟨s, kind, hold, _⟩, _⟩ := hwrite
  cases hold

end ContextBroker.ConfigWrite
