import ContextBroker.L8Operations.ConfigWrite
import Mathlib.Data.List.Infix

/-!
# Redaction

`_redact_config` copies the configuration, drops its top-level `credentials` and
walks the rest: what is stored under a key that matches the pattern is replaced if
it is true, anything else is walked if it is a mapping or a list.

A document is a tree; `alias` is a reference to a mapping or a list that the place
is in, which YAML allows. The walk goes round there until Python's stack ends; that
it may end in a tree that is deep enough is not modelled. A mapping is a list of
items, and two mappings with the same items in another order are alike.

`redaction_iff`: the redacted configuration exists and does not depend on what is
hidden, exactly if the walk meets only strings as keys and no `alias`.
`re.search` raises for a key that is no string.
-/
namespace ContextBroker.Redaction

open ConfigWrite (Scalar)

/-! ## Documents -/

/-- `alias n` is the container `n` levels above the one the value is in. -/
inductive Yaml (F : Type) where
  | scalar (s : Scalar F)
  | seq (items : List (Yaml F))
  | map (items : List (Scalar F × Yaml F))
  | alias (n : Nat)

variable {F : Type} [DecidableEq F] [Zero F]

/-- `bool(value)`; a date is true, and so are bytes that are not empty. -/
def scalarTrue : Scalar F → Bool
  | .bool b => b
  | .int i => i != 0
  | .float x => x != 0
  | .str t => t != []
  | .null => false
  | .other text => text != []

/-- What an alias refers to is not empty. -/
def Yaml.isTrue : Yaml F → Bool
  | .scalar s => scalarTrue s
  | .seq items => !items.isEmpty
  | .map items => !items.isEmpty
  | .alias _ => true

/-! ## The walk -/

/-- `re.IGNORECASE`, as far as the pattern's letters go: the long s, the Kelvin
sign and the Turkish letters are matched too. -/
def foldCase (c : Char) : Char :=
  if c = '\u017f' then 's'
  else if c = '\u212a' then 'k'
  else if c = '\u0130' ∨ c = '\u0131' then 'i'
  else c.toLower

/-- `re.compile(r"(api_key|secret|_token|password)", re.IGNORECASE)` -/
def secretWords : List Text :=
  ["api_key".toList, "secret".toList, "_token".toList, "password".toList]

def isSecretKey (key : Text) : Bool := secretWords.any fun word => decide (word <:+: key.map foldCase)

def redactedText : Text := "***REDACTED***".toList

/-- What leaves the function. -/
inductive RedactError where
  | typeError | attributeError | recursionError
  deriving DecidableEq, Repr

mutual

/-- mirrors admin.py:33-43 -/
def walk : Yaml F → Except RedactError (Yaml F)
  | .map items => (walkItems items).map .map
  | .seq items => (walkList items).map .seq
  | .scalar s => .ok (.scalar s)
  | .alias _ => .error .recursionError

def walkItems : List (Scalar F × Yaml F) → Except RedactError (List (Scalar F × Yaml F))
  | [] => .ok []
  | (k, v) :: rest =>
    match k with
    | .str key =>
      (if isSecretKey key && v.isTrue then .ok (.scalar (.str redactedText)) else walk v).bind fun v' =>
        (walkItems rest).map ((k, v') :: ·)
    | _ => .error .typeError

def walkList : List (Yaml F) → Except RedactError (List (Yaml F))
  | [] => .ok []
  | v :: rest => (walk v).bind fun v' => (walkList rest).map (v' :: ·)

end

/-- `redacted.pop("credentials", None)` -/
def popCredentials (items : List (Scalar F × Yaml F)) : List (Scalar F × Yaml F) :=
  items.filter fun item => item.1 ≠ .str "credentials".toList

/-- A list has a `pop` that takes one argument. mirrors admin.py:20-46 -/
def redactConfig : Yaml F → Except RedactError (Yaml F)
  | .map items => walk (.map (popCredentials items))
  | .seq _ => .error .typeError
  | .scalar _ | .alias _ => .error .attributeError

/-! ## What is hidden, and what is reached -/

/-- A non-empty value under a secret key. -/
def Hidden (k : Scalar F) (v : Yaml F) : Prop := ∃ key, k = .str key ∧ isSecretKey key = true ∧ v.isTrue = true

section Alike

variable (hidden : Scalar F → Yaml F → Prop)

mutual

/-- The two values are equal but for hidden values at the same places. -/
def Alike : Yaml F → Yaml F → Prop
  | .scalar s, .scalar s' => s = s'
  | .alias n, .alias n' => n = n'
  | .seq items, .seq items' => AlikeList items items'
  | .map items, .map items' => ∃ sorted, sorted.Perm items' ∧ AlikeItems items sorted
  | _, _ => False

def AlikeItems : List (Scalar F × Yaml F) → List (Scalar F × Yaml F) → Prop
  | [], [] => True
  | (k, v) :: rest, (k', v') :: rest' => k = k' ∧ (hidden k v ∧ hidden k v' ∨ Alike v v') ∧ AlikeItems rest rest'
  | _, _ => False

def AlikeList : List (Yaml F) → List (Yaml F) → Prop
  | [], [] => True
  | v :: rest, v' :: rest' => Alike v v' ∧ AlikeList rest rest'
  | _, _ => False

end

end Alike

/-- Python's `==`. -/
def Same : Yaml F → Yaml F → Prop := Alike fun _ _ => False

def withoutCredentials : Yaml F → Yaml F
  | .map items => .map (popCredentials items)
  | v => v

/-- Equal but for the credentials and hidden values. -/
def SameButSecrets (c c' : Yaml F) : Prop := Alike Hidden (withoutCredentials c) (withoutCredentials c')

/-- `w` is in `v`, and not in a hidden value. -/
inductive Reaches : Yaml F → Yaml F → Prop where
  | here (v : Yaml F) : Reaches v v
  | item {items : List (Yaml F)} {v w : Yaml F} : v ∈ items → Reaches v w → Reaches (.seq items) w
  | value {items : List (Scalar F × Yaml F)} {k : Scalar F} {v w : Yaml F} :
    (k, v) ∈ items → ¬ Hidden k v → Reaches v w → Reaches (.map items) w

/-- A mapping has strings as keys, and it is no alias. -/
def Plain : Yaml F → Prop
  | .map items => ∀ item ∈ items, ∃ key, item.1 = .str key
  | .alias _ => False
  | .seq _ | .scalar _ => True

/-- A mapping whose keys are strings wherever it is not hidden. -/
def Redactable (c : Yaml F) : Prop :=
  (∃ items, c = .map items) ∧ ∀ v, Reaches (withoutCredentials c) v → Plain v

/-! ## What the walk does -/

section Walk

variable {k : Scalar F} {v v' w r : Yaml F} {items items' rest : List (Scalar F × Yaml F)}

/-- One item of a mapping. -/
def Redacts (k : Scalar F) (v v' : Yaml F) : Prop :=
  (∃ key, k = .str key) ∧
    (Hidden k v ∧ v' = .scalar (.str redactedText) ∨ ¬ Hidden k v ∧ walk v = .ok v')

theorem except_bind_ok {α β E : Type} {x : Except E α} {f : α → Except E β} {b : β} :
    x.bind f = .ok b ↔ ∃ a, x = .ok a ∧ f a = .ok b := by
  cases x <;> simp [Except.bind]

theorem except_map_ok {α β E : Type} {x : Except E α} {f : α → β} {b : β} :
    x.map f = .ok b ↔ ∃ a, x = .ok a ∧ f a = b := by
  cases x <;> simp [Except.map]

theorem hidden_iff {key : Text} : Hidden (.str key) v ↔ (isSecretKey key && v.isTrue) = true := by
  simp [Hidden]

theorem walkItems_cons {out : List (Scalar F × Yaml F)} : walkItems ((k, v) :: rest) = .ok out ↔
    ∃ v' rest', Redacts k v v' ∧ walkItems rest = .ok rest' ∧ out = (k, v') :: rest' := by
  cases k with
  | str key =>
    have hvalue : ∀ v', (if (isSecretKey key && v.isTrue) = true then .ok (.scalar (.str redactedText)) else walk v) =
        Except.ok v' ↔ Redacts (.str key) v v' := by
      intro v'
      unfold Redacts
      rw [hidden_iff]
      split <;> simp [*, eq_comm]
    simp only [walkItems, except_bind_ok, except_map_ok, hvalue]
    constructor
    · rintro ⟨v', hv', rest', hrest, rfl⟩
      exact ⟨v', rest', hv', hrest, rfl⟩
    · rintro ⟨v', rest', hv', hrest, rfl⟩
      exact ⟨v', hv', rest', hrest, rfl⟩
  | _ => simp [walkItems, Redacts]

theorem walkList_cons {out rest : List (Yaml F)} : walkList (v :: rest) = .ok out ↔
    ∃ v' rest', walk v = .ok v' ∧ walkList rest = .ok rest' ∧ out = v' :: rest' := by
  rw [walkList]
  simp only [except_bind_ok, except_map_ok]
  constructor
  · rintro ⟨v', hv', rest', hrest, rfl⟩
    exact ⟨v', rest', hv', hrest, rfl⟩
  · rintro ⟨v', rest', hv', hrest, rfl⟩
    exact ⟨v', hv', rest', hrest, rfl⟩

/-! ### When it returns -/

theorem reaches_map : Reaches (.map items) w ↔
    w = .map items ∨ ∃ item ∈ items, ¬ Hidden item.1 item.2 ∧ Reaches item.2 w := by
  constructor
  · intro h
    cases h with
    | here => exact .inl rfl
    | value hmem hopen hreach => exact .inr ⟨_, hmem, hopen, hreach⟩
  · rintro (rfl | ⟨item, hmem, hopen, hreach⟩)
    · exact .here _
    · exact .value hmem hopen hreach

theorem reaches_seq {items : List (Yaml F)} : Reaches (.seq items) w ↔
    w = .seq items ∨ ∃ v ∈ items, Reaches v w := by
  constructor
  · intro h
    cases h with
    | here => exact .inl rfl
    | item hmem hreach => exact .inr ⟨_, hmem, hreach⟩
  · rintro (rfl | ⟨v, hmem, hreach⟩)
    · exact .here _
    · exact .item hmem hreach

mutual

/-- The walk returns if all it reaches is plain. -/
theorem walk_ok_iff : ∀ v : Yaml F, (∃ r, walk v = .ok r) ↔ ∀ w, Reaches v w → Plain w
  | .scalar s => by
    refine iff_of_true ⟨_, rfl⟩ fun w h => ?_
    cases h
    trivial
  | .alias n => iff_of_false (fun ⟨_, h⟩ => nomatch h) fun h => h _ (.here _)
  | .seq items => by
    simp only [walk, except_map_ok, reaches_seq]
    have hitems := walkList_ok_iff items
    constructor
    · rintro ⟨_, out, hout, _⟩ w (rfl | ⟨v, hv, hreach⟩)
      · trivial
      · exact hitems.mp ⟨out, hout⟩ v hv w hreach
    · intro h
      obtain ⟨out, hout⟩ := hitems.mpr fun v hv w hreach => h w (.inr ⟨v, hv, hreach⟩)
      exact ⟨_, out, hout, rfl⟩
  | .map items => by
    simp only [walk, except_map_ok, reaches_map]
    have hitems := walkItems_ok_iff items
    constructor
    · rintro ⟨_, out, hout, _⟩ w (rfl | ⟨item, hmem, hopen, hreach⟩)
      · exact fun item hmem => (hitems.mp ⟨out, hout⟩ item hmem).1
      · exact (hitems.mp ⟨out, hout⟩ item hmem).2 hopen w hreach
    · intro h
      obtain ⟨out, hout⟩ := hitems.mpr fun item hmem =>
        ⟨h _ (.inl rfl) item hmem, fun hopen w hreach => h w (.inr ⟨item, hmem, hopen, hreach⟩)⟩
      exact ⟨_, out, hout, rfl⟩

theorem walkItems_ok_iff : ∀ items : List (Scalar F × Yaml F), (∃ out, walkItems items = .ok out) ↔
    ∀ item ∈ items, (∃ key, item.1 = .str key) ∧ (¬ Hidden item.1 item.2 → ∀ w, Reaches item.2 w → Plain w)
  | [] => by simp [walkItems]
  | (k, v) :: rest => by
    have hv := walk_ok_iff v
    rw [List.forall_mem_cons, ← walkItems_ok_iff rest]
    dsimp only
    rw [← hv]
    constructor
    · rintro ⟨out, hout⟩
      obtain ⟨v', rest', ⟨hkey, hvalue⟩, hrest, _⟩ := walkItems_cons.mp hout
      exact ⟨⟨hkey, fun hopen => ⟨v', (hvalue.resolve_left fun h => hopen h.1).2⟩⟩, rest', hrest⟩
    · rintro ⟨⟨hkey, hopen⟩, rest', hrest⟩
      by_cases hhidden : Hidden k v
      · exact ⟨_, walkItems_cons.mpr ⟨_, rest', ⟨hkey, .inl ⟨hhidden, rfl⟩⟩, hrest, rfl⟩⟩
      · obtain ⟨v', hv'⟩ := hopen hhidden
        exact ⟨_, walkItems_cons.mpr ⟨v', rest', ⟨hkey, .inr ⟨hhidden, hv'⟩⟩, hrest, rfl⟩⟩

theorem walkList_ok_iff : ∀ items : List (Yaml F), (∃ out, walkList items = .ok out) ↔
    ∀ v ∈ items, ∀ w, Reaches v w → Plain w
  | [] => by simp [walkList]
  | v :: rest => by
    rw [List.forall_mem_cons, ← walkList_ok_iff rest, ← walk_ok_iff v]
    constructor
    · rintro ⟨out, hout⟩
      obtain ⟨v', rest', hv', hrest, _⟩ := walkList_cons.mp hout
      exact ⟨⟨v', hv'⟩, rest', hrest⟩
    · rintro ⟨⟨v', hv'⟩, rest', hrest⟩
      exact ⟨_, walkList_cons.mpr ⟨v', rest', hv', hrest, rfl⟩⟩

end

/-! ### What it depends on -/

/-- The order of the items. -/
theorem walkItems_perm (h : items.Perm items') : ∀ {out : List (Scalar F × Yaml F)}, walkItems items = .ok out →
    ∃ out', walkItems items' = .ok out' ∧ out.Perm out' := by
  induction h with
  | nil => exact fun hout => ⟨_, hout, .refl _⟩
  | @cons item _ _ _ ih =>
    intro out hout
    obtain ⟨v', rest', hitem, hrest, rfl⟩ := walkItems_cons.mp hout
    obtain ⟨rest'', hrest'', hperm⟩ := ih hrest
    exact ⟨_, walkItems_cons.mpr ⟨v', rest'', hitem, hrest'', rfl⟩, hperm.cons _⟩
  | swap a b l =>
    intro out hout
    obtain ⟨v', _, hb, hboth, rfl⟩ := walkItems_cons.mp hout
    obtain ⟨w', rest', ha, hrest, rfl⟩ := walkItems_cons.mp hboth
    exact ⟨_, walkItems_cons.mpr ⟨w', _, ha, walkItems_cons.mpr ⟨v', rest', hb, hrest, rfl⟩, rfl⟩, .swap _ _ _⟩
  | trans _ _ ih ih' =>
    intro out hout
    obtain ⟨out', hout', hperm⟩ := ih hout
    obtain ⟨out'', hout'', hperm'⟩ := ih' hout'
    exact ⟨out'', hout'', hperm.trans hperm'⟩

omit [DecidableEq F] [Zero F] in
theorem alikeItems_length {hidden : Scalar F → Yaml F → Prop} : ∀ {items items' : List (Scalar F × Yaml F)},
    AlikeItems hidden items items' → items.length = items'.length
  | [], [], _ => rfl
  | (_, _) :: _, (_, _) :: _, h => congrArg (· + 1) (alikeItems_length h.2.2)

omit [DecidableEq F] [Zero F] in
theorem alikeList_length {hidden : Scalar F → Yaml F → Prop} : ∀ {items items' : List (Yaml F)},
    AlikeList hidden items items' → items.length = items'.length
  | [], [], _ => rfl
  | _ :: _, _ :: _, h => congrArg (· + 1) (alikeList_length h.2)

theorem isEmpty_of_length {α β : Type} {l : List α} {l' : List β} (h : l.length = l'.length) :
    l.isEmpty = l'.isEmpty := by
  cases l <;> cases l' <;> first | rfl | cases h

theorem Alike.isTrue {hidden : Scalar F → Yaml F → Prop} : ∀ {v v' : Yaml F}, Alike hidden v v' → v.isTrue = v'.isTrue
  | .scalar _, .scalar _, h => congrArg scalarTrue h
  | .alias _, .alias _, _ => rfl
  | .seq _, .seq _, h => congrArg (!·) (isEmpty_of_length (alikeList_length h))
  | .map _, .map _, ⟨_, hperm, h⟩ => congrArg (!·) (isEmpty_of_length ((alikeItems_length h).trans hperm.length_eq))

/-- Values at the same key are hidden together. -/
theorem Alike.hidden_iff (h : Alike Hidden v v') : Hidden k v ↔ Hidden k v' := by
  unfold Hidden
  rw [h.isTrue]

mutual

/-- **Noninterference**: alike values are redacted to the same. -/
theorem walk_alike : ∀ {v v' r : Yaml F}, Alike Hidden v v' → walk v = .ok r → ∃ r', walk v' = .ok r' ∧ Same r r'
  | .scalar s, .scalar _, _, h, hr => by
    obtain rfl : s = _ := h
    exact ⟨_, hr, by cases hr; rfl⟩
  | .alias _, .alias _, _, _, hr => nomatch hr
  | .seq items, .seq items', _, h, hr => by
    obtain ⟨out, hout, rfl⟩ := except_map_ok.mp hr
    obtain ⟨out', hout', hsame⟩ := walkList_alike h hout
    exact ⟨_, except_map_ok.mpr ⟨out', hout', rfl⟩, hsame⟩
  | .map items, .map items', _, ⟨sorted, hperm, h⟩, hr => by
    obtain ⟨out, hout, rfl⟩ := except_map_ok.mp hr
    obtain ⟨out', hout', hsame⟩ := walkItems_alike h hout
    obtain ⟨out'', hout'', hperm'⟩ := walkItems_perm hperm hout'
    exact ⟨_, except_map_ok.mpr ⟨out'', hout'', rfl⟩, out', hperm', hsame⟩

theorem walkItems_alike : ∀ {items items' out : List (Scalar F × Yaml F)}, AlikeItems Hidden items items' →
    walkItems items = .ok out →
    ∃ out', walkItems items' = .ok out' ∧ AlikeItems (fun _ _ => False) out out'
  | [], [], _, _, hout => by
    cases hout
    exact ⟨[], rfl, trivial⟩
  | (k, v) :: rest, (_, v') :: rest', _, ⟨hk, hvalue, hrest⟩, hout => by
    subst hk
    obtain ⟨r, out, ⟨hkey, hredacts⟩, htail, rfl⟩ := walkItems_cons.mp hout
    obtain ⟨out', hout', hsame⟩ := walkItems_alike hrest htail
    have hitem : ∃ r', Redacts k v' r' ∧ Same r r' := by
      rcases hvalue with ⟨hv, hv'⟩ | halike
      · obtain rfl := (hredacts.resolve_right fun h => h.1 hv).2
        exact ⟨_, ⟨hkey, .inl ⟨hv', rfl⟩⟩, rfl⟩
      · rcases hredacts with ⟨hv, rfl⟩ | ⟨hopen, hr⟩
        · exact ⟨_, ⟨hkey, .inl ⟨halike.hidden_iff.mp hv, rfl⟩⟩, rfl⟩
        · obtain ⟨r', hr', hsame'⟩ := walk_alike halike hr
          exact ⟨r', ⟨hkey, .inr ⟨fun h => hopen (halike.hidden_iff.mpr h), hr'⟩⟩, hsame'⟩
    obtain ⟨r', hr', hsame'⟩ := hitem
    exact ⟨_, walkItems_cons.mpr ⟨r', out', hr', hout', rfl⟩, rfl, .inr hsame', hsame⟩

theorem walkList_alike : ∀ {items items' out : List (Yaml F)}, AlikeList Hidden items items' →
    walkList items = .ok out → ∃ out', walkList items' = .ok out' ∧ AlikeList (fun _ _ => False) out out'
  | [], [], _, _, hout => by
    cases hout
    exact ⟨[], rfl, trivial⟩
  | v :: rest, v' :: rest', _, ⟨hv, hrest⟩, hout => by
    obtain ⟨r, out, hr, htail, rfl⟩ := walkList_cons.mp hout
    obtain ⟨r', hr', hsame⟩ := walk_alike hv hr
    obtain ⟨out', hout', hsames⟩ := walkList_alike hrest htail
    exact ⟨_, walkList_cons.mpr ⟨r', out', hr', hout', rfl⟩, hsame, hsames⟩

end

end Walk

/-! ## The tool -/

section Tool

variable {c c' r : Yaml F}

theorem redactConfig_ok : redactConfig c = .ok r ↔
    (∃ items, c = .map items) ∧ walk (withoutCredentials c) = .ok r := by
  cases c <;> simp [redactConfig, withoutCredentials]

/-- Both are mappings, or neither is. -/
theorem SameButSecrets.mapping (h : SameButSecrets c c') (hc : ∃ items, c = .map items) : ∃ items, c' = .map items := by
  obtain ⟨items, rfl⟩ := hc
  cases c' with
  | map items' => exact ⟨items', rfl⟩
  | _ => exact h.elim

/-- **Redaction** returns, and returns the same for every configuration that differs
in secrets only, exactly if the configuration is redactable. -/
theorem redaction_iff (c : Yaml F) :
    (∃ r, redactConfig c = .ok r ∧
      ∀ c', SameButSecrets c c' → ∃ r', redactConfig c' = .ok r' ∧ Same r r') ↔ Redactable c := by
  unfold Redactable
  rw [← walk_ok_iff]
  constructor
  · rintro ⟨r, hr, _⟩
    obtain ⟨hc, hwalk⟩ := redactConfig_ok.mp hr
    exact ⟨hc, r, hwalk⟩
  · rintro ⟨hc, r, hwalk⟩
    refine ⟨r, redactConfig_ok.mpr ⟨hc, hwalk⟩, fun c' hsame => ?_⟩
    obtain ⟨r', hr', heq⟩ := walk_alike hsame hwalk
    exact ⟨r', redactConfig_ok.mpr ⟨hsame.mapping hc, hr'⟩, heq⟩

end Tool

def numberedTiers : List (Scalar Int × Yaml Int) := [(.int 1, .scalar (.str "a".toList))]

/-- `tiers: {1: a}` -/
def numberedConfig : Yaml Int := .map [(.str "tiers".toList, .map numberedTiers)]

/-- A key that is a number ends it with an exception. -/
theorem numbered_not_redacted : ¬ ∀ c : Yaml Int, ∃ r, redactConfig c = .ok r ∧
    ∀ c', SameButSecrets c c' → ∃ r', redactConfig c' = .ok r' ∧ Same r r' := by
  intro h
  obtain ⟨r, hr, _⟩ := h numberedConfig
  have hplain := (walk_ok_iff _).mp ⟨r, (redactConfig_ok.mp hr).2⟩
  have hkept : (Scalar.str "tiers".toList, Yaml.map numberedTiers) ∈
      popCredentials [(Scalar.str "tiers".toList, Yaml.map numberedTiers)] :=
    List.mem_filter.mpr ⟨List.mem_singleton_self _, by simp⟩
  have hopen : ¬ Hidden (.str "tiers".toList) (.map numberedTiers) := by
    rintro ⟨key, hkey, hsecret, _⟩
    obtain rfl := Scalar.str.inj hkey
    exact absurd hsecret (by decide)
  obtain ⟨key, hkey⟩ := hplain _ (.value hkept hopen (.here _)) _ (List.mem_singleton_self _)
  cases hkey

end ContextBroker.Redaction
