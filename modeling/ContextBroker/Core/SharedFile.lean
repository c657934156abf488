import ContextBroker.Core.LTS
import Mathlib.Logic.Function.Basic

/-!
# A file that is read and rewritten

Jobs read a file to its end in pieces, and may then open it for writing, which empties
it, and write a new text in pieces, each at its own place in the file. Nothing keeps
the jobs apart.

`kept` is the rule for what the rewritten texts hold: if no job opens the file for
writing unless it still is what the job read, and nobody else has it open, and no
job opens it while it is written, then what a finished job has put there stays,
and what is read is a whole version of the file.
-/
namespace ContextBroker.SharedFile

open LTS

variable {ι α : Type}

inductive Phase (α : Type) where
  | idle
  /-- It is at the end of the text; `since` is the version at its opening. -/
  | reading (since : Nat) (text : List α)
  | read (since : Nat) (text : List α)
  /-- What was read, what is to be written, and how much of it is. -/
  | writing (text new : List α) (written : Nat)
  | done (text : List α)
  | failed
  deriving DecidableEq, Repr

def Phase.isReading : Phase α → Bool
  | .reading _ _ => true
  | _ => false

def Phase.isWriting : Phase α → Bool
  | .writing _ _ _ => true
  | _ => false

/-- `versions` is a ghost: the whole texts that the file has been. -/
structure State (ι α : Type) where
  file : List α
  versions : List (List α)
  phase : ι → Phase α

inductive Label (ι : Type) where
  | openRead (i : ι)
  | readPiece (i : ι) (n : Nat)
  | closeRead (i : ι)
  | openWrite (i : ι)
  | writePiece (i : ι) (n : Nat)
  | closeWrite (i : ι)
  /-- A write fails, and what is written so far stays. -/
  | fail (i : ι)
  deriving DecidableEq, Repr

/-- The piece comes at its place; a gap before it is filled. -/
def overwrite (fill : α) (file : List α) (place : Nat) (piece : List α) : List α :=
  (file ++ List.replicate (place - file.length) fill).take place ++ piece ++ file.drop (place + piece.length)

def start (file : List α) : State ι α := ⟨file, [file], fun _ => .idle⟩

variable [DecidableEq ι]

def State.set (s : State ι α) (i : ι) (p : Phase α) : State ι α := { s with phase := Function.update s.phase i p }

/-- `change i text` is what `i` writes after it read `text`, if it does. -/
def step (fill : α) (change : ι → List α → Option (List α)) (s : State ι α) : Label ι → Option (State ι α)
  | .openRead i =>
    match s.phase i with
    | .idle => some (s.set i (.reading (s.versions.length - 1) []))
    | _ => none
  | .readPiece i n =>
    match s.phase i with
    | .reading since text => some (s.set i (.reading since (text ++ (s.file.drop text.length).take n)))
    | _ => none
  | .closeRead i =>
    match s.phase i with
    | .reading since text => if s.file.length ≤ text.length then some (s.set i (.read since text)) else none
    | _ => none
  | .openWrite i =>
    match s.phase i with
    | .read _ text => (change i text).map fun new => { s.set i (.writing text new 0) with file := [] }
    | _ => none
  | .writePiece i n =>
    match s.phase i with
    | .writing text new written =>
      if written + n ≤ new.length then
        some { s.set i (.writing text new (written + n)) with
          file := overwrite fill s.file written ((new.drop written).take n) }
      else none
    | _ => none
  | .closeWrite i =>
    match s.phase i with
    | .writing text new written =>
      if written = new.length then some { s.set i (.done text) with versions := s.versions ++ [new] } else none
    | _ => none
  | .fail i =>
    match s.phase i with
    | .writing _ _ _ => some (s.set i .failed)
    | _ => none

/-- The step meets no other job. `Fit` is what else the rewriting needs of the text. -/
def Alone (Fit : ι → List α → Prop) (s : State ι α) : Label ι → Prop
  | .openRead _ => ∀ j, (s.phase j).isWriting = false
  | .openWrite i => (∀ j, (s.phase j).isWriting = false ∧ (s.phase j).isReading = false) ∧
    ∀ since text, s.phase i = .read since text → text = s.file ∧ Fit i text
  | .fail _ => False
  | .readPiece _ _ | .closeRead _ | .writePiece _ _ | .closeWrite _ => True

/-! ## Pieces -/

/-- Pieces that follow one another make up the text. -/
theorem overwrite_take (fill : α) (new : List α) {written n : Nat} (h : written + n ≤ new.length) :
    overwrite fill (new.take written) written ((new.drop written).take n) = new.take (written + n) := by
  have hlength : (new.take written).length = written := List.length_take_of_le (by omega)
  have hrest : (new.take written).drop (written + ((new.drop written).take n).length) = [] :=
    List.drop_eq_nil_of_le (by omega)
  rw [overwrite, hrest, hlength, Nat.sub_self, List.replicate_zero, List.append_nil, List.append_nil, List.take_take,
    Nat.min_self, List.take_add]

theorem append_piece {file text : List α} (h : text <+: file) (n : Nat) :
    text ++ (file.drop text.length).take n <+: file := by
  obtain ⟨rest, rfl⟩ := h
  rw [List.drop_left, List.prefix_append_right_inj]
  exact List.take_prefix n rest

theorem last_mem_drop {versions : List (List α)} {v : List α} {since : Nat} (hlast : versions.getLast? = some v)
    (hsince : since < versions.length) : v ∈ versions.drop since := by
  obtain ⟨front, rfl⟩ := List.getLast?_eq_some_iff.mp hlast
  rw [List.length_append, List.length_singleton] at hsince
  rw [List.drop_append_of_le_length (by omega)]
  exact List.mem_append_right _ (List.mem_singleton_self v)

/-! ## One step -/

section

variable {fill : α} {change : ι → List α → Option (List α)} {Fit : ι → List α → Prop}
  {Holds : ι → List α → List α → Prop} {s s' : State ι α} {i j : ι} {p : Phase α}

@[simp] theorem set_phase_self : (s.set i p).phase i = p := by
  rw [State.set]
  exact Function.update_self ..

@[simp] theorem set_phase_of_ne (h : j ≠ i) : (s.set i p).phase j = s.phase j := by
  rw [State.set]
  exact Function.update_of_ne h ..

@[simp] theorem set_file : (s.set i p).file = s.file := rfl

@[simp] theorem set_versions : (s.set i p).versions = s.versions := rfl

/-- Nobody has the file open for writing. -/
def Quiet (s : State ι α) : Prop := ∀ j, (s.phase j).isWriting = false

theorem quiet_set (hp : p.isWriting = false) (h : ∀ j, j ≠ i → (s.phase j).isWriting = false) : Quiet (s.set i p) := by
  intro j
  by_cases hj : j = i
  · rw [hj, set_phase_self]
    exact hp
  · rw [set_phase_of_ne hj]
    exact h j hj

/-- What holds of a run in which the jobs do not meet: whoever writes has read the last
version, and writes alone; and the last version holds what the finished jobs have put
in. -/
structure Inv (change : ι → List α → Option (List α)) (Fit : ι → List α → Prop)
    (Holds : ι → List α → List α → Prop) (s : State ι α) : Prop where
  current : Quiet s → s.versions.getLast? = some s.file
  reading : ∀ i since text, s.phase i = .reading since text →
    Quiet s ∧ since < s.versions.length ∧ text <+: s.file
  read : ∀ i since text, s.phase i = .read since text → text ∈ s.versions.drop since
  writing : ∀ i text new written, s.phase i = .writing text new written →
    s.versions.getLast? = some text ∧ change i text = some new ∧ Fit i text ∧ s.file = new.take written ∧
      ∀ j, j ≠ i → (s.phase j).isWriting = false
  done : ∀ i text, s.phase i = .done text → ∀ v, s.versions.getLast? = some v → Holds i text v

omit [DecidableEq ι] in
theorem Inv.start (file : List α) : Inv change Fit Holds (start file) where
  current _ := rfl
  reading _ _ _ h := by cases h
  read _ _ _ h := by cases h
  writing _ _ _ _ h := by cases h
  done _ _ h := by cases h

/-- A job that does not write, in a new phase; the file stays. -/
theorem Inv.set (h : Inv change Fit Holds s) (hi : (s.phase i).isWriting = false)
    (hwriting : p.isWriting = false) (hdone : ∀ text, p ≠ .done text)
    (hreading : ∀ since text, p = .reading since text → Quiet s ∧ since < s.versions.length ∧ text <+: s.file)
    (hread : ∀ since text, p = .read since text → text ∈ s.versions.drop since) :
    Inv change Fit Holds (s.set i p) := by
  have hquiet : Quiet (s.set i p) ↔ Quiet s := by
    refine ⟨fun hq j => ?_, fun hq => quiet_set hwriting fun j _ => hq j⟩
    by_cases hj : j = i
    · exact hj ▸ hi
    · exact set_phase_of_ne (p := p) hj ▸ hq j
  refine ⟨fun hq => h.current (hquiet.mp hq), fun j since text hj => ?_, fun j since text hj => ?_,
    fun j text new written hj => ?_, fun j text hj => ?_⟩
  all_goals by_cases hji : j = i
  · rw [hji, set_phase_self] at hj
    rw [hquiet]
    exact hreading since text hj
  · rw [set_phase_of_ne hji] at hj
    rw [hquiet]
    exact h.reading j since text hj
  · rw [hji, set_phase_self] at hj
    exact hread since text hj
  · rw [set_phase_of_ne hji] at hj
    exact h.read j since text hj
  · rw [hji, set_phase_self] at hj
    rw [hj] at hwriting
    cases hwriting
  · rw [set_phase_of_ne hji] at hj
    obtain ⟨hlast, hchange, hfit, hfile, hothers⟩ := h.writing j text new written hj
    refine ⟨hlast, hchange, hfit, hfile, fun k hk => ?_⟩
    by_cases hki : k = i
    · rw [hki, set_phase_self]
      exact hwriting
    · rw [set_phase_of_ne hki]
      exact hothers k hk
  · rw [hji, set_phase_self] at hj
    exact absurd hj (hdone text)
  · rw [set_phase_of_ne hji] at hj
    exact h.done j text hj

/-- The only job that has the file open goes on writing. -/
theorem Inv.write {text new : List α} {written : Nat} (h : Inv change Fit Holds s)
    (hlast : s.versions.getLast? = some text) (hchange : change i text = some new) (hfit : Fit i text)
    (hothers : ∀ j, j ≠ i → (s.phase j).isWriting = false) (hclosed : ∀ j, (s.phase j).isReading = false) :
    Inv change Fit Holds { s.set i (.writing text new written) with file := new.take written } := by
  have hself : (s.set i (.writing text new written)).phase i = .writing text new written := set_phase_self
  refine ⟨fun hq => ?_, fun j since t hj => ?_, fun j since t hj => ?_, fun j t new' written' hj => ?_,
    fun j t hj => ?_⟩
  · have hwriting := hq i
    dsimp only at hwriting
    rw [hself] at hwriting
    cases hwriting
  all_goals by_cases hji : j = i
  all_goals dsimp only at hj
  all_goals first | rw [hji, hself] at hj | rw [set_phase_of_ne hji] at hj
  · cases hj
  · have hreading := hclosed j
    rw [hj] at hreading
    cases hreading
  · cases hj
  · exact h.read j since t hj
  · cases hj
    refine ⟨hlast, hji ▸ hchange, hji ▸ hfit, rfl, fun k hk => ?_⟩
    have hki : k ≠ i := hji ▸ hk
    dsimp only
    rw [set_phase_of_ne hki]
    exact hothers k hki
  · have hwriting := hothers j hji
    rw [hj] at hwriting
    cases hwriting
  · cases hj
  · exact h.done j t hj

/-- The new version is the last. -/
theorem Inv.close (hown : ∀ i text new, change i text = some new → Fit i text → Holds i text new)
    (hother : ∀ i j text t new, i ≠ j → Holds i text t → change j t = some new → Fit j t → Holds i text new)
    {text new : List α} (h : Inv change Fit Holds s) (hi : s.phase i = .writing text new new.length) :
    Inv change Fit Holds { s.set i (.done text) with versions := s.versions ++ [new] } := by
  obtain ⟨hlast, hchange, hfit, hfile, hothers⟩ := h.writing i text new _ hi
  rw [List.take_length] at hfile
  have hself : (s.set i (.done text)).phase i = .done text := set_phase_self
  have hnew : (s.versions ++ [new]).getLast? = some new := List.getLast?_concat
  refine ⟨fun _ => hnew.trans (congrArg some hfile.symm), fun j since t hj => ?_, fun j since t hj => ?_,
    fun j t new' written' hj => ?_, fun j t hj v hv => ?_⟩
  all_goals by_cases hji : j = i
  all_goals dsimp only at hj
  all_goals first | rw [hji, hself] at hj | rw [set_phase_of_ne hji] at hj
  · cases hj
  · have hwriting := (h.reading j since t hj).1 i
    rw [hi] at hwriting
    cases hwriting
  · cases hj
  · dsimp only
    rw [List.drop_append]
    exact List.mem_append_left _ (h.read j since t hj)
  · cases hj
  · have hwriting := hothers j hji
    rw [hj] at hwriting
    cases hwriting
  all_goals obtain rfl := Option.some.inj (hnew.symm.trans hv)
  · cases hj
    rw [hji]
    exact hown i text new hchange hfit
  · exact hother j i t text new hji (h.done j t hj text hlast) hchange hfit

/-- **The step lemma**: alone, a job keeps the invariant. `hown` and `hother` say that
what a job puts in is there, and that another leaves it. -/
theorem Inv.step (hown : ∀ i text new, change i text = some new → Fit i text → Holds i text new)
    (hother : ∀ i j text t new, i ≠ j → Holds i text t → change j t = some new → Fit j t → Holds i text new)
    {l : Label ι} (h : Inv change Fit Holds s) (halone : Alone Fit s l)
    (hstep : SharedFile.step fill change s l = some s') : Inv change Fit Holds s' := by
  cases l with
  | openRead i =>
    simp only [SharedFile.step] at hstep
    split at hstep <;> cases hstep
    rename_i hi
    have hlast := h.current halone
    have hlength : 0 < s.versions.length := by
      refine List.length_pos_iff.mpr fun hnil => ?_
      rw [hnil] at hlast
      cases hlast
    refine h.set (halone i) rfl (fun _ hp => nomatch hp) (fun since text hp => ?_) fun _ _ hp => nomatch hp
    cases hp
    exact ⟨halone, Nat.sub_lt hlength Nat.one_pos, List.nil_prefix⟩
  | readPiece i n =>
    simp only [SharedFile.step] at hstep
    split at hstep <;> cases hstep
    rename_i since text hi
    obtain ⟨hquiet, hsince, hprefix⟩ := h.reading i since text hi
    refine h.set (hquiet i) rfl (fun _ hp => nomatch hp) (fun since' text' hp => ?_) fun _ _ hp => nomatch hp
    cases hp
    exact ⟨hquiet, hsince, append_piece hprefix n⟩
  | closeRead i =>
    simp only [SharedFile.step] at hstep
    split at hstep <;> try cases hstep
    rename_i since text hi
    obtain ⟨hend, hstep⟩ := Option.ite_none_right_eq_some.mp hstep
    obtain rfl := Option.some.inj hstep
    obtain ⟨hquiet, hsince, hprefix⟩ := h.reading i since text hi
    refine h.set (hquiet i) rfl (fun _ hp => nomatch hp) (fun _ _ hp => nomatch hp) fun since' text' hp => ?_
    cases hp
    rw [List.IsPrefix.eq_of_length_le hprefix hend]
    exact last_mem_drop (h.current hquiet) hsince
  | openWrite i =>
    simp only [SharedFile.step] at hstep
    split at hstep <;> try cases hstep
    rename_i since text hi
    obtain ⟨new, hchange, rfl⟩ := Option.map_eq_some_iff.mp hstep
    obtain ⟨hclosed, hfresh⟩ := halone
    obtain ⟨rfl, hfit⟩ := hfresh since text hi
    have hlast := h.current fun j => (hclosed j).1
    change Inv change Fit Holds { s.set i (.writing s.file new 0) with file := new.take 0 }
    exact h.write hlast hchange hfit (fun j _ => (hclosed j).1) fun j => (hclosed j).2
  | writePiece i n =>
    simp only [SharedFile.step] at hstep
    split at hstep <;> try cases hstep
    rename_i text new written hi
    obtain ⟨hroom, hstep⟩ := Option.ite_none_right_eq_some.mp hstep
    obtain rfl := Option.some.inj hstep
    obtain ⟨hlast, hchange, hfit, hfile, hothers⟩ := h.writing i text new written hi
    have hclosed : ∀ j, (s.phase j).isReading = false := by
      intro j
      cases hj : s.phase j with
      | reading since t =>
        have hwriting := (h.reading j since t hj).1 i
        rw [hi] at hwriting
        cases hwriting
      | idle | read _ _ | writing _ _ _ | done _ | failed => rfl
    rw [hfile, overwrite_take fill new hroom]
    exact h.write hlast hchange hfit hothers hclosed
  | closeWrite i =>
    simp only [SharedFile.step] at hstep
    split at hstep <;> try cases hstep
    rename_i text new written hi
    obtain ⟨hall, hclosed⟩ := Option.ite_none_right_eq_some.mp hstep
    obtain rfl := Option.some.inj hclosed
    subst hall
    exact h.close hown hother hi
  | fail i => exact halone.elim

/-- **What is written is kept**: in a run whose steps are all alone, whenever nobody
writes, the file holds what each finished job has put in; and each text that is
read is a version of the file that it was when it was opened, or later. -/
theorem kept (hown : ∀ i text new, change i text = some new → Fit i text → Holds i text new)
    (hother : ∀ i j text t new, i ≠ j → Holds i text t → change j t = some new → Fit j t → Holds i text new)
    {file : List α} {ls : List (Label ι)} (hrun : exec (SharedFile.step fill change) (start file) ls = some s)
    (halone : ∀ t l t', Takes (SharedFile.step fill change) (start file) ls t l t' → Alone Fit t l) :
    (Quiet s → ∀ i text, s.phase i = .done text → Holds i text s.file) ∧
      ∀ i since text, s.phase i = .read since text → text ∈ s.versions.drop since := by
  have hinv : Inv change Fit Holds s :=
    exec_inv (fun _ _ _ h hl hstep => h.step hown hother hl hstep) hrun halone (Inv.start file)
  exact ⟨fun hq i text hi => hinv.done i text hi s.file (hinv.current hq), hinv.read⟩

end

end ContextBroker.SharedFile
