/-!
# A cache over a file, checked by modification time

A reader takes the modification time of the file, and only then the content;
a cache keeps what one reader made of the content, beside the time that
reader took. The file may be written between the two, so the content can be
newer than the time it is kept under. It is never older, as long as no two
contents have the same time: `Agrees` says that a result is that of the
present content if its time is the present one. Every write and every removal
keeps it (`Agrees.write`, `Agrees.remove`), and reading establishes it
whatever the file has gone through since its time was taken (`Agrees.read`).
-/
namespace ContextBroker.FileCache

variable {M α β : Type}

/-- A file, if it is there, and the modification times it has had. -/
structure Source (M α : Type) where
  current : Option (M × α)
  used : List M
  present : ∀ p ∈ current, p.1 ∈ used

namespace Source

def absent : Source M α := ⟨none, [], fun _ h => nomatch h⟩

def write (src : Source M α) (mtime : M) (content : α) : Source M α where
  current := some (mtime, content)
  used := mtime :: src.used
  present p hp := by
    obtain rfl := Option.some.inj hp
    exact List.mem_cons_self

def remove (src : Source M α) : Source M α := ⟨none, src.used, fun _ h => nomatch h⟩

end Source

/-- What was made of a content read after the time `mtime` was taken. -/
structure Agrees (parse : α → Option β) (src : Source M α) (mtime : M) (result : β) : Prop where
  used : mtime ∈ src.used
  content : ∀ a, src.current = some (mtime, a) → parse a = some result

variable {parse : α → Option β} {src : Source M α} {mtime : M} {result : β}

theorem Agrees.write (h : Agrees parse src mtime result) {mtime' : M} (hfresh : mtime' ∉ src.used) (content : α) :
    Agrees parse (src.write mtime' content) mtime result := by
  refine ⟨List.mem_cons_of_mem _ h.used, fun a ha => ?_⟩
  have hsame : mtime' = mtime := congrArg Prod.fst (Option.some.inj ha)
  exact absurd (hsame ▸ h.used) hfresh

theorem Agrees.remove (h : Agrees parse src mtime result) : Agrees parse src.remove mtime result :=
  ⟨h.used, fun _ ha => nomatch ha⟩

theorem Agrees.read (hused : mtime ∈ src.used) {mtime' : M} {a : α} (hcurrent : src.current = some (mtime', a))
    (hparse : parse a = some result) : Agrees parse src mtime result := by
  refine ⟨hused, fun b hb => ?_⟩
  obtain ⟨rfl, rfl⟩ := Prod.mk.inj (Option.some.inj (hcurrent.symm.trans hb))
  exact hparse

/-- `_cache` and `_mtime`. -/
structure Slot (M β : Type) where
  cache : Option β
  mtime : M

/-- The test of a reader that has just taken the time `mtime`. -/
def Slot.hit [DecidableEq M] (slot : Slot M β) (mtime : M) : Option β :=
  if mtime = slot.mtime then slot.cache else none

/-- Whatever is cached agrees with the file. -/
def Slot.Fresh (parse : α → Option β) (src : Source M α) (slot : Slot M β) : Prop :=
  ∀ b, slot.cache = some b → Agrees parse src slot.mtime b

/-- **A hit is the present content.** -/
theorem Slot.Fresh.hit [DecidableEq M] {slot : Slot M β} (h : slot.Fresh parse src) {a : α}
    (hcurrent : src.current = some (mtime, a)) (hhit : slot.hit mtime = some result) : parse a = some result := by
  obtain ⟨rfl, hcache⟩ := Option.ite_none_right_eq_some.mp hhit
  exact (h result hcache).content a hcurrent

end ContextBroker.FileCache
