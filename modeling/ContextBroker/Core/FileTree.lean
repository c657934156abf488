import Mathlib.Data.List.Basic
import Mathlib.Data.List.Nodup

/-!
# Files, directories and symbolic links

A tree of files with symbolic links and two ways through it. `resolve` is the
kernel's: every name on the way must exist, and only so many links are
followed. `realpath` is that of a program that wants to know where a path
leads and takes what does not exist for an ordinary name. Where the kernel
comes to a place, `realpath` comes to the same one (`realpath_of_resolve`), and
a new directory leads it nowhere else (`realpath_insert`).

A place is the list of the names from the root on, and `render` writes it as a
path. That one rendered place begins with another as a text says less than
that it lies there (`render_prefix_iff`).
-/
namespace ContextBroker.FileTree

abbrev Name := List Char

/-- The names from the root on, without links. -/
abbrev Place := List Name

inductive Node where
  | file (content : List Char) (size : Nat)
  | dir
  | link (target : List Char)
  deriving DecidableEq, Repr

inductive Errno where
  | noEntry | notDirectory | isDirectory | exists | loop
  deriving DecidableEq, Repr

/-- What a directory can hold. -/
def Ordinary (name : Name) : Prop :=
  name ≠ [] ∧ name ≠ ".".toList ∧ name ≠ "..".toList ∧ '/' ∉ name ∧ Char.ofNat 0 ∉ name

instance (name : Name) : Decidable (Ordinary name) := inferInstanceAs (Decidable (_ ∧ _))

structure Tree where
  nodes : List (Place × Node)
  ordinary : ∀ n ∈ nodes, ∀ name ∈ n.1, Ordinary name
  distinct : (nodes.map Prod.fst).Nodup

namespace Tree

variable (t : Tree)

def node (p : Place) : Option Node := if p = [] then some .dir else (t.nodes.find? fun n => n.1 = p).map Prod.snd

def isDir (p : Place) : Bool := t.node p = some .dir

/-- The names in a directory, in no order that matters. -/
def children (p : Place) : List Name := t.nodes.filterMap fun n => if n.1.dropLast = p then n.1.getLast? else none

/-- No place lies deeper. -/
def depth : Nat := t.nodes.foldr (fun n d => max n.1.length d) 0

variable {t}

theorem node_eq_some {p : Place} {n : Node} (h : t.node p = some n) (hp : p ≠ []) : (p, n) ∈ t.nodes := by
  rw [node, if_neg hp] at h
  obtain ⟨⟨q, m⟩, hfind, rfl⟩ := Option.map_eq_some_iff.mp h
  have hq : q = p := by simpa using List.find?_some hfind
  exact hq ▸ List.mem_of_find?_eq_some hfind

theorem ordinary_of_node {p : Place} {n : Node} (h : t.node p = some n) : ∀ name ∈ p, Ordinary name := by
  by_cases hp : p = []
  · simp [hp]
  · exact t.ordinary _ (node_eq_some h hp)

theorem length_le_depth {p : Place} {n : Node} (h : t.node p = some n) : p.length ≤ t.depth := by
  by_cases hp : p = []
  · simp [hp]
  · have hmem := node_eq_some h hp
    unfold depth
    generalize t.nodes = nodes at hmem
    induction nodes with
    | nil => cases hmem
    | cons m nodes ih =>
      rcases List.mem_cons.mp hmem with rfl | hmem
      · exact Nat.le_max_left _ _
      · exact Nat.le_trans (ih hmem) (Nat.le_max_right _ _)

/-- A directory lists exactly what is there. -/
theorem mem_children {p : Place} {name : Name} : name ∈ t.children p ↔ (t.node (p ++ [name])).isSome := by
  have hne : p ++ [name] ≠ [] := by simp
  rw [children, List.mem_filterMap, node, if_neg hne, Option.isSome_map, List.find?_isSome]
  constructor
  · intro ⟨n, hn, hname⟩
    obtain ⟨rfl, hlast⟩ := Option.ite_none_right_eq_some.mp hname
    obtain ⟨ys, hys⟩ := List.getLast?_eq_some_iff.mp hlast
    exact ⟨n, hn, by simp [hys]⟩
  · intro ⟨n, hn, hp⟩
    exact ⟨n, hn, by simp [of_decide_eq_true hp]⟩

/-! ## The kernel's way -/

/-- Where a path begins that is met at `cur`. -/
def start (cur : Place) (path : List Char) : Place := if path.head? = some '/' then [] else cur

variable (t)

/-- `follow` goes on after a link. With `create`, the last name need not exist. -/
def resolveWith (create : Bool) (follow : Place → List Name → Except Errno Place) :
    Place → List Name → Except Errno Place
  | cur, [] => .ok cur
  | cur, name :: rest =>
    if ¬ t.isDir cur then .error .notDirectory
    else if name = [] ∨ name = ".".toList then resolveWith create follow cur rest
    else if name = "..".toList then resolveWith create follow cur.dropLast rest
    else
      match t.node (cur ++ [name]) with
      | none => if create ∧ rest = [] ∧ Ordinary name then .ok (cur ++ [name]) else .error .noEntry
      | some (.link target) => follow (start cur target) (target.splitOn '/' ++ rest)
      | some _ => resolveWith create follow (cur ++ [name]) rest

/-- With at most `links` links. -/
def resolve (create : Bool) : Nat → Place → List Name → Except Errno Place
  | 0 => t.resolveWith create fun _ _ => .error .loop
  | links + 1 => t.resolveWith create (resolve create links)

/-- `MAXSYMLINKS` of Linux. -/
def maxLinks : Nat := 40

/-- The place of the names `names` below `path`. -/
def lookup (create : Bool) (cwd : Place) (path : List Char) (names : List Name) : Except Errno Place :=
  if path = [] then .error .noEntry
  else t.resolve create maxLinks (start cwd path) (path.splitOn '/' ++ names)

/-! ## The way of `os.path.realpath` -/

/-- `follow` says where a link leads. -/
def realpathWith (follow : Place → List Char → Option Place) : Place → List Name → Option Place
  | cur, [] => some cur
  | cur, name :: rest =>
    if name = [] ∨ name = ".".toList then realpathWith follow cur rest
    else if name = "..".toList then realpathWith follow cur.dropLast rest
    else
      match t.node (cur ++ [name]) with
      | some (.link target) => (follow cur target).bind fun place => realpathWith follow place rest
      | _ => realpathWith follow (cur ++ [name]) rest

/-- With at most `nesting` links within links; `none` in a loop. -/
def realpath : Nat → Place → List Name → Option Place
  | 0 => t.realpathWith fun _ _ => none
  | nesting + 1 => t.realpathWith fun cur target => realpath nesting (start cur target) (target.splitOn '/')

variable {t}

theorem realpathWith_append (follow : Place → List Char → Option Place) (cur : Place) (a b : List Name) :
    t.realpathWith follow cur (a ++ b) =
      (t.realpathWith follow cur a).bind fun place => t.realpathWith follow place b := by
  induction a generalizing cur with
  | nil => rfl
  | cons name rest ih =>
    rw [List.cons_append, realpathWith, realpathWith]
    by_cases hdot : name = [] ∨ name = ".".toList
    · rw [if_pos hdot, if_pos hdot, ih]
    by_cases hdots : name = "..".toList
    · rw [if_neg hdot, if_pos hdots, if_neg hdot, if_pos hdots, ih]
    rw [if_neg hdot, if_neg hdots, if_neg hdot, if_neg hdots]
    cases hnode : t.node (cur ++ [name]) with
    | none => exact ih _
    | some n =>
      cases n with
      | link target => simp only [Option.bind_assoc, ih]
      | file | dir => exact ih _

theorem realpath_append (n : Nat) (cur : Place) (a b : List Name) :
    t.realpath n cur (a ++ b) = (t.realpath n cur a).bind fun place => t.realpath n place b := by
  cases n <;> exact realpathWith_append ..

theorem realpathWith_mono {follow follow' : Place → List Char → Option Place}
    (h : ∀ cur target place, follow cur target = some place → follow' cur target = some place) {cur place : Place}
    {names : List Name} (hr : t.realpathWith follow cur names = some place) :
    t.realpathWith follow' cur names = some place := by
  induction names generalizing cur with
  | nil => exact hr
  | cons name rest ih =>
    rw [realpathWith] at hr ⊢
    by_cases hdot : name = [] ∨ name = ".".toList
    · rw [if_pos hdot] at hr ⊢
      exact ih hr
    by_cases hdots : name = "..".toList
    · rw [if_neg hdot, if_pos hdots] at hr ⊢
      exact ih hr
    rw [if_neg hdot, if_neg hdots] at hr ⊢
    cases hnode : t.node (cur ++ [name]) with
    | none =>
      rw [hnode] at hr
      exact ih hr
    | some n =>
      rw [hnode] at hr
      cases n with
      | link target =>
        obtain ⟨next, hfollow, hrest⟩ := Option.bind_eq_some_iff.mp hr
        exact Option.bind_eq_some_iff.mpr ⟨next, h _ _ _ hfollow, ih hrest⟩
      | file | dir => exact ih hr

theorem realpath_mono {n m : Nat} (hnm : n ≤ m) {cur place : Place} {names : List Name}
    (h : t.realpath n cur names = some place) : t.realpath m cur names = some place := by
  induction n generalizing m cur place names with
  | zero =>
    cases m with
    | zero => exact h
    | succ m =>
      refine realpathWith_mono (fun _ _ _ hf => ?_) h
      cases hf
  | succ n ih =>
    cases m with
    | zero => omega
    | succ m => exact realpathWith_mono (fun _ _ _ hf => ih (by omega) hf) h

/-! ## Walks -/

/-- How the kernel comes from `cur` to `place`, over at most `links` links. -/
inductive Follows (t : Tree) (create : Bool) : Nat → Place → List Name → Place → Prop where
  | done (links : Nat) (cur : Place) : Follows t create links cur [] cur
  | dot {links : Nat} {cur place : Place} {name : Name} {rest : List Name} (hdir : t.isDir cur)
    (hname : name = [] ∨ name = ".".toList) (h : Follows t create links cur rest place) :
    Follows t create links cur (name :: rest) place
  | up {links : Nat} {cur place : Place} {rest : List Name} (hdir : t.isDir cur)
    (h : Follows t create links cur.dropLast rest place) : Follows t create links cur ("..".toList :: rest) place
  | new {links : Nat} {cur : Place} {name : Name} (hdir : t.isDir cur) (hname : Ordinary name)
    (hnode : t.node (cur ++ [name]) = none) (hcreate : create) :
    Follows t create links cur [name] (cur ++ [name])
  | link {links : Nat} {cur place : Place} {name : Name} {rest : List Name} {target : List Char} (hdir : t.isDir cur)
    (hdot : ¬ (name = [] ∨ name = ".".toList)) (hdots : name ≠ "..".toList)
    (hnode : t.node (cur ++ [name]) = some (.link target))
    (h : Follows t create links (start cur target) (target.splitOn '/' ++ rest) place) :
    Follows t create (links + 1) cur (name :: rest) place
  | down {links : Nat} {cur place : Place} {name : Name} {rest : List Name} {n : Node} (hdir : t.isDir cur)
    (hdot : ¬ (name = [] ∨ name = ".".toList)) (hdots : name ≠ "..".toList)
    (hnode : t.node (cur ++ [name]) = some n) (hplain : ∀ target, n ≠ .link target)
    (h : Follows t create links (cur ++ [name]) rest place) : Follows t create links cur (name :: rest) place

theorem follows_of_resolveWith {create : Bool} {links : Nat} {follow : Place → List Name → Except Errno Place}
    {place : Place}
    (hfollow : ∀ cur names, follow cur names = .ok place →
      ∃ fewer, links = fewer + 1 ∧ Follows t create fewer cur names place)
    {cur : Place} {names : List Name} (h : t.resolveWith create follow cur names = .ok place) :
    Follows t create links cur names place := by
  induction names generalizing cur with
  | nil =>
    obtain rfl := Except.ok.inj h
    exact .done links cur
  | cons name rest ih =>
    rw [resolveWith] at h
    by_cases hdir : t.isDir cur
    · rw [if_neg (not_not_intro hdir)] at h
      by_cases hdot : name = [] ∨ name = ".".toList
      · rw [if_pos hdot] at h
        exact .dot hdir hdot (ih h)
      by_cases hdots : name = "..".toList
      · rw [if_neg hdot, if_pos hdots] at h
        subst hdots
        exact .up hdir (ih h)
      rw [if_neg hdot, if_neg hdots] at h
      cases hnode : t.node (cur ++ [name]) with
      | none =>
        rw [hnode] at h
        dsimp only at h
        split at h
        · rename_i hlast
          obtain rfl := Except.ok.inj h
          rw [hlast.2.1]
          exact .new hdir hlast.2.2 hnode hlast.1
        · cases h
      | some n =>
        rw [hnode] at h
        cases n with
        | link target =>
          obtain ⟨fewer, rfl, hrest⟩ := hfollow _ _ h
          exact .link hdir hdot hdots hnode hrest
        | file | dir => exact .down hdir hdot hdots hnode (by simp) (ih h)
    · rw [if_pos hdir] at h
      cases h

theorem follows_of_resolve {create : Bool} {links : Nat} {cur place : Place} {names : List Name}
    (h : t.resolve create links cur names = .ok place) : Follows t create links cur names place := by
  induction links generalizing cur names with
  | zero => exact follows_of_resolveWith (fun _ _ hf => by cases hf) h
  | succ links ih => exact follows_of_resolveWith (fun _ _ hf => ⟨links, rfl, ih hf⟩) h

theorem Follows.resolve {create : Bool} {links : Nat} {cur place : Place} {names : List Name}
    (h : Follows t create links cur names place) : t.resolve create links cur names = .ok place := by
  induction h with
  | done links cur => cases links <;> rfl
  | @dot links cur place name rest hdir hname h ih =>
    cases links <;> (rw [Tree.resolve, resolveWith, if_neg (not_not_intro hdir), if_pos hname]; exact ih)
  | @up links cur place rest hdir h ih =>
    cases links <;>
      (rw [Tree.resolve, resolveWith, if_neg (not_not_intro hdir), if_neg (by decide), if_pos rfl]; exact ih)
  | @new links cur name hdir hname hnode hcreate =>
    cases links <;>
      (rw [Tree.resolve, resolveWith, if_neg (not_not_intro hdir), if_neg (not_or.mpr ⟨hname.1, hname.2.1⟩),
        if_neg hname.2.2.1, hnode]
       exact if_pos ⟨hcreate, rfl, hname⟩)
  | link hdir hdot hdots hnode h ih =>
    rw [Tree.resolve, resolveWith, if_neg (not_not_intro hdir), if_neg hdot, if_neg hdots, hnode]
    exact ih
  | @down links cur place name rest n hdir hdot hdots hnode hplain h ih =>
    cases links <;>
      (rw [Tree.resolve, resolveWith, if_neg (not_not_intro hdir), if_neg hdot, if_neg hdots, hnode]
       cases n with
       | link target => exact absurd rfl (hplain target)
       | file | dir => exact ih)

/-- Where the kernel comes to a place, `realpath` comes to the same one. -/
theorem Follows.realpath {create : Bool} {links : Nat} {cur place : Place} {names : List Name}
    (h : Follows t create links cur names place) : t.realpath links cur names = some place := by
  induction h with
  | done links cur => cases links <;> rfl
  | @dot links cur place name rest hdir hname h ih =>
    cases links <;> (rw [Tree.realpath, realpathWith, if_pos hname]; exact ih)
  | @up links cur place rest hdir h ih =>
    cases links <;> (rw [Tree.realpath, realpathWith, if_neg (by decide), if_pos rfl]; exact ih)
  | @new links cur name hdir hname hnode hcreate =>
    cases links <;>
      (rw [Tree.realpath, realpathWith, if_neg (not_or.mpr ⟨hname.1, hname.2.1⟩), if_neg hname.2.2.1, hnode]; rfl)
  | @link links cur place name rest target hdir hdot hdots hnode h ih =>
    rw [realpath_append] at ih
    obtain ⟨next, hnext, hrest⟩ := Option.bind_eq_some_iff.mp ih
    rw [Tree.realpath, realpathWith, if_neg hdot, if_neg hdots, hnode]
    exact Option.bind_eq_some_iff.mpr ⟨next, hnext, realpath_mono (Nat.le_succ links) hrest⟩
  | @down links cur place name rest n hdir hdot hdots hnode hplain h ih =>
    cases links <;>
      (rw [Tree.realpath, realpathWith, if_neg hdot, if_neg hdots, hnode]
       cases n with
       | link target => exact absurd rfl (hplain target)
       | file | dir => exact ih)

/-- One name more, which is no link. -/
theorem Follows.snoc {links : Nat} {cur place : Place} {names : List Name} (h : Follows t false links cur names place)
    {name : Name} {n : Node} (hdir : t.isDir place) (hnode : t.node (place ++ [name]) = some n)
    (hplain : ∀ target, n ≠ .link target) : Follows t false links cur (names ++ [name]) (place ++ [name]) := by
  obtain ⟨hempty, hdot, hdots, _⟩ := ordinary_of_node hnode name (by simp)
  induction h with
  | done links cur => exact .down hdir (not_or.mpr ⟨hempty, hdot⟩) hdots hnode hplain (.done links _)
  | dot hdir' hname h ih => exact .dot hdir' hname (ih hdir hnode)
  | up hdir' h ih => exact .up hdir' (ih hdir hnode)
  | new _ _ _ hcreate => cases hcreate
  | @link links cur place name rest target hdir' hdot' hdots' hnode' h ih =>
    have hrest := ih hdir hnode
    rw [List.append_assoc] at hrest
    exact .link hdir' hdot' hdots' hnode' hrest
  | down hdir' hdot' hdots' hnode' hplain' h ih => exact .down hdir' hdot' hdots' hnode' hplain' (ih hdir hnode)

/-- No link on the way from the root. -/
def Real (t : Tree) (place : Place) : Prop := ∀ q, q <+: place → ∀ target, t.node q ≠ some (.link target)

theorem Real.nil : t.Real [] := by
  intro q hq target h
  obtain rfl := List.prefix_nil.mp hq
  cases h

theorem Real.snoc {place : Place} (h : t.Real place) {name : Name}
    (hnode : ∀ target, t.node (place ++ [name]) ≠ some (.link target)) : t.Real (place ++ [name]) := by
  intro q hq
  rcases List.prefix_concat_iff.mp hq with rfl | hq
  · exact hnode
  · exact h q hq

theorem Real.start {cur : Place} (h : t.Real cur) (path : List Char) : t.Real (start cur path) := by
  unfold Tree.start
  split
  · exact .nil
  · exact h

/-- **All links are followed.** -/
theorem Follows.real {create : Bool} {links : Nat} {cur place : Place} {names : List Name}
    (h : Follows t create links cur names place) (hcur : t.Real cur) : t.Real place := by
  induction h with
  | done => exact hcur
  | dot _ _ _ ih => exact ih hcur
  | up _ _ ih => exact ih fun q hq => hcur q (hq.trans (List.dropLast_prefix _))
  | new _ _ hnode _ => exact hcur.snoc fun target h => by rw [hnode] at h; cases h
  | link _ _ _ _ _ ih => exact ih (hcur.start _)
  | down _ _ _ hnode hplain _ ih =>
    exact ih (hcur.snoc fun target h => hplain target (Option.some.inj (hnode.symm.trans h)))

theorem Follows.isDir {create : Bool} {links : Nat} {cur place : Place} {names : List Name}
    (h : Follows t create links cur names place) (hnames : names ≠ []) : t.isDir cur := by
  cases h with
  | done => exact absurd rfl hnames
  | dot hdir | up hdir | new hdir | link hdir | down hdir => exact hdir

theorem ordinary_of_isDir {place : Place} (h : t.isDir place) : ∀ name ∈ place, Ordinary name :=
  ordinary_of_node (of_decide_eq_true h)

theorem ordinary_start {cur : Place} (h : ∀ name ∈ cur, Ordinary name) (path : List Char) :
    ∀ name ∈ start cur path, Ordinary name := by
  unfold Tree.start
  split
  · simp
  · exact h

theorem Follows.ordinary {create : Bool} {links : Nat} {cur place : Place} {names : List Name}
    (h : Follows t create links cur names place) (hcur : ∀ name ∈ cur, Ordinary name) :
    ∀ name ∈ place, Ordinary name := by
  induction h with
  | done => exact hcur
  | dot _ _ _ ih => exact ih hcur
  | up _ _ ih => exact ih fun name hname => hcur name (List.dropLast_subset _ hname)
  | new _ hname _ _ =>
    intro x hx
    rcases List.mem_append.mp hx with hx | hx
    · exact hcur x hx
    · exact List.mem_singleton.mp hx ▸ hname
  | link _ _ _ _ _ ih => exact ih (ordinary_start hcur _)
  | down _ _ _ hnode _ _ ih => exact ih (ordinary_of_node hnode)

theorem mem_splitOn {c : Char} (hc : c ≠ '/') {path : List Char} (h : c ∈ path) :
    ∃ name ∈ path.splitOn '/', c ∈ name := by
  induction path with
  | nil => cases h
  | cons d path ih =>
    rw [List.splitOn_cons_eq_if_modifyHead]
    split
    · rename_i hd
      rcases List.mem_cons.mp h with rfl | hpath
      · exact absurd (eq_of_beq hd) hc
      · obtain ⟨name, hname, hmem⟩ := ih hpath
        exact ⟨name, List.mem_cons_of_mem _ hname, hmem⟩
    · cases hsplit : path.splitOn '/' with
      | nil => exact absurd hsplit (List.splitOn_ne_nil _ _)
      | cons first rest =>
        rcases List.mem_cons.mp h with rfl | hpath
        · exact ⟨c :: first, List.mem_cons_self, List.mem_cons_self⟩
        · obtain ⟨name, hname, hmem⟩ := ih hpath
          rw [hsplit] at hname
          rcases List.mem_cons.mp hname with rfl | hname
          · exact ⟨d :: name, List.mem_cons_self, List.mem_cons_of_mem _ hmem⟩
          · exact ⟨name, List.mem_cons_of_mem _ hname, hmem⟩

/-- The kernel takes no path with a NUL in it. -/
theorem Follows.nul_not_mem {create : Bool} {links : Nat} {cur place : Place} {names : List Name}
    (h : Follows t create links cur names place) : ∀ name ∈ names, Char.ofNat 0 ∉ name := by
  induction h with
  | done => simp
  | dot _ hname _ ih =>
    refine List.forall_mem_cons.mpr ⟨?_, ih⟩
    rcases hname with rfl | rfl <;> decide
  | up _ _ ih => exact List.forall_mem_cons.mpr ⟨by decide, ih⟩
  | new _ hname _ _ => exact List.forall_mem_cons.mpr ⟨hname.2.2.2.2, by simp⟩
  | link _ _ _ hnode _ ih =>
    refine List.forall_mem_cons.mpr ⟨(ordinary_of_node hnode _ (by simp)).2.2.2.2, fun name hname => ?_⟩
    exact ih name (List.mem_append_right _ hname)
  | down _ _ _ hnode _ _ ih =>
    exact List.forall_mem_cons.mpr ⟨(ordinary_of_node hnode _ (by simp)).2.2.2.2, ih⟩

theorem follows_of_lookup {create : Bool} {cwd place : Place} {path : List Char} {names : List Name}
    (h : t.lookup create cwd path names = .ok place) :
    Follows t create maxLinks (start cwd path) (path.splitOn '/' ++ names) place := by
  unfold lookup at h
  split at h
  · cases h
  · exact follows_of_resolve h

theorem ordinary_of_lookup {create : Bool} {cwd place : Place} {path : List Char} {names : List Name}
    (h : t.lookup create cwd path names = .ok place) : ∀ name ∈ place, Ordinary name := by
  have hfollows := follows_of_lookup h
  exact hfollows.ordinary (ordinary_of_isDir (hfollows.isDir (by simp [List.splitOn_ne_nil])))

theorem nul_not_mem_of_lookup {create : Bool} {cwd place : Place} {path : List Char} {names : List Name}
    (h : t.lookup create cwd path names = .ok place) : Char.ofNat 0 ∉ path := by
  intro hnul
  obtain ⟨name, hname, hmem⟩ := mem_splitOn (by decide) hnul
  exact (follows_of_lookup h).nul_not_mem name (List.mem_append_left _ hname) hmem

theorem lookup_snoc {cwd place : Place} {path : List Char} {names : List Name}
    (h : t.lookup false cwd path names = .ok place) {name : Name} {n : Node} (hdir : t.isDir place)
    (hnode : t.node (place ++ [name]) = some n) (hplain : ∀ target, n ≠ .link target) :
    t.lookup false cwd path (names ++ [name]) = .ok (place ++ [name]) := by
  have hsnoc := (follows_of_lookup h).snoc hdir hnode hplain
  unfold lookup at h ⊢
  split at h
  · cases h
  · rename_i hpath
    rw [if_neg hpath, ← List.append_assoc]
    exact hsnoc.resolve

/-! ## New files and directories -/

/-- `n` at `place`, whatever was there. -/
def put (t : Tree) (place : Place) (hplace : ∀ name ∈ place, Ordinary name) (n : Node) : Tree where
  nodes := t.nodes.filter (·.1 ≠ place) ++ [(place, n)]
  ordinary := by
    intro m hm
    rcases List.mem_append.mp hm with hm | hm
    · exact t.ordinary m (List.mem_of_mem_filter hm)
    · exact List.mem_singleton.mp hm ▸ hplace
  distinct := by
    rw [List.map_append, List.nodup_append]
    refine ⟨t.distinct.sublist (List.filter_sublist.map _), by simp, fun a ha b hb hab => ?_⟩
    obtain ⟨m, hm, rfl⟩ := List.mem_map.mp ha
    obtain rfl : b = place := by simpa using hb
    simpa [hab] using (List.mem_filter.mp hm).2

theorem node_put {place : Place} (hplace : ∀ name ∈ place, Ordinary name) (hne : place ≠ []) (n : Node) (q : Place) :
    (t.put place hplace n).node q = if q = place then some n else t.node q := by
  by_cases hq : q = []
  · rw [if_neg (hq ▸ hne.symm), node, node, if_pos hq, if_pos hq]
  rw [node, node, if_neg hq, if_neg hq, put, List.find?_append, List.find?_filter]
  by_cases hqp : q = place
  · subst hqp
    have hnone : (t.nodes.find? fun m => decide (decide (m.1 ≠ q) = true ∧ decide (m.1 = q) = true)) = none := by simp
    rw [hnone]
    simp
  · have hsame : (fun m : Place × Node => decide (decide (m.1 ≠ place) = true ∧ decide (m.1 = q) = true)) =
        fun m => decide (m.1 = q) := by
      funext m
      by_cases hm : m.1 = q
      · simp [hm, hqp]
      · simp [hm]
    rw [hsame, if_neg hqp]
    cases t.nodes.find? fun m => decide (m.1 = q) <;> simp [Ne.symm hqp]

/-- `mkdir` of `name` in `place`. -/
def mkdir (t : Tree) (place : Place) (name : Name) : Except Errno Tree :=
  if hdir : t.node place = some .dir then
    if t.node (place ++ [name]) = none then
      if hname : Ordinary name then
        .ok (t.put (place ++ [name]) (by
          intro x hx
          rcases List.mem_append.mp hx with hx | hx
          · exact ordinary_of_node hdir x hx
          · exact List.mem_singleton.mp hx ▸ hname) .dir)
      else .error .exists
    else .error .exists
  else .error .notDirectory

/-- The same links lead `realpath` to the same places. -/
theorem realpath_congr {t' : Tree} (h : ∀ q target, t'.node q = some (.link target) ↔ t.node q = some (.link target))
    (n : Nat) (cur : Place) (names : List Name) : t'.realpath n cur names = t.realpath n cur names := by
  have hwith : ∀ (follow follow' : Place → List Char → Option Place),
      (∀ cur target, follow' cur target = follow cur target) →
      ∀ names cur, t'.realpathWith follow' cur names = t.realpathWith follow cur names := by
    intro follow follow' hfollow names
    induction names with
    | nil => exact fun _ => rfl
    | cons name rest ih =>
      intro cur
      rw [realpathWith, realpathWith]
      simp only [ih, hfollow]
      by_cases hlink : ∃ target, t.node (cur ++ [name]) = some (.link target)
      · obtain ⟨target, hlink⟩ := hlink
        rw [hlink, (h _ target).mpr hlink]
      · have hplain : ∀ (u : Tree) (o : Option Place), (∀ target, u.node (cur ++ [name]) ≠ some (.link target)) →
            (match u.node (cur ++ [name]) with
              | some (.link target) => (follow cur target).bind fun place => t.realpathWith follow place rest
              | _ => o) = o := by
          intro u o hu
          cases hnode : u.node (cur ++ [name]) with
          | none => rfl
          | some n =>
            cases n with
            | link target => exact absurd hnode (hu target)
            | file | dir => rfl
        rw [hplain t _ fun target ht => hlink ⟨target, ht⟩,
          hplain t' _ fun target ht => hlink ⟨target, (h _ target).mp ht⟩]
  induction n generalizing cur names with
  | zero => exact hwith _ _ (fun _ _ => rfl) names cur
  | succ n ih => exact hwith _ _ (fun cur target => ih _ _) names cur

/-- A new directory leads no path elsewhere. -/
theorem realpath_mkdir {t' : Tree} {place : Place} {name : Name} (h : t.mkdir place name = .ok t') (n : Nat)
    (cur : Place) (names : List Name) : t'.realpath n cur names = t.realpath n cur names := by
  unfold mkdir at h
  split at h
  · split at h
    · rename_i hnone
      split at h
      · obtain rfl := Except.ok.inj h
        refine realpath_congr (fun q target => ?_) n cur names
        rw [node_put _ (by simp)]
        split
        · rename_i hq
          rw [hq, hnone]
          simp
        · rfl
      · cases h
    · cases h
  · cases h

end Tree

/-! ## Places as texts -/

def render (place : Place) : List Char := if place = [] then ['/'] else place.flatMap ('/' :: ·)

/-- Below a sibling of `root` whose name goes on after that of `root`. -/
def Beside (root place : Place) : Prop :=
  ∃ parent last more rest, root = parent ++ [last] ∧ more ≠ [] ∧ place = parent ++ (last ++ more) :: rest

theorem Beside.not_prefix {root place : Place} (h : Beside root place) : ¬ root <+: place := by
  obtain ⟨parent, last, more, rest, rfl, hmore, rfl⟩ := h
  rw [List.prefix_append_right_inj, List.cons_prefix_cons]
  exact fun hlast => hmore (List.append_cancel_left (hlast.1.symm.trans (List.append_nil last).symm))

/-- Up to the first slash, two texts that begin alike are alike. -/
theorem cut_at_slash {a b x y : List Char} (ha : '/' ∉ a) (hb : '/' ∉ b) (hy : y = [] ∨ ∃ z, y = '/' :: z)
    (h : a ++ '/' :: x <+: b ++ y) : a = b ∧ '/' :: x <+: y := by
  induction a generalizing b with
  | nil =>
    cases b with
    | nil => exact ⟨rfl, h⟩
    | cons c b => exact absurd (List.cons_prefix_cons.mp h).1 fun hc => hb (hc ▸ List.mem_cons_self)
  | cons c a ih =>
    cases b with
    | nil =>
      rcases hy with rfl | ⟨z, rfl⟩
      · exact absurd (List.prefix_nil.mp h) (by simp)
      · exact absurd (List.cons_prefix_cons.mp h).1 fun hc => ha (hc ▸ List.mem_cons_self)
    | cons d b =>
      obtain ⟨rfl, htail⟩ := List.cons_prefix_cons.mp h
      obtain ⟨rfl, hrest⟩ :=
        ih (fun hc => ha (List.mem_cons_of_mem _ hc)) (fun hc => hb (List.mem_cons_of_mem _ hc)) htail
      exact ⟨rfl, hrest⟩

/-- A name that a text begins with ends before the first slash. -/
theorem prefix_before_slash {a b y : List Char} (ha : '/' ∉ a) (hy : y = [] ∨ ∃ z, y = '/' :: z) (h : a <+: b ++ y) :
    a <+: b := by
  rcases List.prefix_or_prefix_of_prefix h (List.prefix_append b y) with hab | ⟨more, rfl⟩
  · exact hab
  · rw [List.prefix_append_right_inj] at h
    cases more with
    | nil => simp
    | cons c more =>
      rcases hy with rfl | ⟨z, rfl⟩
      · exact absurd (List.prefix_nil.mp h) (by simp)
      · exact absurd (List.cons_prefix_cons.mp h).1 fun hc => ha (by simp [hc])

theorem flat_slash (place : Place) : place.flatMap ('/' :: ·) = [] ∨ ∃ z, place.flatMap ('/' :: ·) = '/' :: z := by
  cases place with
  | nil => exact .inl rfl
  | cons name rest => exact .inr ⟨name ++ rest.flatMap ('/' :: ·), rfl⟩

theorem beside_singleton {last name : Name} {rest : Place} :
    Beside [last] (name :: rest) ↔ ∃ more, more ≠ [] ∧ name = last ++ more := by
  constructor
  · intro ⟨parent, last', more, rest', hroot, hmore, hplace⟩
    cases parent with
    | nil =>
      obtain ⟨rfl, rfl, _⟩ : last = last' ∧ name = last' ++ more ∧ rest = rest' := by
        simpa using And.intro hroot hplace
      exact ⟨more, hmore, rfl⟩
    | cons => simp at hroot
  · intro ⟨more, hmore, hname⟩
    exact ⟨[], last, more, rest, rfl, hmore, hname ▸ rfl⟩

theorem beside_cons {first next name : Name} {more rest : Place} :
    Beside (first :: next :: more) (name :: rest) ↔ first = name ∧ Beside (next :: more) rest := by
  constructor
  · intro ⟨parent, last, ext, rest', hroot, hext, hplace⟩
    cases parent with
    | nil => simp at hroot
    | cons head parent =>
      obtain ⟨rfl, hroot'⟩ := List.cons.inj hroot
      obtain ⟨rfl, hplace'⟩ := List.cons.inj hplace
      exact ⟨rfl, parent, last, ext, rest', hroot', hext, hplace'⟩
  · intro ⟨hname, parent, last, ext, rest', hroot, hext, hplace⟩
    exact ⟨first :: parent, last, ext, rest', by rw [hroot]; rfl, hext, by rw [hplace, hname]; rfl⟩

theorem not_beside_nil {root : Place} : ¬ Beside root [] := by
  intro ⟨_, _, _, _, _, _, hplace⟩
  simp at hplace

theorem flat_prefix_iff {root place : Place} (hroot : ∀ name ∈ root, Ordinary name) (hne : root ≠ [])
    (hplace : ∀ name ∈ place, '/' ∉ name) :
    root.flatMap ('/' :: ·) <+: place.flatMap ('/' :: ·) ↔ root <+: place ∨ Beside root place := by
  induction root generalizing place with
  | nil => exact absurd rfl hne
  | cons first root ih =>
    cases place with
    | nil => simp [not_beside_nil]
    | cons name rest =>
      have hfirst := (hroot first List.mem_cons_self).2.2.2.1
      have hname := hplace name List.mem_cons_self
      have hrest : ∀ x ∈ rest, '/' ∉ x := fun x hx => hplace x (List.mem_cons_of_mem _ hx)
      rw [List.flatMap_cons, List.flatMap_cons, List.cons_append, List.cons_append, List.cons_prefix_cons]
      cases root with
      | nil =>
        -- The last name of the root: the text may end within the name.
        rw [List.flatMap_nil, List.append_nil, List.cons_prefix_cons, beside_singleton]
        constructor
        · intro ⟨_, h⟩
          obtain ⟨more, rfl⟩ := prefix_before_slash hfirst (flat_slash rest) h
          by_cases hmore : more = []
          · exact .inl (by simp [hmore])
          · exact .inr ⟨more, hmore, rfl⟩
        · rintro (⟨rfl, _⟩ | ⟨more, _, rfl⟩)
          · exact ⟨rfl, List.prefix_append _ _⟩
          · exact ⟨rfl, (List.prefix_append _ _).trans (List.prefix_append _ _)⟩
      | cons next more =>
        have hih := ih (fun x hx => hroot x (List.mem_cons_of_mem _ hx)) (by simp) hrest
        rw [beside_cons, List.cons_prefix_cons]
        constructor
        · intro ⟨_, h⟩
          obtain ⟨heq, h⟩ := cut_at_slash hfirst hname (flat_slash rest) h
          exact (hih.mp h).imp (And.intro heq) (And.intro heq)
        · intro h
          obtain ⟨rfl, hrest'⟩ : first = name ∧ (next :: more <+: rest ∨ Beside (next :: more) rest) :=
            h.elim (fun h => ⟨h.1, .inl h.2⟩) fun h => ⟨h.1, .inr h.2⟩
          exact ⟨rfl, (List.prefix_append_right_inj _).mpr (hih.mpr hrest')⟩

/-- **The prefix test.** As a text a place begins with `root` exactly when it is
`root`, or below it, or below a sibling whose name goes on. -/
theorem render_prefix_iff {root place : Place} (hroot : ∀ name ∈ root, Ordinary name) (hne : root ≠ [])
    (hplace : ∀ name ∈ place, '/' ∉ name) : render root <+: render place ↔ root <+: place ∨ Beside root place := by
  rw [render, if_neg hne, render]
  split
  · rename_i hnil
    subst hnil
    cases root with
    | nil => exact absurd rfl hne
    | cons name root =>
      obtain ⟨c, name, rfl⟩ := List.exists_cons_of_ne_nil (hroot name List.mem_cons_self).1
      simp [not_beside_nil]
  · exact flat_prefix_iff hroot hne hplace

end ContextBroker.FileTree
