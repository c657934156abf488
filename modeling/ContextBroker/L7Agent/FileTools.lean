import ContextBroker.Core.FileTree
import ContextBroker.L1Data.Schema
import Mathlib.Data.List.Sort

/-!
# The Imperator's file tools

`file_read`, `file_list`, `file_search` and `file_write` over a tree with
links. Each tool resolves its argument and compares the text of the place with
those of its roots; what it opens after that, it opens by the path.

The comparison does not stop at the end of a name: `/application` begins with
`/app`. And `file_search` opens the files of a directory it has compared, links
among them. `contained_iff`: a call stays inside exactly when neither takes it
outside.
-/
namespace ContextBroker.FileTools

open FileTree

structure Env where
  cwd : Place
  /-- `str(exc)` of an `OSError` about a path. -/
  describe : Errno → Text → Text
  /-- `re.compile(pattern, re.IGNORECASE).search`, or the text of its error. -/
  compile : Text → Except Text (Text → Bool)

structure Reply where
  text : Text
  /-- The files and directories whose content is in the text. -/
  read : List Place := []
  written : List Place := []

def readRoots : List Text := ["/app".toList, "/config".toList, "/data".toList]

def downloadsDir : Text := "/data/downloads".toList

/-- How deep `os.path.realpath` calls itself. -/
def recursionLimit : Nat := 1000

variable (env : Env) (t : Tree)

/-! ## The operating system -/

/-- `Path(path).resolve()`, of the names `names` below `path`; `none`: it raises. -/
def resolvePath (path : Text) (names : List Name) : Option Place :=
  t.realpath recursionLimit (Tree.start env.cwd path) (path.splitOn '/' ++ names)

/-- `os.path.join` -/
def joinPath (a b : Text) : Text :=
  if b.head? = some '/' then b
  else if a = [] ∨ a.getLast? = some '/' then a ++ b
  else a ++ '/' :: b

/-- The names of `os.path.dirname(path)`, for a path from the root. -/
def dirname (path : Text) : List Name := (path.splitOn '/').dropLast.filter (· ≠ [])

/-- `open(path)` -/
def openRead (path : Text) (names : List Name) : Except Errno (Place × Text) :=
  match t.lookup false env.cwd path names with
  | .error e => .error e
  | .ok place =>
    match t.node place with
    | some (.file content _) => .ok (place, content)
    | some .dir => .error .isDirectory
    | some (.link _) => .error .loop
    | none => .error .noEntry

/-- `open(path, "w")` -/
def openWrite (path : Text) : Except Errno Place :=
  match t.lookup true env.cwd path [] with
  | .error e => .error e
  | .ok place => if t.isDir place then .error .isDirectory else .ok place

/-- `os.path.isdir` -/
def leadsToDir (path : Text) (names : List Name) : Bool :=
  match t.lookup false env.cwd path names with
  | .error _ => false
  | .ok place => t.isDir place

/-- `os.walk`: the directories, as names below `path`, with the names in them
that lead to no directory. -/
def walk (path : Text) : Nat → List Name → List (List Name × List Name)
  | 0, _ => []
  | n + 1, below =>
    match t.lookup false env.cwd path below with
    | .error _ => []
    | .ok place =>
      if t.isDir place then
        (below, (t.children place).filter fun name => !leadsToDir env t path (below ++ [name])) ::
          -- Links to directories are not followed.
          ((t.children place).filter fun name => t.isDir (place ++ [name])).flatMap fun name =>
            walk path n (below ++ [name])
      else []

/-- The names of a path from the root, last name first. -/
def resolveReversed (t : Tree) (names : List Name) : Except Errno Place :=
  t.resolve false Tree.maxLinks [] names.reverse

/-- One `mkdir` of `makedirs(..., exist_ok=True)`. -/
def mkdirExistOk (t : Tree) (tail : Name) (head : List Name) : Tree × Except Errno Unit :=
  match (resolveReversed t head).bind fun place => t.mkdir place tail with
  | .ok t' => (t', .ok ())
  | .error e =>
    match resolveReversed t (tail :: head) with
    | .ok place => if t.isDir place then (t, .ok ()) else (t, .error e)
    | .error _ => (t, .error e)

/-- `os.makedirs(..., exist_ok=True)` of a path from the root, last name first. -/
def makedirs (t : Tree) : List Name → Tree × Except Errno Unit
  | [] => (t, .ok ())
  | tail :: head =>
    match resolveReversed t head with
    | .ok _ => mkdirExistOk t tail head
    | .error _ =>
      match makedirs t head with
      | (t', .error .exists) | (t', .ok ()) => if tail = ".".toList then (t', .ok ()) else mkdirExistOk t' tail head
      | (t', .error e) => (t', .error e)

/-! ## The tools -/

/-- mirrors tools/filesystem.py:26-32 -/
def isSafeReadPath (path : Text) (names : List Name) : Option Bool :=
  if Char.ofNat 0 ∈ path then some false
  else (resolvePath env t path names).map fun resolved => readRoots.any fun root => root.isPrefixOf (render resolved)

/-- mirrors tools/filesystem.py:35-41 -/
def isSafeWritePath (path : Text) : Option Bool :=
  if Char.ofNat 0 ∈ path then some false
  else (resolvePath env t path []).map fun resolved => downloadsDir.isPrefixOf (render resolved)

def accessDenied (path : Text) : Reply :=
  { text := "Access denied: ".toList ++ path ++ " is outside allowed directories.".toList }

/-- mirrors tools/filesystem.py:44-53 -/
def syncFileRead (path : Text) (maxChars : Int) : Reply :=
  match openRead env t path [] with
  | .ok (place, content) =>
    { text := if maxChars < 0 then content else content.take maxChars.toNat, read := [place] }
  | .error .noEntry => { text := "File not found: ".toList ++ path }
  | .error e => { text := "Error reading ".toList ++ path ++ ": ".toList ++ env.describe e path }

/-- mirrors tools/filesystem.py:57-69 -/
def fileRead (path : Text) (maxChars : Int) : Option Reply :=
  (isSafeReadPath env t path []).map fun safe =>
    if safe then syncFileRead env t path maxChars else accessDenied path

/-- One line of a listing. `os.path.getsize` raises for a link to nothing. -/
def entryLine (path : Text) (entry : Name) : Except Errno Text :=
  match t.lookup false env.cwd path [entry] with
  | .error e => .error e
  | .ok place =>
    match t.node place with
    | some .dir => .ok ("  ".toList ++ entry ++ "/".toList)
    | some (.file _ size) => .ok ("  ".toList ++ entry ++ " (".toList ++ (toString size).toList ++ " bytes)".toList)
    | some (.link _) => .error .loop
    | none => .error .noEntry

def entryLines (path : Text) : List Name → Except (Errno × Text) (List Text)
  | [] => .ok []
  | entry :: entries =>
    match entryLine env t path entry with
    | .error e => .error (e, joinPath path entry)
    | .ok line => (entryLines path entries).map (line :: ·)

/-- `a <= b`, by code points. -/
def textLe : Text → Text → Bool
  | [], _ => true
  | _ :: _, [] => false
  | a :: s, b :: t => a.toNat.blt b.toNat || a.toNat.beq b.toNat && textLe s t

def sorted (names : List Name) : List Name := names.insertionSort fun a b => textLe a b = true

/-- The listing of the directory at `place`, or the error and its path. -/
def listing (path : Text) : Except (Errno × Text) (Place × List Text) :=
  match t.lookup false env.cwd path [] with
  | .error e => .error (e, path)
  | .ok place =>
    if t.isDir place then
      (entryLines env t path (sorted (t.children place))).map fun lines =>
        (place, ("Contents of ".toList ++ path ++ " (".toList ++ (toString (t.children place).length).toList ++
          " entries):".toList) :: lines)
    else .error (.notDirectory, path)

/-- mirrors tools/filesystem.py:73-89 -/
def syncFileList (path : Text) : Reply :=
  match listing env t path with
  | .ok (place, lines) => { text := List.intercalate "\n".toList lines, read := [place] }
  | .error (.noEntry, _) => { text := "Directory not found: ".toList ++ path }
  | .error (e, about) => { text := "Error listing ".toList ++ path ++ ": ".toList ++ env.describe e about }

/-- mirrors tools/filesystem.py:93-103 -/
def fileList (path : Text) : Option Reply :=
  (isSafeReadPath env t path []).map fun safe => if safe then syncFileList env t path else accessDenied path

/-- The lines of an open file, with their ends. -/
def fileLines : Text → List Text
  | [] => []
  | c :: content =>
    if c = '\n' then [c] :: fileLines content
    else
      match fileLines content with
      | [] => [[c]]
      | line :: lines => (c :: line) :: lines

def rstrip (line : Text) : Text := (line.reverse.dropWhile isSpace).reverse

structure Match where
  source : Place
  line : Text

/-- What `file_search` finds in one file. -/
def fileMatches (path : Text) (search : Text → Bool) (file : List Name × Name) : List Match :=
  match openRead env t path (file.1 ++ [file.2]) with
  | .error _ => []
  | .ok (place, content) =>
    ((fileLines content).zipIdx 1).filterMap fun (line, i) =>
      if search line then
        some ⟨place, List.intercalate "/".toList (file.1 ++ [file.2]) ++ ":".toList ++ (toString i).toList ++
          ": ".toList ++ (rstrip line).take 120⟩
      else none

/-- The files of one directory. -/
def searchFiles (path : Text) (search : Text → Bool) (maxResults : Int) :
    List (List Name × Name) → List Match → List Match
  | [], results => results
  | file :: files, results =>
    if maxResults ≤ results.length then results
    else
      let found := (fileMatches env t path search file).take (maxResults - results.length).toNat
      searchFiles path search maxResults files (results ++ found)

def searchRoots (path : Text) (search : Text → Bool) (maxResults : Int) :
    List (List Name × List Name) → List Match → Option (List Match)
  | [], results => some results
  | (below, files) :: roots, results =>
    match isSafeReadPath env t path below with
    | none => none
    | some false => searchRoots path search maxResults roots results
    | some true =>
      searchRoots path search maxResults roots
        (searchFiles env t path search maxResults ((sorted files).map fun name => (below, name)) results)

/-- mirrors tools/filesystem.py:107-133 -/
def syncFileSearch (path pattern : Text) (search : Text → Bool) (maxResults : Int) : Option Reply :=
  (searchRoots env t path search maxResults (walk env t path (t.depth + 1) []) []).map fun results =>
    if results = [] then { text := "No matches for '".toList ++ pattern ++ "' in ".toList ++ path }
    else { text := List.intercalate "\n".toList (results.map (·.line)), read := results.map (·.source) }

/-- mirrors tools/filesystem.py:137-156 -/
def fileSearch (path pattern : Text) (maxResults : Int) : Option Reply :=
  (isSafeReadPath env t path []).bind fun safe =>
    if safe then
      match env.compile pattern with
      | .error error => some { text := "Invalid regex: ".toList ++ error }
      | .ok search => syncFileSearch env t path pattern search maxResults
    else some (accessDenied path)

/-- The bytes of a text in UTF-8. -/
def encodedSize (content : Text) : Nat := Rows.total Char.utf8Size content

/-- mirrors tools/filesystem.py:159-167 -/
def syncFileWrite (path content : Text) : Tree × Reply :=
  let error (e : Errno) : Reply := { text := "Error writing ".toList ++ path ++ ": ".toList ++ env.describe e path }
  match makedirs t (dirname path).reverse with
  | (t', .error e) => (t', error e)
  | (t', .ok ()) =>
    match openWrite env t' path with
    | .error e => (t', error e)
    | .ok place =>
      let reply : Reply :=
        { text := "Written ".toList ++ (toString content.length).toList ++ " chars to ".toList ++ path
          written := [place] }
      if hplace : ∀ name ∈ place, Ordinary name then
        (t'.put place hplace (.file content (encodedSize content)), reply)
      else (t', reply)

/-- The path that `file_write` takes its argument for. -/
def writePath (path : Text) : Text :=
  if downloadsDir.isPrefixOf path then path else joinPath downloadsDir (path.dropWhile (· = '/'))

/-- mirrors tools/filesystem.py:171-189 -/
def fileWrite (path content : Text) : Option (Tree × Reply) :=
  (isSafeWritePath env t (writePath path)).map fun safe =>
    if safe then syncFileWrite env t (writePath path) content
    else (t, { text := "Access denied: can only write to ".toList ++ downloadsDir })

inductive Call where
  | fileRead (path : Text) (maxChars : Int := 50000)
  | fileList (path : Text := "/app".toList)
  | fileSearch (path pattern : Text) (maxResults : Int := 20)
  | fileWrite (path content : Text)

/-- The tree after the call and its reply; `none`: it raises. -/
def run : Call → Option (Tree × Reply)
  | .fileRead path maxChars => (fileRead env t path maxChars).map (t, ·)
  | .fileList path => (fileList env t path).map (t, ·)
  | .fileSearch path pattern maxResults => (fileSearch env t path pattern maxResults).map (t, ·)
  | .fileWrite path content => fileWrite env t path content

/-! ## Where the tools may be -/

def readPlaces : List Place := [["app".toList], ["config".toList], ["data".toList]]

def downloads : Place := ["data".toList, "downloads".toList]

def Inside (place : Place) : Prop := ∃ root ∈ readPlaces, root <+: place

/-- Under a name that begins with that of a root and goes on. -/
def BesideRoots (place : Place) : Prop := ∃ root ∈ readPlaces, Beside root place

/-- What is in the text lies inside, and what is written below the downloads. -/
def Reply.Contained (reply : Reply) : Prop :=
  (∀ place ∈ reply.read, Inside place) ∧ ∀ place ∈ reply.written, downloads <+: place ∧ place ≠ downloads

theorem Reply.Contained.of_nothing {reply : Reply} (hread : reply.read = []) (hwritten : reply.written = []) :
    reply.Contained :=
  ⟨by simp [hread], by simp [hwritten]⟩

theorem BesideRoots.not_inside {place : Place} (h : BesideRoots place) : ¬ Inside place := by
  intro ⟨root', hroot', hprefix⟩
  obtain ⟨root, hroot, hbeside⟩ := h
  by_cases heq : root = root'
  · exact hbeside.not_prefix (heq ▸ hprefix)
  · obtain ⟨name, rest, rfl⟩ : ∃ name rest, place = name :: rest := by
      cases place with
      | nil => exact absurd hbeside not_beside_nil
      | cons name rest => exact ⟨name, rest, rfl⟩
    simp only [readPlaces, List.mem_cons, List.not_mem_nil, or_false] at hroot hroot'
    -- No root's name begins with another's.
    rcases hroot with rfl | rfl | rfl <;> rcases hroot' with rfl | rfl | rfl <;>
      first
      | exact absurd rfl heq
      | (obtain ⟨more, _, rfl⟩ := beside_singleton.mp hbeside
         simp [List.cons_prefix_cons] at hprefix)

theorem Inside.append {place : Place} (h : Inside place) (below : Place) : Inside (place ++ below) := by
  obtain ⟨root, hroot, hprefix⟩ := h
  exact ⟨root, hroot, hprefix.trans (List.prefix_append _ _)⟩

theorem BesideRoots.append {place : Place} (h : BesideRoots place) (below : Place) : BesideRoots (place ++ below) := by
  obtain ⟨root, hroot, parent, last, more, rest, heq, hmore, rfl⟩ := h
  exact ⟨root, hroot, parent, last, more, rest ++ below, heq, hmore, by simp⟩

/-! ## What the guards say -/

variable {env t}

theorem resolvePath_of_lookup {create : Bool} {path : Text} {names : List Name} {place : Place}
    (h : t.lookup create env.cwd path names = .ok place) : resolvePath env t path names = some place :=
  Tree.realpath_mono (by decide) (Tree.follows_of_lookup h).realpath

theorem isSafeReadPath_of_lookup {path : Text} {names : List Name} {place : Place}
    (h : t.lookup false env.cwd path names = .ok place) :
    ∃ safe, isSafeReadPath env t path names = some safe ∧ (safe = true ↔ Inside place ∨ BesideRoots place) := by
  refine ⟨_, by rw [isSafeReadPath, if_neg (Tree.nul_not_mem_of_lookup h), resolvePath_of_lookup h]; rfl, ?_⟩
  have hroots : readRoots = readPlaces.map render := by decide
  have hplaces : ∀ root ∈ readPlaces, (∀ name ∈ root, Ordinary name) ∧ root ≠ [] := by decide
  have hordinary := Tree.ordinary_of_lookup h
  show readRoots.any (fun root => root.isPrefixOf (render place)) = true ↔ Inside place ∨ BesideRoots place
  rw [hroots, List.any_map, List.any_eq_true, Inside, BesideRoots, ← exists_or]
  refine exists_congr fun root => ?_
  rw [← and_or_left]
  refine and_congr_right fun hroot => ?_
  obtain ⟨hnames, hne⟩ := hplaces root hroot
  rw [← render_prefix_iff hnames hne fun name hname => (hordinary name hname).2.2.2.1]
  exact List.isPrefixOf_iff_prefix

theorem isSafeWritePath_of_resolved {path : Text} {place : Place} (hnul : Char.ofNat 0 ∉ path)
    (h : resolvePath env t path [] = some place) (hordinary : ∀ name ∈ place, Ordinary name) :
    ∃ safe, isSafeWritePath env t path = some safe ∧ (safe = true ↔ downloads <+: place ∨ Beside downloads place) := by
  refine ⟨_, by rw [isSafeWritePath, if_neg hnul, h]; rfl, ?_⟩
  have hdownloads : downloadsDir = render downloads := by decide
  rw [hdownloads, ← render_prefix_iff (by decide) (by decide) fun name hname => (hordinary name hname).2.2.2.1]
  exact List.isPrefixOf_iff_prefix

/-! ## One file, one directory -/

theorem openRead_ok {path : Text} {names : List Name} {place : Place} {content : Text}
    (h : openRead env t path names = .ok (place, content)) : t.lookup false env.cwd path names = .ok place := by
  unfold openRead at h
  split at h
  · cases h
  · rename_i q hq
    split at h
    · obtain ⟨rfl, _⟩ := Prod.mk.inj (Except.ok.inj h)
      exact hq
    all_goals cases h

/-- What is opened is where the links lead. -/
theorem openRead_real {path : Text} {names : List Name} {place : Place} {content : Text} (hcwd : t.Real env.cwd)
    (h : openRead env t path names = .ok (place, content)) : t.Real place :=
  (Tree.follows_of_lookup (openRead_ok h)).real (hcwd.start path)

/-- A guarded tool that reads `place`. -/
theorem guarded_contained_iff {path : Text} {place : Place} {reply : Reply}
    (h : t.lookup false env.cwd path [] = .ok place) (hread : reply.read = [place]) (hwritten : reply.written = []) :
    (∀ r, ((isSafeReadPath env t path []).map fun safe => if safe then reply else accessDenied path) = some r →
      r.Contained) ↔ ¬ BesideRoots place := by
  obtain ⟨safe, hsafe, hiff⟩ := isSafeReadPath_of_lookup h
  rw [hsafe]
  constructor
  · intro hcontained hbeside
    have hr := hcontained reply (by rw [hiff.mpr (.inr hbeside)]; rfl)
    exact hbeside.not_inside (hr.1 place (by rw [hread]; exact List.mem_cons_self))
  · intro hbeside r hr
    obtain rfl := Option.some.inj hr
    cases safe with
    | true =>
      show reply.Contained
      refine ⟨fun q hq => ?_, fun q hq => ?_⟩
      · rw [hread, List.mem_singleton] at hq
        exact hq ▸ (hiff.mp rfl).resolve_right hbeside
      · rw [hwritten] at hq
        cases hq
    | false => exact .of_nothing rfl rfl

theorem contained_of_error {path : Text} {reply : Reply} (hread : reply.read = []) (hwritten : reply.written = []) :
    ∀ r, ((isSafeReadPath env t path []).map fun safe => if safe then reply else accessDenied path) = some r →
      r.Contained := by
  intro r hr
  obtain ⟨safe, _, rfl⟩ := Option.map_eq_some_iff.mp hr
  cases safe with
  | true => exact .of_nothing hread hwritten
  | false => exact .of_nothing rfl rfl

theorem fileRead_contained_iff (path : Text) (maxChars : Int) :
    (∀ reply, fileRead env t path maxChars = some reply → reply.Contained) ↔
      ∀ place content, openRead env t path [] = .ok (place, content) → ¬ BesideRoots place := by
  unfold fileRead syncFileRead
  cases hopen : openRead env t path [] with
  | error e =>
    refine iff_of_true (contained_of_error ?_ ?_) fun _ _ h => by cases h
    all_goals cases e <;> rfl
  | ok result =>
    obtain ⟨place, content⟩ := result
    rw [guarded_contained_iff (openRead_ok hopen) rfl rfl]
    constructor
    · intro hbeside q content' hq
      obtain ⟨rfl, _⟩ := Prod.mk.inj (Except.ok.inj hq)
      exact hbeside
    · exact fun h => h place content rfl

theorem entryLines_ok_iff {path : Text} {entries : List Name} :
    (∃ lines, entryLines env t path entries = .ok lines) ↔
      ∀ entry ∈ entries, ∃ line, entryLine env t path entry = .ok line := by
  induction entries with
  | nil => simp [entryLines]
  | cons entry entries ih =>
    rw [List.forall_mem_cons, ← ih, entryLines]
    cases hentry : entryLine env t path entry with
    | error e => simp
    | ok line =>
      cases hrest : entryLines env t path entries with
      | error e => simp [Except.map]
      | ok lines => simp [Except.map]

/-- A directory is listed if the size of everything in it can be read. -/
theorem listing_ok_iff {path : Text} {place : Place} :
    (∃ lines, listing env t path = .ok (place, lines)) ↔
      t.lookup false env.cwd path [] = .ok place ∧ t.isDir place ∧
        ∀ entry ∈ t.children place, ∃ line, entryLine env t path entry = .ok line := by
  unfold listing
  cases hlookup : t.lookup false env.cwd path [] with
  | error e => simp
  | ok q =>
    by_cases hdir : t.isDir q
    · have hentries := @entryLines_ok_iff env t path (sorted (t.children q))
      simp only [sorted, List.mem_insertionSort] at hentries
      simp only [if_pos hdir, Except.ok.injEq]
      constructor
      · intro ⟨lines, h⟩
        cases hlines : entryLines env t path (sorted (t.children q)) with
        | error e => simp [hlines, Except.map] at h
        | ok found =>
          obtain rfl : q = place := by simp [hlines, Except.map] at h; exact h.1
          exact ⟨rfl, hdir, hentries.mp ⟨found, hlines⟩⟩
      · intro ⟨hq, _, hall⟩
        subst hq
        obtain ⟨found, hfound⟩ := hentries.mpr hall
        exact ⟨_, by rw [sorted, hfound]; rfl⟩
    · constructor
      · intro ⟨lines, h⟩
        simp [if_neg hdir] at h
      · intro ⟨hq, hdir', _⟩
        exact absurd (Except.ok.inj hq ▸ hdir') hdir

theorem fileList_contained_iff (path : Text) :
    (∀ reply, fileList env t path = some reply → reply.Contained) ↔
      ∀ place, t.lookup false env.cwd path [] = .ok place → t.isDir place →
        (∀ entry ∈ t.children place, ∃ line, entryLine env t path entry = .ok line) → ¬ BesideRoots place := by
  unfold fileList syncFileList
  cases hlisting : listing env t path with
  | error e =>
    obtain ⟨e, about⟩ := e
    refine iff_of_true (contained_of_error ?_ ?_) fun place hplace hdir hentries => ?_
    · cases e <;> rfl
    · cases e <;> rfl
    · obtain ⟨lines, hok⟩ := listing_ok_iff.mpr ⟨hplace, hdir, hentries⟩
      rw [hlisting] at hok
      cases hok
  | ok result =>
    obtain ⟨place, lines⟩ := result
    obtain ⟨hplace, hdir, hentries⟩ := listing_ok_iff.mp ⟨lines, hlisting⟩
    rw [guarded_contained_iff hplace rfl rfl]
    constructor
    · intro hbeside q hq _ _
      obtain rfl : place = q := Except.ok.inj (hplace.symm.trans hq)
      exact hbeside
    · exact fun h => h place hplace hdir hentries

/-! ## Writing -/

theorem mkdirExistOk_realpath (t : Tree) (tail : Name) (head : List Name) (n : Nat) (cur : Place) (names : List Name) :
    (mkdirExistOk t tail head).1.realpath n cur names = t.realpath n cur names := by
  unfold mkdirExistOk
  cases hmkdir : (resolveReversed t head).bind fun place => t.mkdir place tail with
  | ok t' =>
    cases hplace : resolveReversed t head with
    | error e => simp [hplace, Except.bind] at hmkdir
    | ok place =>
      rw [hplace] at hmkdir
      exact Tree.realpath_mkdir hmkdir n cur names
  | error e =>
    dsimp only
    split
    · split <;> rfl
    · rfl

/-- The new directories lead no path elsewhere. -/
theorem makedirs_realpath (t : Tree) (path : List Name) (n : Nat) (cur : Place) (names : List Name) :
    (makedirs t path).1.realpath n cur names = t.realpath n cur names := by
  induction path with
  | nil => rfl
  | cons tail head ih =>
    unfold makedirs
    split
    · exact mkdirExistOk_realpath t tail head n cur names
    · cases hmake : makedirs t head with | mk t' result =>
      rw [hmake] at ih
      have hafter : Tree.realpath (if tail = ".".toList then (t', Except.ok ()) else mkdirExistOk t' tail head).1 n cur names =
          t.realpath n cur names := by
        split
        · exact ih
        · rw [mkdirExistOk_realpath]
          exact ih
      cases result with
      | ok => exact hafter
      | error e => cases e <;> first | exact hafter | exact ih

theorem openWrite_ok {path : Text} {place : Place} (h : openWrite env t path = .ok place) :
    t.lookup true env.cwd path [] = .ok place := by
  unfold openWrite at h
  split at h
  · cases h
  · rename_i q hq
    split at h
    · cases h
    · exact hq.trans h

/-- The guard and `open` speak of one place, although `makedirs` comes between. -/
theorem isSafeWritePath_of_openWrite {path : Text} {names : List Name} {place : Place}
    (h : openWrite env (makedirs t names).1 path = .ok place) :
    ∃ safe, isSafeWritePath env t path = some safe ∧ (safe = true ↔ downloads <+: place ∨ Beside downloads place) := by
  have hlookup := openWrite_ok h
  have hresolved := resolvePath_of_lookup hlookup
  rw [resolvePath, makedirs_realpath] at hresolved
  exact isSafeWritePath_of_resolved (Tree.nul_not_mem_of_lookup hlookup) hresolved (Tree.ordinary_of_lookup hlookup)

/-- What is written is the file that `open` finds behind the new directories. -/
theorem syncFileWrite_reply (path content : Text) :
    (syncFileWrite env t path content).2.read = [] ∧
      ∀ place, place ∈ (syncFileWrite env t path content).2.written ↔
        (makedirs t (dirname path).reverse).2 = .ok () ∧
          openWrite env (makedirs t (dirname path).reverse).1 path = .ok place := by
  unfold syncFileWrite
  cases hmake : makedirs t (dirname path).reverse with | mk t' result =>
  cases result with
  | error e => simp
  | ok =>
    dsimp only
    cases hopen : openWrite env t' path with
    | error e => exact ⟨rfl, fun q => ⟨fun h => (nomatch h), fun h => (nomatch h.2)⟩⟩
    | ok place =>
      have hplace : ∀ q, q ∈ [place] ↔ Except.ok () = (Except.ok () : Except Errno Unit) ∧
          (Except.ok place : Except Errno Place) = .ok q := by
        intro q
        rw [List.mem_singleton]
        exact ⟨fun h => ⟨rfl, h ▸ rfl⟩, fun h => (Except.ok.inj h.2).symm⟩
      dsimp only
      split
      · exact ⟨rfl, hplace⟩
      · exact ⟨rfl, hplace⟩

theorem fileWrite_contained_iff (path content : Text) :
    (∀ t' reply, fileWrite env t path content = some (t', reply) → reply.Contained) ↔
      ∀ place, (makedirs t (dirname (writePath path)).reverse).2 = .ok () →
        openWrite env (makedirs t (dirname (writePath path)).reverse).1 (writePath path) = .ok place →
        place ≠ downloads ∧ ¬ Beside downloads place := by
  obtain ⟨hread, hwritten⟩ := @syncFileWrite_reply env t (writePath path) content
  constructor
  · intro hcontained place hmake hopen
    obtain ⟨safe, hsafe, hiff⟩ := isSafeWritePath_of_openWrite hopen
    cases safe with
    | true =>
      have hreply := hcontained _ _ (by rw [fileWrite, hsafe]; rfl)
      obtain ⟨hbelow, hne⟩ := hreply.2 place ((hwritten place).mpr ⟨hmake, hopen⟩)
      exact ⟨hne, fun hbeside => hbeside.not_prefix hbelow⟩
    | false =>
      obtain ⟨hbelow, hbeside⟩ := not_or.mp fun h => Bool.false_ne_true (hiff.mpr h)
      exact ⟨fun heq => hbelow (heq ▸ List.prefix_rfl), hbeside⟩
  · intro hsafeplace t' reply hreply
    obtain ⟨safe, hsafe, heq⟩ := Option.map_eq_some_iff.mp hreply
    cases safe with
    | false =>
      obtain ⟨_, rfl⟩ := Prod.mk.inj heq
      exact .of_nothing rfl rfl
    | true =>
      obtain rfl : (syncFileWrite env t (writePath path) content).2 = reply := congrArg Prod.snd heq
      refine ⟨by simp [hread], fun place hplace => ?_⟩
      obtain ⟨hmake, hopen⟩ := (hwritten place).mp hplace
      obtain ⟨hne, hbeside⟩ := hsafeplace place hmake hopen
      obtain ⟨safe, hsafe', hiff⟩ := isSafeWritePath_of_openWrite hopen
      obtain rfl : safe = true := Option.some.inj (hsafe'.symm.trans hsafe)
      exact ⟨(hiff.mp rfl).resolve_right hbeside, hne⟩

/-! ## Searching -/

/-- What `file_search` opens, in its order. -/
def walkedFiles (env : Env) (t : Tree) (path : Text) : List (List Name × Name) :=
  (walk env t path (t.depth + 1) []).flatMap fun root => (sorted root.2).map fun name => (root.1, name)

/-- The walk stays in directories below the one it starts in. -/
theorem walk_below {path : Text} {n : Nat} {below : List Name} {top : Place}
    (h : t.lookup false env.cwd path below = .ok top) :
    ∀ root ∈ walk env t path n below, ∃ dir, t.lookup false env.cwd path root.1 = .ok dir ∧ t.isDir dir ∧ top <+: dir ∧
      ∀ name ∈ root.2, (t.node (dir ++ [name])).isSome := by
  induction n generalizing below top with
  | zero => simp [walk]
  | succ n ih =>
    intro root hroot
    rw [walk, h] at hroot
    dsimp only at hroot
    split at hroot
    · rename_i hdir
      rcases List.mem_cons.mp hroot with rfl | hroot
      · refine ⟨top, h, hdir, List.prefix_rfl, fun name hname => ?_⟩
        exact Tree.mem_children.mp (List.mem_of_mem_filter hname)
      · obtain ⟨name, hname, hroot⟩ := List.mem_flatMap.mp hroot
        have hsub : t.node (top ++ [name]) = some .dir := of_decide_eq_true (List.mem_filter.mp hname).2
        obtain ⟨dir, hlookup, hdir', hprefix, hnames⟩ := ih (Tree.lookup_snoc h hdir hsub (by simp)) root hroot
        exact ⟨dir, hlookup, hdir', (List.prefix_append _ _).trans hprefix, hnames⟩
    · cases hroot

theorem walk_succ {path : Text} {n : Nat} {below : List Name}
    (h : ∀ place, t.lookup false env.cwd path below = .ok place → t.depth < place.length + n) :
    walk env t path (n + 1) below = walk env t path n below := by
  induction n generalizing below with
  | zero =>
    rw [walk, walk]
    split
    · rfl
    · rename_i place hplace
      refine if_neg fun hdir => ?_
      have hdepth := Tree.length_le_depth (of_decide_eq_true hdir)
      have := h place hplace
      omega
  | succ n ih =>
    rw [walk, walk]
    split
    · rfl
    · rename_i place hplace
      split
      · rename_i hdir
        congr 1
        refine List.flatMap_congr fun name hname => ih fun place' hplace' => ?_
        have hsub : t.node (place ++ [name]) = some .dir := of_decide_eq_true (List.mem_filter.mp hname).2
        have hnext := Tree.lookup_snoc hplace hdir hsub (by simp)
        obtain rfl : place ++ [name] = place' := Except.ok.inj (hnext.symm.trans hplace')
        have := h place hplace
        rw [List.length_append, List.length_singleton]
        omega
      · rfl

/-- One step more than the tree is deep is enough. -/
theorem walk_complete (path : Text) (n : Nat) :
    walk env t path (t.depth + 1 + n) [] = walk env t path (t.depth + 1) [] := by
  induction n with
  | zero => rfl
  | succ n ih => rw [← ih, ← Nat.add_assoc, walk_succ fun place _ => by omega]

theorem walk_of_error {path : Text} {e : Errno} (h : t.lookup false env.cwd path [] = .error e) (n : Nat) :
    walk env t path n [] = [] := by
  cases n with
  | zero => rfl
  | succ n => rw [walk, h]

/-- Below a directory that is let through all are. -/
theorem isSafeReadPath_below {path : Text} (hsafe : isSafeReadPath env t path [] = some true) :
    ∀ root ∈ walk env t path (t.depth + 1) [], isSafeReadPath env t path root.1 = some true ∧
      ∃ dir, t.lookup false env.cwd path root.1 = .ok dir ∧ t.isDir dir ∧ (Inside dir ∨ BesideRoots dir) ∧
        ∀ name ∈ root.2, (t.node (dir ++ [name])).isSome := by
  intro root hroot
  cases htop : t.lookup false env.cwd path [] with
  | error e =>
    rw [walk_of_error htop] at hroot
    cases hroot
  | ok top =>
    obtain ⟨safe, hsafe', hiff⟩ := isSafeReadPath_of_lookup htop
    obtain rfl : safe = true := Option.some.inj (hsafe'.symm.trans hsafe)
    obtain ⟨dir, hlookup, hdir, ⟨below, rfl⟩, hnames⟩ := walk_below htop root hroot
    have hguard : Inside (top ++ below) ∨ BesideRoots (top ++ below) :=
      (hiff.mp rfl).imp (fun h => h.append below) fun h => h.append below
    obtain ⟨safe, hroot', hiff'⟩ := isSafeReadPath_of_lookup hlookup
    exact ⟨by rw [hroot', hiff'.mpr hguard], top ++ below, hlookup, hdir, hguard, hnames⟩

/-- The loop stops at the limit: it returns the first lines of all it could find. -/
theorem searchFiles_eq {path : Text} {search : Text → Bool} {maxResults : Int} (files : List (List Name × Name))
    {results : List Match} (hle : results.length ≤ maxResults.toNat) :
    searchFiles env t path search maxResults files results =
      results ++ (files.flatMap (fileMatches env t path search)).take (maxResults.toNat - results.length) := by
  induction files generalizing results with
  | nil => simp [searchFiles]
  | cons file files ih =>
    rw [searchFiles]
    split
    · rename_i hfull
      have hzero : maxResults.toNat - results.length = 0 := by omega
      simp [hzero]
    · rename_i hroom
      have hcount : (maxResults - results.length).toNat = maxResults.toNat - results.length := by omega
      dsimp only
      rw [hcount, ih (by rw [List.length_append, List.length_take]; omega), List.flatMap_cons, List.take_append,
        List.length_append, List.length_take, List.append_assoc]
      congr 3
      omega

theorem searchFiles_append {path : Text} {search : Text → Bool} {maxResults : Int} (a b : List (List Name × Name))
    (results : List Match) :
    searchFiles env t path search maxResults (a ++ b) results =
      searchFiles env t path search maxResults b (searchFiles env t path search maxResults a results) := by
  induction a generalizing results with
  | nil => rfl
  | cons file a ih =>
    rw [List.cons_append, searchFiles, searchFiles]
    split
    · rename_i hfull
      cases b with
      | nil => rfl
      | cons file' b => rw [searchFiles, if_pos hfull]
    · exact ih _

theorem searchRoots_eq {path : Text} {search : Text → Bool} {maxResults : Int} {roots : List (List Name × List Name)}
    (hsafe : ∀ root ∈ roots, isSafeReadPath env t path root.1 = some true) (results : List Match) :
    searchRoots env t path search maxResults roots results =
      some (searchFiles env t path search maxResults
        (roots.flatMap fun root => (sorted root.2).map fun name => (root.1, name)) results) := by
  induction roots generalizing results with
  | nil => rfl
  | cons root roots ih =>
    obtain ⟨hroot, hroots⟩ := List.forall_mem_cons.mp hsafe
    rw [searchRoots, hroot]
    dsimp only
    rw [ih hroots, List.flatMap_cons, searchFiles_append]

/-- What is among the first `k` of all the lists together. -/
theorem mem_take_flatMap {α β : Type} {g : α → List β} {l : List α} {k : Nat} {m : β} :
    m ∈ (l.flatMap g).take k ↔
      ∃ earlier x later, l = earlier ++ x :: later ∧ m ∈ (g x).take (k - (earlier.flatMap g).length) := by
  constructor
  · intro h
    induction l generalizing k with
    | nil => simp at h
    | cons x l ih =>
      rw [List.flatMap_cons, List.take_append, List.mem_append] at h
      rcases h with h | h
      · exact ⟨[], x, l, rfl, by simpa using h⟩
      · obtain ⟨earlier, y, later, rfl, hy⟩ := ih h
        refine ⟨x :: earlier, y, later, rfl, ?_⟩
        rwa [List.flatMap_cons, List.length_append, Nat.sub_add_eq]
  · intro ⟨earlier, x, later, hl, h⟩
    rw [hl, List.flatMap_append, List.flatMap_cons, List.take_append, List.take_append]
    exact List.mem_append_right _ (List.mem_append_left _ h)

/-- A link leads inside, and anything else is in no directory whose name goes
on after a root's. -/
def FileSafe (env : Env) (t : Tree) (path : Text) (file : List Name × Name) : Prop :=
  ∀ dir, t.lookup false env.cwd path file.1 = .ok dir →
    ((∃ target, t.node (dir ++ [file.2]) = some (.link target)) →
      ∀ place content, openRead env t path (file.1 ++ [file.2]) = .ok (place, content) → Inside place) ∧
    ((∀ target, t.node (dir ++ [file.2]) ≠ some (.link target)) → ¬ BesideRoots dir)

theorem fileMatches_source {path : Text} {search : Text → Bool} {file : List Name × Name} {m : Match}
    (h : m ∈ fileMatches env t path search file) :
    ∃ content, openRead env t path (file.1 ++ [file.2]) = .ok (m.source, content) := by
  unfold fileMatches at h
  cases hopen : openRead env t path (file.1 ++ [file.2]) with
  | error e => simp [hopen] at h
  | ok result =>
    obtain ⟨place, content⟩ := result
    rw [hopen] at h
    obtain ⟨_, _, hm⟩ := List.mem_filterMap.mp h
    obtain ⟨_, rfl⟩ := Option.ite_none_right_eq_some.mp hm |>.imp_right Option.some.inj
    exact ⟨content, rfl⟩

/-- A file that is found in a directory let through. -/
theorem fileSafe_iff {path : Text} {below : List Name} {name : Name} {dir place : Place} {content : Text}
    (hdir : t.lookup false env.cwd path below = .ok dir) (hisDir : t.isDir dir) (hguard : Inside dir ∨ BesideRoots dir)
    (hnode : (t.node (dir ++ [name])).isSome) (hopen : openRead env t path (below ++ [name]) = .ok (place, content)) :
    FileSafe env t path (below, name) ↔ Inside place := by
  obtain ⟨n, hn⟩ := Option.isSome_iff_exists.mp hnode
  by_cases hlink : ∃ target, n = .link target
  · obtain ⟨target, rfl⟩ := hlink
    constructor
    · exact fun h => (h dir hdir).1 ⟨target, hn⟩ place content hopen
    · intro hinside dir' hdir'
      obtain rfl : dir = dir' := Except.ok.inj (hdir.symm.trans hdir')
      refine ⟨fun _ place' content' hopen' => ?_, fun hplain => absurd hn (hplain target)⟩
      obtain ⟨rfl, _⟩ := Prod.mk.inj (Except.ok.inj (hopen.symm.trans hopen'))
      exact hinside
  · have hplain : ∀ target, n ≠ .link target := fun target h => hlink ⟨target, h⟩
    obtain rfl : dir ++ [name] = place :=
      Except.ok.inj ((Tree.lookup_snoc hdir hisDir hn hplain).symm.trans (openRead_ok hopen))
    have hnot : ∀ target, t.node (dir ++ [name]) ≠ some (.link target) :=
      fun target h => hplain target (Option.some.inj (hn.symm.trans h))
    constructor
    · exact fun h => (hguard.resolve_right ((h dir hdir).2 hnot)).append [name]
    · intro hinside dir' hdir'
      obtain rfl : dir = dir' := Except.ok.inj (hdir.symm.trans hdir')
      exact ⟨fun ⟨target, h⟩ => absurd h (hnot target), fun _ hbeside => (hbeside.append [name]).not_inside hinside⟩

theorem fileSearch_eq {path pattern : Text} {search : Text → Bool} {maxResults : Int}
    (hsafe : isSafeReadPath env t path [] = some true) (hcompile : env.compile pattern = .ok search) :
    ∃ reply, fileSearch env t path pattern maxResults = some reply ∧ reply.written = [] ∧
      let found := (walkedFiles env t path).flatMap (fileMatches env t path search)
      reply.read = (found.take maxResults.toNat).map (·.source) := by
  have hroots : ∀ root ∈ walk env t path (t.depth + 1) [], isSafeReadPath env t path root.1 = some true :=
    fun root hroot => (isSafeReadPath_below hsafe root hroot).1
  unfold fileSearch syncFileSearch
  simp only [hsafe, Option.bind_some, if_true, hcompile, searchRoots_eq hroots, Option.map_some]
  rw [searchFiles_eq _ (by simp)]
  refine ⟨_, rfl, ?_, ?_⟩
  · split <;> rfl
  · split
    · rename_i hnil
      simp only [List.nil_append, List.length_nil, Nat.sub_zero] at hnil
      rw [walkedFiles, hnil]
      rfl
    · simp only [List.nil_append, List.length_nil, Nat.sub_zero, walkedFiles]

/-- A file of the walk is safe when the source of its lines is inside. -/
theorem fileSafe_iff_of_walked {path : Text} {search : Text → Bool} {file : List Name × Name} {m : Match}
    (hsafe : isSafeReadPath env t path [] = some true) (hwalked : file ∈ walkedFiles env t path)
    (hm : m ∈ fileMatches env t path search file) : FileSafe env t path file ↔ Inside m.source := by
  obtain ⟨root, hroot, hmem⟩ := List.mem_flatMap.mp hwalked
  obtain ⟨name, hname, rfl⟩ := List.mem_map.mp hmem
  obtain ⟨_, dir, hdir, hisDir, hguard, hnames⟩ := isSafeReadPath_below hsafe root hroot
  obtain ⟨content, hopen⟩ := fileMatches_source hm
  exact fileSafe_iff hdir hisDir hguard (hnames name ((List.mem_insertionSort _).mp hname)) hopen

theorem fileSearch_contained_iff (path pattern : Text) (maxResults : Int) :
    (∀ reply, fileSearch env t path pattern maxResults = some reply → reply.Contained) ↔
      (isSafeReadPath env t path [] = some true → ∀ search, env.compile pattern = .ok search →
        ∀ earlier file later, walkedFiles env t path = earlier ++ file :: later →
          ((earlier.flatMap (fileMatches env t path search)).length : Int) < maxResults →
            fileMatches env t path search file ≠ [] → FileSafe env t path file) := by
  by_cases hsafe : isSafeReadPath env t path [] = some true
  · cases hcompile : env.compile pattern with
    | error e =>
      refine iff_of_true (fun reply hreply => ?_) fun _ search h => by cases h
      simp only [fileSearch, hsafe, hcompile, Option.bind_some, if_true, Option.some.injEq] at hreply
      exact hreply ▸ .of_nothing rfl rfl
    | ok search =>
      obtain ⟨reply, hreply, hwritten, hread⟩ := @fileSearch_eq env t path pattern search maxResults hsafe hcompile
      constructor
      · intro hcontained _ search' hsearch earlier file later hsplit hroom hfound
        obtain rfl : search = search' := Except.ok.inj hsearch
        obtain ⟨m, rest, hm⟩ := List.exists_cons_of_ne_nil hfound
        have hwalked : file ∈ walkedFiles env t path := by simp [hsplit]
        have hmatch : m ∈ fileMatches env t path search file := by simp [hm]
        refine (fileSafe_iff_of_walked hsafe hwalked hmatch).mpr ?_
        refine (hcontained reply hreply).1 m.source ?_
        rw [hread]
        refine List.mem_map.mpr ⟨m, mem_take_flatMap.mpr ⟨earlier, file, later, hsplit, ?_⟩, rfl⟩
        -- There is room for the first line that matches.
        obtain ⟨k, hk⟩ : ∃ k, maxResults.toNat - (earlier.flatMap (fileMatches env t path search)).length = k + 1 :=
          ⟨maxResults.toNat - (earlier.flatMap (fileMatches env t path search)).length - 1, by omega⟩
        rw [hm, hk, List.take_succ_cons]
        exact List.mem_cons_self
      · intro hsafeFiles reply' hreply'
        obtain rfl : reply = reply' := Option.some.inj (hreply.symm.trans hreply')
        refine ⟨fun place hplace => ?_, by simp [hwritten]⟩
        rw [hread] at hplace
        obtain ⟨m, hm, rfl⟩ := List.mem_map.mp hplace
        obtain ⟨earlier, file, later, hsplit, hm⟩ := mem_take_flatMap.mp hm
        have hroom : maxResults.toNat - (earlier.flatMap (fileMatches env t path search)).length ≠ 0 := by
          intro h
          rw [h, List.take_zero] at hm
          cases hm
        have hmem := List.mem_of_mem_take hm
        have hwalked : file ∈ walkedFiles env t path := by simp [hsplit]
        exact (fileSafe_iff_of_walked hsafe hwalked hmem).mp
          (hsafeFiles hsafe search rfl earlier file later hsplit (by omega) (List.ne_nil_of_mem hmem))
  · refine iff_of_true (fun reply hreply => ?_) fun h => absurd h hsafe
    unfold fileSearch at hreply
    obtain ⟨safe, hguard, hreply⟩ := Option.bind_eq_some_iff.mp hreply
    cases safe with
    | true => exact absurd hguard hsafe
    | false => exact (Option.some.inj hreply) ▸ .of_nothing rfl rfl

/-! ## Every call -/

/-- The call opens nothing under a name that begins with a root's and goes on,
`file_search` no link that leads outside, and `file_write` not the downloads
directory itself. -/
def Call.Safe (env : Env) (t : Tree) : Call → Prop
  | .fileRead path _ => ∀ place content, openRead env t path [] = .ok (place, content) → ¬ BesideRoots place
  | .fileList path => ∀ place, t.lookup false env.cwd path [] = .ok place → t.isDir place →
      (∀ entry ∈ t.children place, ∃ line, entryLine env t path entry = .ok line) → ¬ BesideRoots place
  | .fileSearch path pattern maxResults => isSafeReadPath env t path [] = some true →
      ∀ search, env.compile pattern = .ok search →
        ∀ earlier file later, walkedFiles env t path = earlier ++ file :: later →
          ((earlier.flatMap (fileMatches env t path search)).length : Int) < maxResults →
            fileMatches env t path search file ≠ [] → FileSafe env t path file
  | .fileWrite path _ => ∀ place, (makedirs t (dirname (writePath path)).reverse).2 = .ok () →
      openWrite env (makedirs t (dirname (writePath path)).reverse).1 (writePath path) = .ok place →
        place ≠ downloads ∧ ¬ Beside downloads place

/-- **The sandbox.** A call stays inside exactly when it is safe. -/
theorem contained_iff (env : Env) (t : Tree) (call : Call) :
    (∀ t' reply, run env t call = some (t', reply) → reply.Contained) ↔ call.Safe env t := by
  have hsame : ∀ (result : Option Reply), (∀ t' reply, result.map (t, ·) = some (t', reply) → reply.Contained) ↔
      ∀ reply, result = some reply → reply.Contained := by
    intro result
    constructor
    · exact fun h reply hreply => h t reply (by rw [hreply]; rfl)
    · intro h t' reply hreply
      obtain ⟨r, hr, heq⟩ := Option.map_eq_some_iff.mp hreply
      obtain ⟨_, rfl⟩ := Prod.mk.inj heq
      exact h r hr
  cases call with
  | fileRead path maxChars => exact (hsame _).trans (fileRead_contained_iff path maxChars)
  | fileList path => exact (hsame _).trans (fileList_contained_iff path)
  | fileSearch path pattern maxResults => exact (hsame _).trans (fileSearch_contained_iff path pattern maxResults)
  | fileWrite path content => exact fileWrite_contained_iff path content

instance (place : Place) : Decidable (Inside place) :=
  inferInstanceAs (Decidable (∃ root ∈ readPlaces, root <+: place))

instance (reply : Reply) : Decidable reply.Contained :=
  inferInstanceAs (Decidable ((∀ place ∈ reply.read, Inside place) ∧ ∀ place ∈ reply.written, _ ∧ _))

/-- Patterns without special characters. -/
def sampleEnv : Env where
  cwd := ["app".toList]
  describe _ _ := []
  compile pattern := .ok fun line => line.tails.any pattern.isPrefixOf

def sampleTree : Tree where
  nodes :=
    [(["app".toList], .dir), (["application".toList], .dir),
      (["application".toList, "key".toList], .file "secret".toList 6),
      (["data".toList], .dir), (["data".toList, "notes".toList], .link "/etc/passwd".toList),
      (["etc".toList], .dir), (["etc".toList, "passwd".toList], .file "root:x:0:0".toList 10)]
  ordinary := by decide +kernel
  distinct := by decide +kernel

/-- A run of the tool leaves the sandbox. -/
def Leaves (env : Env) (t : Tree) (call : Call) : Prop :=
  ∃ t' reply, run env t call = some (t', reply) ∧ ¬ reply.Contained

/-- A name that goes on after a root's, a link under a root, a name that goes
on after that of the downloads, and the downloads themselves while they do not
exist. -/
theorem sandbox_left :
    Leaves sampleEnv sampleTree (.fileRead "/application/key".toList) ∧
      Leaves sampleEnv sampleTree (.fileSearch "/data".toList "root".toList) ∧
      Leaves sampleEnv sampleTree (.fileWrite "/data/downloads_old/key".toList "x".toList) ∧
      Leaves sampleEnv sampleTree (.fileWrite "/data/downloads".toList "x".toList) := by
  have hleaves : ∀ call, (run sampleEnv sampleTree call).any (fun out => decide ¬ out.2.Contained) = true →
      Leaves sampleEnv sampleTree call := by
    intro call hcall
    obtain ⟨⟨t', reply⟩, hrun, hleft⟩ := (Option.any_eq_true _ _).mp hcall
    exact ⟨t', reply, hrun, of_decide_eq_true hleft⟩
  refine ⟨hleaves _ ?_, hleaves _ ?_, hleaves _ ?_, hleaves _ ?_⟩ <;> decide +kernel

end ContextBroker.FileTools
