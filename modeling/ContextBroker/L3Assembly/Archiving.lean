import ContextBroker.L2Store.Invariant
import ContextBroker.L3Assembly.StandardTiered

/-!
# The archival transaction

`runFullCompaction_cases` lists the ways out of `run_full_compaction`; every
fact about the node follows from it. Only a committed transaction changes
rows: it retires the archival rows and the consolidated chunks (`retire`) and
adds the header and the archival row (`Committed`).
-/
namespace ContextBroker.StandardTiered

open Rows

variable {env : Env} {db db' : Db} {st : AssemblyState}

/-! ## The transaction -/

/-- The archival rows of the window and the rows `toConsolidate`, retired. -/
def retire (db : Db) (st : AssemblyState) (toConsolidate : List Summary) : Db :=
  (db.deactivate fun r =>
    r.contextWindowId == st.contextWindowId && r.tier == .three && r.isActive).deactivate
      fun r => (toConsolidate.map (·.id)).contains r.id

/-- A committed transaction retires rows, then adds the header and the
archival row. -/
structure Committed (db : Db) (st : AssemblyState) (toConsolidate : List Summary) (header recent : Text)
    (first last : Summary) (db' : Db) : Prop where
  ok : archiveTransaction db st toConsolidate header recent = .ok db'
  front : toConsolidate.head? = some first
  back : toConsolidate.getLast? = some last
  fresh : ∀ r ∈ db.summaries, r.key ≠ Summary.headerKey st.contextWindowId
  keyed : (archivalRow st toConsolidate first last recent).key ≠ Summary.headerKey st.contextWindowId
  rows : db'.summaries = (retire db st toConsolidate).summaries ++
    [{ headerRow st header with id := db.nextId },
      { archivalRow st toConsolidate first last recent with id := db.nextId + 1 }]
  messages : db'.messages = db.messages
  nextId : db'.nextId = db.nextId + 2
  windows : db'.windows = db.windows

theorem keys_retire (st : AssemblyState) (toConsolidate : List Summary) :
    (retire db st toConsolidate).summaries.map Summary.key = db.summaries.map Summary.key := by
  rw [retire, Db.keys_deactivate, Db.keys_deactivate]

theorem archiveTransaction_committed {toConsolidate : List Summary} {header recent : Text}
    (h : archiveTransaction db st toConsolidate header recent = .ok db') :
    ∃ first last, Committed db st toConsolidate header recent first last db' := by
  have hok := h
  obtain ⟨db₁, hheader, h⟩ := bind_eq_ok.mp h
  rw [← retire] at hheader
  obtain ⟨hfresh, rfl⟩ := Db.insertSummary_eq_ok.mp hheader
  split at h
  case h_2 => cases h
  rename_i first last hfirst hlast
  obtain ⟨hkeyed, rfl⟩ := Db.insertSummary_eq_ok.mp h
  refine ⟨first, last, hok, hfirst, hlast, fun r hr hk => ?_, fun hk => ?_, ?_, rfl, rfl, rfl⟩
  · have hkey : r.key ∈ (retire db st toConsolidate).summaries.map Summary.key := by
      rw [keys_retire]
      exact List.mem_map_of_mem hr
    obtain ⟨r', hr', hk'⟩ := List.mem_map.mp hkey
    exact hfresh r' hr' (hk'.trans hk)
  · exact hkeyed _ (List.mem_append_right _ (List.mem_singleton_self _)) hk.symm
  · rw [List.append_assoc]
    rfl

theorem archiveTransaction_error {toConsolidate : List Summary} {header recent : Text} {e : Exn}
    (h : archiveTransaction db st toConsolidate header recent = .error e) :
    e = .uniqueViolationError ∨ e = .indexError := by
  unfold archiveTransaction at h
  change (retire db st toConsolidate).insertSummary (headerRow st header) >>= _ = _ at h
  cases hheader : (retire db st toConsolidate).insertSummary (headerRow st header) with
  | error e' =>
    rw [hheader] at h
    obtain rfl := Except.error.inj h
    exact .inl (Db.insertSummary_eq_error hheader).1
  | ok db₁ =>
    rw [hheader] at h
    simp only [bind, Except.bind] at h
    split at h
    · exact .inl (Db.insertSummary_eq_error h).1
    · exact .inr (Except.error.inj h).symm

/-- The clause of the handler around the archival `try` block. -/
def archiveCaught : List Exn := [.openaiApiError, .httpxHttpError, .valueError]

/-- Both archival prompts get a text, and no fault at the commit is taken for
an LLM failure. -/
structure Answers (env : Env) : Prop where
  recent : ∀ p, ∃ text, env.recentReply p = .ok text ∧ text ≠ []
  header : ∀ p, ∃ text, env.headerReply p = .ok text ∧ text ≠ []
  commit : ∀ e ∈ env.fault .commit, e.caughtBy archiveCaught = false

theorem archive_none {toConsolidate : List Summary} {existing : Option Summary}
    (h : archive env db st toConsolidate existing = .ok none) : ¬ Answers env := by
  intro hans
  obtain ⟨recent, hrecent, h⟩ := bind_eq_ok.mp h
  obtain ⟨header, hheader, h⟩ := bind_eq_ok.mp h
  obtain ⟨text, htext, hne⟩ := hans.recent (recentPrompt toConsolidate)
  obtain ⟨text', htext', hne'⟩ := hans.header (headerPrompt existing recent)
  obtain rfl := Except.ok.inj (hrecent.symm.trans htext)
  obtain rfl := Except.ok.inj (hheader.symm.trans htext')
  rw [if_neg (by simp [hne, hne'])] at h
  obtain ⟨_, _, h⟩ := bind_eq_ok.mp h
  obtain ⟨_, _, h⟩ := bind_eq_ok.mp h
  cases h

theorem archive_caught {toConsolidate : List Summary} {existing : Option Summary} {e : Exn}
    (h : archive env db st toConsolidate existing = .error e) (hcaught : e.caughtBy archiveCaught = true) :
    ¬ Answers env := by
  intro hans
  obtain ⟨recent, hrecent, hne⟩ := hans.recent (recentPrompt toConsolidate)
  obtain ⟨header, hheader, hne'⟩ := hans.header (headerPrompt existing recent)
  simp only [archive, hrecent, hheader, bind, Except.bind, hne, hne', or_self, if_false] at h
  unfold perform at h
  cases hfault : env.fault .commit with
  | some x =>
    simp only [hfault, Except.error.injEq] at h
    subst h
    rw [hans.commit x hfault] at hcaught
    cases hcaught
  | none =>
    simp only [hfault] at h
    cases htx : archiveTransaction db st toConsolidate header recent with
    | ok db' =>
      rw [htx] at h
      cases h
    | error x =>
      rw [htx] at h
      obtain rfl := Except.error.inj h
      rcases archiveTransaction_error htx with rfl | rfl
      · revert hcaught
        decide
      · revert hcaught
        decide

theorem consolidated_eq (l : List Summary) (keep : Int) :
    consolidated l keep = l.take (l.length - keep.toNat) := by
  unfold consolidated
  split
  · rfl
  · rw [Int.toNat_of_nonpos (by omega), Nat.sub_zero, List.take_length]

/-- `tier_2_min_chunks` of the pass, and its active chunk rows in order. -/
def passMin (st : AssemblyState) : Int :=
  (extractDeadbandConfig (st.buildTypeConfig.getD {})).tier2MinChunks

def activeChunks (db : Db) (st : AssemblyState) : List Summary :=
  orderAsc (·.fromSeq) (db.active st.contextWindowId .two)

/-- The replies to the two archival prompts, neither of them empty. -/
structure Archived (env : Env) (db : Db) (st : AssemblyState) (recent header : Text) : Prop where
  recentOk : env.recentReply (recentPrompt (consolidated (activeChunks db st) (passMin st - 1))) =
    .ok recent
  headerOk : env.headerReply (headerPrompt
    (orderDesc (·.toSeq) (db.active st.contextWindowId .three)).head? recent) = .ok header
  nonempty : recent ≠ [] ∧ header ≠ []

/-- The ways out of `run_full_compaction`. -/
inductive Archival (env : Env) (db : Db) (st : AssemblyState) :
    Db → Except Exn AssemblyState → Prop where
  | raised (e : Exn) : Archival env db st db (.error e)
  | few (h : (activeChunks db st).length ≤ passMin st) :
    Archival env db st db (.ok { st with tier3Summary := none })
  | noPrompt (e : Exn) :
    Archival env db st db (.ok { st with tier3Summary := none, error := some (.promptLoading e) })
  | unanswered (had : Bool) (h : ¬ Answers env) :
    Archival env db st db (.ok { st with tier3Summary := none, hadErrors := had })
  | committed (header recent : Text) (db' : Db) (first last : Summary)
    (many : passMin st < (activeChunks db st).length)
    (asked : Archived env db st recent header)
    (h : Committed db st (consolidated (activeChunks db st) (passMin st - 1)) header recent first last
      db') :
    Archival env db st db'
      (.ok { st with tier3Summary := some (header ++ "\n\n".toList ++ recent) })

theorem runFullCompaction_cases (env : Env) (db : Db) (st : AssemblyState) :
    Archival env db st (runFullCompaction env db st).1 (runFullCompaction env db st).2 := by
  unfold runFullCompaction
  split
  · exact .raised _
  · rename_i rows hrows
    obtain rfl := perform_eq_ok hrows
    dsimp only
    split
    · rename_i hfew
      refine .few ?_
      rw [activeChunks, passMin]
      omega
    · rename_i hmany
      split
      · exact .raised _
      · rename_i existing hexisting
        obtain rfl := perform_eq_ok hexisting
        split
        · split
          · exact .noPrompt _
          · exact .raised _
        · split
          · exact .raised _
          · split
            · rename_i db' text harch
              obtain ⟨recent, hrecent, harch⟩ := bind_eq_ok.mp harch
              obtain ⟨header, hheader, harch⟩ := bind_eq_ok.mp harch
              split at harch
              · cases harch
              · rename_i hnonempty
                obtain ⟨_, _, harch⟩ := bind_eq_ok.mp harch
                obtain ⟨db₁, htx, harch⟩ := bind_eq_ok.mp harch
                obtain ⟨rfl, rfl⟩ := Prod.mk.inj (Option.some.inj (Except.ok.inj harch))
                obtain ⟨first, last, hcomm⟩ := archiveTransaction_committed htx
                refine .committed header recent _ first last ?_
                  ⟨hrecent, hheader, not_or.mp hnonempty⟩ hcomm
                rw [activeChunks, passMin]
                omega
            · rename_i harch
              exact .unanswered _ (archive_none harch)
            · rename_i e harch
              split
              · rename_i hcaught
                exact .unanswered _ (archive_caught harch hcaught)
              · exact .raised _

end ContextBroker.StandardTiered
