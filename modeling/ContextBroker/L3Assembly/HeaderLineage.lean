import ContextBroker.L3Assembly.Course
import ContextBroker.L3Assembly.FullCompaction
import ContextBroker.L3Assembly.SummaryRows

/-!
# The header a full compaction continues

Full compaction shows the model an "existing historical header" and stores
the reply as the header row, with range (0, 0), next to the recent archival
row. What it shows is the active archival row that ends last.

`lineage_run`: in every state a run reaches, a window with a header row has
exactly two active archival rows, the header and the recent one, which ends
later. So `header_lineage_iff`: the text shown is that of the header exactly
if the window has none yet, or the recent text is the same.
-/
namespace ContextBroker

open Rows StandardTiered

/-- The row whose text is shown as the existing header.
mirrors build_types/standard_tiered.py:631-643 -/
def existingT3 (s : PassState) : Option Summary :=
  (orderDesc (·.toSeq) (s.db.active s.st.contextWindowId .three)).head?

/-- The row with range (0, 0) that the last full compaction of window `w` left. -/
def currentHeader (db : Db) (w : Id) : Option Summary :=
  (db.active w .three).find? (·.key == Summary.headerKey w)

/-- The active archival row that is not the header row. -/
def recentArchival (db : Db) (w : Id) : Option Summary :=
  (db.active w .three).find? (·.key != Summary.headerKey w)

/-- The node gets as far as the header prompt, with `recent` for the reply to
the first. mirrors build_types/standard_tiered.py:603-691 -/
structure Asks (env : Env) (s : PassState) (recent : Text) : Prop where
  activeChunks : env.fault .activeChunks = none
  archival : env.fault .archival = none
  archivalPrompt : env.fault .archivalPrompt = none
  archiver : env.fault .archiver = none
  enough : passMin s.st < (StandardTiered.activeChunks s.db s.st).length
  reply : env.recentReply (recentPrompt (consolidated (StandardTiered.activeChunks s.db s.st) (passMin s.st - 1))) =
    .ok recent

/-- The tier-3 rows a full compaction leaves. -/
structure TwoRows (db : Db) (w : Id) (header archival : Summary) : Prop where
  active : db.active w .three = [header, archival]
  key : header.key = Summary.headerKey w
  later : 0 < archival.toSeq
  headerText : header.summaryText ≠ []
  archivalText : archival.summaryText ≠ []

def Lineage (db : Db) (w : Id) : Prop := HasHeader db w → ∃ header archival, TwoRows db w header archival

section

variable {db db' : Db} {w : Id} {s : PassState} {config : Config} {env : Env} {win : Window}

/-! ## Over the rows -/

/-- The active archival rows are the same, and a header row is not new. -/
theorem Lineage.of_same (h : Lineage db w) (hactive : db'.active w .three = db.active w .three)
    (hhas : HasHeader db' w → HasHeader db w) : Lineage db' w := by
  intro hhas'
  obtain ⟨header, archival, htwo⟩ := h (hhas hhas')
  exact ⟨header, archival, hactive.trans htwo.active, htwo.key, htwo.later, htwo.headerText, htwo.archivalText⟩

theorem Lineage.congr (h : Lineage db w) (hrows : db'.summaries = db.summaries) : Lineage db' w := by
  refine h.of_same ?_ (hasHeader_congr hrows w).mp
  rw [Db.active, Db.active, Db.summariesOf, Db.summariesOf, hrows]

/-- Chunk rows are no archival rows. -/
theorem Lineage.compactTier1 (h : Lineage db w) (env : Env) (st : AssemblyState) :
    Lineage (compactTier1 env db st).1 w := by
  obtain ⟨kept, rows, hrows⟩ := compactTier1_rows env db st
  refine h.of_same ?_ ?_
  · have hnone : rows.filter (fun r => r.contextWindowId == w && (r.tier == .three && r.isActive)) = [] := by
      refine List.filter_eq_nil_iff.mpr fun r hr => ?_
      simp [(hrows.written.owned r hr).2.1]
    simp only [Db.active, Db.summariesOf, hrows.appended, List.filter_append, List.filter_filter, Bool.and_comm]
      at hnone ⊢
    rw [hnone, List.append_nil]
  · rintro ⟨r, hr, hkey⟩
    rw [hrows.appended] at hr
    rcases List.mem_append.mp hr with hold | hnew
    · exact ⟨r, hold, hkey⟩
    · have htier := (hrows.written.owned r hnew).2.1
      obtain ⟨_, hthree, _⟩ := Summary.of_headerKey hkey
      exact absurd (htier.symm.trans hthree) (by decide)

/-- What a committed transaction leaves active in tier 3. -/
theorem committed_active {st : AssemblyState} {toConsolidate : List Summary} {header recent : Text}
    {first last : Summary} (h : Committed db st toConsolidate header recent first last db') :
    db'.active st.contextWindowId .three =
      [{ headerRow st header with id := db.nextId },
        { archivalRow st toConsolidate first last recent with id := db.nextId + 1 }] := by
  have hretired : (retire db st toConsolidate).active st.contextWindowId .three = [] := by
    rw [retire, Db.active_deactivate, Db.active_deactivate]
    refine List.filter_eq_nil_iff.mpr fun r hr => ?_
    obtain ⟨hmem, hnot⟩ := List.mem_filter.mp hr
    obtain ⟨_, hw, ht, ha⟩ := Db.mem_active.mp hmem
    simp [hw, ht, ha] at hnot
  have happend : db'.active st.contextWindowId .three =
      (retire db st toConsolidate).active st.contextWindowId .three ++ [{ headerRow st header with id := db.nextId },
        { archivalRow st toConsolidate first last recent with id := db.nextId + 1 }] := by
    simp only [Db.active, Db.summariesOf, h.rows, List.filter_append]
    simp [headerRow, archivalRow]
  rw [happend, hretired, List.nil_append]

/-- **Full compaction** leaves the header it writes and, after it, the recent
archival row. -/
theorem Lineage.runFullCompaction (h : Lineage s.db w) (heff : PassEffect config env win db s)
    (hw : db.window? win.id = some win) : Lineage (runFullCompaction env s.db s.st).1 w := by
  obtain ⟨win', hw', hconv, _, _⟩ := heff.evolves.windows _ _ hw
  have hws : s.db.window? s.st.contextWindowId = some win' := heff.windowId ▸ hw'
  have hspec := runFullCompaction_spec env hws (hconv.trans heff.convId.symm) heff.valid
  have hcases := runFullCompaction_cases env s.db s.st
  generalize (StandardTiered.runFullCompaction env s.db s.st).1 = db₁,
    (StandardTiered.runFullCompaction env s.db s.st).2 = out at hspec hcases ⊢
  cases hcases with
  | raised | few | noPrompt | unanswered => exact h
  | committed header recent _ first last many asked hcomm =>
    by_cases hw : w = s.st.contextWindowId
    · subst hw
      have hlast : last ∈ s.db.active s.st.contextWindowId .two := by
        have hmem := List.mem_of_getLast? hcomm.back
        rw [consolidated_eq, StandardTiered.activeChunks, heff.valid.orderAsc_active] at hmem
        exact List.mem_of_mem_take hmem
      have hrange := heff.valid.activeRange _ _ _ hlast
      have hpos := heff.valid.active_two_pos hlast
      exact fun _ => ⟨_, _, committed_active hcomm, rfl, Nat.lt_of_lt_of_le hpos hrange, asked.nonempty.2,
        asked.nonempty.1⟩
    · refine h.of_same (hspec.2.1.others w hw .three) ?_
      rintro ⟨r, hr, hkey⟩
      obtain ⟨hrw, _⟩ := Summary.of_headerKey hkey
      rw [hcomm.rows] at hr
      rcases List.mem_append.mp hr with hold | hnew
      · have hkeys := List.mem_map_of_mem (f := Summary.key) hold
        rw [keys_retire, hkey] at hkeys
        exact List.mem_map.mp hkeys
      · have hown : r.contextWindowId = s.st.contextWindowId := by
          simp only [List.mem_cons, List.not_mem_nil, or_false] at hnew
          rcases hnew with rfl | rfl <;> rfl
        exact absurd (hrw.symm.trans hown) hw

/-- **Over runs**: a window with a header row has two active archival rows. -/
theorem lineage_run (evs : List Event) (w : Id) : Lineage (broker.run evs) w := by
  have hstep : ∀ config env win db (o : StateGraph.Outcome Node PassState Exn), Valid db →
      db.window? win.id = some win → Course config env win db o.raised o.final → Lineage db w →
      Lineage o.final.db w := by
    intro config env win db o hv hwin hcourse h
    refine hcourse.rows (P := fun db => Lineage db w) (fun _ _ hrows h => h.congr hrows) h
      (fun s _ hs => hs.compactTier1 env s.st) (fun s hs hl => ?_)
    have heff : PassEffect config env win db s := (hs.known hv hwin).1
    exact hl.runFullCompaction heff hwin
  have hall : EveryPass evs w fun _ _ _ _ => True := .of_mem fun _ _ _ _ _ => trivial
  exact hall.rows_inv (I := fun db => Lineage db w) (fun _ _ hrows h => h.congr hrows)
    (fun ⟨_, hr, _⟩ => nomatch hr)
    (fun config env win db o hv hwin _ _ _ hcourse h => hstep config env win db o hv hwin hcourse h)
    (fun config env win db o hv hwin _ _ hcourse h => hstep config env win db o hv hwin hcourse h)

/-- The rows a node is entered with carry it as well. -/
theorem Lineage.enters (h : Lineage db w) (hs : Enters config env win db .runFullCompaction s)
    (hv : Valid db) (hw : db.window? win.id = some win) : Lineage s.db w := by
  rcases (hs.known hv hw).2.1 with ⟨hrows, _⟩ | ⟨s₁, hs₁⟩
  · exact h.congr hrows
  · exact ((h.congr hs₁.before).compactTier1 env s₁.st).congr hs₁.after

/-! ## What the prompt shows -/

/-- Without a header row there is no archival row to show. -/
theorem existingT3_none (hv : Valid s.db) (h : ¬HasHeader s.db s.st.contextWindowId) :
    existingT3 s = none ∧ currentHeader s.db s.st.contextWindowId = none := by
  have hnone : s.db.active s.st.contextWindowId .three = [] := by
    refine List.eq_nil_iff_forall_not_mem.mpr fun r hr => h ?_
    obtain ⟨hmem, hw, ht, _⟩ := Db.mem_active.mp hr
    obtain ⟨x, hx, hkey⟩ := hv.header r hmem ht
    exact ⟨x, hx, hw ▸ hkey⟩
  exact ⟨by simp [existingT3, hnone, orderDesc], by simp [currentHeader, hnone]⟩

/-- With one, the recent archival row is picked. -/
theorem TwoRows.existingT3 {header archival : Summary}
    (h : TwoRows s.db s.st.contextWindowId header archival) : existingT3 s = some archival := by
  have hzero : header.toSeq = 0 := (Summary.of_headerKey h.key).2.2.2
  have hasc : Ascending (·.toSeq) [header, archival] := by
    simpa [Ascending, hzero] using h.later
  rw [ContextBroker.existingT3, h.active, orderDesc_of_ascending hasc]
  rfl

theorem TwoRows.currentHeader {header archival : Summary} (h : TwoRows db w header archival) :
    currentHeader db w = some header := by
  simp [ContextBroker.currentHeader, h.active, h.key]

theorem TwoRows.recentArchival {header archival : Summary} (h : TwoRows db w header archival) :
    recentArchival db w = some archival := by
  have hne : archival.key ≠ Summary.headerKey w := by
    intro hkey
    have hzero : archival.toSeq = 0 := (Summary.of_headerKey hkey).2.2.2
    have hlater := h.later
    omega
  simp [ContextBroker.recentArchival, h.active, h.key, hne]

/-- Two rows with texts give one prompt exactly if they have one text. -/
theorem headerPrompt_eq_iff {r r' : Summary} (h : r.summaryText ≠ []) (h' : r'.summaryText ≠ []) (recent : Text) :
    headerPrompt (some r) recent = headerPrompt (some r') recent ↔ r.summaryText = r'.summaryText := by
  have hshown : ∀ {x : Summary}, x.summaryText ≠ [] → headerPrompt (some x) recent =
      "[Existing historical header]\n".toList ++ x.summaryText ++
        "\n\n[New content being archived]\n".toList ++ recent := by
    intro x hx
    unfold headerPrompt
    cases htext : x.summaryText with
    | nil => exact absurd htext hx
    | cons c cs => simp [htext]
  rw [hshown h, hshown h', List.append_left_inj, List.append_left_inj, List.append_right_inj]

end

/-- **The existing header in a run.** Whenever a full compaction asks for a
new header, it shows the model the current one exactly if the window has none
yet, or the recent archival text is the same as the header's. -/
theorem header_lineage_iff (evs : List Event) (config : Config) (env : Env) (w : Id) (s : PassState)
    (recent : Text) (hs : Entered evs config env w .runFullCompaction s) (_hask : Asks env s recent) :
    headerPrompt (existingT3 s) recent = headerPrompt (currentHeader s.db w) recent ↔
      ¬HasHeader s.db w ∨
        (recentArchival s.db w).map (·.summaryText) = (currentHeader s.db w).map (·.summaryText) := by
  obtain ⟨win, hw, _, hvisit⟩ := hs
  obtain rfl : win.id = w := eq_of_beq (List.find?_some hw :)
  have hv := valid_run evs
  have heff : PassEffect config env win (broker.run evs) s := (Enters.known hvisit hv hw).1
  have hid := heff.windowId
  rw [← hid]
  by_cases hhas : HasHeader s.db s.st.contextWindowId
  · obtain ⟨header, archival, htwo⟩ := (lineage_run evs win.id).enters hvisit hv hw (hid ▸ hhas)
    rw [← hid] at htwo
    rw [htwo.existingT3, htwo.currentHeader, htwo.recentArchival, headerPrompt_eq_iff htwo.archivalText htwo.headerText]
    simp [hhas]
  · obtain ⟨hnone, hcurrent⟩ := existingT3_none heff.valid hhas
    rw [hnone, hcurrent]
    exact iff_of_true rfl (.inl hhas)

/-! ## Two generations -/

/-- A pass whose two archival prompts get different replies. -/
def distinctReplies : Env :=
  { calm ['s'] with recentReply := fun _ => .ok ['r'], headerReply := fun _ => .ok ['h'] }

/-- A full compaction with these replies, then two more messages and their chunks. -/
def generation (env : Env) : List Event :=
  beforeFirst ++ [.pass singleConfig 1 env] ++ chat 2 8 ++ [.pass singleConfig 1 (calm ['s'])]

theorem entered_generation :
    Entered (generation distinctReplies) singleConfig (calm ['s']) 1 .runFullCompaction
      (atCompaction (generation distinctReplies)) := by
  refine ⟨{ sampleWindow with lastAssembledAt := some 0 }, by decide +kernel, rfl, ?_⟩
  exact StateGraph.Visits.follow .entry (by decide +kernel)

theorem asks_second : Asks (calm ['s']) (atCompaction beforeSecond) ['s'] :=
  ⟨rfl, rfl, rfl, rfl, by decide +kernel, rfl⟩

/-- Where both replies were the same, the second generation continues the header. -/
theorem header_lineage_second :
    headerPrompt (existingT3 (atCompaction beforeSecond)) ['s'] =
      headerPrompt (currentHeader (atCompaction beforeSecond).db 1) ['s'] :=
  (header_lineage_iff beforeSecond singleConfig (calm ['s']) 1 (atCompaction beforeSecond) ['s'] entered_second
    asks_second).mpr (.inr (by decide +kernel))

/-- The second full compaction shows the recent archival text `r` as the
existing header, and not the header `h`. -/
theorem header_lineage_false :
    ¬ ∀ (evs : List Event) (config : Config) (env : Env) (w : Id) (s : PassState) (recent : Text),
      Entered evs config env w .runFullCompaction s → Asks env s recent →
        headerPrompt (existingT3 s) recent = headerPrompt (currentHeader s.db w) recent := by
  intro h
  have hasks : Asks (calm ['s']) (atCompaction (generation distinctReplies)) ['s'] :=
    ⟨rfl, rfl, rfl, rfl, by decide +kernel, rfl⟩
  have hprompt := h _ _ _ _ _ _ entered_generation hasks
  have hshown : headerPrompt (existingT3 (atCompaction (generation distinctReplies))) ['s'] =
      "[Existing historical header]\nr\n\n[New content being archived]\ns".toList := by decide +kernel
  have hheader : headerPrompt (currentHeader (atCompaction (generation distinctReplies)).db 1) ['s'] =
      "[Existing historical header]\nh\n\n[New content being archived]\ns".toList := by decide +kernel
  rw [hshown, hheader] at hprompt
  exact absurd hprompt (by decide)

end ContextBroker
