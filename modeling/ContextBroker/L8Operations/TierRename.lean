import ContextBroker.Core.CheckedTable
import ContextBroker.Core.ForeignKeys
import ContextBroker.L8Operations.Migrations
import Mathlib.Data.List.Infix

/-!
# Migration 21

The tier rename, on a table of the schema before it: tiers are 1 or 2 by a check
constraint, and (window, tier, range) is unique. The rows of tier 1 are
updated first, while that constraint is in force; then it is looked up and
dropped, and the one for tiers 2 and 3 is added; all in one transaction.

`renamed_iff`: the migration commits, with every legacy summary where it should be, exactly
if there is no row to rename. With one, the UPDATE violates the old constraint, and
`run_migrations` raises.
-/
namespace ContextBroker.TierRename

open CheckedTable ForeignKeys

/-- A row of `conversation_summaries`.
mirrors postgres/init.sql:128-142 -/
structure SummaryRow where
  id : Id
  conversationId : Id
  contextWindowId : Id
  summaryText : Text
  tier : Int
  summarizesFromSeq : Int
  summarizesToSeq : Int
  messageCount : Option Int
  originalTokenCount : Option Int
  summaryTokenCount : Option Int
  summarizedByModel : Option Text
  isActive : Option Bool
  createdAt : Option Time
  deriving DecidableEq, Repr

/-- `idx_summaries_window_tier_seq` -/
def SummaryRow.key (r : SummaryRow) : Id × Int × Int × Int :=
  (r.contextWindowId, r.tier, r.summarizesFromSeq, r.summarizesToSeq)

abbrev Summaries := Table SummaryRow.key

/-- The name that PostgreSQL gives a check of the column, and that the migration
gives the new one. -/
def tierCheckName : Text := "conversation_summaries_tier_check".toList

/-- `CHECK (tier IN (1, 2))` -/
def legacyCheck : Check SummaryRow where
  name := tierCheckName
  definition := "CHECK ((tier = ANY (ARRAY[1, 2])))".toList
  admits r := decide (r.tier = 1 ∨ r.tier = 2)

/-- `CHECK (tier IN (2, 3))` -/
def tierCheck : Check SummaryRow where
  name := tierCheckName
  definition := "CHECK ((tier = ANY (ARRAY[2, 3])))".toList
  admits r := decide (r.tier = 2 ∨ r.tier = 3)

/-- A table of the schema before migration 21. -/
structure Legacy where
  table : Summaries
  checks : table.checks = [legacyCheck]

theorem Legacy.mem_checks (l : Legacy) : legacyCheck ∈ l.table.checks := by
  rw [l.checks]
  exact List.mem_singleton_self _

/-! ## The migration -/

/-- `UPDATE conversation_summaries SET tier = 3 WHERE tier = 1` -/
def renameTiers (t : Summaries) : Except Violation Summaries :=
  t.update (fun r => decide (r.tier = 1)) fun r => { r with tier := 3 }

/-- The first constraint `LIKE '%tier%'` is dropped. -/
def dropTierCheck (t : Summaries) : Except Violation Summaries :=
  match t.checks.find? fun c => decide ("tier".toList <:+: c.definition) with
  | some c => .ok (t.dropCheck c.name)
  | none => .ok t

/-- mirrors app/migrations.py:490-530 -/
def migration021 : List (Summaries → Except Violation Summaries) :=
  [renameTiers, dropTierCheck, Table.addCheck tierCheck]

/-- The transaction of the migration; a violation is a `PostgresError`, which
`run_migrations` raises as a `RuntimeError`. -/
def runMigration021 (t : Summaries) : Summaries × Except Violation Unit := transaction migration021 t

/-- Where a row should be. -/
def renamed (r : SummaryRow) : SummaryRow := if r.tier = 1 then { r with tier := 3 } else r

/-- The migration commits; each row is where it should be, with its other columns,
and one constraint is in force. -/
structure Renamed (t : Summaries) : Prop where
  commits : (runMigration021 t).2 = .ok ()
  rows : (runMigration021 t).1.rows = t.rows.map renamed
  checks : (runMigration021 t).1.checks = [tierCheck]

/-! ## Its statements -/

theorem dropTierCheck_legacy {t : Summaries} (h : t.checks = [legacyCheck]) :
    ∃ t', dropTierCheck t = .ok t' ∧ t'.rows = t.rows ∧ t'.checks = [] := by
  have htier : "tier".toList <:+: legacyCheck.definition :=
    ⟨"CHECK ((".toList, " = ANY (ARRAY[1, 2])))".toList, by simp [legacyCheck]⟩
  have hfind : [legacyCheck].find? (fun c => decide ("tier".toList <:+: c.definition)) = some legacyCheck :=
    List.find?_cons_of_pos (decide_eq_true htier)
  refine ⟨t.dropCheck tierCheckName, ?_, rfl, ?_⟩
  · rw [dropTierCheck, h, hfind]
    rfl
  · show t.checks.filter (fun c => c.name ≠ tierCheckName) = []
    rw [h]
    rfl

theorem tier_of_legacy (l : Legacy) {r : SummaryRow} (h : r ∈ l.table.rows) : r.tier = 1 ∨ r.tier = 2 := by
  have hadmits : decide (r.tier = 1 ∨ r.tier = 2) = true := l.table.admitted legacyCheck l.mem_checks r h
  exact of_decide_eq_true hadmits

/-- The old constraint is in force when the rows are updated. -/
theorem renameTiers_eq_ok {l : Legacy} {t : Summaries} (h : renameTiers l.table = .ok t) :
    ∀ r ∈ l.table.rows, r.tier ≠ 1 := by
  intro r hr hone
  obtain ⟨_, _, hchecked⟩ := Table.update_eq_ok h
  have hadmits : decide ((3 : Int) = 1 ∨ (3 : Int) = 2) = true := hchecked r hr (decide_eq_true hone) _ l.mem_checks
  exact absurd hadmits (by decide)

/-- **The tier rename preserves every legacy summary** exactly if there is none to
rename. -/
theorem renamed_iff (l : Legacy) : Renamed l.table ↔ ∀ r ∈ l.table.rows, r.tier ≠ 1 := by
  constructor
  · intro h
    have htransaction : transaction migration021 l.table = ((runMigration021 l.table).1, .ok ()) :=
      Prod.ext rfl h.commits
    have hrun := transaction_ok.mp htransaction
    rw [migration021, List.foldlM_cons] at hrun
    cases hrename : renameTiers l.table with
    | error e =>
      rw [hrename] at hrun
      cases hrun
    | ok t => exact renameTiers_eq_ok hrename
  · intro h
    have hrename : renameTiers l.table = .ok l.table :=
      Table.update_of_none fun r hr => decide_eq_false (h r hr)
    obtain ⟨t, hdrop, hrows, hchecks⟩ := dropTierCheck_legacy l.checks
    have hnew : ∀ r ∈ t.rows, tierCheck.admits r = true := fun r hr => by
      rw [hrows] at hr
      exact decide_eq_true (.inl ((tier_of_legacy l hr).resolve_left (h r hr)))
    have hadd : tierCheck.name ∉ t.checks.map Check.name := by simp [hchecks]
    obtain ⟨t', hadd⟩ : ∃ t', t.addCheck tierCheck = .ok t' := by
      unfold Table.addCheck
      rw [if_neg hadd, dif_pos hnew]
      exact ⟨_, rfl⟩
    have hrun : runMigration021 l.table = (t', .ok ()) := transaction_ok.mpr (by
      simp only [migration021, List.foldlM_cons, List.foldlM_nil, hrename, hdrop, hadd, bind, Except.bind, pure,
        Except.pure])
    obtain ⟨_, _, hrows', hchecks'⟩ := Table.addCheck_eq_ok.mp hadd
    refine ⟨by rw [hrun], ?_, by rw [hrun, hchecks', hchecks]; rfl⟩
    rw [hrun, hrows', hrows]
    have hsame : l.table.rows.map renamed = l.table.rows.map id := List.map_congr_left fun r hr => if_neg (h r hr)
    rw [hsame, List.map_id]

/-- A legacy archival summary. -/
def archival : SummaryRow where
  id := 1
  conversationId := 2
  contextWindowId := 3
  summaryText := "s".toList
  tier := 1
  summarizesFromSeq := 1
  summarizesToSeq := 20
  messageCount := some 20
  originalTokenCount := none
  summaryTokenCount := none
  summarizedByModel := none
  isActive := some true
  createdAt := some 0

def legacyTable : Legacy where
  table :=
    { rows := [archival]
      checks := [legacyCheck]
      admitted := by simp [legacyCheck, archival]
      keyed := List.nodup_singleton _ }
  checks := rfl

/-- With it the migration stops at its first statement. -/
theorem archival_not_renamed : ¬ (∀ l : Legacy, Renamed l.table) ∧
    (runMigration021 legacyTable.table).2 = .error (.check tierCheckName) := by
  have hstop : (runMigration021 legacyTable.table).2 = .error (.check tierCheckName) := rfl
  refine ⟨fun h => ?_, hstop⟩
  have hcommits := (h legacyTable).commits
  rw [hstop] at hcommits
  cases hcommits

end ContextBroker.TierRename
