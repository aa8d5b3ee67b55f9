import Cnmsql.Binlog.Recoverable
import Cnmsql.Engine.GTIDModel

namespace Cnmsql.Controller

open Framework Replication ObjectStore Engine Binlog

/-- The recovery part of a cluster's plan. -/
structure RecoveryPlan where
  hasTarget : Bool
  targetGTID : String := ""
  deriving DecidableEq

inductive IndexRead where
  | ambientCredentialsDisabled
  | failed (error : String)
  | read (index : ArchiveIndex)
  deriving DecidableEq

inductive RecoveryTargetCheck where
  | passed
  | blocked (reason : String)
  | retry (error : String)
  deriving DecidableEq

def RecoveryTargetCheck.Blocked (check : RecoveryTargetCheck) : Prop :=
  ∃ reason,check = .blocked reason

section

variable [CaseMapping]

/-- Without the backup's anchor: the target must be within the coverage. -/
def checkTargetCoverage (flavor coveredGTIDSet targetGTID : String) : RecoveryTargetCheck :=
  match forFlavor flavor with
  | .error e => .blocked ("Unknown engine flavor " ++ flavor.quote ++ ": " ++ e)
  | .ok eng =>
    if coveredGTIDSet ≠ "" ∨ eng ≠ .mariadb then
      match eng.gtid.contains coveredGTIDSet targetGTID with
      | .error e => .blocked ("Invalid recovery targetGTID or archive coverage: " ++ e)
      | .ok true => .passed
      | .ok false => .blocked ("Recovery targetGTID " ++ targetGTID.quote ++
          " is beyond the archived binlog coverage " ++ coveredGTIDSet.quote ++
          "; the archive cannot replay to it")
    else .passed

/-- Whether the target is reachable, as far as the operator can tell early. -/
def checkRecoveryTarget (flavor currentPrimary : String) (recovery : Option RecoveryPlan)
    (archive : IndexRead) : RecoveryTargetCheck :=
  match recovery with
  | none => .passed
  | some plan =>
    if ¬plan.hasTarget then .passed
    else if currentPrimary ≠ "" then .passed
    else
      match archive with
      | .ambientCredentialsDisabled => .passed
      | .failed e => .retry e
      | .read index =>
        if plan.targetGTID ≠ "" then
          checkTargetCoverage flavor index.coveredGTIDSet plan.targetGTID
        else .passed

theorem checkTargetCoverage_blocked_iff {flavor covered target : String}
    (hflavor : forFlavor flavor = .ok .mysql) (hc : Parses covered) (ht : Parses target) :
    (checkTargetCoverage flavor covered target).Blocked ↔ ¬gtids target ⊆ gtids covered := by
  obtain ⟨contained,hcontains,hiff⟩ := gtidContains_correct covered target hc ht
  have hmodel : Flavor.mysql.gtid.contains covered target = .ok contained := by
    change (gtidContains covered target).mapError GTIDError.message=_
    rw [hcontains]
    rfl
  rw [checkTargetCoverage,hflavor,← hiff]
  simp only [ne_eq,reduceCtorEq,not_false_eq_true,or_true,if_true,hmodel]
  cases contained with
  | true | false => simp [RecoveryTargetCheck.Blocked]

/-- The coverage has the backup's transactions, and those of the target that the segments hold. -/
def CoversTarget (idx : ArchiveIndex) (anchorGTID targetGTID : String) : Prop :=
  gtids anchorGTID ⊆ gtids idx.coveredGTIDSet ∧
    ∀ t∈gtids targetGTID,t∈segmentTxns idx.segments → t∈gtids idx.coveredGTIDSet

/-- The early check passes what the restore can plan exactly when the coverage goes back to the
start of the backup. -/
theorem early_check_iff (idx : ArchiveIndex) (anchorGTID flavor currentPrimary : String)
    (recovery : RecoveryPlan) (plan : ReplayPlan) (hflavor : forFlavor flavor = .ok .mysql)
    (h : planReplay (some idx) anchorGTID { gtid := recovery.targetGTID } = .ok plan) :
    ¬(checkRecoveryTarget flavor currentPrimary (some recovery) (.read idx)).Blocked ↔
      (recovery.hasTarget=true → currentPrimary = "" → recovery.targetGTID ≠ "" →
        CoversTarget idx anchorGTID recovery.targetGTID) := by
  unfold checkRecoveryTarget
  by_cases hchecked : recovery.hasTarget=true ∧ currentPrimary = "" ∧ recovery.targetGTID ≠ ""
  · obtain ⟨hhas,hprimary,hne⟩ := hchecked
    obtain ⟨plan₀,h₀,-⟩ := bind_eq_ok.mp h
    have hp := planReplayWithOps_correct h₀
    have hanchor := hp.anchor_le hne
    have htarget := hp.target_le hne
    simp only [hhas,hprimary,hne,not_true,if_false,ne_eq,not_false_eq_true,if_true,true_imp_iff]
    rw [checkTargetCoverage_blocked_iff hflavor (planReplayWithOps_parses h₀).1
      ((planReplayWithOps_parses h₀).2 hne),not_not]
    constructor
    · intro hsub
      exact ⟨hanchor.trans hsub,fun t ht _ => hsub ht⟩
    · intro hcovers t ht
      rcases htarget ht with hin | hin
      · exact hcovers.1 hin
      · exact hcovers.2 t ht hin
  · refine ⟨fun _ h₁ h₂ h₃ => absurd ⟨h₁,h₂,h₃⟩ hchecked,fun _ => ?_⟩
    by_cases hhas : recovery.hasTarget=true
    · by_cases hprimary : currentPrimary = ""
      · have hnone : recovery.targetGTID = "" := by
          by_contra hne
          exact hchecked ⟨hhas,hprimary,hne⟩
        simp [hhas,hprimary,hnone,RecoveryTargetCheck.Blocked]
      · simp [hhas,hprimary,RecoveryTargetCheck.Blocked]
    · simp [hhas,RecoveryTargetCheck.Blocked]

end

/-- The archive goes back to the first transaction. -/
theorem early_check_wholeArchive :
    (∃ plan,planReplay (some (oneSegment "u:1-10")) "u:1-5" { gtid := "u:1-8" } = .ok plan) ∧
      ¬(checkRecoveryTarget "mysql" "" (some ⟨true,"u:1-8"⟩) (.read (oneSegment "u:1-10"))).Blocked := by
  obtain ⟨plan,hplan⟩ := exists_ok (planReplay (some (oneSegment "u:1-10")) "u:1-5" { gtid := "u:1-8" })
    (by decide +kernel)
  refine ⟨⟨plan,hplan⟩,(early_check_iff (oneSegment "u:1-10") "u:1-5" "mysql" "" ⟨true,"u:1-8"⟩ plan
    rfl hplan).mpr fun _ _ _ => ⟨?_,?_⟩⟩
  · exact ((gtidContains_eq_true_iff "u:1-10" "u:1-5").mp (by decide +kernel)).2.2
  · rintro t-⟨seg,hseg,ht⟩
    rw [List.mem_singleton.mp hseg] at ht
    exact ht

/-- The archive starts where the backup ends, with the target in it: the restore can be planned and
is blocked. -/
theorem early_check_blocks_reachable :
    (planReplay (some (oneSegment "u:6-10")) "u:1-5" { gtid := "u:1-8" }).isOk=true ∧
      checkRecoveryTarget "mysql" "" (some ⟨true,"u:1-8"⟩) (.read (oneSegment "u:6-10")) =
        .blocked ("Recovery targetGTID " ++ "u:1-8".quote ++
          " is beyond the archived binlog coverage " ++ "u:6-10".quote ++
          "; the archive cannot replay to it") := by
  have hcontains : Flavor.mysql.gtid.contains "u:6-10" "u:1-8" = .ok false := by decide +kernel
  refine ⟨by decide +kernel,?_⟩
  simp [checkRecoveryTarget,checkTargetCoverage,forFlavor,oneSegment,hcontains]

end Cnmsql.Controller
