import Cnmsql.Binlog.SegmentSelection
import Cnmsql.Binlog.SetTexts
import Cnmsql.Binlog.TimelineFolding
import Cnmsql.Engine.GTIDModel
import Cnmsql.ObjectStore.RetentionHorizon

namespace Cnmsql.Controller

open Framework Replication ObjectStore Engine Binlog List

section

variable [CaseMapping]

/-- `recovery.recoveryTarget` of a Cluster. -/
structure RecoveryTargetSpec where
  targetTime : String := ""
  targetGTID : String := ""
  targetImmediate : Option Bool := none
  deriving DecidableEq

def replaysBinlogs : Option RecoveryTargetSpec → Bool
  | none => false
  | some target => !(target.targetImmediate.getD false)

def recordedTexts (idx : ArchiveIndex) : List String :=
  (idx.disowned.map (·.gtidSet)).toList++idx.segments.filterMap fun seg => seg.fork.map (·.gtidSet)

def forkHolds (g : MariaDBGTID) (seg : ArchiveSegment) : Bool :=
  match seg.fork with
  | none => false
  | some fork =>
    match fork.afterSeq.lookup g.domain.toNat with
    | none => false
    | some cut =>
      match parseMariaPos seg.gtidSet with
      | .error _ => false
      | .ok position => position.domains.any fun domain => (position.lookup domain).any fun last =>
        domain=g.domain ∧ last.server=g.server ∧ cut<g.seq

def recordedDead (idx : ArchiveIndex) (g : MariaDBGTID) : Bool :=
  ((idx.disowned.map (·.ranges)).getD []).any (ArchiveDisownedRange.holds · g) ||
    idx.segments.any (forkHolds g)

def positionGTIDs (pos : MariaPos) : List MariaDBGTID :=
  pos.domains.filterMap fun domain => (pos.lookup domain).map fun e => ⟨domain,e.server,e.seq.toNat⟩

/-- Whether a known anchor holds a transaction the archive recorded as disowned. -/
def anchorOnDeadBranch (anchor : String) (index : Option ArchiveIndex) (flavor : Flavor) : Bool :=
  match index with
  | none => false
  | some idx =>
    if anchor = "" then false
    else
      match flavor with
      | .mysql =>
        match unionGTIDStrings (recordedTexts idx) with
        | .error _ => false
        | .ok all =>
          if all = "" then false
          else
            match intersectsGTIDStrings anchor all with
            | .error _ => false
            | .ok held => held
      | .mariadb =>
        match parseMariaPos anchor with
        | .error _ => false
        | .ok pos => (positionGTIDs pos).any (recordedDead idx)

/-- Why `selectRecoveryBackup` passes over a backup. -/
def skipReason (flavor : Flavor) (targetTime : Option Time) (targetGTID : String) (replays : Bool)
    (index : Option ArchiveIndex) (entry : BaseBackup) : Option String :=
  if targetTime.any (·<entry.metadata.completedAt) then some " (completed after the target)"
  else if targetGTID ≠ "" ∧ entry.anchorGTID ≠ "" then
    match flavor.gtid.contains targetGTID entry.anchorGTID with
    | .ok true => none
    | _ => some " (anchor not contained in the target)"
  else if replays ∧ targetGTID = "" ∧ anchorOnDeadBranch entry.anchorGTID index flavor then
    some " (taken on a dead branch)"
  else none

inductive SelectionError where
  | noBackups
  | invalidTargetTime (raw : String)
  | unreachable (skipped : List String)
  deriving DecidableEq

/-- The time bound of a target; `parseTime` is `time.Parse` of RFC 3339. -/
def targetBound (parseTime : String → Option Time) (target : Option RecoveryTargetSpec) :
    Except SelectionError (Option Time) :=
  match target with
  | none => .ok none
  | some target =>
    if target.targetTime = "" then .ok none
    else
      match parseTime target.targetTime with
      | none => .error (.invalidTargetTime target.targetTime)
      | some t => .ok (some t)

def newestFirst (entries : List BaseBackup) : List BaseBackup :=
  entries.insertionSort fun a b => b.metadata.completedAt≤a.metadata.completedAt

/-- The newest backup that can reach the target. -/
def selectRecoveryBackup (parseTime : String → Option Time) (entries : List BaseBackup)
    (target : Option RecoveryTargetSpec) (index : Option ArchiveIndex) (flavor : Flavor) :
    Except SelectionError BaseBackup := do
  require (entries≠[]) .noBackups
  let targetTime ← targetBound parseTime target
  let skip := skipReason flavor targetTime ((target.map (·.targetGTID)).getD "")
    (replaysBinlogs target) index
  match (newestFirst entries).find? fun entry => (skip entry).isNone with
  | some entry => .ok entry
  | none => .error (.unreachable ((newestFirst entries).filterMap fun entry =>
      (skip entry).map (entry.metadata.backupID ++ ·)))

variable (flavor : Flavor) (idx : ArchiveIndex) (anchor : String) (target : RecoveryTarget)

def RefusedDead : Prop :=
  match flavor with
  | .mysql => ∃ e,planReplay (some idx) anchor target = .error e ∧
    e.sentinel=some .errBackupOnDeadBranch
  | .mariadb => ∃ folded,applyArchiveTimeline idx = .ok folded ∧
    ∃ e,prepareMariadbPositional folded anchor target = .error e ∧
      e.sentinel=some .errBackupOnDeadBranch

/-- The restore of a backup gets as far as to look for dead branches. -/
def Judged : Prop :=
  match flavor with
  | .mysql => ∃ plan,planReplayWithOps mysqlGTIDSet (some idx) anchor target = .ok plan
  | .mariadb => ∃ folded,applyArchiveTimeline idx = .ok folded

end

section

def SaysDead (e : ReplayError) : Prop := e.sentinel=some .errBackupOnDeadBranch

theorem saysDead_iff (e : ReplayError) : SaysDead e ↔ ∃ held,e = .backupOnDeadBranch held := by
  cases e <;> simp [SaysDead,ReplayError.sentinel]

theorem avoids_parse {α β : Type} (context : String) (x : Except GTIDError α) {f : α → Except ReplayError β}
    (hf : ∀ a,Avoids SaysDead (f a)) : Avoids SaysDead (x.mapError (.parse context) >>= f) :=
  (avoids_mapError x (by simp [SaysDead,ReplayError.sentinel])).bind hf

variable {idx : ArchiveIndex} {anchor : String} {target : RecoveryTarget}

theorem walkSegments_avoids (ops : GTIDOps) (segs : List ArchiveSegment) (frontier : ops.Carrier) :
    Avoids SaysDead (walkSegments ops segs frontier) := by
  induction segs generalizing frontier with
  | nil => exact avoids_ok _
  | cons seg rest ih =>
    refine avoids_parse _ _ fun set => ?_
    split
    · exact ih _
    · exact (ih _).bind fun _ => avoids_ok _

/-- Nothing before the fork records says that the backup is on a dead branch. -/
theorem planReplayWithOps_avoids (ops : GTIDOps) :
    Avoids SaysDead (planReplayWithOps ops (some idx) anchor target) := by
  have htime : Avoids SaysDead (checkTimeTarget idx target) := by
    unfold checkTimeTarget
    split
    · exact avoids_ok _
    · exact avoids_require _ (by simp [SaysDead,ReplayError.sentinel])
  have hcoverage : ∀ frontier,Avoids SaysDead (checkCoverage ops frontier idx.coveredGTIDSet) := by
    intro frontier
    unfold checkCoverage
    split
    · exact avoids_ok _
    · refine avoids_parse _ _ fun covered => avoids_require _ ?_
      simp [SaysDead,ReplayError.sentinel]
  have htarget : ∀ plan frontier anchor,
      Avoids SaysDead (applyTargetWithOps ops plan frontier anchor target) := by
    intro plan frontier anchor
    unfold applyTargetWithOps
    split
    · refine avoids_parse _ _ fun want => ?_
      refine (avoids_require _ (by simp [SaysDead,ReplayError.sentinel])).bind fun _ => ?_
      exact (avoids_require _ (by simp [SaysDead,ReplayError.sentinel])).bind fun _ => avoids_ok _
    · split
      · exact avoids_ok _
      · exact avoids_ok _
  refine htime.bind fun _ => avoids_parse _ _ fun set => ?_
  exact (walkSegments_avoids ops _ _).bind fun walked =>
    (hcoverage walked.2).bind fun _ => htarget _ walked.2 set

variable [CaseMapping]

theorem checkUnrecordedForks_avoids (idx : ArchiveIndex) (recorded : String) :
    Avoids SaysDead (checkUnrecordedForks idx recorded) := by
  have hparse : ∀ segs,Avoids SaysDead (parseSegments segs) := by
    intro segs
    induction segs with
    | nil => exact avoids_ok _
    | cons seg rest ih => exact avoids_parse _ _ fun set => ih.bind fun _ => avoids_ok _
  have hlater : ∀ known earlier rest,Avoids SaysDead (checkAgainstLater known earlier rest) := by
    intro known earlier rest
    induction rest with
    | nil => exact avoids_ok _
    | cons later rest ih =>
      unfold checkAgainstLater
      split
      · exact avoids_error (by simp [SaysDead,ReplayError.sentinel])
      · exact ih
  have hpairs : ∀ known sets,Avoids SaysDead (checkSegmentPairs known sets) := by
    intro known sets
    induction sets with
    | nil => exact avoids_ok _
    | cons earlier rest ih => exact (hlater known earlier rest).bind fun _ => ih
  exact avoids_parse _ _ fun known => (hparse _).bind fun sets => hpairs known sets

theorem checkPlannedGaps_avoids (anchor : String) (plan : ReplayPlan) :
    Avoids SaysDead (checkPlannedGaps anchor plan) := by
  refine avoids_parse _ _ fun union => ?_
  refine avoids_parse _ _ fun anchor => avoids_parse _ _ fun got => avoids_parse _ _ fun disowned => ?_
  exact avoids_require _ (by simp [SaysDead,ReplayError.sentinel])

theorem refusedDead_mysql_iff : RefusedDead .mysql idx anchor target ↔
    ∃ plan,planReplayWithOps mysqlGTIDSet (some idx) anchor target = .ok plan ∧
      ∃ held,applyMySQLForks idx target plan = .error (.backupOnDeadBranch held) := by
  constructor
  · rintro ⟨e,herr,hdead⟩
    obtain ⟨held,rfl⟩ := (saysDead_iff e).mp hdead
    rw [planReplay,bind_eq_error] at herr
    rcases herr with herr | ⟨plan,hplan,herr⟩
    · exact absurd hdead (planReplayWithOps_avoids _ _ herr)
    · refine ⟨plan,hplan,held,?_⟩
      rw [bind_eq_error] at herr
      rcases herr with herr | ⟨plan',_,herr⟩
      · exact herr
      · have hforks := (checkUnrecordedForks_avoids idx plan'.disownedGTIDs).runIf (target.gtid = "")
        have hgaps := (checkPlannedGaps_avoids anchor plan').runIf (target.gtid = "" ∧ target.time=none)
        have havoids := hforks.bind fun _ => hgaps.bind fun _ => avoids_ok plan'
        exact absurd hdead (havoids _ herr)
  · rintro ⟨plan,hplan,held,herr⟩
    refine ⟨.backupOnDeadBranch held,?_,rfl⟩
    rw [planReplay,bind_eq_error]
    refine .inr ⟨plan,hplan,?_⟩
    rw [bind_eq_error]
    exact .inl herr

omit [CaseMapping] in
/-- Both sides read the same texts, but for empty ones. -/
theorem mem_recordedTexts {raw : String} (hne : raw ≠ "") :
    raw∈recordedTexts idx ↔ raw∈disownedTexts idx := by
  simp only [recordedTexts,disownedTexts,mem_append,mem_filterMap,Option.mem_toList,
    Option.map_eq_some_iff,Option.bind_eq_some_iff,Option.ite_none_right_eq_some,
    Option.some.injEq]
  constructor
  · rintro (⟨d,hd,rfl⟩ | ⟨seg,hseg,f,hf,rfl⟩)
    · refine .inr ?_
      simp [hd,hne]
    · exact .inl ⟨seg,hseg,f,hf,hne,rfl⟩
  · rintro (⟨seg,hseg,f,hf,_,rfl⟩ | hd)
    · exact .inr ⟨seg,hseg,f,hf,rfl⟩
    · cases hdis : idx.disowned with
      | none => simp [hdis] at hd
      | some d =>
        simp only [hdis] at hd
        split_ifs at hd
        · exact .inl ⟨d,rfl,(mem_singleton.mp hd).symm⟩
        · simp at hd

theorem recordedTexts_parse_iff :
    (∀ raw∈recordedTexts idx,Parses raw) ↔ ∀ raw∈disownedTexts idx, Parses raw := by
  refine forall_congr' fun raw => ?_
  by_cases hne : raw = ""
  · simp [hne,parses_empty]
  · rw [mem_recordedTexts hne]

/-- The operator's check: the texts can be read and the anchor holds a disowned transaction. -/
theorem anchorOnDeadBranch_mysql (hanchor : Parses anchor) :
    anchorOnDeadBranch anchor (some idx) .mysql=true ↔
      (∀ raw∈disownedTexts idx,Parses raw) ∧ (gtids anchor ∩ disownedTxns idx).Nonempty := by
  rw [← recordedTexts_parse_iff]
  by_cases hparse : ∀ raw∈recordedTexts idx,Parses raw
  · obtain ⟨u,hu,hr,hg⟩ := unionGTIDStrings_correct _ hparse
    have hdisowned : gtids u=disownedTxns idx := by
      ext t
      rw [hg,mem_disownedTxns]
      refine exists_congr fun raw => ?_
      by_cases hne : raw = ""
      · simp [hne]
      · rw [mem_recordedTexts hne]
    obtain ⟨r,hi,hmeet⟩ := intersectsGTIDStrings_correct anchor u hanchor hr.parses
    rw [← hdisowned,← hmeet,and_iff_right hparse]
    simp only [anchorOnDeadBranch,hu,hi]
    split_ifs with hblank hempty
    · rw [hblank,gtids_empty,Set.empty_inter] at hmeet
      simpa using hmeet
    · rw [hempty,gtids_empty,Set.inter_empty] at hmeet
      simpa using hmeet
    · rfl
  · have herr : ∀ u,unionGTIDStrings (recordedTexts idx) ≠ .ok u :=
      fun u hu => hparse (unionGTIDStrings_parses hu)
    simp only [hparse,false_and,iff_false]
    cases hu : unionGTIDStrings (recordedTexts idx) with
    | ok u => exact absurd hu (herr u)
    | error e => simp [anchorOnDeadBranch,hu]

/-- On MySQL the check and the restore agree, once the restore gets to it. -/
theorem refusedDead_mysql (ht : target.gtid = "") : RefusedDead .mysql idx anchor target ↔
    anchorOnDeadBranch anchor (some idx) .mysql=true ∧ Judged .mysql idx anchor target := by
  rw [refusedDead_mysql_iff,and_comm]
  have hplanned : ∀ plan,planReplayWithOps mysqlGTIDSet (some idx) anchor target = .ok plan →
      ((∃ held,applyMySQLForks idx target plan = .error (.backupOnDeadBranch held)) ↔
        anchorOnDeadBranch anchor (some idx) .mysql=true) := by
    intro plan hplan
    have hp := planReplayWithOps_correct hplan
    rw [anchorOnDeadBranch_mysql hp.anchor_parses]
    by_cases hparse : ∀ raw∈disownedTexts idx,Parses raw
    · rw [applyMySQLForks_refuses ht hparse hp.exclude_rendered.parses,hp.exclude_eq,
        and_iff_right hparse,ne_eq,sdiff_eq_left,Set.not_disjoint_iff_nonempty_inter,
        Set.inter_comm]
    · have herr : ∀ u,unionGTIDStrings (disownedTexts idx) ≠ .ok u :=
        fun u hu => hparse (unionGTIDStrings_parses hu)
      simp only [hparse,false_and,iff_false]
      cases hu : unionGTIDStrings (disownedTexts idx) with
      | ok u => exact absurd hu (herr u)
      | error e => simp [applyMySQLForks,hu,Except.mapError,bind,Except.bind]
  constructor
  · rintro ⟨plan,hplan,hheld⟩
    exact ⟨⟨plan,hplan⟩,(hplanned plan hplan).mp hheld⟩
  · rintro ⟨⟨plan,hplan⟩,hdead⟩
    exact ⟨plan,hplan,(hplanned plan hplan).mpr hdead⟩

end

section

variable {idx : ArchiveIndex} {anchor : String} {target : RecoveryTarget} {d : UInt32}

theorem mem_positionGTIDs {pos : MariaPos} {g : MariaDBGTID} :
    g∈positionGTIDs pos ↔ ∃ e,pos.lookup g.domain=some e ∧ g=⟨g.domain,e.server,e.seq.toNat⟩ := by
  simp only [positionGTIDs,mem_filterMap,Option.map_eq_some_iff,MariaPos.mem_domains]
  constructor
  · rintro ⟨domain,_,e,he,rfl⟩
    exact ⟨e,he,rfl⟩
  · rintro ⟨e,he,hg⟩
    exact ⟨g.domain,by simp [he],e,he,hg.symm⟩

/-- Past the cut of a segment whose last transaction has its author. -/
def PastCut (g : MariaDBGTID) (seg : ArchiveSegment) : Prop :=
  ∃ cut,(seg.fork.bind fun f => f.afterSeq.lookup g.domain.toNat)=some cut ∧ cut<g.seq ∧
    ∃ p,parseMariaPos seg.gtidSet = .ok p ∧ ∃ e,p.lookup g.domain=some e ∧ e.server=g.server

variable {g : MariaDBGTID} {seg : ArchiveSegment}

theorem forkHolds_iff : forkHolds g seg=true ↔ PastCut g seg := by
  unfold forkHolds PastCut
  cases seg.fork with
  | none => simp
  | some fork =>
    simp only [Option.bind_some]
    cases fork.afterSeq.lookup g.domain.toNat with
    | none => simp
    | some cut =>
      cases hp : parseMariaPos seg.gtidSet with
      | error e => simp
      | ok p =>
        simp only [any_eq_true,Option.any_eq_true,decide_eq_true_eq,Option.some.injEq,
          exists_eq_left',Except.ok.injEq,MariaPos.mem_domains]
        constructor
        · rintro ⟨domain,_,e,he,rfl,hserver,hlt⟩
          exact ⟨hlt,e,he,hserver⟩
        · rintro ⟨hlt,e,he,hserver⟩
          exact ⟨g.domain,by simp [he],e,he,rfl,hserver,hlt⟩

theorem pastFork_isSome_iff : (pastFork g (replaySegment seg)).isSome=true ↔ PastCut g seg := by
  unfold pastFork PastCut forkCut segmentAuthor replaySegment
  cases seg.fork.bind fun f => f.afterSeq.lookup g.domain.toNat with
  | none => simp
  | some cut =>
    cases hp : parseMariaPos seg.gtidSet with
    | error e => simp
    | ok p =>
      cases he : p.lookup g.domain with
      | none => simp [he]
      | some e =>
        by_cases hserver : e.server=g.server <;> by_cases hlt : cut<g.seq <;>
          simp [he,hserver,hlt]

def Disowns (idx : ArchiveIndex) (g : MariaDBGTID) : Prop :=
  (∃ r∈(idx.disowned.map (·.ranges)).getD [],ArchiveDisownedRange.holds r g=true) ∨
    ∃ seg∈idx.segments,PastCut g seg

theorem recordedDead_iff : recordedDead idx g=true ↔ Disowns idx g := by
  simp only [recordedDead,Bool.or_eq_true,any_eq_true,forkHolds_iff,Disowns]

theorem checkMariadbAnchor_iff :
    (∃ e,checkMariadbAnchor (idx.segments.map replaySegment) idx.disowned anchor d = .error e) ↔
      ∃ p,parseMariaPos anchor = .ok p ∧ ∃ e,p.lookup d=some e ∧
        Disowns idx ⟨d,e.server,e.seq.toNat⟩ := by
  unfold checkMariadbAnchor
  cases parseMariaPos anchor with
  | error e => simp
  | ok p =>
    cases he : p.lookup d with
    | none => simp [he]
    | some e =>
      simp only [he,Except.ok.injEq,exists_eq_left',Option.some.injEq,Disowns]
      cases hfind : ((idx.disowned.map (·.ranges)).getD []).find?
          (ArchiveDisownedRange.holds · ⟨d,e.server,e.seq.toNat⟩) with
      | some r =>
        have hr := List.find?_some hfind
        simp only [Except.error.injEq,exists_eq',true_iff]
        exact .inl ⟨r,mem_of_find?_eq_some hfind,hr⟩
      | none =>
        have hnone : ¬∃ r∈(idx.disowned.map (·.ranges)).getD [],
            ArchiveDisownedRange.holds r ⟨d,e.server,e.seq.toNat⟩=true := by
          simpa using hfind
        rw [or_iff_right hnone]
        cases hsome : (idx.segments.map replaySegment).findSome? fun seg =>
            (pastFork ⟨d,e.server,e.seq.toNat⟩ seg).map (seg.serverUUID,·) with
        | some found =>
          obtain ⟨uuid,cut⟩ := found
          obtain ⟨rseg,hrseg,hpast⟩ := exists_of_findSome?_eq_some hsome
          obtain ⟨seg,hseg,rfl⟩ := mem_map.mp hrseg
          obtain ⟨_,hpast,_⟩ := Option.map_eq_some_iff.mp hpast
          simp only [Except.error.injEq,exists_eq',true_iff]
          exact ⟨seg,hseg,pastFork_isSome_iff.mp (by simp [hpast])⟩
        | none =>
          simp only [reduceCtorEq,exists_false,false_iff]
          rintro ⟨seg,hseg,hpast⟩
          have hmiss := List.findSome?_eq_none_iff.mp hsome _ (mem_map_of_mem hseg)
          rw [← pastFork_isSome_iff,Option.isSome_iff_exists] at hpast
          obtain ⟨cut,hcut⟩ := hpast
          simp [hcut] at hmiss

theorem checkMariadbAnchor_sentinel {segs : List ReplaySegment} {disowned : Option ArchiveDisowned}
    {e : MariaReplayError} (h : checkMariadbAnchor segs disowned anchor d = .error e) :
    e.sentinel=some .errBackupOnDeadBranch := by
  simp only [checkMariadbAnchor] at h
  repeat' split at h
  all_goals cases h
  · rfl
  · rfl

theorem prepareSelection_avoids (p : MariadbPositional) :
    Avoids (fun e : MariaReplayError => e.sentinel=some .errBackupOnDeadBranch)
      (prepareSelection idx target p) := by
  have hloop : ∀ goal rounds current ranges out,
      Avoids (fun e : MariaReplayError => e.sentinel=some .errBackupOnDeadBranch)
        (selectLoop goal rounds current ranges out) := by
    intro goal rounds
    induction rounds with
    | zero =>
      intro current ranges out
      unfold selectLoop
      split
      · exact avoids_ok _
      · exact avoids_error (by simp [MariaReplayError.sentinel])
    | succ rounds ih =>
      intro current ranges out
      unfold selectLoop
      split
      · exact avoids_ok _
      · simp only
        split
        · exact avoids_error (by simp [MariaReplayError.sentinel])
        · exact ih _ _ _
  have hselect : ∀ segs domain anchorSeq goal,
      Avoids (fun e : MariaReplayError => e.sentinel=some .errBackupOnDeadBranch)
        (selectMariadbSegments segs domain anchorSeq goal) := by
    intro segs domain anchorSeq goal
    unfold selectMariadbSegments
    split
    · exact avoids_ok _
    · simp only
      split
      · exact avoids_error (by simp [MariaReplayError.sentinel])
      · exact (hloop _ _ _ _ _).bind fun _ => avoids_ok _
  simp only [prepareSelection]
  split
  · exact avoids_ok _
  · split
    · exact avoids_ok _
    · split
      · rename_i e herr
        split
        · exact avoids_ok _
        · exact avoids_error (hselect _ _ _ _ e herr)
      · exact avoids_ok _

theorem prepare_refuses_iff (ht : target.gtid = "") (hd : archiveDomains idx=[d]) :
    (∃ e,prepareMariadbPositional idx anchor target = .error e ∧
        e.sentinel=some .errBackupOnDeadBranch) ↔
      ∃ p,parseMariaPos anchor = .ok p ∧ ∃ e,p.lookup d=some e ∧
        Disowns idx ⟨d,e.server,e.seq.toNat⟩ := by
  rw [← checkMariadbAnchor_iff]
  have hprepare : prepareMariadbPositional idx anchor target =
      checkMariadbAnchor (idx.segments.map replaySegment) idx.disowned anchor d >>= fun _ =>
        prepareSelection idx target
          { enabled := true, domain := d, anchorSeq := mariaSeqForDomain anchor d } := by
    simp only [prepareMariadbPositional,ht,ne_eq,not_true_eq_false,if_false,hd]
  rw [hprepare]
  constructor
  · rintro ⟨e,herr,hdead⟩
    rcases bind_eq_error.mp herr with hcheck | ⟨_,_,hselect⟩
    · exact ⟨e,hcheck⟩
    · exact absurd hdead (prepareSelection_avoids _ e hselect)
  · rintro ⟨e,hcheck⟩
    exact ⟨e,bind_eq_error.mpr (.inl hcheck),checkMariadbAnchor_sentinel hcheck⟩

def DisownedElsewhere (idx : ArchiveIndex) (anchor : String) (d : UInt32) : Prop :=
  ∃ p,parseMariaPos anchor = .ok p ∧ ∃ g∈positionGTIDs p,g.domain≠d ∧
    ∃ r∈(idx.disowned.map (·.ranges)).getD [],ArchiveDisownedRange.holds r g=true

variable [CaseMapping]

theorem anchorOnDeadBranch_mariadb (hd : archiveDomains idx=[d]) :
    anchorOnDeadBranch anchor (some idx) .mariadb=true ↔
      (∃ p,parseMariaPos anchor = .ok p ∧ ∃ e,p.lookup d=some e ∧
        Disowns idx ⟨d,e.server,e.seq.toNat⟩) ∨ DisownedElsewhere idx anchor d := by
  have hcovered : ∀ g seg,seg∈idx.segments → PastCut g seg → g.domain=d := by
    rintro g seg hseg ⟨_,_,_,p,hp,e,he,_⟩
    have hmem : g.domain∈archiveDomains idx := mem_archiveDomains.mpr ⟨seg,hseg,p,hp,by simp [he]⟩
    simpa [hd] using hmem
  by_cases hblank : anchor = ""
  · subst hblank
    have hempty : parseMariaPos "" = .ok ∅ := rfl
    simp [anchorOnDeadBranch,DisownedElsewhere,hempty,mem_positionGTIDs]
  simp only [anchorOnDeadBranch,hblank,if_false,DisownedElsewhere]
  cases hp : parseMariaPos anchor with
  | error e => simp
  | ok p =>
    simp only [any_eq_true,recordedDead_iff,Except.ok.injEq,exists_eq_left']
    constructor
    · rintro ⟨g,hg,hdead⟩
      by_cases hdomain : g.domain=d
      · obtain ⟨e,he,hgeq⟩ := mem_positionGTIDs.mp hg
        rw [hdomain] at he hgeq
        exact .inl ⟨e,he,hgeq ▸ hdead⟩
      · rcases hdead with hrange | ⟨seg,hseg,hpast⟩
        · exact .inr ⟨g,hg,hdomain,hrange⟩
        · exact absurd (hcovered g seg hseg hpast) hdomain
    · rintro (⟨e,he,hdead⟩ | ⟨g,hg,_,hrange⟩)
      · exact ⟨_,mem_positionGTIDs.mpr ⟨e,he,rfl⟩,hdead⟩
      · exact ⟨g,hg,.inl hrange⟩

theorem archiveDomains_folded {folded : ArchiveIndex} (h : applyArchiveTimeline idx = .ok folded) :
    archiveDomains folded=archiveDomains idx := by
  unfold archiveDomains
  congr 1
  apply foldl_eq_of_forall₂
  refine (applyArchiveTimeline_spec h).2.imp ?_
  rintro seg seg' ⟨hset,_⟩ out
  rw [hset]

theorem Disowns.folded {folded : ArchiveIndex} {g : MariaDBGTID} (h : Disowns idx g)
    (hfold : applyArchiveTimeline idx = .ok folded) : Disowns folded g := by
  obtain ⟨hranges,hsegs⟩ := applyArchiveTimeline_spec hfold
  rcases h with hrange | ⟨seg,hseg,cut,hcut,hlt,hauthor⟩
  · exact .inl (hranges ▸ hrange)
  · obtain ⟨seg',hseg',hset,hcuts⟩ := exists_of_forall₂ hsegs hseg
    obtain ⟨cut',hle,hcut'⟩ := hcuts _ cut hcut
    exact .inr ⟨seg',hseg',cut',hcut',by omega,hset ▸ hauthor⟩

theorem refusedDead_mariadb_iff {folded : ArchiveIndex} (ht : target.gtid = "")
    (hd : archiveDomains idx=[d]) (hfold : applyArchiveTimeline idx = .ok folded) :
    RefusedDead .mariadb idx anchor target ↔
      ∃ p,parseMariaPos anchor = .ok p ∧ ∃ e,p.lookup d=some e ∧
        Disowns folded ⟨d,e.server,e.seq.toNat⟩ := by
  rw [← prepare_refuses_iff ht ((archiveDomains_folded hfold).trans hd)]
  constructor
  · rintro ⟨folded',hfold',hrefused⟩
    cases hfold.symm.trans hfold'
    exact hrefused
  · exact fun hrefused => ⟨folded,hfold,hrefused⟩

theorem selectRecoveryBackup_spec {parseTime : String → Option Time} {entries : List BaseBackup}
    {spec : RecoveryTargetSpec} {index : Option ArchiveIndex} {flavor : Flavor} {bound : Option Time}
    (hgtid : spec.targetGTID = "") (hreplays : replaysBinlogs (some spec)=true)
    (hbound : targetBound parseTime (some spec) = .ok bound) :
    let Skipped := fun e : BaseBackup => bound.any (·<e.metadata.completedAt)=true ∨
      anchorOnDeadBranch e.anchorGTID index flavor=true
    (∀ chosen,selectRecoveryBackup parseTime entries (some spec) index flavor = .ok chosen →
      chosen∈entries ∧ ¬Skipped chosen ∧
        ∀ e∈entries,chosen.metadata.completedAt<e.metadata.completedAt → Skipped e) ∧
    ∀ err,selectRecoveryBackup parseTime entries (some spec) index flavor = .error err →
      ∀ e∈entries, Skipped e := by
  intro Skipped
  have hskip : ∀ e,(skipReason flavor bound spec.targetGTID (replaysBinlogs (some spec)) index
      e).isNone=true ↔ ¬Skipped e := by
    intro e
    simp only [skipReason,hgtid,hreplays,Skipped,ne_eq,not_true_eq_false,false_and,if_false]
    by_cases htime : bound.any (·<e.metadata.completedAt)=true
    · simp [htime]
    · by_cases hdead : anchorOnDeadBranch e.anchorGTID index flavor=true
      · simp [htime,hdead]
      · simp [htime,hdead]
  have hmem : ∀ e,e∈newestFirst entries ↔ e∈entries := fun e => mem_insertionSort _
  by_cases hempty : entries=[]
  · subst hempty
    simp [selectRecoveryBackup,require,bind,Except.bind]
  cases hfind : (newestFirst entries).find? fun e =>
      (skipReason flavor bound spec.targetGTID (replaysBinlogs (some spec)) index e).isNone with
  | none =>
    have hall : ∀ e∈entries, Skipped e := by
      intro e he
      have hnone := List.find?_eq_none.mp hfind e ((hmem e).mpr he)
      rw [hskip] at hnone
      exact not_not.mp hnone
    simp only [selectRecoveryBackup,hbound,hempty,hfind,require,bind,Except.bind,ne_eq,
      not_false_eq_true,if_true,Option.map_some,Option.getD_some]
    exact ⟨by simp,fun _ _ => hall⟩
  | some c =>
    obtain ⟨hc,newer,older,hsplit,hnewer⟩ := List.find?_eq_some_iff_append.mp hfind
    have hsorted : (newestFirst entries).Pairwise
        fun a b => b.metadata.completedAt≤a.metadata.completedAt :=
      pairwise_insertionSort _ entries
    rw [hsplit] at hsorted
    simp only [selectRecoveryBackup,hbound,hempty,hfind,require,bind,Except.bind,ne_eq,
      not_false_eq_true,if_true,Option.map_some,Option.getD_some]
    refine ⟨?_,by simp⟩
    rintro _ ⟨⟩
    refine ⟨(hmem c).mp (by simp [hsplit]),(hskip c).mp hc,?_⟩
    intro e he hlater
    have hin := (hmem e).mpr he
    rw [hsplit,mem_append,mem_cons] at hin
    rcases hin with hin | rfl | hin
    · have hskipped := hnewer e hin
      rw [Bool.not_eq_true',← Bool.not_eq_true,hskip] at hskipped
      exact not_not.mp hskipped
    · exact absurd hlater (lt_irrefl _)
    · have hle := (pairwise_cons.mp (pairwise_append.mp hsorted).2.1).1 e hin
      exact absurd hlater (not_lt.mpr hle)

/-- A backup the choice may pass over: completed after the target, refused as dead, failing before
that is looked at, or in another domain's disowned range. -/
def Unfit (flavor : Flavor) (idx : ArchiveIndex) (d : UInt32) (target : RecoveryTarget)
    (e : BaseBackup) : Prop :=
  target.time.any (·<e.metadata.completedAt)=true ∨
    RefusedDead flavor idx e.anchorGTID target ∨ ¬Judged flavor idx e.anchorGTID target ∨
    flavor = .mariadb ∧ DisownedElsewhere idx e.anchorGTID d

variable {idx : ArchiveIndex} {target : RecoveryTarget} {d : UInt32} {flavor : Flavor}

section

variable {anchor : String} (ht : target.gtid = "") (hd : archiveDomains idx=[d])
include ht hd

theorem refusedDead_of_anchorOnDeadBranch (hjudged : Judged .mariadb idx anchor target)
    (hdead : anchorOnDeadBranch anchor (some idx) .mariadb=true) :
    RefusedDead .mariadb idx anchor target ∨ DisownedElsewhere idx anchor d := by
  obtain ⟨folded,hfold⟩ := hjudged
  rcases (anchorOnDeadBranch_mariadb hd).mp hdead with ⟨p,hp,e,he,hdis⟩ | helse
  · exact .inl ((refusedDead_mariadb_iff ht hd hfold).mpr ⟨p,hp,e,he,hdis.folded hfold⟩)
  · exact .inr helse

theorem anchorOnDeadBranch_iff_refusedDead (hfold : applyArchiveTimeline idx = .ok idx) :
    anchorOnDeadBranch anchor (some idx) .mariadb=true ↔
      RefusedDead .mariadb idx anchor target ∨ DisownedElsewhere idx anchor d := by
  rw [anchorOnDeadBranch_mariadb hd,refusedDead_mariadb_iff ht hd hfold]

end

theorem unfit_of_anchorOnDeadBranch {e : BaseBackup} (ht : target.gtid = "")
    (hd : flavor = .mariadb → archiveDomains idx=[d])
    (hdead : anchorOnDeadBranch e.anchorGTID (some idx) flavor=true) :
    Unfit flavor idx d target e := by
  by_cases hjudged : Judged flavor idx e.anchorGTID target
  · cases flavor with
    | mysql => exact .inr (.inl ((refusedDead_mysql ht).mpr ⟨hdead,hjudged⟩))
    | mariadb =>
      rcases refusedDead_of_anchorOnDeadBranch ht (hd rfl) hjudged hdead with hrefused | helse
      · exact .inr (.inl hrefused)
      · exact .inr (.inr (.inr ⟨rfl,helse⟩))
  · exact .inr (.inr (.inl hjudged))

/-- The operator's check agrees with the restore: the choice takes no backup refused as dead and
passes over none that is fit. -/
theorem selection_agrees (idx : ArchiveIndex) (target : RecoveryTarget) (ht : target.gtid = "") :
    (∀ anchor,RefusedDead .mysql idx anchor target ↔
      anchorOnDeadBranch anchor (some idx) .mysql=true ∧ Judged .mysql idx anchor target) ∧
    (∀ d anchor,archiveDomains idx=[d] → Judged .mariadb idx anchor target →
      anchorOnDeadBranch anchor (some idx) .mariadb=true →
      RefusedDead .mariadb idx anchor target ∨ DisownedElsewhere idx anchor d) ∧
    (∀ d anchor,archiveDomains idx=[d] → applyArchiveTimeline idx = .ok idx →
      (anchorOnDeadBranch anchor (some idx) .mariadb=true ↔
        RefusedDead .mariadb idx anchor target ∨ DisownedElsewhere idx anchor d)) ∧
    ∀ parseTime spec entries flavor d,spec.targetGTID = "" → replaysBinlogs (some spec)=true →
      targetBound parseTime (some spec) = .ok target.time →
      (flavor = .mariadb → archiveDomains idx=[d]) →
      (∀ chosen,selectRecoveryBackup parseTime entries (some spec) (some idx) flavor = .ok chosen →
        chosen∈entries ∧
        ((flavor = .mariadb → applyArchiveTimeline idx = .ok idx) →
          ¬RefusedDead flavor idx chosen.anchorGTID target) ∧
        ∀ e∈entries,chosen.metadata.completedAt<e.metadata.completedAt →
          Unfit flavor idx d target e) ∧
      ∀ err,selectRecoveryBackup parseTime entries (some spec) (some idx) flavor = .error err →
        ∀ e∈entries,Unfit flavor idx d target e := by
  refine ⟨fun anchor => refusedDead_mysql ht,
    fun d anchor hd => refusedDead_of_anchorOnDeadBranch ht hd,
    fun d anchor hd => anchorOnDeadBranch_iff_refusedDead ht hd,?_⟩
  intro parseTime spec entries flavor d hgtid hreplays hbound hd
  obtain ⟨hok,herr⟩ := @selectRecoveryBackup_spec _ parseTime entries spec (some idx) flavor _
    hgtid hreplays hbound
  have hunfit : ∀ e : BaseBackup,(target.time.any (·<e.metadata.completedAt)=true ∨
      anchorOnDeadBranch e.anchorGTID (some idx) flavor=true) → Unfit flavor idx d target e := by
    rintro e (htime | hdead)
    · exact .inl htime
    · exact unfit_of_anchorOnDeadBranch ht hd hdead
  constructor
  · intro chosen hchosen
    obtain ⟨hmem,hfit,hnewer⟩ := hok chosen hchosen
    refine ⟨hmem,?_,fun e he hlater => hunfit e (hnewer e he hlater)⟩
    intro hfold hrefused
    refine hfit (.inr ?_)
    cases flavor with
    | mysql => exact ((refusedDead_mysql ht).mp hrefused).1
    | mariadb =>
      exact (anchorOnDeadBranch_iff_refusedDead ht (hd rfl) (hfold rfl)).mpr (.inl hrefused)
  · exact fun err hfailed e he => hunfit e (herr err hfailed e he)

end

def disownedIndex : ArchiveIndex where
  segments := [{ serverUUID := "u", gtidSet := "u:1-5", fork := some { gtidSet := "u:4-5" } }]
  archivedThrough := 10

/-- A MariaDB archive whose timeline disowns the tail of its segment. -/
def timelineIndex (fork : Option ArchiveFork) : ArchiveIndex where
  segments := [{ serverUUID := "a", gtidSet := "0-1-8", fork := fork }]
  mariadbTimeline := [{ serverID := 1 },{ serverID := 2, handoff := "0-1-5" }]

def olderBackup : BaseBackup where
  dir := "b1"
  metadata := ⟨"b1",0,1⟩
  anchorGTID := "u:1-3"

def deadBackup : BaseBackup where
  dir := "b2"
  metadata := ⟨"b2",1,2⟩
  anchorGTID := "u:1-5"

def tailFork : ArchiveFork where
  afterSeq := [(0, 5)]
  detectedBy := "restore"

/-- The newer backup holds disowned transactions, and the older is chosen. -/
theorem selection_agrees_older :
    selectRecoveryBackup (fun _ => none) [olderBackup,deadBackup] (some {}) (some disownedIndex)
        .mysql = .ok olderBackup ∧
      ¬RefusedDead .mysql disownedIndex "u:1-3" {} ∧
      Unfit .mysql disownedIndex 0 {} deadBackup ∧
      (RefusedDead .mariadb (timelineIndex (some tailFork)) "0-1-8" {} ∨
        DisownedElsewhere (timelineIndex (some tailFork)) "0-1-8" 0) := by
  have hchosen : selectRecoveryBackup (fun _ => none) [olderBackup,deadBackup] (some {})
      (some disownedIndex) .mysql = .ok olderBackup := by decide +kernel
  obtain ⟨hok,_⟩ := (selection_agrees disownedIndex {} rfl).2.2.2 (fun _ => none) {}
    [olderBackup,deadBackup] .mysql 0 rfl rfl rfl (by simp)
  obtain ⟨_,halive,hnewer⟩ := hok olderBackup hchosen
  have hrefused := ((selection_agrees (timelineIndex (some tailFork)) {} rfl).2.2.1 0 "0-1-8"
    (by decide +kernel) (by decide +kernel)).mp (by decide +kernel)
  exact ⟨hchosen,halive (by simp),hnewer deadBackup (by simp) (by decide),hrefused⟩

/-- A time past the archive is refused first, and the operator reads the fork records before the
archived timeline is folded in. -/
theorem selection_disagrees :
    (¬∀ (idx : ArchiveIndex) (anchor : String) (target : RecoveryTarget),target.gtid = "" →
      (anchorOnDeadBranch anchor (some idx) .mysql=true ↔ RefusedDead .mysql idx anchor target)) ∧
    ¬∀ (idx : ArchiveIndex) (anchor : String) (target : RecoveryTarget) (d : UInt32),
      target.gtid = "" → archiveDomains idx=[d] →
      (anchorOnDeadBranch anchor (some idx) .mariadb=true ↔
        RefusedDead .mariadb idx anchor target) := by
  constructor
  · intro hall
    obtain ⟨e,herr,hdead⟩ := (hall disownedIndex "u:1-5" { time := some 20 } rfl).mp (by decide +kernel)
    have hplan : planReplay (some disownedIndex) "u:1-5" { time := some 20 } =
        .error (.beyondArchivedThrough 10 20) := by decide +kernel
    cases hplan.symm.trans herr
    cases hdead
  · intro hall
    have hrefused : RefusedDead .mariadb (timelineIndex none) "0-1-8" {} :=
      ⟨timelineIndex (some tailFork),by decide +kernel,
        .anchorPastFork ⟨0,1,8⟩ "a" 5,by decide +kernel,rfl⟩
    have hclear : anchorOnDeadBranch "0-1-8" (some (timelineIndex none)) .mariadb=false := by
      decide +kernel
    have hsays := (hall (timelineIndex none) "0-1-8" {} 0 rfl (by decide +kernel)).mpr hrefused
    rw [hclear] at hsays
    cases hsays

end Cnmsql.Controller
