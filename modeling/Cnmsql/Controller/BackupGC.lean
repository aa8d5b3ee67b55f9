import Mathlib.Tactic.NormNum
import Cnmsql.Api.Backup
import Cnmsql.Api.RetentionPolicy
import Cnmsql.ObjectStore.LogicalRetention
import Cnmsql.ObjectStore.Retention

namespace Cnmsql.Controller

open Framework ObjectStore Api List

variable (window : Int64) (now : Time)

/-- `time.Now().Add(-window)`, at least the zero time, which is before every recorded one. -/
def retentionCutoff : Time := ((now : Int)+(-window).toInt).toNat

/-- A Backup object, as garbage collection reads it. -/
structure BackupObject where
  name : String
  phase : Api.BackupPhase
  creationTimestamp : Time
  deriving DecidableEq

def sortNewestFirst (entries : List BackupObject) : List BackupObject :=
  entries.insertionSort fun a b => b.creationTimestamp<a.creationTimestamp ∨
    a.creationTimestamp=b.creationTimestamp ∧ b.name≤a.name

variable (phase : Api.BackupPhase) (children : List BackupObject)

def ofPhase : List BackupObject :=
  sortNewestFirst (children.filter (·.phase=phase))

/-- `collect` of `planBackupGC`: adds the Backups past the limit or the window. -/
def collectExpired (entries : List BackupObject) (limit : Option Int)
    (candidates : Map String BackupObject) : Map String BackupObject :=
  entries.zipIdx.foldl (fun candidates e =>
    if limit.any (·≤(e.2 : Int)) ∨
        0<window ∧ e.1.creationTimestamp<retentionCutoff window now then
      candidates.insert e.1.name e.1
    else candidates) candidates

/-- The terminal Backups to delete, never the newest completed one. -/
def planBackupGC (succLimit failLimit : Option Int) (window : Int64)
    (now : Time) : List BackupObject :=
  let completed := ofPhase .completed children
  let candidates := collectExpired window now (ofPhase .failed children) failLimit
    (collectExpired window now completed succLimit ∅)
  let kept := match completed with
    | [] => candidates
    | floor::_ => candidates.erase floor.name
  kept.entries.map (·.2)

def OverCount (phase : Api.BackupPhase) (limit : Option Int) (b : BackupObject) : Prop :=
  ∃ (i : Nat) (l : Int),limit=some l ∧ l ≤ i ∧ (ofPhase phase children)[i]?=some b

theorem lookup_collectExpired {window : Int64} {now : Time} {entries : List BackupObject}
    {limit : Option Int} {candidates : Map String BackupObject} {k : String} {b : BackupObject}
    (h : (collectExpired window now entries limit candidates).lookup k=some b) :
    candidates.lookup k=some b ∨
      ∃ i : Nat,entries[i]?=some b ∧ (limit.any (·≤(i : Int))=true ∨
        0<window ∧ b.creationTimestamp<retentionCutoff window now) := by
  have hstep : ∀ (l : List (BackupObject × Nat)) (cands : Map String BackupObject),
      (l.foldl (fun candidates e =>
        if limit.any (·≤(e.2 : Int)) ∨
            0<window ∧ e.1.creationTimestamp<retentionCutoff window now then
          candidates.insert e.1.name e.1
        else candidates) cands).lookup k=some b →
      cands.lookup k=some b ∨ ∃ e∈l,e.1=b ∧ (limit.any (·≤(e.2 : Int))=true ∨
        0<window ∧ e.1.creationTimestamp<retentionCutoff window now) := by
    intro l
    induction l with
    | nil => exact fun cands hl => .inl hl
    | cons e l ih =>
      intro cands hl
      rw [foldl_cons] at hl
      cases ih _ hl with
      | inr hin =>
        obtain ⟨e',he',hb⟩ := hin
        exact .inr ⟨e',mem_cons_of_mem _ he',hb⟩
      | inl hin =>
        split_ifs at hin with hexpired
        · rcases Map.lookup_insert_eq_some hin with ⟨-,hb⟩ | hin
          · exact .inr ⟨e,mem_cons_self,hb.symm,hexpired⟩
          · exact .inl hin
        · exact .inl hin
  cases hstep _ _ h with
  | inl hold => exact .inl hold
  | inr hnew =>
    obtain ⟨⟨b',i⟩,hmem,rfl,hexpired⟩ := hnew
    exact .inr ⟨i,mem_zipIdx_iff_getElem?.mp hmem,hexpired⟩

theorem mem_planBackupGC {children : List BackupObject} {succLimit failLimit : Option Int}
    {window : Int64} {now : Time} {b : BackupObject}
    (h : b∈planBackupGC children succLimit failLimit window now) :
    OverCount children .completed succLimit b ∨ OverCount children .failed failLimit b ∨
      0<window ∧ b.creationTimestamp<retentionCutoff window now := by
  obtain ⟨⟨k,b'⟩,hmem,rfl⟩ := mem_map.mp h
  have hlookup : (collectExpired window now (ofPhase .failed children) failLimit
      (collectExpired window now (ofPhase .completed children) succLimit ∅)).lookup k=some b' := by
    cases hfloor : ofPhase .completed children with
    | nil =>
      rw [hfloor] at hmem
      exact AList.mem_lookup_iff.mpr (by simpa using hmem)
    | cons floor rest =>
      rw [hfloor] at hmem
      exact Map.lookup_of_erase (AList.mem_lookup_iff.mpr hmem)
  have hcount : ∀ {phase : Api.BackupPhase} {limit : Option Int} {i : Nat},
      (ofPhase phase children)[i]?=some b' → limit.any (·≤(i : Int))=true →
      OverCount children phase limit b' := by
    intro phase limit i hi hany
    cases limit with
    | none => simp at hany
    | some l => exact ⟨i,l,rfl,by simpa using hany,hi⟩
  cases lookup_collectExpired hlookup with
  | inr hfailed =>
    obtain ⟨i,hi,hexpired⟩ := hfailed
    cases hexpired with
    | inl hany => exact .inr (.inl (hcount hi hany))
    | inr hage => exact .inr (.inr hage)
  | inl hrest =>
    cases lookup_collectExpired hrest with
    | inl hnone => simp at hnone
    | inr hcompleted =>
      obtain ⟨i,hi,hexpired⟩ := hcompleted
      cases hexpired with
      | inl hany => exact .inl (hcount hi hany)
      | inr hage => exact .inr (.inr hage)

theorem deleteBackupPrefixes_applyBinlogGC (plan : RetentionPlan) (binlogs : List BinlogEntry)
    (index : Option ArchiveIndex) (now : Time) :
    (applyBinlogGC plan binlogs index now).deleteBackupPrefixes=plan.deleteBackupPrefixes := by
  unfold applyBinlogGC
  cases index with
  | none => rfl
  | some index =>
    simp only
    split_ifs
    · rfl
    · rfl
    · rfl

theorem expired_of_planSorted {sorted : List BackupEntry} {binlogs : List BinlogEntry}
    {index : Option ArchiveIndex} {cutoff now : Time} {dir : String}
    (h : dir∈(planSorted sorted binlogs index cutoff now).deleteBackupPrefixes) :
    ∃ e∈sorted,e.dir=dir ∧ e.metadata.completedAt<cutoff := by
  unfold planSorted at h
  cases hlast : sorted.getLast? with
  | none => simp [hlast] at h
  | some newest =>
    rw [hlast] at h
    simp only at h
    split at h
    · rw [deleteBackupPrefixes_applyBinlogGC] at h
      obtain ⟨e,he,hdir⟩ := mem_map.mp h
      obtain ⟨hmem,hcompleted⟩ := mem_filter.mp he
      exact ⟨e,dropLast_subset _ hmem,hdir,of_decide_eq_true hcompleted⟩
    · simp at h

theorem lookup_of_mem_listBaseBackups {s : Store} {e : BackupEntry} (h : e∈listBaseBackups s) :
    s.lookup (.backupManifest e.dir)=some e.metadata := by
  obtain ⟨⟨key,content⟩,hmem,he⟩ := mem_filterMap.mp h
  cases key with
  | backupManifest dir =>
    cases he
    exact AList.mem_lookup_iff.mpr hmem
  | _ => cases he

/-- Nothing that completed less than `length` before a pass expires, count limits apart. -/
structure KeepsFor (length : Nat) (window : Int64) : Prop where
  base : ∀ (s : Store) (now planned : Time) (plan : RetentionPlan),
    PlanRetention s (retentionCutoff window now) planned plan →
    ∀ e∈listBaseBackups s,e.dir∈plan.deleteBackupPrefixes →
      e.metadata.completedAt+length≤now
  logical : ∀ (entries : List LogicalBackupEntry) (now : Time),(entries.map (·.dir)).Nodup →
    ∀ e∈entries,e.dir∈planLogicalRetention entries (retentionCutoff window now) →
      e.metadata.completedAt+length≤now
  scheduled : ∀ (children : List BackupObject) (succLimit failLimit : Option Int) (now : Time),
    ∀ b∈planBackupGC children succLimit failLimit window now,
      OverCount children .completed succLimit b ∨ OverCount children .failed failLimit b ∨
        b.creationTimestamp+length≤now

theorem toInt_neg_window :
    (-window).toInt=if window.toInt = -2^63 then -2^63 else -window.toInt := by
  have hlt := window.toInt_lt
  have hle := window.le_toInt
  rw [Int64.toInt_neg,Int.bmod_def]
  split_ifs <;> omega

theorem old_of_lt_cutoff {length : Nat} {window : Int64} (hw : window.toInt=length) {t now : Nat}
    (h : t<retentionCutoff window now) : t+length≤now := by
  have hneg : (-window).toInt = -(length : Int) := by
    rw [toInt_neg_window,hw,if_neg (by omega)]
  have hlt : t<((now : Int)+(-window).toInt).toNat := h
  rw [hneg] at hlt
  omega

theorem keepsFor_of_exact {length : Nat} {window : Int64} (hw : window.toInt=length) :
    KeepsFor length window where
  base := by
    intro s now planned plan hplan e he hdir
    obtain ⟨sorted,hsorted,rfl⟩ := hplan
    obtain ⟨e',he',hsame,hlt⟩ := expired_of_planSorted hdir
    have hlisted := lookup_of_mem_listBaseBackups (hsorted.1.mem_iff.mp he')
    rw [hsame,lookup_of_mem_listBaseBackups he] at hlisted
    rw [← Option.some.inj hlisted] at hlt
    exact old_of_lt_cutoff hw hlt
  logical := by
    intro entries now hnodup e he hdir
    obtain ⟨e',he',hsame,hlt⟩ := mem_planLogicalRetention hdir
    rw [inj_on_of_nodup_map hnodup he' he hsame] at hlt
    exact old_of_lt_cutoff hw hlt
  scheduled := by
    intro children succLimit failLimit now b hb
    cases mem_planBackupGC hb with
    | inl hcount => exact .inl hcount
    | inr h =>
      cases h with
      | inl hcount => exact .inr (.inl hcount)
      | inr hage => exact .inr (.inr (old_of_lt_cutoff hw hage.2))

/-- Two base backups, completed at `t` and just after. -/
def backupsAround (t : Time) : Store :=
  [ ⟨.backupManifest "b1",BackupMetadata.mk "b1" 0 t⟩,
    ⟨.backupManifest "b2",BackupMetadata.mk "b2" 0 (t+1)⟩ ].toAList

theorem listBaseBackups_around (t : Time) : listBaseBackups (backupsAround t) =
    [⟨"b1",⟨"b1",0,t⟩⟩,⟨"b2",⟨"b2",0,t+1⟩⟩] := rfl

theorem expires_around {t cutoff planned : Time} (h : t<cutoff) :
    ∃ plan,PlanRetention (backupsAround t) cutoff planned plan ∧ "b1" ∈ plan.deleteBackupPrefixes := by
  refine ⟨_,⟨listBaseBackups (backupsAround t),⟨List.Perm.refl _,?_⟩,rfl⟩,?_⟩
  · simp [listBaseBackups_around]
  · simp only [listBaseBackups_around,planSorted,List.getLast?_cons_cons,List.getLast?_singleton,
      dropLast_cons_cons,dropLast_singleton,filter_cons,filter_nil,h,decide_true,
      if_true,not_true,decide_false,Bool.false_eq_true,if_false,nil_append]
    rw [deleteBackupPrefixes_applyBinlogGC]
    simp

/-- A product that does not fit is longer than the time since its wrapped cutoff. -/
theorem wrapped_lt {n : Nat} {unit : RetentionUnit} (hover : 2^63≤n*unit.nanos) {w c : Int}
    (hw : w=((n*unit.nanos : Nat) : Int).bmod (2^64))
    (hc : c=if w = -2^63 then -2^63 else -w) : 1<c+(n*unit.nanos : Nat) := by
  have hthree : n*unit.nanos % 3=0 := by
    have hunit : unit.nanos % 3=0 := by cases unit <;> norm_num [RetentionUnit.nanos]
    rw [Nat.mul_mod,hunit]
    simp
  generalize n*unit.nanos=length at hover hw hthree ⊢
  -- 2⁶³ itself is no product, since every unit is divisible by 3
  have hne : length≠2^63 := by
    intro heq
    rw [heq] at hthree
    norm_num at hthree
  have hdiv : 2^64*(length / 2^64)+length % 2^64=length := Nat.div_add_mod _ _
  have hrest : length % 2^64<2^64 := Nat.mod_lt _ (by norm_num)
  have hmod : (length : Int) % ((2^64 : Nat) : Int)=((length % 2^64 : Nat) : Int) := by
    rw [Int.natCast_mod]
  rw [Int.bmod_def,hmod] at hw
  generalize length / 2^64=q at hdiv
  generalize length % 2^64=r at hdiv hrest hw
  clear hthree hmod
  split_ifs at hw
  · split_ifs at hc
    · omega
    · omega
  · split_ifs at hc
    · omega
    · omega

theorem fits_of_keepsFor {n : Nat} {unit : RetentionUnit}
    (h : KeepsFor (n*unit.nanos) (Int64.ofNat n*Int64.ofNat unit.nanos)) :
    n*unit.nanos ≤ maxInt64 := by
  by_contra hover
  have hw := toInt_window n unit
  generalize Int64.ofNat n*Int64.ofNat unit.nanos=window at h hw
  have hneg := toInt_neg_window window
  have hlt := window.toInt_lt
  have hle := window.le_toInt
  -- a backup that completed just before the cutoff of a pass late enough
  obtain ⟨now,hnow⟩ : ∃ now : Nat, now=2^65 := ⟨_,rfl⟩
  obtain ⟨cutoff,heq,hcutoff⟩ : ∃ cutoff : Nat,retentionCutoff window now=cutoff ∧
      (cutoff : Int)=now+(-window).toInt := by
    refine ⟨_,rfl,Int.toNat_of_nonneg ?_⟩
    rw [hneg]
    split_ifs <;> omega
  have hpos : 0<cutoff := by
    split_ifs at hneg <;> omega
  obtain ⟨plan,hplan,hexpired⟩ := @expires_around (cutoff-1) cutoff 0 (Nat.sub_lt hpos Nat.one_pos)
  have hpass : PlanRetention (backupsAround (cutoff-1)) (retentionCutoff window now) 0 plan := by
    rw [heq]
    exact hplan
  have hlisted : (⟨"b1",⟨"b1",0,cutoff-1⟩⟩ : BackupEntry) ∈
      listBaseBackups (backupsAround (cutoff-1)) := by
    rw [listBaseBackups_around]
    exact mem_cons_self
  have hold : cutoff-1+n*unit.nanos≤now := h.base _ now 0 plan hpass _ hlisted hexpired
  have hlong := wrapped_lt (by simp only [maxInt64] at hover; omega) hw hneg
  omega

theorem window_exact_iff (n : Nat) (unit : RetentionUnit) :
    (Int64.ofNat n*Int64.ofNat unit.nanos).toInt=(n*unit.nanos : Nat) ↔
      n*unit.nanos ≤ maxInt64 := by
  rw [toInt_window,maxInt64]
  generalize n*unit.nanos=length
  constructor
  · intro h
    have hlt := Int.bmod_lt (x := (length : Int)) (m := 2^64) (by norm_num)
    rw [h] at hlt
    omega
  · intro h
    rw [Int.bmod_eq_of_le_mul_two]
    · omega
    · omega

/-- A policy's window is exact, and retention keeps its promise, exactly when the product fits a
`time.Duration`. -/
theorem retention_window_iff {policy : String} {digits : List Char} {unit : RetentionUnit}
    (h : matchRetentionPolicy policy=some (digits, unit)) :
    let length := policyCount digits*unit.nanos
    ((∀ w,parseRetentionPolicy policy = .ok w → w.toInt=length ∧ KeepsFor length w) ↔
      (policyCount digits ≤ maxInt64 → length ≤ maxInt64)) := by
  intro length
  constructor
  · intro hall hcount
    have hok := (parseRetentionPolicy_eq_ok h _).mpr ⟨hcount,rfl⟩
    exact fits_of_keepsFor (hall _ hok).2
  · intro hfits w hok
    obtain ⟨hcount,rfl⟩ := (parseRetentionPolicy_eq_ok h w).mp hok
    have hexact := (window_exact_iff (policyCount digits) unit).mpr (hfits hcount)
    exact ⟨hexact,keepsFor_of_exact hexact⟩

/-- Thirty days are thirty days. -/
theorem retention_window_month :
    parseRetentionPolicy "30d" = .ok 2592000000000000 ∧ KeepsFor 2592000000000000 2592000000000000 := by
  have hmatch : matchRetentionPolicy "30d"=some (['3','0'], .day) := by decide
  have hok : parseRetentionPolicy "30d" = .ok 2592000000000000 := by decide +kernel
  have hall := (retention_window_iff hmatch).mpr (by decide)
  exact ⟨hok,(hall _ hok).2⟩

/-- With 106752 days a backup expires as soon as there is a newer one. -/
theorem retention_window_wraps :
    ¬∀ (policy : String) (digits : List Char) (unit : RetentionUnit),
      matchRetentionPolicy policy=some (digits,unit) → ∀ w,parseRetentionPolicy policy = .ok w →
        w.toInt=policyCount digits*unit.nanos ∧ KeepsFor (policyCount digits*unit.nanos) w := by
  intro hall
  have hok : parseRetentionPolicy "106752d" = .ok (-9223371273709551616) := by decide +kernel
  obtain ⟨_,hkeeps⟩ := hall "106752d" ['1','0','6','7','5','2'] .day (by decide) _ hok
  obtain ⟨plan,hplan,hexpired⟩ := @expires_around 999 (retentionCutoff (-9223371273709551616) 1000) 0
    (by decide +kernel)
  have hold := hkeeps.base _ _ _ plan hplan ⟨"b1",⟨"b1",0,999⟩⟩ mem_cons_self hexpired
  exact absurd hold (by decide +kernel)

end Cnmsql.Controller
