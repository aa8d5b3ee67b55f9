import Cnmsql.Binlog.ChunkPlans
import Cnmsql.Binlog.ForkSelection

namespace Cnmsql.Binlog

open ObjectStore

variable {disk : String → List TxnBoundary} {plan : PositionalPlan} {files : List PositionalFile} {a : Nat}

/-- A plan to a time over consecutive files without forks. -/
structure TimePlan (disk : String → List TxnBoundary) (plan : PositionalPlan)
    (files : List PositionalFile) (a : Nat) : Prop where
  noSeq : plan.targetSeq=0
  timed : plan.targetTime≠0
  unforked : ∀ s∈plan.segments,s.fork=none
  oneAuthor : OneAuthor plan.domain a (files.flatMap (·.boundaries))
  readable : ∀ f∈files,PlanFile disk plan.domain f
  offsets : ∀ f∈files,∀ b∈f.boundaries,b.domain=plan.domain → 0<b.startPos
  consecutive : ∀ w x y,w≤x → x≤y → Held plan.domain files w → Held plan.domain files y →
    Held plan.domain files x
  fits : ∀ x,Held plan.domain files x → x<2^64

/-- The plan replays what is held past the anchor up to the last sequence before the first one
stamped at or after the time. -/
def ReplaysBefore (disk : String → List TxnBoundary) (plan : PositionalPlan)
    (files : List PositionalFile) (a : Nat) : Prop :=
  ∃ chunks b,planMariadbReplay plan files a = .ok chunks ∧
    IsGreatest (StopsAt plan.domain a plan.targetTime files) b ∧
    (∀ x,Replayed disk plan.domain chunks x ↔ a<x ∧ x≤b ∧ Held plan.domain files x) ∧
    ∀ t∈streamed disk chunks,t.domain=plan.domain → t.time≠0 → t.time<plan.targetTime

namespace TimePlan

variable (h : TimePlan disk plan files a)
include h

theorem plan_eq_ok {chunks : List ReplayChunk} : planMariadbReplay plan files a = .ok chunks ↔
    resolvedTarget plan files a=none ∧ chunks=[] ∨ ∃ t,resolvedTarget plan files a=some t ∧
      planMariadbPositionalFiles files plan.domain a t = .ok chunks := by
  rw [planMariadbReplay_eq_ok (applyMariadbForks_of_unforked h.unforked files _ _),
    checkMariadbAuthors_eq_ok]
  exact and_iff_right h.oneAuthor

/-- Past the highest 64-bit sequence the sentinel wraps to 0. -/
theorem resolvedTarget_wraps (hheld : Held plan.domain files (2^64-1)) :
    resolvedTarget plan files a=none := by
  cases hhighest : highestMariadbSeq files plan.domain with
  | none => exact absurd hheld (not_held_of_highest_none hhighest _)
  | some highest =>
    have hgreatest := isGreatest_highest hhighest
    have hfits := h.fits highest hgreatest.1
    have hge := hgreatest.2 hheld
    obtain ⟨first,-,hfirst,-,hmem,-,-⟩ :=
      seqBeforeTime_spec (d := plan.domain) (a := a) (T := plan.targetTime) files highest
    have htarget : seqBeforeTime files plan.domain a highest plan.targetTime=a := by
      rcases hmem with heq | ⟨b,-,-,hlt,-⟩
      · exact heq
      · omega
    simp [resolvedTarget,h.noSeq,h.timed,hhighest,htarget]

theorem replays_nothing (hnone : resolvedTarget plan files a=none)
    (hstops : IsGreatest (StopsAt plan.domain a plan.targetTime files) a) :
    ReplaysBefore disk plan files a := by
  refine ⟨[],a,h.plan_eq_ok.mpr (.inl ⟨hnone,rfl⟩),hstops,fun x => ?_,by simp [streamed]⟩
  refine iff_of_false (by simp [Replayed,streamed]) fun hx => ?_
  omega

theorem replays_of_fits (hfits : ∀ x,Held plan.domain files x → x+1<2^64) :
    ReplaysBefore disk plan files a := by
  obtain ⟨b,hb⟩ : ∃ b,IsGreatest (StopsAt plan.domain a plan.targetTime files) b := by
    cases hhighest : highestMariadbSeq files plan.domain with
    | none =>
      refine ⟨a,.inl rfl,?_⟩
      rintro x (rfl | ⟨-,hx,-⟩)
      · exact le_rfl
      · exact absurd hx (not_held_of_highest_none hhighest x)
    | some highest =>
      exact ⟨_,isGreatest_seqBeforeTime hhighest (hfits _ (isGreatest_highest hhighest).1)⟩
  have hab : a≤b := hb.2 (.inl rfl)
  rcases resolvedTarget_time h.noSeq h.timed hfits hb with ⟨hsome,hlt⟩ | ⟨hnone,hle⟩
  · obtain ⟨-,hheld,hearly⟩ := hb.1.resolve_left (by omega)
    have htrimmed := PlanFile.trimmedAll h.readable h.offsets
    obtain ⟨highest,hhighest,hle⟩ : ∃ highest,highestMariadbSeq files plan.domain=some highest ∧
        b≤highest := by
      cases hhighest : highestMariadbSeq files plan.domain with
      | none => exact absurd hheld (not_held_of_highest_none hhighest b)
      | some highest => exact ⟨highest,rfl,(isGreatest_highest hhighest).2 hheld⟩
    have hwhole : Whole plan.domain a b (files.map (·.inDomain plan.domain)) := by
      intro w x _ hwx hxb hw
      rw [held_inDomain] at hw ⊢
      exact h.consecutive w x b hwx hxb hw hheld
    obtain ⟨chunks,hchunks⟩ := (planMariadbPositionalFiles_spec (List.forall_mem_map.mpr htrimmed)).1
      ⟨⟨highest,by rwa [highestMariadbSeq_inDomain],hle⟩,hab,hwhole⟩
    rw [planMariadbPositionalFiles_inDomain] at hchunks
    refine ⟨chunks,b,h.plan_eq_ok.mpr (.inr ⟨b,hsome,hchunks⟩),hb,
      replayed_of_plan htrimmed hchunks,?_⟩
    intro t ht hdomain hstamped
    have hfresh : t∈(streamed disk chunks).filter (·.domain=plan.domain) :=
      List.mem_filter.mpr ⟨ht,by simpa using hdomain⟩
    rw [streamed_of_plan htrimmed hchunks] at hfresh
    obtain ⟨hat,htb,f,hf,htf⟩ := lt_of_mem_fresh hfresh
    obtain ⟨g,hg,rfl⟩ := List.mem_map.mp hf
    have hnot := hearly g ((List.perm_insertionSort _ _).mem_iff.mp hg) t (List.mem_filter.mp htf).1 htb
    by_contra hlate
    exact hnot ⟨hdomain,hat,hstamped,not_lt.mp hlate⟩
  · exact h.replays_nothing hnone (Nat.le_antisymm hle hab ▸ hb)

/-- The replay stops right exactly when the highest sequence has a successor, or nothing may be
replayed. -/
theorem replaysBefore_iff :
    ReplaysBefore disk plan files a ↔ ¬Held plan.domain files (2^64-1) ∨
      StopsAt plan.domain a plan.targetTime files={a} := by
  by_cases hheld : Held plan.domain files (2^64-1)
  · have hnone := h.resolvedTarget_wraps hheld
    simp only [hheld,not_true_eq_false,false_or]
    constructor
    · rintro ⟨chunks,b,hplan,hb,hiff,-⟩
      have hnil : chunks=[] := by simpa [hnone] using h.plan_eq_ok.mp hplan
      subst hnil
      have hempty : ∀ x,¬(a<x ∧ x≤b ∧ Held plan.domain files x) := by
        intro x hx
        simpa [Replayed,streamed] using (hiff x).mpr hx
      refine Set.eq_singleton_iff_unique_mem.mpr ⟨.inl rfl,?_⟩
      rintro x hx
      rcases hx with rfl | hx
      · rfl
      · exact absurd ⟨hx.1,hb.2 (.inr hx),hx.2.1⟩ (hempty x)
    · intro hstops
      exact h.replays_nothing hnone (hstops ▸ isGreatest_singleton)
  · refine iff_of_true (h.replays_of_fits fun x hx => ?_) (.inl hheld)
    have hlt := h.fits x hx
    have hne : x≠2^64-1 := fun heq => hheld (heq ▸ hx)
    omega

end TimePlan

def toTen : PositionalPlan := ⟨[],0,0,none,10⟩

theorem timePlan_of_held {file : PositionalFile} (first last : Nat)
    (hheld : ∀ x,Held 0 [file] x ↔ first≤x ∧ x≤last) (hfits : last<2^64)
    (hauthor : OneAuthor 0 0 file.boundaries) (hread : PlanFile (fun _ => file.boundaries) 0 file)
    (hoffsets : ∀ b∈file.boundaries,0<b.startPos) :
    TimePlan (fun _ => file.boundaries) toTen [file] 0 where
  noSeq := rfl
  timed := by decide
  unforked := by simp [toTen]
  oneAuthor := by simpa [toTen] using hauthor
  readable f hf := by
    obtain rfl := List.mem_singleton.mp hf
    exact hread
  offsets f hf b hb _ := by
    obtain rfl := List.mem_singleton.mp hf
    exact hoffsets b hb
  consecutive w x y hwx hxy hw hy := by
    rw [toTen,hheld] at hw hy ⊢
    omega
  fits x hx := by
    rw [toTen,hheld] at hx
    omega

/-- The third of four transactions is stamped late, the last one early again. -/
def lateLog : PositionalFile := ⟨"a","s1",[⟨0,1,1,4,5⟩,⟨0,1,2,8,7⟩,⟨0,1,3,12,12⟩,⟨0,1,4,16,6⟩],0⟩

theorem held_lateLog {x : Nat} : Held 0 [lateLog] x ↔ 1≤x ∧ x≤4 := by
  have hseq : Held 0 [lateLog] x ↔ 1=x ∨ 2=x ∨ 3=x ∨ 4=x := by simp [Held,lateLog]
  rw [hseq]
  omega

theorem replaysBefore_lateLog : ReplaysBefore (fun _ => lateLog.boundaries) toTen [lateLog] 0 := by
  have hplan : TimePlan (fun _ => lateLog.boundaries) toTen [lateLog] 0 :=
    timePlan_of_held 1 4 (fun _ => held_lateLog) (by decide) (by simp [OneAuthor,lateLog])
      ⟨by simp [lateLog],rfl⟩ (by simp [lateLog])
  refine hplan.replaysBefore_iff.mpr (.inl ?_)
  rw [toTen,held_lateLog]
  decide

/-- A log of one transaction, stamped before the time of the plan. -/
def loneLog (seq : Nat) : PositionalFile := ⟨"a","s1",[⟨0,1,seq,4,5⟩],0⟩

theorem held_loneLog {seq x : Nat} : Held 0 [loneLog seq] x ↔ x=seq := by
  simp [Held,loneLog,eq_comm]

theorem timePlan_loneLog {seq : Nat} (h : seq<2^64) :
    TimePlan (fun _ => (loneLog seq).boundaries) toTen [loneLog seq] 0 := by
  refine timePlan_of_held seq seq ?_ h (by simp [OneAuthor,loneLog])
    ⟨by simp [loneLog],rfl⟩ (by simp [loneLog])
  intro x
  rw [held_loneLog]
  omega

/-- With the highest sequence there is, the transaction before the time is lost. -/
theorem loneLog_not_replayed :
    TimePlan (fun _ => (loneLog (2^64-1)).boundaries) toTen [loneLog (2^64-1)] 0 ∧
      planMariadbReplay toTen [loneLog (2^64-1)] 0 = .ok [] ∧
      ¬ReplaysBefore (fun _ => (loneLog (2^64-1)).boundaries) toTen [loneLog (2^64-1)] 0 := by
  have hplan : planMariadbReplay toTen [loneLog (2^64-1)] 0 = .ok [] := by decide +kernel
  refine ⟨timePlan_loneLog (by decide),hplan,?_⟩
  rintro ⟨chunks,b,hchunks,hb,hiff,-⟩
  rw [hplan] at hchunks
  cases hchunks
  have hstop : 2^64-1∈StopsAt toTen.domain 0 toTen.targetTime [loneLog (2^64-1)] :=
    .inr ⟨by decide,held_loneLog.mpr rfl,by simp [loneLog,Late,toTen]⟩
  have hreplayed := (hiff (2^64-1)).mpr ⟨by decide,hb.2 hstop,held_loneLog.mpr rfl⟩
  simp [Replayed,streamed] at hreplayed

end Cnmsql.Binlog
