import Cnmsql.Binlog.Passes

namespace Cnmsql.Binlog

open Framework Replication ObjectStore Archiver Routine

def Whatever (_ _ : Know) : Prop := True

instance : IsPreorder Know Whatever where
  refl _ := trivial
  trans _ _ _ _ _ := trivial

theorem Remembers.list {know : Know} {mem : Memory} (hmem : Remembers know mem) (hflushing : know.flushing=none)
    (logs : List BinaryLog) : Remembers (know.list logs) mem := by
  refine { hmem with flushed := ?_ }
  intro hne
  rw [hmem.flushed hne]
  simp [Know.list,hflushing]

section

variable [CaseMapping] {c : Options} {know : Know} {mem : Memory} {through : Time}

theorem indexWrite_stamped {pass : ForkPass} {index : ArchiveIndex} {r : Checked} {generation : Int}
    (updatedAt : Time) (h : ForkChecked c pass index know r)
    (hgen : know.generation=some generation) (hthrough : through≠0 → know.through=through) :
    IndexWrite c know (some index) (stampedIndex c through generation updatedAt r) := by
  obtain ⟨-,hindexGen,hindexThrough⟩ := h.fields
  have hstamp : (if stampDue through r.index then through else r.index.archivedThrough) =
        index.archivedThrough ∨
      (if stampDue through r.index then through else r.index.archivedThrough)=know.through := by
    split
    · rename_i hdue
      simp only [stampDue,decide_eq_true_eq] at hdue
      exact .inr (hthrough hdue.1).symm
    · exact .inl hindexThrough
  unfold stampedIndex
  simp only
  split
  · rename_i hc
    refine ⟨⟨index,r.index,.inl rfl,h.judged_or,rfl,rfl,rfl⟩,?_,hstamp⟩
    obtain ⟨authority,judge,now,changed,g,-,-,hg,hle,-⟩ := h.judged hc
    rw [hgen,Option.some.injEq] at hg
    subst hg
    exact hle
  · refine ⟨⟨index,r.index,.inl rfl,h.judged_or,rfl,rfl,rfl⟩,?_,hstamp⟩
    simp only [Option.getD_some,hindexGen]
    exact Int.le_max_left _ _

theorem sure_stampAttempt {generation : Int} (b : ForkPass × ForkReport)
    {found : Option ArchiveIndex} {etag : Option Nat} (hmem : Remembers know mem)
    (hsees : Sees know b.1) (hsource : b.1.source=true) (hgen : b.1.generation=generation)
    (hthrough : through≠0 → know.through=through) (hfound : know.found=some (found,etag)) :
    Sure c (fun know' _ r => ∀ index,r.2=some index → know'.found=some (found,etag) ∧
      IndexWrite c know' found index ∧ Settled know' r.1.1 ∧ r.1.1.source=true ∧
      r.1.1.generation=generation) know mem (stampAttempt c through generation b found) := by
  unfold stampAttempt
  cases found with
  | none => exact keeps_pure hmem (by simp)
  | some index =>
    refine keeps_bind (sure_checkForks index b.1 hmem hsees) ?_
    intro know1 mem1 r hmem hsteady hr
    obtain ⟨hchecked,hfound1⟩ := hr
    have hgen1 : know1.generation=some generation := by
      rw [hsteady.generation,hsees.generation hsource,hgen]
    have hpass : r.pass.source=true ∧ r.pass.generation=generation := by
      cases hchecked.pass_eq with
      | inl heq | inr heq =>
        rw [heq]
        exact ⟨hsource,hgen⟩
    split
    · exact keeps_throw hmem
    · simp only
      split
      · exact keeps_pure hmem (by simp)
      · rename_i hdue
        rw [not_or,Bool.not_eq_true] at hdue
        have hset : Settled know1 r.pass := by
          have hnone := hchecked.consumed hdue.1
          refine ⟨⟨fun _ => ?_,by simp [hnone]⟩,hnone⟩
          rw [hgen1,hpass.2]
        refine sure_now hmem ?_
        intro updatedAt _ hmem
        refine keeps_pure hmem ?_
        intro index' hindex
        cases hindex
        refine ⟨hfound1.trans hfound,?_,hset.steady rfl,hpass⟩
        have hthrough1 : through≠0 → know1.through=through := by
          intro hne
          rw [hsteady.through,hthrough hne]
        have hwrite := indexWrite_stamped updatedAt hchecked hgen1 hthrough1
        exact ⟨hwrite.content,hwrite.generation,hwrite.archivedThrough⟩

theorem keeps_checkArchive (hmem : Remembers know mem)
    (hthrough : through≠0 → know.through=through) (hdefer : know.deferred=none) :
    Routine.Keeps (contract c) Learns Remembers (fun _ _ _ => True) know mem
      (checkArchive c through) := by
  unfold checkArchive
  split
  · exact keeps_pure hmem trivial
  · refine keeps_call trivial (fun r => ?_) ?_
    · constructor <;> simp [contract,Know.learn,Know.learnReply]
    intro r
    obtain ⟨generation,ok⟩ := r
    have hlearns : Learns know (know.learnReply .authority (generation, ok)) := by
      constructor <;> simp [Know.learnReply]
    have hmem := hmem.learns hlearns
    cases ok with
    | false => exact keeps_throw hmem
    | true =>
      refine keeps_bind (sure_forkSource hmem).learns ?_
      intro know1 mem1 source hmem _ hsource
      obtain ⟨hsteady1,hjudge,-⟩ := hsource
      refine keeps_ofExcept_bind hmem ?_
      intro judge hsome
      rw [mapError_eq_ok] at hsome
      subst hsome
      split
      · exact keeps_pure hmem trivial
      · have hgeneration : know1.generation=some generation := hsteady1.generation
        refine keeps_bind (sure_updateArchiveIndex
          (J := fun know b => Sees know b.1 ∧ b.1.source=true ∧ b.1.generation=generation)
          (Q := fun _ _ => True) (hsteady1.deferred.trans hdefer) ?_ ?_ indexUpdateAttempts _
          (refl_of Steady know1) hmem ⟨⟨fun _ => hgeneration,?_⟩,rfl,rfl⟩).learns ?_
        · intro know b r hJ
          exact ⟨⟨hJ.1.generation,hJ.1.preloaded⟩,hJ.2⟩
        · intro know2 mem2 b found etag hsteady hmem hJ hfound
          have hthrough2 : through≠0 → know2.through=through := by
            intro hne
            rw [hsteady.through,hsteady1.through]
            exact hthrough hne
          refine (sure_stampAttempt b hmem hJ.1 hJ.2.1 hJ.2.2 hthrough2 hfound).mono ?_
          intro know3 mem3 r _ _ hr
          refine ⟨fun _ => trivial,?_⟩
          intro index hindex
          obtain ⟨hfound3,hwrite,hset,hpass⟩ := hr index hindex
          have hlost : Settled (know3.learn c.serverUUID (.putIndexIf index etag) (.ok false)) r.1.1 :=
            hset.steady rfl
          exact ⟨hfound3,hwrite,trivial,hlost.1,hpass⟩
        · intro j hj
          obtain ⟨authority,hauth,hbuild⟩ := hjudge j (congrArg Except.ok hj)
          exact ⟨rfl,authority,hauth,hbuild⟩
        · intro know2 mem2 r hmem _ _
          exact keeps_pure hmem trivial

section

variable {report : Option ForkReport} (hmem : Remembers know mem) (hthrough : know.through=through)
  (hdefer : know.deferred=none)
include hmem hthrough hdefer

theorem keeps_recheck :
    Routine.Keeps (contract c) Learns Remembers (fun _ _ _ => True) know mem
      (Loop.recheck c report through) := by
  unfold Loop.recheck
  refine keeps_get ?_
  refine keeps_call trivial (fun t => (steady_learn c.serverUUID know rfl t).toLearns) ?_
  intro t
  have hmem := hmem.learns
    (steady_learn c.serverUUID know (show Call.now.steady=true from rfl) t).toLearns
  simp only
  split
  · refine keeps_bind (keeps_checkArchive hmem ?_ hdefer) ?_
    · intro hne
      split
      · exact hthrough
      · rename_i hdue
        rw [if_neg hdue] at hne
        exact absurd rfl hne
    · intro know1 mem1 r hmem _ _
      refine keeps_call trivial (fun t => (steady_learn c.serverUUID know1 rfl t).toLearns) ?_
      intro lastCheck
      have hmem := hmem.learns
        (steady_learn c.serverUUID know1 (show Call.now.steady=true from rfl) lastCheck).toLearns
      exact keeps_modify (keeps_pure { hmem with } trivial)
  · exact keeps_pure hmem trivial

theorem keeps_loopCheckForks :
    Routine.Keeps (contract c) Learns Remembers (fun _ _ _ => True) know mem
      (Loop.checkForks c report through) := by
  unfold Loop.checkForks
  split
  · exact keeps_pure hmem trivial
  · refine keeps_modify ?_
    refine keeps_bind (keeps_recheck ?_ hthrough hdefer) ?_
    · cases report.filter (·.checked) with
      | none => exact hmem
      | some r => exact { hmem with }
    · intro know1 mem1 r hmem _ _
      refine keeps_set ?_ trivial
      split
      · exact { hmem with }
      · exact hmem

end

abbrev Runs {α : Type} (c : Options) (Q : Know → Memory → α → Prop) (know : Know) (mem : Memory)
    (m : Pass α) : Prop :=
  Routine.Keeps (contract c) Whatever Remembers Q know mem m

variable {α : Type} {Q : Know → Memory → α → Prop}

theorem runs_of_learns {m : Pass α}
    (hm : Routine.Keeps (contract c) Learns Remembers Q know mem m) :
    Runs c (fun know' mem' a => Learns know know' ∧ Q know' mem' a) know mem m := by
  refine Routine.Keeps.weaken (R := Learns) ?_ fun _ _ _ => trivial
  refine hm.mono ?_
  intro know' mem' a _ hlearns hQ
  exact ⟨hlearns,hQ⟩

def Listed (know : Know) (_ : Memory) (r : List BinaryLog × Time) : Prop :=
  know.writable=some true ∧ know.deferred=none ∧ know.logs=r.1 ∧ know.listedAt=some r.2

theorem runs_now {g : Time → Pass α}
    (hg : ∀ t, Runs c Q { know with clock := t } mem (g t)) : Runs c Q know mem (now >>= g) :=
  keeps_call trivial (fun _ => trivial) hg

theorem runs_rotate (hwritable : know.writable=some true) (hdefer : know.deferred=none)
    (hmem : Remembers know mem) : Runs c Listed know mem Loop.rotate := by
  unfold Loop.rotate
  refine runs_now ?_
  intro flushedAt
  refine keeps_call trivial (fun _ => trivial) ?_
  intro flush
  cases flush with
  | error e => exact keeps_throw { hmem with }
  | ok _ =>
    refine runs_now ?_
    intro lastFlush
    refine keeps_modify ?_
    refine runs_now ?_
    intro listedAt
    refine keeps_call trivial (fun _ => trivial) ?_
    intro listing
    cases listing with
    | error e => exact keeps_throw { hmem with }
    | ok logs =>
      refine keeps_modify (keeps_pure ?_ ⟨hwritable,hdefer,rfl,rfl⟩)
      exact { hmem with flushed := fun _ => rfl }

theorem runs_rotateIfDue {logs : List BinaryLog} {listedAt : Time}
    (hlisted : Listed know mem (logs,listedAt)) (hmem : Remembers know mem) :
    Runs c Listed know mem (Loop.rotateIfDue c logs listedAt) := by
  unfold Loop.rotateIfDue
  refine keeps_get ?_
  split
  · refine runs_now ?_
    intro lastFlush
    refine keeps_modify (keeps_pure ?_ hlisted)
    exact { hmem with }
  · refine runs_now ?_
    intro t
    have hmem' : Remembers { know with clock := t } mem :=
      { hmem with }
    split
    · exact runs_rotate hlisted.1 hlisted.2.1 hmem'
    · exact keeps_pure hmem' hlisted

theorem sure_hasSegment (hmem : Remembers know mem) :
    Sure c (fun _ _ _ => True) know mem (hasSegment c) := by
  unfold hasSegment
  refine keeps_bind (sure_loadStatus hmem) ?_
  intro know1 mem1 status hmem _ _
  exact keeps_pure hmem trivial

theorem runs_drain (hdefer : know.deferred=none) (hflushing : know.flushing=none)
    (hmem : Remembers know mem) : Runs c (fun _ _ _ => True) know mem (Loop.drain c) := by
  unfold Loop.drain
  split
  · exact keeps_pure hmem trivial
  · refine keeps_bind (runs_of_learns (sure_hasSegment hmem).learns) ?_
    intro know1 mem1 mine hmem _ hlearns
    obtain ⟨-,hsteady1,-⟩ := hlearns
    have hdefer1 := hsteady1.deferred.trans hdefer
    have hflushing1 := hsteady1.flushing.trans hflushing
    cases mine with
    | false => exact keeps_pure hmem trivial
    | true =>
      refine keeps_call trivial (fun _ => trivial) ?_
      intro streaming
      refine keeps_ofExcept_bind hmem ?_
      intro streaming _
      cases streaming with
      | false => exact keeps_pure hmem trivial
      | true =>
        refine keeps_call trivial (fun _ => trivial) ?_
        intro diverged
        cases diverged with
        | true => exact keeps_pure hmem trivial
        | false =>
          refine keeps_call trivial (fun _ => trivial) ?_
          intro listing
          cases listing with
          | error e => exact keeps_throw hmem
          | ok logs =>
            refine keeps_bind (runs_of_learns (keeps_drainPending
              (hmem.list hflushing1 logs) rfl hdefer1)) ?_
            intro know2 mem2 res hmem _ _
            exact keeps_pure hmem trivial

theorem runs_purgeLogsTo {name : String} (hmem : Remembers know mem)
    (hname : name∈know.logs.map (·.name)) (hall : AllIndexed know) :
    Runs c (fun _ _ _ => True) know mem (Loop.purgeLogsTo name) := by
  unfold Loop.purgeLogsTo
  split
  · exact keeps_throw hmem
  · split
    · exact keeps_throw hmem
    · refine keeps_call ⟨hname,hall⟩ (fun _ => trivial) ?_
      intro r
      refine keeps_ofExcept ?_ fun _ _ => trivial
      cases r with
      | error e => exact hmem
      | ok _ => exact hmem

end

section

open Loop

variable {c : Options}

theorem purgeLoop_upTo {applied : List (String × c.ops.Carrier)} {limit : String}
    {files : List ArchivedFile} {first : Bool} {plan : PurgePlan}
    (h : purgeLoop c applied limit files first = .ok plan) :
    plan.upTo = "" ∨ plan.upTo=limit ∨ plan.upTo∈files.map (·.name) := by
  induction files generalizing first with
  | nil =>
    cases h
    exact .inr (.inl rfl)
  | cons f rest ih =>
    rw [purgeLoop,bind_eq_ok] at h
    obtain ⟨fileSet,-,h⟩ := h
    simp only at h
    split at h
    · cases ih h with
      | inl hempty => exact .inl hempty
      | inr hrest =>
        cases hrest with
        | inl hlimit => exact .inr (.inl hlimit)
        | inr hmem => exact .inr (.inr (List.mem_cons_of_mem _ hmem))
    · cases h
      cases first with
      | true => exact .inl rfl
      | false => exact .inr (.inr List.mem_cons_self)

theorem planPurge_upTo_mem {logs : List BinaryLog} {res : ArchiveResult} {floor : Option Floor}
    {plan : PurgePlan} (hfiles : res.files.map (·.name)=(archivable logs).map (·.name))
    (h : planPurge c logs res floor = .ok plan) (hne : plan.upTo ≠ "") :
    plan.upTo∈logs.map (·.name) := by
  have hsub : ∀ n∈res.files.map (·.name), n∈logs.map (·.name) := by
    intro n hn
    rw [hfiles] at hn
    obtain ⟨l,hl,rfl⟩ := List.mem_map.mp hn
    exact List.mem_map.mpr ⟨l,(List.mem_filter.mp hl).1,rfl⟩
  unfold planPurge at h
  simp only at h
  split at h
  · cases h
    exact absurd rfl hne
  · rename_i hlimit
    split at h
    · cases h
      exact absurd rfl hne
    · cases h
      exact absurd rfl hne
    · rename_i oldest rest floor hcand
      split at h
      · cases h
        exact absurd rfl hne
      · rw [bind_eq_ok] at h
        obtain ⟨applied,-,h⟩ := h
        rw [← hcand] at h
        cases purgeLoop_upTo h with
        | inl hempty => exact absurd hempty hne
        | inr hrest =>
          cases hrest with
          | inl hl =>
            rw [hl]
            exact fileBefore_mem hlimit
          | inr hmem =>
            obtain ⟨f,hf,hfn⟩ := List.mem_map.mp hmem
            rw [← hfn]
            exact hsub f.name (List.mem_map.mpr ⟨f,List.takeWhile_subset _ hf,rfl⟩)

end

variable [CaseMapping] {c : Options} {know : Know} {mem : Memory}

theorem runs_finish {logs : List BinaryLog} {res : ArchiveResult} {through : Time}
    (hmem : Remembers know mem) (hlogs : know.logs=logs) (hdefer : know.deferred=none)
    (hall : AllIndexed know) (hfiles : res.files.map (·.name)=(archivable logs).map (·.name))
    (hthrough : know.through=through) :
    Runs c (fun _ _ _ => True) know mem (Loop.finish c logs res through) := by
  unfold Loop.finish
  refine keeps_bind (runs_of_learns
    (Routine.Keeps.attempt (keeps_loopCheckForks hmem hthrough hdefer))) ?_
  intro know1 mem1 _ hmem _ hlearns
  obtain ⟨hlearns,-⟩ := hlearns
  split
  · refine keeps_call trivial (fun _ => trivial) ?_
    intro floor
    refine keeps_ofExcept_bind hmem ?_
    intro plan hplan
    split
    · rename_i hne
      apply runs_purgeLogsTo hmem
      · change plan.upTo∈know1.logs.map (·.name)
        rw [hlearns.logs,hlogs]
        exact planPurge_upTo_mem hfiles hplan hne
      · exact hall.learns hlearns
    · exact keeps_pure hmem trivial
  · exact keeps_pure hmem trivial

theorem through_allowed {res : ArchiveResult} {listedAt : Time} (hmem : Remembers know mem)
    (hall : AllIndexed know) (hat : know.listedAt=some listedAt) :
    (contract c).allowed know
      (.note (.through (Loop.archivedThrough mem.flushed know.logs res listedAt))) := by
  unfold Loop.archivedThrough
  split
  · exact .inl rfl
  · rename_i hnot
    rw [not_or] at hnot
    have hflushed := hmem.flushed hnot.1
    rw [hflushed] at hnot ⊢
    have hlisted : know.listedAt.isSome := by
      rw [hat]
      rfl
    split
    · rename_i hsame
      exact .inr ⟨hall,hnot.1,hlisted,.inr ⟨hat,hsame⟩⟩
    · exact .inr ⟨hall,hnot.1,hlisted,.inl rfl⟩

theorem runs_tick (hmem : Remembers know mem) (hdefer : know.deferred=none)
    (hflushing : know.flushing=none) :
    Runs c (fun _ _ _ => True) know mem (Loop.tick c) := by
  unfold Loop.tick
  refine keeps_call trivial (fun _ => trivial) ?_
  intro writable
  cases writable with
  | error e => exact keeps_throw hmem
  | ok writable =>
    cases writable with
    | false =>
      change Runs c _ { know with writable := some false } mem (modify Loop.demoted >>= fun _ => Loop.drain c)
      refine keeps_modify ?_
      refine runs_drain hdefer hflushing { hmem with flushed := ?_ }
      intro hne
      exact absurd rfl hne
    | true =>
      refine runs_now ?_
      intro listedAt
      refine keeps_call trivial (fun _ => trivial) ?_
      intro listing
      cases listing with
      | error e => exact keeps_throw { hmem with }
      | ok logs =>
        have hread : Remembers { know with writable := some true, clock := listedAt } mem :=
          { hmem with }
        refine keeps_bind (runs_rotateIfDue ⟨rfl,hdefer,rfl,rfl⟩ (hread.list hflushing logs)) ?_
        intro know1 mem1 r hmem _ hr
        obtain ⟨logs,listedAt⟩ := r
        obtain ⟨hwritable,hdefer,hlogs,hat⟩ := hr
        simp only at hlogs hat
        refine keeps_bind (runs_of_learns (keeps_archivePending hwritable hmem hlogs hdefer)) ?_
        intro know2 mem2 res hmem _ hr
        obtain ⟨hlearns,hall,hdefer,hfiles,-⟩ := hr
        rw [← hlearns.logs] at hlogs
        rw [← hlearns.listedAt] at hat
        subst hlogs
        refine keeps_get ?_
        refine keeps_call (through_allowed hmem hall hat) (fun _ => trivial) ?_
        intro _
        exact runs_finish { hmem with } rfl hdefer hall hfiles rfl

end Cnmsql.Binlog
