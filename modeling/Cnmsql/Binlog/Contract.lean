import Cnmsql.Binlog.Lessons

namespace Cnmsql.Binlog

open Framework Replication ObjectStore Engine Archiver

structure Folded (c : Options) (index : ArchiveIndex) (name gtidSet : String)
    (base : ArchiveIndex) : Prop where
  segments : ∃ seg seg' : ArchiveSegment,∃ segSet fileSet,
    (Archiver.segment c.serverUUID index=some seg ∨ Archiver.segment c.serverUUID index=none ∧
      ∃ startedAt, seg={ serverUUID := c.serverUUID, instanceName := c.instanceName, startedAt }) ∧
    c.ops.parse seg.gtidSet = .ok segSet ∧ c.ops.parse gtidSet = .ok fileSet ∧
    seg'.serverUUID=seg.serverUUID ∧ seg'.binlogs=(addFile name seg).binlogs ∧
    seg'.gtidSet=c.ops.string (c.ops.union segSet fileSet) ∧ seg'.fork=seg.fork ∧
    base.segments=putSegment seg' index.segments
  covered : ∃ empty covered,c.ops.parse "" = .ok empty ∧
    cumulative c base.segments empty = .ok covered ∧ base.coveredGTIDSet=c.ops.string covered
  disowned : base.disowned=index.disowned
  generation : index.generation≤base.generation
  archivedThrough : base.archivedThrough=index.archivedThrough

section

variable [CaseMapping] (c : Options) (know : Know)

/-- The index after a fork check by the authority read, for a generation not behind it. -/
def Judged (base judged : ArchiveIndex) : Prop :=
  ∃ authority judge now changed generation,
    know.authority=some authority ∧ buildJudge authority = .ok judge ∧
    know.generation=some generation ∧ base.generation≤generation ∧
    judgeIndex judge c.serverUUID now (forkIdentity c) base = .ok (judged,changed)

def Due (name : String) : Prop :=
  ∃ before l after,archivable know.logs=before++l::after ∧ l.name=name ∧
    ∀ b∈before,b.name∈know.indexed

def AllIndexed : Prop := ∀ l∈archivable know.logs,l.name∈know.indexed

/-- What may be written over the index that was found. -/
structure IndexWrite (found : Option ArchiveIndex) (index : ArchiveIndex) : Prop where
  content : ∃ base judged,
    (found=some base ∨ ∃ name metadata,(name,metadata)∈know.archived ∧ Due know name ∧
      Folded c (found.getD {}) name metadata.gtidSet base) ∧
    (judged=base ∨ Judged c know base judged) ∧
    index.segments=judged.segments ∧ index.coveredGTIDSet=judged.coveredGTIDSet ∧
    index.disowned=judged.disowned
  generation : (found.getD {}).generation ≤ index.generation
  archivedThrough : index.archivedThrough=(found.getD {}).archivedThrough ∨
    index.archivedThrough=know.through

/-- The primary ships what it has, a draining instance what the surviving timeline holds. -/
def Admitted (name : String) : Prop :=
  know.writable=some true ∨ ∃ scan view timeline,(name,scan)∈know.scanned ∧ view∈know.views ∧
    Loop.onSurvivingTimeline c name scan view timeline = .ok true

/-- The manifest of a file that was hashed, scanned and uploaded. -/
structure Describes (name : String) (metadata : BinlogMetadata) : Prop where
  serverUUID : metadata.serverUUID=c.serverUUID
  binlogName : metadata.binlogName=name
  hashed : (name,metadata.sha256,metadata.sizeBytes)∈know.hashed
  scanned : ∃ scan,(name,scan)∈know.scanned ∧ metadata.gtidSet=scan.gtidSet
  uploaded : name∈know.uploaded

def contract : Discipline Call Answer Know where
  allowed know
    | .ask (.hashFile name) | .ask (.scan name) => name∈(archivable know.logs).map (·.name)
    | .upload name _ => know.deferred=none ∧ know.absent=some name ∧ Due know name ∧
        Admitted c know name
    | .putManifest name metadata => know.deferred=none ∧ know.absent=some name ∧ Due know name ∧
        Admitted c know name ∧ Describes c know name metadata
    | .putStatus _ => know.deferred=none
    | .purgeLogsTo name => name∈know.logs.map (·.name) ∧ AllIndexed know
    | .putIndexIf index etag => know.deferred=none ∧
        ∃ found,know.found=some (found,etag) ∧ IndexWrite c know found index
    | .note (.archived logs res) => logs=know.logs ∧ (res.deferred = "" → AllIndexed know)
    | .note (.through t) => t=0 ∨ AllIndexed know ∧ know.flushed.flushedActive ≠ "" ∧
        know.listedAt.isSome ∧ (t=know.flushed.flushedAt ∨ know.listedAt=some t ∧
          (activeLog know.logs).name=know.flushed.flushedActive ∧
          (activeLog know.logs).sizeBytes=know.flushed.flushedSize)
    | _ => True
  next := Know.learn c.serverUUID

end

/-- What the loop remembers is something it has learnt. -/
structure Remembers (know : Know) (mem : Memory) : Prop where
  flushed : mem.flushed.flushedActive ≠ "" → mem.flushed=know.flushed
  verified : ∀ name stamp,mem.verified.lookup name=some stamp →
    (name,stamp.metadata)∈know.archived
  scans : ∀ name stamp,mem.deferredScans.lookup name=some stamp →
    (name,stamp.scan)∈know.scanned
  indexed : ∀ name∈mem.indexed,name∈know.indexed

/-- What learning more about the archive leaves alone, and what it adds to. -/
structure Learns (know know' : Know) : Prop where
  flushing : know'.flushing=know.flushing
  logs : know'.logs=know.logs
  listedAt : know'.listedAt=know.listedAt
  flushed : know'.flushed=know.flushed
  writable : know'.writable=know.writable
  hashed : know.hashed ⊆ know'.hashed
  scanned : know.scanned ⊆ know'.scanned
  uploaded : know.uploaded ⊆ know'.uploaded
  views : know.views ⊆ know'.views
  archived : know.archived ⊆ know'.archived
  indexed : know.indexed ⊆ know'.indexed

/-- Learning within one archive pass. -/
structure Steady (know know' : Know) : Prop extends Learns know know' where
  generation : know'.generation=know.generation
  through : know'.through=know.through
  deferred : know'.deferred=know.deferred

instance : IsPreorder Know Learns where
  refl _ := by constructor <;> first | rfl | exact List.Subset.refl _
  trans _ _ _ h h' :=
    { flushing := h'.flushing.trans h.flushing
      logs := h'.logs.trans h.logs
      listedAt := h'.listedAt.trans h.listedAt
      flushed := h'.flushed.trans h.flushed
      writable := h'.writable.trans h.writable
      hashed := List.Subset.trans h.hashed h'.hashed
      scanned := List.Subset.trans h.scanned h'.scanned
      uploaded := List.Subset.trans h.uploaded h'.uploaded
      views := List.Subset.trans h.views h'.views
      archived := List.Subset.trans h.archived h'.archived
      indexed := List.Subset.trans h.indexed h'.indexed }

instance : IsPreorder Know Steady where
  refl know := ⟨refl_of Learns know,rfl,rfl,rfl⟩
  trans _ _ _ h h' :=
    ⟨trans_of Learns h.toLearns h'.toLearns,h'.generation.trans h.generation,
      h'.through.trans h.through,h'.deferred.trans h.deferred⟩

variable {know' : Know}

theorem Remembers.learns {know : Know} {mem : Memory} (hr : Remembers know mem)
    (h : Learns know know') : Remembers know' mem where
  flushed hne := (hr.flushed hne).trans h.flushed.symm
  verified name stamp hl := h.archived (hr.verified name stamp hl)
  scans name stamp hl := h.scanned (hr.scans name stamp hl)
  indexed name hn := h.indexed (hr.indexed name hn)

theorem Due.learns {know : Know} {name : String} (hd : Due know name) (h : Learns know know') :
    Due know' name := by
  obtain ⟨before,l,after,heq,hname,hbefore⟩ := hd
  exact ⟨before,l,after,h.logs ▸ heq,hname,fun b hb => h.indexed (hbefore b hb)⟩

theorem AllIndexed.learns {know : Know} (ha : AllIndexed know) (h : Learns know know') :
    AllIndexed know' := by
  intro l hl
  rw [h.logs] at hl
  exact h.indexed (ha l hl)

/-- The calls of one archive pass: no listing, rotation or role. -/
def Call.steady : Call → Bool
  | .ask .authority | .ask .writable | .listBinaryLogs | .flushLogs | .note (.deferred _)
  | .note (.through _) => false
  | _ => true

theorem steady_learn (u : String) (know : Know) {op : Call} (h : op.steady=true)
    (r : Answer op) : Steady know (know.learn u op r) := by
  have hlesson := lesson_learn u know r
  generalize know.learn u op r=know' at hlesson ⊢
  cases hlesson with
  | writable => cases h
  | generation => cases h
  | listed => cases h
  | flushed => cases h
  | deferred => cases h
  | through => cases h
  | nothing => exact refl_of Steady know
  | _ => exact ⟨by constructor <;> simp [Know.seeIndex],rfl,rfl,rfl⟩

variable [CaseMapping] {c : Options} {know : Know} {mem : Memory} {α β : Type}

abbrev Sure (c : Options) (Q : Know → Memory → α → Prop) (know : Know) (mem : Memory)
    (m : Pass α) : Prop :=
  Routine.Keeps (contract c) Steady Remembers Q know mem m

theorem Sure.learns {Q : Know → Memory → α → Prop} {m : Pass α} (hm : Sure c Q know mem m) :
    Routine.Keeps (contract c) Learns Remembers
      (fun know' mem' a => Steady know know' ∧ Q know' mem' a) know mem m := by
  refine Routine.Keeps.weaken (R := Steady) ?_ fun _ _ h => h.toLearns
  refine hm.mono ?_
  intro know' mem' a _ hsteady hQ
  exact ⟨hsteady,hQ⟩

variable {Q : Know → Memory → β → Prop}

theorem sure_perform {op : Call} {g : Answer op → Pass β} (h : op.steady=true)
    (hmem : Remembers know mem) (hallowed : (contract c).allowed know op)
    (hg : ∀ r,Steady know (know.learn c.serverUUID op r) →
      Remembers (know.learn c.serverUUID op r) mem →
      Sure c Q (know.learn c.serverUUID op r) mem (g r)) :
    Sure c Q know mem (perform op >>= g) := by
  apply Routine.keeps_call hallowed (fun r => steady_learn c.serverUUID know h r)
  intro r
  have hsteady := steady_learn c.serverUUID know h r
  exact hg r hsteady (hmem.learns hsteady.toLearns)

theorem sure_ask {q : Query} {g : Reply q → Pass β} (h : (Call.ask q).steady=true)
    (hmem : Remembers know mem) (hallowed : (contract c).allowed know (.ask q))
    (hg : ∀ r,Steady know (know.learnReply q r) → Remembers (know.learnReply q r) mem →
      Sure c Q (know.learnReply q r) mem (g r)) :
    Sure c Q know mem (ask q >>= g) :=
  sure_perform h hmem hallowed hg

theorem sure_now {g : Time → Pass β} (hmem : Remembers know mem)
    (hg : ∀ t,Steady know { know with clock := t } → Remembers { know with clock := t } mem →
      Sure c Q { know with clock := t } mem (g t)) :
    Sure c Q know mem (now >>= g) :=
  sure_perform rfl hmem trivial hg

variable {g : α → Pass β} {context : String}

theorem sure_orFail {x : Except String α} (hmem : Remembers know mem)
    (hg : ∀ a,x = .ok a → Sure c Q know mem (g a)) :
    Sure c Q know mem (orFail context x >>= g) := by
  apply Routine.keeps_ofExcept_bind hmem
  intro a ha
  exact hg a (mapError_eq_ok.mp ha)

theorem sure_try {op : Call} {r : Answer op → Except String α} (h : op.steady=true)
    (hmem : Remembers know mem) (hallowed : (contract c).allowed know op)
    (hg : ∀ x a,r x = .ok a → Steady know (know.learn c.serverUUID op x) → Remembers (know.learn c.serverUUID op x) mem → Sure c Q (know.learn c.serverUUID op x) mem (g a)) :
    Sure c Q know mem (perform op >>= fun x => orFail context (r x) >>= g) := by
  apply sure_perform h hmem hallowed
  intro x hsteady hmem
  apply sure_orFail hmem
  intro a ha
  exact hg x a ha hsteady hmem

theorem sure_query {q : Query} {r : Reply q → Except String α} (h : (Call.ask q).steady=true)
    (hmem : Remembers know mem) (hallowed : (contract c).allowed know (.ask q))
    (hg : ∀ x a,r x = .ok a → Steady know (know.learnReply q x) → Remembers (know.learnReply q x) mem → Sure c Q (know.learnReply q x) mem (g a)) :
    Sure c Q know mem (ask q >>= fun x => orFail context (r x) >>= g) :=
  sure_try h hmem hallowed hg

end Cnmsql.Binlog
