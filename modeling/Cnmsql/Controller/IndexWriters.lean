import Cnmsql.Binlog.IndexUpdates

namespace Cnmsql.Controller

open Framework Replication ObjectStore Binlog Archiver

section

variable (deleted : Deleted)

/-- What retention makes of the index: without one it has nothing to do. -/
def rewriteAttempt (_ : Unit) : Option ArchiveIndex → Pass (Unit × Option ArchiveIndex)
  | none => return ((),none)
  | some index => do
    let updatedAt ← now
    return ((),some (rewriteIndex index deleted updatedAt))

def rewriteArchiveIndex : Pass Unit :=
  if deleted.keys=[] then return
  else updateArchiveIndex (rewriteAttempt deleted) indexUpdateAttempts ()

theorem quiet_rewriteAttempt (b : Unit) (found : Option ArchiveIndex) :
    Quiet (rewriteAttempt deleted b found) := by
  cases found with
  | none => exact quiet_pure _
  | some index => exact quiet_bind quiet_now fun _ => quiet_pure _

variable [CaseMapping]

/-- Transactions that only backups of a dead branch hold. -/
structure DeadBranch where
  gtidSet : String := ""
  ranges : List ArchiveDisownedRange := []
  deriving DecidableEq

variable (dead : DeadBranch)

def foldDeadSet (disowned : ArchiveDisowned) : Except GTIDError (ArchiveDisowned × Bool) :=
  if dead.gtidSet = "" then .ok (disowned,false)
  else do
    let union ← unionGTIDStrings [disowned.gtidSet,dead.gtidSet]
    let known := match gtidContains disowned.gtidSet dead.gtidSet with
      | .ok contains => contains
      | .error _ => false
    return ({ disowned with gtidSet := union }, !known)

def foldDeadRanges (ranges : List ArchiveDisownedRange) (disowned : ArchiveDisowned × Bool) :
    ArchiveDisowned × Bool :=
  ranges.foldl (fun acc r =>
    let added := ArchiveDisowned.addRange acc.1 r
    (added.1,acc.2 || added.2)) disowned

/-- Adds a dead branch to an index's disowned record. -/
def foldDeadBranch (_ : Unit) : Option ArchiveIndex → Pass (Unit × Option ArchiveIndex)
  | none => return ((),none)
  | some index => do
    let folded ← Routine.ofExcept
      ((foldDeadSet dead (index.disowned.getD {})).mapError fun e => .failed "" e.message)
    let (disowned, changed) := foldDeadRanges dead.ranges folded
    if changed then
      let updatedAt ← now
      return ((), some { index with disowned := some disowned, updatedAt })
    else return ((),none)

def recordDisowned : Pass Unit :=
  updateArchiveIndex (foldDeadBranch dead) indexUpdateAttempts ()

theorem quiet_foldDeadBranch (b : Unit) (found : Option ArchiveIndex) :
    Quiet (foldDeadBranch dead b found) := by
  cases found with
  | none => exact quiet_pure _
  | some index =>
    refine quiet_bind (quiet_ofExcept _) fun folded => ?_
    dsimp only
    split
    · exact quiet_bind quiet_now fun _ => quiet_pure _
    · exact quiet_pure _

/-- Who updates the index: archivers, retention, and the operator that marks dead backups. -/
inductive IndexWriter where
  | fold (c : Options) (status : ArchiveStatus) (fileName fileGTIDSet : String) (pass : ForkPass)
      (memory : Memory)
  | check (c : Options) (through : Time) (generation : Int) (pass : ForkPass) (memory : Memory)
  | rewrite (deleted : Deleted)
  | deadBranch (dead : DeadBranch)

def IndexWriter.updater : IndexWriter → Updater
  | .fold c status fileName fileGTIDSet pass memory =>
    { State := ForkPass
      init := pass
      memory := memory
      mutate := foldAttempt c status fileName fileGTIDSet
      quiet := quiet_foldAttempt c status fileName fileGTIDSet }
  | .check c through generation pass memory =>
    { State := ForkPass × ForkReport
      init := (pass, {})
      memory := memory
      mutate := stampAttempt c through generation
      quiet := quiet_stampAttempt c through generation }
  | .rewrite deleted =>
    { State := Unit
      init := ()
      memory := {}
      mutate := rewriteAttempt deleted
      quiet := quiet_rewriteAttempt deleted }
  | .deadBranch dead =>
    { State := Unit
      init := ()
      memory := {}
      mutate := foldDeadBranch dead
      quiet := quiet_foldDeadBranch dead }

theorem program_fold (c : Options) (status : ArchiveStatus) (fileName fileGTIDSet : String)
    (pass : ForkPass) (memory : Memory) :
    (IndexWriter.fold c status fileName fileGTIDSet pass memory).updater.program =
      (updateIndex c status fileName fileGTIDSet pass).run.run memory := rfl

theorem program_rewrite {deleted : Deleted} (h : deleted.keys≠[]) :
    (IndexWriter.rewrite deleted).updater.program=(rewriteArchiveIndex deleted).run.run {} := by
  rw [rewriteArchiveIndex,if_neg h]
  rfl

theorem program_deadBranch (dead : DeadBranch) :
    (IndexWriter.deadBranch dead).updater.program=(recordDisowned dead).run.run {} := rfl

/-- However the calls interleave, the index is what the effective writers made of it in turn. -/
theorem index_updates_sequential {κ : Type} [DecidableEq κ] (writers : κ → IndexWriter)
    (contents : Option Nat → Option ArchiveIndex) (version : Option Nat)
    (s : Shared fun i => (writers i).updater)
    (hrun : Relation.ReflTransGen (Shared.Step contents)
      (Shared.start (fun i => (writers i).updater) version) s) :
    Sequential contents (contents version) s :=
  (consistent_of_run hrun).sequential

end

def racingWriters : Bool → IndexWriter
  | false => .rewrite (AList.insert "u" ["binlog.000001"] ∅)
  | true => .deadBranch { gtidSet := "v:1-3" }

/-- The index both read, then what retention leaves, then what the operator adds. -/
def racingContents : Option Nat → Option ArchiveIndex
  | some 0 => some {
      segments := [{ serverUUID := "u", binlogs := ["binlog.000001","binlog.000002"] }] }
  | some 1 => some {
      segments := [{ serverUUID := "u", binlogs := ["binlog.000002"] }]
      updatedAt := 5 }
  | some 2 => some {
      segments := [{ serverUUID := "u", binlogs := ["binlog.000002"] }]
      disowned := some { gtidSet := "v:1-3" }
      updatedAt := 7 }
  | _ => none

/-- Both read the first version; retention writes, and the operator starts over. -/
theorem index_updates_sequential_race :
    ∃ s : Shared fun i => (racingWriters i).updater,
      s.version=some 2 ∧ s.writers=[false,true] ∧
        Sequential racingContents (racingContents (some 0)) s := by
  have hrun : ∃ s : Shared fun i => (racingWriters i).updater,
      (s.version=some 2 ∧ s.writers=[false,true]) ∧
        Relation.ReflTransGen (Shared.Step racingContents)
          (Shared.start (fun i => (racingWriters i).updater) (some 0)) s := by
    refine ⟨_,?_,.head (.read (i := true) rfl) <| .head (.read (i := false) rfl) <|
      .head (.other (i := false) (5 : Time) rfl trivial) <|
      .head (.other (i := true) (6 : Time) rfl trivial) <|
      .head (.write (i := false) (some 1) rfl rfl) <|
      .head (.lose (i := true) rfl (by decide)) <| .head (.read (i := true) rfl) <|
      .head (.other (i := true) (7 : Time) rfl trivial) <|
      .head (.write (i := true) (some 2) rfl rfl) .refl⟩
    exact ⟨rfl,rfl⟩
  obtain ⟨s,⟨hversion,hwriters⟩,hrun⟩ := hrun
  exact ⟨s,hversion,hwriters,index_updates_sequential racingWriters racingContents (some 0) s hrun⟩

end Cnmsql.Controller
