import Cnmsql.Engine.GTIDModel

namespace Cnmsql.Controller

open Framework Replication Engine

/-- What the election reads of an instance's last status. -/
structure FailoverInstance where
  replica : Bool := false
  sqlRunning : Bool := false
  gtid : String := ""
  retrievedGTID : String := ""
  gtidPurged : String := ""
  heartbeatAge : Option Int64 := none
  deriving DecidableEq

structure FailoverState where
  primaryName : String
  instanceNames : List String
  instances : Map String FailoverInstance
  fenced : List String := []

def FailoverState.status (s : FailoverState) (name : String) : FailoverInstance :=
  (s.instances.lookup name).getD {}

/-- The input of `SelectFailoverCandidate`; `flavor` selects the GTID model. -/
structure Election where
  observed : FailoverState
  knownDiverged : List String := []
  flavor : Flavor := .mysql
  maxTransactionsBehind : Option Int := none
  archiveCovered : String := ""
  preferred : List String := []
  referenceGTID : String := ""
  maxReplicationLag : Option Int64 := none
  primaryDownFor : Int64 := 0
  disowned : Option GTIDSet := none

structure FailoverCandidate where
  name : String := ""
  transactionsBehind : Int := 0
  timeBehind : Option Int64 := none
  reason : String := ""
  deriving DecidableEq

/-- What the first loop makes of an instance. -/
inductive Screening where
  | skipped
  | diverged
  | candidate
  deriving DecidableEq

variable [CaseMapping]

/-- Whether a text holds a disowned transaction; an unreadable one holds none. -/
def holdsDisowned (disowned : GTIDSet) (sets : List String) : Bool :=
  sets.any fun raw =>
    match parseGTIDSet raw with
    | .ok set => !(set.intersect disowned).isEmpty
    | .error _ => false

variable (e : Election) (names : List String) (behind : List (String × Int))
  (timeBehind : String → Option Int64) (name : String)

/-- One round of the first loop of `SelectFailoverCandidate`. -/
def screen : Screening :=
  if name=e.observed.primaryName ∨ name∈e.observed.fenced then .skipped
  else if name∈e.knownDiverged then .diverged
  else
    match e.observed.instances.lookup name with
    | none => .skipped
    | some status =>
      if ¬status.replica ∨ ¬status.sqlRunning ∨ status.gtid = "" then .skipped
      else if e.disowned.any (holdsDisowned · [status.gtid,status.retrievedGTID]) then .diverged
      else .candidate

def candidates : List String :=
  e.observed.instanceNames.filter fun name => screen e name = .candidate

def heldBy : Except String String :=
  (e.flavor.gtid.union [(e.observed.status name).gtid,(e.observed.status name).retrievedGTID]).mapError
    fun err => "merging gtid sets of " ++ name ++ ": " ++ err

/-- How many transactions each candidate misses of what anyone held. -/
def transactionsBehind :
    Except String (List (String × Int)) := do
  let held ← names.mapM (heldBy e)
  let reference ← (e.flavor.gtid.union (e.referenceGTID::held)).mapError
    fun err => "merging candidate gtid sets: " ++ err
  (names.zip held).mapM fun (name,set) => do
    let missing ← (e.flavor.gtid.missingCount set reference).mapError
      fun err => "measuring lag of " ++ name ++ ": " ++ err
    .ok (name,missing)

def behindOf : Int := (behind.lookup name).getD 0

def withinBound (maxBehind : Option Int) : List String :=
  match maxBehind with
  | none => names
  | some bound => names.filter fun name => behindOf behind name≤bound

/-- The seconds of writes a candidate would lose: its heartbeat's age less the primary's downtime.
-/
def writesBehind : Option Int64 :=
  if behindOf behind name=0 then some 0
  else (e.observed.status name).heartbeatAge.map fun age => max (age-e.primaryDownFor) 0

/-- A candidate without a reading is dropped. -/
def withinLagBound (maxLag : Option Int64) : List String :=
  match maxLag with
  | none => names
  | some bound => names.filter fun name => (timeBehind name).any (·≤bound)

def rank (preferred : List String) (name : String) : Nat := preferred.idxOf name

def orderByPreference (preferred : List String) : List String :=
  if preferred=[] then names
  else names.insertionSort fun a b => rank preferred a≤rank preferred b

/-- Whether the archive holds all of `purged` from its own first transactions on. -/
def archiveCoversHistory (covered purged : String) : Bool :=
  match parseGTIDSet covered,parseGTIDSet purged with
  | .ok archive, .ok held =>
    (held.difference archive).entries.all fun e =>
      match archive.get e.1 with
      | [] => true
      | first::_ => e.2.all fun iv => iv.stop<first.start
  | _,_ => true

def continuous : Nat :=
  if archiveCoversHistory e.archiveCovered (e.observed.status name).gtidPurged then 0 else 1

def orderByArchiveContinuity : List String :=
  if e.archiveCovered = "" then names
  else names.insertionSort fun a b =>
    rank e.preferred a<rank e.preferred b ∨
      (rank e.preferred a=rank e.preferred b ∧ continuous e a≤continuous e b)

/-- `slices.MinFunc` by how far behind a candidate is; the first of the closest. -/
def closestBehind : List String → String
  | [] => ""
  | first::rest =>
    rest.foldl (fun m x => if behindOf behind x<behindOf behind m then x else m) first

def boundReason (closest : String) (behind bound : Int) : String :=
  "the closest replica (" ++ closest ++ ") is " ++ toString behind ++
    " transactions behind the failed primary, more than maxTransactionsBehind (" ++
    toString bound ++ "); promoting it would lose those transactions"

/-- The replica closest to the time bound, or that none could be measured. -/
def lagBlockReason (maxLag : Int64) : String :=
  let closest := names.foldl (fun closest name =>
    match timeBehind name with
    | none => closest
    | some lost =>
      if closest = "" ∨ lost<(timeBehind closest).getD 0 then name else closest) ""
  if closest = "" then
    "maxReplicationLag (" ++ durationString maxLag ++ ") is set but no replica reported a " ++
      "replication-lag heartbeat, so none can be shown to be within it; check that " ++
      "spec.replication.heartbeat is enabled"
  else
    "the closest replica (" ++ closest ++ ") is " ++
      durationString (roundSecond ((timeBehind closest).getD 0)) ++
      " of writes behind the failed primary, more than maxReplicationLag (" ++
      durationString maxLag ++ "); promoting it would lose those writes"

/-- Why no replica is eligible. -/
structure Refusal where
  transactionsBehind : Int := 0
  reason : String
  deriving DecidableEq

/-- The replicas that passed every filter, in order, with what each misses. -/
structure Eligible where
  names : List String
  behind : List (String × Int)
  deriving DecidableEq

/-- `SelectFailoverCandidate` up to the dominance check. -/
def eligible : Except Refusal Eligible :=
  let names := candidates e
  if names=[] then
    if e.observed.instanceNames.any fun name => screen e name = .diverged then
      .error { reason := "every replica candidate has diverged from the failed primary (errant " ++
        "transactions); manual recovery required" }
    else .error { reason := "no healthy replica candidate available" }
  else do
    let behind ← (transactionsBehind e names).mapError fun err => { reason := err }
    let inBound := withinBound names behind e.maxTransactionsBehind
    require (inBound≠[]) {
      transactionsBehind := behindOf behind (closestBehind behind names)
      reason := boundReason (closestBehind behind names)
        (behindOf behind (closestBehind behind names)) (e.maxTransactionsBehind.getD 0) }
    let withinLag := withinLagBound inBound (writesBehind e behind) e.maxReplicationLag
    require (withinLag≠[]) {
      reason := lagBlockReason inBound (writesBehind e behind) (e.maxReplicationLag.getD 0) }
    .ok ⟨orderByArchiveContinuity e (orderByPreference withinLag e.preferred),behind⟩

/-- The inner loop of the dominance check. -/
def dominatesAll (e : Election) (candidate : String) : List String → Except String Bool
  | [] => .ok true
  | other::rest =>
    if candidate=other then dominatesAll e candidate rest
    else do
      let contained ← (e.flavor.gtid.contains (e.observed.status candidate).gtid
        (e.observed.status other).gtid).mapError fun err => "comparing gtid sets: " ++ err
      if contained then dominatesAll e candidate rest else .ok false

/-- The outer loop of the dominance check. -/
def firstDominant (e : Election) (names : List String) : List String → Except String (Option String)
  | [] => .ok none
  | candidate::rest => do
    let dominant ← dominatesAll e candidate names
    if dominant then .ok (some candidate) else firstDominant e names rest

def selectFailoverCandidate : FailoverCandidate :=
  match eligible e with
  | .error refusal =>
    { transactionsBehind := refusal.transactionsBehind, reason := refusal.reason }
  | .ok el =>
    match firstDominant e el.names el.names with
    | .error err => { reason := err }
    | .ok none =>
      { reason := "candidate replicas have diverged GTID sets that cannot be proven safe" }
    | .ok (some candidate) =>
      { name := candidate
        transactionsBehind := behindOf el.behind candidate
        timeBehind := writesBehind e el.behind candidate }

end Cnmsql.Controller
