import Cnmsql.Controller.FailoverLoss
import Cnmsql.Controller.FailoverPass
import Cnmsql.Framework.Execution

namespace Cnmsql.Controller

open Framework Replication Engine

def nanosPerMilli : Nat := 1000000

/-- The age at `now` of the newest stamp `h`, in whole milliseconds. -/
def reading (now h : Instant) : Int64 :=
  Int64.ofInt ((now-h) / nanosPerMilli*nanosPerMilli : Nat)

/-- The clock stays below this: differences fit a duration. -/
def horizon : Nat := 2^62

theorem toInt_since {now t : Nat} (hnow : now<horizon) (ht : t≤now) :
    (since now t).toInt=now-t := by
  simp only [horizon] at hnow
  rw [since,Int64.toInt_ofInt_of_le (by omega) (by omega)]

theorem toInt_reading {now h : Nat} (hnow : now<horizon) :
    (reading now h).toInt=((now-h) / nanosPerMilli*nanosPerMilli : Nat) := by
  have hle : (now-h) / nanosPerMilli*nanosPerMilli≤now-h := Nat.div_mul_le_self _ _
  simp only [horizon] at hnow
  rw [reading,Int64.toInt_ofInt_of_le (by omega) (by omega)]

theorem le_toInt_max (a b : Int64) : a.toInt≤(max a b).toInt := by
  have hmax : max a b=if a≤b then b else a := rfl
  rw [hmax]
  split
  · rename_i h
    exact Int64.le_iff_toInt_le.mp h
  · exact le_rfl

theorem toInt_sub_of_le {a b : Int64} (hlow : -2^63≤a.toInt-b.toInt)
    (hhigh : a.toInt-b.toInt<2^63) : (a-b).toInt=a.toInt-b.toInt := by
  rw [Int64.toInt_sub]
  apply Int.bmod_eq_of_le
  · exact hlow
  · exact hhigh

/-- For a primary that stopped well before the mark, the reading less the time since the mark is no
less than the time from stamp to stop. -/
theorem stop_le_lost {d h p now f : Nat} (hp : p<horizon) (hnow : now<horizon) (hf : f≤now)
    (hlate : d+(now-p)+nanosPerMilli≤f) :
    (d : Int)≤h+(max (reading p h-since now f) 0).toInt := by
  have hmax := le_toInt_max (reading p h-since now f) 0
  have hread := toInt_reading (h := h) hp
  have hsince := toInt_since hnow hf
  -- The reading is cut to whole milliseconds.
  have hround : p-h<(p-h) / nanosPerMilli*nanosPerMilli+nanosPerMilli :=
    Nat.lt_div_mul_add (by decide)
  have hle : (p-h) / nanosPerMilli*nanosPerMilli≤p-h := Nat.div_mul_le_self _ _
  generalize (p-h) / nanosPerMilli*nanosPerMilli=age at hread hround hle
  simp only [horizon] at hp hnow
  rw [toInt_sub_of_le (by omega) (by omega)] at hmax
  omega

/-- A replica: the newest stamp applied, its report, and when it last looked. -/
structure Replica where
  stamp : Option Instant := none
  report : InstanceReport := {}
  sampledAt : Instant := 0

/-- A failing primary, its replicas and the operator. The primary writes until `stopped`;
`sampledAt` is the time of each observed reading. -/
structure Incident where
  clock : Instant
  stopped : Option Instant := none
  lease : Option PrimaryLease
  committed : String
  replicas : String → Replica
  status : FailoverStatus
  observed : FailoverObservation
  sampledAt : String → Instant

inductive Event where
  | wait (elapsed : Nat)
  /-- The primary has executed more. -/
  | commit (executed : String)
  | stop
  | writeLease (lease : Option PrimaryLease)
  /-- A replica has received or applied more, up to a stamp. -/
  | apply (name : String) (stamp : Instant) (report : InstanceReport)
  /-- The heartbeat loop of a replica reads its newest stamp. -/
  | sample (name : String)
  | sampleFails (name : String)
  /-- The operator polls the replicas it reaches; the primary may answer anything. -/
  | observe (primary : Option InstanceReport) (reached instanceNames fenced diverged : List String)
  /-- Another part of the operator, or an instance, patches the status. -/
  | patch (status : FailoverStatus)
  | reconcile (req : FailoverRequest)

namespace Incident

def setReplica (w : Incident) (name : String) (r : Replica) : Incident :=
  { w with replicas := Function.update w.replicas name r }

def poll (w : Incident) (primary : String) (answer : Option InstanceReport)
    (reached : List String) : Map String InstanceReport :=
  let replicas := (reached.map fun n => ⟨n,(w.replicas n).report⟩).toAList
  match answer with
  | none => replicas.erase primary
  | some report => replicas.insert primary report

def request (w : Incident) (req : FailoverRequest) : FailoverRequest :=
  { req with observed := w.observed, lease := w.lease }

section

variable (spec : FailoverSpec) (primary : String)

def Leased (w : Incident) : Prop :=
  (primaryLeaseStatus spec w.lease primary w.clock).isSome

instance (w : Incident) : Decidable (w.Leased spec primary) :=
  inferInstanceAs (Decidable (_ = true))

variable [CaseMapping]

def failover (w : Incident) (req : FailoverRequest) : FailoverOutcome :=
  reconcileFailover spec w.status (w.request req) w.clock

/-- One event. A writing primary renews its Lease in time, and applied stamps are no later than its
stop. -/
def step (w : Incident) : Event → Option Incident
  | .wait elapsed =>
    let later := { w with clock := w.clock+elapsed }
    if later.clock<horizon ∧ (w.stopped=none → later.Leased spec primary) then some later
    else none
  | .commit executed => if w.stopped=none then some { w with committed := executed } else none
  | .stop => if w.stopped=none then some { w with stopped := some w.clock } else none
  | .writeLease lease =>
    let next := { w with lease }
    if w.stopped=none → next.Leased spec primary then some next else none
  | .apply name stamp report =>
    let r := w.replicas name
    if (∀ old∈r.stamp,old ≤ stamp) ∧ stamp≤w.stopped.getD w.clock then
      some (w.setReplica name
        { r with
          stamp := some stamp
          report := { report with heartbeatAge := r.report.heartbeatAge } })
    else none
  | .sample name =>
    let r := w.replicas name
    some (w.setReplica name
      { r with report.heartbeatAge := r.stamp.map (reading w.clock), sampledAt := w.clock })
  | .sampleFails name =>
    let r := w.replicas name
    some (w.setReplica name { r with report.heartbeatAge := none })
  | .observe answer reached instanceNames fenced diverged =>
    some { w with
      observed := ⟨primary,instanceNames,w.poll primary answer reached,fenced,diverged⟩
      sampledAt := fun n => (w.replicas n).sampledAt }
  | .patch status =>
    if status.primaryFailingSince=w.status.primaryFailingSince then some { w with status }
    else none
  | .reconcile req => some { w with status := (w.failover spec req).status }

/-- The start: the primary writes and holds its Lease, and nothing was observed. -/
structure Fresh (w : Incident) : Prop where
  running : w.stopped=none
  leased : w.Leased spec primary
  clock : w.clock<horizon
  unmarked : w.status.primaryFailingSince=none
  unsampled : ∀ n,(w.replicas n).report.heartbeatAge=none
  primaryName : w.observed.primaryName=primary
  unobserved : w.observed.instances=∅

end

def Measured (age : Option Int64) (sampledAt : Instant) (stamp : Option Instant) : Prop :=
  ∀ a,age=some a → ∃ h newest,sampledAt<horizon ∧ a=reading sampledAt h ∧
    stamp=some newest ∧ h≤newest

def Grows (stamp stamp' : Option Instant) : Prop :=
  ∀ old,stamp=some old → ∃ new,stamp'=some new ∧ old≤new

theorem Grows.refl (stamp : Option Instant) : Grows stamp stamp := fun old h => ⟨old,h,le_rfl⟩

theorem Measured.mono {age : Option Int64} {sampledAt : Instant} {stamp stamp' : Option Instant}
    (h : Measured age sampledAt stamp) (hgrows : Grows stamp stamp') :
    Measured age sampledAt stamp' := by
  intro a ha
  obtain ⟨t,newest,hs,hread,hnewest,hle⟩ := h a ha
  obtain ⟨new,hnew,hold⟩ := hgrows newest hnewest
  exact ⟨t,new,hs,hread,hnew,hle.trans hold⟩

/-- What holds in every state of an incident. -/
structure Sound (spec : FailoverSpec) (primary : String) (w : Incident) : Prop where
  leased : w.stopped=none → w.Leased spec primary
  clock : w.clock<horizon
  marked : ∀ f,w.status.primaryFailingSince=some f → f≤w.clock
  sampled : ∀ n,Measured (w.replicas n).report.heartbeatAge (w.replicas n).sampledAt
    (w.replicas n).stamp
  primaryName : w.observed.primaryName=primary
  observed : ∀ n report,n≠primary → w.observed.instances.lookup n=some report →
    Measured report.heartbeatAge (w.sampledAt n) (w.replicas n).stamp

theorem lookup_poll {w : Incident} {primary n : String} {answer : Option InstanceReport}
    {reached : List String} {report : InstanceReport} (hn : n≠primary)
    (h : (w.poll primary answer reached).lookup n=some report) :
    report=(w.replicas n).report := by
  have hlist : AList.lookup n (reached.map fun n =>
      (⟨n,(w.replicas n).report⟩ : (_ : String) × InstanceReport)).toAList=some report := by
    unfold poll at h
    cases answer with
    | none => simpa [AList.lookup_erase_ne hn] using h
    | some answer => simpa [AList.lookup_insert_ne hn] using h
  rw [AList.lookup_to_alist] at hlist
  have hmem := List.of_mem_dlookup hlist
  rw [List.mem_map] at hmem
  obtain ⟨m,_,hm⟩ := hmem
  cases hm
  rfl

variable {spec : FailoverSpec} {primary : String} {w : Incident}

theorem Fresh.sound (h : w.Fresh spec primary) : w.Sound spec primary where
  leased _ := h.leased
  clock := h.clock
  marked f hf := by simp [h.unmarked] at hf
  sampled n a ha := by simp [h.unsampled] at ha
  primaryName := h.primaryName
  observed n report _ hl := by simp [h.unobserved] at hl

theorem Sound.setReplica {spec : FailoverSpec} {primary : String} {w : Incident}
    (h : w.Sound spec primary) {name : String} {r : Replica}
    (hsampled : Measured r.report.heartbeatAge r.sampledAt r.stamp)
    (hgrows : Grows (w.replicas name).stamp r.stamp) :
    (w.setReplica name r).Sound spec primary := by
  refine { h with sampled := ?_, observed := ?_ }
  · intro n
    by_cases hn : n=name
    · subst hn
      simpa [Incident.setReplica] using hsampled
    · simpa [Incident.setReplica,hn] using h.sampled n
  · intro n report hne hl
    have hold := h.observed n report hne hl
    by_cases hn : n=name
    · subst hn
      simpa [Incident.setReplica] using hold.mono hgrows
    · simpa [Incident.setReplica,hn] using hold

theorem Sound.failingSince_le
    (h : w.Sound spec primary) : recordPrimaryFailing w.status w.clock≤w.clock := by
  unfold recordPrimaryFailing
  cases hf : w.status.primaryFailingSince with
  | none => exact Nat.div_mul_le_self _ _
  | some f => exact h.marked f hf

section

variable [CaseMapping] {spec : FailoverSpec} {primary : String}

theorem Sound.step {w w' : Incident} {a : Event} (h : w.Sound spec primary)
    (hstep : w.step spec primary a=some w') : w'.Sound spec primary := by
  cases a with simp only [Incident.step,Option.ite_none_right_eq_some,Option.some.injEq] at hstep
  | wait elapsed =>
    obtain ⟨⟨hclock,hlease⟩,rfl⟩ := hstep
    refine { h with leased := hlease, clock := hclock, marked := ?_ }
    intro f hf
    exact (h.marked f hf).trans (Nat.le_add_right _ _)
  | commit executed =>
    obtain ⟨_,rfl⟩ := hstep
    exact { h with }
  | stop =>
    obtain ⟨_,rfl⟩ := hstep
    exact { h with leased := by simp }
  | writeLease lease =>
    obtain ⟨hlease,rfl⟩ := hstep
    exact { h with leased := hlease }
  | apply name stamp report =>
    obtain ⟨⟨hstamp,_⟩,rfl⟩ := hstep
    have hgrows : Grows (w.replicas name).stamp (some stamp) :=
      fun old hold => ⟨stamp,rfl,hstamp old hold⟩
    exact h.setReplica ((h.sampled name).mono hgrows) hgrows
  | sample name =>
    cases hstep
    refine h.setReplica ?_ (Grows.refl _)
    -- The loop measures the newest stamp, now.
    intro a ha
    obtain ⟨newest,hnewest,ha⟩ := Option.map_eq_some_iff.mp ha
    exact ⟨newest,newest,h.clock,ha.symm,hnewest,le_rfl⟩
  | sampleFails name =>
    cases hstep
    exact h.setReplica (by simp [Measured]) (Grows.refl _)
  | observe answer reached instanceNames fenced diverged =>
    cases hstep
    refine { h with primaryName := rfl, observed := ?_ }
    intro n report hn hl
    rw [lookup_poll hn hl]
    exact h.sampled n
  | patch status =>
    obtain ⟨hsame,rfl⟩ := hstep
    refine ⟨h.leased,h.clock,?_,h.sampled,h.primaryName,h.observed⟩
    intro f hf
    exact h.marked f (hsame.symm.trans hf)
  | reconcile req =>
    cases hstep
    refine ⟨h.leased,h.clock,?_,h.sampled,h.primaryName,h.observed⟩
    intro f hf
    cases reconcileFailover_failingSince hf with
    | inl hold => exact h.marked f hold
    | inr hnew =>
      rw [hnew]
      exact h.failingSince_le

theorem Fresh.sound_run {start w : Incident} (h : start.Fresh spec primary) {as : List Event}
    (hrun : exec (step spec primary) start as=some w) : w.Sound spec primary :=
  exec_invariant (P := fun _ _ _ => True) (fun _ _ _ hs _ hsound => hsound.step hs)
    (along_of_step (fun _ _ _ _ => trivial) start as) hrun h.sound

def election (spec : FailoverSpec) (w : Incident) (req : FailoverRequest) : Election :=
  failoverElection spec w.status (w.request req) w.clock (recordPrimaryFailing w.status w.clock)

def Misses (spec : FailoverSpec) (w : Incident) (req : FailoverRequest) (name : String) : Prop :=
  ¬(w.election spec req).flavor.transactions w.committed ⊆ held (w.election spec req) name

/-- When a pass fails over to a replica that lacks a transaction, the primary has stopped, and the
time from the replica's stamp to the stop is at most the reported loss and the bound. -/
def BoundedLoss (spec : FailoverSpec) (w : Incident) (req : FailoverRequest) : Prop :=
  ∀ c,(w.failover spec req).promoted=some c → w.Misses spec req c →
    ∃ d,w.stopped=some d ∧
      (∀ lost,(selectFailoverCandidate (w.election spec req)).timeBehind=some lost →
        ∃ h,(w.replicas c).stamp=some h ∧ (d : Int)≤h+lost.toInt) ∧
      ∀ bound,spec.maxReplicationLag=some bound →
        ∃ h,(w.replicas c).stamp=some h ∧ (d : Int)≤h+bound.toInt

/-- The primary had stopped by the failing mark, with readings' ages and rounding to spare. -/
def MarkedLate (w : Incident) : Prop :=
  ∀ d,w.stopped=some d → ∀ n∈w.observed.instances,
    d+(w.clock-w.sampledAt n)+nanosPerMilli≤recordPrimaryFailing w.status w.clock

/-- All the primary wrote is in its recorded position or held by a candidate. -/
def Known (spec : FailoverSpec) (w : Incident) (req : FailoverRequest) : Prop :=
  ∀ t∈(w.election spec req).flavor.transactions w.committed,
    t∈(w.election spec req).flavor.transactions (w.election spec req).referenceGTID ∨
      ∃ n∈candidates (w.election spec req),t∈held (w.election spec req) n

theorem Sound.le_lost {w : Incident} {req : FailoverRequest} (h : w.Sound spec primary)
    (hmark : w.MarkedLate) {d : Instant} (hd : w.stopped=some d) {c : String} (hc : c≠primary)
    {report : InstanceReport} (hl : w.observed.instances.lookup c=some report) {age : Int64}
    (hage : report.heartbeatAge=some age) :
    ∃ newest,(w.replicas c).stamp=some newest ∧
      (d : Int)≤newest+(max (age-(w.election spec req).primaryDownFor) 0).toInt := by
  obtain ⟨t,newest,hs,rfl,hnewest,hle⟩ := h.observed c report hc hl age hage
  refine ⟨newest,hnewest,?_⟩
  have hmem : c∈w.observed.instances := AList.lookup_isSome.mp (by simp [hl])
  have hlost := stop_le_lost (h := t) hs h.clock h.failingSince_le (hmark d hd c hmem)
  have hle : (t : Int)≤newest := by exact_mod_cast hle
  exact hlost.trans (by simpa [election,failoverElection] using hle)

theorem behindOf_ne_zero {w : Incident} {req : FailoverRequest} {el : Eligible}
    (hel : eligible (w.election spec req) = .ok el) {c : String} (hc : c∈el.names)
    (hknown : w.Known spec req) (hmiss : w.Misses spec req c) : behindOf el.behind c≠0 := by
  intro hzero
  obtain ⟨hbehind,hcand⟩ := eligible_eq_ok hel
  obtain ⟨reference,href,hmeas⟩ := transactionsBehind_correct hbehind
  obtain ⟨set,hset,hmissing⟩ := hmeas c (hcand c hc).1
  rw [hzero] at hmissing
  have hsub := (w.election spec req).flavor.subset_of_missingCount_eq_zero hmissing
  rw [href,heldBy_correct hset] at hsub
  exact hmiss fun t ht => hsub (hknown t ht)

/-- Passes with a late enough mark and all writes accounted for keep to the bound. -/
theorem failover_loss_bounded {start w : Incident} (hstart : start.Fresh spec primary)
    {as : List Event} (hrun : exec (step spec primary) start as=some w) (req : FailoverRequest)
    (hmark : w.MarkedLate) (hknown : w.Known spec req) : w.BoundedLoss spec req := by
  have hsound := hstart.sound_run hrun
  intro c hprom hmiss
  obtain ⟨hname,helected,hlease⟩ := reconcileFailover_promoted hprom
  -- A primary that still writes would hold its Lease.
  obtain ⟨d,hd⟩ : ∃ d, w.stopped=some d := by
    cases hstop : w.stopped with
    | some d => exact ⟨d,rfl⟩
    | none =>
      have hleased := hsound.leased hstop
      rw [Leased,← hsound.primaryName,show primaryLeaseStatus spec w.lease
        w.observed.primaryName w.clock=none from hlease] at hleased
      cases hleased
  refine ⟨d,hd,?_⟩
  have hselect : (selectFailoverCandidate (w.election spec req)).name ≠ "" := helected ▸ hname
  obtain ⟨el,hel,hleads,htime⟩ := selectFailoverCandidate_name hselect
  rw [show (selectFailoverCandidate (w.election spec req)).name=c from helected.symm]
    at hleads htime
  have hc : c∈el.names := List.mem_of_find?_eq_some hleads
  obtain ⟨hcand,hbound,-⟩ := (eligible_eq_ok hel).2 c hc
  obtain ⟨hne,status,hstatus⟩ := reported_of_mem_candidates hcand
  have hcollect := hstatus
  simp only [election,failoverElection,request,FailoverObservation.state,Map.lookup_collect,
    Option.bind_eq_some_iff,Option.some.injEq] at hcollect
  obtain ⟨report,hl,hreport⟩ := hcollect
  have hpc : c≠primary := hsound.primaryName ▸ hne
  have hlost : ∀ lost,writesBehind (w.election spec req) el.behind c=some lost →
      ∃ h,(w.replicas c).stamp=some h ∧ (d : Int)≤h+lost.toInt := by
    intro lost hw
    rw [writesBehind,if_neg (behindOf_ne_zero hel hc hknown hmiss),FailoverState.status,hstatus,
      Option.getD_some,Option.map_eq_some_iff] at hw
    obtain ⟨age,hage,rfl⟩ := hw
    exact hsound.le_lost hmark hd hpc hl (hreport ▸ hage)
  refine ⟨fun lost hlostEq => hlost lost (htime ▸ hlostEq),?_⟩
  intro bound hb
  obtain ⟨lost,hw,hle⟩ := hbound bound hb
  obtain ⟨h,hstamp,hdle⟩ := hlost lost hw
  exact ⟨h,hstamp,hdle.trans (by simpa using Int64.le_iff_toInt_le.mp hle)⟩

end

def allowing (n : Int32) : FailoverSpec where
  maxReplicationLag := some (durationSeconds n)

/-- A primary with two transactions and a replica with the first. -/
def twoServers : Incident where
  clock := 0
  lease := some ⟨some "db-1",some 0,none⟩
  committed := "u:1-2"
  replicas := fun _ =>
    { stamp := some 0
      report := { replica := true, sqlRunning := true, gtid := "u:1", retrievedGTID := "u:1" } }
  status := { currentPrimary := "db-1", gtidExecutedByInstance := [⟨"db-1","u:1-2"⟩].toAList }
  observed := ⟨"db-1",[],∅,[],[]⟩
  sampledAt := fun _ => 0

theorem fresh_twoServers (n : Int32) : twoServers.Fresh (allowing n) "db-1" where
  running := rfl
  leased := by
    show (primaryLeaseStatus {} twoServers.lease "db-1" 0).isSome
    decide
  clock := by decide
  unmarked := rfl
  unsampled _ := rfl
  primaryName := rfl
  unobserved := rfl

def pass : FailoverRequest := { observed := ⟨"",[],∅,[],[]⟩, instances := 2 }

def look : List Event := [.sample "db-2",.observe none ["db-2"] ["db-1","db-2"] [] []]

def seconds (n : Nat) : Nat := n*nanosPerSecond

/-- The primary stops at 1 s, is failing from 5 s, and its Lease ends at 20 s. -/
def seenAfterStop : List Event :=
  [.wait (seconds 1),.stop,.wait (seconds 4)]++look ++
    [.reconcile pass,.wait (seconds 15)]++look

/-- The primary is seen failing from 1 s on, and writes until 10 s. -/
def seenBeforeStop : List Event :=
  [.wait (seconds 1)]++look ++
    [.reconcile pass,.wait (seconds 9),.commit "u:1-9",
      .writeLease (some ⟨some "db-1",some (seconds 10),none⟩),.stop,.wait (seconds 15)]++look

theorem failover_loss_seenAfterStop :
    ∃ w,exec (step (allowing 10) "db-1") twoServers seenAfterStop=some w ∧
      (w.failover (allowing 10) pass).promoted=some "db-2" ∧
      w.BoundedLoss (allowing 10) pass := by
  obtain ⟨w,hw,htest⟩ := @exec_reaches _ _ (step (allowing 10) "db-1") (fun w => decide (
      (w.failover (allowing 10) pass).promoted=some "db-2" ∧ w.stopped=some (seconds 1) ∧
      (∀ n∈w.observed.instances.keys,seconds 1+(w.clock-w.sampledAt n)+nanosPerMilli ≤
        recordPrimaryFailing w.status w.clock) ∧
      w.status.gtidExecutedByInstance.lookup w.observed.primaryName=some w.committed))
    twoServers seenAfterStop (by decide +kernel)
  simp only [decide_eq_true_eq] at htest
  obtain ⟨hprom,hstop,hlate,hknown⟩ := htest
  refine ⟨w,hw,hprom,failover_loss_bounded (fresh_twoServers 10) hw pass ?_ ?_⟩
  · intro d hd n hn
    rw [hstop] at hd
    cases hd
    exact hlate n (AList.mem_keys.mpr hn)
  · intro t ht
    have href : (w.election (allowing 10) pass).referenceGTID=w.committed := by
      simp [election,failoverElection,request,hknown]
    rw [href]
    exact .inl ht

theorem failover_loss_unbounded :
    ¬∀ (spec : FailoverSpec) (primary : String) (start w : Incident) (as : List Event)
      (req : FailoverRequest),start.Fresh spec primary →
      exec (step spec primary) start as=some w → w.BoundedLoss spec req := by
  intro hall
  obtain ⟨w,hw,htest⟩ := @exec_reaches _ _ (step (allowing 1) "db-1") (fun w => decide (
      (w.failover (allowing 1) pass).promoted=some "db-2" ∧ w.stopped=some (seconds 10) ∧
      (w.replicas "db-2").stamp=some 0 ∧ w.committed = "u:1-9" ∧
      (w.observed.state.status "db-2").gtid = "u:1" ∧
      (w.observed.state.status "db-2").retrievedGTID = "u:1"))
    twoServers seenBeforeStop (by decide +kernel)
  simp only [decide_eq_true_eq] at htest
  obtain ⟨hprom,hstop,hstamp,hcommitted,hgtid,hretrieved⟩ := htest
  have hmiss : w.Misses (allowing 1) pass "db-2" := by
    intro hsub
    have hwritten : (("u",9) : Txn)∈gtids w.committed := by
      rw [hcommitted]
      decide +kernel
    have hlacking : (("u", 9) : Txn)∉gtids "u:1" := by decide +kernel
    have hmem : (("u",9) : Txn)∈gtids (w.observed.state.status "db-2").gtid ∪
        gtids (w.observed.state.status "db-2").retrievedGTID := hsub hwritten
    rw [hgtid,hretrieved,Set.union_self] at hmem
    exact hlacking hmem
  obtain ⟨d,hd,_,hbound⟩ := hall _ _ _ w _ pass (fresh_twoServers 1) hw "db-2" hprom hmiss
  obtain ⟨h,hh,hle⟩ := hbound _ rfl
  -- The replica's newest stamp is 10 s older than the stop, and 1 s is allowed.
  rw [hstop] at hd
  rw [hstamp] at hh
  cases hd
  cases hh
  exact absurd hle (by decide)

end Incident

end Cnmsql.Controller
