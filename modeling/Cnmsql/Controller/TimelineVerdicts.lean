import Cnmsql.Controller.Timeline

namespace Cnmsql.Controller

open Framework Engine MariaDBTimeline

/-- A cluster and its recorded timeline; `records` says who took over at each recorded epoch, and
where the history it inherited ended. -/
structure ClusterRun where
  primary : String
  history : History
  inherited : History
  timeline : List StatusEpoch
  records : List Takeover

namespace ClusterRun

/-- A primary takes over, keeping the history up to a sequence of each domain; it writes; the
operator observes. -/
inductive Event where
  | takesOver (name : String) (keep : UInt32 → Nat)
  | writes (d : UInt32)
  | observes (c : TimelineCluster) (o : TimelineObservation)

variable (serverID : String → UInt32) (s : ClusterRun)

/-- The first epoch starts at the primary's own position. -/
def takeover : Takeover :=
  ⟨serverID s.primary,if s.timeline=[] then s.history.last else s.inherited.last⟩

def observe (c : TimelineCluster) (o : TimelineObservation) : ClusterRun where
  primary := s.primary
  history := s.history
  inherited := s.inherited
  timeline := nextMariaDBTimeline c o
  records := (s.records++(newEpoch (priorTimeline c o) o).toList.map
    fun _ => s.takeover serverID).drop (dropped c o)

/-- One event; a domain's sequence numbers are 64 bits wide. -/
def step : Event → Option ClusterRun
  | .takesOver name keep =>
    some { s with
      primary := name
      history := s.history.upTo keep
      inherited := s.history.upTo keep }
  | .writes d =>
    if (s.history d).length+1<2^64 then
      some { s with history := s.history.write d (serverID s.primary) }
    else none
  | .observes c o => some (s.observe serverID { c with mariadbTimeline := s.timeline } o)

/-- An observed writable primary is the primary, and reports its own server and position, and
exactly what it inherited. -/
def ReportsTruly (o : TimelineObservation) : Prop :=
  ∀ status,o.statusByInstance.lookup o.primaryName=some status → writablePrimary status=true →
    o.primaryName=s.primary ∧ status.serverID=serverID s.primary ∧
      Reads status.gtidSlavePos s.inherited.last ∧ Reads status.gtidExecuted s.history.last

/-- Observations of a MariaDB cluster of its own with true reports, the timeline not read back from
an archive. -/
def Faithful : Event → ClusterRun → Prop
  | .observes c o,_ =>
    c.flavor = "mariadb" ∧ c.isReplica=false ∧ (s.timeline=[] → archivedTimeline o c=[]) ∧
      s.ReportsTruly serverID o
  | _,_ => True

def unobserved (primary : String) (h : History) : ClusterRun := ⟨primary,h,h,[],[]⟩

structure Recorded (s : ClusterRun) : Prop where
  reports : List.Forall₂ Takeover.RecordedBy s.records (toEngineTimeline s.timeline)
  bounded : ∀ d,(s.history d).length<2^64

section

variable {serverID : String → UInt32} {s : ClusterRun} {c : TimelineCluster}
  {o : TimelineObservation}

theorem newEpoch_recorded (htrue : s.ReportsTruly serverID o) (e : StatusEpoch)
    (h : newEpoch s.timeline o=some e) :
    (s.takeover serverID).RecordedBy ⟨e.serverID,e.handoff⟩ := by
  rw [newEpoch,Option.bind_eq_bind,Option.bind_eq_some_iff] at h
  obtain ⟨status,hstatus,h⟩ := h
  split at h
  · rename_i hw
    cases h
    obtain ⟨_,hserver,hslave,hexec⟩ := htrue status hstatus hw.1
    apply And.intro hserver
    apply reads_canonical
    unfold takeover
    split
    · exact hexec
    · exact hslave
  · cases h

theorem observe_recorded (hs : s.Recorded) (hc : c.mariadbTimeline=s.timeline)
    (hflavor : c.flavor = "mariadb") (hrep : c.isReplica=false)
    (harch : s.timeline=[] → archivedTimeline o c=[]) (htrue : s.ReportsTruly serverID o) :
    (s.observe serverID c o).Recorded := by
  have hprior := priorTimeline_eq (hc ▸ harch)
  rw [hc] at hprior
  have hnew : List.Forall₂ Takeover.RecordedBy
      ((newEpoch (priorTimeline c o) o).toList.map fun _ => s.takeover serverID)
      (toEngineTimeline (newEpoch (priorTimeline c o) o).toList) := by
    rw [hprior]
    cases he : newEpoch s.timeline o with
    | none => exact .nil
    | some e => exact .cons (newEpoch_recorded htrue e he) .nil
  constructor
  · rw [observe,toEngineTimeline_next c o hflavor hrep]
    apply List.forall₂_drop
    apply List.rel_append _ hnew
    rw [hprior]
    exact hs.reports
  · exact hs.bounded

theorem step_recorded (s : ClusterRun) (a : Event) (s' : ClusterRun)
    (h : step serverID s a=some s') (hf : Faithful serverID s a s') (hs : s.Recorded) :
    s'.Recorded := by
  cases a with
  | takesOver name keep =>
    cases h
    refine ⟨hs.reports,fun d => ?_⟩
    exact lt_of_le_of_lt (List.length_take_le' _ _) (hs.bounded d)
  | writes d =>
    rw [step] at h
    split at h
    · rename_i hlt
      cases h
      exact ⟨hs.reports,s.history.length_write_lt d _ _ hlt hs.bounded⟩
    · cases h
  | observes c o =>
    cases h
    obtain ⟨hflavor,hrep,harch,htrue⟩ := hf
    exact observe_recorded hs rfl hflavor hrep harch htrue

end

/-- Over every history of takeovers, however few were observed: the verdicts are right up to each
domain's end exactly when, where recorded handoffs never go back, only the newest recorded primary
wrote since its handoff and only an epoch's server wrote up to a next handoff inherited from it, and
elsewhere the recorded handoff survives. -/
theorem recorded_verdicts_sound_iff (serverID : String → UInt32) (primary : String)
    (h : History) (hfits : ∀ d,(h d).length<2^64) (events : List Event) (s : ClusterRun)
    (hfaithful : Along (step serverID) (Faithful serverID) (unobserved primary h) events)
    (hrun : exec (step serverID) (unobserved primary h) events=some s) :
    (∀ d g on,verdict (toEngineTimeline s.timeline) d g=some on →
      g.seq.toNat≤(s.history d).length →
      (on=true ↔ authorAt (s.history d) g.seq.toNat=some g.server)) ↔
    ∀ d,Ascending (s.records.map (·.within d)) →
      Attributed (s.history d) (s.records.map (·.within d)) := by
  have hs : s.Recorded := exec_invariant step_recorded hfaithful hrun ⟨.nil,hfits⟩
  exact verdict_sound_iff hs.reports hs.bounded

theorem seen_faithful {s s' : ClusterRun} (name slavePos executed : String)
    (hname : name=s.primary) (hinh : ∀ d,d≠0 → s.inherited d=[])
    (hhist : ∀ d,d≠0 → s.history d=[])
    (hslave : readsSole slavePos (s.inherited.last 0)=true)
    (hexec : readsSole executed (s.history.last 0)=true) :
    Faithful demoServers s (.observes {} (seen name slavePos executed)) s' := by
  refine ⟨rfl,rfl,fun _ => archivedTimeline_seen _ _ _ _,fun status hst _ => ?_⟩
  simp only [seen,AList.lookup_insert] at hst
  cases hst
  subst hname
  refine ⟨rfl,rfl,reads_of_sole _ _ ?_ hslave,reads_of_sole _ _ ?_ hexec⟩
  · intro d hd
    rw [History.last,hinh d hd,lastOf_nil]
  · intro d hd
    rw [History.last,hhist d hd,lastOf_nil]

/-- Three primaries write one transaction each; the second is not observed. -/
def oneEach (third executed : String) : List Event := [
  .observes {} (seen "demo-1" "" ""),.writes 0,
  .takesOver "demo-2" fun _ => 1,.writes 0,
  .takesOver third fun _ => 2,.writes 0,
  .observes {} (seen third "0-2-2" executed)]

theorem oneEach_faithful (third executed : String)
    (hexec : readsSole executed (some ⟨demoServers third,3⟩)=true) :
    Along (step demoServers) (Faithful demoServers) (unobserved "demo-1" fun _ => [])
      (oneEach third executed) := by
  have hslave : readsSole "0-2-2" (some ⟨2,2⟩)=true := by decide +kernel
  apply Along.cons rfl
  · exact seen_faithful "demo-1" "" "" rfl (fun _ _ => rfl) (fun _ _ => rfl) (by decide +kernel)
      (by decide +kernel)
  apply Along.cons rfl trivial
  apply Along.cons rfl trivial
  apply Along.cons rfl trivial
  apply Along.cons rfl trivial
  apply Along.cons rfl trivial
  apply Along.cons rfl
  · refine seen_faithful third "0-2-2" executed rfl ?_ ?_ hslave hexec
    · intro d hd
      simp [History.write_of_ne _ _ hd,History.upTo,unobserved,observe]
    · intro d hd
      simp [History.write_of_ne _ _ hd,History.upTo,unobserved,observe]
  trivial

/-- An unobserved primary wrote sequence 2 before the recorded one came back: that is called off the
timeline although it survives. -/
theorem failback_misjudged :
    Along (step demoServers) (Faithful demoServers) (unobserved "demo-1" fun _ => [])
        (oneEach "demo-1" "0-1-3") ∧
      ∃ s,exec (step demoServers) (unobserved "demo-1" fun _ => [])
          (oneEach "demo-1" "0-1-3")=some s ∧
        verdict (toEngineTimeline s.timeline) 0 ⟨2,2⟩=some false ∧
        2≤(s.history 0).length ∧ authorAt (s.history 0) 2=some 2 := by
  refine ⟨oneEach_faithful _ _ (by decide +kernel),_,rfl,?_⟩
  decide +kernel

theorem recorded_verdicts_sound_missedPrimary :
    ∃ s,exec (step demoServers) (unobserved "demo-1" fun _ => [])
        (oneEach "demo-3" "0-3-3")=some s ∧
      verdict (toEngineTimeline s.timeline) 0 ⟨2,2⟩=some true ∧
      ∀ d g on,verdict (toEngineTimeline s.timeline) d g=some on →
        g.seq.toNat≤(s.history d).length →
        (on=true ↔ authorAt (s.history d) g.seq.toNat=some g.server) := by
  refine ⟨_,rfl,by decide +kernel,?_⟩
  refine (recorded_verdicts_sound_iff demoServers "demo-1" (fun _ => []) (by simp) _ _
    (oneEach_faithful _ _ (by decide +kernel)) rfl).mpr ?_
  intro d _
  by_cases hd : d=0
  · subst hd
    decide +kernel
  · simp only [unobserved,observe,History.write_of_ne _ _ hd,History.upTo,List.take_nil]
    exact attributed_nil _

end ClusterRun

end Cnmsql.Controller
