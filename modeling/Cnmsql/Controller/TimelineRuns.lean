import Cnmsql.Controller.Timeline
import Cnmsql.Engine.MariaPruning

namespace Cnmsql.Controller

open Framework Engine MariaDBTimeline List

/-- The transactions a server holds, and the last it applied as a replica in each domain. -/
structure Server where
  held : History
  slavePos : UInt32 → Option MariaEntry

def Server.write (server : Server) (d author : UInt32) : Server where
  held := server.held.write d author
  slavePos := server.slavePos

def Server.apply (server : Server) (d author : UInt32) : Server where
  held := server.held.write d author
  slavePos := Function.update server.slavePos d (lastOf (server.held d++[author]))

/-- The servers by name, and the recorded timeline. -/
structure Fleet where
  servers : String → Server
  primary : String
  timeline : List StatusEpoch

namespace Fleet

def surviving (s : Fleet) : History := (s.servers s.primary).held

def set (s : Fleet) (name : String) (server : Server) : Fleet :=
  { s with servers := Function.update s.servers name server }

variable (s : Fleet) (name : String) (server : Server)

@[simp] theorem set_primary :
    (s.set name server).primary=s.primary := rfl

@[simp] theorem set_timeline :
    (s.set name server).timeline=s.timeline := rfl

@[simp] theorem set_servers_same : (s.set name server).servers name=server := by
  simp [set]

theorem set_servers_of_ne {other : String} (h : other≠name) :
    (s.set name server).servers other=s.servers other := by
  simp [set,h]

inductive Event where
  | writes (d : UInt32)
  | applies (name : String) (d : UInt32)
  | promotes (name : String)
  | observes (c : TimelineCluster) (o : TimelineObservation)

variable (serverID : String → UInt32)

/-- A primary's writes leave its `gtid_slave_pos` alone; a replica applies what the primary holds
next; a switchover or failover changes the primary. -/
def step (s : Fleet) : Event → Option Fleet
  | .writes d =>
    if (s.surviving d).length+1<2^64 then
      some (s.set s.primary ((s.servers s.primary).write d (serverID s.primary)))
    else none
  | .applies name d =>
    let server := s.servers name
    if name≠s.primary ∧ server.held d <+: s.surviving d then
      (s.surviving d)[(server.held d).length]?.map fun author => s.set name (server.apply d author)
    else none
  | .promotes name => some { s with primary := name }
  | .observes c o =>
    some { s with timeline := nextMariaDBTimeline { c with mariadbTimeline := s.timeline } o }

/-- An observed writable primary is the primary, and reports its own id and positions. -/
def ReportsTruly (s : Fleet) (o : TimelineObservation) : Prop :=
  ∀ status,o.statusByInstance.lookup o.primaryName=some status → writablePrimary status=true →
    o.primaryName=s.primary ∧ status.serverID=serverID s.primary ∧
      Reads status.gtidSlavePos (s.servers s.primary).slavePos ∧
      Reads status.gtidExecuted s.surviving.last

/-- The surviving history is one chain. Observations are of a MariaDB cluster of its own, report
truly, and start from no archived timeline. -/
def Faithful (s : Fleet) : Event → Fleet → Prop
  | .promotes name,_ => ∀ d,(s.servers name).held d <+: s.surviving d
  | .observes c o,_ =>
    c.flavor = "mariadb" ∧ c.isReplica=false ∧ (s.timeline=[] → archivedTimeline o c=[]) ∧
      s.ReportsTruly serverID o
  | _,_ => True

/-- The last transaction a server holds in each domain is one it applied. -/
def CaughtUp (server : Server) : Prop := ∀ d,server.slavePos d=server.held.last d

/-- Once a primary is recorded, a promoted server holds the newest recorded handoff and is caught up
or the newest recorded primary, and the one it succeeds was recorded or wrote nothing. -/
def Orderly (s : Fleet) : Event → Fleet → Prop
  | .promotes name,_ => ∀ newest∈s.timeline.getLast?,
      (∀ p,parseMariaPos newest.handoff = .ok p →
        ∀ d,p.reached d≤((s.servers name).held d).length) ∧
      (newest.instanceName=name ∨ CaughtUp (s.servers name)) ∧
      (newest.instanceName=s.primary ∨ CaughtUp (s.servers s.primary))
  | _,_ => True

/-- Each takeover inherits what the one before did, and anything past that from it. -/
def Follows (r next : Takeover) : Prop :=
  ∀ d,(r.within d).start≤(next.within d).start ∧
    ((r.within d).start=(next.within d).start ∨ (next.within d).handoffServer=r.server)

variable (authors : List UInt32) (n : DomainEpoch)

/-- While its newest recorded primary is the primary, only that one wrote. -/
def Settled : Prop :=
  n.start.toNat≤authors.length ∧ SoleAuthor authors n.serverID n.start.toNat authors.length

/-- While the primary is not the newest recorded one: it inherited what that one wrote, as its
`gtid_slave_pos` says, and the rest is its own. -/
def Pending (slavePos : Option MariaEntry) (server : UInt32) : Prop :=
  ∃ base≤authors.length,slavePos=lastOf (authors.take base) ∧ n.start.toNat≤base ∧
    SoleAuthor authors n.serverID n.start.toNat base ∧
    SoleAuthor authors server base authors.length

structure Tracked (serverID : String → UInt32) (s : Fleet) (rs : List Takeover) (r : Takeover)
    (newest : StatusEpoch) : Prop where
  last : s.timeline.getLast?=some newest
  records : List.Forall₂ Takeover.RecordedBy (rs++[r]) (toEngineTimeline s.timeline)
  chain : (rs++[r]).IsChain Follows
  server : r.server=serverID newest.instanceName
  settled : newest.instanceName=s.primary → ∀ d,Settled (s.surviving d) (r.within d)
  pending : newest.instanceName≠s.primary → ∀ d,
    Pending (s.surviving d) (r.within d) ((s.servers s.primary).slavePos d) (serverID s.primary)

/-- What every step keeps. -/
structure Judgeable (serverID : String → UInt32) (s : Fleet) : Prop where
  bounded : ∀ name d,((s.servers name).held d).length<2^64
  tracked : s.timeline=[] ∨ ∃ rs r newest,s.Tracked serverID rs r newest

section

variable {serverID : String → UInt32} {s : Fleet}

theorem Settled.write {authors : List UInt32} {n : DomainEpoch} (h : Settled authors n) :
    Settled (authors++[n.serverID]) n := by
  refine ⟨?_,h.2.write⟩
  have := h.1
  simp only [length_append,length_singleton]
  omega

theorem Pending.write {authors : List UInt32} {n : DomainEpoch} {slavePos : Option MariaEntry}
    {server : UInt32} (h : Pending authors n slavePos server) :
    Pending (authors++[server]) n slavePos server := by
  obtain ⟨base,hbase,hpos,hstart,hold,hown⟩ := h
  refine ⟨base,?_,?_,hstart,hold.append hbase _,hown.write⟩
  · simp only [length_append,length_singleton]
    omega
  · rw [hpos,take_append_of_le_length hbase]

variable {r : Takeover}

theorem Pending.record {authors : List UInt32} {server : UInt32}
    {slavePos : UInt32 → Option MariaEntry} {d : UInt32} (hlen : authors.length<2^64)
    (h : Pending authors (r.within d) (slavePos d) server) :
    Settled authors (Takeover.within d ⟨server,slavePos⟩) ∧
      (r.within d).start≤(Takeover.within d ⟨server,slavePos⟩).start ∧
      ((r.within d).start=(Takeover.within d ⟨server,slavePos⟩).start ∨
        (Takeover.within d ⟨server,slavePos⟩).handoffServer=r.server) := by
  obtain ⟨base,hbase,hpos,hstart,hold,hown⟩ := h
  have htake : (authors.take base).length=base := length_take_of_le hbase
  have hnew : (Takeover.within d ⟨server,slavePos⟩).start.toNat=base := by
    simp only [Takeover.within,hpos]
    rw [reached_lastOf _ (by omega),htake]
  refine ⟨⟨by omega,by rw [hnew]; exact hown⟩,?_,?_⟩
  · rw [UInt64.le_iff_toNat_le,hnew]
    exact hstart
  · by_cases heq : (r.within d).start.toNat=base
    · left
      rw [← UInt64.toNat_inj,hnew,heq]
    · right
      have hne : authors.take base≠[] := by
        intro hnil
        rw [hnil] at htake
        simp only [length_nil] at htake
        omega
      -- the last transaction inherited lies past the newest handoff, so its author is known
      have hauthor := author_lastOf hne
      rw [htake,authorAt_initial ( take_prefix base authors) (by omega),
        hold base (by omega) le_rfl hbase] at hauthor
      simp only [Takeover.within,hpos]
      exact (Option.some.inj hauthor).symm

variable {rs : List Takeover} {newest : StatusEpoch}

theorem Tracked.newest_recorded
    (h : s.Tracked serverID rs r newest) : r.RecordedBy ⟨newest.serverID,newest.handoff⟩ := by
  obtain ⟨older,ht⟩ := List.getLast?_eq_some_iff.mp h.last
  have hrec := forall₂_reverse_iff.mpr h.records
  rw [ht,toEngineTimeline,map_append,reverse_append,reverse_append] at hrec
  exact (forall₂_cons.mp hrec).1

theorem Tracked.drop {rs : List Takeover} {r : Takeover} {newest : StatusEpoch}
    (h : s.Tracked serverID rs r newest) (n : Nat) (hn : n<s.timeline.length) :
    ({ s with timeline := s.timeline.drop n } : Fleet).Tracked serverID (rs.drop n) r newest := by
  have hlen : rs.length+1=s.timeline.length := by
    have := h.records.length_eq
    simpa [toEngineTimeline] using this
  have hdrop : (rs++[r]).drop n=rs.drop n++[r] := drop_append_of_le_length (by omega)
  constructor
  · rw [List.getLast?_drop,if_neg (by omega)]
    exact h.last
  · rw [← hdrop,toEngineTimeline,map_drop]
    exact forall₂_drop n h.records
  · rw [← hdrop]
    exact h.chain.drop n
  · exact h.server
  · exact h.settled
  · exact h.pending

theorem newEpoch_recorded {o : TimelineObservation} (htrue : s.ReportsTruly serverID o)
    (e : StatusEpoch) (h : newEpoch s.timeline o=some e) :
    e.instanceName=s.primary ∧ (∀ n∈s.timeline.getLast?,n.instanceName≠s.primary) ∧
      Takeover.RecordedBy ⟨serverID s.primary,
        if s.timeline=[] then s.surviving.last else (s.servers s.primary).slavePos⟩
        ⟨e.serverID,e.handoff⟩ := by
  rw [newEpoch,Option.bind_eq_bind,Option.bind_eq_some_iff] at h
  obtain ⟨status,hstatus,h⟩ := h
  split at h
  · rename_i hw
    cases h
    obtain ⟨hname,hserver,hslave,hexec⟩ := htrue status hstatus hw.1
    refine ⟨hname,?_,hserver,?_⟩
    · intro n hn heq
      apply hw.2
      rw [Option.mem_def.mp hn,Option.map_some,heq,hname]
    · apply reads_canonical
      split
      · exact hexec
      · exact hslave
  · cases h

theorem tracked_first (hbounded : ∀ d,(s.surviving d).length<2^64) (e : StatusEpoch)
    (hname : e.instanceName=s.primary)
    (hrec : Takeover.RecordedBy ⟨serverID s.primary,s.surviving.last⟩ ⟨e.serverID,e.handoff⟩) :
    ({ s with timeline := [e] } : Fleet).Tracked serverID []
      ⟨serverID s.primary,s.surviving.last⟩ e where
  last := rfl
  records := .cons hrec .nil
  chain := isChain_singleton _
  server := by rw [hname]
  settled := by
    intro _ d
    have hstart : (Takeover.within d ⟨serverID s.primary,s.surviving.last⟩).start.toNat =
        (s.surviving d).length := reached_lastOf _ (hbounded d)
    refine ⟨hstart.le,?_⟩
    intro seq hlo hhi _
    rw [hstart] at hlo
    exact absurd hhi (by simpa [surviving] using hlo)
  pending := fun hne => absurd hname hne

/-- A later epoch starts where its primary stopped to be a replica. -/
theorem Tracked.record {rs : List Takeover} {r : Takeover} {newest : StatusEpoch}
    (h : s.Tracked serverID rs r newest) (hbounded : ∀ d,(s.surviving d).length<2^64)
    (e : StatusEpoch) (hname : e.instanceName=s.primary) (hnew : newest.instanceName≠s.primary)
    (hrec : Takeover.RecordedBy ⟨serverID s.primary,(s.servers s.primary).slavePos⟩
      ⟨e.serverID,e.handoff⟩) :
    ({ s with timeline := s.timeline++[e] } : Fleet).Tracked serverID (rs++[r])
      ⟨serverID s.primary,(s.servers s.primary).slavePos⟩ e := by
  have hpend := fun d => (h.pending hnew d).record (hbounded d)
  constructor
  · simp
  · rw [toEngineTimeline,map_append]
    exact rel_append h.records (.cons hrec .nil)
  · apply h.chain.append (isChain_singleton _)
    intro a ha b hb
    simp only [List.getLast?_append,List.getLast?_singleton,Option.some_or,Option.mem_def,
      Option.some.injEq,List.head?_cons] at ha hb
    subst ha
    subst hb
    exact fun d => (hpend d).2
  · rw [hname]
  · exact fun _ d => (hpend d).1
  · exact fun hne => absurd hname hne

theorem observe_judgeable (hs : s.Judgeable serverID) (c : TimelineCluster)
    (o : TimelineObservation) (hc : c.mariadbTimeline=s.timeline)
    (hflavor : c.flavor = "mariadb") (hrep : c.isReplica=false)
    (harch : s.timeline=[] → archivedTimeline o c=[]) (htrue : s.ReportsTruly serverID o) :
    ({ s with timeline := nextMariaDBTimeline c o } : Fleet).Judgeable serverID := by
  refine ⟨hs.bounded,?_⟩
  have hprior : priorTimeline c o=s.timeline := by
    rw [priorTimeline_eq (hc ▸ harch),hc]
  have hnext : nextMariaDBTimeline c o=(extended c o).drop (dropped c o) := by
    simp [nextMariaDBTimeline,hflavor,hrep]
  rw [hnext]
  by_cases hnil : extended c o=[]
  · left
    simp [hnil]
  · right
    have htracked : ∃ rs r newest,
        ({ s with timeline := extended c o } : Fleet).Tracked serverID rs r newest := by
      rw [extended,hprior] at hnil ⊢
      cases he : newEpoch s.timeline o with
      | none =>
        rw [he] at hnil
        obtain ⟨rs,r,newest,h⟩ := hs.tracked.resolve_left (by simpa using hnil)
        exact ⟨rs,r,newest,by simpa using h⟩
      | some e =>
        obtain ⟨hname,hnew,hrec⟩ := newEpoch_recorded htrue e he
        cases hs.tracked with
        | inl ht =>
          rw [if_pos ht] at hrec
          exact ⟨_,_,_,by simpa [ht] using tracked_first (hs.bounded _) e hname hrec⟩
        | inr h =>
          obtain ⟨rs,r,newest,h⟩ := h
          have hne : s.timeline≠[] := by
            intro ht
            have hlast := h.last
            simp [ht] at hlast
          rw [if_neg hne] at hrec
          exact ⟨_,_,_,h.record (hs.bounded _) e hname (hnew newest h.last) hrec⟩
    obtain ⟨rs,r,newest,h⟩ := htracked
    have hlt : dropped c o<(extended c o).length := by
      have := pruned_lt (toEngineTimeline (extended c o))
        ((timelineReferences c o).entries.map (·.2)) (by simpa [toEngineTimeline] using hnil)
      simpa [dropped,toEngineTimeline] using this
    exact ⟨_,_,_,h.drop _ hlt⟩

theorem Tracked.soleAuthor
    (h : s.Tracked serverID rs r newest) (hbounded : ∀ d,(s.surviving d).length<2^64)
    (hrec : newest.instanceName=s.primary ∨ CaughtUp (s.servers s.primary)) (d : UInt32) :
    SoleAuthor (s.surviving d) r.server (r.within d).start.toNat (s.surviving d).length := by
  by_cases hname : newest.instanceName=s.primary
  · exact (h.settled hname d).2
  · obtain ⟨base,hbase,hpos,_,hold,_⟩ := h.pending hname d
    have hlast : lastOf ((s.surviving d).take base)=lastOf (s.surviving d) :=
      hpos.symm.trans (hrec.resolve_left hname d)
    have hlen := reached_lastOf _ (hbounded d)
    rw [← hlast,reached_lastOf _ (by have := hbounded d; simp only [length_take]; omega),
      length_take_of_le hbase] at hlen
    rw [← hlen]
    exact hold

theorem promote_judgeable (hs : s.Judgeable serverID) (name : String)
    (hchain : ∀ d,(s.servers name).held d <+: s.surviving d)
    (ho : s.Orderly (.promotes name) { s with primary := name }) :
    ({ s with primary := name } : Fleet).Judgeable serverID := by
  refine ⟨hs.bounded,hs.tracked.imp id ?_⟩
  intro h
  obtain ⟨rs,r,newest,h⟩ := h
  obtain ⟨hholds,hcaught,hrec⟩ := ho newest h.last
  have hstart : ∀ d,(r.within d).start.toNat≤((s.servers name).held d).length := by
    intro d
    obtain ⟨p,hp,hlookup⟩ := h.newest_recorded.2
    rw [← r.reached_eq _ p ⟨p,hp,hlookup⟩ hp d]
    exact hholds p hp d
  have hsole : ∀ d,SoleAuthor ((s.servers name).held d) r.server (r.within d).start.toNat
      ((s.servers name).held d).length := by
    intro d
    exact (h.soleAuthor (hs.bounded _) hrec d).of_initial (hchain d) (hchain d).length_le
  refine ⟨rs,r,newest,h.last,h.records,h.chain,h.server,?_,?_⟩
  · exact fun _ d => ⟨hstart d,hsole d⟩
  · intro hne d
    refine ⟨((s.servers name).held d).length,le_rfl,?_,hstart d,hsole d,?_⟩
    · change _ = lastOf (((s.servers name).held d).take _)
      rw [take_length]
      exact hcaught.resolve_left hne d
    · intro seq hlo hhi _
      exact absurd hhi (Nat.not_le.mpr hlo)

theorem write_judgeable (hs : s.Judgeable serverID) (d : UInt32)
    (hlen : (s.surviving d).length+1<2^64) :
    (s.set s.primary ((s.servers s.primary).write d (serverID s.primary))).Judgeable serverID := by
  constructor
  · intro name d'
    by_cases hname : name=s.primary
    · subst hname
      rw [set_servers_same]
      exact History.length_write_lt _ d _ _ hlen (hs.bounded _) d'
    · rw [set_servers_of_ne _ _ _ hname]
      exact hs.bounded name d'
  · refine hs.tracked.imp id fun ⟨rs,r,newest,h⟩ => ?_
    refine ⟨rs,r,newest,h.last,h.records,h.chain,h.server,?_,?_⟩
    · intro hname d'
      have hset := h.settled hname d'
      simp only [surviving,set_primary,set_servers_same,Server.write] at hname hset ⊢
      by_cases hd : d'=d
      · subst hd
        have hserver : (r.within d').serverID=serverID s.primary := by
          rw [← hname]
          exact h.server
        rw [History.write_same,← hserver]
        exact hset.write
      · rwa [History.write_of_ne _ _ hd]
    · intro hname d'
      have hpend := h.pending hname d'
      simp only [surviving,set_primary,set_servers_same,Server.write] at hpend ⊢
      by_cases hd : d'=d
      · subst hd
        rw [History.write_same]
        exact hpend.write
      · rwa [History.write_of_ne _ _ hd]

theorem apply_judgeable (hs : s.Judgeable serverID) {name : String} {d : UInt32} (author : UInt32)
    (hname : name≠s.primary)
    (hlen : ((s.servers name).held d).length<(s.surviving d).length) :
    (s.set name ((s.servers name).apply d author)).Judgeable serverID := by
  constructor
  · intro other d'
    by_cases hother : other=name
    · subst hother
      rw [set_servers_same]
      apply History.length_write_lt _ d _ _ _ (hs.bounded _)
      exact lt_of_le_of_lt hlen (hs.bounded s.primary d)
    · rw [set_servers_of_ne _ _ _ hother]
      exact hs.bounded other d'
  · refine hs.tracked.imp id fun ⟨rs,r,newest,h⟩ => ?_
    refine ⟨rs,r,newest,h.last,h.records,h.chain,h.server,?_,?_⟩
    · intro hn d'
      rw [surviving,set_primary,set_servers_of_ne _ _ _ hname.symm]
      exact h.settled hn d'
    · intro hn d'
      rw [surviving,set_primary,set_servers_of_ne _ _ _ hname.symm]
      exact h.pending hn d'

theorem step_judgeable (s : Fleet) (a : Event) (s' : Fleet) (h : step serverID s a=some s')
    (hf : Faithful serverID s a s' ∧ Orderly s a s') (hs : s.Judgeable serverID) :
    s'.Judgeable serverID := by
  cases a with
  | writes d =>
    rw [step] at h
    split at h
    · rename_i hlen
      cases h
      exact write_judgeable hs d hlen
    · cases h
  | applies name d =>
    simp only [step] at h
    split at h
    · rename_i hg
      obtain ⟨author,hauthor,rfl⟩ := Option.map_eq_some_iff.mp h
      exact apply_judgeable hs author hg.1 (List.getElem?_eq_some_iff.mp hauthor).1
    · cases h
  | promotes name =>
    cases h
    exact promote_judgeable hs name hf.1 hf.2
  | observes c o =>
    cases h
    obtain ⟨hflavor,hrep,harch,htrue⟩ := hf.1
    exact observe_judgeable hs _ o rfl hflavor hrep harch htrue

end

def unobserved (servers : String → Server) (primary : String) : Fleet := ⟨servers,primary,[]⟩

theorem Tracked.judged {serverID : String → UInt32} {s : Fleet} {rs : List Takeover} {r : Takeover}
    {newest : StatusEpoch} (h : s.Tracked serverID rs r newest) (d : UInt32) :
    ∃ view,domain (toEngineTimeline s.timeline) d=some view ∧ Ascending view ∧
      ∀ first∈view.head?,∀ g : MariaEntry,first.start<g.seq →
        (verdict (toEngineTimeline s.timeline) d g).isSome=true := by
  have hasc : Ascending ((rs++[r]).map (·.within d)) := by
    rw [Ascending,isChain_map]
    exact h.chain.imp fun _ _ hf => (hf d).1
  have hdom := domain_recorded h.records d
  rw [if_pos hasc] at hdom
  refine ⟨_,hdom,hasc,fun first hfirst g hlt => ?_⟩
  rw [verdict_eq_judgeView _ _ _ hdom]
  apply judgeView_isSome g _ _ first hfirst hlt
  rw [isChain_map]
  exact h.chain.imp fun _ _ hf => (hf d).2

/-- Over every orderly run, with any primaries left unobserved that wrote nothing: no handoff goes
back, and everything past the first has a verdict. -/
theorem orderly_timeline_judgeable (serverID : String → UInt32) (servers : String → Server)
    (primary : String) (hfits : ∀ name d,((servers name).held d).length<2^64)
    (events : List Event) (s : Fleet)
    (horderly : Along (step serverID) (fun s a s' => Faithful serverID s a s' ∧ Orderly s a s')
      (unobserved servers primary) events)
    (hrun : exec (step serverID) (unobserved servers primary) events=some s) (d : UInt32) :
    ∃ view,domain (toEngineTimeline s.timeline) d=some view ∧ Ascending view ∧
      ∀ first∈view.head?,∀ g : MariaEntry,first.start<g.seq →
        (verdict (toEngineTimeline s.timeline) d g).isSome=true := by
  have hs : s.Judgeable serverID := exec_invariant step_judgeable horderly hrun ⟨hfits,.inl rfl⟩
  cases hs.tracked with
  | inl ht => exact ⟨[],by rw [ht]; rfl,isChain_nil,by simp⟩
  | inr h =>
    obtain ⟨rs,r,newest,h⟩ := h
    exact h.judged d

def Sole (servers : String → Server) : Prop :=
  ∀ name d,d≠0 → (servers name).held d=[] ∧ (servers name).slavePos d=none

theorem Sole.update {servers : String → Server} (h : Sole servers) (name : String)
    (server : Server) (hs : ∀ d,d≠0 → server.held d=[] ∧ server.slavePos d=none) :
    Sole (Function.update servers name server) := by
  intro other d hd
  by_cases hname : other=name
  · subst hname
    simpa using hs d hd
  · simpa [hname] using h other d hd

theorem Sole.write {servers : String → Server} (h : Sole servers) (name : String)
    (author : UInt32) : Sole (Function.update servers name ((servers name).write 0 author)) := by
  apply h.update
  intro d hd
  simpa [Server.write,History.write_of_ne _ _ hd] using h name d hd

theorem Sole.apply {servers : String → Server} (h : Sole servers) (name : String)
    (author : UInt32) : Sole (Function.update servers name ((servers name).apply 0 author)) := by
  apply h.update
  intro d hd
  simpa [Server.apply,History.write_of_ne _ _ hd,hd] using h name d hd

variable {s s' : Fleet} (name : String)

theorem promotes_faithful (h : Sole s.servers) (h0 : (s.servers name).held 0 <+: s.surviving 0) :
    Faithful demoServers s (.promotes name) s' := by
  intro d
  by_cases hd : d=0
  · subst hd
    exact h0
  · rw [(h name d hd).1]
    exact nil_prefix

theorem seen_faithful (slavePos executed : String) (h : Sole s.servers) (hname : name=s.primary)
    (hslave : readsSole slavePos ((s.servers s.primary).slavePos 0)=true)
    (hexec : readsSole executed (s.surviving.last 0)=true) :
    Faithful demoServers s (.observes {} (seen name slavePos executed)) s' := by
  refine ⟨rfl,rfl,fun _ => archivedTimeline_seen _ _ _ _,fun status hst _ => ?_⟩
  simp only [seen,AList.lookup_insert] at hst
  cases hst
  subst hname
  refine ⟨rfl,rfl,reads_of_sole _ _ (fun d hd => (h _ d hd).2) hslave,
    reads_of_sole _ _ (fun d hd => ?_) hexec⟩
  rw [History.last,surviving,(h _ d hd).1,lastOf_nil]

theorem promotes_orderly (newest : StatusEpoch) (handoff : Option MariaEntry) (h : Sole s.servers)
    (hlast : s.timeline.getLast?=some newest) (hreads : readsSole newest.handoff handoff=true)
    (hholds : ((handoff.map (·.seq.toNat)).getD 0)≤((s.servers name).held 0).length)
    (hcaught : (s.servers name).slavePos 0=(s.servers name).held.last 0)
    (hrec : newest.instanceName=s.primary) : Orderly s (.promotes name) s' := by
  intro n hn
  cases hlast.symm.trans hn
  refine ⟨fun p hp d => ?_,.inr fun d => ?_,.inl hrec⟩
  · have hr : Reads newest.handoff fun d => if d=0 then handoff else none :=
      reads_of_sole _ _ (fun d hd => if_neg hd) (by simpa using hreads)
    obtain ⟨q,hq,hlookup⟩ := hr
    cases hp.symm.trans hq
    rw [MariaPos.reached,hlookup d]
    by_cases hd : d=0
    · simpa [hd] using hholds
    · simp [hd]
  · by_cases hd : d=0
    · rw [hd,hcaught]
    · rw [(h name d hd).2,History.last,(h name d hd).1,lastOf_nil]

def fresh (_ : String) : Server := ⟨fun _ => [],fun _ => none⟩

def idleSwitchover : List Event := [
  .observes {} (seen "demo-1" "" ""),.writes 0,.applies "demo-2" 0,
  .promotes "demo-2",.observes {} (seen "demo-2" "0-1-1" "0-1-1"),
  .promotes "demo-1",.observes {} (seen "demo-1" "" "0-1-1")]

/-- Its `gtid_slave_pos` shows nothing when it returns, so its second handoff goes back and the
domain is never judged again. -/
theorem idleSwitchover_unjudgeable :
    Along (step demoServers) (Faithful demoServers) (unobserved fresh "demo-1") idleSwitchover ∧
      ∃ s,exec (step demoServers) (unobserved fresh "demo-1") idleSwitchover=some s ∧
        domain (toEngineTimeline s.timeline) 0=none := by
  have h0 : Sole fresh := fun _ _ _ => ⟨rfl,rfl⟩
  have h1 := (h0.write "demo-1" 1).apply "demo-2" 1
  constructor
  · apply Along.cons rfl
    · exact seen_faithful "demo-1" "" "" h0 rfl (by decide +kernel) (by decide +kernel)
    apply Along.cons rfl trivial
    apply Along.cons rfl trivial
    apply Along.cons rfl
    · exact promotes_faithful "demo-2" h1 (by decide +kernel)
    apply Along.cons rfl
    · exact seen_faithful "demo-2" "0-1-1" "0-1-1" h1 rfl (by decide +kernel) (by decide +kernel)
    apply Along.cons rfl
    · exact promotes_faithful "demo-1" h1 (by decide +kernel)
    apply Along.cons rfl
    · exact seen_faithful "demo-1" "" "0-1-1" h1 rfl (by decide +kernel) (by decide +kernel)
    trivial
  · refine ⟨_,rfl,?_⟩
    decide +kernel

/-- The second primary writes, the first applies it and takes over again. -/
def orderlySwitchover : List Event := [
  .observes {} (seen "demo-1" "" ""),.writes 0,.applies "demo-2" 0,
  .promotes "demo-2",.observes {} (seen "demo-2" "0-1-1" "0-1-1"),.writes 0,.applies "demo-1" 0,
  .promotes "demo-1",.observes {} (seen "demo-1" "0-2-2" "0-2-2")]

theorem orderly_timeline_judgeable_switchover :
    ∃ s,exec (step demoServers) (unobserved fresh "demo-1") orderlySwitchover=some s ∧
      ∃ view,domain (toEngineTimeline s.timeline) 0=some view ∧ Ascending view ∧
        ∀ first∈view.head?,∀ g : MariaEntry,first.start<g.seq →
          (verdict (toEngineTimeline s.timeline) 0 g).isSome=true := by
  refine ⟨_,rfl,orderly_timeline_judgeable demoServers fresh "demo-1" ?_ orderlySwitchover _ ?_
    rfl 0⟩
  · intro name d
    simp [fresh]
  · have h0 : Sole fresh := fun _ _ _ => ⟨rfl,rfl⟩
    have h1 := (h0.write "demo-1" 1).apply "demo-2" 1
    have h2 := (h1.write "demo-2" 2).apply "demo-1" 2
    apply Along.cons rfl
    · exact ⟨seen_faithful "demo-1" "" "" h0 rfl (by decide +kernel) (by decide +kernel),trivial⟩
    apply Along.cons rfl ⟨trivial,trivial⟩
    apply Along.cons rfl ⟨trivial,trivial⟩
    apply Along.cons rfl
    · refine ⟨promotes_faithful "demo-2" h1 (by decide +kernel),?_⟩
      exact promotes_orderly "demo-2" ⟨"demo-1",1,""⟩ none h1 rfl (by decide +kernel)
        (by decide +kernel) (by decide +kernel) rfl
    apply Along.cons rfl
    · exact ⟨seen_faithful "demo-2" "0-1-1" "0-1-1" h1 rfl (by decide +kernel)
        (by decide +kernel),trivial⟩
    apply Along.cons rfl ⟨trivial,trivial⟩
    apply Along.cons rfl ⟨trivial,trivial⟩
    apply Along.cons rfl
    · refine ⟨promotes_faithful "demo-1" h2 (by decide +kernel),?_⟩
      exact promotes_orderly "demo-1" ⟨"demo-2",2,"0-1-1"⟩ (some ⟨1,1⟩) h2 rfl
        (by decide +kernel) (by decide +kernel) (by decide +kernel) rfl
    apply Along.cons rfl
    · exact ⟨seen_faithful "demo-1" "0-2-2" "0-2-2" h2 rfl (by decide +kernel)
        (by decide +kernel),trivial⟩
    trivial

end Fleet

end Cnmsql.Controller
