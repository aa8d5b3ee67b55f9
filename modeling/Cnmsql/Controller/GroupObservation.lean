import Cnmsql.Controller.Quorum

namespace Cnmsql.Controller.GroupReplication

open Framework Api List

/-- One row of a member's view of the group. -/
structure GroupReplicationMember where
  memberID : String
  state : String
  role : String
  deriving DecidableEq

/-- What an instance reports of its group. -/
structure GroupReplicationMemberStatus where
  memberID : String
  state : String
  viewID : String := ""
  communicationProtocol : String := ""
  members : List GroupReplicationMember
  deriving DecidableEq

abbrev Report := Σ _ : String,GroupReplicationMemberStatus

/-- The instances, and the group each of them reports. -/
structure GroupReports where
  instanceNames : List String
  statusByInstance : Map String GroupReplicationMemberStatus
  configuredMembers : Int
  observedViewMax : Int
  named : ∀ r∈statusByInstance.entries,r.1 ≠ ""

/-- How many members of a view are ONLINE, and the one PRIMARY among them; a second PRIMARY ends the
pass with none. -/
def scanMembers (onlineCount : Nat) (primaryID : String) :
    List GroupReplicationMember → Nat × String
  | [] => (onlineCount,primaryID)
  | m::rest =>
    if m.state=memberStateOnline then
      if m.role=memberRolePrimary then
        if primaryID ≠ "" then (onlineCount+1, "") else scanMembers (onlineCount+1) m.memberID rest
      else scanMembers (onlineCount+1) primaryID rest
    else scanMembers onlineCount primaryID rest

def elects (group : GroupReplicationMemberStatus) : String := (scanMembers 0 "" group.members).2

def quorumDenominator (configured observedMax currentMax : Int) : Int :=
  if 0<observedMax ∧ configured≤observedMax then observedMax else currentMax

def uuidToInstance (reports : List Report) (id : String) : String :=
  -- the last report of an id overwrites the others
  ((reports.reverse.find? fun r => r.2.memberID ≠ "" ∧ r.2.memberID=id).map (·.1)).getD ""

namespace GroupReports

variable (input : GroupReports)

/-- The reports of ONLINE instances with a quorate view, in order. -/
def views : List GroupReplicationMemberStatus :=
  (input.instanceNames.filterMap input.statusByInstance.lookup).filter fun group =>
    group.state=memberStateOnline ∧ group.members.length<(scanMembers 0 "" group.members).1*2

def primaryVotes (id : String) : Nat :=
  if id = "" then 0 else input.views.countP fun group => elects group=id

def maxViewMembers : Nat := input.views.foldl (fun n group => max n group.members.length) 0

/-- The orders in which one run walks its two maps. -/
structure Walk where
  reports : List Report
  candidates : List String
  perm : reports.Perm input.statusByInstance.entries
  nodup : candidates.Nodup
  voted : ∀ id,id∈candidates ↔ 0 < input.primaryVotes id

end GroupReports

open GroupReports

variable {input : GroupReports}

def elected (w : Walk input) : String :=
  (w.candidates.find? fun id => input.maxViewMembers < input.primaryVotes id*2).getD ""

def observeGroup (input : GroupReports) (w : Walk input) : Option GroupReplicationStatus × String :=
  match input.views with
  | [] => (none, "")
  | view::_ =>
    let primary := uuidToInstance w.reports (elected w)
    let online : Int := view.members.countP (·.state=memberStateOnline)
    (some
      { primaryMember := primary
        members := view.members.map fun m =>
          ⟨uuidToInstance w.reports m.memberID,m.state,m.role,m.state ≠ "UNREACHABLE"⟩
        viewID := view.viewID
        communicationProtocol := view.communicationProtocol
        hasQuorum := quorumDenominator input.configuredMembers input.observedViewMax
          input.maxViewMembers<online*2
        observedViewMax := input.maxViewMembers
        observedOnlineMax := online },primary)

/-- The observed group is one coherent view, whatever the order of the maps. -/
structure Coherent (input : GroupReports) : Prop where
  one : ∀ a b,input.maxViewMembers < input.primaryVotes a*2 →
    input.maxViewMembers < input.primaryVotes b*2 → a=b
  order : ∀ w w' : Walk input,(observeGroup input w).2=(observeGroup input w').2
  listed : ∀ (w : Walk input) status primary,observeGroup input w=(some status,primary) →
    primary ≠ "" → ∃ m∈status.members,
      m.instanceName=primary ∧ m.state=memberStateOnline ∧ m.role=memberRolePrimary

/-- The reports speak of one group: there are no more of them than the largest view has members, no
two instances claim one member id, and nobody has more votes than the member the first view elects. -/
structure OneGroup (input : GroupReports) : Prop where
  fits : input.views.length ≤ input.maxViewMembers
  distinct : ∀ r∈input.statusByInstance.entries,∀ r'∈input.statusByInstance.entries,
    r.2.memberID ≠ "" → r.2.memberID=r'.2.memberID → r.1=r'.1
  first : ∀ first∈input.views.head?,∀ view∈input.views,
    input.primaryVotes (elects view) ≤ input.primaryVotes (elects first)

/-- The member a pass ends with is one of those it has read, or the one it began with. -/
theorem scanMembers_primary {id : String} (hid : id ≠ "") (members : List GroupReplicationMember)
    (n : Nat) (p : String) (h : (scanMembers n p members).2=id) :
    p=id ∨ ∃ m∈members,m.memberID=id ∧ m.state=memberStateOnline ∧ m.role=memberRolePrimary := by
  induction members generalizing n p with
  | nil => exact .inl h
  | cons m rest ih =>
    have later : ∀ k q,(scanMembers k q rest).2=id → q=id ∨ ∃ m'∈m::rest,
        m'.memberID=id ∧ m'.state=memberStateOnline ∧ m'.role=memberRolePrimary := by
      intro k q hrest
      refine (ih k q hrest).imp_right ?_
      rintro ⟨m',hm',hrow⟩
      exact ⟨m',mem_cons_of_mem m hm',hrow⟩
    rw [scanMembers] at h
    split_ifs at h with honline hrole hp
    · exact absurd h.symm hid
    · cases later _ _ h with
      | inl heq => exact .inr ⟨m,mem_cons_self,heq,honline,hrole⟩
      | inr hrow => exact .inr hrow
    · exact later _ _ h
    · exact later _ _ h

theorem exists_voter {id : String} (h : 0 < input.primaryVotes id) :
    id ≠ "" ∧ ∃ view∈input.views,elects view=id := by
  rw [primaryVotes] at h
  split_ifs at h with hid
  · omega
  · obtain ⟨view,hv,he⟩ := countP_pos_iff.mp h
    exact ⟨hid,view,hv,by simpa using he⟩

/-- A view votes for one member only. -/
theorem primaryVotes_add_le (input : GroupReports) {a b : String} (hne : a ≠ b) :
    input.primaryVotes a+input.primaryVotes b ≤ input.views.length := by
  have hcount : ∀ views : List GroupReplicationMemberStatus,
      views.countP (elects ·=a)+views.countP (elects ·=b)≤views.length := by
    intro views
    induction views with
    | nil => simp
    | cons view views ih =>
      simp only [countP_cons,length_cons,decide_eq_true_eq]
      split_ifs with ha hb
      · exact absurd (ha.symm.trans hb) hne
      all_goals omega
  have hviews := hcount input.views
  simp only [primaryVotes]
  split_ifs
  all_goals omega

theorem elected_cases (w : Walk input) :
    input.maxViewMembers < input.primaryVotes (elected w)*2 ∨
      elected w = "" ∧ ∀ id,input.primaryVotes id*2 ≤ input.maxViewMembers := by
  rw [elected]
  cases h : w.candidates.find? _ with
  | none =>
    refine .inr ⟨rfl,?_⟩
    intro id
    by_contra hvotes
    have hnone := List.find?_eq_none.mp h id ((w.voted id).mpr (by omega))
    exact hvotes (by simpa using hnone)
  | some id => exact .inl (by simpa using List.find?_some h)

theorem uuidToInstance_cases (w : Walk input) (id : String) :
    (∃ r∈input.statusByInstance.entries,r.2.memberID=id ∧ id ≠ "" ∧
      uuidToInstance w.reports id=r.1) ∨
    uuidToInstance w.reports id = "" ∧
      ∀ r∈input.statusByInstance.entries, r.2.memberID=id → id = "" := by
  rw [uuidToInstance]
  cases h : w.reports.reverse.find? _ with
  | none =>
    refine .inr ⟨rfl,?_⟩
    intro r hr heq
    have hnone := List.find?_eq_none.mp h r (by simpa using w.perm.mem_iff.mpr hr)
    simpa [heq] using hnone
  | some r =>
    have hr := List.find?_some h
    have hmem := mem_of_find?_eq_some h
    rw [mem_reverse,w.perm.mem_iff] at hmem
    simp only [ne_eq,decide_eq_true_eq] at hr
    exact .inl ⟨r,hmem,hr.2,hr.2 ▸ hr.1,rfl⟩

namespace OneGroup

variable (h : OneGroup input)

include h

/-- More than half of the largest view is more than half of the votes there are. -/
theorem majority_unique {a b : String} (ha : input.maxViewMembers < input.primaryVotes a*2)
    (hb : input.maxViewMembers < input.primaryVotes b*2) : a=b := by
  by_contra hne
  have hsum := primaryVotes_add_le input hne
  have hfits := h.fits
  omega

theorem elects_first {a : String} (ha : input.maxViewMembers < input.primaryVotes a*2)
    (view : GroupReplicationMemberStatus) (hview : view∈input.views.head?) : elects view=a := by
  obtain ⟨_,voter,hvoter,rfl⟩ := exists_voter (by omega : 0 < input.primaryVotes a)
  have hmost := h.first view hview voter hvoter
  exact h.majority_unique (by omega) ha

theorem uuidToInstance_eq (w w' : Walk input) (id : String) :
    uuidToInstance w.reports id=uuidToInstance w'.reports id := by
  cases uuidToInstance_cases w id with
  | inl hfound =>
    obtain ⟨r,hr,hid,hne,heq⟩ := hfound
    cases uuidToInstance_cases w' id with
    | inl hfound' =>
      obtain ⟨r',hr',hid',_,heq'⟩ := hfound'
      rw [heq,heq',h.distinct r hr r' hr' (hid ▸ hne) (hid.trans hid'.symm)]
    | inr hnone => exact absurd (hnone.2 r hr hid) hne
  | inr hnone =>
    cases uuidToInstance_cases w' id with
    | inl hfound =>
      obtain ⟨r,hr,hid,hne,_⟩ := hfound
      exact absurd (hnone.2 r hr hid) hne
    | inr hnone' => rw [hnone.1,hnone'.1]

theorem elected_eq (w w' : Walk input) : elected w=elected w' := by
  cases elected_cases w with
  | inl hw =>
    cases elected_cases w' with
    | inl hw' => exact h.majority_unique hw hw'
    | inr hnone => exact absurd (hnone.2 (elected w)) (by omega)
  | inr hnone =>
    cases elected_cases w' with
    | inl hw' => exact absurd (hnone.2 (elected w')) (by omega)
    | inr hnone' => rw [hnone.1,hnone'.1]

end OneGroup

/-- Reports that speak of one group are observed as one view. -/
theorem coherent_of_oneGroup (input : GroupReports) (h : OneGroup input) : Coherent input := by
  constructor
  · intro a b ha hb
    exact h.majority_unique ha hb
  · intro w w'
    cases hviews : input.views with
    | nil => simp [observeGroup,hviews]
    | cons view rest => simp [observeGroup,hviews,h.elected_eq w w',h.uuidToInstance_eq w w']
  · intro w status primary hobs hne
    cases hviews : input.views with
    | nil => simp [observeGroup,hviews] at hobs
    | cons view rest =>
      simp only [observeGroup,hviews,Prod.mk.injEq,Option.some.injEq] at hobs
      obtain ⟨rfl,rfl⟩ := hobs
      have hid : elected w ≠ "" := by
        cases uuidToInstance_cases w (elected w) with
        | inl hfound => exact hfound.choose_spec.2.2.1
        | inr hnone => exact absurd hnone.1 hne
      -- the first view elects the member with the majority, so it lists it
      have hmost := (elected_cases w).resolve_right fun hnone => hid hnone.1
      have hfirst := h.elects_first hmost view (by simp [hviews])
      obtain heq | ⟨m,hm,hmid,honline,hrole⟩ := scanMembers_primary hid view.members 0 "" hfirst
      · exact absurd heq.symm hid
      · exact ⟨_,mem_map.mpr ⟨m,hm,rfl⟩,congrArg (uuidToInstance w.reports) hmid,honline,hrole⟩

/-- What a member of a group of three reports, led by `a` and after a switchover by `b`. -/
def oneOfThree (id : String) (switched : Bool) : GroupReplicationMemberStatus where
  memberID := id
  state := memberStateOnline
  members :=
    [⟨"a",memberStateOnline,if switched then "SECONDARY" else memberRolePrimary⟩,
     ⟨"b",memberStateOnline,if switched then memberRolePrimary else "SECONDARY"⟩,
     ⟨"c",memberStateOnline,"SECONDARY"⟩]

/-- Three members of one group, of which the last has seen a switchover the others have not. -/
def switching : GroupReports where
  instanceNames := ["db-1", "db-2", "db-3"]
  statusByInstance := (((∅ : Map _ _).insert "db-1" (oneOfThree "a" false)).insert "db-2"
    (oneOfThree "b" false)).insert "db-3" (oneOfThree "c" true)
  configuredMembers := 3
  observedViewMax := 3
  named := by decide

theorem coherent_switching : Coherent switching :=
  coherent_of_oneGroup switching ⟨by decide,by decide,by decide⟩

def lone (id : String) : GroupReplicationMemberStatus where
  memberID := id
  state := memberStateOnline
  members := [⟨id,memberStateOnline,memberRolePrimary⟩]

/-- Two instances, each alone in a group it bootstrapped. -/
def twoGroups : GroupReports where
  instanceNames := ["db-1", "db-2"]
  statusByInstance := ((∅ : Map _ _).insert "db-1" (lone "a")).insert "db-2" (lone "b")
  configuredMembers := 3
  observedViewMax := 3
  named := by decide

/-- Either group elects its own member with more than half of the largest view. -/
theorem twoGroups_incoherent : ¬Coherent twoGroups := by
  intro h
  have hsame : "a" = "b" := h.one "a" "b" (by decide) (by decide)
  exact absurd hsame (by decide)

end Cnmsql.Controller.GroupReplication
