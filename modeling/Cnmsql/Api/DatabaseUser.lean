import Cnmsql.Engine.Grants

namespace Cnmsql.Api

open Framework Engine List

inductive EnsureOption where
  | present
  | absent
  deriving DecidableEq

structure SecretKeySelector where
  name : String
  key : String
  deriving DecidableEq

structure DatabaseUserGrant where
  privileges : List String
  on : String := ""
  deriving DecidableEq

structure DatabaseUserRevoke where
  privileges : List String
  on : String
  deriving DecidableEq

structure ResourceLimits where
  maxUserConnections : Nat := 0
  maxQueriesPerHour : Nat := 0
  maxUpdatesPerHour : Nat := 0
  maxConnectionsPerHour : Nat := 0
  deriving DecidableEq

/-- A DatabaseUser: its name, its spec and whether the adopt annotation is set. -/
structure DatabaseUser where
  name : String
  specName : String := ""
  host : String := ""
  ensure : EnsureOption := .present
  passwordSecret : Option SecretKeySelector := none
  superuser : Bool := false
  limits : ResourceLimits := {}
  requireTLS : String := ""
  grants : List DatabaseUserGrant := []
  revokes : List DatabaseUserRevoke := []
  reclaimPolicy : String := ""
  driftDetection : Option Bool := none
  adoptRequested : Bool := false
  deriving DecidableEq

structure FieldError where
  path : String
  detail : String
  deriving DecidableEq

/-- The cluster-control privileges that a DatabaseUser must never be granted. -/
def deniedDynamicPrivileges : List String :=
  ["replication_slave_admin","replication_applier","group_replication_admin",
    "group_replication_stream","system_variables_admin","connection_admin",
    "service_connection_admin","persist_ro_variables_admin","binlog_admin",
    "binlog_encryption_admin","clone_admin","super","shutdown","file",
    "group_replication_flow_control_admin"]

def isReservedRoleName (name : String) : Bool :=
  name = "root" ∨ "mysql.".toList.isPrefixOf name.toList ∨ "cnmsql_".toList.isPrefixOf name.toList

def isGlobalGrantTarget (on : String) : Except String Bool :=
  if on = "" then .ok true else (parseGrantTarget on).map (·.isGlobal)

namespace DatabaseUser

def userName (u : DatabaseUser) : String := if u.specName ≠ "" then u.specName else u.name

variable [CaseMapping] [UpperMapping]

/-- What `Validate` says about one privilege of a grant. -/
def validatePrivilege (path : String) (isGlobal : Bool) (priv : String) : List FieldError :=
  match normalizePrivilegeName priv with
  | .error e => [⟨path ++ ".privileges",e⟩]
  | .ok name =>
    (if toLower name∈deniedDynamicPrivileges then
      [⟨path ++ ".privileges",
        "privilege is denied: it would let the user break replication, fencing, or operator accounts"⟩]
    else []) ++
    (if isGlobal ∧ (name = "ALL" ∨ name = "ALL PRIVILEGES") then
      [⟨path ++ ".privileges","ALL on *.* is not allowed: it grants every dynamic admin privilege; " ++
        "enumerate data privileges, scope ALL to a database (db.*), or set superuser=true"⟩]
    else [])

def validateGrant (path : String) (g : DatabaseUserGrant) : List FieldError :=
  match isGlobalGrantTarget g.on with
  | .error e => ⟨path ++ ".on",e⟩::g.privileges.flatMap (validatePrivilege path false)
  | .ok isGlobal => g.privileges.flatMap (validatePrivilege path isGlobal)

def validateRevoke (path : String) (r : DatabaseUserRevoke) : List FieldError :=
  (if r.on = "" then
    [⟨path ++ ".on","a revoke must name the target to carve out (e.g. mysql.*)"⟩]
  else
    match parseGrantTarget r.on with
    | .error e => [⟨path ++ ".on",e⟩]
    | .ok _ => []) ++
  (if r.privileges=[] then
    [⟨path ++ ".privileges","a revoke must list at least one privilege"⟩]
  else []) ++
  r.privileges.flatMap fun priv =>
    match normalizePrivilegeName priv with
    | .error e => [⟨path ++ ".privileges",e⟩]
    | .ok _ => []

def validate (u : DatabaseUser) : List FieldError :=
  (if u.userName = "" then [⟨"spec.name","user name is required"⟩]
  else if isReservedRoleName u.userName then
    [⟨"spec.name","user name is reserved (root, mysql.*, cnmsql_*)"⟩]
  else []) ++
  (if u.host = "" then [⟨"spec.host","user host is required"⟩] else []) ++
  (if u.superuser ∧ u.grants≠[] then
    [⟨"spec.grants","grants cannot be set when superuser is true"⟩]
  else []) ++
  (if u.requireTLS∈["","none","ssl","x509"] then []
  else [⟨"spec.requireTLS","requireTLS must be one of none, ssl, x509"⟩]) ++
  (u.grants.zipIdx.flatMap fun (g,i) => validateGrant ("spec.grants[" ++ toString i ++ "]") g) ++
  (u.revokes.zipIdx.flatMap fun (r,i) => validateRevoke ("spec.revokes[" ++ toString i ++ "]") r)

variable {g : DatabaseUserGrant} {u : DatabaseUser}

omit [CaseMapping] [UpperMapping] in
theorem exists_entry_eq_nil {α β : Type} {f : α × Nat → List β} {l : List α}
    (h : l.zipIdx.flatMap f=[]) {x : α} (hx : x∈l) : ∃ i,f (x, i)=[] := by
  obtain ⟨i,hi⟩ := mem_iff_getElem?.mp hx
  exact ⟨i,flatMap_eq_nil_iff.mp h (x,i) (mem_zipIdx_iff_getElem?.mpr hi)⟩

theorem grant_of_validate (h : u.validate=[]) (hg : g∈u.grants) :
    ∃ isGlobal,isGlobalGrantTarget g.on = .ok isGlobal ∧ ∀ priv∈g.privileges,
      ∃ name,normalizePrivilegeName priv = .ok name ∧ toLower name∉deniedDynamicPrivileges ∧
        ¬(isGlobal=true ∧ (name = "ALL" ∨ name = "ALL PRIVILEGES")) := by
  simp only [validate,append_eq_nil_iff] at h
  obtain ⟨i,hfine⟩ := exists_entry_eq_nil h.1.2 hg
  simp only [validateGrant] at hfine
  split at hfine
  · cases hfine
  rename_i isGlobal htarget
  refine ⟨isGlobal,htarget,fun priv hpriv => ?_⟩
  have hpriv := flatMap_eq_nil_iff.mp hfine priv hpriv
  unfold validatePrivilege at hpriv
  split at hpriv
  · cases hpriv
  rename_i name hname
  obtain ⟨hdenied,hall⟩ := append_eq_nil_iff.mp hpriv
  refine ⟨name,hname,?_,?_⟩
  · intro hmem
    rw [if_pos hmem] at hdenied
    cases hdenied
  · intro hglobal
    rw [if_pos hglobal] at hall
    cases hall

theorem revoke_of_validate (h : u.validate=[]) {r : DatabaseUserRevoke} (hr : r∈u.revokes) :
    r.on ≠ "" ∧ (∃ target,parseGrantTarget r.on = .ok target) ∧ r.privileges≠[] ∧
      ∀ priv∈r.privileges,∃ name,normalizePrivilegeName priv = .ok name := by
  simp only [validate,append_eq_nil_iff] at h
  obtain ⟨i,hfine⟩ := exists_entry_eq_nil h.2 hr
  simp only [validateRevoke,append_eq_nil_iff,flatMap_eq_nil_iff] at hfine
  obtain ⟨⟨htarget,hne⟩,hnames⟩ := hfine
  split at htarget
  · cases htarget
  rename_i hon
  split at htarget
  · cases htarget
  rename_i target hparse
  refine ⟨hon,⟨target,hparse⟩,?_,?_⟩
  · intro hnil
    rw [if_pos hnil] at hne
    cases hne
  · intro priv hpriv
    have hfine := hnames priv hpriv
    split at hfine
    · cases hfine
    · rename_i name hname
      exact ⟨name,hname⟩

end DatabaseUser

end Cnmsql.Api
