import Cnmsql.Instance.UserStatements

namespace Cnmsql.Controller

open Framework Engine Api Instance List
open Binlog (trimSpace)

section

variable [CaseMapping] [UpperMapping]

def toUpper (s : List Char) : List Char := s.map UpperMapping.upper

/-- What stands before the first occurrence of `sep`, and what after it. -/
def cutAt (sep : List Char) : List Char → Option (List Char × List Char)
  | [] => if sep=[] then some ([],[]) else none
  | c::s =>
    if sep.isPrefixOf (c::s) then some ([],(c::s).drop sep.length)
    else (cutAt sep s).map fun (before,after) => (c::before,after)

def cutAtUpper (sep : String) (s : List Char) : Option (List Char × List Char) :=
  (cutAt sep.toList (toUpper s)).map fun (before,_) =>
    (s.take before.length,s.drop (before.length+sep.toList.length))

def normalizeGrantTarget (target : String) : String :=
  toLower (String.ofList (target.toList.filter (· ≠ '\x60')))

def grantToken (priv target : String) : String :=
  toLower (String.ofList (trimSpace priv.toList)) ++ "@" ++ normalizeGrantTarget target

def parseGrantTokens (grant : String) : List String :=
  let line := grant.toList
  match cutAtUpper " ON " line with
  | none => []
  | some (before,rest) =>
    if ("GRANT ".toList).isPrefixOf (toUpper (trimSpace line)) then
      match cutAtUpper " TO " (trimSpace rest) with
      | none => []
      | some (target,_) =>
        (trimSpace (before.drop "GRANT ".length)).splitOn ',' |>.map fun p =>
          grantToken (String.ofList p) (String.ofList (trimSpace target))
    else []

def parseRevokeTokens (line : String) : List String :=
  let upper := toUpper (trimSpace line.toList)
  if ¬("REVOKE ".toList).isPrefixOf upper then []
  else
    match cutAtUpper " ON " upper with
    | none => []
    | some (before,rest) =>
      match cutAt " FROM ".toList (trimSpace rest) with
      | none => []
      | some (target,_) =>
        (trimSpace (before.drop "REVOKE ".length)).splitOn ',' |>.map fun p =>
          grantToken (String.ofList p) (String.ofList (trimSpace target))

/-- The static privileges that `ALL PRIVILEGES` on `*.*` confers on every server. -/
def mysqlStaticGlobalPrivileges : List String :=
  ["select","insert","update","delete","create","drop","reload","shutdown","process","file",
    "references","index","alter","show databases","super","create temporary tables",
    "lock tables","execute","replication slave","replication client","create view","show view",
    "create routine","alter routine","create user","event","trigger","create tablespace"]

def grantsIncludeAllPrivileges (found : List String) : Bool :=
  "all privileges@*.*" ∈ found ∨ ∀ priv∈mysqlStaticGlobalPrivileges,priv ++ "@*.*" ∈ found

/-- What `ListUsers` says of an account. -/
structure UserInfo where
  account : Account
  limits : ResourceLimits := {}
  requireTLS : String := "none"
  grants : List String := []
  deriving DecidableEq

variable (observed : List String) (du : DatabaseUser)

def duSuperuserSatisfied : Bool :=
  grantsIncludeAllPrivileges ((observed.filter fun g =>
    (cutAt "WITH GRANT OPTION".toList (toUpper g.toList)).isSome).flatMap parseGrantTokens)

def duGrantsSatisfied : Bool :=
  let found := observed.flatMap parseGrantTokens
  if du.superuser then grantsIncludeAllPrivileges found
  else ∀ g∈du.grants,∀ priv∈g.privileges,
    grantToken priv (if g.on = "" then globalGrantTarget else g.on)∈found

def duRevokesSatisfied : Bool :=
  ∀ r∈du.revokes,∀ priv∈r.privileges,
    grantToken priv r.on∈observed.flatMap parseRevokeTokens

def duPrivileges (grants : List DatabaseUserGrant) : List Privilege :=
  grants.map fun g => { privileges := g.privileges, on := if g.on = "" then globalGrantTarget else g.on }

def duRevokes (revokes : List DatabaseUserRevoke) : List Privilege :=
  revokes.map fun r => { privileges := r.privileges, on := r.on }

def normalizeRequireTLS (v : String) : String :=
  if toLower v = "ssl" then "ssl" else if toLower v = "x509" then "x509" else "none"

def defaultHost (host : String) : String := if host = "" then "%" else host

def duAccount : Account := { name := du.userName, host := defaultHost du.host }

def duCreateRequest (password : String) : CreateUserRequest where
  account := duAccount du
  password := password
  superuser := du.superuser
  limits := du.limits
  requireTLS := normalizeRequireTLS du.requireTLS
  privileges := duPrivileges du.grants
  revokes := duRevokes du.revokes

/-- The request that brings the account to the spec, and whether it changes anything. -/
def diffDatabaseUser (current : UserInfo) : AlterUserRequest × Bool :=
  let differs := fun (want found : Nat) => if want≠found then some want else none
  let grantsChanged := !duGrantsSatisfied current.grants du
  let revokesChanged := !duRevokesSatisfied current.grants du
  let superuserChanged := du.superuser && !duSuperuserSatisfied current.grants
  let regrant := grantsChanged || revokesChanged
  let alter : AlterUserRequest :=
    { account := duAccount du
      superuser := if regrant || superuserChanged then some du.superuser else none
      maxUserConnections := differs du.limits.maxUserConnections current.limits.maxUserConnections
      maxQueriesPerHour := differs du.limits.maxQueriesPerHour current.limits.maxQueriesPerHour
      maxUpdatesPerHour := differs du.limits.maxUpdatesPerHour current.limits.maxUpdatesPerHour
      maxConnectionsPerHour := differs du.limits.maxConnectionsPerHour
        current.limits.maxConnectionsPerHour
      requireTLS := if normalizeRequireTLS du.requireTLS≠normalizeRequireTLS current.requireTLS then
        some (normalizeRequireTLS du.requireTLS) else none
      privileges := if regrant then some (duPrivileges du.grants) else none
      revokes := if regrant ∧ (du.revokes≠[] ∨ revokesChanged) then some (duRevokes du.revokes)
        else none }
  (alter, alter≠{ account := duAccount du })

end

section

variable [CaseMapping]

def foldPrivilege (name : String) : String :=
  String.ofList ((toLower name).toList.map fun c => if c = ' ' then '_' else c)

def ClusterControl (name : String) : Prop :=
  foldPrivilege name∈deniedDynamicPrivileges.map foldPrivilege

/-- A statement that hands out no cluster-control privilege, and not everything. -/
def Tame : Statement → Prop
  | .grant privileges target _ _ => (∀ name∈privileges,¬ClusterControl name) ∧
      ¬(target.sql=globalGrantTarget ∧ ("ALL" ∈ privileges ∨ "ALL PRIVILEGES" ∈ privileges))
  | _ => True

def spacedDenied : List String := ["BINLOG ADMIN","CONNECTION ADMIN","REPLICATION SLAVE ADMIN"]

theorem toLower_ascii {s : String} (h : ∀ c∈s.toList,c.val<128) :
    toLower s=String.ofList (s.toList.map Char.toLower) := by
  unfold toLower
  congr 1
  exact map_congr_left fun c hc => CaseMapping.lower_ascii c (h c hc)

variable {name : String} {du : DatabaseUser} {target : GrantTarget}

omit [CaseMapping] in
theorem ascii_of_listed (h : name∈multiWordPrivileges++deniedDynamicPrivileges) :
    ∀ c∈name.toList, c.val<128 := by
  have hall : ((multiWordPrivileges++deniedDynamicPrivileges).all fun name =>
      name.toList.all fun c => decide (c.val<128))=true := by decide +kernel
  intro c hc
  exact of_decide_eq_true (all_eq_true.mp (all_eq_true.mp hall name h) c hc)

theorem map_foldPrivilege_denied :
    deniedDynamicPrivileges.map foldPrivilege=deniedDynamicPrivileges := by
  have hfold : deniedDynamicPrivileges.map foldPrivilege=deniedDynamicPrivileges.map fun name =>
      String.ofList ((name.toList.map Char.toLower).map fun c => if c = ' ' then '_' else c) := by
    apply map_congr_left
    intro name hname
    unfold foldPrivilege
    rw [toLower_ascii (ascii_of_listed (mem_append_right _ hname)),String.toList_ofList]
  rw [hfold]
  decide +kernel

theorem clusterControl_word (h : isPrivilegeWord name.toList=true) :
    ClusterControl name ↔ toLower name∈deniedDynamicPrivileges := by
  have hsame : foldPrivilege name=toLower name := by
    unfold foldPrivilege
    rw [toList_toLower,map_map]
    unfold toLower
    congr 1
    apply map_congr_left
    intro c hc
    apply if_neg
    intro hspace
    exact (isPrivilegeWord_char h hc).1
      (lower_eq_of_not_letter c ' ' (by decide) (by decide) (by decide) hspace)
  rw [ClusterControl,map_foldPrivilege_denied,hsame]

theorem clusterControl_multiWord (h : name∈multiWordPrivileges) :
    ClusterControl name ↔ name∈spacedDenied := by
  rw [ClusterControl,map_foldPrivilege_denied,foldPrivilege,
    toLower_ascii (ascii_of_listed (mem_append_left _ h)),String.toList_ofList]
  revert name
  decide +kernel

variable [UpperMapping]

def BuiltFor (du : DatabaseUser) (stmt : Statement) : Prop :=
  ∃ d stmts,stmt∈stmts ∧
    ((∃ password,createUserStatements (duCreateRequest du password) d = .ok stmts) ∨
      ∃ current password,alterUserStatements { (diffDatabaseUser du current).1 with password } d =
        .ok stmts)

def spelledAround (du : DatabaseUser) : Bool :=
  du.grants.any fun g => g.privileges.any fun priv => String.ofList (spelling priv)∈spacedDenied

theorem grants_of_builtFor (hsuper : du.superuser=false) {names : List String} {a : Account}
    {grantOption : Bool} (h : BuiltFor du (.grant names target a grantOption)) :
    ∃ grants,grantStatements (duAccount du) false (duPrivileges du.grants) = .ok grants ∧
      .grant names target a grantOption∈grants := by
  obtain ⟨d,stmts,hmem,⟨password,hcreate⟩ | ⟨current,password,halter⟩⟩ := h
  · obtain ⟨grants,hgrants,hgrant⟩ := grant_of_createUserStatements hcreate hmem
    simp only [duCreateRequest,hsuper] at hgrants
    exact ⟨grants,hgrants,hgrant⟩
  · rcases grant_of_alterUserStatements halter hmem with ⟨ps,grants,hps,hgrants,hgrant⟩ | ⟨hon,-⟩
    · simp only [diffDatabaseUser,hsuper] at hps hgrants
      split at hps
      · cases hps
        refine ⟨grants,?_,hgrant⟩
        rw [← hgrants]
        congr 1
        split <;> rfl
      · cases hps
    · simp only [diffDatabaseUser,hsuper] at hon
      split at hon
      · cases hon
      · cases hon

omit [CaseMapping] [UpperMapping] in
theorem isGlobal_of_entry {on : String} {isGlobal : Bool}
    (hentry : parseGrantTarget (if on = "" then globalGrantTarget else on) = .ok target)
    (hcheck : isGlobalGrantTarget on = .ok isGlobal) : target.isGlobal=isGlobal := by
  unfold isGlobalGrantTarget at hcheck
  split at hcheck
  · rename_i hempty
    rw [if_pos hempty,show parseGrantTarget globalGrantTarget = .ok { database := "*" } by decide]
      at hentry
    cases hentry
    cases hcheck
    decide
  · rename_i hne
    rw [if_neg hne] at hentry
    rw [hentry] at hcheck
    cases hcheck
    rfl

theorem tame_of_validate (hvalid : du.validate=[]) (hspelled : spelledAround du=false)
    {g : DatabaseUserGrant} (hg : g∈du.grants) {names : List String} (a : Account)
    (hclause : privilegeClause ⟨g.privileges,if g.on = "" then globalGrantTarget else g.on⟩ = .ok (names,target)) :
    Tame (.grant names target a false) := by
  obtain ⟨hnames,htarget⟩ := privilegeClause_eq_ok.mp hclause
  have hparse : parseGrantTarget (if g.on = "" then globalGrantTarget else g.on) = .ok target := by
    by_cases hon : g.on = ""
    · simpa [hon] using htarget
    · simpa [hon] using htarget
  have hlisted : ∀ name∈names,∃ priv∈g.privileges,normalizePrivilegeName priv = .ok name :=
    fun name hname => exists_of_forall₂ (forall₂_of_mapM hnames).flip hname
  obtain ⟨isGlobal,hcheck,hprivs⟩ := DatabaseUser.grant_of_validate hvalid hg
  constructor
  · intro name hname hcontrol
    obtain ⟨priv,hpriv,hnormal⟩ := hlisted name hname
    obtain ⟨name',hnormal',hdenied,-⟩ := hprivs priv hpriv
    rw [hnormal] at hnormal'
    cases hnormal'
    obtain ⟨hspelling,hword | hmulti⟩ := normalizePrivilegeName_eq_ok hnormal
    · exact hdenied ((clusterControl_word hword).mp hcontrol)
    · have hspaced := (clusterControl_multiWord hmulti).mp hcontrol
      have hfound : spelledAround du=true := by
        refine any_eq_true.mpr ⟨g,hg,any_eq_true.mpr ⟨priv,hpriv,?_⟩⟩
        rw [← hspelling,String.ofList_toList]
        exact decide_eq_true hspaced
      rw [hspelled] at hfound
      cases hfound
  · rintro ⟨hglobal,hall⟩
    have hname : ∃ name∈names,name = "ALL" ∨ name = "ALL PRIVILEGES" := by
      rcases hall with hall | hall
      · exact ⟨_,hall,.inl rfl⟩
      · exact ⟨_,hall,.inr rfl⟩
    obtain ⟨name,hname,hall⟩ := hname
    obtain ⟨priv,hpriv,hnormal⟩ := hlisted name hname
    obtain ⟨name',hnormal',-,hnotAll⟩ := hprivs priv hpriv
    rw [hnormal] at hnormal'
    cases hnormal'
    refine hnotAll ⟨?_,hall⟩
    rw [← isGlobal_of_entry hparse hcheck]
    exact (GrantTarget.sql_eq_global target).mp hglobal

omit [CaseMapping] in
theorem exists_privilegeClause {privileges : List String} {on : String}
    (hnames : ∀ priv∈privileges,∃ name,normalizePrivilegeName priv = .ok name) (hon : on ≠ "")
    (htarget : parseGrantTarget on = .ok target) :
    ∃ names,privilegeClause ⟨privileges,on⟩ = .ok (names, target) := by
  obtain ⟨names,hnames⟩ := exists_mapM hnames
  refine ⟨names,privilegeClause_eq_ok.mpr ⟨hnames,?_⟩⟩
  rw [if_neg hon]
  exact htarget

theorem exists_grantClause (hvalid : du.validate=[]) {g : DatabaseUserGrant} (hg : g∈du.grants) :
    ∃ names target,
      privilegeClause ⟨g.privileges,if g.on = "" then globalGrantTarget else g.on⟩ =
        .ok (names, target) := by
  obtain ⟨isGlobal,hcheck,hprivs⟩ := DatabaseUser.grant_of_validate hvalid hg
  have hnames : ∀ priv∈g.privileges,∃ name,normalizePrivilegeName priv = .ok name :=
    fun priv hpriv => (hprivs priv hpriv).imp fun _ h => h.1
  unfold isGlobalGrantTarget at hcheck
  split at hcheck
  · rename_i hon
    rw [if_pos hon]
    have hglobal : parseGrantTarget globalGrantTarget = .ok { database := "*" } := by decide
    obtain ⟨names,hclause⟩ := exists_privilegeClause hnames (by decide) hglobal
    exact ⟨names,_,hclause⟩
  · rename_i hon
    rw [if_neg hon]
    cases htarget : parseGrantTarget g.on with
    | error e =>
      rw [htarget] at hcheck
      cases hcheck
    | ok target =>
      obtain ⟨names,hclause⟩ := exists_privilegeClause hnames hon htarget
      exact ⟨names,target,hclause⟩

omit [UpperMapping] in
theorem requireClause_normalize (v : String) :
    ∃ require,requireClause (normalizeRequireTLS v) = .ok require := by
  have hsame : ∀ s∈["none","ssl","x509"], toLower s=s := by
    intro s hs
    have hascii : (["none","ssl","x509"].all fun s =>
        s.toList.all fun c => decide (c.val<128))=true := by decide
    rw [toLower_ascii fun c hc =>
      of_decide_eq_true (all_eq_true.mp (all_eq_true.mp hascii s hs) c hc)]
    revert s
    decide
  have hcases : normalizeRequireTLS v∈["none","ssl","x509"] := by
    unfold normalizeRequireTLS
    split
    · simp
    · split
      · simp
      · simp
  unfold requireClause
  rw [hsame _ hcases]
  simp only [mem_cons,not_mem_nil,or_false] at hcases
  rcases hcases with h | h | h
  · rw [h]
    exact ⟨.none,by decide⟩
  · rw [h]
    exact ⟨.ssl,by decide⟩
  · rw [h]
    exact ⟨.x509,by decide⟩

theorem exists_createUserStatements (hvalid : du.validate=[]) (hsuper : du.superuser=false)
    (hlist : ∀ g∈du.grants,g.privileges≠[]) :
    ∃ stmts,createUserStatements (duCreateRequest du "") mySQLDialect = .ok stmts ∧
      ∀ g∈du.grants,∃ names target,
        privilegeClause ⟨g.privileges,if g.on = "" then globalGrantTarget else g.on⟩ =
          .ok (names,target) ∧ .grant names target (duAccount du) false∈stmts := by
  have hgrantsFine : ∀ p∈duPrivileges du.grants,
      p.privileges≠[] ∧ ∃ clause,privilegeClause p = .ok clause := by
    intro p hp
    obtain ⟨g,hg,rfl⟩ := mem_map.mp hp
    obtain ⟨names,target,hclause⟩ := exists_grantClause hvalid hg
    exact ⟨hlist g hg,_,hclause⟩
  have hrevokesFine : ∀ p∈duRevokes du.revokes,
      p.privileges≠[] ∧ ∃ clause,privilegeClause p = .ok clause := by
    intro p hp
    obtain ⟨r,hr,rfl⟩ := mem_map.mp hp
    obtain ⟨hon,⟨target,htarget⟩,hne,hnames⟩ := DatabaseUser.revoke_of_validate hvalid hr
    obtain ⟨names,hclause⟩ := exists_privilegeClause hnames hon htarget
    exact ⟨hne,_,hclause⟩
  obtain ⟨stmts,hstmts,hmem⟩ := exists_statements (duCreateRequest du "") mySQLDialect hsuper
    (requireClause_normalize du.requireTLS) hgrantsFine hrevokesFine
  refine ⟨stmts,hstmts,fun g hg => ?_⟩
  obtain ⟨names,target,hclause⟩ := exists_grantClause hvalid hg
  exact ⟨names,target,hclause,hmem _ (mem_map_of_mem hg) names target hclause⟩

/-- A valid DatabaseUser's grants, no superuser's, are tame exactly when one lists nothing or no
denied privilege is spelled with spaces. -/
theorem tenant_grants_tame_iff (du : DatabaseUser) (hvalid : du.validate=[])
    (hsuper : du.superuser=false) :
    (∀ stmt,BuiltFor du stmt → Tame stmt) ↔
      (∃ g∈du.grants,g.privileges=[]) ∨ spelledAround du=false := by
  constructor
  · intro htame
    by_contra hneither
    rw [not_or,Bool.not_eq_false] at hneither
    obtain ⟨hlist,hspelled⟩ := hneither
    obtain ⟨stmts,hstmts,hgrants⟩ := exists_createUserStatements hvalid hsuper
      fun g hg hnil => hlist ⟨g,hg,hnil⟩
    obtain ⟨g,hg,hany⟩ := any_eq_true.mp hspelled
    obtain ⟨priv,hpriv,hspaced⟩ := any_eq_true.mp hany
    obtain ⟨names,target,hclause,hmem⟩ := hgrants g hg
    have hgrant := htame _ ⟨mySQLDialect,stmts,hmem,.inl ⟨"",hstmts⟩⟩
    obtain ⟨name,hname,hnormal⟩ :=
      exists_of_forall₂ (forall₂_of_mapM (privilegeClause_eq_ok.mp hclause).1) hpriv
    apply hgrant.1 name hname
    have hspacedName : name∈spacedDenied := by
      rw [← (normalizePrivilegeName_eq_ok hnormal).1,String.ofList_toList] at hspaced
      exact of_decide_eq_true hspaced
    have hmulti : ∀ n∈spacedDenied, n∈multiWordPrivileges := by decide
    exact (clusterControl_multiWord (hmulti name hspacedName)).mpr hspacedName
  · intro hcond stmt hbuilt
    cases stmt with
    | grant names target a grantOption =>
      obtain ⟨grants,hgrants,hmem⟩ := grants_of_builtFor hsuper hbuilt
      rw [grantStatements,if_neg (by simp)] at hgrants
      obtain ⟨p,hp,names',target',hclause,heq⟩ := exists_entry hgrants hmem
      cases heq
      obtain ⟨g,hg,rfl⟩ := mem_map.mp hp
      rcases hcond with ⟨g',hg',hnil⟩ | hspelled
      · exact absurd hnil (privileges_ne_nil hgrants (mem_map_of_mem hg'))
      · exact tame_of_validate hvalid hspelled hg _ hclause
    | _ => trivial

end

def reporter : DatabaseUser where
  name := "reporter"
  host := "%"
  grants := [{ privileges := ["select"," SHOW  view "], on := "sales.*" }]

theorem tenant_grants_tame_iff_reporter :
    DatabaseUser.validate reporter=[] ∧
      ((∀ stmt,BuiltFor reporter stmt → Tame stmt) ↔
        (∃ g∈reporter.grants,g.privileges=[]) ∨ spelledAround reporter=false) :=
  ⟨by decide +kernel,tenant_grants_tame_iff reporter (by decide +kernel) rfl⟩

/-- A user that asks for a denied privilege as MariaDB spells it. -/
def binlogAdmin : DatabaseUser where
  name := "tenant"
  host := "%"
  grants := [{ privileges := ["BINLOG ADMIN"] }]

/-- The denylist does not know `BINLOG ADMIN`. -/
theorem denylist_spelled_around :
    ¬∀ du : DatabaseUser,du.validate=[] → du.superuser=false →
      ∀ stmt,BuiltFor du stmt → Tame stmt := by
  intro hclaim
  let grant : Statement := .grant ["BINLOG ADMIN"] { database := "*" } (duAccount binlogAdmin) false
  have hbuilt : createUserStatements (duCreateRequest binlogAdmin "") mySQLDialect =
      .ok [.createUser (duAccount binlogAdmin) "" .none {},grant] := by decide +kernel
  have htame : Tame grant := hclaim binlogAdmin (by decide +kernel) rfl grant
    ⟨mySQLDialect,_,mem_cons_of_mem _ (mem_singleton_self _),.inl ⟨"",hbuilt⟩⟩
  have hcontrol : foldPrivilege "BINLOG ADMIN" ∈ deniedDynamicPrivileges.map foldPrivilege := by
    decide +kernel
  exact htame.1 "BINLOG ADMIN" (mem_singleton_self _) hcontrol

end Cnmsql.Controller
