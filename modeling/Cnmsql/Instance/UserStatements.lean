import Cnmsql.Api.DatabaseUser

namespace Cnmsql.Instance

open Framework Engine Api

/-- A MySQL account. -/
structure Account where
  name : String
  host : String
  deriving DecidableEq

structure Privilege where
  privileges : List String
  on : String := ""
  deriving DecidableEq

structure CreateUserRequest where
  account : Account
  password : String
  superuser : Bool := false
  limits : ResourceLimits := {}
  requireTLS : String := ""
  privileges : List Privilege := []
  revokes : List Privilege := []
  deriving DecidableEq

/-- A mutation of an account; what is `none` is left as it is. -/
structure AlterUserRequest where
  account : Account
  password : Option String := none
  superuser : Option Bool := none
  maxUserConnections : Option Nat := none
  maxQueriesPerHour : Option Nat := none
  maxUpdatesPerHour : Option Nat := none
  maxConnectionsPerHour : Option Nat := none
  requireTLS : Option String := none
  privileges : Option (List Privilege) := none
  revokes : Option (List Privilege) := none
  deriving DecidableEq

/-- Whether the server accepts `REVOKE IF EXISTS`, as MySQL does. -/
structure Dialect where
  revokeIfExists : Bool
  deriving DecidableEq

def mySQLDialect : Dialect := { revokeIfExists := true }

def mariaDBDialect : Dialect := { revokeIfExists := false }

inductive RequireTLS where
  | none
  | ssl
  | x509
  deriving DecidableEq

/-- What an `ALTER USER` changes. -/
structure AlterClauses where
  password : Option String := none
  require : Option RequireTLS := none
  maxUserConnections : Option Nat := none
  maxQueriesPerHour : Option Nat := none
  maxUpdatesPerHour : Option Nat := none
  maxConnectionsPerHour : Option Nat := none
  deriving DecidableEq

inductive Statement where
  | createUser (account : Account) (password : String) (require : RequireTLS) (limits : ResourceLimits)
  | alterUser (account : Account) (clauses : AlterClauses)
  | grant (privileges : List String) (target : GrantTarget) (account : Account) (grantOption : Bool)
  | revoke (ifExists : Bool) (privileges : List String) (target : GrantTarget) (account : Account)
  | dropUser (account : Account)
  deriving DecidableEq

def quoteLiteral (s : String) : String :=
  "'" ++ String.ofList (s.toList.flatMap fun c =>
    if c = '\\' then ['\\','\\'] else if c = '\x27' then ['\x27','\x27'] else [c]) ++ "'"

def Account.sql (a : Account) : String :=
  quoteLiteral a.name ++ "@" ++ quoteLiteral (if a.host = "" then "%" else a.host)

def RequireTLS.sql : RequireTLS → String
  | .none => "REQUIRE NONE"
  | .ssl => "REQUIRE SSL"
  | .x509 => "REQUIRE X509"

def resourceOptions (l : ResourceLimits) : String :=
  "WITH MAX_QUERIES_PER_HOUR " ++ toString l.maxQueriesPerHour ++
    " MAX_UPDATES_PER_HOUR " ++ toString l.maxUpdatesPerHour ++
    " MAX_CONNECTIONS_PER_HOUR " ++ toString l.maxConnectionsPerHour ++
    " MAX_USER_CONNECTIONS " ++ toString l.maxUserConnections

def AlterClauses.sql (c : AlterClauses) : List String :=
  let limits := [("MAX_QUERIES_PER_HOUR ",c.maxQueriesPerHour),
    ("MAX_UPDATES_PER_HOUR ",c.maxUpdatesPerHour),
    ("MAX_CONNECTIONS_PER_HOUR ",c.maxConnectionsPerHour),
    ("MAX_USER_CONNECTIONS ",c.maxUserConnections)].filterMap fun (word,n) =>
      n.map fun n => word++toString n
  (c.password.map fun p => "IDENTIFIED BY " ++ quoteLiteral p).toList ++
    (c.require.map (·.sql)).toList ++
    (if limits=[] then [] else ["WITH " ++ " ".intercalate limits])

def Statement.sql : Statement → String
  | .createUser a password require limits => "CREATE USER IF NOT EXISTS " ++ a.sql ++
      " IDENTIFIED BY " ++ quoteLiteral password ++ " " ++ require.sql ++ " " ++ resourceOptions limits
  | .alterUser a clauses => "ALTER USER " ++ a.sql ++ " " ++ " ".intercalate clauses.sql
  | .grant privileges target a grantOption => "GRANT " ++ ", ".intercalate privileges ++ " ON " ++
      target.sql ++ " TO " ++ a.sql++(if grantOption then " WITH GRANT OPTION" else "")
  | .revoke ifExists privileges target a => (if ifExists then "REVOKE IF EXISTS " else "REVOKE ") ++
      ", ".intercalate privileges ++ " ON " ++ target.sql ++ " FROM " ++ a.sql
  | .dropUser a => "DROP USER IF EXISTS " ++ a.sql

section

variable [CaseMapping] [UpperMapping]

def requireClause (requireTLS : String) : Except String RequireTLS :=
  if toLower requireTLS = "" ∨ toLower requireTLS = "none" then .ok .none
  else if toLower requireTLS = "ssl" then .ok .ssl
  else if toLower requireTLS = "x509" then .ok .x509
  else .error ("invalid requireTLS value " ++ requireTLS.quote)

def privilegeClause (p : Privilege) : Except String (List String × GrantTarget) := do
  let names ← p.privileges.mapM normalizePrivilegeName
  let target ← parseGrantTarget (if p.on = "" then globalGrantTarget else p.on)
  return (names,target)

def entryStatement (empty : String) (build : List String → GrantTarget → Statement) (p : Privilege) :
    Except String Statement :=
  if p.privileges=[] then .error empty
  else do
    let (names,target) ← privilegeClause p
    return build names target

def superuserGrant (a : Account) : Statement := .grant ["ALL PRIVILEGES"] { database := "*" } a true

def grantStatements (a : Account) (superuser : Bool) (privileges : List Privilege) :
    Except String (List Statement) :=
  if superuser then .ok [superuserGrant a]
  else privileges.mapM (entryStatement "privilege entry has no privileges" fun names target =>
    .grant names target a false)

def revokeStatements (a : Account) (revokes : List Privilege) (d : Dialect) :
    Except String (List Statement) :=
  revokes.mapM (entryStatement "revoke entry has no privileges" fun names target =>
    .revoke d.revokeIfExists names target a)

/-- `CreateUserStatementsWithDialect`: the revokes come after the grants. -/
def createUserStatements (req : CreateUserRequest) (d : Dialect) : Except String (List Statement) := do
  let require ← requireClause req.requireTLS
  let grants ← grantStatements req.account req.superuser req.privileges
  let revokes ← revokeStatements req.account req.revokes d
  return .createUser req.account req.password require req.limits::grants++revokes

variable (req : AlterUserRequest)

/-- What the `ALTER USER` of a request changes. -/
def AlterUserRequest.clauses (require : Option RequireTLS) : AlterClauses where
  password := req.password
  require := require
  maxUserConnections := req.maxUserConnections
  maxQueriesPerHour := req.maxQueriesPerHour
  maxUpdatesPerHour := req.maxUpdatesPerHour
  maxConnectionsPerHour := req.maxConnectionsPerHour

def alterGrants : Except String (List Statement) :=
  match req.privileges with
  | some privileges => grantStatements req.account (req.superuser=some true) privileges
  | none => .ok (if req.superuser=some true then [superuserGrant req.account] else [])

/-- `AlterUserStatementsWithDialect`. -/
def alterUserStatements (d : Dialect) : Except String (List Statement) := do
  let require ← req.requireTLS.mapM requireClause
  let grants ← alterGrants req
  let revokes ← revokeStatements req.account (req.revokes.getD []) d
  return (if req.clauses require={} then [] else [.alterUser req.account (req.clauses require)]) ++
    grants++revokes

section

omit [CaseMapping]

variable {empty : String} {build : List String → GrantTarget → Statement}
  {p : Privilege} {ps : List Privilege} {stmts : List Statement}

theorem entryStatement_eq_ok {stmt : Statement} :
    entryStatement empty build p = .ok stmt ↔
      p.privileges≠[] ∧ ∃ names target,privilegeClause p = .ok (names,target) ∧
        stmt=build names target := by
  unfold entryStatement
  split
  · rename_i hnil
    simp [hnil]
  · rename_i hne
    rw [bind_eq_ok]
    constructor
    · rintro ⟨⟨names,target⟩,hclause,hstmt⟩
      cases hstmt
      exact ⟨hne,names,target,hclause,rfl⟩
    · rintro ⟨-,names,target,hclause,rfl⟩
      exact ⟨(names,target),hclause,rfl⟩

theorem exists_entry (h : ps.mapM (entryStatement empty build) = .ok stmts) {stmt : Statement}
    (hstmt : stmt∈stmts) :
    ∃ p∈ps,∃ names target,privilegeClause p = .ok (names,target) ∧ stmt=build names target := by
  obtain ⟨p,hp,hbuilt⟩ := exists_of_forall₂ (forall₂_of_mapM h).flip hstmt
  exact ⟨p,hp,(entryStatement_eq_ok.mp hbuilt).2⟩

theorem mem_entryStatements (h : ps.mapM (entryStatement empty build) = .ok stmts) (hp : p∈ps)
    {names : List String} {target : GrantTarget} (hclause : privilegeClause p = .ok (names,target)) :
    build names target∈stmts := by
  obtain ⟨stmt,hstmt,hbuilt⟩ := exists_of_forall₂ (forall₂_of_mapM h) hp
  obtain ⟨-,names',target',hclause',rfl⟩ := entryStatement_eq_ok.mp hbuilt
  rw [hclause] at hclause'
  cases hclause'
  exact hstmt

theorem exists_entryStatements
    (h : ∀ p∈ps,p.privileges≠[] ∧ ∃ clause,privilegeClause p = .ok clause) :
    ∃ stmts,ps.mapM (entryStatement empty build) = .ok stmts := by
  apply exists_mapM
  intro p hp
  obtain ⟨hne,⟨names,target⟩,hclause⟩ := h p hp
  exact ⟨build names target,entryStatement_eq_ok.mpr ⟨hne,names,target,hclause,rfl⟩⟩

theorem privileges_ne_nil (h : ps.mapM (entryStatement empty build) = .ok stmts) (hp : p∈ps) :
    p.privileges≠[] := by
  obtain ⟨stmt,-,hbuilt⟩ := exists_of_forall₂ (forall₂_of_mapM h) hp
  exact (entryStatement_eq_ok.mp hbuilt).1

theorem privilegeClause_eq_ok {names : List String} {target : GrantTarget} :
    privilegeClause p = .ok (names,target) ↔ p.privileges.mapM normalizePrivilegeName = .ok names ∧
      parseGrantTarget (if p.on = "" then globalGrantTarget else p.on) = .ok target := by
  unfold privilegeClause
  rw [bind_eq_ok]
  constructor
  · rintro ⟨names',hnames,h⟩
    obtain ⟨target',htarget,h⟩ := bind_eq_ok.mp h
    cases h
    exact ⟨hnames,htarget⟩
  · rintro ⟨hnames,htarget⟩
    exact ⟨names,hnames,bind_eq_ok.mpr ⟨target,htarget,rfl⟩⟩

end

variable {names : List String} {target : GrantTarget} {a : Account} {grantOption : Bool}
  {stmts : List Statement}

theorem createUserStatements_eq_ok {req : CreateUserRequest} {d : Dialect} :
    createUserStatements req d = .ok stmts ↔ ∃ require grants revokes,
      requireClause req.requireTLS = .ok require ∧
      grantStatements req.account req.superuser req.privileges = .ok grants ∧
      revokeStatements req.account req.revokes d = .ok revokes ∧
      stmts = .createUser req.account req.password require req.limits::grants++revokes := by
  unfold createUserStatements
  constructor
  · intro h
    obtain ⟨require,hrequire,h⟩ := bind_eq_ok.mp h
    obtain ⟨grants,hgrants,h⟩ := bind_eq_ok.mp h
    obtain ⟨revokes,hrevokes,h⟩ := bind_eq_ok.mp h
    cases h
    exact ⟨require,grants,revokes,hrequire,hgrants,hrevokes,rfl⟩
  · rintro ⟨require,grants,revokes,hrequire,hgrants,hrevokes,rfl⟩
    rw [hrequire,hgrants,hrevokes]
    rfl

theorem grant_of_createUserStatements {req : CreateUserRequest} {d : Dialect}
    (h : createUserStatements req d = .ok stmts) (hgrant : .grant names target a grantOption∈stmts) :
    ∃ grants,grantStatements req.account req.superuser req.privileges = .ok grants ∧
      .grant names target a grantOption∈grants := by
  obtain ⟨require,grants,revokes,-,hgrants,hrevokes,rfl⟩ := createUserStatements_eq_ok.mp h
  refine ⟨grants,hgrants,?_⟩
  rcases List.mem_append.mp hgrant with hgrant | hrevoke
  · exact (List.mem_cons.mp hgrant).resolve_left (by simp)
  · obtain ⟨p,-,names',target',-,heq⟩ := exists_entry hrevokes hrevoke
    cases heq

theorem exists_statements (req : CreateUserRequest) (d : Dialect) (hsuper : req.superuser=false)
    (hrequire : ∃ require,requireClause req.requireTLS = .ok require)
    (hgrants : ∀ p∈req.privileges,p.privileges≠[] ∧ ∃ clause,privilegeClause p = .ok clause)
    (hrevokes : ∀ p∈req.revokes,p.privileges≠[] ∧ ∃ clause,privilegeClause p = .ok clause) :
    ∃ stmts,createUserStatements req d = .ok stmts ∧ ∀ p∈req.privileges,∀ names target,
      privilegeClause p = .ok (names,target) → .grant names target req.account false∈stmts := by
  obtain ⟨require,hrequire⟩ := hrequire
  obtain ⟨grants,hgrants⟩ := exists_entryStatements hgrants
  obtain ⟨revokes,hrevokes⟩ := exists_entryStatements hrevokes
  refine ⟨_,createUserStatements_eq_ok.mpr ⟨require,grants,revokes,hrequire,?_,hrevokes,rfl⟩,?_⟩
  · rw [grantStatements,hsuper,if_neg (by simp)]
    exact hgrants
  · intro p hp names target hclause
    exact List.mem_append_left _ (List.mem_cons_of_mem _ (mem_entryStatements hgrants hp hclause))

theorem grant_of_alterUserStatements {req : AlterUserRequest} {d : Dialect}
    (h : alterUserStatements req d = .ok stmts) (hgrant : .grant names target a grantOption∈stmts) :
    (∃ privileges grants,req.privileges=some privileges ∧
      grantStatements req.account (req.superuser=some true) privileges = .ok grants ∧
      .grant names target a grantOption∈grants) ∨
    (req.superuser=some true ∧ .grant names target a grantOption=superuserGrant req.account) := by
  unfold alterUserStatements at h
  obtain ⟨require,-,h⟩ := bind_eq_ok.mp h
  obtain ⟨grants,hgrants,h⟩ := bind_eq_ok.mp h
  obtain ⟨revokes,hrevokes,h⟩ := bind_eq_ok.mp h
  cases h
  have hmem : .grant names target a grantOption∈grants := by
    rcases List.mem_append.mp hgrant with hgrant | hrevoke
    · rcases List.mem_append.mp hgrant with halter | hgrant
      · split at halter
        · cases halter
        · cases List.mem_singleton.mp halter
      · exact hgrant
    · obtain ⟨p,-,names',target',-,heq⟩ := exists_entry hrevokes hrevoke
      cases heq
  unfold alterGrants at hgrants
  split at hgrants
  · rename_i privileges hprivileges
    exact .inl ⟨privileges,grants,hprivileges,hgrants,hmem⟩
  · cases hgrants
    split at hmem
    · rename_i hsuper
      exact .inr ⟨hsuper,List.mem_singleton.mp hmem⟩
    · cases hmem

end

end Cnmsql.Instance
