import Cnmsql.Api.DatabaseUser

namespace Cnmsql.Api

open Engine

structure DatabaseGrant where
  privileges : List String
  on : String := ""
  deriving DecidableEq

/-- A user declared as part of a Database. -/
structure InlineUser where
  name : String
  host : String := ""
  ensure : EnsureOption := .present
  grants : List DatabaseGrant := []
  deriving DecidableEq

structure Database where
  name : String
  specName : String := ""
  users : List InlineUser := []
  deriving DecidableEq

def databaseReservedSchemas : List String :=
  ["mysql","information_schema","performance_schema","sys","heartbeat"]

def safeDBaaSAdminPrivileges : List String :=
  ["SELECT","INSERT","UPDATE","DELETE","CREATE","DROP","ALTER","INDEX","REFERENCES",
    "CREATE TEMPORARY TABLES","LOCK TABLES","EXECUTE","CREATE VIEW","SHOW VIEW","CREATE ROUTINE",
    "ALTER ROUTINE","EVENT","TRIGGER"]

def databaseAllowedPrivileges : List String := ["ALL","ALL PRIVILEGES"]++safeDBaaSAdminPrivileges

namespace Database

def databaseName (d : Database) : String := if d.specName ≠ "" then d.specName else d.name

def validateManagedSchemaName (name : String) : Option String :=
  if name.toList.any (· ∈ ['%','\\','\x60']) then
    some ("schema name " ++ name.quote ++ " may not contain %, \\ or \x60")
  else (databaseReservedSchemas.find? (grantDatabaseMatches name)).map fun schema =>
    "schema name " ++ name.quote ++ " covers the reserved " ++ schema ++ " schema"

variable [UpperMapping]

def validateDatabaseGrant (path : String) (g : DatabaseGrant) (dbName : String) : List FieldError :=
  (if g.privileges=[] then
    [⟨path ++ ".privileges","a grant must list at least one privilege"⟩]
  else []) ++
  (g.privileges.zipIdx.flatMap fun (priv,k) =>
    match normalizePrivilegeName priv with
    | .error e => [⟨path ++ ".privileges[" ++ toString k ++ "]",e⟩]
    | .ok name =>
      if name∈databaseAllowedPrivileges then []
      else [⟨path ++ ".privileges[" ++ toString k ++ "]",
        "a Database can only grant schema-level privileges (" ++
          ", ".intercalate safeDBaaSAdminPrivileges ++
          " or ALL); use a DatabaseUser for anything wider"⟩]) ++
  if g.on = "" then []
  else
    match parseGrantTarget g.on with
    | .error e => [⟨path ++ ".on",e⟩]
    | .ok target =>
      if target.database=dbName then []
      else [⟨path ++ ".on","a Database can only grant on its own schema: use " ++
        ({ database := dbName } : GrantTarget).sql ++ " or a table in it, or omit on"⟩]

def validate (d : Database) : List FieldError :=
  ((validateManagedSchemaName d.databaseName).map fun e =>
    ⟨if d.specName = "" then "metadata.name" else "spec.name",e⟩).toList ++
  d.users.zipIdx.flatMap fun (u,i) => u.grants.zipIdx.flatMap fun (g,j) =>
    validateDatabaseGrant ("spec.users[" ++ toString i ++ "].grants[" ++ toString j ++ "]") g
      d.databaseName

variable {d : Database} {u : InlineUser} {g : DatabaseGrant}

theorem schema_of_validate (h : d.validate=[]) :
    ∀ c∈d.databaseName.toList,c∉['%','\\','\x60'] := by
  have hname := (List.append_eq_nil_iff.mp h).1
  rw [Option.toList_eq_nil_iff,Option.map_eq_none_iff] at hname
  unfold validateManagedSchemaName at hname
  split at hname
  · cases hname
  · rename_i hany
    intro c hc hbad
    exact hany (List.any_eq_true.mpr ⟨c,hc,decide_eq_true hbad⟩)

theorem grant_of_validate (h : d.validate=[]) (hu : u∈d.users) (hg : g∈u.grants) :
    g.privileges≠[] ∧
    (∀ priv∈g.privileges,∃ name∈databaseAllowedPrivileges,normalizePrivilegeName priv = .ok name) ∧
    (g.on ≠ "" → ∃ target,parseGrantTarget g.on = .ok target ∧ target.database=d.databaseName) := by
  obtain ⟨i,hgrants⟩ := DatabaseUser.exists_entry_eq_nil (List.append_eq_nil_iff.mp h).2 hu
  obtain ⟨j,hfine⟩ := DatabaseUser.exists_entry_eq_nil hgrants hg
  simp only [validateDatabaseGrant,List.append_eq_nil_iff] at hfine
  obtain ⟨⟨hempty,hprivs⟩,htarget⟩ := hfine
  refine ⟨?_,?_,?_⟩
  · intro hnil
    rw [if_pos hnil] at hempty
    cases hempty
  · intro priv hpriv
    obtain ⟨k,hone⟩ := DatabaseUser.exists_entry_eq_nil hprivs hpriv
    simp only at hone
    split at hone
    · cases hone
    · rename_i name hname
      split at hone
      · rename_i hallowed
        exact ⟨name,hallowed,hname⟩
      · cases hone
  · intro hon
    rw [if_neg hon] at htarget
    split at htarget
    · cases htarget
    · rename_i target hparse
      split at htarget
      · rename_i hdb
        exact ⟨target,hparse,hdb⟩
      · cases htarget

end Database

end Cnmsql.Api
