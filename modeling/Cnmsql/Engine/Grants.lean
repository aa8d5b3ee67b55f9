import Cnmsql.Binlog.MariaReplay

namespace Cnmsql.Engine

open Binlog (isSpace)

/-- `database` is `*` for `*.*`, and `table` is empty for every table. -/
structure GrantTarget where
  database : String
  table : String := ""
  deriving DecidableEq

def globalGrantTarget : String := "*.*"

def bareIdentifierChar (c : Char) : Bool := c.isAlphanum ∨ c = '_' ∨ c = '$'

/-- `splitIdentifier`: a leading name (bare, in backticks, or `*`) and the rest. -/
def splitIdentifier (s : List Char) : Except String (List Char × List Char) :=
  match s with
  | '*'::rest => .ok (['*'],rest)
  | '\x60'::rest =>
    let name := rest.takeWhile (· ≠ '\x60')
    match rest.dropWhile (· ≠ '\x60') with
    | [] => .error ("unterminated or empty quoted identifier in " ++ (String.ofList s).quote)
    | _::tail =>
      if name=[] then
        .error ("unterminated or empty quoted identifier in " ++ (String.ofList s).quote)
      else if name=['*'] then
        .error ("invalid identifier in " ++ (String.ofList s).quote ++ ": \x60*\x60 is not a name")
      else .ok (name,tail)
  | s =>
    let ident := s.takeWhile (· ≠ '.')
    if ident≠[] ∧ ident.all bareIdentifierChar then .ok (ident,s.dropWhile (· ≠ '.'))
    else .error ("invalid identifier " ++ (String.ofList ident).quote ++
      ": quote it with backticks or use letters, digits, _ and $")

def parseGrantTarget (on : String) : Except String GrantTarget := do
  let malformed := "target " ++ on.quote ++ " must be *.*, db.* or db.table"
  let (db,rest) ← splitIdentifier on.toList
  match rest with
  | '.'::rest =>
    if rest=['*'] then .ok { database := String.ofList db }
    else
      let (table,tail) ← splitIdentifier rest
      if db=['*'] ∨ table=['*'] ∨ tail≠[] then .error malformed
      else .ok { database := String.ofList db, table := String.ofList table }
  | _ => .error malformed

namespace GrantTarget

def isGlobal (t : GrantTarget) : Bool := t.database = "*"

def sql (t : GrantTarget) : String :=
  if t.isGlobal then globalGrantTarget
  else if t.table = "" then "\x60" ++ t.database ++ "\x60.*"
  else "\x60" ++ t.database ++ "\x60.\x60" ++ t.table ++ "\x60"

theorem sql_eq_global (t : GrantTarget) : t.sql=globalGrantTarget ↔ t.isGlobal=true := by
  constructor
  · intro h
    by_contra hglobal
    have hfirst : t.sql.toList.head?=some '\x60' := by
      unfold sql
      rw [if_neg hglobal]
      split
      · simp
      · simp
    rw [h] at hfirst
    exact absurd hfirst (by decide)
  · intro h
    rw [sql,if_pos h]

end GrantTarget

/-- `_` in a database name of a GRANT stands for any character. -/
def grantDatabaseMatches (db schema : String) : Bool :=
  db.length=schema.length ∧
    (db.toList.zip schema.toList).all fun (c,d) => c = '_' ∨ c.toLower=d.toLower

/-- Unicode's simple upper-case mapping. -/
class UpperMapping where
  upper : Char → Char
  upper_ascii : ∀ c,c.val<128 → upper c=c.toUpper

instance : UpperMapping where
  upper := Char.toUpper
  upper_ascii _ _ := rfl

def fields (s : List Char) : List (List Char) := (s.splitOnP isSpace).filter (·≠[])

def spelling [UpperMapping] (p : String) : List Char :=
  ([' '].intercalate (fields p.toList)).map UpperMapping.upper

/-- The names that contain a space. -/
def multiWordPrivileges : List String :=
  ["ALL PRIVILEGES","ALTER ROUTINE","CREATE ROLE","CREATE ROUTINE","CREATE TABLESPACE",
    "CREATE TEMPORARY TABLES","CREATE USER","CREATE VIEW","DROP ROLE","GRANT OPTION",
    "LOCK TABLES","REPLICATION CLIENT","REPLICATION SLAVE","SHOW DATABASES","SHOW VIEW",
    "BINLOG ADMIN","BINLOG MONITOR","BINLOG REPLAY","CONNECTION ADMIN","DELETE HISTORY",
    "FEDERATED ADMIN","READ_ONLY ADMIN","REPLICA MONITOR","REPLICATION MASTER ADMIN",
    "REPLICATION REPLICA","REPLICATION SLAVE ADMIN","SET USER","SHOW CREATE ROUTINE",
    "SLAVE MONITOR"]

/-- An upper-case letter, then such letters, digits and underscores. -/
def isPrivilegeWord : List Char → Bool
  | [] => false
  | c::rest => c.isUpper && rest.all fun c => c.isUpper || c.isDigit || c = '_'

def normalizePrivilegeName [UpperMapping] (p : String) : Except String String :=
  let name := spelling p
  if name=[] then .error "privilege name is empty"
  else if ¬isPrivilegeWord name ∧ String.ofList name∉multiWordPrivileges then
    .error ("invalid privilege " ++ p.quote ++
      ": each entry must be a single privilege name, such as SELECT or SHOW VIEW")
  else .ok (String.ofList name)

theorem normalizePrivilegeName_eq_ok [UpperMapping] {p n : String}
    (h : normalizePrivilegeName p = .ok n) :
    n.toList=spelling p ∧ (isPrivilegeWord n.toList=true ∨ n∈multiWordPrivileges) := by
  simp only [normalizePrivilegeName] at h
  split at h
  · cases h
  split at h
  · cases h
  rename_i hname
  cases h
  rw [String.toList_ofList]
  refine ⟨rfl,?_⟩
  by_contra hneither
  rw [not_or] at hneither
  exact hname hneither

theorem val_lt_of_isAlphanum {c : Char} (h : c.isAlphanum=true) : c.val<128 := by
  delta Char.isAlphanum Char.isAlpha at h
  rw [Bool.or_eq_true,Bool.or_eq_true] at h
  rcases h with (hupper | hlower) | hdigit
  · delta Char.isUpper at hupper
    exact UInt32.lt_of_le_of_lt (of_decide_eq_true hupper).2 (by decide)
  · delta Char.isLower at hlower
    simp only [Bool.and_eq_true,decide_eq_true_eq] at hlower
    exact UInt32.lt_of_le_of_lt hlower.2 (by decide)
  · simp only [Char.isDigit,Bool.and_eq_true,decide_eq_true_eq] at hdigit
    exact UInt32.lt_of_le_of_lt hdigit.2 (by decide)

theorem isPrivilegeWord_char {s : List Char} (h : isPrivilegeWord s=true) {c : Char} (hc : c∈s) :
    c ≠ ' ' ∧ c.val<128 := by
  have hchar : ∀ c : Char,(c.isUpper || c.isDigit || c = '_')=true → c ≠ ' ' ∧ c.val<128 := by
    intro c hc
    constructor
    · rintro rfl
      revert hc
      decide
    · simp only [Bool.or_eq_true,decide_eq_true_eq] at hc
      rcases hc with (hupper | hdigit) | rfl
      · exact val_lt_of_isAlphanum (by
          delta Char.isAlphanum Char.isAlpha
          simp [hupper])
      · exact val_lt_of_isAlphanum (by simp [Char.isAlphanum,hdigit])
      · decide
  cases s with
  | nil => cases hc
  | cons d rest =>
    simp only [isPrivilegeWord,Bool.and_eq_true,List.all_eq_true] at h
    apply hchar
    rcases List.mem_cons.mp hc with rfl | hc
    · simp [h.1]
    · exact h.2 c hc

end Cnmsql.Engine
