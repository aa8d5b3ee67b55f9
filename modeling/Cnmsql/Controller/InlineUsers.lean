import Cnmsql.Api.Database
import Cnmsql.Controller.UserGrants

namespace Cnmsql.Controller

open Framework Engine Api Instance List

section

variable [CaseMapping] [UpperMapping]

def defaultGrantTarget (on dbName : String) : String := if on = "" then dbName ++ ".*" else on

def dbPrivileges (grants : List DatabaseGrant) (dbName : String) : List Privilege :=
  grants.map fun g => { privileges := g.privileges, on := defaultGrantTarget g.on dbName }

def dbGrantsSatisfied (observed : List String) (grants : List DatabaseGrant) (dbName : String) : Bool :=
  ∀ g∈grants,∀ priv∈g.privileges,
    grantToken priv (defaultGrantTarget g.on dbName)∈observed.flatMap parseGrantTokens

def inlineAccount (u : InlineUser) : Account := { name := u.name, host := defaultHost u.host }

variable (db : Database) (u : InlineUser)

/-- The request of `reconcileDatabaseUser` for an account that is not there. -/
def inlineCreate (password : String) : CreateUserRequest where
  account := inlineAccount u
  password := password
  requireTLS := "none"
  privileges := dbPrivileges u.grants db.databaseName

/-- The request of `reconcileDatabaseUser` for an account it owns. -/
def inlineAlter (observed : List String) (password : Option String) : AlterUserRequest where
  account := inlineAccount u
  password := password
  privileges := if dbGrantsSatisfied observed u.grants db.databaseName then none
    else some (dbPrivileges u.grants db.databaseName)

/-- A statement that is built for an inline user. -/
def InlineBuilt (stmt : Statement) : Prop :=
  u.ensure = .present ∧ ∃ d stmts,stmt∈stmts ∧
    ((∃ password,createUserStatements (inlineCreate db u password) d = .ok stmts) ∨
      ∃ observed password,alterUserStatements (inlineAlter db u observed password) d = .ok stmts)

variable {db : Database} {u : InlineUser}

theorem grants_of_inlineBuilt {names : List String} {target : GrantTarget} {a : Account}
    {grantOption : Bool} (h : InlineBuilt db u (.grant names target a grantOption)) :
    ∃ grants,grantStatements (inlineAccount u) false (dbPrivileges u.grants db.databaseName) =
      .ok grants ∧ .grant names target a grantOption∈grants := by
  obtain ⟨-,d,stmts,hmem,⟨password,hcreate⟩ | ⟨observed,password,halter⟩⟩ := h
  · exact grant_of_createUserStatements hcreate hmem
  · rcases grant_of_alterUserStatements halter hmem with ⟨ps,grants,hps,hgrants,hgrant⟩ | ⟨hon,-⟩
    · simp only [inlineAlter] at hps
      split at hps
      · cases hps
      · cases hps
        exact ⟨grants,hgrants,hgrant⟩
    · cases hon

end

/-- A database name in a grant: `_` is any character and `%` any text, unless escaped. -/
def grantPatternMatches : List Char → List Char → Bool
  | [],s => s=[]
  | '%'::p,s => s.tails.any fun rest => grantPatternMatches p rest
  | '\\'::c::p,d::s => c=d && grantPatternMatches p s
  | '_'::p,_::s => grantPatternMatches p s
  | c::p,d::s => c=d && grantPatternMatches p s
  | _::_,[] => false

/-- Whether a grant on the target applies to a schema; a table's database is literal. -/
def appliesTo (t : GrantTarget) (schema : String) : Bool :=
  if t.isGlobal then true
  else if t.table = "" then grantPatternMatches t.database.toList schema.toList
  else t.database=schema

theorem grantPatternMatches_iff {p s : List Char} (hp : ∀ c∈p,c∉['%','\\','\x60']) :
    grantPatternMatches p s=true ↔ List.Forall₂ (fun c d => c = '_' ∨ c=d) p s := by
  induction p generalizing s with
  | nil => simp [grantPatternMatches]
  | cons c p ih =>
    obtain ⟨hc,hp⟩ := forall_mem_cons.mp hp
    simp only [mem_cons,not_or] at hc
    cases s with
    | nil => simp [grantPatternMatches,hc.1]
    | cons d s =>
      by_cases hany : c = '_'
      · simp [grantPatternMatches,hany,ih hp]
      · simp [grantPatternMatches,hc,hany,ih hp]

theorem eq_of_matches {p s : List Char} (h : List.Forall₂ (fun c d => c = '_' ∨ c=d) p s)
    (hp : '_'∉p) : s=p := by
  induction h with
  | nil => rfl
  | cons hcd _ ih =>
    rw [mem_cons,not_or] at hp
    rw [ih hp.2,hcd.resolve_left (Ne.symm hp.1)]

/-- The schema with each `_` of the name filled in. -/
def lookalike (name : String) : String :=
  String.ofList (name.toList.map fun c => if c = '_' then 'X' else c)

theorem appliesTo_only_iff {t : GrantTarget} (hdb : ∀ c∈t.database.toList,c∉['%','\\','\x60']) :
    (∀ schema,appliesTo t schema=true → schema=t.database) ↔
      t.database ≠ "*" ∧ (t.table ≠ "" ∨ '_'∉t.database.toList) := by
  unfold appliesTo GrantTarget.isGlobal
  by_cases hglobal : t.database = "*"
  · simp only [hglobal,decide_true,if_true,ne_eq,not_true_eq_false,false_and,iff_false,not_forall]
    exact ⟨"",by decide⟩
  by_cases htable : t.table = ""
  · simp only [hglobal,htable,decide_false,Bool.false_eq_true,if_false,if_true,
      grantPatternMatches_iff hdb,ne_eq,not_true_eq_false,not_false_eq_true,false_or,true_and]
    constructor
    · intro honly hmem
      have hself := honly (lookalike t.database) (by
        rw [lookalike,String.toList_ofList,forall₂_map_right_iff,forall₂_same]
        intro c _
        by_cases hc : c = '_' <;> simp [hc])
      rw [← hself,lookalike,String.toList_ofList,mem_map] at hmem
      obtain ⟨c,-,hc⟩ := hmem
      split at hc
      · cases hc
      · contradiction
    · intro hplain schema hmatch
      exact String.ext (eq_of_matches hmatch hplain)
  · simp [hglobal,htable,eq_comm]

/-- A name that needs no quotes in a grant target. -/
def bareName (name : String) : Bool := name ≠ "" ∧ name.toList.all bareIdentifierChar

theorem splitIdentifier_eq_ok {s ident rest : List Char} (hs : '\x60'∉s)
    (h : splitIdentifier s = .ok (ident,rest)) :
    s=ident++rest ∧ (ident=['*'] ∨ ident≠[] ∧ ident.all bareIdentifierChar=true) := by
  unfold splitIdentifier at h
  split at h
  · cases h
    exact ⟨rfl,.inl rfl⟩
  · exact absurd mem_cons_self hs
  · simp only at h
    split at h
    · rename_i hident
      cases h
      exact ⟨takeWhile_append_dropWhile.symm,.inr hident⟩
    · cases h

theorem dot_not_mem {ident : List Char}
    (h : ident=['*'] ∨ ident≠[] ∧ ident.all bareIdentifierChar=true) : '.'∉ident := by
  rcases h with rfl | ⟨-,hall⟩
  · decide
  · intro hdot
    exact absurd (all_eq_true.mp hall _ hdot) (by decide)

theorem splitIdentifier_bare {s : List Char} (hne : s≠[]) (hall : s.all bareIdentifierChar=true)
    (rest : List Char) : splitIdentifier (s ++ '.'::rest) = .ok (s, '.'::rest) := by
  have hdot : ∀ c∈s, decide (c ≠ '.')=true := by
    rintro c hc
    refine decide_eq_true ?_
    rintro rfl
    exact dot_not_mem (.inr ⟨hne,hall⟩) hc
  obtain ⟨c,s,rfl⟩ := exists_cons_of_ne_nil hne
  have hc := all_eq_true.mp hall c mem_cons_self
  rw [cons_append]
  unfold splitIdentifier
  split
  · rename_i heq
    cases heq
    cases hc
  · rename_i heq
    cases heq
    cases hc
  · rw [← cons_append,takeWhile_append_of_pos hdot,dropWhile_append_of_pos hdot]
    simp [hall]

/-- The default target of a schema can be read if its name is bare, or `*`. -/
theorem parseGrantTarget_default {name : String} (hname : '\x60'∉name.toList) {t : GrantTarget} :
    parseGrantTarget (name ++ ".*") = .ok t ↔
      (name = "*" ∨ bareName name=true) ∧ t={ database := name } := by
  unfold parseGrantTarget
  rw [bind_eq_ok,String.toList_append]
  constructor
  · rintro ⟨⟨db,rest⟩,hsplit,h⟩
    have hquote : '\x60'∉name.toList ++ ".*".toList := by simpa using hname
    obtain ⟨heq,hdb⟩ := splitIdentifier_eq_ok hquote hsplit
    simp only at h
    split at h
    swap
    · cases h
    rename_i rest
    split at h
    · rename_i hstar
      cases h
      subst hstar
      rw [← append_cancel_right heq] at hdb ⊢
      rw [String.ofList_toList]
      refine ⟨hdb.imp (fun h => String.ext h) fun h => decide_eq_true ⟨?_,h.2⟩,rfl⟩
      rintro rfl
      exact h.1 rfl
    · rename_i hmore
      rw [bind_eq_ok] at h
      obtain ⟨⟨table,tail⟩,htable,h⟩ := h
      rw [heq,mem_append,mem_cons,not_or,not_or] at hquote
      obtain ⟨rfl,htab⟩ := splitIdentifier_eq_ok hquote.2.2 htable
      simp only at h
      split at h
      · cases h
      · -- the last dot would be the one before the star, and the table `*`
        rename_i hnames
        simp only [not_or,not_not] at hnames
        rw [hnames.2.2,append_nil] at heq
        exact absurd ((append_cons_inj_of_notMem (dot_not_mem hdb) (dot_not_mem htab)).mp
          heq.symm).2.2 hnames.2.1
  · rintro ⟨rfl | hbare,rfl⟩
    · exact ⟨(['*'],['.','*']),rfl,rfl⟩
    · obtain ⟨hne,hall⟩ := of_decide_eq_true hbare
      exact ⟨_,splitIdentifier_bare (by simpa using hne) hall ['*'],by simp [String.ofList_toList]⟩

theorem database_of_table {on : String} {t : GrantTarget} (h : parseGrantTarget on = .ok t)
    (ht : t.table ≠ "") : t.database ≠ "*" := by
  unfold parseGrantTarget at h
  obtain ⟨⟨db,rest⟩,-,h⟩ := bind_eq_ok.mp h
  simp only at h
  split at h
  · split at h
    · cases h
      exact absurd rfl ht
    · obtain ⟨⟨table,tail⟩,-,h⟩ := bind_eq_ok.mp h
      simp only at h
      split at h
      · cases h
      · rename_i hnames
        cases h
        intro hstar
        exact hnames (.inl (by simpa using congrArg String.toList hstar))
  · cases h

section

/-- A grant that names a table. -/
def tableLevel (g : DatabaseGrant) : Bool :=
  match parseGrantTarget g.on with
  | .ok t => t.table ≠ ""
  | .error _ => false

/-- The name is no pattern, the grants all name tables, or one leaves out an unreadable target, so
that none is built. -/
def Confined (name : String) (grants : List DatabaseGrant) : Prop :=
  (name ≠ "*" ∧ '_'∉name.toList) ∨ (∀ g∈grants,tableLevel g=true) ∨
    ∃ g∈grants,g.on = "" ∧ name ≠ "*" ∧ bareName name=false

variable [UpperMapping] {db : Database} {u : InlineUser} {g : DatabaseGrant} {t : GrantTarget}

omit [UpperMapping] in
theorem defaultGrantTarget_ne (on dbName : String) : defaultGrantTarget on dbName ≠ "" := by
  unfold defaultGrantTarget
  split
  · simp
  · assumption

theorem backtick_of_validate (hvalid : db.validate=[]) : '\x60'∉db.databaseName.toList :=
  fun hmem => Database.schema_of_validate hvalid _ hmem (by simp)

theorem database_of_target (hvalid : db.validate=[]) (hu : u∈db.users) (hg : g∈u.grants)
    (h : parseGrantTarget (defaultGrantTarget g.on db.databaseName) = .ok t) :
    t.database=db.databaseName := by
  unfold defaultGrantTarget at h
  split at h
  · rw [((parseGrantTarget_default (backtick_of_validate hvalid)).mp h).2]
  · rename_i hon
    obtain ⟨t',ht',hdb⟩ := (Database.grant_of_validate hvalid hu hg).2.2 hon
    rw [h] at ht'
    cases ht'
    exact hdb

/-- A valid Database's grant can be read, unless it leaves out an odd target. -/
theorem exists_inlineClause (hvalid : db.validate=[]) (hu : u∈db.users) (hg : g∈u.grants)
    (hread : g.on = "" → db.databaseName = "*" ∨ bareName db.databaseName=true) :
    ∃ names target,privilegeClause ⟨g.privileges,defaultGrantTarget g.on db.databaseName⟩ =
      .ok (names, target) := by
  obtain ⟨-,hnames,hon⟩ := Database.grant_of_validate hvalid hu hg
  have htarget : ∃ t,parseGrantTarget (defaultGrantTarget g.on db.databaseName) = .ok t := by
    unfold defaultGrantTarget
    split
    · rename_i hempty
      exact ⟨_,(parseGrantTarget_default (backtick_of_validate hvalid)).mpr ⟨hread hempty,rfl⟩⟩
    · rename_i hne
      obtain ⟨t,ht,-⟩ := hon hne
      exact ⟨t,ht⟩
  obtain ⟨t,ht⟩ := htarget
  obtain ⟨names,hclause⟩ := exists_privilegeClause
    (fun priv hpriv => (hnames priv hpriv).imp fun _ h => h.2) (defaultGrantTarget_ne _ _) ht
  exact ⟨names,t,hclause⟩

theorem target_of_inlineClause {names : List String}
    (h : privilegeClause ⟨g.privileges,defaultGrantTarget g.on db.databaseName⟩ = .ok (names,t)) :
    parseGrantTarget (defaultGrantTarget g.on db.databaseName) = .ok t := by
  have ht := (privilegeClause_eq_ok.mp h).2
  rwa [if_neg (defaultGrantTarget_ne _ _)] at ht

theorem target_of_omitted (hvalid : db.validate=[]) (hon : g.on = "") {names : List String}
    (h : privilegeClause ⟨g.privileges,defaultGrantTarget g.on db.databaseName⟩ = .ok (names,t)) :
    (db.databaseName = "*" ∨ bareName db.databaseName=true) ∧ t={ database := db.databaseName } := by
  have hparse := target_of_inlineClause h
  rw [defaultGrantTarget,if_pos hon] at hparse
  exact (parseGrantTarget_default (backtick_of_validate hvalid)).mp hparse

variable [CaseMapping]

theorem exists_inlineStatements (hvalid : db.validate=[]) (hu : u∈db.users)
    (hread : ∀ g∈u.grants,g.on = "" → db.databaseName = "*" ∨ bareName db.databaseName=true)
    (password : String) (d : Dialect) :
    ∃ stmts,createUserStatements (inlineCreate db u password) d = .ok stmts ∧ ∀ g∈u.grants,
      ∀ names target,privilegeClause ⟨g.privileges,defaultGrantTarget g.on db.databaseName⟩ =
        .ok (names,target) → .grant names target (inlineAccount u) false∈stmts := by
  have hfine : ∀ p∈dbPrivileges u.grants db.databaseName,
      p.privileges≠[] ∧ ∃ clause,privilegeClause p = .ok clause := by
    intro p hp
    obtain ⟨g,hg,rfl⟩ := mem_map.mp hp
    obtain ⟨names,target,hclause⟩ := exists_inlineClause hvalid hu hg (hread g hg)
    exact ⟨(Database.grant_of_validate hvalid hu hg).1,_,hclause⟩
  obtain ⟨stmts,hstmts,hmem⟩ := exists_statements (inlineCreate db u password) d rfl
    (requireClause_normalize "") hfine (by simp [inlineCreate])
  exact ⟨stmts,hstmts,fun g hg => hmem _ (mem_map_of_mem hg)⟩

/-- Inline users of a valid Database reach only its schema exactly if their grants are confined. -/
theorem inline_grants_confined_iff (db : Database) (hvalid : db.validate=[]) :
    (∀ u∈db.users,∀ names target a grantOption,
      InlineBuilt db u (.grant names target a grantOption) →
        ∀ schema,appliesTo target schema=true → schema=db.databaseName) ↔
      ∀ u∈db.users,u.ensure = .present → Confined db.databaseName u.grants := by
  have honly : ∀ {t : GrantTarget},t.database=db.databaseName →
      ((∀ schema,appliesTo t schema=true → schema=db.databaseName) ↔
        db.databaseName ≠ "*" ∧ (t.table ≠ "" ∨ '_'∉db.databaseName.toList)) := by
    intro t ht
    rw [← ht]
    exact appliesTo_only_iff (ht ▸ Database.schema_of_validate hvalid)
  constructor
  · intro hreach u hu hpresent
    by_cases hread : ∀ g∈u.grants,g.on = "" → db.databaseName = "*" ∨ bareName db.databaseName=true
    · by_cases htables : ∀ g∈u.grants,tableLevel g=true
      · exact .inr (.inl htables)
      · -- a grant on the whole schema is built
        push Not at htables
        obtain ⟨g,hg,htable⟩ := htables
        obtain ⟨stmts,hstmts,hmem⟩ := exists_inlineStatements hvalid hu hread "" mySQLDialect
        obtain ⟨names,target,hclause⟩ := exists_inlineClause hvalid hu hg (hread g hg)
        have htarget := target_of_inlineClause hclause
        have hplain := (honly (database_of_target hvalid hu hg htarget)).mp (hreach u hu names target _ _
          ⟨hpresent,_,stmts,hmem g hg names target hclause,.inl ⟨"",hstmts⟩⟩)
        refine .inl ⟨hplain.1,hplain.2.resolve_left fun hne => htable ?_⟩
        by_cases hon : g.on = ""
        · rw [(target_of_omitted hvalid hon hclause).2] at hne
          exact absurd rfl hne
        · rw [defaultGrantTarget,if_neg hon] at htarget
          rw [tableLevel,htarget]
          exact decide_eq_true hne
    · push Not at hread
      obtain ⟨g,hg,hon,hstar,hbare⟩ := hread
      exact .inr (.inr ⟨g,hg,hon,hstar,by simpa using hbare⟩)
  · intro hconfined u hu names target a grantOption hbuilt
    obtain ⟨grants,hgrants,hmem⟩ := grants_of_inlineBuilt hbuilt
    rw [grantStatements,if_neg (by simp)] at hgrants
    obtain ⟨p,hp,names',target',hclause,heq⟩ := exists_entry hgrants hmem
    cases heq
    obtain ⟨g,hg,rfl⟩ := mem_map.mp hp
    have htarget := target_of_inlineClause hclause
    refine (honly (database_of_target hvalid hu hg htarget)).mpr ?_
    rcases hconfined u hu hbuilt.1 with ⟨hstar,hplain⟩ | htables | ⟨g',hg',hon,hstar,hbare⟩
    · exact ⟨hstar,.inr hplain⟩
    · have htable := htables g hg
      unfold tableLevel at htable
      split at htable
      · rename_i t ht
        have hon : g.on ≠ "" := by
          intro hon
          rw [hon] at ht
          cases ht
        rw [defaultGrantTarget,if_neg hon,ht] at htarget
        cases htarget
        have hne := of_decide_eq_true htable
        have hdb := database_of_table ht hne
        rw [database_of_target hvalid hu hg (by rw [defaultGrantTarget,if_neg hon,ht])] at hdb
        exact ⟨hdb,.inl hne⟩
      · cases htable
    · obtain ⟨stmt,-,hbuilt'⟩ := exists_of_forall₂ (forall₂_of_mapM hgrants) (mem_map_of_mem hg')
      obtain ⟨-,names',target',hclause',-⟩ := entryStatement_eq_ok.mp hbuilt'
      exact absurd (target_of_omitted hvalid hon hclause').1 (by simp [hstar,hbare])

end

/-- A schema with one user, whose grant leaves out the target. -/
def appDatabase (schema : String) (privileges : List String) : Database where
  name := "app"
  specName := schema
  users := [{ name := "app", grants := [{ privileges }] }]

theorem inline_grants_confined_app :
    (appDatabase "app" ["SELECT"]).validate=[] ∧
      ∀ u∈(appDatabase "app" ["SELECT"]).users,∀ names target a grantOption,
        InlineBuilt (appDatabase "app" ["SELECT"]) u (.grant names target a grantOption) →
          ∀ schema,appliesTo target schema=true → schema = "app" :=
  ⟨by decide +kernel,(inline_grants_confined_iff (appDatabase "app" ["SELECT"]) (by decide +kernel)).mpr
    fun _ _ _ => .inl (by decide)⟩

/-- The grants of `my_app` reach `myXapp`, those of `*` every schema. -/
theorem inline_grants_reach_others : ["my_app","*"].Forall fun name =>
    (appDatabase name ["SELECT"]).validate=[] ∧ ∃ u∈(appDatabase name ["SELECT"]).users,
      ∃ names target a grantOption,
        InlineBuilt (appDatabase name ["SELECT"]) u (.grant names target a grantOption) ∧
          appliesTo target "myXapp"=true := by
  refine forall_iff_forall_mem.mpr ?_
  intro name hname
  suffices hbuilt : (appDatabase name ["SELECT"]).validate=[] ∧
      createUserStatements (inlineCreate (appDatabase name ["SELECT"])
        { name := "app", grants := [{ privileges := ["SELECT"] }] } "") mySQLDialect =
          .ok [.createUser ⟨"app","%"⟩ "" .none {},
            .grant ["SELECT"] { database := name } ⟨"app","%"⟩ false] ∧
      appliesTo { database := name } "myXapp"=true from
    ⟨hbuilt.1,_,mem_singleton_self _,_,_,_,_,
      ⟨rfl,_,_,mem_cons_of_mem _ (mem_singleton_self _),.inl ⟨"",hbuilt.2.1⟩⟩,hbuilt.2.2⟩
  revert name
  decide +kernel

end Cnmsql.Controller
