import Cnmsql.Engine.MariaText
import Cnmsql.Replication.GtidStrings

namespace Cnmsql.Engine

open Framework Replication

/-- The interface through which a flavor's positions are interpreted. -/
structure GTIDModel where
  contains : String → String → Except String Bool
  missingCount : String → String → Except String Int
  union : List String → Except String String

/-- What the texts of a flavor mean, and that its operations respect it. -/
structure GTIDModel.Laws (m : GTIDModel) {τ : Type} (txns : String → Set τ) : Prop where
  contains : ∀ a b,m.contains a b = .ok true → txns b ⊆ txns a
  union : ∀ sets u,m.union sets = .ok u → txns u={t | ∃ raw∈sets,t∈txns raw}
  missingCount : ∀ a b want i j,m.missingCount a want = .ok i → m.missingCount b want = .ok j →
    txns a ⊆ txns b → j ≤ i

section

variable [CaseMapping]

/-- The MySQL model delegates to the replication package. -/
def mysqlGTID : GTIDModel where
  contains superset subset := (gtidContains superset subset).mapError GTIDError.message
  missingCount haveText want := do
    let setHave ← (parseGTIDSet haveText).mapError GTIDError.message
    let setWant ← (parseGTIDSet want).mapError GTIDError.message
    .ok (setHave.missingCount setWant : Int)
  union sets := (unionGTIDStrings sets).mapError GTIDError.message

theorem mysqlGTID_laws : mysqlGTID.Laws gtids where
  contains a b h := by
    have h : gtidContains a b = .ok true := mapError_eq_ok.mp h
    exact subset_of_gtidContains h
  union sets u h := by
    have h : unionGTIDStrings sets = .ok u := mapError_eq_ok.mp h
    obtain ⟨v,hv,_,hg⟩ := unionGTIDStrings_correct sets (unionGTIDStrings_parses h)
    rw [h] at hv
    cases hv
    exact hg
  missingCount a b want i j ha hb hsub := by
    have hcount : ∀ raw n,mysqlGTID.missingCount raw want = .ok n →
        ∃ s w,parseGTIDSet raw = .ok s ∧ parseGTIDSet want = .ok w ∧
          n=(s.missingCount w : Int) := by
      intro raw n h
      simp only [mysqlGTID,bind_eq_ok,mapError_eq_ok] at h
      obtain ⟨s,hs,w,hw,hn⟩ := h
      cases hn
      exact ⟨s,w,hs,hw,rfl⟩
    obtain ⟨s,w,hs,hw,rfl⟩ := hcount a i ha
    obtain ⟨t,w',ht,hw',rfl⟩ := hcount b j hb
    rw [hw] at hw'
    cases hw'
    rw [gtids_of_parse a s hs,gtids_of_parse b t ht] at hsub
    exact_mod_cast GTIDSet.missingCount_anti s t w (parseGTIDSet_canonical hs)
      (parseGTIDSet_canonical ht) (parseGTIDSet_canonical hw) hsub

end

namespace MariaPos

def merge (acc p : MariaPos) : MariaPos := p.entries.foldl (fun u e => u.keep e.1 e.2) acc

theorem le_reached_foldl_keep (l : List (Sigma fun _ : UInt32 => MariaEntry)) (acc : MariaPos)
    (d : UInt32) (k : Nat) :
    k≤reached (l.foldl (fun u e => u.keep e.1 e.2) acc) d ↔
      k≤acc.reached d ∨ ∃ e∈l, d=e.1 ∧ k≤e.2.seq.toNat := by
  induction l generalizing acc with
  | nil => simp
  | cons e l ih =>
    rw [List.foldl_cons,ih,reached_keep]
    simp only [List.mem_cons,exists_eq_or_imp]
    by_cases hd : d=e.1
    · simp only [hd,if_true,true_and,le_max_iff,or_assoc]
    · simp only [hd,if_false,false_and,false_or]

theorem le_reached_iff (p : MariaPos) (d : UInt32) (k : Nat) (hk : 1≤k) :
    k≤p.reached d ↔ ∃ e∈p.entries, d=e.1 ∧ k≤e.2.seq.toNat := by
  constructor
  · intro h
    cases hl : p.lookup d with
    | none =>
      simp only [reached,hl,Option.map_none,Option.getD_none] at h
      omega
    | some e =>
      simp only [reached,hl,Option.map_some,Option.getD_some] at h
      exact ⟨⟨d,e⟩,AList.mem_lookup_iff.mp hl,rfl,h⟩
  · intro h
    obtain ⟨⟨d',e⟩,he,hd,hle⟩ := h
    cases hd
    have hl : p.lookup d'=some e := AList.mem_lookup_iff.mpr he
    simpa only [reached,hl,Option.map_some,Option.getD_some] using hle

theorem txns_merge (acc p : MariaPos) : (acc.merge p).txns=acc.txns ∪ p.txns := by
  apply Set.ext
  intro t
  show 1≤t.2 ∧ t.2≤reached (p.entries.foldl (fun u e => u.keep e.1 e.2) acc) t.1 ↔
    (1≤t.2 ∧ t.2≤acc.reached t.1) ∨ (1≤t.2 ∧ t.2≤p.reached t.1)
  rw [le_reached_foldl_keep,← and_or_left]
  apply and_congr_right
  intro hpos
  rw [le_reached_iff p t.1 t.2 hpos]

theorem txns_empty : (∅ : MariaPos).txns=∅ := by
  apply Set.eq_empty_of_forall_notMem
  intro t ht
  have hle := ht.2
  have hpos := ht.1
  rw [reached,AList.lookup_empty] at hle
  simp only [Option.map_none,Option.getD_none] at hle
  omega

end MariaPos

/-- The loop of `mariadbGTID.Union`. -/
def mariaUnion : List String → MariaPos → Except String String
  | [],union => .ok union.string
  | raw::rest,union => do
    let pos ← parseMariaPos raw
    mariaUnion rest (union.merge pos)

def mariadbGTID : GTIDModel where
  contains superset subset := do
    let super ← parseMariaPos superset
    let sub ← parseMariaPos subset
    .ok (super.contains sub)
  missingCount haveText want := do
    let posHave ← parseMariaPos haveText
    let posWant ← parseMariaPos want
    .ok (posHave.missingCount posWant : Int)
  union sets := mariaUnion sets ∅

/-- The transactions a MariaDB position text holds. -/
def mariaTxns (raw : String) : Set (UInt32 × Nat) :=
  match parseMariaPos raw with
  | .ok p => p.txns
  | .error _ => ∅

theorem mariaTxns_of_parse {raw : String} {p : MariaPos} (h : parseMariaPos raw = .ok p) :
    mariaTxns raw=p.txns := by
  rw [mariaTxns,h]

theorem mariaTxns_string (p : MariaPos) : mariaTxns p.string=p.txns := by
  obtain ⟨q,hq,hlook⟩ := parseMariaPos_string p
  rw [mariaTxns_of_parse hq]
  apply Set.ext
  intro t
  simp only [MariaPos.txns,MariaPos.reached,hlook]

theorem mariaUnion_correct (sets : List String) (acc : MariaPos) (u : String)
    (h : mariaUnion sets acc = .ok u) :
    mariaTxns u=acc.txns ∪ {t | ∃ raw∈sets, t∈mariaTxns raw} := by
  induction sets generalizing acc with
  | nil =>
    cases h
    simp [mariaTxns_string]
  | cons raw rest ih =>
    rw [mariaUnion,bind_eq_ok] at h
    obtain ⟨p,hp,h⟩ := h
    rw [ih _ h,MariaPos.txns_merge,Set.union_assoc]
    congr 1
    apply Set.ext
    intro t
    simp [mariaTxns_of_parse hp]

theorem mariadbGTID_laws : mariadbGTID.Laws mariaTxns where
  contains a b h := by
    simp only [mariadbGTID,bind_eq_ok] at h
    obtain ⟨p,hp,q,hq,hc⟩ := h
    rw [mariaTxns_of_parse hp,mariaTxns_of_parse hq,MariaPos.txns_subset_iff]
    exact p.reached_le_of_contains q (by simpa using hc)
  union sets u h := by
    rw [mariaUnion_correct sets ∅ u h,MariaPos.txns_empty,Set.empty_union]
  missingCount a b want i j ha hb hsub := by
    simp only [mariadbGTID,bind_eq_ok] at ha hb
    obtain ⟨p,hp,w,hw,hi⟩ := ha
    obtain ⟨q,hq,w',hw',hj⟩ := hb
    rw [hw] at hw'
    cases hw'
    cases hi
    cases hj
    rw [mariaTxns_of_parse hp,mariaTxns_of_parse hq,MariaPos.txns_subset_iff] at hsub
    exact_mod_cast p.missingCount_anti q w hsub

/-- The engines a Cluster can run. -/
inductive Flavor where
  | mysql
  | mariadb
  deriving DecidableEq

/-- `ForFlavor`; an empty flavor is MySQL. -/
def forFlavor (flavor : String) : Except String Flavor :=
  if flavor = "mysql" ∨ flavor = "" then .ok .mysql
  else if flavor = "mariadb" then .ok .mariadb
  else .error ("unknown engine flavor " ++ flavor.quote)

namespace Flavor

variable [CaseMapping]

def gtid : Flavor → GTIDModel
  | .mysql => mysqlGTID
  | .mariadb => mariadbGTID

/-- A source and a number on MySQL, a domain and a sequence on MariaDB. -/
def Transaction : Flavor → Type
  | .mysql => Txn
  | .mariadb => UInt32 × Nat

def transactions : (f : Flavor) → String → Set f.Transaction
  | .mysql => gtids
  | .mariadb => mariaTxns

theorem gtid_laws (f : Flavor) : f.gtid.Laws f.transactions := by
  cases f with
  | mysql => exact mysqlGTID_laws
  | mariadb => exact mariadbGTID_laws

theorem subset_of_missingCount_eq_zero (f : Flavor) {a want : String}
    (h : f.gtid.missingCount a want = .ok 0) : f.transactions want ⊆ f.transactions a := by
  cases f with
  | mysql =>
    simp only [gtid,mysqlGTID,bind_eq_ok,mapError_eq_ok] at h
    obtain ⟨s,hs,w,hw,hn⟩ := h
    have hzero : s.missingCount w=0 := by simpa using hn
    show gtids want ⊆ gtids a
    rw [gtids_of_parse want w hw,gtids_of_parse a s hs]
    exact s.subset_of_missingCount_eq_zero w (parseGTIDSet_canonical hs)
      (parseGTIDSet_canonical hw) hzero
  | mariadb =>
    simp only [gtid,mariadbGTID,bind_eq_ok] at h
    obtain ⟨p,hp,w,hw,hn⟩ := h
    have hzero : p.missingCount w=0 := by simpa using hn
    show mariaTxns want ⊆ mariaTxns a
    rw [mariaTxns_of_parse hw,mariaTxns_of_parse hp]
    exact p.subset_of_missingCount_eq_zero w hzero

end Flavor

end Cnmsql.Engine
