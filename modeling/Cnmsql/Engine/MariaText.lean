import Cnmsql.Engine.MariaPos
import Cnmsql.Replication.GtidText

namespace Cnmsql.Engine

open Framework Replication List

variable (raw : String)

/-- One `domain-server-seq` of a position. -/
def parseTriple (triple : List Char) : Except String (UInt32 × MariaEntry) :=
  match triple.splitOn '-' with
  | [domainPart,serverPart,seqPart] => do
    let domain ← (parseUint 32 domainPart).mapError fun err =>
      "invalid mariadb gtid domain in " ++ (String.ofList triple).quote ++ ": " ++ err
    let server ← (parseUint 32 serverPart).mapError fun err =>
      "invalid mariadb gtid server_id in " ++ (String.ofList triple).quote ++ ": " ++ err
    let seq ← (parseUint 64 seqPart).mapError fun err =>
      "invalid mariadb gtid sequence in " ++ (String.ofList triple).quote ++ ": " ++ err
    .ok (UInt32.ofNat domain,⟨UInt32.ofNat server,UInt64.ofNat seq⟩)
  | _ => .error ("invalid mariadb gtid " ++ (String.ofList triple).quote ++ " in position " ++
      raw.quote ++ ": want domain-server-seq")

/-- The loop of `parseMariaPos`. -/
def parseTriples (raw : String) : List (List Char) → MariaPos → Except String MariaPos
  | [],pos => .ok pos
  | triple::rest,pos =>
    match parseTriple raw triple with
    | .error e => .error e
    | .ok (domain,e) => parseTriples raw rest (pos.keep domain e)

def parseMariaPos : Except String MariaPos :=
  let cleaned := raw.toList.filter fun c => !isBlank c
  if cleaned=[] then .ok ∅ else parseTriples raw (cleaned.splitOn ',') ∅

variable (domain : UInt32) (e : MariaEntry)

def tripleString : List Char :=
  ['-'].intercalate [Nat.toDigits 10 domain.toNat,Nat.toDigits 10 e.server.toNat,
    Nat.toDigits 10 e.seq.toNat]

namespace MariaPos

variable (p : MariaPos)

def domains : List UInt32 := p.keys.insertionSort (·≤·)

def domainString (domain : UInt32) : List Char :=
  tripleString domain ((p.lookup domain).getD ⟨0,0⟩)

def string : String :=
  String.ofList ([','].intercalate (p.domains.map p.domainString))

theorem mem_domains (d : UInt32) : d∈p.domains ↔ (p.lookup d).isSome := by
  rw [domains,mem_insertionSort,AList.lookup_isSome,AList.mem_keys]

theorem nodup_domains : p.domains.Nodup := by
  rw [domains,(perm_insertionSort (·≤·) _).nodup_iff]
  exact p.nodupKeys

theorem string_congr {p q : MariaPos} (h : ∀ d,p.lookup d=q.lookup d) : p.string=q.string := by
  have hsorted : ∀ p : MariaPos,p.domains.Pairwise (·≤·) := fun p => pairwise_insertionSort _ _
  have hdomains : p.domains=q.domains := by
    apply Perm.eq_of_pairwise (fun _ _ _ _ => UInt32.le_antisymm) (hsorted p) (hsorted q)
    rw [perm_ext_iff_of_nodup p.nodup_domains q.nodup_domains]
    intro d
    rw [mem_domains,mem_domains,h]
  have hstring : p.domainString=q.domainString := by
    funext d
    rw [domainString,domainString,h]
  rw [string,string,hdomains,hstring]

end MariaPos

theorem tripleString_plain (c : Char)
    (h : c∈tripleString domain e) : c ≠ ',' ∧ isBlank c=false := by
  cases mem_intercalate '-' c _ h with
  | inl h =>
    subst h
    decide
  | inr h =>
    obtain ⟨l,hl,hc⟩ := h
    simp only [mem_cons,not_mem_nil,or_false] at hl
    rcases hl with rfl | rfl | rfl
    · exact (digit_clean _ c hc).2.elim fun h h' => ⟨h,h'.2⟩
    · exact (digit_clean _ c hc).2.elim fun h h' => ⟨h,h'.2⟩
    · exact (digit_clean _ c hc).2.elim fun h h' => ⟨h,h'.2⟩

theorem parseTriple_tripleString : parseTriple raw (tripleString domain e) = .ok (domain, e) := by
  have hsplit : (tripleString domain e).splitOn '-' =
      [Nat.toDigits 10 domain.toNat,Nat.toDigits 10 e.server.toNat,
        Nat.toDigits 10 e.seq.toNat] := by
    apply splitOn_intercalate
    · intro l hl hc
      simp only [mem_cons,not_mem_nil,or_false] at hl
      rcases hl with rfl | rfl | rfl
      · exact (digit_clean _ _ hc).1 rfl
      · exact (digit_clean _ _ hc).1 rfl
      · exact (digit_clean _ _ hc).1 rfl
    · simp
  have hd := parseUint_toDigits domain.toNat_lt
  have hs := parseUint_toDigits e.server.toNat_lt
  have hq := parseUint_toDigits e.seq.toNat_lt
  simp only [parseTriple,hsplit]
  rw [bind_eq_ok]
  refine ⟨domain.toNat,mapError_eq_ok.mpr hd,?_⟩
  rw [bind_eq_ok]
  refine ⟨e.server.toNat,mapError_eq_ok.mpr hs,?_⟩
  rw [bind_eq_ok]
  refine ⟨e.seq.toNat,mapError_eq_ok.mpr hq,?_⟩
  simp

theorem parseTriples_render (raw : String) (p : MariaPos) (ds : List UInt32) (acc : MariaPos)
    (hds : ∀ d∈ds,(p.lookup d).isSome) (hnd : ds.Nodup)
    (hacc : ∀ d∈ds,acc.lookup d=none) :
    ∃ q,parseTriples raw (ds.map p.domainString) acc = .ok q ∧
      ∀ d,q.lookup d=if d∈ds then p.lookup d else acc.lookup d := by
  induction ds generalizing acc with
  | nil => exact ⟨acc,rfl,by simp⟩
  | cons d ds ih =>
    obtain ⟨hnot,hnd⟩ := nodup_cons.mp hnd
    obtain ⟨e,he⟩ := Option.isSome_iff_exists.mp (hds d (by simp))
    have hkeep : acc.keep d e=acc.insert d e := by
      simp [MariaPos.keep,hacc d (by simp)]
    obtain ⟨q,hq,hlook⟩ := ih (acc.insert d e) (fun d' h => hds d' (by simp [h])) hnd (by
      intro d' h
      have hne : d'≠d := fun heq => hnot (heq ▸ h)
      rw [AList.lookup_insert_ne hne]
      exact hacc d' (by simp [h]))
    refine ⟨q,?_,?_⟩
    · rw [map_cons,parseTriples,MariaPos.domainString,he,Option.getD_some,
        parseTriple_tripleString]
      simp only
      rw [hkeep,hq]
    · intro d'
      rw [hlook]
      by_cases hd : d'=d
      · subst hd
        simp [hnot,he]
      · simp [hd,AList.lookup_insert_ne hd]

theorem parseMariaPos_string (p : MariaPos) :
    ∃ q,parseMariaPos p.string = .ok q ∧ ∀ d, q.lookup d=p.lookup d := by
  have htext : p.string.toList=[','].intercalate (p.domains.map p.domainString) := by
    simp [MariaPos.string]
  have hclean : (p.string.toList.filter fun c => !isBlank c)=p.string.toList := by
    rw [filter_eq_self,htext]
    intro c hc
    cases mem_intercalate ',' c _ hc with
    | inl h =>
      subst h
      decide
    | inr h =>
      obtain ⟨l,hl,hcl⟩ := h
      obtain ⟨d,_,rfl⟩ := mem_map.mp hl
      simp [(tripleString_plain _ _ c hcl).2]
  obtain ⟨q,hq,hlook⟩ := parseTriples_render p.string p p.domains ∅
    (fun d h => (p.mem_domains d).mp h) p.nodup_domains (fun d _ => AList.lookup_empty d)
  have hfull : ∀ d, q.lookup d=p.lookup d := by
    intro d
    rw [hlook]
    split
    · rfl
    · rename_i h
      rw [p.mem_domains,Option.not_isSome_iff_eq_none] at h
      rw [h,AList.lookup_empty]
  simp only [parseMariaPos,hclean]
  cases hdom : p.domains with
  | nil =>
    refine ⟨∅,by simp [htext,hdom],?_⟩
    intro d
    rw [← hfull d,hlook,hdom]
    simp
  | cons d ds =>
    have hsplit : p.string.toList.splitOn ','=p.domains.map p.domainString := by
      rw [htext]
      apply splitOn_intercalate
      · intro l hl hc
        obtain ⟨d',_,rfl⟩ := mem_map.mp hl
        exact (tripleString_plain _ _ ',' hc).1 rfl
      · simp [hdom]
    have hne : p.string.toList≠[] := by
      intro he
      rw [he,hdom,splitOn_nil,map_cons,List.cons.injEq] at hsplit
      have hback := parseTriple_tripleString "" d ((p.lookup d).getD ⟨0,0⟩)
      rw [← MariaPos.domainString,← hsplit.1] at hback
      simp [parseTriple] at hback
    exact ⟨q,by rw [if_neg hne,hsplit,hq],hfull⟩

/-- A position's text is a normal form: read and rendered again it is the same, and texts are equal
exactly when the positions are. -/
theorem MariaPos.string_normal (p q : MariaPos) :
    (∃ r,parseMariaPos p.string = .ok r ∧ r.string=p.string) ∧
      (p.string=q.string ↔ ∀ d,p.lookup d=q.lookup d) := by
  obtain ⟨r,hr,hp⟩ := parseMariaPos_string p
  obtain ⟨r',hr',hq⟩ := parseMariaPos_string q
  refine ⟨⟨r,hr,string_congr hp⟩,?_,string_congr⟩
  intro h d
  rw [h,hr',Except.ok.injEq] at hr
  rw [← hp,← hq,hr]

end Cnmsql.Engine
