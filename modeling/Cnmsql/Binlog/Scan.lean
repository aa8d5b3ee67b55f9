import Cnmsql.Binlog.Archiver
import Cnmsql.Instance.GroupJoin

namespace Cnmsql.Binlog

open Framework Replication Instance ObjectStore List

def isUUIDChar (c : Char) : Bool := isHex c || c = '-'

/-- What `gtidNextRe` captures. -/
structure GtidNext where
  uuid : List Char
  digits : List Char
  length : uuid.length=36
  hex : uuid.all isUUIDChar=true
  ne_nil : digits≠[]
  digit : ∀ c∈digits,c.isDigit=true

/-- A literal under `(?i)`, where the long s is one too. -/
def literal (w : String) (cs : List Char) : Option (List Char) :=
  if (cs.take w.length).map (fun c => if c = 'ſ' then 'S' else c.toUpper)=w.toList then
    some (cs.drop w.length)
  else none

def skipSpace (cs : List Char) : List Char := cs.dropWhile fun c => isBlank c || c = '\x0c'

/-- `gtidNextRe` at one place of a line. -/
def gtidNextAt (cs : List Char) : Option GtidNext := do
  let cs ← literal "SET" cs
  if skipSpace cs=cs then none
  else
    let cs ← literal "@@SESSION.GTID_NEXT" (skipSpace cs)
    let cs ← literal "=" (skipSpace cs)
    let cs ← literal "'" (skipSpace cs)
    let number ← literal ":" (cs.drop 36)
    let _ ← literal "'" (number.dropWhile Char.isDigit)
    if h : (cs.take 36).length=36 ∧ (cs.take 36).all isUUIDChar=true ∧
        number.takeWhile Char.isDigit≠[] then
      some ⟨_,_,h.1,h.2.1,h.2.2,fun _ => mem_takeWhile_imp⟩
    else none

def gtidNextRe (line : String) : Option GtidNext := line.toList.tails.findSome? gtidNextAt

/-- `gtidSetLineRe`, `eventHeaderRe` with its time, and `prevGTIDsLabelRe`. -/
structure LinePatterns where
  gtidSetLine : String → Option String
  eventHeader : String → Option (Option Time)
  prevGTIDsLabel : String → Bool

inductive ScanLine where
  | previousGTIDs (raw : String)
  | eventHeader (ts : Option Time)
  | gtidNext (m : GtidNext)

/-- What the loop takes the lines for; a set only counts right after a labelled header. -/
def scanLines (p : LinePatterns) (expectPrevGTIDs : Bool) : List String → List ScanLine
  | [] => []
  | line::rest =>
    match if expectPrevGTIDs then p.gtidSetLine line else none with
    | some raw => .previousGTIDs raw::scanLines p false rest
    | none =>
      match p.eventHeader line with
      | some ts => .eventHeader ts::scanLines p (p.prevGTIDsLabel line) rest
      | none => ((gtidNextRe line).map ScanLine.gtidNext).toList++scanLines p false rest

/-- The loop of `parsePositiveInt`, whose arithmetic wraps. -/
def positiveLoop (n : Int64) : List Char → Option Int64
  | [] => if n>0 then some n else none
  | r::rest =>
    if r < '0' ∨ '9'<r then none else positiveLoop (n*10+.ofNat (r.toNat - '0'.toNat)) rest

def parsePositiveInt (s : List Char) : Option Int64 := positiveLoop 0 s

def GtidNext.number (m : GtidNext) : Nat := .ofDigitChars 10 m.digits 0

theorem positiveLoop_eq {ds : List Char} (h : ∀ c∈ds,c.isDigit=true) (n : Nat) :
    positiveLoop (.ofNat n) ds=positiveLoop (.ofNat (.ofDigitChars 10 ds n)) [] := by
  induction ds generalizing n with
  | nil => rfl
  | cons c ds ih =>
    rw [forall_mem_cons] at h
    have hc : ¬(c < '0' ∨ '9'<c) := by simpa [Char.isDigit,Char.le_def] using h.1
    rw [Nat.ofDigitChars_cons,← ih h.2,positiveLoop,if_neg hc,Int64.ofNat_add,
      Int64.ofNat_mul,Int64.mul_comm]
    rfl

/-- A number counts modulo `2^64`, and is rejected where that is no positive `int64`. -/
theorem parsePositiveInt_eq_some {m : GtidNext} {n : Int64} : parsePositiveInt m.digits=some n ↔
    n.toInt=(m.number%2^64 : Nat) ∧ 0 < m.number%2^64 ∧ m.number%2^64<2^63 := by
  have hparse : parsePositiveInt m.digits=positiveLoop (.ofNat m.number) [] :=
    positiveLoop_eq m.digit 0
  have hval : (Int64.ofNat m.number).toInt=(m.number : Int).bmod (2^64) := Int64.toInt_ofNat'
  rw [hparse,positiveLoop,Option.ite_none_right_eq_some,Option.some.injEq,gt_iff_lt,
    Int64.lt_iff_toInt_lt,← Int64.toInt_inj,hval,Int.bmod,Int64.toInt_zero]
  omega

section

variable [CaseMapping]

def GtidNext.gtid (m : GtidNext) : String :=
  toLower (.ofList m.uuid) ++ ":" ++ .ofList m.digits

def scanStep (s : ScanResult × GTIDSet) : ScanLine → ScanResult × GTIDSet
  | .previousGTIDs raw => ({ s.1 with previousGTIDs := canonicalGTIDSet raw },s.2)
  | .eventHeader none => s
  | .eventHeader (some ts) =>
    ({ s.1 with
      firstEventTime := if s.1.firstEventTime=0 then ts else s.1.firstEventTime
      lastEventTime := ts },s.2)
  | .gtidNext m =>
    match parsePositiveInt m.digits with
    | none => s
    | some n =>
      ({ s.1 with
        firstGTID := if s.1.firstGTID="" then m.gtid else s.1.firstGTID
        lastGTID := m.gtid },
      s.2.addInterval (toLower (.ofList m.uuid)) ⟨n.toInt.toNat,n.toInt.toNat⟩)

/-- `scanMySQL` on the lines its scanner gives, and the error it ends with. -/
def scanMySQL (p : LinePatterns) (lines : List String) (err : Option String) :
    Except String ScanResult :=
  let s := (scanLines p false lines).foldl scanStep ({},∅)
  match err with
  | some err => .error ("binlog: scanning mysqlbinlog output: " ++ err)
  | none => .ok { s.1 with gtidSet := s.2.string }

/-- The transaction a captured text names. -/
def GtidNext.txn (m : GtidNext) : Txn := (toLower (.ofList m.uuid),m.number)

def captured (lines : List ScanLine) : List GtidNext :=
  lines.filterMap fun
    | .gtidNext m => some m
    | _ => none

/-- The captures whose number is not rejected. -/
def accepted (read : List GtidNext) : List GtidNext :=
  read.filter fun m => (parsePositiveInt m.digits).isSome

structure Exact (read : List GtidNext) (res : ScanResult) : Prop where
  number : ∀ m∈read,∀ n∈parsePositiveInt m.digits,n.toInt=m.number
  set : gtids res.gtidSet=GtidNext.txn '' {m | m∈accepted read}
  first : ∀ m∈(accepted read).head?,res.firstGTID=m.gtid ∧ m.txn∈gtids res.gtidSet
  last : ∀ m∈(accepted read).getLast?,res.lastGTID=m.gtid ∧ m.txn∈gtids res.gtidSet

theorem GtidNext.wfUuid (m : GtidNext) : WfUuid (toLower (.ofList m.uuid)) := by
  apply wfUuid_of_piece
  · intro h
    simpa [m.length] using congrArg (·.toList.length) h
  · intro c hc
    have hne : ∀ x : Char,¬isUUIDChar x → c≠x := fun x hx h => hx (h ▸ all_eq_true.mp m.hex c hc)
    simp [isBlank,hne ',' (by decide),hne ':' (by decide),hne ' ' (by decide),
      hne '\n' (by decide),hne '\r' (by decide),hne '\t' (by decide)]

structure Scanned (l : List GtidNext) (s : ScanResult × GTIDSet) : Prop where
  first : s.1.firstGTID=(l.head?.map GtidNext.gtid).getD ""
  last : s.1.lastGTID=(l.getLast?.map GtidNext.gtid).getD ""
  canonical : s.2.Canonical
  txns : s.2.txns=(fun m : GtidNext => (m.txn.1,m.number%2^64)) '' {m | m∈l}

theorem Scanned.step {l : List GtidNext} {s : ScanResult × GTIDSet} (h : Scanned l s)
    (line : ScanLine) : Scanned (l++accepted (captured [line])) (scanStep s line) := by
  have hskip : Scanned (l++[]) s := by rwa [append_nil]
  cases line with
  | previousGTIDs raw => exact { hskip with }
  | eventHeader ts =>
    cases ts with
    | none => exact hskip
    | some ts => exact { hskip with }
  | gtidNext m =>
    simp only [accepted,captured,scanStep,filterMap_cons,filterMap_nil,filter_cons]
    cases hn : parsePositiveInt m.digits with
    | none => exact hskip
    | some n =>
      obtain ⟨hval,hr⟩ := parsePositiveInt_eq_some.mp hn
      obtain ⟨hc,ht⟩ := s.2.addInterval_correct h.canonical _ m.wfUuid
        ⟨m.number%2^64,m.number%2^64⟩ ⟨hr.1,le_rfl,Nat.le_pred_of_lt hr.2⟩
      simp only [hval,Int.toNat_natCast]
      refine ⟨?_,by simp,hc,?_⟩
      · rw [h.first]
        cases l with
        | nil => simp
        | cons a l => simp [GtidNext.gtid]
      · rw [ht,h.txns]
        ext t
        simp [Span.Has,← le_antisymm_iff,GtidNext.txn,or_and_right,exists_or,Prod.ext_iff,eq_comm]

theorem scanned (lines : List ScanLine) :
    Scanned (accepted (captured lines)) (lines.foldl scanStep ({},∅)) := by
  induction lines using List.reverseRecOn with
  | nil => exact ⟨rfl,rfl,GTIDSet.canonical_empty,by simp [GTIDSet.txns_empty,accepted,captured]⟩
  | append_singleton lines line ih =>
    rw [captured,filterMap_append,accepted,filter_append,foldl_append]
    exact ih.step line

/-- The scan is exact exactly when each number it reads fits an `int64`, or wraps to one that is
rejected. -/
theorem scanMySQL_exact_iff (p : LinePatterns) (lines : List String) :
    ∃ res,scanMySQL p lines none = .ok res ∧ (Exact (captured (scanLines p false lines)) res ↔
      ∀ m∈captured (scanLines p false lines),
        m.number<2^63 ∨ m.number%2^64=0 ∨ 2^63 ≤ m.number%2^64) := by
  refine ⟨_,rfl,?_⟩
  obtain ⟨hf,hl,hc,ht⟩ := scanned (scanLines p false lines)
  generalize captured (scanLines p false lines)=read at *
  generalize (scanLines p false lines).foldl scanStep ({},∅)=s at *
  constructor
  · intro h m hm
    by_contra hbig
    have hval : (Int64.ofNat (m.number%2^64)).toInt=(m.number%2^64 : Nat) :=
      Int64.toInt_ofNat_of_lt (by omega)
    have := h.number m hm _ (parsePositiveInt_eq_some.mpr ⟨hval,by omega,by omega⟩)
    omega
  · intro h
    have hexact : ∀ m∈read,∀ n∈parsePositiveInt m.digits,m.number%2^64=m.number := by
      intro m hm n hn
      have := parsePositiveInt_eq_some.mp hn
      have := h m hm
      omega
    have hset := ht.trans (Set.image_congr (g := GtidNext.txn) (by
      intro m hm
      obtain ⟨hm,hn⟩ := mem_filter.mp hm
      obtain ⟨n,hn⟩ := Option.isSome_iff_exists.mp hn
      rw [hexact m hm n hn]
      rfl))
    rw [← (gtids_string hc).2] at hset
    have hmem : ∀ m∈accepted read,m.txn∈gtids s.2.string := by
      intro m hm
      rw [hset]
      exact ⟨m,hm,rfl⟩
    refine ⟨?_,hset,?_,?_⟩
    · intro m hm n hn
      rw [(parsePositiveInt_eq_some.mp hn).1,hexact m hm n hn]
    · intro m hm
      exact ⟨by rw [hf,hm]; rfl,hmem m (mem_of_mem_head? hm)⟩
    · intro m hm
      exact ⟨by rw [hl,hm]; rfl,hmem m (mem_of_mem_getLast? hm)⟩

end

/-- Its number is `2^64+1`. -/
def wrapping : String :=
  "SET @@SESSION.GTID_NEXT= '3e11fa47-71ca-11e1-9e33-c80aa9429562:18446744073709551617'/*!*/;"

theorem scanMySQL_wraps : (gtidNextRe wrapping).map GtidNext.number=some (2^64+1) ∧
    (scanMySQL ⟨fun _ => none,fun _ => none,fun _ => false⟩ [wrapping] none).map (·.gtidSet) =
      .ok "3e11fa47-71ca-11e1-9e33-c80aa9429562:1" := by
  decide +kernel

end Cnmsql.Binlog
