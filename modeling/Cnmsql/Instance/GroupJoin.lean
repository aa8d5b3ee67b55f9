import Cnmsql.Framework.Result
import Cnmsql.Replication.GtidText

namespace Cnmsql.Instance

open Framework Replication List

def isHex (c : Char) : Bool :=
  c.isDigit || ('a'≤c && c ≤ 'f') || ('A'≤c && c ≤ 'F')

/-- `groupNameRe`: a UUID in any letter case. -/
def groupNameRe (s : String) : Bool :=
  match s.toList.splitOn '-' with
  | [a,b,c,d,e] =>
    a.length=8 ∧ b.length=4 ∧ c.length=4 ∧ d.length=4 ∧ e.length=12 ∧
      (a++b++c++d++e).all isHex
  | _ => false

def validateGroupName (groupName : String) : Option String :=
  if groupName ≠ "" ∧ groupNameRe groupName=false then some "groupName must be a valid UUID"
  else none

def lowerCase (s : String) : String := String.ofList (s.toList.map Char.toLower)

theorem isHex_clean {c : Char} (h : isHex c=true) :
    c ≠ '-' ∧ c ≠ ',' ∧ c ≠ ':' ∧ c ≠ '\n' := by
  refine ⟨?_,?_,?_,?_⟩ <;> rintro rfl <;> exact absurd h (by decide)

/-- 36 characters, four of them hyphens, and no separator of a set text. -/
theorem groupNameRe_shape {s : String} (h : groupNameRe s=true) :
    s.toList.length=36 ∧ s.toList.count '-'=4 ∧
      ∀ c∈s.toList,c ≠ ',' ∧ c ≠ ':' ∧ c ≠ '\n' := by
  unfold groupNameRe at h
  split at h
  · rename_i a b c d e hsplit
    simp only [decide_eq_true_eq,all_append,Bool.and_eq_true,all_eq_true] at h
    obtain ⟨ha,hb,hc,hd,he,⟨⟨⟨⟨hha,hhb⟩,hhc⟩,hhd⟩,hhe⟩⟩ := h
    have hjoin : s.toList=a ++ '-'::(b ++ '-'::(c ++ '-'::(d ++ '-'::e))) := by
      have hparts : ['-'].intercalate (s.toList.splitOn '-')=s.toList :=
        intercalate_splitOn ..
      rw [← hparts,hsplit]
      simp
    have hnone : ∀ l : List Char,(∀ x∈l,isHex x=true) → l.count '-'=0 := by
      intro l hl
      rw [count_eq_zero]
      intro hin
      exact absurd (hl '-' hin) (by decide)
    rw [hjoin]
    refine ⟨?_,?_,?_⟩
    · simp only [length_append,length_cons]
      omega
    · simp [count_append,hnone _ hha,hnone _ hhb,hnone _ hhc,hnone _ hhd,hnone _ hhe]
    · intro x hx
      simp only [mem_append,mem_cons] at hx
      have hclean : isHex x=true ∨ x = '-' := by
        rcases hx with h | h | h | h | h | h | h | h | h
        · exact .inl (hha x h)
        · exact .inr h
        · exact .inl (hhb x h)
        · exact .inr h
        · exact .inl (hhc x h)
        · exact .inr h
        · exact .inl (hhd x h)
        · exact .inr h
        · exact .inl (hhe x h)
      rcases hclean with h | rfl
      · exact (isHex_clean h).2
      · decide
  · cases h

section

/-- A set as the server prints it: lower-case sources, each with intervals. -/
structure ExecutedSet where
  sources : List (String × List GTIDInterval)
  uuid : ∀ e∈sources,groupNameRe e.1=true
  lower : ∀ e∈sources,lowerCase e.1=e.1
  nonempty : ∀ e∈sources,e.2≠[]
  valid : ∀ e∈sources,∀ iv∈e.2,Valid iv

def sourceText (e : String × List GTIDInterval) : List Char :=
  [':'].intercalate (e.1.toList::e.2.map intervalString)

variable (set : ExecutedSet)

def ExecutedSet.text : String :=
  String.ofList ([',','\n'].intercalate (set.sources.map sourceText))

def ExecutedSet.Holds (uuid : String) : Prop :=
  ∃ e∈set.sources,e.1=lowerCase uuid

def contains (s substr : String) : Bool := substr.toList <:+: s.toList

theorem count_intervalString (iv : GTIDInterval) : (intervalString iv).count '-'≤1 := by
  have hdigits : ∀ n,(Nat.toDigits 10 n).count '-'=0 := fun n =>
    count_eq_zero.mpr fun h => (digit_clean n '-' h).1 rfl
  unfold intervalString
  split <;> simp [count_append,hdigits]

/-- A UUID occurs in the text only as the name of a source. -/
theorem contains_text_iff {w : String} (hw : groupNameRe w=true) :
    contains set.text w=true ↔ ∃ e∈set.sources, e.1=w := by
  obtain ⟨hlen,hcount,hclean⟩ := groupNameRe_shape hw
  have hne : w.toList≠[] := by
    intro h
    simp [h] at hlen
  have hnot : ∀ c∈[',','\n'], c∉w.toList := by
    intro c hc hin
    have := hclean c hin
    simp only [mem_cons,not_mem_nil,or_false] at hc
    rcases hc with rfl | rfl <;> simp at this
  have hcolon : ∀ c∈[':'], c∉w.toList := by
    intro c hc hin
    rw [mem_singleton] at hc
    subst hc
    simpa using hclean ':' hin
  unfold contains ExecutedSet.text
  rw [decide_eq_true_eq,String.toList_ofList,infix_intercalate (by simp) hnot hne]
  simp only [mem_map,exists_exists_and_eq_and]
  refine exists_congr fun e => and_congr_right fun he => ?_
  unfold sourceText
  rw [infix_intercalate (by simp) hcolon hne]
  constructor
  · rintro ⟨t,ht,hin⟩
    rcases mem_cons.mp ht with rfl | ht
    · have hsame := (groupNameRe_shape (set.uuid e he)).1
      exact (String.toList_inj.mp (hin.eq_of_length (by omega))).symm
    · obtain ⟨iv,-,rfl⟩ := mem_map.mp ht
      have := hin.sublist.count_le '-'
      have := count_intervalString iv
      omega
  · rintro rfl
    exact ⟨_,mem_cons_self,infix_rfl⟩

end

/-- What a joining member reads, and what its statements come back with. -/
structure JoiningServer where
  serverUUID : Except String String
  gtidExecuted : Except String String
  groupName : Except String String
  resetBinaryLogs : Except String Unit := .ok ()
  forceClone : Except String Unit := .ok ()
  configureRecoveryChannel : String → String → Except String Unit := fun _ _ => .ok ()

inductive JoinStatement where
  | resetBinaryLogs
  | forceClone
  | configureRecoveryChannel (user password : String)
  deriving DecidableEq

/-- Whether this member has never been part of the group. -/
def isFreshMember (c : JoiningServer) : Except String Bool := do
  let uuid ← c.serverUUID
  let gtids ← c.gtidExecuted
  if contains gtids uuid=false then .ok false
  else do
    let groupName ← c.groupName
    .ok (groupName == "" || !contains gtids groupName)

variable (c : JoiningServer) (recoveryUser password : String)

/-- Readies a member to join the group: the statements it sent, and how it ended. -/
def prepareGroupJoin : List JoinStatement × Except String Unit :=
  match isFreshMember c with
  | .error err => ([], .error err)
  | .ok false =>
    ([.configureRecoveryChannel recoveryUser password],
      c.configureRecoveryChannel recoveryUser password)
  | .ok true =>
    match c.resetBinaryLogs with
    | .error err =>
      ([.resetBinaryLogs], .error ("clearing local GTIDs before group join: " ++ err))
    | .ok () =>
      match c.forceClone with
      | .error err =>
        ([.resetBinaryLogs,.forceClone], .error ("forcing clone for group join: " ++ err))
      | .ok () =>
        ([.resetBinaryLogs,.forceClone,.configureRecoveryChannel recoveryUser password],
          c.configureRecoveryChannel recoveryUser password)

theorem wipes_iff_fresh : (.resetBinaryLogs∈(prepareGroupJoin c recoveryUser password).1 ∨
      .forceClone∈(prepareGroupJoin c recoveryUser password).1) ↔ isFreshMember c = .ok true := by
  unfold prepareGroupJoin
  rcases isFreshMember c with err | fresh
  · simp
  · cases fresh with
    | false => simp
    | true =>
      rcases c.resetBinaryLogs with err | ⟨⟩
      · simp
      · rcases c.forceClone with err | ⟨⟩ <;> simp

structure Reports (set : ExecutedSet) (uuid groupName : String) : Prop where
  wellFormed : groupNameRe uuid=true
  lower : lowerCase uuid=uuid
  admitted : validateGroupName groupName=none
  configured : groupName ≠ ""
  readsUUID : c.serverUUID = .ok uuid
  readsSet : c.gtidExecuted = .ok set.text
  readsName : c.groupName = .ok groupName

def ExecutedSet.OnlyOwn (set : ExecutedSet) (uuid : String) : Prop :=
  set.sources≠[] ∧ ∀ e∈set.sources,e.1=uuid

variable {c : JoiningServer} {set : ExecutedSet} {uuid groupName : String}

theorem Reports.admitted_uuid (h : Reports c set uuid groupName) : groupNameRe groupName=true := by
  have hadmitted := h.admitted
  unfold validateGroupName at hadmitted
  by_contra hbad
  rw [if_pos ⟨h.configured,by simpa using hbad⟩] at hadmitted
  cases hadmitted

theorem Reports.isFreshMember_iff (h : Reports c set uuid groupName) :
    isFreshMember c = .ok true ↔
      (∃ e∈set.sources,e.1=uuid) ∧ ¬∃ e∈set.sources, e.1=groupName := by
  rw [← contains_text_iff set h.wellFormed,← contains_text_iff set h.admitted_uuid]
  simp only [isFreshMember,h.readsUUID,h.readsSet,h.readsName,bind,Except.bind]
  cases contains set.text uuid <;> cases contains set.text groupName <;> simp [h.configured]

theorem ExecutedSet.named_iff (set : ExecutedSet) (uuid : String) :
    (∃ e∈set.sources,e.1=uuid) ↔ set.Holds uuid ∧ lowerCase uuid=uuid := by
  constructor
  · rintro ⟨e,he,rfl⟩
    exact ⟨⟨e,he,(set.lower e he).symm⟩,set.lower e he⟩
  · rintro ⟨⟨e,he,hname⟩,hlower⟩
    exact ⟨e,he,hname.trans hlower⟩

/-- A member with group data is never wiped, and one with only its own initialisation is
provisioned, exactly when the group name is written as the server prints it where both are held, and
is not the member's own. -/
theorem fresh_classification_iff (h : Reports c set uuid groupName) (recoveryUser password : String) :
    ((set.Holds groupName →
        .resetBinaryLogs∉(prepareGroupJoin c recoveryUser password).1 ∧
          .forceClone∉(prepareGroupJoin c recoveryUser password).1) ∧
      (set.OnlyOwn uuid → isFreshMember c = .ok true)) ↔
      (set.Holds uuid → set.Holds groupName → lowerCase groupName=groupName) ∧
        (set.OnlyOwn uuid → groupName≠uuid) := by
  have hwipes := wipes_iff_fresh c recoveryUser password
  have hfresh := h.isFreshMember_iff
  rw [set.named_iff,set.named_iff,and_iff_left h.lower] at hfresh
  have hown : set.OnlyOwn uuid → set.Holds uuid := by
    rintro ⟨hne,hall⟩
    obtain ⟨e,he⟩ := exists_mem_of_ne_nil _ hne
    exact ⟨e,he,(hall e he).trans h.lower.symm⟩
  have hother : set.OnlyOwn uuid → (set.Holds groupName ∧ lowerCase groupName=groupName ↔
      groupName=uuid) := by
    intro hall
    constructor
    · rintro ⟨⟨e,he,hname⟩,hlower⟩
      exact hlower.symm.trans (hname.symm.trans (hall.2 e he))
    · rintro rfl
      exact ⟨hown hall,h.lower⟩
  rw [← not_or,hwipes,hfresh]
  constructor
  · rintro ⟨hsafe,hprovisioned⟩
    refine ⟨fun huuid hgroup => ?_,fun hall heq => ?_⟩
    · by_contra hlower
      exact hsafe hgroup ⟨huuid,fun hin => hlower hin.2⟩
    · exact (hprovisioned hall).2 ((hother hall).mpr heq)
  · rintro ⟨hcase,hself⟩
    refine ⟨fun hgroup hwiped => ?_,fun hall => ⟨hown hall,fun hin => ?_⟩⟩
    · exact hwiped.2 ⟨hgroup,hcase hwiped.1 hgroup⟩
    · exact hself hall ((hother hall).mp hin)

/-- A former primary: its own transactions and the group's view changes. -/
def formerPrimary : ExecutedSet where
  sources := [("11111111-2222-3333-4444-555555555555",[⟨1,100⟩]),
    ("aaaaaaaa-bbbb-cccc-dddd-eeeeeeeeeeee",[⟨1,7⟩])]
  uuid := by decide +kernel
  lower := by decide +kernel
  nonempty := by decide
  valid := by decide +kernel

def memberServer (groupName : String) : JoiningServer where
  serverUUID := .ok "11111111-2222-3333-4444-555555555555"
  gtidExecuted := .ok formerPrimary.text
  groupName := .ok groupName

theorem reports_memberServer {groupName : String} (hadmitted : validateGroupName groupName=none)
    (hne : groupName ≠ "") : Reports (memberServer groupName) formerPrimary
      "11111111-2222-3333-4444-555555555555" groupName where
  wellFormed := by decide +kernel
  lower := by decide +kernel
  admitted := hadmitted
  configured := hne
  readsUUID := rfl
  readsSet := rfl
  readsName := rfl

/-- With the group name in lower case the former primary keeps its data. -/
theorem fresh_classification_formerPrimary :
    .resetBinaryLogs ∉
        (prepareGroupJoin (memberServer "aaaaaaaa-bbbb-cccc-dddd-eeeeeeeeeeee") "repl" "").1 ∧
      .forceClone ∉
        (prepareGroupJoin (memberServer "aaaaaaaa-bbbb-cccc-dddd-eeeeeeeeeeee") "repl" "").1 := by
  have hreports := reports_memberServer
    (show validateGroupName "aaaaaaaa-bbbb-cccc-dddd-eeeeeeeeeeee"=none by decide +kernel)
    (by decide)
  refine ((fresh_classification_iff hreports "repl" "").mpr ⟨fun _ _ => ?_,fun _ => ?_⟩).1 ?_
  · decide +kernel
  · decide
  · exact ⟨("aaaaaaaa-bbbb-cccc-dddd-eeeeeeeeeeee",[⟨1,7⟩]),by simp [formerPrimary],
      by decide +kernel⟩

/-- With the name in upper case it is taken for fresh, reset and cloned over. -/
theorem formerPrimary_wiped :
    validateGroupName "AAAAAAAA-BBBB-CCCC-DDDD-EEEEEEEEEEEE"=none ∧
      formerPrimary.Holds "AAAAAAAA-BBBB-CCCC-DDDD-EEEEEEEEEEEE" ∧
      prepareGroupJoin (memberServer "AAAAAAAA-BBBB-CCCC-DDDD-EEEEEEEEEEEE") "repl" "" =
        ([.resetBinaryLogs,.forceClone,.configureRecoveryChannel "repl" ""], .ok ()) := by
  refine ⟨by decide +kernel,?_,?_⟩
  · exact ⟨("aaaaaaaa-bbbb-cccc-dddd-eeeeeeeeeeee",[⟨1,7⟩]),by simp [formerPrimary],
      by decide +kernel⟩
  · decide +kernel

end Cnmsql.Instance
