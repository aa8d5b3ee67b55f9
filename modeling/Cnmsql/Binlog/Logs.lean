import Cnmsql.Framework.Text

namespace Cnmsql.Binlog

open Framework

/-- One entry of `SHOW BINARY LOGS`. -/
structure BinaryLog where
  name : String := ""
  sizeBytes : Int := 0
  active : Bool := false
  deriving DecidableEq

/-- `path.Base`. -/
def pathBase (path : List Char) : List Char :=
  if path=[] then ['.']
  else
    let trimmed := (path.reverse.dropWhile (· == '/')).reverse
    let last := (trimmed.reverse.takeWhile (· != '/')).reverse
    if last=[] then ['/'] else last

/-- The number after the last dot of a basename; its callers drop the error. -/
def parseSequence (name : String) : Option Int :=
  let base := pathBase name.toList
  let suffix := (base.reverse.takeWhile (· != '.')).reverse
  if '.'∉base ∨ suffix=[] then none else parseInt suffix

def Before (m n : String) : Prop :=
  ∃ a b,parseSequence m=some a ∧ parseSequence n=some b ∧ a<b

theorem Before.ne {m n : String} (h : Before m n) : m≠n := by
  obtain ⟨a,b,ha,hb,hlt⟩ := h
  intro heq
  rw [heq,hb,Option.some.injEq] at ha
  omega

/-- The loop of `MarkActive`: index and sequence of the newest so far. -/
def newestLoop : List BinaryLog → Nat → Option Nat → Int → Option Nat
  | [],_,activeIdx,_ => activeIdx
  | l::rest,i,activeIdx,activeSeq =>
    match parseSequence l.name with
    | none => newestLoop rest (i+1) activeIdx activeSeq
    | some seq =>
      if activeSeq<seq then newestLoop rest (i+1) (some i) seq
      else newestLoop rest (i+1) activeIdx activeSeq

variable (logs : List BinaryLog)

def markActive : List BinaryLog :=
  match newestLoop logs 0 none (-1) with
  | none => logs
  | some i => logs.modify i fun l => { l with active := true }

def archivable : List BinaryLog := logs.filter (!·.active)

def activeLog : BinaryLog := (logs.find? (·.active)).getD {}

def fileBeforeLoop (name : String) : List BinaryLog → String → String
  | [],_ => ""
  | l::rest,prev => if l.name=name then prev else fileBeforeLoop name rest l.name

def fileBefore (name : String) : String := fileBeforeLoop name logs ""

/-- The loop of `pendingAfter`. -/
def pendingLoop (frontier : String) : List BinaryLog → Bool → Nat → Nat
  | [],_,pending => pending
  | l::rest,false,pending => pendingLoop frontier rest (l.name == frontier) pending
  | l::rest,true,pending =>
    pendingLoop frontier rest true (if l.name=frontier then pending else pending+1)

def pendingAfter (frontier : String) : Nat :=
  pendingLoop frontier (archivable logs) (frontier == "") 0

/-- The name of a binary log, with the sequence the server numbered it with. -/
structure LogName where
  name : String
  seq : Nat
  parse_name : parseSequence name=some (seq : Int)
  deriving DecidableEq

theorem LogName.seq_eq {a b : LogName} (h : a.name=b.name) : a.seq=b.seq := by
  have hseq := a.parse_name
  rw [h,b.parse_name,Option.some.injEq] at hseq
  exact (Int.ofNat_inj.mp hseq).symm

theorem LogName.name_ne_empty (a : LogName) : a.name ≠ "" := by
  intro h
  have hseq := a.parse_name
  rw [h] at hseq
  have hnone : parseSequence ""=none := by decide
  rw [hnone] at hseq
  cases hseq

variable {older : List BinaryLog} {newest : BinaryLog}

theorem newestLoop_snoc {q : Int} (hq : parseSequence newest.name=some q)
    (hold : ∀ l∈older,∀ n,parseSequence l.name=some n → n<q) (i : Nat)
    (activeIdx : Option Nat) (activeSeq : Int) (hlt : activeSeq<q) :
    newestLoop (older++[newest]) i activeIdx activeSeq=some (i+older.length) := by
  induction older generalizing i activeIdx activeSeq with
  | nil => simp [newestLoop,hq,hlt]
  | cons l older ih =>
    have ih := ih fun l' hl' => hold l' (List.mem_cons_of_mem l hl')
    have hnext : i+1+older.length=i+(l::older).length := by
      simp only [List.length_cons]
      omega
    rw [List.cons_append,newestLoop]
    cases hseq : parseSequence l.name with
    | none =>
      rw [← hnext]
      exact ih (i+1) activeIdx activeSeq hlt
    | some n =>
      simp only
      split
      · rw [← hnext]
        exact ih (i+1) (some i) n (hold l List.mem_cons_self n hseq)
      · rw [← hnext]
        exact ih (i+1) activeIdx activeSeq hlt

theorem markActive_snoc {q : Nat} (hq : parseSequence newest.name=some (q : Int))
    (hold : ∀ l∈older,∀ n,parseSequence l.name=some n → n<(q : Int)) :
    markActive (older++[newest])=older++[{ newest with active := true }] := by
  rw [markActive,newestLoop_snoc hq hold 0 none (-1) (by omega)]
  simp only [Nat.zero_add]
  rw [List.modify_eq_take_cons_drop (by simp)]
  simp

section

variable {older : List BinaryLog} {newest : BinaryLog} (hold : ∀ l∈older,l.active=false)
  (hnew : newest.active=true)

include hold hnew

theorem archivable_snoc : archivable (older++[newest])=older := by
  rw [archivable,List.filter_append,List.filter_eq_self.mpr (by simpa using hold)]
  simp [hnew]

theorem activeLog_snoc : activeLog (older++[newest])=newest := by
  have hnone : older.find? (·.active)=none := by
    rw [List.find?_eq_none]
    intro l hl
    simp [hold l hl]
  rw [activeLog,List.find?_append,hnone]
  simp [hnew]

end

theorem fileBeforeLoop_mem {name : String} {logs : List BinaryLog} {prev : String}
    (h : fileBeforeLoop name logs prev ≠ "") :
    fileBeforeLoop name logs prev=prev ∨ fileBeforeLoop name logs prev∈logs.map (·.name) := by
  induction logs generalizing prev with
  | nil => exact absurd rfl h
  | cons l rest ih =>
    rw [fileBeforeLoop] at h ⊢
    split
    · exact .inl rfl
    · rename_i hne
      rw [if_neg hne] at h
      cases ih h with
      | inl heq =>
        rw [heq]
        simp
      | inr hmem => exact .inr (List.mem_cons_of_mem _ hmem)

theorem fileBefore_mem {logs : List BinaryLog} {name : String} (h : fileBefore logs name ≠ "") :
    fileBefore logs name∈logs.map (·.name) :=
  (fileBeforeLoop_mem h).resolve_left h

end Cnmsql.Binlog
