import Cnmsql.Framework.Result
import Cnmsql.Replication.Gtid

namespace Cnmsql.Engine

open Framework

/-- How far one replication domain got, and who wrote its last transaction. -/
structure MariaEntry where
  server : UInt32
  seq : UInt64
  deriving DecidableEq

abbrev MariaPos := Map UInt32 MariaEntry

namespace MariaPos

variable (p : MariaPos) (domain : UInt32)

/-- Keeps the entry with the higher sequence in the domain, the later when equal. -/
def keep (e : MariaEntry) : MariaPos :=
  match p.lookup domain with
  | none => p.insert domain e
  | some existing => if existing.seq≤e.seq then p.insert domain e else p

def reached : Nat :=
  ((p.lookup domain).map (·.seq.toNat)).getD 0

/-- MariaDB numbers each domain consecutively from 1. -/
def txns : Set (UInt32 × Nat) := {t | 1≤t.2 ∧ t.2≤p.reached t.1}

theorem txns_subset_iff (q : MariaPos) : q.txns ⊆ p.txns ↔ ∀ d, q.reached d≤p.reached d := by
  constructor
  · intro h d
    by_cases hq : q.reached d=0
    · omega
    · exact (@h (d,q.reached d) ⟨by omega,le_rfl⟩).2
  · intro h t ht
    exact ⟨ht.1,ht.2.trans (h t.1)⟩

theorem reached_insert (d : UInt32) (e : MariaEntry) :
    reached (p.insert domain e) d=if d=domain then e.seq.toNat else p.reached d := by
  split
  · rename_i h
    subst h
    simp [reached]
  · rename_i h
    simp [reached,AList.lookup_insert_ne h]

theorem reached_keep (p : MariaPos) (domain d : UInt32) (e : MariaEntry) :
    reached (p.keep domain e) d =
      if d=domain then max (p.reached d) e.seq.toNat else p.reached d := by
  unfold keep
  cases hl : p.lookup domain with
  | none =>
    rw [reached_insert]
    split
    · rename_i h
      subst h
      simp [reached,hl]
    · rfl
  | some existing =>
    simp only
    have hr : p.reached domain=existing.seq.toNat := by simp [reached,hl]
    split
    · rename_i hle
      rw [reached_insert]
      split
      · rename_i h
        rw [h,hr]
        rw [UInt64.le_iff_toNat_le] at hle
        omega
      · rfl
    · rename_i hle
      split
      · rename_i h
        rw [h,hr]
        rw [UInt64.le_iff_toNat_le] at hle
        omega
      · rfl

/-- The loop of `contains`. -/
def contains (super sub : MariaPos) : Bool :=
  sub.entries.all fun e =>
    match super.lookup e.1 with
    | none => false
    | some mine => e.2.seq ≤ mine.seq

theorem reached_le_of_contains (super sub : MariaPos) (h : super.contains sub=true)
    (d : UInt32) : sub.reached d ≤ super.reached d := by
  cases hl : sub.lookup d with
  | none => simp [reached,hl]
  | some e =>
    have he := List.all_eq_true.mp h ⟨d,e⟩ (AList.mem_lookup_iff.mp hl)
    cases hs : super.lookup d with
    | none => simp [hs] at he
    | some mine =>
      simp only [hs,decide_eq_true_eq,UInt64.le_iff_toNat_le] at he
      simpa [reached,hl,hs] using he

def addSaturating (total n : Nat) : Nat :=
  if maxInt64<n then maxInt64
  else if maxInt64-total<n then maxInt64
  else total+n

/-- The loop of `MissingCount`. -/
def missingLoop (p : MariaPos) (missing : Nat) : List (Sigma fun _ : UInt32 => MariaEntry) → Nat
  | [] => missing
  | ⟨domain,wanted⟩::rest =>
    match p.lookup domain with
    | some mine =>
      if mine.seq<wanted.seq then
        missingLoop p (addSaturating missing (wanted.seq.toNat-mine.seq.toNat)) rest
      else missingLoop p missing rest
    | none => missingLoop p (addSaturating missing wanted.seq.toNat) rest

def missingCount (want : MariaPos) : Nat := p.missingLoop 0 want.entries

theorem addSaturating_eq {total : Nat} (n : Nat) (h : total ≤ maxInt64) :
    addSaturating total n=min maxInt64 (total+n) := by
  unfold addSaturating
  split
  · omega
  · split
    · omega
    · omega

theorem missingLoop_eq (p : MariaPos) (missing : Nat)
    (l : List (Sigma fun _ : UInt32 => MariaEntry)) (hm : missing ≤ maxInt64) :
    p.missingLoop missing l =
      min maxInt64 (missing+(l.map fun e => e.2.seq.toNat-p.reached e.1).sum) := by
  induction l generalizing missing with
  | nil => simpa [missingLoop] using hm
  | cons e l ih =>
    obtain ⟨domain,wanted⟩ := e
    rw [missingLoop,List.map_cons,List.sum_cons]
    cases hl : p.lookup domain with
    | none =>
      have hr : p.reached domain=0 := by simp [reached,hl]
      have hadd := addSaturating_eq wanted.seq.toNat hm
      simp only
      rw [ih _ (by omega),hadd,hr]
      omega
    | some mine =>
      have hr : p.reached domain=mine.seq.toNat := by simp [reached,hl]
      have hadd := addSaturating_eq (wanted.seq.toNat-mine.seq.toNat) hm
      simp only
      split
      · rw [ih _ (by omega),hadd,hr]
        omega
      · rename_i hlt
        rw [UInt64.lt_iff_toNat_lt] at hlt
        rw [ih _ hm,hr]
        omega

theorem missingCount_anti (q want : MariaPos) (h : ∀ d,p.reached d≤q.reached d) :
    q.missingCount want≤p.missingCount want := by
  have hsum : (want.entries.map fun e => e.2.seq.toNat-q.reached e.1).sum ≤
      (want.entries.map fun e => e.2.seq.toNat-p.reached e.1).sum := by
    apply List.sum_le_sum
    intro e _
    have hd := h e.1
    omega
  rw [missingCount,missingCount,missingLoop_eq q 0 _ (Nat.zero_le _),
    missingLoop_eq p 0 _ (Nat.zero_le _)]
  omega

theorem subset_of_missingCount_eq_zero (want : MariaPos) (h : p.missingCount want=0) :
    want.txns ⊆ p.txns := by
  have hsum : (want.entries.map fun e => e.2.seq.toNat-p.reached e.1).sum=0 := by
    rw [missingCount,missingLoop_eq p 0 _ (Nat.zero_le _)] at h
    simp only [maxInt64] at h
    omega
  rw [txns_subset_iff]
  intro d
  cases hl : want.lookup d with
  | none => simp [reached,hl]
  | some e =>
    have hzero : e.seq.toNat-p.reached d=0 :=
      List.sum_eq_zero_iff_forall_eq_nat.mp hsum _
        (List.mem_map.mpr ⟨⟨d,e⟩,AList.mem_lookup_iff.mp hl,rfl⟩)
    have hr : want.reached d=e.seq.toNat := by simp [reached,hl]
    omega

end MariaPos

end Cnmsql.Engine
