import Cnmsql.Replication.GtidText

namespace Cnmsql.Replication

open Framework

def succ64 (n : Nat) : Option Nat := if n < maxInt64 then some (n+1) else none

def pred64 (n : Nat) : Option Nat := if 0<n then some (n-1) else none

theorem succ64_of_lt {n : Nat} (h : n < maxInt64) : succ64 n=some (n+1) := if_pos h

theorem pred64_of_pos {n : Nat} (h : 0<n) : pred64 n=some (n-1) := if_pos h

/-- The addition is checked: the test for the largest `int64` spares it. -/
def coalesce64 (last : GTIDInterval) : List GTIDInterval → Option (List GTIDInterval)
  | [] => some [last]
  | iv::rest =>
    let absorbed := if iv.stop > last.stop then { last with stop := iv.stop } else last
    if last.stop=maxInt64 then coalesce64 absorbed rest
    else do
      let next ← succ64 last.stop
      if iv.start≤next then coalesce64 absorbed rest
      else return last::(← coalesce64 iv rest)

/-- `normalizeIntervals` with its additions checked. -/
def normalizeIntervals64 (l : List GTIDInterval) : Option (List GTIDInterval) :=
  if l.length≤1 then some l
  else match l.insertionSort (fun a b => a.start≤b.start) with
    | [] => some []
    | first::rest => coalesce64 first rest

theorem coalesce64_eq (last : GTIDInterval) (l : List GTIDInterval) (hlast : last.stop ≤ maxInt64)
    (hl : ∀ iv∈l,iv.stop ≤ maxInt64) : coalesce64 last l=some (coalesce last l) := by
  induction l generalizing last with
  | nil => rfl
  | cons iv l ih =>
    have hiv := hl iv (by simp)
    have htail : ∀ iv∈l, iv.stop ≤ maxInt64 := fun x hx => hl x (by simp [hx])
    have habsorbed : (if iv.stop > last.stop then { last with stop := iv.stop } else last).stop ≤
        maxInt64 := by
      split
      · exact hiv
      · exact hlast
    simp only [coalesce64,coalesce]
    by_cases hmax : last.stop=maxInt64
    · rw [if_pos hmax,if_pos (Or.inl hmax)]
      exact ih _ habsorbed htail
    · rw [if_neg hmax,succ64_of_lt (by omega),Option.bind_eq_bind,Option.bind_some]
      by_cases htouch : iv.start≤last.stop+1
      · rw [if_pos htouch,if_pos (Or.inr htouch)]
        exact ih _ habsorbed htail
      · rw [if_neg htouch,if_neg (by simp [hmax,htouch]),ih iv hiv htail]
        rfl

theorem normalizeIntervals64_eq (l : List GTIDInterval) (hl : ∀ iv∈l,iv.stop ≤ maxInt64) :
    normalizeIntervals64 l=some (normalizeIntervals l) := by
  unfold normalizeIntervals64 normalizeIntervals
  split
  · rfl
  · have hperm := List.perm_insertionSort (fun a b : GTIDInterval => a.start≤b.start) l
    generalize l.insertionSort (fun a b : GTIDInterval => a.start≤b.start)=m at hperm
    cases m with
    | nil => rfl
    | cons a m =>
      have hm : ∀ iv∈a::m, iv.stop ≤ maxInt64 := fun iv h => hl iv (hperm.mem_iff.mp h)
      exact coalesce64_eq a m (hm a (by simp)) (fun iv h => hm iv (by simp [h]))

def normalizeAll64 (set : GTIDSet) : Option GTIDSet :=
  set.keys.foldlM (fun set u => (normalizeIntervals64 (set.get u)).map (set.insert u)) set

private theorem normalizeAll64_loop (us : List String) (set : GTIDSet) (hus : us.Nodup)
    (hv : ∀ u∈us,∀ iv∈set.get u,iv.stop ≤ maxInt64) :
    ∃ r,us.foldlM (fun set u => (normalizeIntervals64 (set.get u)).map (set.insert u)) set =
        some r ∧
      ∀ u,r.lookup u=if u∈us then some (normalizeIntervals (set.get u)) else set.lookup u := by
  -- one source is rewritten at a time, so the later ones are still as they were
  induction us generalizing set with
  | nil => exact ⟨set,rfl,by simp⟩
  | cons u us ih =>
    obtain ⟨hu,hus⟩ := List.nodup_cons.mp hus
    have hkeep : ∀ w∈us,
        GTIDSet.get (set.insert u (normalizeIntervals (set.get u))) w=set.get w := by
      intro w hw
      rw [GTIDSet.get_insert,if_neg]
      rintro rfl
      exact hu hw
    obtain ⟨r,hr,hlookup⟩ := ih (set.insert u (normalizeIntervals (set.get u))) hus (by
      intro w hw
      rw [hkeep w hw]
      exact hv w (by simp [hw]))
    refine ⟨r,?_,?_⟩
    · rw [List.foldlM_cons,normalizeIntervals64_eq _ (hv u (by simp))]
      exact hr
    · intro w
      rw [hlookup]
      by_cases hw : w∈us
      · simp [hw,hkeep w hw]
      · by_cases hwu : w=u
        · subst hwu
          simp [hw]
        · simp [hw,hwu,AList.lookup_insert_ne hwu]

/-- `ParseGTIDSet` with its additions checked. -/
def parseGTIDSet64 [CaseMapping] (raw : String) : Option (Except GTIDError GTIDSet) :=
  let cleaned := raw.toList.filter fun c => !isBlank c
  if cleaned=[] then some (.ok ∅)
  else
    match parseSources raw (cleaned.splitOn ',') ∅ with
    | .error e => some (.error e)
    | .ok set => (normalizeAll64 set).map .ok

namespace GTIDSet

def addInterval64 [CaseMapping] (s : GTIDSet) (uuid : String) (iv : GTIDInterval) :
    Option GTIDSet :=
  (normalizeIntervals64 (s.get (toLower uuid)++[iv])).map (s.insert (toLower uuid))

def union64 [CaseMapping] (s other : GTIDSet) : Option GTIDSet :=
  other.flat.foldlM (fun s e => s.addInterval64 e.1 e.2) s

end GTIDSet

variable [CaseMapping]

/-- No addition of `ParseGTIDSet` overflows. -/
theorem parseGTIDSet64_eq (raw : String) :
    (∃ e,parseGTIDSet raw = .error e ∧ parseGTIDSet64 raw=some (.error e)) ∨
      ∃ s r,parseGTIDSet raw = .ok s ∧ parseGTIDSet64 raw=some (.ok r) ∧
        ∀ u, r.lookup u=s.lookup u := by
  simp only [parseGTIDSet,parseGTIDSet64]
  split
  · exact Or.inr ⟨∅,∅,rfl,rfl,fun _ => rfl⟩
  · cases hp : parseSources raw ((raw.toList.filter fun c => !isBlank c).splitOn ',') ∅ with
    | error e => exact Or.inl ⟨e,rfl,rfl⟩
    | ok set =>
      have hacc := accumulated_of_parseSources hp
      obtain ⟨r,hr,hlookup⟩ := normalizeAll64_loop set.keys set set.keys_nodup
        (fun u _ iv hiv => (hacc.valid u iv hiv).stop_le)
      refine .inr ⟨normalizeAll set,r,rfl,?_,?_⟩
      · simp only [normalizeAll64,hr,Option.map_some]
      · intro u
        rw [hlookup,normalizeAll,Map.lookup_collect]
        split
        · rename_i hu
          rw [GTIDSet.lookup_of_mem set u (AList.mem_keys.mpr hu),Option.bind_some]
        · rename_i hu
          rw [AList.lookup_eq_none.mpr (mt AList.mem_keys.mp hu),Option.bind_none]

namespace GTIDSet

theorem Normal.addInterval64 {s : GTIDSet} (hs : Normal s) (u : String) (iv : GTIDInterval)
    (hv : Valid iv) : s.addInterval64 u iv=some (s.addInterval u iv) := by
  rw [GTIDSet.addInterval64,normalizeIntervals64_eq]
  · rfl
  · intro x hx
    cases List.mem_append.mp hx with
    | inl h => exact (hs.valid _ x h).stop_le
    | inr h => exact List.mem_singleton.mp h ▸ hv.stop_le

private theorem union64_loop (l : List (String × GTIDInterval)) (s : GTIDSet) (hs : Normal s)
    (hl : ∀ e∈l,Valid e.2) :
    l.foldlM (fun s e => s.addInterval64 e.1 e.2) s =
      some (l.foldl (fun s e => s.addInterval e.1 e.2) s) := by
  induction l generalizing s with
  | nil => rfl
  | cons e l ih =>
    have hv := hl e (by simp)
    rw [List.foldlM_cons,hs.addInterval64 e.1 e.2 hv]
    exact ih _ (hs.addInterval e.1 e.2 hv).1 (fun x hx => hl x (by simp [hx]))

theorem Normal.union64 {s other : GTIDSet} (hs : Normal s) (ho : Normal other) :
    s.union64 other=some (s.union other) :=
  union64_loop other.flat s hs (fun e he => (ho.of_mem_flat e he).2)

end GTIDSet

end Cnmsql.Replication
