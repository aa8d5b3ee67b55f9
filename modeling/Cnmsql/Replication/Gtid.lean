import Mathlib.Algebra.Order.BigOperators.Group.List
import Mathlib.Algebra.Order.Ring.Nat
import Cnmsql.Framework.Maps
import Cnmsql.Replication.GtidIntervals

namespace Cnmsql.Replication

open Framework List

/-- A transaction: the UUID of the server that committed it and its number there. -/
abbrev Txn := String × Nat

abbrev GTIDSet := Map String (List GTIDInterval)

def isBlank (c : Char) : Bool := c == ' ' || c == '\n' || c == '\r' || c == '\t'

/-- A source name as `ParseGTIDSet` stores it. -/
structure WfUuid [CaseMapping] (u : String) : Prop where
  lower : toLower u=u
  ne_empty : u ≠ ""
  clean : ∀ c∈u.toList,c ≠ ',' ∧ c ≠ ':' ∧ isBlank c=false

namespace GTIDSet

def get (s : GTIDSet) (uuid : String) : List GTIDInterval := (s.lookup uuid).getD []

def txns (s : GTIDSet) : Set Txn := {t | t.2∈points (s.get t.1)}

variable (s : GTIDSet) (u : String)

theorem mem_txns (t : Txn) : t∈s.txns ↔ t.2∈points (s.get t.1) := Iff.rfl

variable (v : String) (l : List GTIDInterval)

theorem get_insert : (get (s.insert u l) v)=if v=u then l else s.get v := by
  by_cases h : v=u
  · subst h
    simp [get]
  · simp [get,h,AList.lookup_insert_ne h]

def isEmpty (s : GTIDSet) : Bool := s.entries.all fun e => e.2.isEmpty

/-- The loop of `Contains`; an absent source ends it. -/
def containsLoop (s : GTIDSet) : List (Sigma fun _ : String => List GTIDInterval) → Bool
  | [] => true
  | ⟨uuid,intervals⟩::rest =>
    match s.lookup uuid with
    | none => intervals.isEmpty
    | some mine => if intervals.all (intervalsCover mine) then containsLoop s rest else false

def contains (s other : GTIDSet) : Bool := s.containsLoop other.entries

def equal (s other : GTIDSet) : Bool := s.contains other && other.contains s

/-- The loops of `MissingCount`, saturating at the largest `int64`. -/
def missingLoop (s : GTIDSet) (missing : Nat) : List (String × GTIDInterval) → Nat
  | [] => missing
  | (uuid,iv)::rest =>
    if missing > maxInt64-uncoveredBy iv (s.get uuid) then maxInt64
    else missingLoop s (missing+uncoveredBy iv (s.get uuid)) rest

def flat (s : GTIDSet) : List (String × GTIDInterval) :=
  s.entries.flatMap fun e => e.2.map fun iv => (e.1,iv)

def missingCount (s other : GTIDSet) : Nat := s.missingLoop 0 other.flat

def nonEmpty : Option (List GTIDInterval) :=
  if l.isEmpty then none else some l

theorem getD_nonEmpty : (nonEmpty l).getD []=l := by
  cases l <;> rfl

theorem ne_nil_of_nonEmpty (l m : List GTIDInterval) (h : nonEmpty l=some m) : m≠[] := by
  cases l with
  | nil => simp [nonEmpty] at h
  | cons a l =>
    simp only [nonEmpty,isEmpty_cons,Bool.false_eq_true,if_false,Option.some.injEq] at h
    simp [← h]

def difference (s other : GTIDSet) : GTIDSet :=
  Map.collect (fun uuid intervals =>
    nonEmpty (intervals.flatMap fun iv => minus iv (other.get uuid))) s

def intersect (s other : GTIDSet) : GTIDSet := s.difference (s.difference other)

/-- Per source, what is missing between its first and last transaction. -/
def holes (s : GTIDSet) : GTIDSet :=
  Map.collect (fun _ intervals => nonEmpty (gaps intervals)) s

theorem txns_empty : txns (∅ : GTIDSet)=∅ := by
  ext t
  simp [mem_txns,get]

theorem txns_congr {s t : GTIDSet} (h : ∀ u,t.lookup u=s.lookup u) : t.txns=s.txns := by
  ext x
  rw [mem_txns,mem_txns,get,get,h]

theorem get_of_not_mem (h : u∉s) : s.get u=[] := by
  rw [get,AList.lookup_eq_none.mpr h]
  rfl

theorem mem_of_get_ne_nil (h : s.get u≠[]) : u∈s := by
  by_contra hu
  exact h (get_of_not_mem s u hu)

theorem lookup_of_mem (h : u∈s) : s.lookup u=some (s.get u) := by
  obtain ⟨l,hl⟩ := Option.isSome_iff_exists.mp (AList.lookup_isSome.mpr h)
  rw [get,hl]
  rfl

theorem mem_entries_iff :
    (⟨u,l⟩ : Sigma fun _ : String => List GTIDInterval)∈s.entries ↔ u∈s ∧ s.get u=l := by
  rw [← AList.mem_lookup_iff,Option.mem_def]
  constructor
  · intro h
    exact ⟨AList.lookup_isSome.mp (by simp [h]),by simp [get,h]⟩
  · intro h
    rw [lookup_of_mem s u h.1,h.2]

theorem mem_flat_iff (iv : GTIDInterval) : (u, iv)∈s.flat ↔ iv∈s.get u := by
  simp only [flat,mem_flatMap,mem_map,Prod.mk.injEq,Sigma.exists]
  constructor
  · intro h
    obtain ⟨v,l,hl,w,hw,rfl,rfl⟩ := h
    rw [((mem_entries_iff s v l).mp hl).2]
    exact hw
  · intro h
    have hu := mem_of_get_ne_nil s u (ne_nil_of_mem h)
    exact ⟨u,s.get u,(mem_entries_iff s u _).mpr ⟨hu,rfl⟩,iv,h,rfl,rfl⟩

theorem get_collect (s : GTIDSet) (f : String → List GTIDInterval → List GTIDInterval)
    (hnil : ∀ u,f u []=[]) (u : String) :
    get (Map.collect (fun u l => nonEmpty (f u l)) s) u=f u (s.get u) := by
  simp only [get,Map.lookup_collect]
  cases s.lookup u with
  | none => simp [hnil]
  | some l => simp [getD_nonEmpty]

variable [CaseMapping]

def addInterval (s : GTIDSet) (uuid : String) (iv : GTIDInterval) : GTIDSet :=
  s.insert (toLower uuid) (normalizeIntervals (s.get (toLower uuid)++[iv]))

def union (s other : GTIDSet) : GTIDSet :=
  other.flat.foldl (fun s e => s.addInterval e.1 e.2) s

/-- Lower-case sources, each with non-empty valid intervals in normal form. -/
structure Normal (s : GTIDSet) : Prop where
  lower : ∀ u∈s,toLower u=u
  ne_nil : ∀ u∈s,s.get u≠[]
  separated : ∀ u,Separated (s.get u)
  valid : ∀ u,∀ iv∈s.get u,Valid iv

/-- What `ParseGTIDSet` returns: the normal form, with sources it can read back. -/
structure Canonical (s : GTIDSet) : Prop where
  uuid : ∀ u∈s,WfUuid u
  ne_nil : ∀ u∈s,s.get u≠[]
  separated : ∀ u,Separated (s.get u)
  valid : ∀ u,∀ iv∈s.get u,Valid iv

variable {s : GTIDSet}

theorem Canonical.normal (hs : Canonical s) : Normal s :=
  ⟨fun u h => (hs.uuid u h).lower,hs.ne_nil,hs.separated,hs.valid⟩

theorem canonical_empty : Canonical (∅ : GTIDSet) where
  uuid u h := absurd h (AList.notMem_empty u)
  ne_nil u h := absurd h (AList.notMem_empty u)
  separated u := by simp [get,separated_nil]
  valid u := by simp [get]

theorem normal_of_entries (s : GTIDSet) (h : ∀ e∈s.entries,toLower e.1=e.1 ∧ e.2≠[] ∧
    Separated e.2 ∧ ∀ iv∈e.2, Valid iv) : Normal s := by
  have hmem : ∀ u∈s,toLower u=u ∧ s.get u≠[] ∧ Separated (s.get u) ∧
      ∀ iv∈s.get u, Valid iv := fun u hu =>
    h ⟨u,s.get u⟩ ((mem_entries_iff s u _).mpr ⟨hu,rfl⟩)
  refine ⟨fun u hu => (hmem u hu).1,fun u hu => (hmem u hu).2.1,?_,?_⟩
  · intro u
    by_cases hu : u∈s
    · exact (hmem u hu).2.2.1
    · rw [get_of_not_mem s u hu]
      exact separated_nil
  · intro u iv hiv
    exact (hmem u (mem_of_get_ne_nil s u (ne_nil_of_mem hiv))).2.2.2 iv hiv

theorem Normal.canonical (hs : Normal s) (h : ∀ t∈s.txns, WfUuid t.1) : Canonical s := by
  refine ⟨?_,hs.ne_nil,hs.separated,hs.valid⟩
  intro u hu
  obtain ⟨iv,hiv⟩ := exists_mem_of_ne_nil _ (hs.ne_nil u hu)
  exact h (u,iv.start) (separated_start_mem _ (hs.separated u) iv hiv)

theorem Normal.congr {t : GTIDSet} (hs : Normal s) (h : ∀ u,t.lookup u=s.lookup u) :
    Normal t := by
  have hmem : ∀ u, u∈t ↔ u∈s := by
    intro u
    rw [← AList.lookup_isSome,← AList.lookup_isSome,h]
  have hget : ∀ u, t.get u=s.get u := by
    intro u
    rw [get,get,h]
  refine ⟨?_,?_,?_,?_⟩
  · intro u hu
    exact hs.lower u ((hmem u).mp hu)
  · intro u hu
    rw [hget]
    exact hs.ne_nil u ((hmem u).mp hu)
  · intro u
    rw [hget]
    exact hs.separated u
  · intro u
    rw [hget]
    exact hs.valid u

theorem Normal.get_eq_of_txns_eq {t : GTIDSet} (hs : Normal s) (ht : Normal t) (h : s.txns=t.txns)
    (u : String) : s.get u=t.get u := by
  apply separated_unique _ _ (hs.separated u) (ht.separated u)
  ext n
  exact Set.ext_iff.mp h (u,n)

theorem Canonical.get_eq_of_txns_eq {s t : GTIDSet} (hs : Canonical s) (ht : Canonical t)
    (h : s.txns=t.txns) (u : String) : s.get u=t.get u :=
  hs.normal.get_eq_of_txns_eq ht.normal h u

theorem Canonical.mem_iff (hs : Canonical s) (u : String) : u∈s ↔ s.get u≠[] :=
  ⟨hs.ne_nil u,mem_of_get_ne_nil s u⟩

theorem Canonical.lookup_eq_of_get_eq {t : GTIDSet} (hs : Canonical s) (ht : Canonical t)
    (h : ∀ u,s.get u=t.get u) (u : String) : s.lookup u=t.lookup u := by
  by_cases hu : u∈s
  · rw [lookup_of_mem s u hu,lookup_of_mem t u ((ht.mem_iff u).mpr (h u ▸ hs.ne_nil u hu)),h]
  · have hnot : u∉t := fun hm => hu ((hs.mem_iff u).mpr (h u ▸ ht.ne_nil u hm))
    rw [AList.lookup_eq_none.mpr hu,AList.lookup_eq_none.mpr hnot]

theorem Canonical.get_eq_nil_iff (hs : Canonical s) (u : String) :
    s.get u=[] ↔ ∀ n,(u, n)∉s.txns := by
  constructor
  · intro h n hn
    rw [mem_txns,h] at hn
    simp at hn
  · intro h
    cases hc : s.get u with
    | nil => rfl
    | cons iv rest =>
      exact absurd (separated_start_mem _ (hs.separated u) iv (by simp [hc])) (h iv.start)

theorem Canonical.txn_bounds (hs : Canonical s) (t : Txn) (h : t∈s.txns) :
    1≤t.2 ∧ t.2 ≤ maxInt64 := by
  obtain ⟨iv,hiv,h1,h2⟩ := h
  have hv := hs.valid t.1 iv hiv
  have := hv.one_le
  have := hv.stop_le
  omega

theorem Canonical.wfUuid_of_mem (hs : Canonical s) (t : Txn) (h : t∈s.txns) : WfUuid t.1 := by
  obtain ⟨iv,hiv,_⟩ := h
  exact hs.uuid t.1 (mem_of_get_ne_nil s t.1 (ne_nil_of_mem hiv))

theorem Normal.isEmpty_iff {s : GTIDSet} (hs : Normal s) : s.isEmpty=true ↔ s.txns=∅ := by
  simp only [isEmpty,List.all_eq_true,List.isEmpty_iff]
  constructor
  · intro h
    ext t
    simp only [Set.mem_empty_iff_false,iff_false,mem_txns]
    by_cases hu : t.1∈s
    · have := h ⟨t.1,s.get t.1⟩ ((mem_entries_iff s t.1 _).mpr ⟨hu,rfl⟩)
      exact absurd this (hs.ne_nil t.1 hu)
    · simp [get_of_not_mem s t.1 hu]
  · intro h e he
    obtain ⟨hu,hl⟩ := (mem_entries_iff s e.1 e.2).mp he
    cases hc : e.2 with
    | nil => rfl
    | cons iv rest =>
      have hm : iv∈s.get e.1 := by simp [hl,hc]
      have : (e.1, iv.start)∈s.txns := separated_start_mem _ (hs.separated e.1) iv hm
      rw [h] at this
      simp at this

theorem isEmpty_iff (s : GTIDSet) (hs : Canonical s) : s.isEmpty=true ↔ s.txns=∅ :=
  hs.normal.isEmpty_iff

private theorem containsLoop_iff (s : GTIDSet) (hs : Normal s)
    (l : List (Sigma fun _ : String => List GTIDInterval))
    (hne : ∀ e∈l,e.2≠[]) (hv : ∀ e∈l,∀ iv∈e.2,iv.start ≤ iv.stop) :
    s.containsLoop l=true ↔ ∀ e∈l,points e.2 ⊆ points (s.get e.1) := by
  induction l with
  | nil => simp [containsLoop]
  | cons e l ih =>
    have hi := ih (fun e h => hne e (by simp [h])) (fun e h => hv e (by simp [h]))
    simp only [containsLoop,mem_cons,forall_eq_or_imp]
    cases hl : s.lookup e.1 with
    | none =>
      simp only [List.isEmpty_iff,hne e (by simp),false_iff,not_and]
      intro hsub
      exfalso
      obtain ⟨iv,hiv⟩ := exists_mem_of_ne_nil _ (hne e (by simp))
      have := hsub ⟨iv,hiv,le_refl _,hv e (by simp) iv hiv⟩
      simp [get,hl] at this
    | some mine =>
      have hg : s.get e.1=mine := by simp [get,hl]
      have hcover : e.2.all (intervalsCover mine)=true ↔ points e.2 ⊆ points (s.get e.1) := by
        rw [all_eq_true,hg]
        constructor
        · intro h n hn
          obtain ⟨iv,hiv,hp⟩ := hn
          exact (intervalsCover_iff mine (hg ▸ hs.separated e.1)
            (hv e (by simp) iv hiv)).mp (h iv hiv) n hp
        · intro h iv hiv
          rw [intervalsCover_iff mine (hg ▸ hs.separated e.1) (hv e (by simp) iv hiv)]
          intro n hn
          exact h ⟨iv,hiv,hn⟩
      by_cases hc : e.2.all (intervalsCover mine)=true
      · simp only [hc,if_true,hi]
        exact ⟨fun h => ⟨hcover.mp hc,h⟩,fun h => h.2⟩
      · simp only [hc]
        constructor
        · intro h
          exact absurd h (by simp)
        · intro h
          exact absurd (hcover.mpr h.1) hc

theorem Normal.contains_iff {other : GTIDSet} (hs : Normal s) (ho : Normal other) :
    s.contains other=true ↔ other.txns ⊆ s.txns := by
  rw [contains,containsLoop_iff s hs]
  · constructor
    · intro h t ht
      have hu : t.1∈other := by
        obtain ⟨iv,hiv,_⟩ := ht
        exact mem_of_get_ne_nil other t.1 (ne_nil_of_mem hiv)
      exact h ⟨t.1,other.get t.1⟩ ((mem_entries_iff other t.1 _).mpr ⟨hu,rfl⟩) ht
    · intro h e he n hn
      obtain ⟨_,hl⟩ := (mem_entries_iff other e.1 e.2).mp he
      exact @h (e.1,n) (by rw [mem_txns,hl]; exact hn)
  · intro e he
    obtain ⟨hu,hl⟩ := (mem_entries_iff other e.1 e.2).mp he
    exact hl ▸ ho.ne_nil e.1 hu
  · intro e he iv hiv
    obtain ⟨_,hl⟩ := (mem_entries_iff other e.1 e.2).mp he
    exact (ho.valid e.1 iv (hl ▸ hiv)).start_le

theorem contains_iff (s other : GTIDSet) (hs : Canonical s) (ho : Canonical other) :
    s.contains other=true ↔ other.txns ⊆ s.txns :=
  hs.normal.contains_iff ho.normal

theorem Normal.equal_iff {other : GTIDSet} (hs : Normal s) (ho : Normal other) :
    s.equal other=true ↔ s.txns=other.txns := by
  rw [equal,Bool.and_eq_true,hs.contains_iff ho,ho.contains_iff hs,Set.Subset.antisymm_iff]
  exact and_comm

theorem equal_iff (s other : GTIDSet) (hs : Canonical s) (ho : Canonical other) :
    s.equal other=true ↔ s.txns=other.txns :=
  hs.normal.equal_iff ho.normal

private theorem normal_insert {s : GTIDSet} (hs : Normal s) {u : String} (hu : toLower u=u)
    {l : List GTIDInterval} (hne : l≠[]) (hsep : Separated l) (hv : ∀ iv∈l,Valid iv) :
    Normal (s.insert u l) := by
  refine ⟨?_,?_,?_,?_⟩
  · intro v h
    rw [AList.mem_insert] at h
    cases h with
    | inl h => exact h ▸ hu
    | inr h => exact hs.lower v h
  · intro v h
    rw [get_insert]
    split
    · exact hne
    · rename_i hvu
      rw [AList.mem_insert] at h
      exact hs.ne_nil v (h.resolve_left hvu)
  · intro v
    rw [get_insert]
    split
    · exact hsep
    · exact hs.separated v
  · intro v
    rw [get_insert]
    split
    · exact hv
    · exact hs.valid v

theorem Normal.addInterval {s : GTIDSet} (hs : Normal s) (u : String) (iv : GTIDInterval)
    (hv : Valid iv) :
    Normal (s.addInterval u iv) ∧
      (s.addInterval u iv).txns=s.txns ∪ {t | t.1=toLower u ∧ iv.Has t.2} := by
  have hall : ∀ x∈s.get (toLower u)++[iv], Valid x := by
    intro x hx
    cases mem_append.mp hx with
    | inl h => exact hs.valid (toLower u) x h
    | inr h => exact mem_singleton.mp h ▸ hv
  obtain ⟨h1,h2,h3⟩ := normalizeIntervals_correct _ hall
  have hne : normalizeIntervals (s.get (toLower u)++[iv])≠[] := by
    intro h
    have hm : iv.start∈points (s.get (toLower u)++[iv]) := ⟨iv,by simp,le_refl _,hv.start_le⟩
    rw [← h3,h] at hm
    simp at hm
  rw [GTIDSet.addInterval]
  refine ⟨normal_insert hs (toLower_idem u) hne h1 h2,?_⟩
  ext t
  rw [mem_txns,get_insert,Set.mem_union,mem_txns]
  by_cases ht : t.1=toLower u
  · rw [if_pos ht,h3,points_append,Set.mem_union,ht]
    simp [ht]
  · simp [ht]

theorem addInterval_correct (s : GTIDSet) (hs : Canonical s) (u : String) (hu : WfUuid u)
    (iv : GTIDInterval) (hv : Valid iv) :
    Canonical (s.addInterval u iv) ∧
      (s.addInterval u iv).txns=s.txns ∪ {t | t.1=u ∧ iv.Has t.2} := by
  obtain ⟨hn,ht⟩ := hs.normal.addInterval u iv hv
  rw [hu.lower] at ht
  refine ⟨hn.canonical ?_,ht⟩
  intro t h
  rw [ht] at h
  exact h.elim (hs.wfUuid_of_mem t) (fun h => h.1 ▸ hu)

private theorem union_loop (l : List (String × GTIDInterval)) (s : GTIDSet) (hs : Normal s)
    (hl : ∀ e∈l,toLower e.1=e.1 ∧ Valid e.2) :
    Normal (l.foldl (fun s e => s.addInterval e.1 e.2) s) ∧
      (l.foldl (fun s e => s.addInterval e.1 e.2) s).txns =
        s.txns ∪ {t | ∃ e∈l, t.1=e.1 ∧ e.2.Has t.2} := by
  induction l generalizing s with
  | nil => exact ⟨hs,by simp⟩
  | cons e l ih =>
    obtain ⟨hu,hv⟩ := hl e (by simp)
    obtain ⟨hc,ht⟩ := hs.addInterval e.1 e.2 hv
    obtain ⟨h1,h2⟩ := ih (s.addInterval e.1 e.2) hc (fun x hx => hl x (by simp [hx]))
    refine ⟨h1,?_⟩
    rw [foldl_cons,h2,ht,hu,Set.union_assoc]
    congr 1
    ext t
    simp

theorem Normal.of_mem_flat (hs : Normal s) (e : String × GTIDInterval) (he : e∈s.flat) :
    toLower e.1=e.1 ∧ Valid e.2 := by
  have hm := (mem_flat_iff s e.1 e.2).mp he
  exact ⟨hs.lower e.1 (mem_of_get_ne_nil s e.1 (ne_nil_of_mem hm)),hs.valid e.1 e.2 hm⟩

theorem Normal.union {s other : GTIDSet} (hs : Normal s) (ho : Normal other) :
    Normal (s.union other) ∧ (s.union other).txns=s.txns ∪ other.txns := by
  obtain ⟨h1,h2⟩ := union_loop other.flat s hs ho.of_mem_flat
  refine ⟨h1,?_⟩
  rw [GTIDSet.union,h2]
  congr 1
  ext t
  constructor
  · intro h
    obtain ⟨e,he,hte,hp⟩ := h
    have hm := (mem_flat_iff other e.1 e.2).mp he
    exact ⟨e.2,hte ▸ hm,hp⟩
  · intro h
    obtain ⟨iv,hiv,hp⟩ := h
    exact ⟨(t.1,iv),(mem_flat_iff other t.1 iv).mpr hiv,rfl,hp⟩

theorem union_correct (s other : GTIDSet) (hs : Canonical s) (ho : Canonical other) :
    Canonical (s.union other) ∧ (s.union other).txns=s.txns ∪ other.txns := by
  obtain ⟨hn,ht⟩ := hs.normal.union ho.normal
  refine ⟨hn.canonical ?_,ht⟩
  intro t h
  rw [ht] at h
  exact h.elim (hs.wfUuid_of_mem t) (ho.wfUuid_of_mem t)

private theorem normal_collect (s : GTIDSet) (hs : Normal s)
    (f : String → List GTIDInterval → List GTIDInterval) (hnil : ∀ u,f u []=[])
    (hsep : ∀ u,Separated (f u (s.get u))) (hv : ∀ u,∀ iv∈f u (s.get u),Valid iv) :
    Normal (Map.collect (fun u l => nonEmpty (f u l)) s) := by
  refine ⟨?_,?_,?_,?_⟩
  · intro u h
    exact hs.lower u (Map.mem_of_mem_collect h)
  · intro u h
    obtain ⟨l,hl⟩ := Option.isSome_iff_exists.mp (AList.lookup_isSome.mpr h)
    rw [get,hl,Option.getD_some]
    rw [Map.lookup_collect,Option.bind_eq_some_iff] at hl
    obtain ⟨l',_,hl'⟩ := hl
    exact ne_nil_of_nonEmpty _ l hl'
  · intro u
    rw [get_collect s f hnil]
    exact hsep u
  · intro u
    rw [get_collect s f hnil]
    exact hv u

theorem Normal.difference {s other : GTIDSet} (hs : Normal s) (ho : Normal other) :
    Normal (s.difference other) ∧ (s.difference other).txns=s.txns \ other.txns := by
  have hm := fun u => flatMap_minus (s.get u) (hs.separated u) (hs.valid u)
    (ho.separated u)
  refine ⟨normal_collect s hs _ (fun u => rfl) (fun u => (hm u).1) (fun u => (hm u).2.1),?_⟩
  ext t
  rw [mem_txns,GTIDSet.difference,get_collect s _ (fun u => rfl),(hm t.1).2.2]
  rfl

theorem difference_correct (s other : GTIDSet) (hs : Canonical s) (ho : Canonical other) :
    Canonical (s.difference other) ∧ (s.difference other).txns=s.txns \ other.txns := by
  obtain ⟨hn,ht⟩ := hs.normal.difference ho.normal
  refine ⟨hn.canonical ?_,ht⟩
  intro t h
  rw [ht] at h
  exact hs.wfUuid_of_mem t h.1

theorem Normal.intersect {s other : GTIDSet} (hs : Normal s) (ho : Normal other) :
    Normal (s.intersect other) ∧ (s.intersect other).txns=s.txns ∩ other.txns := by
  obtain ⟨h1,h2⟩ := hs.difference ho
  obtain ⟨h3,h4⟩ := hs.difference h1
  refine ⟨h3,?_⟩
  rw [GTIDSet.intersect,h4,h2,Set.sdiff_sdiff_right_self]

theorem intersect_correct (s other : GTIDSet) (hs : Canonical s) (ho : Canonical other) :
    Canonical (s.intersect other) ∧ (s.intersect other).txns=s.txns ∩ other.txns := by
  obtain ⟨hn,ht⟩ := hs.normal.intersect ho.normal
  refine ⟨hn.canonical ?_,ht⟩
  intro t h
  rw [ht] at h
  exact hs.wfUuid_of_mem t h.1

theorem Normal.holes {s : GTIDSet} (hs : Normal s) :
    Normal s.holes ∧ ∀ t,t∈s.holes.txns ↔
      t∉s.txns ∧ (∃ i<t.2,(t.1,i)∈s.txns) ∧ ∃ j > t.2,(t.1, j)∈s.txns := by
  have hg := fun u => gaps_correct (hs.separated u) (hs.valid u)
  refine ⟨normal_collect s hs (fun _ => gaps) (fun _ => rfl) (fun u => (hg u).1)
    (fun u => (hg u).2.1),?_⟩
  intro t
  rw [mem_txns,GTIDSet.holes,get_collect s (fun _ => gaps) (fun _ => rfl),(hg t.1).2.2]
  simp only [mem_txns,and_comm]

theorem holes_correct (s : GTIDSet) (hs : Canonical s) :
    Canonical s.holes ∧ ∀ t,t∈s.holes.txns ↔
      t∉s.txns ∧ (∃ i<t.2,(t.1,i)∈s.txns) ∧ ∃ j > t.2,(t.1, j)∈s.txns := by
  obtain ⟨hn,ht⟩ := hs.normal.holes
  refine ⟨hn.canonical ?_,ht⟩
  intro t h
  obtain ⟨-,⟨i,-,hi⟩,-⟩ := (ht t).mp h
  exact hs.wfUuid_of_mem (t.1,i) hi

theorem missingLoop_eq (s : GTIDSet) (hs : Canonical s) (l : List (String × GTIDInterval))
    (hl : ∀ e∈l,Valid e.2) (missing : Nat) (hm : missing ≤ maxInt64) :
    s.missingLoop missing l =
      min maxInt64 (missing+(l.map fun e => uncoveredBy e.2 (s.get e.1)).sum) := by
  induction l generalizing missing with
  | nil => simpa [missingLoop] using hm
  | cons e l ih =>
    have hle := uncoveredBy_le e.2 (s.get e.1) (hs.separated e.1) (hl e (by simp))
    simp only [missingLoop,map_cons,sum_cons]
    split
    · omega
    · rw [ih (fun x hx => hl x (by simp [hx])) _ (by omega)]
      omega

theorem missingCount_anti (s t other : GTIDSet) (hs : Canonical s) (ht : Canonical t)
    (ho : Canonical other) (h : s.txns ⊆ t.txns) :
    t.missingCount other ≤ s.missingCount other := by
  have hv : ∀ e∈other.flat, Valid e.2 := fun e he =>
    ho.valid e.1 e.2 ((mem_flat_iff other e.1 e.2).mp he)
  have hsum : (other.flat.map fun e => uncoveredBy e.2 (t.get e.1)).sum ≤
      (other.flat.map fun e => uncoveredBy e.2 (s.get e.1)).sum := by
    apply sum_le_sum
    intro e _
    apply uncoveredBy_anti _ _ _ (hs.separated e.1) (ht.separated e.1)
    intro n hn
    exact @h (e.1,n) hn
  rw [missingCount,missingCount,missingLoop_eq t ht _ hv 0 (Nat.zero_le _),
    missingLoop_eq s hs _ hv 0 (Nat.zero_le _)]
  omega

theorem subset_of_missingCount_eq_zero (s other : GTIDSet) (hs : Canonical s)
    (ho : Canonical other) (h : s.missingCount other=0) : other.txns ⊆ s.txns := by
  have hv : ∀ e∈other.flat, Valid e.2 := fun e he =>
    ho.valid e.1 e.2 ((mem_flat_iff other e.1 e.2).mp he)
  have hsum : (other.flat.map fun e => uncoveredBy e.2 (s.get e.1)).sum=0 := by
    rw [missingCount,missingLoop_eq s hs _ hv 0 (Nat.zero_le _)] at h
    simp only [maxInt64] at h
    omega
  intro t ht
  obtain ⟨iv,hiv,hhas⟩ := ht
  have hzero : uncoveredBy iv (s.get t.1)=0 := by
    have hmem := (mem_flat_iff other t.1 iv).mpr hiv
    exact List.sum_eq_zero_iff_forall_eq_nat.mp hsum _ (List.mem_map.mpr ⟨_,hmem,rfl⟩)
  rw [uncoveredBy_eq iv _ (hs.separated t.1),Finset.card_eq_zero,
    Finset.filter_eq_empty_iff] at hzero
  exact not_not.mp (hzero (Finset.mem_Icc.mpr hhas))

end GTIDSet

end Cnmsql.Replication
