import Cnmsql.Binlog.MariaReplay

namespace Cnmsql.Binlog

open ObjectStore

section

variable (cur r : ArchiveDisownedRange)

/-- What a range holds, by domain, server and sequence. -/
def rangeTxns : Set (Nat × Nat × Nat) :=
  {t | r.domain=t.1 ∧ r.server=t.2.1 ∧ r.after<t.2.2 ∧ t.2.2≤r.through}

/-- The two overlap or adjoin. -/
def touches : Bool :=
  cur.domain=r.domain ∧ cur.server=r.server ∧ r.after≤cur.through ∧ cur.after≤r.through

variable (ranges rs : List ArchiveDisownedRange)

def heldBy : Set (Nat × Nat × Nat) := {t | ∃ r∈ranges,t∈rangeTxns r}

/-- Each range lies within the first one it overlaps or adjoins. -/
def Tidy : Prop :=
  ∀ r∈ranges,∀ first∈ranges.find? (touches · r),first.after≤r.after ∧ r.through≤first.through

/-- The record after a sequence of calls. -/
def disownedBy : ArchiveDisowned := rs.foldl (fun d r => (ArchiveDisowned.addRange d r).1) {}

/-- A call reports growth exactly when it adds a transaction. -/
def ReportsGrowth (d : ArchiveDisowned) : Prop :=
  ∀ r,(ArchiveDisowned.addRange d r).2=true ↔ ∃ t∈rangeTxns r,t∉heldBy d.ranges

variable {cur r ranges rs}

theorem touches_iff : touches cur r=true ↔ cur.domain=r.domain ∧ cur.server=r.server ∧
    r.after≤cur.through ∧ cur.after≤r.through := by
  simp [touches]

theorem mem_rangeTxns {t : Nat × Nat × Nat} : t∈rangeTxns r ↔
    r.domain=t.1 ∧ r.server=t.2.1 ∧ r.after<t.2.2 ∧ t.2.2≤r.through := Iff.rfl

theorem rangeTxns_eq_empty (h : r.through≤r.after) : rangeTxns r=∅ := by
  apply Set.eq_empty_of_forall_notMem
  intro t ht
  rw [mem_rangeTxns] at ht
  omega

theorem holds_iff (g : MariaDBGTID) : ArchiveDisownedRange.holds r g=true ↔
    (g.domain.toNat,g.server.toNat,g.seq)∈rangeTxns r := by
  simp [ArchiveDisownedRange.holds,mem_rangeTxns]

theorem addRange_grew : (addRange r ranges).2 =
    (ranges.find? (touches · r)).all fun cur => r.after<cur.after ∨ cur.through<r.through := by
  induction ranges with
  | nil => rfl
  | cons cur rest ih =>
    rw [addRange,List.find?_cons]
    by_cases h : touches cur r=true
    · have hne := touches_iff.mp h
      rw [if_neg (by omega),h]
      rfl
    · have hne := mt touches_iff.mpr h
      rw [if_pos (by omega),Bool.eq_false_of_not_eq_true h]
      exact ih

theorem heldBy_cons : heldBy (cur::ranges)=rangeTxns cur ∪ heldBy ranges := by
  ext t
  simp [heldBy]

/-- A merge loses nothing and adds nothing besides. -/
theorem heldBy_addRange : heldBy (addRange r ranges).1=heldBy ranges ∪ rangeTxns r := by
  induction ranges with
  | nil => simp [addRange,heldBy]
  | cons cur rest ih =>
    rw [addRange]
    split
    · rw [heldBy_cons,heldBy_cons,ih,Set.union_assoc]
    · rename_i h
      have hmerged : rangeTxns { cur with
          after := min cur.after r.after, through := max cur.through r.through } =
          rangeTxns cur ∪ rangeTxns r := by
        ext t
        simp only [mem_rangeTxns,Set.mem_union]
        omega
      rw [heldBy_cons,heldBy_cons,hmerged,Set.union_right_comm]

theorem proper_addRange (hr : r.after<r.through) (h : ∀ x∈ranges,x.after<x.through) :
    ∀ x∈(addRange r ranges).1,x.after<x.through := by
  induction ranges with
  | nil => simpa [addRange] using hr
  | cons cur rest ih =>
    rw [List.forall_mem_cons] at h
    rw [addRange]
    split
    · exact List.forall_mem_cons.mpr ⟨h.1,ih h.2⟩
    · refine List.forall_mem_cons.mpr ⟨?_,h.2⟩
      simp only
      omega

/-- What a sequence of calls leaves. -/
theorem disownedBy_spec (rs : List ArchiveDisownedRange) :
    heldBy (disownedBy rs).ranges=heldBy rs ∧ ∀ x∈(disownedBy rs).ranges,x.after<x.through := by
  induction rs using List.reverseRecOn with
  | nil => simp [disownedBy]
  | append_singleton rs r ih =>
    have hsnoc : heldBy (rs++[r])=heldBy rs ∪ rangeTxns r := by
      ext t
      simp [heldBy,or_and_right,exists_or]
    rw [disownedBy,List.foldl_append,List.foldl_cons,List.foldl_nil,← disownedBy,hsnoc,
      ArchiveDisowned.addRange]
    split
    · rename_i hempty
      rw [rangeTxns_eq_empty hempty,Set.union_empty]
      exact ih
    · rename_i hr
      rw [heldBy_addRange,ih.1]
      exact ⟨rfl,proper_addRange (by omega) ih.2⟩

/-- Two searches that accept each other's result end at the same element. -/
theorem find?_unique {α : Type} {p q : α → Bool} {l : List α} {a b : α} (ha : l.find? p=some a)
    (hb : l.find? q=some b) (hq : q a=true) (hp : p b=true) : a=b := by
  obtain ⟨-,i,hi,rfl,hbefore⟩ := List.find?_eq_some_iff_getElem.mp ha
  obtain ⟨-,j,hj,rfl,hbefore'⟩ := List.find?_eq_some_iff_getElem.mp hb
  rcases Nat.lt_trichotomy i j with hlt | rfl | hlt
  · simpa [hq] using hbefore' i hlt
  · rfl
  · simpa [hp] using hbefore j hlt

/-- What lies just past an end of the first range that a new one touches is held by none. -/
theorem Tidy.exists_new (h : Tidy ranges) (hproper : ∀ x∈ranges,x.after<x.through)
    (hfirst : ranges.find? (touches · r)=some cur)
    (hgrew : r.after<cur.after ∨ cur.through<r.through) : ∃ t∈rangeTxns r,t∉heldBy ranges := by
  have hcur := touches_iff.mp (List.find?_some (p := (touches · r)) hfirst)
  have hcur' := hproper cur (List.mem_of_find?_eq_some hfirst)
  obtain ⟨n,hn,hend⟩ : ∃ n,(r.domain,r.server,n)∈rangeTxns r ∧
      (n=cur.through+1 ∨ n=cur.after) := by
    by_cases hlow : r.after<cur.after
    · exact ⟨cur.after,⟨rfl,rfl,hlow,hcur.2.2.2⟩,.inr rfl⟩
    · have hhigh := hgrew.resolve_left hlow
      exact ⟨cur.through+1,⟨rfl,rfl,Nat.lt_succ_of_le hcur.2.2.1,hhigh⟩,.inl rfl⟩
  refine ⟨_,hn,?_⟩
  intro hheld
  obtain ⟨x,hx,hxn⟩ := hheld
  have hx' := hproper x hx
  simp only [mem_rangeTxns] at hn hxn
  have hself : (ranges.find? (touches · x)).isSome :=
    List.find?_isSome.mpr ⟨x,hx,touches_iff.mpr ⟨rfl,rfl,by omega,by omega⟩⟩
  obtain ⟨first,hm⟩ := Option.isSome_iff_exists.mp hself
  have hin := h x hx first hm
  have hfx := touches_iff.mp (List.find?_some (p := (touches · x)) hm)
  have heq : first=cur := by
    apply find?_unique hm hfirst
    · exact touches_iff.mpr ⟨by omega,by omega,by omega,by omega⟩
    · exact touches_iff.mpr ⟨by omega,by omega,by omega,by omega⟩
  subst heq
  omega

theorem reportsGrowth_iff {d : ArchiveDisowned} (hproper : ∀ x∈d.ranges,x.after<x.through) :
    ReportsGrowth d ↔ Tidy d.ranges := by
  constructor
  · intro h r hr first hfirst
    have hgrew : ¬(ArchiveDisowned.addRange d r).2=true := by
      intro hgrew
      obtain ⟨t,ht,hnot⟩ := (h r).mp hgrew
      exact hnot ⟨r,hr,ht⟩
    have := hproper r hr
    rw [ArchiveDisowned.addRange,if_neg (by omega),addRange_grew,Option.mem_def.mp hfirst] at hgrew
    simpa using hgrew
  · intro h r
    rw [ArchiveDisowned.addRange]
    split
    · rename_i hempty
      simp [rangeTxns_eq_empty hempty]
    · rename_i hr
      rw [addRange_grew]
      cases hfirst : d.ranges.find? (touches · r) with
      | none =>
        simp only [Option.all_none,true_iff]
        refine ⟨(r.domain,r.server,r.through),⟨rfl,rfl,not_le.mp hr,le_rfl⟩,?_⟩
        intro hheld
        obtain ⟨x,hx,hxn⟩ := hheld
        simp only [mem_rangeTxns] at hxn
        apply List.find?_eq_none.mp hfirst x hx
        exact touches_iff.mpr ⟨hxn.1,hxn.2.1,by omega,by omega⟩
      | some cur =>
        have hcur := touches_iff.mp (List.find?_some (p := (touches · r)) hfirst)
        simp only [Option.all_some,decide_eq_true_eq]
        refine ⟨h.exists_new hproper hfirst,?_⟩
        intro hnew
        obtain ⟨t,ht,hnot⟩ := hnew
        by_contra hin
        refine hnot ⟨cur,List.mem_of_find?_eq_some hfirst,?_⟩
        rw [mem_rangeTxns] at ht ⊢
        omega

end

/-- However calls are ordered a record holds what they added, and the next call reports growth
truly exactly when each range lies within the first one it overlaps or adjoins. -/
theorem disowned_growth_iff (rs : List ArchiveDisownedRange) :
    (heldBy (disownedBy rs).ranges=heldBy rs ∧
      (∀ g,(disownedBy rs).ranges.any (ArchiveDisownedRange.holds · g) =
        rs.any (ArchiveDisownedRange.holds · g)) ∧
      ReportsGrowth (disownedBy rs)) ↔ Tidy (disownedBy rs).ranges := by
  obtain ⟨hheld,hproper⟩ := disownedBy_spec rs
  rw [reportsGrowth_iff hproper]
  constructor
  · intro h
    exact h.2.2
  · intro h
    refine ⟨hheld,fun g => ?_,h⟩
    rw [Bool.eq_iff_iff,List.any_eq_true,List.any_eq_true]
    simp only [holds_iff]
    exact Set.ext_iff.mp hheld _

/-- A call bridges two ranges, and only the first one grows. -/
def bridged : ArchiveDisowned := disownedBy [⟨0,1,0,5⟩,⟨0,1,6,10⟩,⟨0,1,4,7⟩]

theorem disowned_growth_bridged : (ArchiveDisowned.addRange bridged ⟨0,1,7,9⟩).2=true ∧
    rangeTxns ⟨0,1,7,9⟩ ⊆ heldBy bridged.ranges := by
  refine ⟨by decide,?_⟩
  intro t ht
  refine ⟨⟨0,1,6,10⟩,by decide,?_⟩
  simp only [mem_rangeTxns] at ht ⊢
  omega

end Cnmsql.Binlog
