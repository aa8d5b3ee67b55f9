import Cnmsql.Framework.Slices
import Cnmsql.Replication.GtidInt64

namespace Cnmsql.Replication

open Framework

instance : Inhabited GTIDInterval := ⟨⟨0,0⟩⟩

abbrev SliceSet := Map String Slice

section

variable (grow : Nat → Nat)

/-- The variables of `minus`; `returned` once it has left the function. -/
structure Sweep where
  out : Slice
  start : Nat
  returned : Bool := false

/-- The piece before `m`, when there is one. -/
def emitBefore (st : Sweep) (m : GTIDInterval) (mem : Memory GTIDInterval) :
    Option (Slice × Memory GTIDInterval) :=
  if m.start > st.start then do
    let last ← pred64 m.start
    some (st.out.append grow [⟨st.start,last⟩] mem)
  else some (st.out,mem)

/-- One iteration of `minus`. -/
def sweep (iv : GTIDInterval) (st : Sweep) (m : GTIDInterval) (mem : Memory GTIDInterval) :
    Option (ForInStep Sweep × Memory GTIDInterval) :=
  if m.stop<st.start then some (.yield st,mem)
  else if m.start > iv.stop then some (.done st,mem)
  else do
    let (out,mem) ← emitBefore grow st m mem
    if m.stop ≥ iv.stop then some (.done { st with out := out, returned := true }, mem)
    else do
      let start ← succ64 m.stop
      some (.yield { st with out := out, start := start }, mem)

/-- `minus` on slices. -/
def minus64 (iv : GTIDInterval) (sub : Slice) (mem : Memory GTIDInterval) :
    Option (Slice × Memory GTIDInterval) := do
  let (out, mem) := Slice.make 0 mem
  let (st,mem) ← sub.range (sweep grow iv) ⟨out,iv.start,false⟩ mem
  if st.returned then some (st.out,mem)
  else some (st.out.append grow [⟨st.start,iv.stop⟩] mem)

/-- What `Difference` keeps of one source. -/
def keptOf (intervals sub : Slice) (mem : Memory GTIDInterval) :
    Option (Slice × Memory GTIDInterval) :=
  let (kept, mem) := Slice.make intervals.len mem
  intervals.range (fun kept iv mem => do
    let (piece,mem) ← minus64 grow iv sub mem
    let (kept, mem) := kept.append grow (piece.read mem) mem
    some (.yield kept,mem)) kept mem

/-- What `Holes` appends for a source from index `i` on, `k` indices left. -/
def holesOf (intervals : Slice) :
    Nat → Nat → Option Slice → Memory GTIDInterval → Option (Option Slice × Memory GTIDInterval)
  | 0,_,out,mem => some (out,mem)
  | k+1,i,out,mem => do
    let before ← intervals.at? (i-1) mem
    let after ← intervals.at? i mem
    let start ← succ64 before.stop
    let stop ← pred64 after.start
    let (nil, mem) := Slice.make 0 mem
    let (out, mem) := (out.getD nil).append grow [⟨start,stop⟩] mem
    holesOf intervals k (i+1) (some out) mem

namespace SliceSet

variable (s : SliceSet) (mem : Memory GTIDInterval)

def get (uuid : String) : Slice := (s.lookup uuid).getD ⟨0,0⟩

/-- A new set source by source: `f` makes a slice, or leaves the source out. -/
def eachSource
    (f : String → Slice → Memory GTIDInterval → Option (Option Slice × Memory GTIDInterval)) :
    List (Sigma fun _ : String => Slice) → SliceSet → Memory GTIDInterval →
      Option (SliceSet × Memory GTIDInterval)
  | [],out,mem => some (out,mem)
  | ⟨uuid,intervals⟩::rest,out,mem => do
    let (made,mem) ← f uuid intervals mem
    eachSource f rest (made.elim out (out.insert uuid)) mem

def difference64 (other : SliceSet) (mem : Memory GTIDInterval) :
    Option (SliceSet × Memory GTIDInterval) :=
  eachSource (fun uuid intervals mem => do
    let (kept,mem) ← keptOf grow intervals (other.get uuid) mem
    some (if kept.len > 0 then some kept else none,mem)) s.entries ∅ mem

def intersect64 (other : SliceSet) (mem : Memory GTIDInterval) :
    Option (SliceSet × Memory GTIDInterval) := do
  let (rest,mem) ← s.difference64 grow other mem
  s.difference64 grow rest mem

def holes64 : Option (SliceSet × Memory GTIDInterval) :=
  eachSource (fun _ intervals mem => holesOf grow intervals (intervals.len-1) 1 none mem)
    s.entries ∅ mem

def clone : Option (SliceSet × Memory GTIDInterval) :=
  eachSource (fun _ intervals mem =>
    some (some (intervals.copied mem).1,(intervals.copied mem).2)) s.entries ∅ mem

def load : GTIDSet :=
  Map.collect (fun _ sl => some (sl.read mem)) s

def Held : Prop :=
  ∀ u sl,s.lookup u=some sl → sl.array < mem.length ∧ sl.len≤(mem.cells sl.array).length

end SliceSet

end

section

variable (grow : Nat → Nat) {n : Nat} {mem : Memory GTIDInterval}

private theorem fresh_of_keeps {sl : Slice} {mem' : Memory GTIDInterval} (h : Fresh n sl mem)
    (hk : Keeps mem.length mem mem') (hle : mem.length ≤ mem'.length) : Fresh n sl mem' :=
  ⟨h.le_array,lt_of_lt_of_le h.array_lt hle,(hk _ h.array_lt).symm ▸ h.len_le⟩

private theorem emitBefore_correct (st : Sweep) (m : GTIDInterval) (hf : Fresh n st.out mem)
    (hn : n ≤ mem.length) :
    ∃ out mem',emitBefore grow st m mem=some (out,mem') ∧
      Fresh n out mem' ∧ Keeps n mem mem' ∧ mem.length ≤ mem'.length ∧
      out.read mem' =
        st.out.read mem++if m.start > st.start then [⟨st.start,m.start-1⟩] else [] := by
  by_cases h : m.start > st.start
  · obtain ⟨h1,h2,h3,h4⟩ := hf.append hn grow [(⟨st.start,m.start-1⟩ : GTIDInterval)]
    refine ⟨_,_,?_,h1,h2,h3,?_⟩
    · rw [emitBefore,if_pos h,pred64_of_pos (by omega)]
      rfl
    · rw [h4,if_pos h]
  · exact ⟨st.out,mem,by rw [emitBefore,if_neg h],hf,Keeps.refl n mem,le_refl _,by simp [h]⟩

/-- `minus` returns the pieces of the value it computes, in a new array. -/
theorem minus64_correct {iv : GTIDInterval} {sub : Slice} (hiv : iv.stop ≤ maxInt64)
    (hsub : sub.array < mem.length) :
    ∃ r mem',minus64 grow iv sub mem=some (r,mem') ∧ Keeps mem.length mem mem' ∧
      mem.length ≤ mem'.length ∧ r.read mem'=minus iv (sub.read mem) := by
  obtain ⟨m1,m2,m3,m4⟩ := Slice.make_correct 0 (le_refl mem.length)
  have hread : sub.read (Slice.make 0 mem).2=sub.read mem := m2.read sub hsub
  -- the pieces so far and the sweep over the remaining intervals make up the result
  obtain ⟨st,mem',hrun,hk,hf,hle,hst⟩ := Slice.range_rule (sweep grow iv) hsub
    (fun rest st mem' => Fresh mem.length st.out mem' ∧ mem.length ≤ mem'.length ∧
      st.returned=false ∧
      st.out.read mem'++minusFrom st.start iv.stop rest=minus iv (sub.read mem))
    (fun st mem' => Fresh mem.length st.out mem' ∧ mem.length ≤ mem'.length ∧
      st.out.read mem'++(if st.returned then [] else [⟨st.start,iv.stop⟩]) =
        minus iv (sub.read mem))
    (by
      rintro st mem' ⟨hf,hle,hret,heq⟩
      exact ⟨hf,hle,by simpa [hret,minusFrom] using heq⟩)
    (by
      rintro m rest st mem' ⟨hf,hle,hret,heq⟩
      rw [minusFrom] at heq
      unfold sweep
      by_cases hlt : m.stop<st.start
      · rw [if_pos hlt] at heq
        exact ⟨_,mem',if_pos hlt,Keeps.refl _ _,hf,hle,hret,heq⟩
      by_cases hgt : m.start > iv.stop
      · rw [if_neg hlt,if_pos hgt] at heq
        refine ⟨.done st,mem',by rw [if_neg hlt,if_pos hgt],Keeps.refl _ _,hf,hle,?_⟩
        simpa [hret] using heq
      rw [if_neg hlt,if_neg hgt] at heq ⊢
      obtain ⟨out,mem'',hpiece,hf',hk',hle',hout⟩ := emitBefore_correct grow st m hf hle
      simp only [hpiece,Option.bind_eq_bind,Option.bind_some]
      by_cases hend : m.stop ≥ iv.stop
      · rw [if_pos hend] at heq
        refine ⟨.done ⟨out,st.start,true⟩,mem'',by rw [if_pos hend],hk',hf',by omega,?_⟩
        simpa [hout] using heq
      · rw [if_neg hend] at heq
        refine ⟨.yield ⟨out,m.stop+1,st.returned⟩,mem'',?_,hk',hf',by omega,hret,?_⟩
        · rw [if_neg hend,succ64_of_lt (by omega)]
          rfl
        · simpa [hout] using heq)
    ⟨(Slice.make 0 mem).1,iv.start,false⟩ (Slice.make 0 mem).2
    ⟨m1,m3,rfl,by rw [m4,hread]; rfl⟩
  have hkeep := m2.trans hk
  by_cases hret : st.returned=true
  · refine ⟨st.out,mem',?_,hkeep,hle,by simpa [hret] using hst⟩
    simp [minus64,hrun,hret]
  · obtain ⟨a1,a2,a3,a4⟩ := hf.append hle grow [(⟨st.start,iv.stop⟩ : GTIDInterval)]
    refine ⟨(st.out.append grow [⟨st.start,iv.stop⟩] mem').1,_,?_,hkeep.trans a2,le_trans hle a3,?_⟩
    · simp [minus64,hrun,hret]
    · rw [a4]
      simpa [hret] using hst

theorem keptOf_correct (mem : Memory GTIDInterval) (intervals sub : Slice) (hsl : intervals.array < mem.length)
    (hsub : sub.array < mem.length) (hv : ∀ iv∈intervals.read mem,iv.stop ≤ maxInt64) :
    ∃ kept mem',keptOf grow intervals sub mem=some (kept,mem') ∧
      Keeps mem.length mem mem' ∧ mem.length ≤ mem'.length ∧ Fresh mem.length kept mem' ∧
      kept.read mem'=(intervals.read mem).flatMap fun iv => minus iv (sub.read mem) := by
  obtain ⟨m1,m2,m3,m4⟩ := Slice.make_correct intervals.len (le_refl mem.length)
  have hread := m2.read intervals hsl
  obtain ⟨kept,mem',hrun,hk,hf,hle,heq⟩ := Slice.range_rule (fun kept iv mem => do
      let (piece,mem) ← minus64 grow iv sub mem
      let (kept, mem) := kept.append grow (piece.read mem) mem
      some (.yield kept,mem)) hsl
    (fun rest kept mem' => Fresh mem.length kept mem' ∧ mem.length ≤ mem'.length ∧
      Keeps mem.length mem mem' ∧ (∀ iv∈rest,iv.stop ≤ maxInt64) ∧
      kept.read mem'++(rest.flatMap fun iv => minus iv (sub.read mem)) =
        (intervals.read mem).flatMap fun iv => minus iv (sub.read mem))
    (fun kept mem' => Fresh mem.length kept mem' ∧ mem.length ≤ mem'.length ∧
      kept.read mem'=(intervals.read mem).flatMap fun iv => minus iv (sub.read mem))
    (by
      rintro kept mem' ⟨hf,hle,-,-,heq⟩
      exact ⟨hf,hle,by simpa using heq⟩)
    (by
      rintro iv rest kept mem' ⟨hf,hle,hk,hrest,heq⟩
      -- `minus` allocates past everything there is, `kept` included
      obtain ⟨piece,mem'',hminus,hk',hle',hpiece⟩ := minus64_correct grow
        (hrest iv (by simp)) (lt_of_lt_of_le hsub hle)
      have hf' := fresh_of_keeps hf hk' hle'
      obtain ⟨a1,a2,a3,a4⟩ := hf'.append (le_trans hle hle') grow (piece.read mem'')
      refine ⟨.yield (kept.append grow (piece.read mem'') mem'').1,_,by rw [hminus]; rfl,
        (hk'.mono hle).trans a2,a1,by omega,(hk.trans (hk'.mono hle)).trans a2,
        fun x hx => hrest x (by simp [hx]),?_⟩
      rw [a4,hk'.read kept hf.array_lt,hpiece,hk.read sub hsub,List.append_assoc,← heq,
        List.flatMap_cons])
    (Slice.make intervals.len mem).1 (Slice.make intervals.len mem).2
    ⟨m1,m3,m2,by rw [hread]; exact hv,by rw [m4,hread]; rfl⟩
  exact ⟨kept,mem',hrun,m2.trans hk,hle,hf,heq⟩

variable (l : List GTIDInterval) (i : Nat)

private theorem gaps_drop (hi : 1 ≤ i) (h : i<l.length) :
    ∃ before after,l[i-1]?=some before ∧ l[i]?=some after ∧
      gaps (l.drop (i-1))=⟨before.stop+1,after.start-1⟩::gaps (l.drop i) := by
  refine ⟨l[i-1],l[i],List.getElem?_eq_getElem _,List.getElem?_eq_getElem _,?_⟩
  have hbefore : l.drop (i-1)=l[i-1]::l.drop i := by
    rw [List.drop_eq_getElem_cons (by omega)]
    congr 2
    omega
  rw [hbefore,List.drop_eq_getElem_cons h]
  rfl

private theorem gaps_drop_last (h : l.length ≤ i) : gaps (l.drop (i-1))=[] := by
  have hlen : (l.drop (i-1)).length≤1 := by
    rw [List.length_drop]
    omega
  match l.drop (i-1),hlen with
  | [],_ => rfl
  | [_],_ => rfl

private theorem nonEmpty_append (iv : GTIDInterval) :
    GTIDSet.nonEmpty (l++[iv])=some (l++[iv]) := by
  simp [GTIDSet.nonEmpty]

theorem holesOf_correct (mem : Memory GTIDInterval) (intervals : Slice) (hsl : intervals.array < mem.length)
    (hlen : intervals.len≤(mem.cells intervals.array).length)
    (hsep : Separated (intervals.read mem)) (hv : ∀ iv∈intervals.read mem,Valid iv) :
    ∃ made mem',holesOf grow intervals (intervals.len-1) 1 none mem=some (made,mem') ∧
      Keeps mem.length mem mem' ∧ mem.length ≤ mem'.length ∧
      (∀ sl∈made,Fresh mem.length sl mem') ∧
      made.map (·.read mem')=GTIDSet.nonEmpty (gaps (intervals.read mem)) := by
  have hl : (intervals.read mem).length=intervals.len := by
    rw [Slice.read,List.length_take]
    omega
  -- the gaps found so far and those from index `i` on make up the result
  suffices hloop : ∀ (k i : Nat) (acc : List GTIDInterval) (out : Option Slice)
      (mem₁ : Memory GTIDInterval),1 ≤ i → k=(intervals.read mem).length-i →
      Keeps mem.length mem mem₁ → mem.length ≤ mem₁.length →
      (∀ sl∈out,Fresh mem.length sl mem₁) → out.map (·.read mem₁)=GTIDSet.nonEmpty acc →
      ∃ made mem',holesOf grow intervals k i out mem₁=some (made,mem') ∧
        Keeps mem.length mem mem' ∧ mem.length ≤ mem'.length ∧
        (∀ sl∈made,Fresh mem.length sl mem') ∧
        made.map (·.read mem') =
          GTIDSet.nonEmpty (acc++gaps ((intervals.read mem).drop (i-1))) by
    exact hloop (intervals.len-1) 1 [] none mem (le_refl _) (by rw [hl]) (Keeps.refl _ _)
      (le_refl _) (by simp) rfl
  intro k
  induction k with
  | zero =>
    intro i acc out mem₁ hi hk hkeep hle hfresh hout
    refine ⟨out,mem₁,rfl,hkeep,hle,hfresh,?_⟩
    rw [gaps_drop_last _ i (by omega),List.append_nil,hout]
  | succ k ih =>
    intro i acc out mem₁ hi hk hkeep hle hfresh hout
    obtain ⟨before,after,hbefore,hafter,hgaps⟩ :=
      gaps_drop (intervals.read mem) i hi (by omega)
    have hread := hkeep.read intervals hsl
    have hgap : before.stop+1<after.start := by
      obtain ⟨_,hb⟩ := List.getElem?_eq_some_iff.mp hbefore
      obtain ⟨_,ha⟩ := List.getElem?_eq_some_iff.mp hafter
      rw [← hb,← ha]
      exact List.pairwise_iff_getElem.mp hsep.2 (i-1) i _ _ (by omega)
    have hstop : after.start ≤ maxInt64 := by
      have hva := hv after (List.mem_of_getElem? hafter)
      exact le_trans hva.start_le hva.stop_le
    obtain ⟨m1,m2,m3,m4⟩ := Slice.make_correct 0 hle
    -- an absent source starts from a nil slice, which holds the empty list
    have hbase : Fresh mem.length (out.getD (Slice.make 0 mem₁).1) (Slice.make 0 mem₁).2 ∧
        (out.getD (Slice.make 0 mem₁).1).read (Slice.make 0 mem₁).2=acc := by
      rw [← GTIDSet.getD_nonEmpty acc,← hout]
      cases out with
      | none => exact ⟨m1,m4⟩
      | some sl =>
        have hall := (Slice.make_correct 0 (le_refl mem₁.length)).2.1
        exact ⟨fresh_of_keeps (hfresh sl rfl) hall m3,hall.read sl (hfresh sl rfl).array_lt⟩
    obtain ⟨a1,a2,a3,a4⟩ := hbase.1.append (by omega) grow
      [(⟨before.stop+1,after.start-1⟩ : GTIDInterval)]
    obtain ⟨made,mem',hrun,hk',hle',hf',hmade⟩ := ih (i+1)
      (acc++[⟨before.stop+1,after.start-1⟩]) (some _) _ (by omega) (by omega)
      ((hkeep.trans m2).trans a2) (by omega) (by simpa using a1) (by
        rw [Option.map_some,a4,hbase.2,nonEmpty_append])
    refine ⟨made,mem',?_,hk',hle',hf',?_⟩
    · rw [holesOf,Slice.at?,Slice.at?,hread,hbefore,hafter]
      simp only [Option.bind_eq_bind,Option.bind_some,succ64_of_lt (by omega : before.stop < maxInt64),
        pred64_of_pos (by omega : 0<after.start)]
      exact hrun
    · rw [hmade,hgaps,List.append_assoc,Nat.add_sub_cancel]
      rfl

end

namespace SliceSet

@[simp] theorem lookup_load (s : SliceSet) (mem : Memory GTIDInterval) (u : String) :
    (s.load mem).lookup u=(s.lookup u).map (·.read mem) := by
  rw [load,Map.lookup_collect]
  cases s.lookup u with
  | none => rfl
  | some sl => rfl

theorem Held.keeps {s : SliceSet} {mem mem' : Memory GTIDInterval} (h : s.Held mem)
    (hk : Keeps mem.length mem mem') (hle : mem.length ≤ mem'.length) :
    s.Held mem' ∧ s.load mem'=s.load mem := by
  constructor
  · intro u sl hsl
    obtain ⟨h1,h2⟩ := h u sl hsl
    exact ⟨by omega,by rw [hk _ h1]; exact h2⟩
  · apply Map.collect_congr
    intro u sl hsl
    rw [hk.read sl (h u sl hsl).1]

private theorem held_made {out : SliceSet} {made : Option Slice} {mem mem' : Memory GTIDInterval}
    (u : String) (h : out.Held mem) (hk : Keeps mem.length mem mem') (hle : mem.length ≤ mem'.length)
    (hfresh : ∀ sl∈made,Fresh mem.length sl mem') : Held (made.elim out (out.insert u)) mem' := by
  have hout := (h.keeps hk hle).1
  cases made with
  | none => exact hout
  | some sl =>
    intro v x hx
    rcases Map.lookup_insert_eq_some hx with ⟨-,rfl⟩ | hold
    · exact ⟨(hfresh x rfl).array_lt,(hfresh x rfl).len_le⟩
    · exact hout v x hold

/-- A run makes a normal set of these transactions: nothing overflows, and neither the operands nor
any other array changes. -/
structure Makes [CaseMapping] (run : Option (SliceSet × Memory GTIDInterval))
    (mem : Memory GTIDInterval) (operands : List SliceSet) (txns : Set Txn) : Prop where
  ends : ∃ r mem',run=some (r,mem') ∧ Keeps mem.length mem mem' ∧ mem.length ≤ mem'.length ∧
    (∀ s∈operands,s.load mem'=s.load mem) ∧ r.Held mem' ∧ (r.load mem').Normal ∧
    (r.load mem').txns=txns

section

variable
  {f : String → Slice → Memory GTIDInterval → Option (Option Slice × Memory GTIDInterval)}
  {g : String → List GTIDInterval → Option (List GTIDInterval)} {s : SliceSet}
  {mem : Memory GTIDInterval}
  (hf : ∀ u sl,s.lookup u=some sl → ∀ mem',Keeps mem.length mem mem' →
    mem.length ≤ mem'.length → ∃ made mem'',f u sl mem'=some (made,mem'') ∧
      Keeps mem'.length mem' mem'' ∧ mem'.length ≤ mem''.length ∧
      (∀ sl∈made,Fresh mem'.length sl mem'') ∧ made.map (·.read mem'')=g u (sl.read mem))

include hf

/-- A new set has what `f` made, and every older array is kept. -/
theorem eachSource_correct : ∃ r mem',eachSource f s.entries ∅ mem=some (r,mem') ∧
    Keeps mem.length mem mem' ∧ mem.length ≤ mem'.length ∧ r.Held mem' ∧
      ∀ u,(r.load mem').lookup u=((s.load mem).lookup u).bind (g u) := by
  -- what is made so far stays as it is while the remaining sources are made
  suffices hloop : ∀ (l : List (Sigma fun _ : String => Slice)) (out : SliceSet)
      (mem₁ : Memory GTIDInterval),l.NodupKeys → (∀ e∈l,s.lookup e.1=some e.2) →
      (∀ e∈l,out.lookup e.1=none) → Keeps mem.length mem mem₁ → mem.length ≤ mem₁.length →
      out.Held mem₁ →
      ∃ r mem',eachSource f l out mem₁=some (r,mem') ∧ Keeps mem₁.length mem₁ mem' ∧
        mem₁.length ≤ mem'.length ∧ r.Held mem' ∧
        ∀ u,(r.load mem').lookup u =
          (l.dlookup u).elim ((out.load mem₁).lookup u) fun sl => g u (sl.read mem) by
    obtain ⟨r,mem',hrun,hk,hle,hheld,hlookup⟩ := hloop s.entries ∅ mem s.nodupKeys
      (fun e he => AList.mem_lookup_iff.mpr he) (fun e _ => rfl) (Keeps.refl _ _) (le_refl _)
      (by intro u sl h; cases h)
    refine ⟨r,mem',hrun,hk,hle,hheld,?_⟩
    intro u
    rw [hlookup,lookup_load,lookup_load,AList.lookup_empty]
    change (s.lookup u).elim _ _ = _
    cases s.lookup u with
    | none => rfl
    | some sl => rfl
  intro l
  induction l with
  | nil =>
    intro out mem₁ _ _ _ _ _ hheld
    exact ⟨out,mem₁,rfl,Keeps.refl _ _,le_refl _,hheld,fun u => rfl⟩
  | cons e l ih =>
    intro out mem₁ hnd hs hout hk hle hheld
    obtain ⟨hne,hnd⟩ := List.nodupKeys_cons.mp hnd
    obtain ⟨made,mem₂,hmade,hk₂,hle₂,hfresh,hread⟩ := hf e.1 e.2 (hs e (by simp)) mem₁ hk hle
    have hothers : ∀ u,u≠e.1 →
        AList.lookup u (made.elim out (out.insert e.1))=out.lookup u := by
      intro u hu
      cases made with
      | none => rfl
      | some sl => exact AList.lookup_insert_ne hu
    have hself : (AList.lookup e.1 (made.elim out (out.insert e.1))).map (·.read mem₂) =
        g e.1 (e.2.read mem) := by
      rw [← hread]
      cases made with
      | none => rw [Option.elim_none,hout e (by simp)]
      | some sl => rw [Option.elim_some,AList.lookup_insert]
    have habsent : ∀ x∈l, x.1≠e.1 := by
      intro x hx he
      exact hne (he ▸ List.mem_keys_of_mem hx)
    obtain ⟨r,mem',hrun,hk',hle',hheld',hlookup⟩ := ih (made.elim out (out.insert e.1)) mem₂ hnd
      (fun x hx => hs x (by simp [hx]))
      (fun x hx => by rw [hothers x.1 (habsent x hx)]; exact hout x (by simp [hx]))
      (hk.trans (hk₂.mono hle)) (by omega) (held_made e.1 hheld hk₂ hle₂ hfresh)
    refine ⟨r,mem',?_,hk₂.trans (hk'.mono hle₂),by omega,hheld',?_⟩
    · rw [eachSource,hmade]
      exact hrun
    · intro u
      rw [hlookup,lookup_load]
      by_cases hu : u=e.1
      · subst hu
        rw [List.dlookup_eq_none.mpr hne,List.dlookup_cons_eq,Option.elim_none,hself]
        rfl
      · rw [List.dlookup_cons_ne _ _ hu,hothers u hu,lookup_load]
        congr 1
        cases hl : out.lookup u with
        | none => rfl
        | some sl => rw [Option.map_some,Option.map_some,hk₂.read sl (hheld u sl hl).1]

private theorem eachSource_makes [CaseMapping] (operands : List SliceSet)
    (hheld : ∀ s∈operands,s.Held mem) (v : GTIDSet) (hv : v.Normal)
    (hlookup : ∀ u,v.lookup u=((s.load mem).lookup u).bind (g u)) :
    Makes (eachSource f s.entries ∅ mem) mem operands v.txns := by
  obtain ⟨r,mem',hrun,hk,hle,hr,hload⟩ := eachSource_correct hf
  have heq : ∀ u,(r.load mem').lookup u=v.lookup u := fun u => (hload u).trans (hlookup u).symm
  exact ⟨r,mem',hrun,hk,hle,fun s hs => ((hheld s hs).keeps hk hle).2,hr,hv.congr heq,
    GTIDSet.txns_congr heq⟩

end

variable [CaseMapping] (grow : Nat → Nat) {mem : Memory GTIDInterval} {s other : SliceSet}

omit [CaseMapping] in
private theorem read_get (u : String) : (other.get u).read mem=(other.load mem).get u := by
  rw [SliceSet.get,GTIDSet.get,lookup_load]
  cases other.lookup u with
  | none => simp [Slice.read]
  | some sl => rfl

omit [CaseMapping] in
private theorem get_array_lt (ho : other.Held mem) (u : String) (hmem : 0 < mem.length) :
    (other.get u).array < mem.length := by
  rw [SliceSet.get]
  cases h : other.lookup u with
  | none => exact hmem
  | some sl => exact (ho u sl h).1

omit [CaseMapping] in
private theorem get_load {u : String} {sl : Slice} (h : s.lookup u=some sl) :
    (s.load mem).get u=sl.read mem := by
  rw [GTIDSet.get,lookup_load,h]
  rfl

section

variable (hs : s.Held mem) (ho : other.Held mem) (hsn : (s.load mem).Normal)
  (hon : (other.load mem).Normal)
include hs ho hsn hon

theorem difference64_makes :
    Makes (s.difference64 grow other mem) mem [s,other]
      ((s.load mem).txns \ (other.load mem).txns) := by
  obtain ⟨hnormal,htxns⟩ := hsn.difference hon
  rw [← htxns]
  refine eachSource_makes (g := fun u l => GTIDSet.nonEmpty
    (l.flatMap fun iv => minus iv ((other.load mem).get u))) ?_ [s,other] (by simp [hs,ho])
    _ hnormal (fun u => Map.lookup_collect _ _ u)
  intro u sl hsl mem' hk hle
  obtain ⟨hsl1,hsl2⟩ := hs u sl hsl
  have hsub := get_array_lt ho u (by omega)
  obtain ⟨kept,mem'',hkept,hk',hle',hfresh,hread⟩ := keptOf_correct grow mem' sl (other.get u)
    (by omega) (by omega) (by
      rw [hk.read sl hsl1,← get_load hsl]
      exact fun iv hiv => (hsn.valid u iv hiv).stop_le)
  rw [hk.read sl hsl1,hk.read _ hsub,read_get] at hread
  refine ⟨if kept.len > 0 then some kept else none,mem'',by rw [hkept]; rfl,hk',hle',?_,?_⟩
  · intro x hx
    split at hx
    · cases hx
      exact hfresh
    · cases hx
  · have hlen : (kept.read mem'').length=kept.len := by
      have := hfresh.len_le
      rw [Slice.read,List.length_take]
      omega
    simp only [← hread,GTIDSet.nonEmpty,List.isEmpty_iff_length_eq_zero,hlen]
    by_cases hpos : kept.len > 0
    · rw [if_pos hpos,if_neg (by omega),Option.map_some]
    · rw [if_neg hpos,if_pos (by omega),Option.map_none]

theorem intersect64_makes :
    Makes (s.intersect64 grow other mem) mem [s,other]
      ((s.load mem).txns ∩ (other.load mem).txns) := by
  obtain ⟨rest,mem',hrun,hk,hle,-,hrest,hnormal,htxns⟩ :=
    (difference64_makes grow hs ho hsn hon).ends
  obtain ⟨hs',hload⟩ := hs.keeps hk hle
  obtain ⟨r,mem'',hrun',hk',hle',-,hr,hnormal',htxns'⟩ :=
    (difference64_makes grow hs' hrest (hload ▸ hsn) hnormal).ends
  have hkeep := hk.trans (hk'.mono hle)
  refine ⟨r,mem'',?_,hkeep,by omega,?_,hr,hnormal',?_⟩
  · rw [intersect64,hrun]
    exact hrun'
  · intro x hx
    rcases List.mem_pair.mp hx with rfl | rfl
    · exact (hs.keeps hkeep (by omega)).2
    · exact (ho.keeps hkeep (by omega)).2
  · rw [htxns',hload,htxns,Set.sdiff_sdiff_right_self]

end

theorem holes64_makes (hs : s.Held mem) (hsn : (s.load mem).Normal) :
    Makes (s.holes64 grow mem) mem [s] {t | t∉(s.load mem).txns ∧
      (∃ i<t.2,(t.1,i)∈(s.load mem).txns) ∧ ∃ j > t.2,(t.1, j)∈(s.load mem).txns} := by
  obtain ⟨hnormal,htxns⟩ := hsn.holes
  have hset : {t | t∉(s.load mem).txns ∧ (∃ i<t.2,(t.1,i)∈(s.load mem).txns) ∧
      ∃ j > t.2,(t.1,j)∈(s.load mem).txns}=(s.load mem).holes.txns := by
    ext t
    exact (htxns t).symm
  rw [hset]
  refine eachSource_makes (g := fun _ l => GTIDSet.nonEmpty (gaps l)) ?_ [s] (by simp [hs]) _ hnormal
    (fun u => Map.lookup_collect _ _ u)
  intro u sl hsl mem' hk hle
  obtain ⟨hsl1,hsl2⟩ := hs u sl hsl
  have hread := hk.read sl hsl1
  obtain ⟨made,mem'',hrun,hrest⟩ := holesOf_correct grow mem' sl (by omega)
    (by rw [hk _ hsl1]; exact hsl2) (by rw [hread,← get_load hsl]; exact hsn.separated u)
    (by rw [hread,← get_load hsl]; exact hsn.valid u)
  rw [hread] at hrest
  exact ⟨made,mem'',hrun,hrest⟩

theorem clone_makes (hs : s.Held mem) (hsn : (s.load mem).Normal) :
    Makes (s.clone mem) mem [s] (s.load mem).txns := by
  refine eachSource_makes (g := fun _ l => some l) ?_ [s] (by simp [hs]) _ hsn (by simp)
  intro u sl hsl mem' hk hle
  obtain ⟨hsl1,hsl2⟩ := hs u sl hsl
  obtain ⟨h1,h2,h3,h4⟩ := sl.copied_correct mem' (by rw [hk _ hsl1]; exact hsl2)
  exact ⟨_,_,rfl,h2,h3,by simpa using h1,by rw [Option.map_some,h4,hk.read sl hsl1]⟩

end SliceSet

/-- The operations on GTID sets are those on sets of transactions, up to the largest `int64`:
results are normal, nothing overflows, and operands are left alone. -/
theorem gtidSet_algebra [CaseMapping] (grow : Nat → Nat) :
    (∀ raw,∃ r,parseGTIDSet64 raw=some r ∧ ∀ s,r = .ok s → s.Normal) ∧
    (∀ (s : GTIDSet) (u : String) (iv : GTIDInterval),s.Normal → Valid iv →
      ∃ r,s.addInterval64 u iv=some r ∧ r.Normal ∧
        r.txns=s.txns ∪ {t | t.1=toLower u ∧ iv.Has t.2}) ∧
    (∀ s other : GTIDSet,s.Normal → other.Normal →
      ∃ r,s.union64 other=some r ∧ r.Normal ∧ r.txns=s.txns ∪ other.txns) ∧
    (∀ (mem : Memory GTIDInterval) (s other : SliceSet),s.Held mem → other.Held mem →
      (s.load mem).Normal → (other.load mem).Normal →
      SliceSet.Makes (s.difference64 grow other mem) mem [s,other]
        ((s.load mem).txns \ (other.load mem).txns) ∧
      SliceSet.Makes (s.intersect64 grow other mem) mem [s,other]
        ((s.load mem).txns ∩ (other.load mem).txns)) ∧
    (∀ (mem : Memory GTIDInterval) (s : SliceSet),s.Held mem → (s.load mem).Normal →
      SliceSet.Makes (s.holes64 grow mem) mem [s] {t | t∉(s.load mem).txns ∧
        (∃ i<t.2,(t.1,i)∈(s.load mem).txns) ∧ ∃ j > t.2,(t.1,j)∈(s.load mem).txns} ∧
      SliceSet.Makes (s.clone mem) mem [s] (s.load mem).txns) ∧
    (∀ s other : GTIDSet,s.Normal → other.Normal →
      (s.contains other=true ↔ other.txns ⊆ s.txns) ∧
      (s.equal other=true ↔ s.txns=other.txns) ∧ (s.isEmpty=true ↔ s.txns=∅)) := by
  refine ⟨?_,?_,?_,?_,?_,?_⟩
  · intro raw
    rcases parseGTIDSet64_eq raw with ⟨e,-,he⟩ | ⟨s,r,hs,hr,hlookup⟩
    · exact ⟨_,he,fun s h => by cases h⟩
    · refine ⟨_,hr,fun t h => ?_⟩
      cases h
      exact (parseGTIDSet_canonical hs).normal.congr hlookup
  · intro s u iv hs hv
    exact ⟨_,hs.addInterval64 u iv hv,hs.addInterval u iv hv⟩
  · intro s other hs ho
    exact ⟨_,hs.union64 ho,hs.union ho⟩
  · intro mem s other hs ho hsn hon
    exact ⟨SliceSet.difference64_makes grow hs ho hsn hon,
      SliceSet.intersect64_makes grow hs ho hsn hon⟩
  · intro mem s hs hsn
    exact ⟨SliceSet.holes64_makes grow hs hsn,SliceSet.clone_makes hs hsn⟩
  · intro s other hs ho
    exact ⟨hs.contains_iff ho,hs.equal_iff ho,hs.isEmpty_iff⟩

namespace AtLimit

/-- A set with a hole that runs up to the largest number, and one that covers it. -/
def mem : Memory GTIDInterval := [[⟨1,5⟩,⟨8,maxInt64⟩],[⟨4,maxInt64⟩]]

def left : SliceSet := AList.insert "a" ⟨0,2⟩ ∅

def right : SliceSet := AList.insert "a" ⟨1,1⟩ ∅

theorem left_normal : (left.load mem).Normal := GTIDSet.normal_of_entries _ (by decide +kernel)

theorem right_normal : (right.load mem).Normal := GTIDSet.normal_of_entries _ (by decide +kernel)

private theorem held_insert (sl : Slice)
    (h : sl.array < mem.length ∧ sl.len≤(mem.cells sl.array).length) :
    SliceSet.Held (AList.insert "a" sl ∅) mem := by
  intro u x hx
  rcases Map.lookup_insert_eq_some hx with ⟨-,rfl⟩ | hold
  · exact h
  · cases hold

theorem left_held : left.Held mem := held_insert _ (by decide)

theorem right_held : right.Held mem := held_insert _ (by decide)

/-- The operations on the two sets, whose intervals end at the largest `int64`. -/
theorem gtidSet_algebra_atLimit :
    ((left.load mem).Normal ∧ left.Held mem) ∧ ((right.load mem).Normal ∧ right.Held mem) ∧
    Valid ⟨6,maxInt64⟩ ∧
    (∃ r,(left.load mem).addInterval64 "A" ⟨6,maxInt64⟩=some r ∧ r.Normal ∧
      r.txns=(left.load mem).txns ∪ {t | t.1=toLower "A" ∧ (⟨6,maxInt64⟩ : GTIDInterval).Has t.2}) ∧
    (∃ r,(left.load mem).union64 (right.load mem)=some r ∧ r.Normal ∧
      r.txns=(left.load mem).txns ∪ (right.load mem).txns) ∧
    SliceSet.Makes (left.difference64 (fun _ => 0) right mem) mem [left,right]
      ((left.load mem).txns \ (right.load mem).txns) ∧
    SliceSet.Makes (left.clone mem) mem [left] (left.load mem).txns ∧
    ((left.load mem).contains (right.load mem)=true ↔
      (right.load mem).txns ⊆ (left.load mem).txns) := by
  obtain ⟨-,hadd,hunion,hdiff,hholes,hcontains⟩ := gtidSet_algebra fun _ => 0
  have hv : Valid ⟨6,maxInt64⟩ := by decide
  exact ⟨⟨left_normal,left_held⟩,⟨right_normal,right_held⟩,hv,
    hadd _ _ _ left_normal hv,hunion _ _ left_normal right_normal,
    (hdiff mem left right left_held right_held left_normal right_normal).1,
    (hholes mem left left_held left_normal).2,(hcontains _ _ left_normal right_normal).1⟩

end AtLimit

end Cnmsql.Replication
