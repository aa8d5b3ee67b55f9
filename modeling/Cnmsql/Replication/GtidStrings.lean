import Cnmsql.Framework.Result
import Cnmsql.Replication.GtidText

namespace Cnmsql.Replication

open Framework List

variable [CaseMapping]

def unionGTIDStrings (sets : List String) : Except GTIDError String :=
  go sets ∅
where
  go : List String → GTIDSet → Except GTIDError String
    | [],union => .ok union.string
    | raw::rest,union => do
      let parsed ← parseGTIDSet raw
      go rest (union.union parsed)

/-- `GTIDContains` reports whether the first text's set contains the second's. -/
def gtidContains (superset subset : String) : Except GTIDError Bool := do
  let super ← parseGTIDSet superset
  let sub ← parseGTIDSet subset
  return super.contains sub

/-- `DifferenceGTIDStrings` returns `a \ b` in canonical form. -/
def differenceGTIDStrings (a b : String) : Except GTIDError String := do
  let setA ← parseGTIDSet a
  let setB ← parseGTIDSet b
  return (setA.difference setB).string

/-- `IntersectsGTIDStrings` reports whether the texts share a transaction. -/
def intersectsGTIDStrings (a b : String) : Except GTIDError Bool := do
  let setA ← parseGTIDSet a
  let setB ← parseGTIDSet b
  return !(setA.difference setB).equal setA

variable (raw : String)

def Parses : Prop := ∃ s,parseGTIDSet raw = .ok s

instance (raw : String) : Decidable (Parses raw) :=
  match h : parseGTIDSet raw with
  | .ok s => .isTrue ⟨s,h⟩
  | .error e => .isFalse fun ⟨s,hs⟩ => by
    rw [h] at hs
    cases hs

/-- The transactions a set text names. -/
def gtids : Set Txn :=
  match parseGTIDSet raw with
  | .ok s => s.txns
  | .error _ => ∅

instance (raw : String) : DecidablePred (· ∈ gtids raw) := fun t =>
  match h : parseGTIDSet raw with
  | .ok s => decidable_of_iff (t.2∈points (s.get t.1)) (by rw [gtids,h]; rfl)
  | .error _ => .isFalse (by rw [gtids,h]; exact Set.notMem_empty t)

/-- The transactions a set text names, one by one. -/
def gtidList : List Txn :=
  match parseGTIDSet raw with
  | .ok s => s.flat.flatMap fun e => (List.range' e.2.start (e.2.stop+1-e.2.start)).map
      fun n => (e.1,n)
  | .error _ => []

theorem mem_gtidList (raw : String) (t : Txn) : t∈gtidList raw ↔ t∈gtids raw := by
  unfold gtidList gtids
  cases parseGTIDSet raw with
  | error e => simp
  | ok s =>
    simp only [mem_flatMap,mem_map,mem_range'_1,GTIDSet.mem_txns,mem_points,
      Span.Has]
    constructor
    · intro h
      obtain ⟨e,he,n,hn,rfl⟩ := h
      exact ⟨e.2,(GTIDSet.mem_flat_iff s e.1 e.2).mp he,by omega,by omega⟩
    · intro h
      obtain ⟨iv,hiv,h1,h2⟩ := h
      exact ⟨(t.1,iv),(GTIDSet.mem_flat_iff s t.1 iv).mpr hiv,t.2,by simp only; omega,rfl⟩

instance (a b : String) : Decidable (gtids a ⊆ gtids b) :=
  decidable_of_iff (∀ t∈gtidList a,t∈gtids b)
    (forall_congr' fun t => imp_congr_left (mem_gtidList a t))

def Rendered : Prop := ∃ s : GTIDSet,s.Canonical ∧ s.string=raw

theorem gtids_of_parse (s : GTIDSet) (h : parseGTIDSet raw = .ok s) : gtids raw=s.txns := by
  rw [gtids,h]

theorem gtids_string {s : GTIDSet} (hs : s.Canonical) :
    Parses s.string ∧ gtids s.string=s.txns := by
  obtain ⟨r,hr,_,hg⟩ := parseGTIDSet_string s hs
  refine ⟨⟨r,hr⟩,?_⟩
  rw [gtids_of_parse _ r hr]
  ext t
  rw [GTIDSet.mem_txns,GTIDSet.mem_txns,hg]

theorem colon_mem_string (s : GTIDSet) (hs : s.Canonical) (h : s.isEmpty≠true) :
    ':'∈s.string.toList := by
  rw [ne_eq,GTIDSet.isEmpty_iff _ hs,← ne_eq,← Set.nonempty_iff_ne_empty] at h
  obtain ⟨t,iv,hiv,-⟩ := h
  have hne : s.get t.1≠[] := ne_nil_of_mem hiv
  have hsource : ':'∈s.sourceString t.1 := by
    obtain ⟨first,rest,hget⟩ := exists_cons_of_ne_nil hne
    simp [GTIDSet.sourceString,hget]
  have hmem : s.sourceString t.1∈s.uuids.map s.sourceString :=
    mem_map_of_mem ((s.mem_uuids hs t.1).mpr (GTIDSet.mem_of_get_ne_nil s t.1 hne))
  rw [GTIDSet.string,String.toList_ofList]
  obtain ⟨before,after,hsplit⟩ := append_of_mem hsource
  have hinfix : [':'] <:+: s.sourceString t.1 := ⟨before,after,by simp [hsplit]⟩
  exact ((infix_intercalate (by simp) (by simp) (by simp) _).mpr ⟨_,hmem, hinfix⟩).subset (by simp)

theorem string_eq_of_txns_eq (s t : GTIDSet) (hs : s.Canonical) (ht : t.Canonical)
    (h : s.txns=t.txns) : s.string=t.string := by
  have hget := hs.get_eq_of_txns_eq ht h
  have hsorted : ∀ r : GTIDSet, r.uuids.Pairwise (·≤·) := fun r =>
    pairwise_insertionSort (·≤·) _
  have huuids : s.uuids=t.uuids := by
    refine List.Perm.eq_of_pairwise ?_ (hsorted s) (hsorted t) ?_
    · intro a b _ _ hab hba
      exact le_antisymm hab hba
    · rw [perm_ext_iff_of_nodup s.uuids_nodup t.uuids_nodup]
      intro u
      rw [s.mem_uuids hs,t.mem_uuids ht,hs.mem_iff,ht.mem_iff,hget]
  have hsource : s.sourceString=t.sourceString := by
    funext u
    rw [GTIDSet.sourceString,GTIDSet.sourceString,hget]
  rw [GTIDSet.string,GTIDSet.string,huuids,hsource]

theorem Rendered.parses {raw : String} (h : Rendered raw) : Parses raw := by
  obtain ⟨s,hs,rfl⟩ := h
  exact (gtids_string hs).1

variable (a b : String)

theorem rendered_eq_iff (ha : Rendered a) (hb : Rendered b) : a=b ↔ gtids a=gtids b := by
  constructor
  · intro h
    rw [h]
  · intro h
    obtain ⟨s,hs,rfl⟩ := ha
    obtain ⟨t,ht,rfl⟩ := hb
    rw [(gtids_string hs).2,(gtids_string ht).2] at h
    exact string_eq_of_txns_eq s t hs ht h

@[simp] theorem gtids_empty : gtids ""=∅ := by
  rw [gtids_of_parse "" ∅ rfl,GTIDSet.txns_empty]

theorem parses_empty : Parses "" := ⟨∅,rfl⟩

theorem rendered_empty : Rendered "" := ⟨∅,GTIDSet.canonical_empty,rfl⟩

theorem rendered_eq_empty (ha : Rendered a) : a = "" ↔ gtids a=∅ := by
  rw [rendered_eq_iff a "" ha rendered_empty,gtids_empty]

theorem txn_pos (raw : String) (t : Txn) (h : t∈gtids raw) : 1≤t.2 := by
  unfold gtids at h
  cases hp : parseGTIDSet raw with
  | error e => simp [hp] at h
  | ok s =>
    rw [hp] at h
    exact ((parseGTIDSet_canonical hp).txn_bounds t h).1

variable (sets : List String) (acc : GTIDSet)

private theorem unionGTIDStrings_go (hacc : acc.Canonical) (hp : ∀ raw∈sets,Parses raw) :
    ∃ u,unionGTIDStrings.go sets acc = .ok u ∧ Rendered u ∧
      gtids u=acc.txns ∪ {t | ∃ raw∈sets, t∈gtids raw} := by
  induction sets generalizing acc with
  | nil => exact ⟨acc.string,rfl,⟨acc,hacc,rfl⟩,by simp [(gtids_string hacc).2]⟩
  | cons raw rest ih =>
    obtain ⟨s,hs⟩ := hp raw (by simp)
    obtain ⟨hc,ht⟩ := acc.union_correct s hacc (parseGTIDSet_canonical hs)
    obtain ⟨u,hu,hr,hg⟩ := ih (acc.union s) hc (fun x hx => hp x (by simp [hx]))
    refine ⟨u,?_,hr,?_⟩
    · rw [unionGTIDStrings.go,hs]
      exact hu
    · rw [hg,ht,Set.union_assoc]
      congr 1
      ext t
      simp [gtids_of_parse raw s hs]

theorem unionGTIDStrings_correct (hp : ∀ raw∈sets,Parses raw) :
    ∃ u,unionGTIDStrings sets = .ok u ∧ Rendered u ∧
      gtids u={t | ∃ raw∈sets, t∈gtids raw} := by
  obtain ⟨u,hu,hr,hg⟩ := unionGTIDStrings_go sets ∅ GTIDSet.canonical_empty hp
  exact ⟨u,hu,hr,by simpa [GTIDSet.txns_empty] using hg⟩

private theorem unionGTIDStrings_go_parses (u : String)
    (h : unionGTIDStrings.go sets acc = .ok u) : ∀ raw∈sets, Parses raw := by
  induction sets generalizing acc with
  | nil => simp
  | cons raw rest ih =>
    rw [unionGTIDStrings.go,bind_eq_ok] at h
    obtain ⟨s,hs,h⟩ := h
    intro x hx
    cases mem_cons.mp hx with
    | inl hx => exact hx ▸ ⟨s,hs⟩
    | inr hx => exact ih _ h x hx

theorem unionGTIDStrings_parses {sets : List String} {u : String}
    (h : unionGTIDStrings sets = .ok u) : ∀ raw∈sets, Parses raw :=
  unionGTIDStrings_go_parses sets ∅ u h

theorem rendered_of_union {sets : List String} {u : String} (h : unionGTIDStrings sets = .ok u) :
    Rendered u := by
  obtain ⟨u',hu,hr,-⟩ := unionGTIDStrings_correct sets (unionGTIDStrings_parses h)
  rw [hu] at h
  cases h
  exact hr

theorem unionGTIDStrings_pair (ha : Parses a) (hb : Parses b) :
    ∃ u,unionGTIDStrings [a,b] = .ok u ∧ Rendered u ∧ gtids u=gtids a ∪ gtids b := by
  obtain ⟨u,hu,hr,hg⟩ := unionGTIDStrings_correct [a,b] (by simp [ha,hb])
  refine ⟨u,hu,hr,?_⟩
  rw [hg]
  ext t
  simp

theorem gtids_of_union {a b u : String} (h : unionGTIDStrings [a,b] = .ok u) :
    gtids u=gtids a ∪ gtids b := by
  have hparses := unionGTIDStrings_parses h
  obtain ⟨u',hu,-,hg⟩ := unionGTIDStrings_pair a b (hparses a (by simp)) (hparses b (by simp))
  rw [hu] at h
  cases h
  exact hg

theorem gtidContains_correct (ha : Parses a) (hb : Parses b) :
    ∃ r,gtidContains a b = .ok r ∧ (r=true ↔ gtids b ⊆ gtids a) := by
  obtain ⟨s,hs⟩ := ha
  obtain ⟨t,ht⟩ := hb
  refine ⟨s.contains t,by simp [gtidContains,hs,ht,bind,Except.bind,pure,Except.pure],?_⟩
  rw [gtids_of_parse a s hs,gtids_of_parse b t ht]
  exact s.contains_iff t (parseGTIDSet_canonical hs) (parseGTIDSet_canonical ht)

theorem subset_of_gtidContains {a b : String} (h : gtidContains a b = .ok true) : gtids b ⊆ gtids a := by
  have hparses : Parses a ∧ Parses b := by
    rw [gtidContains,bind_eq_ok] at h
    obtain ⟨s,hs,h⟩ := h
    rw [bind_eq_ok] at h
    obtain ⟨t,ht,-⟩ := h
    exact ⟨⟨s,hs⟩,⟨t,ht⟩⟩
  obtain ⟨r,hr,hiff⟩ := gtidContains_correct a b hparses.1 hparses.2
  rw [hr,Except.ok.injEq] at h
  exact hiff.mp h

theorem gtidContains_eq_true_iff :
    gtidContains a b = .ok true ↔ Parses a ∧ Parses b ∧ gtids b ⊆ gtids a := by
  constructor
  · intro h
    have hsub := subset_of_gtidContains h
    simp only [gtidContains,bind_eq_ok] at h
    obtain ⟨s,hs,t,ht,-⟩ := h
    exact ⟨⟨s,hs⟩,⟨t,ht⟩,hsub⟩
  · rintro ⟨ha,hb,hsub⟩
    obtain ⟨r,hr,hiff⟩ := gtidContains_correct a b ha hb
    rw [hr,hiff.mpr hsub]

theorem differenceGTIDStrings_correct (ha : Parses a) (hb : Parses b) :
    ∃ d,differenceGTIDStrings a b = .ok d ∧ Rendered d ∧ gtids d=gtids a \ gtids b := by
  obtain ⟨s,hs⟩ := ha
  obtain ⟨t,ht⟩ := hb
  obtain ⟨hc,hd⟩ := s.difference_correct t (parseGTIDSet_canonical hs)
    (parseGTIDSet_canonical ht)
  refine ⟨(s.difference t).string,
    by simp [differenceGTIDStrings,hs,ht,bind,Except.bind,pure,Except.pure],
    ⟨_,hc,rfl⟩,?_⟩
  rw [(gtids_string hc).2,hd,gtids_of_parse a s hs,gtids_of_parse b t ht]

theorem intersectsGTIDStrings_correct (ha : Parses a) (hb : Parses b) :
    ∃ r,intersectsGTIDStrings a b = .ok r ∧ (r=true ↔ (gtids a ∩ gtids b).Nonempty) := by
  obtain ⟨s,hs⟩ := ha
  obtain ⟨t,ht⟩ := hb
  have hcs := parseGTIDSet_canonical hs
  obtain ⟨hc,hd⟩ := s.difference_correct t hcs (parseGTIDSet_canonical ht)
  refine ⟨!(s.difference t).equal s,
    by simp [intersectsGTIDStrings,hs,ht,bind,Except.bind,pure,Except.pure],?_⟩
  rw [Bool.not_eq_true',← Bool.not_eq_true,GTIDSet.equal_iff _ _ hc hcs,hd,
    gtids_of_parse a s hs,gtids_of_parse b t ht,sdiff_eq_left,Set.not_disjoint_iff_nonempty_inter]

end Cnmsql.Replication
