import Mathlib.Data.String.Basic
import Cnmsql.Replication.Gtid

namespace Cnmsql.Replication

open Framework

/-- `"n"` or `"lo-hi"`. -/
def parseInterval (s : List Char) : Option GTIDInterval :=
  let (lo,hi, ranged) := cut '-' s
  (parseInt lo).bind fun start =>
    (if ranged then parseInt hi else some start).bind fun stop =>
      if start<1 ∨ stop<start then none else some ⟨start.toNat,stop.toNat⟩

theorem parseInterval_valid (s : List Char) (iv : GTIDInterval) (h : parseInterval s=some iv) :
    Valid iv := by
  unfold parseInterval at h
  generalize cut '-' s=p at h
  obtain ⟨lo,hi,ranged⟩ := p
  obtain ⟨start,hstart,h⟩ := Option.bind_eq_some_iff.mp h
  obtain ⟨stop,hstop,h⟩ := Option.bind_eq_some_iff.mp h
  have hle : stop≤(maxInt64 : Int) := by
    cases ranged with
    | true => exact parseInt_le hstop
    | false =>
      cases hstop
      exact parseInt_le hstart
  split at h
  · simp at h
  · cases h
    exact ⟨by simp only; omega,by simp only; omega,by simp only; omega⟩

variable (iv : GTIDInterval)

def intervalString : List Char :=
  if iv.start=iv.stop then Nat.toDigits 10 iv.start
  else Nat.toDigits 10 iv.start ++ '-'::Nat.toDigits 10 iv.stop

theorem digit_clean (n : Nat) (c : Char) (h : c∈Nat.toDigits 10 n) :
    c ≠ '-' ∧ c ≠ ',' ∧ c ≠ ':' ∧ isBlank c=false := by
  have hd := Nat.isDigit_of_mem_toDigits (by decide) (by decide) h
  have key : ∀ x : Char, x.isDigit=false → c≠x := by
    intro x hx he
    rw [he,hx] at hd
    exact absurd hd (by decide)
  simp only [isBlank,Bool.or_eq_false_iff,beq_eq_false_iff_ne]
  exact ⟨key _ (by decide),key _ (by decide),key _ (by decide),
    ⟨⟨key _ (by decide),key _ (by decide)⟩,key _ (by decide)⟩,key _ (by decide)⟩

private theorem intervalString_clean (c : Char) (h : c∈intervalString iv) :
    c ≠ ',' ∧ c ≠ ':' ∧ isBlank c=false := by
  unfold intervalString at h
  split at h
  · exact (digit_clean _ c h).2
  · rw [List.mem_append,List.mem_cons] at h
    cases h with
    | inl h => exact (digit_clean _ c h).2
    | inr h =>
      cases h with
      | inl h => subst h; decide
      | inr h => exact (digit_clean _ c h).2

theorem parseInterval_intervalString (hv : Valid iv) :
    parseInterval (intervalString iv)=some iv := by
  have h1 := hv.one_le
  have h2 := hv.start_le
  have h3 := hv.stop_le
  have hdash : ∀ n, '-'∉Nat.toDigits 10 n := fun n hn => (digit_clean n '-' hn).1 rfl
  have hstart := parseInt_toDigits iv.start (by omega)
  unfold intervalString
  split
  · rename_i he
    have hc : ¬((iv.start : Int)<1 ∨ (iv.start : Int) < iv.start) := by omega
    simp only [parseInterval,cut_of_not_mem '-' _ (hdash iv.start),hstart,Option.bind_some,
      Bool.false_eq_true,if_false,if_neg hc,Int.toNat_natCast]
    rw [Option.some.injEq]
    exact Span.ext rfl he
  · have hc : ¬((iv.start : Int)<1 ∨ (iv.stop : Int) < iv.start) := by omega
    simp only [parseInterval,cut_append '-' _ _ (hdash iv.start),hstart,Option.bind_some,
      if_true,parseInt_toDigits iv.stop h3,if_neg hc,Int.toNat_natCast]

def normalizeAll (set : GTIDSet) : GTIDSet :=
  Map.collect (fun _ l => some (normalizeIntervals l)) set

theorem get_normalizeAll (s : GTIDSet) (u : String) :
    (normalizeAll s).get u=normalizeIntervals (s.get u) := by
  simp only [GTIDSet.get,normalizeAll,Map.lookup_collect]
  cases s.lookup u with
  | none => rfl
  | some l => rfl

namespace GTIDSet

variable (s : GTIDSet)

def uuids : List String :=
  ((s.entries.filter fun e => !e.2.isEmpty).map Sigma.fst).insertionSort (·≤·)

theorem uuids_nodup : s.uuids.Nodup := by
  unfold uuids
  rw [(List.perm_insertionSort (·≤·) _).nodup_iff]
  exact (List.filter_sublist.map Sigma.fst).nodup s.nodupKeys

def sourceString (u : String) : List Char :=
  [':'].intercalate (u.toList::(s.get u).map intervalString)

def string : String :=
  String.ofList ([','].intercalate (s.uuids.map s.sourceString))

end GTIDSet

/-- Why `ParseGTIDSet` rejects a text; each names the text and the part at fault. -/
inductive GTIDError where
  | missingIntervals (raw uuidSet : String)
  | emptyUuid (raw : String)
  | badInterval (raw interval : String)
  deriving DecidableEq

def GTIDError.message : GTIDError → String
  | .missingIntervals raw uuidSet =>
    "invalid gtid set " ++ raw.quote ++ ": missing intervals in " ++ uuidSet.quote
  | .emptyUuid raw => "invalid gtid set " ++ raw.quote ++ ": empty uuid"
  | .badInterval raw interval =>
    "invalid gtid set " ++ raw.quote ++ ": bad interval " ++ interval.quote

/-- The inner loop of `ParseGTIDSet`: the intervals of one source, in order. -/
def parseIntervals (raw uuid : String) :
    List (List Char) → GTIDSet → Except GTIDError GTIDSet
  | [],set => .ok set
  | ivStr::rest,set =>
    match parseInterval ivStr with
    | none => .error (.badInterval raw (String.ofList ivStr))
    | some iv => parseIntervals raw uuid rest (set.insert uuid (set.get uuid++[iv]))

private theorem parseIntervals_render (raw u : String) (l : List GTIDInterval) (s : GTIDSet)
    (hl : ∀ iv∈l,Valid iv) :
    ∃ r,parseIntervals raw u (l.map intervalString) s = .ok r ∧
      ∀ v,r.get v=if v=u then s.get v++l else s.get v := by
  induction l generalizing s with
  | nil => exact ⟨s,rfl,by simp⟩
  | cons iv l ih =>
    obtain ⟨r,hr,hg⟩ := ih (s.insert u (s.get u++[iv])) (fun x hx => hl x (by simp [hx]))
    refine ⟨r,?_,?_⟩
    · simp only [List.map_cons,parseIntervals,parseInterval_intervalString iv (hl iv (by simp)),
        hr]
    · intro v
      rw [hg,GTIDSet.get_insert]
      by_cases hv : v=u
      · simp [hv]
      · simp [hv]

variable [CaseMapping]

/-- The outer loop of `ParseGTIDSet`, over the comma-separated sources. -/
def parseSources (raw : String) : List (List Char) → GTIDSet → Except GTIDError GTIDSet
  | [],set => .ok set
  | uuidSet::rest,set =>
    match uuidSet.splitOn ':' with
    | name::iv::ivs =>
      if toLower (String.ofList name) = "" then .error (.emptyUuid raw)
      else
        match parseIntervals raw (toLower (String.ofList name)) (iv::ivs) set with
        | .error e => .error e
        | .ok set => parseSources raw rest set
    | _ => .error (.missingIntervals raw (String.ofList uuidSet))

/-- `ParseGTIDSet` parses a GTID set such as `uuid:1-5:8-10,uuid2:1-3`. -/
def parseGTIDSet (raw : String) : Except GTIDError GTIDSet :=
  let cleaned := raw.toList.filter fun c => !isBlank c
  if cleaned=[] then .ok ∅
  else
    match parseSources raw (cleaned.splitOn ',') ∅ with
    | .error e => .error e
    | .ok set => .ok (normalizeAll set)

/-- What the loops of `ParseGTIDSet` build before normalising. -/
structure Accumulated (s : GTIDSet) : Prop where
  uuid : ∀ u∈s,WfUuid u
  ne_nil : ∀ u∈s,s.get u≠[]
  valid : ∀ u,∀ iv∈s.get u,Valid iv

variable (s : GTIDSet)

private theorem accumulated_insert (hs : Accumulated s) (u : String) (hu : WfUuid u)
    (iv : GTIDInterval) (hv : Valid iv) : Accumulated (s.insert u (s.get u++[iv])) := by
  refine ⟨?_,?_,?_⟩
  · intro v h
    rw [AList.mem_insert] at h
    cases h with
    | inl h => exact h ▸ hu
    | inr h => exact hs.uuid v h
  · intro v h
    rw [GTIDSet.get_insert]
    split
    · simp
    · rename_i hvu
      rw [AList.mem_insert] at h
      exact hs.ne_nil v (h.resolve_left hvu)
  · intro v x hx
    rw [GTIDSet.get_insert] at hx
    split at hx
    · cases List.mem_append.mp hx with
      | inl h => exact hs.valid u x h
      | inr h => exact List.mem_singleton.mp h ▸ hv
    · exact hs.valid v x hx

private theorem parseIntervals_accumulated (raw u : String) (hu : WfUuid u)
    (l : List (List Char)) (s r : GTIDSet) (hs : Accumulated s)
    (h : parseIntervals raw u l s = .ok r) : Accumulated r := by
  induction l generalizing s with
  | nil =>
    cases h
    exact hs
  | cons a l ih =>
    simp only [parseIntervals] at h
    cases ha : parseInterval a with
    | none => simp [ha] at h
    | some iv =>
      rw [ha] at h
      exact ih _ (accumulated_insert s hs u hu iv (parseInterval_valid a iv ha)) h

theorem wfUuid_of_piece (name : List Char) (hne : toLower (String.ofList name) ≠ "")
    (hc : ∀ c∈name,c ≠ ',' ∧ c ≠ ':' ∧ isBlank c=false) :
    WfUuid (toLower (String.ofList name)) := by
  refine ⟨toLower_idem _,hne,?_⟩
  intro c hm
  rw [toList_toLower,String.toList_ofList,List.mem_map] at hm
  obtain ⟨d,hd,rfl⟩ := hm
  obtain ⟨h1,h2,h3⟩ := hc d hd
  have key : ∀ x : Char,x.val<128 → x.isLower=false → x.isUpper=false → d≠x →
      CaseMapping.lower d≠x := fun x hx hl hu hn he =>
    hn (lower_eq_of_not_letter d x hx hl hu he)
  simp only [isBlank,Bool.or_eq_false_iff,beq_eq_false_iff_ne] at h3 ⊢
  exact ⟨key ',' (by decide) (by decide) (by decide) h1,
    key ':' (by decide) (by decide) (by decide) h2,
    ⟨⟨key ' ' (by decide) (by decide) (by decide) h3.1.1.1,
      key '\n' (by decide) (by decide) (by decide) h3.1.1.2⟩,
      key '\r' (by decide) (by decide) (by decide) h3.1.2⟩,
    key '\t' (by decide) (by decide) (by decide) h3.2⟩

private theorem parseSources_accumulated (raw : String) (l : List (List Char)) (s r : GTIDSet)
    (hl : ∀ p∈l,∀ c∈p,c ≠ ',' ∧ isBlank c=false) (hs : Accumulated s)
    (h : parseSources raw l s = .ok r) : Accumulated r := by
  induction l generalizing s with
  | nil =>
    cases h
    exact hs
  | cons p l ih =>
    simp only [parseSources] at h
    split at h
    · rename_i name iv ivs hsplit
      split at h
      · simp at h
      · rename_i hne
        have hname : name∈p.splitOn ':' := by simp [hsplit]
        have hu := wfUuid_of_piece name hne (by
          intro c hc
          obtain ⟨h1,h2⟩ := hl p (by simp) c ((mem_splitOn ':' hname).2 hc)
          refine ⟨h1,?_,h2⟩
          intro he
          exact (mem_splitOn ':' hname).1 (he ▸ hc))
        cases hp : parseIntervals raw (toLower (String.ofList name)) (iv::ivs) s with
        | error e => simp [hp] at h
        | ok s' =>
          rw [hp] at h
          exact ih s' (fun q hq => hl q (by simp [hq]))
            (parseIntervals_accumulated raw _ hu _ s s' hs hp) h
    · simp at h

private theorem canonical_normalizeAll (hs : Accumulated s) : (normalizeAll s).Canonical := by
  have hn := fun u => normalizeIntervals_correct (s.get u) (hs.valid u)
  refine ⟨?_,?_,?_,?_⟩
  · intro u h
    exact hs.uuid u (Map.mem_of_mem_collect h)
  · intro u h he
    have hu := hs.ne_nil u (Map.mem_of_mem_collect h)
    obtain ⟨iv,hiv⟩ := List.exists_mem_of_ne_nil _ hu
    have hp : iv.start∈points (s.get u) := ⟨iv,hiv,le_refl _,(hs.valid u iv hiv).start_le⟩
    rw [← (hn u).2.2,← get_normalizeAll,he] at hp
    simp at hp
  · intro u
    rw [get_normalizeAll]
    exact (hn u).1
  · intro u
    rw [get_normalizeAll]
    exact (hn u).2.1

private theorem accumulated_empty : Accumulated (∅ : GTIDSet) :=
  ⟨GTIDSet.canonical_empty.uuid,GTIDSet.canonical_empty.ne_nil,GTIDSet.canonical_empty.valid⟩

theorem accumulated_of_parseSources {raw : String} {r : GTIDSet}
    (h : parseSources raw ((raw.toList.filter fun c => !isBlank c).splitOn ',') ∅ = .ok r) :
    Accumulated r := by
  apply parseSources_accumulated raw _ ∅ r ?_ accumulated_empty h
  intro p hpm c hc
  obtain ⟨hcomma,hsub⟩ := mem_splitOn ',' hpm
  have hmem := hsub hc
  rw [List.mem_filter] at hmem
  refine ⟨?_,by simpa using hmem.2⟩
  intro he
  exact hcomma (he ▸ hc)

theorem parseGTIDSet_canonical {raw : String} {s : GTIDSet} (h : parseGTIDSet raw = .ok s) :
    s.Canonical := by
  simp only [parseGTIDSet] at h
  split at h
  · cases h
    exact GTIDSet.canonical_empty
  · cases hp : parseSources raw
        ((raw.toList.filter fun c => !isBlank c).splitOn ',') ∅ with
    | error e => simp [hp] at h
    | ok r =>
      rw [hp] at h
      cases h
      exact canonical_normalizeAll r (accumulated_of_parseSources hp)

private theorem sourceString_clean (s : GTIDSet) (u : String) (hu : WfUuid u) (c : Char)
    (h : c∈s.sourceString u) : c ≠ ',' ∧ isBlank c=false := by
  cases mem_intercalate ':' c _ h with
  | inl h => subst h; decide
  | inr h =>
    obtain ⟨l,hl,hc⟩ := h
    cases List.mem_cons.mp hl with
    | inl hl =>
      have := hu.clean c (hl ▸ hc)
      exact ⟨this.1,this.2.2⟩
    | inr hl =>
      obtain ⟨iv,_,rfl⟩ := List.mem_map.mp hl
      have := intervalString_clean iv c hc
      exact ⟨this.1,this.2.2⟩

private theorem splitOn_sourceString (u : String) (hu : WfUuid u) :
    (s.sourceString u).splitOn ':'=u.toList::(s.get u).map intervalString := by
  apply List.splitOn_intercalate
  · intro l hl hc
    cases List.mem_cons.mp hl with
    | inl hl => exact (hu.clean ':' (hl ▸ hc)).2.1 rfl
    | inr hl =>
      obtain ⟨iv,_,rfl⟩ := List.mem_map.mp hl
      exact (intervalString_clean iv ':' hc).2.1 rfl
  · simp

private theorem parseSources_render (raw : String) (s : GTIDSet) (us : List String)
    (acc : GTIDSet) (hs : s.Canonical) (hus : ∀ u∈us,u∈s) (hnd : us.Nodup)
    (hacc : ∀ u∈us,acc.get u=[]) :
    ∃ r,parseSources raw (us.map s.sourceString) acc = .ok r ∧
      ∀ v,r.get v=if v∈us then s.get v else acc.get v := by
  induction us generalizing acc with
  | nil => exact ⟨acc,rfl,by simp⟩
  | cons u us ih =>
    have hu := hs.uuid u (hus u (by simp))
    have hlow : toLower (String.ofList u.toList)=u := by
      rw [String.ofList_toList,hu.lower]
    obtain ⟨hnot,hnd'⟩ := List.nodup_cons.mp hnd
    obtain ⟨r1,hr1,hg1⟩ := parseIntervals_render raw u (s.get u) acc (hs.valid u)
    have hstep : parseSources raw ((u::us).map s.sourceString) acc =
        parseSources raw (us.map s.sourceString) r1 := by
      rw [List.map_cons,parseSources,splitOn_sourceString s u hu]
      cases hl : s.get u with
      | nil => exact absurd hl (hs.ne_nil u (hus u (by simp)))
      | cons iv l =>
        rw [hl] at hr1
        simp only [List.map_cons] at hr1 ⊢
        rw [hlow,if_neg hu.ne_empty,hr1]
    obtain ⟨r,hr,hg⟩ := ih r1 (fun v hv => hus v (by simp [hv])) hnd' (by
      intro v hv
      have hne : v≠u := fun he => hnot (he ▸ hv)
      rw [hg1,if_neg hne]
      exact hacc v (by simp [hv]))
    refine ⟨r,hstep.trans hr,?_⟩
    intro v
    rw [hg,hg1]
    by_cases hv : v=u
    · subst hv
      simp [hnot,hacc v (by simp)]
    · simp [hv]

theorem GTIDSet.mem_uuids (hs : s.Canonical) (u : String) : u∈s.uuids ↔ u∈s := by
  simp only [uuids,List.mem_insertionSort,List.mem_map,List.mem_filter,Sigma.exists]
  constructor
  · intro h
    obtain ⟨v,l,⟨hl,_⟩,rfl⟩ := h
    exact ((mem_entries_iff s v l).mp hl).1
  · intro h
    refine ⟨u,s.get u,⟨(mem_entries_iff s u _).mpr ⟨h,rfl⟩,?_⟩,rfl⟩
    simpa using hs.ne_nil u h

theorem parseGTIDSet_string (hs : s.Canonical) :
    ∃ r,parseGTIDSet s.string = .ok r ∧ r.Canonical ∧ ∀ u, r.get u=s.get u := by
  have hin : ∀ u∈s.uuids, u∈s := fun u h => (s.mem_uuids hs u).mp h
  have hget : ∀ u, u∉s.uuids → s.get u=[] := by
    intro u h
    exact GTIDSet.get_of_not_mem s u (fun hu => h ((s.mem_uuids hs u).mpr hu))
  have htext : s.string.toList=[','].intercalate (s.uuids.map s.sourceString) := by
    simp [GTIDSet.string]
  have hclean : (s.string.toList.filter fun c => !isBlank c)=s.string.toList := by
    rw [List.filter_eq_self,htext]
    intro c hc
    cases mem_intercalate ',' c _ hc with
    | inl h => subst h; decide
    | inr h =>
      obtain ⟨l,hl,hcl⟩ := h
      obtain ⟨u,hu,rfl⟩ := List.mem_map.mp hl
      simp [(sourceString_clean s u (hs.uuid u (hin u hu)) c hcl).2]
  have hparse : ∃ r,parseGTIDSet s.string = .ok r ∧ ∀ u, r.get u=s.get u := by
    simp only [parseGTIDSet,hclean]
    cases hus : s.uuids with
    | nil =>
      refine ⟨∅,?_,?_⟩
      · rw [if_pos (by simp [htext,hus])]
      · intro u
        rw [hget u (by simp [hus])]
        rfl
    | cons u us =>
      obtain ⟨r,hr,hg⟩ := parseSources_render s.string s s.uuids ∅ hs hin s.uuids_nodup
        (fun _ _ => rfl)
      have hsplit : s.string.toList.splitOn ','=s.uuids.map s.sourceString := by
        rw [htext]
        apply List.splitOn_intercalate
        · intro l hl hc
          obtain ⟨v,hv,rfl⟩ := List.mem_map.mp hl
          exact (sourceString_clean s v (hs.uuid v (hin v hv)) ',' hc).1 rfl
        · simp [hus]
      have hne : s.string.toList≠[] := by
        intro he
        have huu := (hs.uuid u (hin u (by simp [hus]))).ne_empty
        rw [he,hus,List.splitOn_nil,List.map_cons,List.cons.injEq] at hsplit
        have hsrc := splitOn_sourceString s u (hs.uuid u (hin u (by simp [hus])))
        rw [← hsplit.1,List.splitOn_nil,List.cons.injEq] at hsrc
        exact huu (String.toList_eq_nil_iff.mp hsrc.1.symm)
      refine ⟨normalizeAll r,?_,?_⟩
      · rw [if_neg hne,hsplit,hr]
      · intro v
        rw [get_normalizeAll,hg]
        split
        · exact normalizeIntervals_of_separated _ (hs.separated v) (hs.valid v)
        · rename_i hv
          rw [hget v hv]
          rfl
  obtain ⟨r,hr,hg⟩ := hparse
  exact ⟨r,hr,parseGTIDSet_canonical hr,hg⟩

end Cnmsql.Replication
