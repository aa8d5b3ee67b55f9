import Cnmsql.Binlog.MariaReplay

namespace Cnmsql.Binlog

open Framework Replication Engine List

theorem tripleSeq_of_parseTriple {raw : String} {triple : List Char} {d : UInt32} {e : MariaEntry}
    (h : parseTriple raw triple = .ok (d,e)) (domain : UInt32) :
    tripleSeq domain triple=if d=domain then some e.seq.toNat else none := by
  unfold parseTriple at h
  split at h
  · rename_i domainPart serverPart seqPart hsplit
    simp only [bind_eq_ok,mapError_eq_ok,Except.ok.injEq,Prod.mk.injEq] at h
    obtain ⟨dn,hdn,sn,hsn,qn,hqn,rfl,rfl⟩ := h
    have hlt := parseUint_lt hqn
    simp only [tripleSeq,hsplit,hdn,hqn,Except.toOption,UInt64.toNat_ofNat_of_lt' hlt]
  · cases h

theorem splitOn_of_not_mem {sep : Char} {s : List Char} (h : sep∉s) : s.splitOn sep=[s] := by
  have hone : ∀ l∈[s], sep∉l := by simpa using h
  simpa using splitOn_intercalate sep hone (by simp)

/-- For a single GTID the lenient reading of a domain is the strict one. -/
theorem mariaSeqForDomain_eq_reached {text : String} (hsingle : ','∉text.toList) {p : MariaPos}
    (h : parseMariaPos text = .ok p) (d : UInt32) : mariaSeqForDomain text d=p.reached d := by
  unfold parseMariaPos at h
  unfold mariaSeqForDomain
  generalize hcleaned : text.toList.filter (fun c => !isBlank c)=cleaned at h
  have hcomma : ','∉cleaned := by
    rw [← hcleaned]
    exact fun hmem => hsingle (mem_of_mem_filter hmem)
  have hsplit := splitOn_of_not_mem hcomma
  simp only [hsplit,List.findSome?_cons,List.findSome?_nil]
  simp only at h
  split at h
  · rename_i hnil
    cases h
    rw [hnil]
    rfl
  · rw [hsplit,parseTriples] at h
    split at h
    · cases h
    · rename_i dom e htriple
      cases h
      rw [tripleSeq_of_parseTriple htriple,MariaPos.reached_keep]
      by_cases hd : dom=d
      · simp [hd,MariaPos.reached]
      · simp [hd,Ne.symm hd,MariaPos.reached]

theorem parseMariaPos_tripleString (d : UInt32) (e : MariaEntry) :
    parseMariaPos (String.ofList (tripleString d e)) = .ok (MariaPos.keep ∅ d e) ∧
      ','∉(String.ofList (tripleString d e)).toList := by
  have hplain := tripleString_plain d e
  have hcomma : ','∉tripleString d e := fun h => (hplain _ h).1 rfl
  have hclean : (tripleString d e).filter (fun c => !isBlank c)=tripleString d e := by
    rw [filter_eq_self]
    intro c hc
    simp [(hplain c hc).2]
  have hne : tripleString d e≠[] := by
    simp [tripleString,List.intercalate]
  rw [String.toList_ofList]
  refine ⟨?_,hcomma⟩
  simp only [parseMariaPos,String.toList_ofList,hclean,if_neg hne,splitOn_of_not_mem hcomma,
    parseTriples,parseTriple_tripleString]

theorem isSpace_clean {c : Char} (h : isSpace c=true) : c.isDigit=false ∧ c ≠ '-' := by
  simp only [isSpace,decide_eq_true_eq] at h
  rcases h with h | ⟨h,-⟩
  · simp only [mem_cons,not_mem_nil,or_false] at h
    rcases h with rfl | rfl | rfl | rfl | rfl | rfl | rfl | rfl | rfl | rfl | rfl | rfl | rfl | rfl <;>
      decide
  · have hval : 0x2000≤c.val.toNat := by
      rw [Char.le_def,UInt32.le_iff_toNat_le] at h
      exact h
    constructor
    · rw [Bool.eq_false_iff]
      intro hd
      simp only [Char.isDigit,Bool.and_eq_true,decide_eq_true_eq,ge_iff_le,
        UInt32.le_iff_toNat_le] at hd
      have : '9'.val.toNat=57 := rfl
      omega
    · rintro rfl
      revert hval
      decide

theorem exists_trimSpace (s : List Char) :
    ∃ before after,s=before++trimSpace s++after ∧
      (∀ c∈before,isSpace c=true) ∧ ∀ c∈after, isSpace c=true := by
  refine ⟨s.takeWhile isSpace,((s.dropWhile isSpace).reverse.takeWhile isSpace).reverse,?_,?_,?_⟩
  · have h := congrArg List.reverse
      (takeWhile_append_dropWhile (p := isSpace) (l := (s.dropWhile isSpace).reverse))
    rw [reverse_append,reverse_reverse] at h
    rw [trimSpace,append_assoc,h,takeWhile_append_dropWhile]
  · intro c hc
    exact mem_takeWhile_imp hc
  · intro c hc
    exact mem_takeWhile_imp (mem_reverse.mp hc)

theorem isBlank_of_isDigit {c : Char} (h : c.isDigit=true) : isBlank c=false := by
  have key : ∀ x : Char, x.isDigit=false → c≠x := by
    rintro x hx rfl
    rw [hx] at h
    cases h
  simp only [isBlank,Bool.or_eq_false_iff,beq_eq_false_iff_ne]
  exact ⟨⟨⟨key _ (by decide),key _ (by decide)⟩,key _ (by decide)⟩,key _ (by decide)⟩

theorem eq_nil_of_digits {bits n : Nat} {s spaces : List Char} (h : parseUint bits s = .ok n)
    (hsub : spaces ⊆ s) (hspaces : ∀ c∈spaces,isSpace c=true) : spaces=[] := by
  rw [eq_nil_iff_forall_not_mem]
  intro c hc
  have hdigit := digit_of_parseUint h c (hsub hc)
  rw [(isSpace_clean (hspaces c hc)).1] at hdigit
  cases hdigit

theorem gtid_readings_agree {text : String} {dom : UInt32} {seq : Nat} {g : MariaDBGTID}
    (hsingle : singleDomainMariaGTID text = .ok (some (dom,seq)))
    (hparse : parseMariaDBGTID text = .ok g) : g.domain=dom ∧ g.seq=seq := by
  unfold parseMariaDBGTID at hparse
  split at hparse
  · rename_i A B C hsplit
    simp only [bind_eq_ok,mapError_eq_ok,Except.ok.injEq] at hparse
    obtain ⟨an,hA,bn,hB,cn,hC,rfl⟩ := hparse
    obtain ⟨before,after,htext,hbefore,hafter⟩ := exists_trimSpace text.toList
    have hT : trimSpace text.toList=A ++ '-'::(B ++ '-'::C) := by
      have hjoin : ['-'].intercalate ((trimSpace text.toList).splitOn '-') =
          trimSpace text.toList := intercalate_splitOn ..
      rw [hsplit] at hjoin
      simpa [List.intercalate] using hjoin.symm
    have hdigitsA := digit_of_parseUint hA
    have hdigitsB := digit_of_parseUint hB
    have hdigitsC := digit_of_parseUint hC
    have hplain : ∀ part : List Char,(∀ c∈part,c.isDigit=true) →
        part.filter (fun c => !isBlank c)=part := by
      intro part hpart
      rw [filter_eq_self]
      intro c hc
      simp [isBlank_of_isDigit (hpart c hc)]
    have hspaces : ∀ part : List Char,(∀ c∈part,isSpace c=true) →
        ∀ c∈part.filter (fun c => !isBlank c), isSpace c=true :=
      fun part hpart c hc => hpart c (mem_of_mem_filter hc)
    have hbefore := hspaces before hbefore
    have hafter := hspaces after hafter
    generalize hpre : before.filter (fun c => !isBlank c)=pre at hbefore
    generalize hpost : after.filter (fun c => !isBlank c)=post at hafter
    have hclean : text.toList.filter (fun c => !isBlank c) =
        ['-'].intercalate [pre++A,B,C++post] := by
      have hdash : ∀ l : List Char,('-'::l).filter (fun c => !isBlank c) =
          '-'::l.filter (fun c => !isBlank c) := fun l => filter_cons_of_pos (by decide)
      rw [htext,filter_append,filter_append,hT,hpre,hpost,filter_append,
        hdash,filter_append,hdash,hplain A hdigitsA,hplain B hdigitsB,hplain C hdigitsC]
      simp [List.intercalate]
    have hdashes : ∀ l∈[pre++A,B,C++post], '-'∉l := by
      have hdigit : ∀ part : List Char,(∀ c∈part, c.isDigit=true) → '-'∉part :=
        fun part hpart hmem => absurd (hpart _ hmem) (by decide)
      have hspace : ∀ part : List Char,(∀ c∈part, isSpace c=true) → '-'∉part :=
        fun part hpart hmem => (isSpace_clean (hpart _ hmem)).2 rfl
      simp only [mem_cons,not_mem_nil,or_false,forall_eq_or_imp,forall_eq,
        mem_append,not_or]
      exact ⟨⟨hspace pre hbefore,hdigit A hdigitsA⟩,hdigit B hdigitsB,hdigit C hdigitsC,
        hspace post hafter⟩
    unfold singleDomainMariaGTID at hsingle
    simp only at hsingle
    split at hsingle
    · cases hsingle
    · split at hsingle
      · rename_i triple htriple
        have hwhole : triple=text.toList.filter (fun c => !isBlank c) := by
          have hjoin : [','].intercalate ((text.toList.filter fun c => !isBlank c).splitOn ',') =
              text.toList.filter fun c => !isBlank c := intercalate_splitOn ..
          rw [htriple] at hjoin
          simpa [List.intercalate] using hjoin
        rw [hwhole,hclean,splitOn_intercalate '-' hdashes (by simp)] at hsingle
        simp only [bind_eq_ok,mapError_eq_ok,Except.ok.injEq,Option.some.injEq,
          Prod.mk.injEq] at hsingle
        obtain ⟨dn,hdn,sn,hsn,rfl,rfl⟩ := hsingle
        obtain rfl := eq_nil_of_digits hdn (subset_append_left _ _) hbefore
        obtain rfl := eq_nil_of_digits hsn (subset_append_right _ _) hafter
        rw [nil_append,hA] at hdn
        rw [append_nil,hC] at hsn
        cases hdn
        cases hsn
        exact ⟨rfl,rfl⟩
      · cases hsingle
  · cases hparse

end Cnmsql.Binlog
