import Cnmsql.Engine.MariaHistory

namespace Cnmsql.Engine

open List

namespace MariaDBTimeline

/-- Where a dead transaction's author left the timeline; `branch` is the answer of the epochs
before. -/
def leftAfter (g : MariaEntry) (branch : UInt64) : List DomainEpoch → Option UInt64
  | [] => none
  | [e] => if e.start<g.seq ∧ g.server≠e.serverID then some branch else none
  | e::next::rest =>
    if next.start<g.seq then
      leftAfter g (if e.serverID=g.server ∨ next.handoffServer=g.server then next.start
        else branch) (next::rest)
    else if e.start<g.seq ∧ judgeStretch g e next=some false then some branch
    else none

theorem lastInherited_succ {server : UInt32} {view : List DomainEpoch} {k : Nat}
    {epoch next : DomainEpoch} (hepoch : view[k]?=some epoch) (hnext : view[k+1]?=some next) :
    lastInherited server view (k+1) =
      if epoch.serverID=server ∨ next.handoffServer=server then some next.start
      else lastInherited server view k := by
  rw [lastInherited,hepoch,hnext]

theorem lastInherited_cons (server : UInt32) (e : DomainEpoch) {next : DomainEpoch} {rest : List DomainEpoch} {i : Nat}
    (hi : i<(next::rest).length) :
    lastInherited server (e::next::rest) (i+1) =
      (lastInherited server (next::rest) i).or
        (if e.serverID=server ∨ next.handoffServer=server then some next.start else none) := by
  induction i with
  | zero =>
    have hzero : lastInherited server (next::rest) 0=none := rfl
    rw [lastInherited_succ rfl rfl,hzero,Option.none_or]
    rfl
  | succ i ih =>
    have ih := ih (by omega)
    have hx : (next::rest)[i]?=some (next::rest)[i] := List.getElem?_eq_getElem (by omega)
    have hy : (next::rest)[i+1]?=some (next::rest)[i+1] := List.getElem?_eq_getElem hi
    have hx' : (e::next::rest)[i+1]?=_ := hx
    have hy' : (e::next::rest)[i+1+1]?=_ := hy
    rw [lastInherited_succ hx' hy',lastInherited_succ hx hy]
    split
    · rw [Option.some_or]
    · exact ih

theorem containing_lt {view : List DomainEpoch} {seq : UInt64} {i : Nat}
    (h : containing view seq=some i) : i<view.length := by
  induction view generalizing i with
  | nil => simp [containing] at h
  | cons e view ih =>
    rw [containing_cons] at h
    cases hc : containing view seq with
    | none =>
      rw [hc] at h
      simp only [Option.map_none,Option.none_or,Option.ite_none_right_eq_some,Option.some.injEq] at h
      simp [← h.2]
    | some j =>
      have hj := ih hc
      rw [hc] at h
      simp only [Option.map_some,Option.some_or,Option.some.injEq] at h
      simp only [length_cons]
      omega

theorem leftAfter_eq (g : MariaEntry) (view : List DomainEpoch) (hasc : Ascending view)
    (branch : UInt64) :
    (if judgeView g view=some false then
      (containing view g.seq).bind fun i => (lastInherited g.server view i).or (some branch)
    else none)=leftAfter g branch view := by
  induction view generalizing branch with
  | nil => rfl
  | cons e view ih =>
    have hasc' := (ascending_cons e view).mp hasc
    have ih := ih hasc'.2
    cases view with
    | nil =>
      rw [judgeView,leftAfter,containing_cons]
      by_cases hlt : e.start<g.seq
      · by_cases hs : g.server=e.serverID
        · simp [hs]
        · simp [hlt,hs,containing,lastInherited]
      · simp [hlt]
    | cons next rest =>
      rw [judgeView,leftAfter]
      by_cases hlt : next.start<g.seq
      · rw [if_pos hlt,if_pos hlt,← ih]
        obtain ⟨i,hi⟩ := exists_containing rest hlt
        have hcons : containing (e::next::rest) g.seq=some (i+1) := by
          rw [containing_cons,hi]
          rfl
        rw [hcons,hi]
        simp only [Option.bind_some]
        rw [lastInherited_cons _ _ (containing_lt hi),Option.or_assoc]
        congr 2
        split <;> simp
      · have hnone : containing (next::rest) g.seq=none :=
          containing_eq_none _ hasc'.2 (by simpa using hlt)
        rw [if_neg hlt,if_neg hlt,containing_cons,hnone]
        by_cases he : e.start<g.seq
        · simp [he,lastInherited]
        · simp [he]

variable {t : MariaDBTimeline} {d : UInt32} (g : MariaEntry) {e : DomainEpoch}
  {view : List DomainEpoch}

theorem deadAfter_eq (h : domain t d=some (e::view)) :
    deadAfter t d g=leftAfter g e.start (e::view) := by
  have hasc := ((domain_eq_some t d _).mp h).2
  rw [← leftAfter_eq g _ hasc,deadAfter,verdict_eq_judgeView t d g h,h]
  rfl

theorem deadAfter_eq_none (t : MariaDBTimeline) (d : UInt32) (g : MariaEntry)
    (h : verdict t d g≠some false) : deadAfter t d g=none := if_neg h

/-- Each epoch inherits the last transaction of the one before, or what that inherited when it wrote
nothing. -/
def Linked (view : List DomainEpoch) : Prop :=
  view.IsChain fun e next =>
    (e.start=next.start ∧ next.handoffServer=e.handoffServer) ∨
      (e.start<next.start ∧ next.handoffServer=e.serverID)

theorem Linked.ascending (h : Linked view) : Ascending view := by
  apply List.IsChain.imp _ h
  intro e next hlink
  cases hlink with
  | inl heq => exact UInt64.le_of_eq heq.1
  | inr hlt => exact UInt64.le_of_lt hlt.1

theorem leftAfter_of_absent (e : DomainEpoch) (view : List DomainEpoch)
    (branch : UInt64) (hlink : Linked (e::view)) (hlt : e.start<g.seq)
    (habsent : ∀ x∈e::view,x.start<g.seq → x.serverID≠g.server)
    (hbranch : e.handoffServer=g.server → e.start=branch) :
    leftAfter g branch (e::view)=some branch := by
  induction view generalizing e with
  | nil =>
    have he : e.serverID≠g.server := habsent e mem_cons_self hlt
    rw [leftAfter,if_pos ⟨hlt,he.symm⟩]
  | cons next rest ih =>
    have he : e.serverID≠g.server := habsent e mem_cons_self hlt
    obtain ⟨hstep,htail⟩ := isChain_cons_cons.mp hlink
    have hnext : next.handoffServer=g.server → next.start=branch := by
      intro hs
      cases hstep with
      | inl heq => rw [← heq.1,hbranch (heq.2.symm.trans hs)]
      | inr hgrow => exact absurd (hgrow.2.symm.trans hs) he
    rw [leftAfter]
    by_cases hin : next.start<g.seq
    · have hsame : (if e.serverID=g.server ∨ next.handoffServer=g.server then next.start
          else branch)=branch := by
        split
        · rename_i hor
          exact hnext (hor.resolve_left he)
        · rfl
      rw [if_pos hin,hsame]
      exact ih next htail hin (fun x hx => habsent x (mem_cons_of_mem _ hx)) hnext
    · have hserver : next.handoffServer=e.serverID := by
        cases hstep with
        | inl heq => exact absurd (heq.1 ▸ hlt) hin
        | inr hgrow => exact hgrow.2
      have hjudge : judgeStretch g e next=some false := by
        rw [judgeStretch,if_pos hserver]
        simpa using he.symm
      rw [if_neg hin,if_pos ⟨hlt,hjudge⟩]

/-- The end of one of its epochs is where a server is left so far. -/
theorem leftAfter_append (older : List DomainEpoch) (e next : DomainEpoch)
    (view : List DomainEpoch) (branch : UInt64) (hasc : Ascending (older++e::next::view))
    (hserver : e.serverID=g.server) (hlt : next.start<g.seq) :
    leftAfter g branch (older++e::next::view)=leftAfter g next.start (next::view) := by
  induction older generalizing branch with
  | nil => rw [nil_append,leftAfter,if_pos hlt,if_pos (Or.inl hserver)]
  | cons first older ih =>
    have hrest := ((ascending_cons _ _).mp hasc).2
    obtain ⟨second,rest,hcons⟩ : ∃ second rest,older++e::next::view=second::rest := by
      cases older <;> exact ⟨_,_,rfl⟩
    have hbelow : second.start<g.seq := by
      have hpair : (second::rest).Pairwise fun x y => x.start≤y.start := by
        rw [← hcons]
        exact isChain_iff_pairwise.mp hrest
      have hmem : next∈second::rest := by
        rw [← hcons]
        simp
      cases mem_cons.mp hmem with
      | inl heq => exact heq ▸ hlt
      | inr hin => exact UInt64.lt_of_le_of_lt ((pairwise_cons.mp hpair).1 next hin) hlt
    rw [cons_append,hcons,leftAfter,if_pos hbelow,← hcons]
    exact ih _ hrest

end MariaDBTimeline

open MariaDBTimeline

/-- Up to which sequence a primary kept the history, and how many it wrote. -/
structure Reign where
  server : UInt32
  inherited : Nat
  written : Nat
  deriving DecidableEq

namespace Reign

def after (r : Reign) (authors : List UInt32) : List UInt32 :=
  authors.take r.inherited++List.replicate r.written r.server

def takeover (d : UInt32) (authors : List UInt32) (r : Reign) : Takeover where
  server := r.server
  inherited d' := if d'=d then lastOf (authors.take r.inherited) else none

end Reign

def survivors : List UInt32 → List Reign → List UInt32
  | authors,[] => authors
  | authors,r::rs => survivors (r.after authors) rs

/-- None inherits more than there was, and sequences are 64 bits wide. -/
def Follow : List UInt32 → List Reign → Prop
  | _,[] => True
  | authors,r::rs =>
    r.inherited≤authors.length ∧ r.inherited+r.written<2^64 ∧ Follow (r.after authors) rs

instance instDecidableFollow : ∀ authors rs,Decidable (Follow authors rs)
  | _,[] => isTrue trivial
  | authors, r::rs =>
    have := instDecidableFollow (r.after authors) rs
    inferInstanceAs (Decidable (r.inherited≤authors.length ∧ r.inherited+r.written<2^64 ∧
      Follow (r.after authors) rs))

/-- Every takeover, with exactly what it inherited. -/
def takeovers (d : UInt32) : List UInt32 → List Reign → List Takeover
  | _,[] => []
  | authors,r::rs => r.takeover d authors::takeovers d (r.after authors) rs

def OneChain (rs : List Reign) : Prop := rs.IsChain fun r next => r.inherited≤next.inherited

instance (rs : List Reign) : Decidable (OneChain rs) := inferInstanceAs (Decidable (rs.IsChain _))

/-- The server's last reign over before `stop` ended at `left`, or it never reigned below `stop`,
the first takeover being at `left`. -/
def OutSince (server : UInt32) (stop left : Nat) (rs : List Reign) : Prop :=
  ∃ next later,next.inherited=left ∧ left<stop ∧
    (∀ r∈next::later,r.inherited<stop → r.server≠server) ∧
    (rs=next::later ∨ ∃ older r,r.server=server ∧ rs=older++r::next::later)

section

variable {d : UInt32} {authors : List UInt32} {r next : Reign} {rs : List Reign}

section

variable (h : r.inherited≤authors.length)
include h

theorem length_after :
    (r.after authors).length=r.inherited+r.written := by
  simp [Reign.after,h]

theorem start_takeover (hlt : r.inherited<2^64) :
    ((r.takeover d authors).within d).start.toNat=r.inherited := by
  have hlen := length_take_of_le h
  simp only [Takeover.within,Reign.takeover,if_true]
  rw [reached_lastOf _ (hlen.trans_lt hlt),hlen]

theorem authorAt_after {seq : Nat} :
    authorAt (r.after authors) seq =
      if seq≤r.inherited then authorAt authors seq
      else if seq≤r.inherited+r.written then some r.server else none := by
  have hlen := length_take_of_le h
  by_cases hle : seq≤r.inherited
  · rw [if_pos hle,Reign.after,← authorAt_initial (prefix_append _ _) (hlen.symm ▸ hle)]
    exact authorAt_initial ( take_prefix _ _) (hlen.symm ▸ hle)
  · have hpos : seq≠0 := by omega
    rw [if_neg hle,authorAt,if_neg hpos,Reign.after,
      List.getElem?_append_right (by rw [hlen]; omega),hlen,List.getElem?_replicate]
    apply if_congr _ rfl rfl
    omega

theorem handoffServer_takeover (hpos : r.inherited≠0) :
    authorAt authors r.inherited=some ((r.takeover d authors).within d).handoffServer := by
  have hlen := length_take_of_le h
  have hne : authors.take r.inherited≠[] := by
    intro hnil
    rw [hnil] at hlen
    exact hpos hlen.symm
  have hlast := author_lastOf hne
  rw [hlen,authorAt_initial ( take_prefix _ _) hlen.ge] at hlast
  simp only [Takeover.within,Reign.takeover,if_true]
  exact hlast

end

theorem linked_takeovers (h : Follow authors rs) (hchain : OneChain rs) :
    Linked ((takeovers d authors rs).map (·.within d)) := by
  induction rs generalizing authors with
  | nil => exact List.IsChain.nil
  | cons r rs ih =>
    obtain ⟨hr,hwidth,hrs⟩ := h
    cases rs with
    | nil => exact List.IsChain.singleton _
    | cons next rs =>
      obtain ⟨hle,htail⟩ := isChain_cons_cons.mp hchain
      have ih := ih hrs htail
      obtain ⟨hnext,hwidth',_⟩ := hrs
      have hstart := start_takeover (d := d) hr (by omega)
      have hstart' := start_takeover (d := d) hnext (by omega)
      apply isChain_cons_cons.mpr
      refine ⟨?_,ih⟩
      by_cases heq : r.inherited=next.inherited
      · apply Or.inl
        have hlen := length_take_of_le hr
        have hkept : (r.after authors).take next.inherited=authors.take r.inherited := by
          rw [← heq,Reign.after,take_left' hlen]
        apply And.intro
        · rw [← UInt64.toNat_inj,hstart,hstart',heq]
        · simp only [Takeover.within,Reign.takeover,if_true,hkept]
      · apply Or.inr
        have hlt : r.inherited<next.inherited := by omega
        apply And.intro
        · rw [UInt64.lt_iff_toNat_lt,hstart,hstart']
          exact hlt
        · have hauthor := handoffServer_takeover (d := d) hnext (by omega)
          rw [length_after hr] at hnext
          rw [authorAt_after hr,if_neg (by omega),if_pos hnext] at hauthor
          exact (Option.some.inj hauthor).symm

theorem authorAt_survivors {kept : Nat} (h : Follow authors rs) (hkept : kept≤authors.length)
    (hlater : ∀ r∈rs,kept≤r.inherited) {seq : Nat} (hseq : seq≤kept) :
    authorAt (survivors authors rs) seq=authorAt authors seq := by
  induction rs generalizing authors with
  | nil => rfl
  | cons r rs ih =>
    obtain ⟨hr,_,hrs⟩ := h
    have hle := hlater r mem_cons_self
    have hlong : kept≤(r.after authors).length := by
      rw [length_after hr]
      omega
    rw [survivors,ih hrs hlong fun r' hr' => hlater r' (mem_cons_of_mem _ hr'),
      authorAt_after hr,if_pos (by omega)]

theorem OneChain.le (h : OneChain (r::rs)) : ∀ r'∈r::rs, r.inherited≤r'.inherited := by
  have hpair : (r::rs).Pairwise fun x y => x.inherited≤y.inherited :=
    have : IsTrans Reign fun x y => x.inherited≤y.inherited := ⟨fun _ _ _ => Nat.le_trans⟩
    isChain_iff_pairwise.mp h
  intro r' hr'
  cases mem_cons.mp hr' with
  | inl heq => rw [heq]
  | inr hin => exact (pairwise_cons.mp hpair).1 r' hin

/-- A complete timeline of one chain of reigns tells the truth. -/
theorem attributed_takeovers (h : Follow authors rs) (hchain : OneChain rs) :
    Attributed (survivors authors rs) ((takeovers d authors rs).map (·.within d)) := by
  induction rs generalizing authors with
  | nil => trivial
  | cons r rs ih =>
    have hlink := linked_takeovers (d := d) h hchain
    obtain ⟨hr,hwidth,hrs⟩ := h
    have hstart := start_takeover (d := d) hr (by omega)
    cases rs with
    | nil =>
      change SoleAuthor _ _ _ _
      intro seq hlo _ hend
      rw [survivors,survivors,length_after hr] at hend
      rw [hstart] at hlo
      rw [survivors,survivors,authorAt_after hr,if_neg (by omega),if_pos hend]
      rfl
    | cons next rs =>
      have htail := (isChain_cons_cons.mp hchain).2
      have hattr := ih hrs htail
      have hnext : next.inherited≤(r.after authors).length := hrs.1
      have hstart' := start_takeover (d := d) hnext (by have := hrs.2.1; omega)
      refine ⟨?_,hattr⟩
      rw [StretchHolds]
      split
      · intro seq hlo hhi _
        rw [hstart] at hlo
        rw [hstart'] at hhi
        rw [survivors,authorAt_survivors hrs hnext (OneChain.le htail) hhi,authorAt_after hr,
          if_neg (by omega),if_pos (by rw [length_after hr] at hnext; omega)]
        rfl
      · rename_i hother
        intro hlt _
        cases (isChain_cons_cons.mp hlink).1 with
        | inl heq => exact absurd (heq.1 ▸ hlt) (UInt64.lt_irrefl _)
        | inr hgrow => exact absurd hgrow.2 hother

theorem ascending_takeovers (h : Follow authors rs) :
    Ascending ((takeovers d authors rs).map (·.within d)) ↔ OneChain rs := by
  induction rs generalizing authors with
  | nil => exact iff_of_true List.IsChain.nil List.IsChain.nil
  | cons r rs ih =>
    obtain ⟨hr,hwidth,hrs⟩ := h
    have ih := ih hrs
    cases rs with
    | nil => exact iff_of_true (List.IsChain.singleton _) (List.IsChain.singleton _)
    | cons next rs =>
      have hnext := hrs.2.1
      have hle : ((r.takeover d authors).within d).start ≤
          ((next.takeover d (r.after authors)).within d).start ↔ r.inherited≤next.inherited := by
        rw [UInt64.le_iff_toNat_le,start_takeover hr (by omega),start_takeover hrs.1 (by omega)]
      rw [OneChain,isChain_cons_cons,← hle]
      change Ascending (_::_) ↔ _
      rw [ascending_cons]
      refine and_congr ?_ ih
      simp [takeovers]

theorem takeovers_append (older : List Reign) :
    takeovers d authors (older++rs) =
      takeovers d authors older++takeovers d (survivors authors older) rs := by
  induction older generalizing authors with
  | nil => rfl
  | cons r older ih => rw [cons_append,takeovers,takeovers,ih,cons_append,survivors]

theorem follow_append (older : List Reign) :
    Follow authors (older++rs) ↔ Follow authors older ∧ Follow (survivors authors older) rs := by
  induction older generalizing authors with
  | nil => simp [Follow,survivors]
  | cons r older ih => rw [cons_append,Follow,Follow,ih,survivors,and_assoc,and_assoc]

theorem exists_reign (h : Follow authors rs) {x : DomainEpoch}
    (hx : x∈(takeovers d authors rs).map (·.within d)) :
    ∃ r∈rs,x.serverID=r.server ∧ x.start.toNat=r.inherited := by
  induction rs generalizing authors with
  | nil => simp [takeovers] at hx
  | cons r rs ih =>
    obtain ⟨hr,hwidth,hrs⟩ := h
    rw [takeovers,map_cons] at hx
    cases mem_cons.mp hx with
    | inl heq =>
      subst heq
      exact ⟨r,mem_cons_self,rfl,start_takeover hr (by omega)⟩
    | inr hin =>
      obtain ⟨r',hr',hsame⟩ := ih hrs hin
      exact ⟨r',mem_cons_of_mem _ hr',hsame⟩

theorem length_survivors (h : Follow authors rs) (hlen : authors.length<2^64) :
    (survivors authors rs).length<2^64 := by
  induction rs generalizing authors with
  | nil => exact hlen
  | cons r rs ih => exact ih h.2.2 (by rw [length_after h.1]; exact h.2.1)

end

namespace MariaDBTimeline

section

variable {t : MariaDBTimeline} {d : UInt32} {seed : List UInt32} {rs : List Reign}
  (hrec : List.Forall₂ Takeover.RecordedBy (takeovers d seed rs) t) (hfollow : Follow seed rs)

include hrec hfollow

theorem deadAfter_of_goesBack (h : ¬OneChain rs) (g : MariaEntry) : deadAfter t d g=none := by
  apply deadAfter_eq_none
  have hd := domain_recorded hrec d
  rw [if_neg (by rwa [ascending_takeovers hfollow])] at hd
  simp [verdict_eq_none t d g hd]

theorem deadAfter_of_survivor (hseed : seed.length<2^64) (g : MariaEntry)
    (hg : authorAt (survivors seed rs) g.seq.toNat=some g.server) : deadAfter t d g=none := by
  by_cases hchain : OneChain rs
  · apply deadAfter_eq_none
    have hasc := (ascending_takeovers (d := d) hfollow).mpr hchain
    have hd := domain_recorded hrec d
    rw [if_pos hasc] at hd
    have hsound := (sound_iff_attributed (survivors seed rs) _ hasc
      (length_survivors hfollow hseed)).mpr (attributed_takeovers hfollow hchain)
    have hreached : g.seq.toNat≤(survivors seed rs).length := by
      rw [authorAt] at hg
      split at hg
      · cases hg
      · have := (List.getElem?_eq_some_iff.mp hg).1
        omega
    rw [verdict_eq_judgeView t d g hd]
    intro hdead
    have := (hsound g false hdead hreached).mpr hg
    cases this
  · exact deadAfter_of_goesBack hrec hfollow hchain g

theorem deadAfter_of_outSince (hchain : OneChain rs) {g : MariaEntry} {left : Nat}
    (hout : OutSince g.server g.seq.toNat left rs) :
    ∃ cut,deadAfter t d g=some cut ∧ cut.toNat=left := by
  obtain ⟨next,later,rfl,hlt,habsent,hrs⟩ := hout
  have hlink := linked_takeovers (d := d) hfollow hchain
  have hd := domain_recorded hrec d
  rw [if_pos hlink.ascending] at hd
  -- from the takeover of `next` on, the server is absent
  have hfrom : ∀ authors,Follow authors (next::later) →
      Linked ((takeovers d authors (next::later)).map (·.within d)) →
      let e := (next.takeover d authors).within d
      e.start.toNat=next.inherited ∧
        leftAfter g e.start ((takeovers d authors (next::later)).map (·.within d)) =
          some e.start := by
    intro authors hf hl e
    have hstart : e.start.toNat=next.inherited := start_takeover hf.1 (by have := hf.2.1; omega)
    refine ⟨hstart,leftAfter_of_absent g e _ e.start hl ?_ ?_ fun _ => rfl⟩
    · rw [UInt64.lt_iff_toNat_lt,hstart]
      exact hlt
    · intro x hx hxlt
      obtain ⟨r,hr,hserver,hinherited⟩ := exists_reign hf hx
      rw [UInt64.lt_iff_toNat_lt,hinherited] at hxlt
      rw [hserver]
      exact habsent r hr hxlt
  cases hrs with
  | inl hrs =>
    subst hrs
    obtain ⟨hstart,hleft⟩ := hfrom seed hfollow hlink
    exact ⟨_,(deadAfter_eq g hd).trans hleft,hstart⟩
  | inr hrs =>
    obtain ⟨older,r,hserver,rfl⟩ := hrs
    obtain ⟨_,_,_,hf⟩ := (follow_append older).mp hfollow
    rw [takeovers_append,map_append] at hlink hd
    have hl : Linked ((takeovers d _ (next::later)).map (·.within d)) :=
      (isChain_append.mp hlink).2.1.tail
    obtain ⟨hstart,hleft⟩ := hfrom _ hf hl
    have hnext : ((next.takeover d (r.after (survivors seed older))).within d).start<g.seq := by
      rw [UInt64.lt_iff_toNat_lt,hstart]
      exact hlt
    have happend := fun branch => leftAfter_append g ((takeovers d seed older).map (·.within d))
      ((r.takeover d (survivors seed older)).within d) _ _ branch hlink.ascending hserver hnext
    refine ⟨_,?_,hstart⟩
    cases hview : (takeovers d seed older).map (·.within d) with
    | nil | cons e view =>
      rw [hview] at hd happend
      rw [deadAfter_eq g hd]
      exact (happend _).trans hleft

end

-- A reign without writes ends somewhere too: server 1 took over again at 12, so that what it lost
-- from 9 on is cut at 12 only.
example : deadAfter [⟨1,""⟩,⟨2,"0-1-8"⟩,⟨1,"0-2-12"⟩,⟨3,"0-2-12"⟩] 0 ⟨1,15⟩=some 12 := by
  decide +kernel

end MariaDBTimeline

end Cnmsql.Engine
