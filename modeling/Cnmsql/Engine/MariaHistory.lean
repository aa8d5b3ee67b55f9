import Cnmsql.Engine.MariaTimeline

namespace Cnmsql.Engine

open List

namespace MariaDBTimeline

/-- An epoch seen in one domain, `none` when its handoff does not parse. -/
def project (d : UInt32) (epoch : MariaDBEpoch) : Option DomainEpoch :=
  match parseMariaPos epoch.handoff with
  | .error _ => none
  | .ok pos =>
    let e := (pos.lookup d).getD ⟨0,0⟩
    some ⟨epoch.serverID,e.seq,e.server⟩

def Ascending (view : List DomainEpoch) : Prop := view.IsChain fun e next => e.start≤next.start

instance (view : List DomainEpoch) : Decidable (Ascending view) :=
  inferInstanceAs (Decidable (view.IsChain _))

variable (e : DomainEpoch) (view : List DomainEpoch)

theorem ascending_cons :
    Ascending (e::view) ↔ (∀ next∈view.head?,e.start≤next.start) ∧ Ascending view :=
  isChain_cons

variable (t : MariaDBTimeline) (d : UInt32) (g : MariaEntry)

theorem domainLoop_eq_some (prev : UInt64) (t : MariaDBTimeline) (view : List DomainEpoch) :
    domainLoop d prev t=some view ↔
      List.Forall₂ (fun epoch e => project d epoch=some e) t view ∧
        (∀ e∈view.head?,prev≤e.start) ∧ Ascending view := by
  induction t generalizing prev view with
  | nil =>
    cases view with
    | nil => simp [domainLoop,Ascending]
    | cons e view => simp [domainLoop]
  | cons epoch t ih =>
    cases view with
    | nil =>
      rw [domainLoop]
      cases parseMariaPos epoch.handoff with
      | error err => simp
      | ok pos =>
        simp only
        split <;> simp
    | cons e view =>
      rw [forall₂_cons,domainLoop,project,ascending_cons]
      cases parseMariaPos epoch.handoff with
      | error err => simp
      | ok pos =>
        simp only [Option.some.injEq,List.head?_cons,Option.mem_def,forall_eq']
        split
        · rename_i hlt
          apply iff_of_false
          · simp
          · intro h
            rw [← h.1.1] at h
            exact UInt64.not_le.mpr hlt h.2.1
        · rename_i hle
          rw [Option.map_eq_some_iff]
          constructor
          · intro h
            obtain ⟨view',hv,heq⟩ := h
            cases heq
            have h := (ih _ _).mp hv
            exact ⟨⟨rfl,h.1⟩,UInt64.not_lt.mp hle,h.2⟩
          · intro h
            obtain ⟨⟨rfl,ht⟩,_,hasc⟩ := h
            exact ⟨view,(ih _ _).mpr ⟨ht,hasc⟩,rfl⟩

theorem domain_eq_some (view : List DomainEpoch) :
    domain t d=some view ↔
      List.Forall₂ (fun epoch e => project d epoch=some e) t view ∧ Ascending view := by
  rw [domain,domainLoop_eq_some]
  simp

/-- The verdict on a transaction of the stretch from `e` to `next`. -/
def judgeStretch (g : MariaEntry) (e next : DomainEpoch) : Option Bool :=
  if next.handoffServer=e.serverID then some (g.server=e.serverID)
  else if g.seq=next.start then some (g.server=next.handoffServer)
  else none

/-- The verdict read off a view whose handoffs never go back, epoch by epoch. -/
def judgeView (g : MariaEntry) : List DomainEpoch → Option Bool
  | [] => none
  | [e] => if e.start<g.seq then some (g.server=e.serverID) else none
  | e::next::rest =>
    if next.start<g.seq then judgeView g (next::rest)
    else if e.start<g.seq then judgeStretch g e next
    else none

theorem containing_shift (seq : UInt64) (n : Nat) (idx : Option Nat) :
    (view.zipIdx n).foldl (fun idx e => if e.1.start<seq then some e.2 else idx) idx =
      ((containing view seq).map (· + n)).or idx := by
  induction view generalizing n idx with
  | nil => simp [containing]
  | cons e view ih =>
    rw [containing,zipIdx_cons,zipIdx_cons,foldl_cons,foldl_cons,ih,ih]
    cases containing view seq with
    | none =>
      simp only [Option.map_none,Option.none_or]
      split <;> simp
    | some i =>
      simp only [Option.map_some,Option.some_or,Option.some.injEq]
      omega

theorem containing_cons (seq : UInt64) : containing (e::view) seq =
      ((containing view seq).map (· + 1)).or (if e.start<seq then some 0 else none) := by
  rw [containing,zipIdx_cons,foldl_cons,containing_shift]

theorem exists_containing {next : DomainEpoch} (rest : List DomainEpoch) {seq : UInt64}
    (h : next.start<seq) : ∃ i,containing (next::rest) seq=some i := by
  rw [containing_cons,if_pos h]
  cases containing rest seq with
  | none => exact ⟨0,rfl⟩
  | some j => exact ⟨j+1,rfl⟩

theorem containing_eq_none {view : List DomainEpoch} (seq : UInt64) (hasc : Ascending view)
    (h : ∀ e∈view.head?,¬ e.start<seq) : containing view seq=none := by
  induction view with
  | nil => rfl
  | cons e view ih =>
    rw [ascending_cons] at hasc
    have he : ¬ e.start<seq := h e rfl
    rw [containing_cons,if_neg he,ih hasc.2]
    · rfl
    · intro next hnext hlt
      exact he (UInt64.lt_of_le_of_lt (hasc.1 next hnext) hlt)

/-- The body of `verdict` past its guards. -/
def judgeAt (g : MariaEntry) (view : List DomainEpoch) : Option Bool := do
  let i ← containing view g.seq
  let e ← view[i]?
  match view[i+1]? with
  | none => some (g.server=e.serverID)
  | some next => judgeStretch g e next

theorem judgeAt_eq (g : MariaEntry) (view : List DomainEpoch) (hasc : Ascending view) :
    judgeAt g view=judgeView g view := by
  induction view with
  | nil => rfl
  | cons e view ih =>
    have hasc' := (ascending_cons e view).mp hasc
    have ih := ih hasc'.2
    cases view with
    | nil =>
      rw [judgeAt,containing_cons,judgeView]
      split <;> simp [containing]
    | cons next rest =>
      rw [judgeAt,containing_cons,judgeView]
      by_cases hlt : next.start<g.seq
      · -- the transaction lies past `next`, so the indices only shift
        rw [if_pos hlt,← ih,judgeAt]
        obtain ⟨i,hi⟩ := exists_containing rest hlt
        simp [hi]
      · have hnone : containing (next::rest) g.seq=none :=
          containing_eq_none _ hasc'.2 (by simpa using hlt)
        rw [if_neg hlt,hnone]
        split <;> simp

theorem verdict_eq_judgeView {view : List DomainEpoch} (h : domain t d=some view) :
    verdict t d g=judgeView g view := by
  have hasc := ((domain_eq_some t d view).mp h).2
  rw [← judgeAt_eq g view hasc,verdict,h]
  split
  · rename_i hg
    -- an empty timeline holds nothing, and no handoff lies below sequence 0
    have hnone : containing view g.seq=none := by
      apply containing_eq_none _ hasc
      intro e he hlt
      cases hg with
      | inl ht =>
        subst ht
        cases h
        simp at he
      | inr hseq =>
        rw [hseq] at hlt
        simp [UInt64.lt_iff_toNat_lt] at hlt
    rw [judgeAt,hnone]
    rfl
  · rfl

theorem verdict_eq_none (h : domain t d=none) : verdict t d g=none := by
  rw [verdict,h]
  split <;> rfl

theorem lt_of_judgeView {g : MariaEntry} {e : DomainEpoch} {view : List DomainEpoch} {on : Bool}
    (hasc : Ascending (e::view)) (h : judgeView g (e::view)=some on) : e.start<g.seq := by
  cases view with
  | nil =>
    rw [judgeView] at h
    split at h
    · assumption
    · cases h
  | cons next rest =>
    rw [judgeView] at h
    split at h
    · rename_i hlt
      exact UInt64.lt_of_le_of_lt (((ascending_cons _ _).mp hasc).1 next rfl) hlt
    · split at h
      · assumption
      · cases h

/-- What lies past a later handoff is judged by the epochs from that one on. -/
theorem judgeView_append {older : List DomainEpoch} {e : DomainEpoch} {view : List DomainEpoch}
    (hasc : Ascending (older++e::view)) (hlt : e.start<g.seq) :
    judgeView g (older++e::view)=judgeView g (e::view) := by
  have hbelow : ∀ (l : List DomainEpoch) (x : DomainEpoch),Ascending (l++e::view) →
      x∈(l++e::view).head? → x.start<g.seq := by
    intro l
    induction l with
    | nil =>
      intro x _ hx
      cases hx
      exact hlt
    | cons y l ih =>
      intro x hl hx
      cases hx
      obtain ⟨next,hnext⟩ : ∃ next,(l++e::view).head?=some next := by
        cases l <;> exact ⟨_,rfl⟩
      rw [cons_append,ascending_cons] at hl
      exact UInt64.lt_of_le_of_lt (hl.1 next hnext) (ih next hl.2 hnext)
  induction older with
  | nil => rfl
  | cons first older ih =>
    rw [cons_append,ascending_cons] at hasc
    rw [← ih hasc.2,cons_append]
    cases hrest : older++e::view with
    | nil => simp at hrest
    | cons next rest =>
      have hnext := hbelow older next hasc.2 (by rw [hrest]; rfl)
      rw [judgeView,if_pos hnext]

end MariaDBTimeline

variable (authors : List UInt32)

/-- The author of a sequence, given who wrote 1, 2, …. -/
def authorAt (seq : Nat) : Option UInt32 :=
  if seq=0 then none else authors[seq-1]?

theorem authorAt_initial {kept authors : List UInt32} (h : kept <+: authors) {seq : Nat}
    (hseq : seq≤kept.length) : authorAt kept seq=authorAt authors seq := by
  unfold authorAt
  split
  · rfl
  · obtain ⟨rest,rfl⟩ := h
    rw [List.getElem?_append_left (by omega)]

theorem authorAt_write_last (server : UInt32) :
    authorAt (authors++[server]) (authors.length+1)=some server := by
  simp [authorAt]

namespace MariaDBTimeline

/-- A verdict on a sequence the domain has reached names the survivor. -/
def Sound (authors : List UInt32) (view : List DomainEpoch) : Prop :=
  ∀ g on,judgeView g view=some on → g.seq.toNat≤authors.length →
    (on=true ↔ authorAt authors g.seq.toNat=some g.server)

/-- Only `server` wrote past `start` up to `stop`. -/
def SoleAuthor (authors : List UInt32) (server : UInt32) (start stop : Nat) : Prop :=
  ∀ seq,start<seq → seq ≤ stop → seq≤authors.length → authorAt authors seq=some server

/-- What the handoffs `e` and `next` say of the stretch between them is so. -/
def StretchHolds (authors : List UInt32) (e next : DomainEpoch) : Prop :=
  if next.handoffServer=e.serverID then
    SoleAuthor authors e.serverID e.start.toNat next.start.toNat
  else e.start<next.start → next.start.toNat≤authors.length →
    authorAt authors next.start.toNat=some next.handoffServer

/-- The handoffs tell the truth, and since the newest only its server wrote. -/
def Attributed (authors : List UInt32) : List DomainEpoch → Prop
  | [] => True
  | [e] => SoleAuthor authors e.serverID e.start.toNat authors.length
  | e::next::rest => StretchHolds authors e next ∧ Attributed authors (next::rest)

variable {authors : List UInt32} {server : UInt32}

theorem SoleAuthor.of_initial {kept : List UInt32} {start stop stop' : Nat}
    (h : SoleAuthor authors server start stop) (hp : kept <+: authors) (hstop : stop' ≤ stop) :
    SoleAuthor kept server start stop' := by
  intro seq hlo hhi hend
  rw [authorAt_initial hp hend]
  exact h seq hlo (hhi.trans hstop) (hend.trans hp.length_le)

theorem SoleAuthor.write {start : Nat} (h : SoleAuthor authors server start authors.length) :
    SoleAuthor (authors++[server]) server start (authors++[server]).length := by
  intro seq hlo _ hend
  rw [length_append,length_singleton] at hend
  by_cases hlast : seq=authors.length+1
  · rw [hlast,authorAt_write_last]
  · have hold : seq≤authors.length := by omega
    rw [← authorAt_initial (prefix_append authors [server]) hold]
    exact h seq hlo hold hold

theorem SoleAuthor.append {start stop : Nat} (h : SoleAuthor authors server start stop)
    (hstop : stop≤authors.length) (more : List UInt32) :
    SoleAuthor (authors++more) server start stop := by
  intro seq hlo hhi _
  have hold : seq≤authors.length := hhi.trans hstop
  rw [← authorAt_initial (prefix_append authors more) hold]
  exact h seq hlo hhi hold

variable (authors : List UInt32)

instance (server : UInt32) (start stop : Nat) : Decidable (SoleAuthor authors server start stop) :=
  decidable_of_iff (∀ seq<authors.length+1,start<seq → seq ≤ stop →
      authorAt authors seq=some server) <| by
    constructor
    · intro h seq hlo hhi hend
      exact h seq (by omega) hlo hhi
    · intro h seq hend hlo hhi
      exact h seq hlo hhi (by omega)

instance (e next : DomainEpoch) : Decidable (StretchHolds authors e next) :=
  inferInstanceAs (Decidable (if next.handoffServer=e.serverID then
      SoleAuthor authors e.serverID e.start.toNat next.start.toNat
    else e.start<next.start → next.start.toNat≤authors.length →
      authorAt authors next.start.toNat=some next.handoffServer))

instance instDecidableAttributed : ∀ view,Decidable (Attributed authors view)
  | [] => isTrue trivial
  | [e] => inferInstanceAs (Decidable (SoleAuthor authors e.serverID _ _))
  | e::next::rest =>
    have := instDecidableAttributed (next::rest)
    inferInstanceAs (Decidable (StretchHolds authors e next ∧ Attributed authors (next::rest)))

theorem attributed_nil (view : List DomainEpoch) : Attributed [] view := by
  have hsole : ∀ server start stop,SoleAuthor [] server start stop := by
    intro server start stop seq hlo hhi hend
    simp only [length_nil] at hend
    omega
  induction view with
  | nil => trivial
  | cons e view ih =>
    cases view with
    | nil => exact hsole _ _ _
    | cons next rest =>
      refine ⟨?_,ih⟩
      unfold StretchHolds
      split
      · exact hsole _ _ _
      · intro hlt hend
        rw [UInt64.lt_iff_toNat_lt] at hlt
        simp only [length_nil] at hend
        omega

theorem soleAuthor_iff (server : UInt32) (start stop : Nat) (hlen : authors.length<2^64) :
    SoleAuthor authors server start stop ↔
      ∀ g : MariaEntry,start<g.seq.toNat → g.seq.toNat ≤ stop → g.seq.toNat≤authors.length →
        (g.server=server ↔ authorAt authors g.seq.toNat=some g.server) := by
  constructor
  · intro h g hlo hhi hend
    rw [h _ hlo hhi hend,Option.some.injEq,eq_comm]
  · intro h seq hlo hhi hend
    have hseq : (UInt64.ofNat seq).toNat=seq :=
      UInt64.toNat_ofNat_of_lt' (hend.trans_lt hlen)
    have hg := h ⟨server,UInt64.ofNat seq⟩
    rw [hseq] at hg
    exact (hg hlo hhi hend).mp rfl

theorem stretchHolds_iff (e next : DomainEpoch) (hlen : authors.length<2^64) :
    StretchHolds authors e next ↔
      ∀ g on,e.start<g.seq → ¬ next.start<g.seq → judgeStretch g e next=some on →
        g.seq.toNat≤authors.length →
        (on=true ↔ authorAt authors g.seq.toNat=some g.server) := by
  rw [StretchHolds]
  split
  · rename_i hs
    rw [soleAuthor_iff authors _ _ _ hlen]
    constructor
    · intro h g on hlo hhi hj hend
      rw [judgeStretch,if_pos hs,Option.some.injEq] at hj
      rw [← hj,decide_eq_true_iff]
      exact h g (UInt64.lt_iff_toNat_lt.mp hlo) (by simpa [UInt64.lt_iff_toNat_lt] using hhi) hend
    · intro h g hlo hhi hend
      have hg := h g _ (UInt64.lt_iff_toNat_lt.mpr hlo)
        (by simpa [UInt64.lt_iff_toNat_lt] using hhi) (by rw [judgeStretch,if_pos hs]) hend
      rwa [decide_eq_true_iff] at hg
  · rename_i hs
    constructor
    · intro h g on hlo hhi hj hend
      rw [judgeStretch,if_neg hs] at hj
      split at hj
      · rename_i hseq
        rw [hseq] at hlo hend ⊢
        rw [← Option.some.inj hj,decide_eq_true_iff,h hlo hend,Option.some.injEq,eq_comm]
      · cases hj
    · intro h hlt hend
      have hg := h ⟨next.handoffServer,next.start⟩ true hlt (by simp)
        (by simp [judgeStretch,hs]) hend
      exact hg.mp rfl

theorem sound_cons_cons {e next : DomainEpoch} {rest : List DomainEpoch}
    (hasc : Ascending (e::next::rest)) (hlen : authors.length<2^64) :
    Sound authors (e::next::rest) ↔
      StretchHolds authors e next ∧ Sound authors (next::rest) := by
  rw [stretchHolds_iff authors e next hlen]
  have hasc' := ((ascending_cons _ _).mp hasc).2
  constructor
  · intro h
    apply And.intro
    · intro g on hlo hhi hj hend
      exact h g on (by rw [judgeView,if_neg hhi,if_pos hlo,hj]) hend
    · intro g on hj hend
      exact h g on (by rw [judgeView,if_pos (lt_of_judgeView hasc' hj),hj]) hend
  · intro h g on hj hend
    rw [judgeView] at hj
    split at hj
    · exact h.2 g on hj hend
    · rename_i hhi
      split at hj
      · rename_i hlo
        exact h.1 g on hlo hhi hj hend
      · cases hj

theorem sound_iff_attributed (view : List DomainEpoch) (hasc : Ascending view)
    (hlen : authors.length<2^64) : Sound authors view ↔ Attributed authors view := by
  induction view with
  | nil => simp [Sound,judgeView,Attributed]
  | cons e view ih =>
    have ih := ih ((ascending_cons _ _).mp hasc).2
    cases view with
    | nil =>
      rw [Attributed,soleAuthor_iff authors _ _ _ hlen]
      constructor
      · intro h g hlo _ hend
        have hg := h g _ (by rw [judgeView,if_pos (UInt64.lt_iff_toNat_lt.mpr hlo)]) hend
        rwa [decide_eq_true_iff] at hg
      · intro h g on hj hend
        have hlo := lt_of_judgeView hasc hj
        rw [judgeView,if_pos hlo,Option.some.injEq] at hj
        rw [← hj,decide_eq_true_iff]
        exact h g (UInt64.lt_iff_toNat_lt.mp hlo) hend hend
    | cons next rest => rw [sound_cons_cons authors hasc hlen,Attributed,ih]

end MariaDBTimeline

/-- In each domain, who wrote sequence 1, 2, …. -/
abbrev History := UInt32 → List UInt32

def lastOf : Option MariaEntry :=
  authors.getLast?.map fun server => ⟨server,UInt64.ofNat authors.length⟩

@[simp] theorem lastOf_nil : lastOf []=none := rfl

theorem reached_lastOf (authors : List UInt32) (hlen : authors.length<2^64) :
    ((lastOf authors).getD ⟨0,0⟩).seq.toNat=authors.length := by
  cases hl : authors.getLast? with
  | none => simp [List.getLast?_eq_none_iff.mp hl]
  | some server =>
    simp only [lastOf,hl,Option.map_some,Option.getD_some]
    exact UInt64.toNat_ofNat_of_lt' hlen

theorem author_lastOf {authors : List UInt32} (h : authors≠[]) :
    authorAt authors authors.length=some ((lastOf authors).getD ⟨0,0⟩).server := by
  have hlen : authors.length≠0 := by simpa using h
  rw [authorAt,if_neg hlen,← List.getLast?_eq_getElem?,lastOf]
  cases hl : authors.getLast? with
  | none => exact absurd (List.getLast?_eq_none_iff.mp hl) h
  | some server => rfl

variable (raw : String) (position : UInt32 → Option MariaEntry)

def Reads : Prop :=
  ∃ p,parseMariaPos raw = .ok p ∧ ∀ d,p.lookup d=position d

/-- A text that reads as a position of domain 0 alone. -/
def readsSole (position : Option MariaEntry) : Bool :=
  match parseMariaPos raw with
  | .ok p => p.keys.all (·=0) ∧ p.lookup 0=position
  | .error _ => false

theorem reads_of_sole (hsole : ∀ d,d≠0 → position d=none) (hr : readsSole raw (position 0)=true) :
    Reads raw position := by
  unfold readsSole at hr
  cases hp : parseMariaPos raw with
  | error e => simp [hp] at hr
  | ok p =>
    simp only [hp,all_eq_true,decide_eq_true_eq] at hr
    refine ⟨p,hp,fun d => ?_⟩
    by_cases hd : d=0
    · rw [hd,hr.2]
    · rw [hsole d hd,AList.lookup_eq_none]
      exact fun hm => hd (hr.1 d (AList.mem_keys.mp hm))

namespace History

variable (h : History) (d server : UInt32)

def last : Option MariaEntry := lastOf (h d)

def upTo (keep : UInt32 → Nat) : History := fun d => (h d).take (keep d)

def write : History := Function.update h d (h d++[server])

@[simp] theorem write_same : h.write d server d=h d++[server] := by
  simp [write]

theorem write_of_ne {d : UInt32} {d' : UInt32} (hne : d'≠d) : h.write d server d'=h d' := by
  simp [write,hne]

theorem length_write_lt (n : Nat) (hd : (h d).length+1<n) (hother : ∀ d',(h d').length<n)
    (d' : UInt32) : (h.write d server d').length<n := by
  by_cases hd' : d'=d
  · subst hd'
    simpa using hd
  · rw [write_of_ne h server hd']
    exact hother d'

end History

/-- The server that took over, and the last transaction it inherited per domain. -/
structure Takeover where
  server : UInt32
  inherited : UInt32 → Option MariaEntry

namespace Takeover

def within (d : UInt32) (r : Takeover) : DomainEpoch :=
  let e := (r.inherited d).getD ⟨0,0⟩
  ⟨r.server,e.seq,e.server⟩

variable (r : Takeover)

def RecordedBy (epoch : MariaDBEpoch) : Prop :=
  epoch.serverID=r.server ∧ Reads epoch.handoff r.inherited

theorem project_eq (epoch : MariaDBEpoch) (h : r.RecordedBy epoch) (d : UInt32) :
    MariaDBTimeline.project d epoch=some (r.within d) := by
  obtain ⟨hserver,p,hp,hlookup⟩ := h
  rw [MariaDBTimeline.project,hp]
  simp only [hlookup d,hserver,within]

theorem reached_eq (raw : String) (p : MariaPos) (h : Reads raw r.inherited)
    (hp : parseMariaPos raw = .ok p) (d : UInt32) : p.reached d=(r.within d).start.toNat := by
  obtain ⟨q,hq,hlookup⟩ := h
  cases hp.symm.trans hq
  rw [MariaPos.reached,hlookup d,within]
  cases r.inherited d <;> rfl

end Takeover

namespace MariaDBTimeline

variable {t : MariaDBTimeline} {rs : List Takeover}

theorem domain_recorded (h : List.Forall₂ Takeover.RecordedBy rs t) (d : UInt32) :
    domain t d=if Ascending (rs.map (·.within d)) then some (rs.map (·.within d)) else none := by
  have hview : List.Forall₂ (fun epoch e => project d epoch=some e) t (rs.map (·.within d)) := by
    rw [forall₂_map_right_iff]
    exact (h.imp fun r epoch hr => r.project_eq epoch hr d).flip
  split
  · rename_i hasc
    exact (domain_eq_some _ _ _).mpr ⟨hview,hasc⟩
  · rename_i hasc
    cases hd : domain t d with
    | none => rfl
    | some view =>
      have hv := (domain_eq_some _ _ _).mp hd
      have huniq : Relator.RightUnique fun epoch e => project d epoch=some e :=
        fun _ _ _ h h' => Option.some.inj (h.symm.trans h')
      rw [right_unique_forall₂' huniq hv.1 hview] at hv
      exact absurd hv.2 hasc

/-- Without unattributed stretches, everything past the first handoff is judged. -/
theorem judgeView_isSome (g : MariaEntry) (view : List DomainEpoch)
    (hattr : view.IsChain fun e next => e.start=next.start ∨ next.handoffServer=e.serverID)
    (e : DomainEpoch) (he : view.head?=some e) (hlt : e.start<g.seq) :
    (judgeView g view).isSome=true := by
  induction view generalizing e with
  | nil => cases he
  | cons first view ih =>
    cases he
    cases view with
    | nil => simp [judgeView,hlt]
    | cons next rest =>
      rw [isChain_cons_cons] at hattr
      rw [judgeView]
      by_cases hnext : next.start<g.seq
      · rw [if_pos hnext]
        exact ih hattr.2 next rfl hnext
      · have hserver : next.handoffServer=first.serverID := by
          cases hattr.1 with
          | inl hstart => exact absurd (hstart ▸ hlt) hnext
          | inr hserver => exact hserver
        simp [hnext,hlt,judgeStretch,hserver]

theorem verdict_sound_iff (h : List.Forall₂ Takeover.RecordedBy rs t) {hist : History}
    (hlen : ∀ d,(hist d).length<2^64) :
    (∀ d g on,verdict t d g=some on → g.seq.toNat≤(hist d).length →
      (on=true ↔ authorAt (hist d) g.seq.toNat=some g.server)) ↔
    ∀ d,Ascending (rs.map (·.within d)) → Attributed (hist d) (rs.map (·.within d)) := by
  apply forall_congr'
  intro d
  have hd := domain_recorded h d
  by_cases hasc : Ascending (rs.map (·.within d))
  · rw [if_pos hasc] at hd
    simp only [verdict_eq_judgeView t d _ hd,hasc,true_imp_iff]
    exact sound_iff_attributed (hist d) _ hasc (hlen d)
  · rw [if_neg hasc] at hd
    simp [verdict_eq_none t d _ hd,hasc]

end MariaDBTimeline

end Cnmsql.Engine
