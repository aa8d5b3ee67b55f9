import Cnmsql.Binlog.ForkCheck

namespace Cnmsql.Binlog

open Framework Replication ObjectStore

section

variable [CaseMapping]

theorem parseGTIDSet_string_lookup (s : GTIDSet) (hs : s.Canonical) :
    ∃ r,parseGTIDSet s.string = .ok r ∧ ∀ u, r.lookup u=s.lookup u := by
  obtain ⟨r,hr,hc,hget⟩ := parseGTIDSet_string s hs
  exact ⟨r,hr,hc.lookup_eq_of_get_eq hs hget⟩

theorem string_eq_iff_gtids_eq {a b : String} {s t : GTIDSet} (ha : parseGTIDSet a = .ok s)
    (hb : parseGTIDSet b = .ok t) : s.string=t.string ↔ gtids a=gtids b := by
  have hs := parseGTIDSet_canonical ha
  have ht := parseGTIDSet_canonical hb
  rw [rendered_eq_iff _ _ ⟨s,hs,rfl⟩ ⟨t,ht,rfl⟩,(gtids_string hs).2,(gtids_string ht).2,
    gtids_of_parse a s ha,gtids_of_parse b t hb]

/-- What a check leaves of a record says whether it shrank as a set. -/
theorem retractFork_shrank {raw : String} {unheld : String → Except String String}
    (hn : Narrows raw unheld) {fork : ArchiveFork} (authority : String)
    (hf : Parses fork.gtidSet) :
    ∃ kept shrank,retractFork fork unheld authority = .ok (kept,shrank) ∧
      (shrank=true ↔ gtids fork.gtidSet \ gtids raw≠gtids fork.gtidSet) := by
  by_cases hblank : fork.gtidSet = ""
  · refine ⟨some fork,false,by rw [retractFork,if_pos hblank],?_⟩
    simp [hblank]
  · obtain ⟨left,hleft,hr,hg⟩ := hn fork.gtidSet hf
    obtain ⟨hcr,hcg⟩ := canonicalGTIDSet_correct hf
    have hsame : left=canonicalGTIDSet fork.gtidSet ↔
        gtids fork.gtidSet \ gtids raw=gtids fork.gtidSet := by
      rw [rendered_eq_iff left _ hr hcr,hg,hcg]
    simp only [retractFork,if_neg hblank,hleft,bind,Except.bind]
    by_cases heq : left=canonicalGTIDSet fork.gtidSet
    · exact ⟨some fork,false,if_pos heq,by simp [hsame.mp heq]⟩
    · rw [if_neg heq]
      have hne : gtids fork.gtidSet \ gtids raw≠gtids fork.gtidSet := fun h => heq (hsame.mpr h)
      split
      · exact ⟨none,true,rfl,by simp [hne]⟩
      · exact ⟨_,true,rfl,by simp [hne]⟩

theorem newMySQLForkJudge_narrows {raw : String} {judge : ForkJudge}
    (h : newMySQLForkJudge raw = .ok judge) :
    ∃ unheld,judge.unheld=some unheld ∧ Narrows raw unheld := by
  rw [newMySQLForkJudge,bind_eq_ok] at h
  obtain ⟨executed,hraw,h⟩ := h
  rw [mapError_eq_ok] at hraw
  cases h
  exact mysqlForkJudge_narrows hraw

/-- A judge narrows disowned sets to what some text does not name. -/
def Narrowing (unheld : Option (String → Except String String)) : Prop :=
  ∀ f,unheld=some f → ∃ raw,Narrows raw f

variable {unheld : Option (String → Except String String)}

theorem narrowed_rendered (hn : Narrowing unheld)
    {union left : String} (hr : Rendered union) (h : narrowed unheld union = .ok left) :
    Rendered left := by
  cases unheld with
  | none =>
    cases h
    exact hr
  | some f =>
    obtain ⟨raw,hf⟩ := hn f rfl
    rw [narrowed] at h
    split at h
    · cases h
      exact hr
    · obtain ⟨left',hleft,hr',-⟩ := hf union hr.parses
      rw [hleft] at h
      cases h
      exact hr'

theorem foldDisowned_changed (hn : Narrowing unheld) {existing out : Option ArchiveDisowned}
    {forks : List (ArchiveSegment × Option ArchiveFork)} {changed : Bool}
    (h : foldDisowned existing forks unheld = .ok (out,changed)) :
    ∃ d grew,addForkRanges forks (existing.getD {}) false = .ok (d,grew) ∧
      (changed=true ↔ grew=true ∨ disownedRecord out≠disownedRecord existing) := by
  rw [foldDisowned,bind_eq_ok] at h
  obtain ⟨⟨d,grew⟩,hranges,h⟩ := h
  rw [bind_eq_ok] at h
  obtain ⟨union,hunion,h⟩ := h
  rw [mapError_eq_ok] at hunion
  rw [bind_eq_ok] at h
  obtain ⟨left,hleft,h⟩ := h
  have hparses := unionGTIDStrings_parses hunion
  have hrl := narrowed_rendered hn (rendered_of_union hunion) hleft
  have hbefore : Rendered ((existing.map fun d => canonicalGTIDSet d.gtidSet).getD "") ∧
      gtids ((existing.map fun d => canonicalGTIDSet d.gtidSet).getD "") =
        disownedRecord existing := by
    cases existing with
    | none => exact ⟨rendered_empty,by simp⟩
    | some e =>
      obtain ⟨hcr,hcg⟩ := canonicalGTIDSet_correct (hparses e.gtidSet (by simp))
      exact ⟨hcr,by simpa using hcg⟩
  have hout : disownedRecord out=gtids left ∧
      changed=(grew || (left != (existing.map fun d => canonicalGTIDSet d.gtidSet).getD "")) := by
    simp only at h
    split at h
    · rename_i hnone
      cases h
      exact ⟨by rw [hnone.1,gtids_empty,disownedRecord_none],rfl⟩
    · cases h
      exact ⟨by rw [disownedRecord_some],rfl⟩
  refine ⟨d,grew,hranges,?_⟩
  rw [hout.2,hout.1,Bool.or_eq_true,bne_iff_ne,ne_eq,ne_eq,
    rendered_eq_iff _ _ hrl hbefore.1,hbefore.2]

theorem mergeFork_grew {existing delta : ArchiveFork} {merged : Option ArchiveFork}
    {authority identity : String} {now : Time} {grew : Bool} (hr : Rendered existing.gtidSet)
    (h : mergeFork (some existing) (some delta) authority now identity = .ok (merged,grew)) :
    grew=true ↔ (lowerCuts delta.afterSeq existing.afterSeq false).2=true ∨
      forkTxns merged≠forkTxns (some existing) := by
  unfold mergeFork at h
  simp only at h
  split at h
  · rename_i hnothing
    cases h
    simp [hnothing.2,lowerCuts]
  · -- the text the record gets, whether or not the delta names a set
    obtain ⟨union,hru,h⟩ : ∃ union,Rendered union ∧
        (if union=existing.gtidSet ∧ (lowerCuts delta.afterSeq existing.afterSeq false).2=false
          then .ok (some existing,false)
          else .ok (some { existing with
            gtidSet := union
            afterSeq := (lowerCuts delta.afterSeq existing.afterSeq false).1
            authorityGTIDSet := authority },true)) =
          (.ok (merged,grew) : Except String (Option ArchiveFork × Bool)) := by
      split at h
      · rw [bind_eq_ok] at h
        obtain ⟨union,hunion,h⟩ := h
        cases hunion
        exact ⟨_,hr,h⟩
      · rw [bind_eq_ok] at h
        obtain ⟨union,hunion,h⟩ := h
        rw [mapError_eq_ok] at hunion
        exact ⟨union,rendered_of_union hunion,h⟩
    have hsame := rendered_eq_iff union existing.gtidSet hru hr
    split at h
    · rename_i heq
      cases h
      simp [heq.2]
    · rename_i hne
      cases h
      refine iff_of_true rfl ?_
      rw [not_and_or,Bool.not_eq_false] at hne
      rw [forkTxns_some,forkTxns_some,ne_eq,← hsame]
      exact hne.symm

theorem applyMySQLForks_refuses {idx : ArchiveIndex} {target : RecoveryTarget} {plan : ReplayPlan}
    (ht : target.gtid = "") (hp : ∀ raw∈disownedTexts idx,Parses raw)
    (hx : Parses plan.excludeGTIDs) :
    (∃ held,applyMySQLForks idx target plan = .error (.backupOnDeadBranch held)) ↔
      disownedTxns idx \ gtids plan.excludeGTIDs≠disownedTxns idx := by
  obtain ⟨u,hu,hr,hg⟩ := unionGTIDStrings_correct _ hp
  have hdisowned : gtids u=disownedTxns idx := by
    rw [hg]
    ext t
    exact (mem_disownedTxns t).symm
  obtain ⟨d,hd,hrd,hgd⟩ := differenceGTIDStrings_correct u _ hr.parses hx
  have hsame : d=u ↔ disownedTxns idx \ gtids plan.excludeGTIDs=disownedTxns idx := by
    rw [rendered_eq_iff d u hrd hr,hgd,hdisowned]
  obtain ⟨x,hx',-,-⟩ := unionGTIDStrings_pair _ u hx hr.parses
  rw [ne_eq,← hsame]
  simp only [applyMySQLForks,hu,hd,hx',Except.mapError,bind,Except.bind,ht,ne_eq,
    not_true_eq_false,if_false]
  by_cases heq : d=u
  · simp [heq,require,pure,Except.pure]
  · simp [heq,require]

/-- The text of a GTID set is a normal form: it is read back, and texts are rendered alike exactly
when they name the same transactions. -/
theorem gtid_text_normal_form :
    (∀ s : GTIDSet,s.Canonical →
      ∃ r,parseGTIDSet s.string = .ok r ∧ ∀ u,r.lookup u=s.lookup u) ∧
    (∀ a b s t,parseGTIDSet a = .ok s → parseGTIDSet b = .ok t →
      (s.string=t.string ↔ s.txns=t.txns)) ∧
    (∀ executed judge unheld (fork : ArchiveFork) authority,
      newMySQLForkJudge executed = .ok judge → judge.unheld=some unheld → Parses fork.gtidSet →
      ∃ kept shrank,retractFork fork unheld authority = .ok (kept,shrank) ∧
        (shrank=true ↔ gtids fork.gtidSet \ gtids executed≠gtids fork.gtidSet)) ∧
    (∀ executed judge unheld existing forks out changed,
      newMySQLForkJudge executed = .ok judge → (unheld=judge.unheld ∨ unheld=none) →
      foldDisowned existing forks unheld = .ok (out,changed) →
      ∃ d grew,addForkRanges forks (existing.getD {}) false = .ok (d,grew) ∧
        (changed=true ↔ grew=true ∨ disownedRecord out≠disownedRecord existing)) ∧
    (∀ raw (existing delta : ArchiveFork) merged authority now identity grew,
      Parses raw → existing.gtidSet=canonicalGTIDSet raw →
      mergeFork (some existing) (some delta) authority now identity = .ok (merged,grew) →
      (grew=true ↔ (lowerCuts delta.afterSeq existing.afterSeq false).2=true ∨
        forkTxns merged≠forkTxns (some existing))) ∧
    (∀ idx (target : RecoveryTarget) (plan : ReplayPlan),target.gtid = "" →
      (∀ raw∈disownedTexts idx,Parses raw) → Parses plan.excludeGTIDs →
      ((∃ held,applyMySQLForks idx target plan = .error (.backupOnDeadBranch held)) ↔
        disownedTxns idx \ gtids plan.excludeGTIDs≠disownedTxns idx)) := by
  refine ⟨parseGTIDSet_string_lookup,?_,?_,?_,?_,?_⟩
  · intro a b s t ha hb
    rw [string_eq_iff_gtids_eq ha hb,gtids_of_parse a s ha,gtids_of_parse b t hb]
  · intro executed judge unheld fork authority hjudge hunheld hf
    obtain ⟨f,hfu,hn⟩ := newMySQLForkJudge_narrows hjudge
    rw [hfu] at hunheld
    cases hunheld
    exact retractFork_shrank hn authority hf
  · intro executed judge unheld existing forks out changed hjudge hunheld h
    refine foldDisowned_changed ?_ h
    intro f hf
    obtain ⟨f',hfu,hn⟩ := newMySQLForkJudge_narrows hjudge
    rcases hunheld with hunheld | hunheld
    · rw [hunheld,hfu] at hf
      cases hf
      exact ⟨executed,hn⟩
    · rw [hunheld] at hf
      cases hf
  · intro raw existing delta merged authority now identity grew hraw hexisting h
    exact mergeFork_grew (hexisting ▸ (canonicalGTIDSet_correct hraw).1) h
  · intro idx target plan ht hp hx
    exact applyMySQLForks_refuses ht hp hx

end

/-- A lost tail on record. -/
def forkedArchive : ArchiveIndex where
  segments := [{ serverUUID := "a", gtidSet := "a:1-5", fork := some { gtidSet := "a:4-5" } }]

/-- Two texts of one set, a record that a check against it narrows, one that grows, and a backup
from the lost tail. -/
theorem gtid_text_normal_form_shared :
    (∃ s t,parseGTIDSet "A:1-2:3" = .ok s ∧ parseGTIDSet "a:1-3" = .ok t ∧
      (s.string=t.string ↔ s.txns=t.txns) ∧
      ∃ r,parseGTIDSet s.string = .ok r ∧ ∀ u,r.lookup u=s.lookup u) ∧
    (∃ judge unheld kept shrank,newMySQLForkJudge "a:1-3" = .ok judge ∧
      judge.unheld=some unheld ∧
      retractFork { gtidSet := "a:2-5" } unheld "" = .ok (kept, shrank) ∧
      (shrank=true ↔ gtids "a:2-5" \ gtids "a:1-3"≠gtids "a:2-5")) ∧
    (∃ d grew,addForkRanges [({ serverUUID := "a" },some { gtidSet := "a:4-5" })]
        { gtidSet := "a:1-2" } false = .ok (d,grew) ∧
      (true=true ↔ grew=true ∨ disownedRecord (some { gtidSet := "a:1-2:4-5" })≠
        disownedRecord (some { gtidSet := "a:1-2" }))) ∧
    (true=true ↔ (lowerCuts [] [] false).2=true ∨
      forkTxns (some { gtidSet := "a:1-5" })≠forkTxns (some { gtidSet := "a:1-3" })) ∧
    ((∃ held,applyMySQLForks forkedArchive {} { excludeGTIDs := "a:1-4" } =
        .error (.backupOnDeadBranch held)) ↔
      disownedTxns forkedArchive \ gtids "a:1-4"≠disownedTxns forkedArchive) := by
  obtain ⟨hread,hrender,hretract,hfold,hmerge,hforks⟩ := gtid_text_normal_form
  obtain ⟨s,hs⟩ : Parses "A:1-2:3" := by decide +kernel
  obtain ⟨t,ht⟩ : Parses "a:1-3" := by decide +kernel
  obtain ⟨judge,hjudge⟩ : ∃ judge,newMySQLForkJudge "a:1-3" = .ok judge :=
    ⟨mysqlForkJudge "a:1-3" t,by rw [newMySQLForkJudge,ht]; rfl⟩
  obtain ⟨unheld,hunheld,-⟩ := newMySQLForkJudge_narrows hjudge
  obtain ⟨kept,shrank,hkept,hshrank⟩ :=
    hretract "a:1-3" judge unheld { gtidSet := "a:2-5" } "" hjudge hunheld (by decide +kernel)
  refine ⟨⟨s,t,hs,ht,hrender _ _ s t hs ht,hread s (parseGTIDSet_canonical hs)⟩,
    ⟨judge,unheld,kept,shrank,hjudge,hunheld,hkept,hshrank⟩,
    hfold _ judge none (some { gtidSet := "a:1-2" }) _ (some { gtidSet := "a:1-2:4-5" }) true
      hjudge (.inr rfl) (by decide +kernel),?_,
    hforks forkedArchive {} _ rfl (by decide +kernel) (by decide +kernel)⟩
  exact hmerge "a:1-3" { gtidSet := "a:1-3" } { gtidSet := "a:4-5" } _ "" 0 "" true
    (by decide +kernel) (by decide +kernel) (by decide +kernel)

end Cnmsql.Binlog
