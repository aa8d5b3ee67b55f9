import Cnmsql.Binlog.Archiver

namespace Cnmsql.Binlog.Archiver

open ObjectStore List

variable {seg : ArchiveSegment} {segs segs' : List ArchiveSegment} {u : String}

theorem find_putSegment (segs : List ArchiveSegment) (u : String) :
    (putSegment seg segs).find? (·.serverUUID=u) =
      if u=seg.serverUUID then some seg else segs.find? (·.serverUUID=u) := by
  induction segs with
  | nil =>
    by_cases hu : u=seg.serverUUID
    · simp [putSegment,hu]
    · simp [putSegment,hu,Ne.symm hu]
  | cons s rest ih =>
    rw [putSegment]
    split
    · rename_i heq
      by_cases hu : u=seg.serverUUID
      · simp [hu]
      · simp [hu,heq,Ne.symm hu]
    · rename_i hne
      rw [List.find?_cons,List.find?_cons,ih]
      by_cases hu : u=seg.serverUUID
      · simp [hu,hne]
      · simp [hu]

def Apart (segs : List ArchiveSegment) : Prop := (segs.map (·.serverUUID)).Nodup

theorem mem_putSegment (h : Apart segs) {s : ArchiveSegment} :
    s∈putSegment seg segs ↔ s=seg ∨ s∈segs ∧ s.serverUUID≠seg.serverUUID := by
  induction segs with
  | nil => simp [putSegment]
  | cons x rest ih =>
    rw [Apart,map_cons,nodup_cons] at h
    rw [putSegment]
    split
    · rename_i heq
      have hrest : ∀ y∈rest,y.serverUUID≠seg.serverUUID := by
        intro y hy hys
        exact h.1 (mem_map.mpr ⟨y,hy,hys.trans heq.symm⟩)
      simp only [mem_cons]
      constructor
      · intro hs
        cases hs with
        | inl hs => exact .inl hs
        | inr hs => exact .inr ⟨.inr hs,hrest s hs⟩
      · intro hs
        cases hs with
        | inl hs => exact .inl hs
        | inr hs =>
          cases hs.1 with
          | inl hx =>
            subst hx
            exact absurd heq hs.2
          | inr hs' => exact .inr hs'
    · rename_i hne
      rw [mem_cons,ih h.2,mem_cons]
      constructor
      · intro hs
        cases hs with
        | inl hx =>
          subst hx
          exact .inr ⟨.inl rfl,hne⟩
        | inr hs =>
          cases hs with
          | inl hs => exact .inl hs
          | inr hs => exact .inr ⟨.inr hs.1,hs.2⟩
      · intro hs
        cases hs with
        | inl hs => exact .inr (.inl hs)
        | inr hs =>
          cases hs.1 with
          | inl hx => exact .inl hx
          | inr hs' => exact .inr (.inr ⟨hs',hs.2⟩)

theorem apart_putSegment (h : Apart segs) : Apart (putSegment seg segs) := by
  induction segs with
  | nil => simp [Apart,putSegment]
  | cons x rest ih =>
    have hrest : Apart rest := (nodup_cons.mp h).2
    have hx : x.serverUUID∉rest.map (·.serverUUID) := (nodup_cons.mp h).1
    rw [putSegment]
    split
    · rename_i heq
      rw [Apart,map_cons,nodup_cons,← heq]
      exact ⟨hx,hrest⟩
    · rename_i hne
      rw [Apart,map_cons,nodup_cons]
      refine ⟨?_,ih hrest⟩
      intro hmem
      obtain ⟨s,hs,hsx⟩ := mem_map.mp hmem
      cases (mem_putSegment hrest).mp hs with
      | inl hs =>
        subst hs
        exact hne hsx.symm
      | inr hs => exact hx (mem_map.mpr ⟨s,hs.1,hsx⟩)

theorem find_eq_some_iff (h : Apart segs) {s : ArchiveSegment} :
    segs.find? (·.serverUUID=u)=some s ↔ s∈segs ∧ s.serverUUID=u := by
  constructor
  · intro hs
    exact ⟨mem_of_find?_eq_some hs,by simpa using List.find?_some hs⟩
  · intro hs
    obtain ⟨hmem,hu⟩ := hs
    cases hf : segs.find? (·.serverUUID=u) with
    | none =>
      rw [List.find?_eq_none] at hf
      exact absurd (by simpa using hu) (hf s hmem)
    | some t =>
      have ht := mem_of_find?_eq_some hf
      have htu : t.serverUUID=u := by simpa using List.find?_some hf
      rw [inj_on_of_nodup_map h ht hmem (htu.trans hu.symm)]

def SameButForks (segs segs' : List ArchiveSegment) : Prop :=
  List.Forall₂ (fun seg seg' => seg'={ seg with fork := seg'.fork }) segs segs'

theorem SameButForks.refl (segs : List ArchiveSegment) : SameButForks segs segs :=
  forall₂_same.mpr fun _ _ => rfl

theorem SameButForks.find (h : SameButForks segs segs') :
    Option.Rel (fun seg seg' => seg'={ seg with fork := seg'.fork })
      (segs.find? (·.serverUUID=u)) (segs'.find? (·.serverUUID=u)) := by
  induction h with
  | nil => exact Option.Rel.none
  | @cons seg seg' segs segs' hseg _ ih =>
    have huuid : seg'.serverUUID=seg.serverUUID := by rw [hseg]
    rw [List.find?_cons,List.find?_cons,huuid]
    split
    · exact Option.Rel.some hseg
    · exact ih

theorem SameButForks.apart (h : SameButForks segs segs') : Apart segs' ↔ Apart segs := by
  have hmap : segs'.map (·.serverUUID)=segs.map (·.serverUUID) := by
    induction h with
    | nil => rfl
    | @cons seg seg' segs segs' hseg _ ih =>
      rw [map_cons,map_cons,ih,hseg]
  rw [Apart,hmap,Apart]

theorem SameButForks.mem (h : SameButForks segs segs') {seg' : ArchiveSegment} (hs : seg'∈segs') :
    ∃ seg∈segs, seg'={ seg with fork := seg'.fork } := by
  induction h with
  | nil => cases hs
  | @cons x x' segs segs' hx _ ih =>
    cases mem_cons.mp hs with
    | inl heq =>
      subst heq
      exact ⟨x,mem_cons_self,hx⟩
    | inr hmem =>
      obtain ⟨seg,hseg,heq⟩ := ih hmem
      exact ⟨seg,mem_cons_of_mem _ hseg,heq⟩

theorem SameButForks.segmentFiles {index index' : ArchiveIndex}
    (h : SameButForks index.segments index'.segments) (u : String) :
    Archiver.segmentFiles u (some index')=Archiver.segmentFiles u (some index) := by
  have hrel := h.find (u := u)
  simp only [Archiver.segmentFiles,segment,Option.bind_some]
  generalize index.segments.find? (·.serverUUID=u)=found at hrel ⊢
  generalize index'.segments.find? (·.serverUUID=u)=found' at hrel ⊢
  cases hrel with
  | none => rfl
  | some heq =>
    rw [heq]
    rfl

end Cnmsql.Binlog.Archiver
