import Mathlib.Data.List.AList

namespace Cnmsql.Framework

variable {κ : Type*} [DecidableEq κ] {β γ : Type*}

abbrev Map (κ : Type*) (β : Type*) := AList (fun _ : κ => β)

namespace Map

variable (f : κ → β → Option γ) (s : Map κ β)

/-- The map over the keys on which `f` is defined. -/
def collect : Map κ γ where
  entries := s.entries.filterMap fun e => (f e.1 e.2).map (Sigma.mk e.1)
  nodupKeys := by
    have h := s.nodupKeys
    rw [List.nodupKeys_iff_pairwise] at h ⊢
    refine List.Pairwise.filterMap _ ?_ h
    intro a b hab a' ha b' hb
    obtain ⟨x,_,hx⟩ := Option.map_eq_some_iff.mp ha
    obtain ⟨y,_,hy⟩ := Option.map_eq_some_iff.mp hb
    subst hx
    subst hy
    exact hab

@[simp] theorem lookup_collect (k : κ) : (collect f s).lookup k=(s.lookup k).bind (f k) := by
  apply Option.ext
  intro c
  rw [← Option.mem_def,AList.mem_lookup_iff,collect]
  simp only [List.mem_filterMap,Option.map_eq_some_iff,Sigma.mk.injEq,
    Option.bind_eq_some_iff]
  constructor
  · rintro ⟨⟨k',b⟩,he,c',hc,rfl,hcc⟩
    cases hcc
    exact ⟨b,AList.mem_lookup_iff.mpr he,hc⟩
  · rintro ⟨b,hb,hc⟩
    exact ⟨⟨k,b⟩,AList.mem_lookup_iff.mp hb,c,hc,rfl,HEq.rfl⟩

theorem lookup_insert_eq_some {s : Map κ β} {k l : κ} {b x : β}
    (h : AList.lookup l (s.insert k b)=some x) : l=k ∧ x=b ∨ s.lookup l=some x := by
  by_cases hl : l=k
  · subst hl
    rw [AList.lookup_insert] at h
    exact .inl ⟨rfl,(Option.some.inj h).symm⟩
  · rw [AList.lookup_insert_ne hl] at h
    exact .inr h

theorem lookup_of_erase {s : Map κ β} {k l : κ} {x : β} (h : AList.lookup l (s.erase k)=some x) :
    s.lookup l=some x := by
  by_cases hl : l=k
  · rw [hl,AList.lookup_erase] at h
    cases h
  · rwa [AList.lookup_erase_ne hl] at h

theorem collect_congr (f g : κ → β → Option γ) (s : Map κ β)
    (h : ∀ k b,s.lookup k=some b → f k b=g k b) : collect f s=collect g s := by
  apply AList.ext
  apply List.filterMap_congr
  intro e he
  rw [h e.1 e.2 (AList.mem_lookup_iff.mpr he)]

theorem mem_of_mem_collect {f : κ → β → Option γ} {s : Map κ β} {k : κ}
    (h : k∈collect f s) : k∈s := by
  rw [← AList.lookup_isSome,lookup_collect] at h
  rw [← AList.lookup_isSome]
  cases hl : s.lookup k with
  | none => simp [hl] at h
  | some b => rfl

end Map

end Cnmsql.Framework
