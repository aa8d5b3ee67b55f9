import Mathlib.Data.List.Basic

namespace Cnmsql.Framework

open List

variable {α β : Type}

abbrev Memory (α : Type) := List (List α)

/-- A slice from the start of its array. Its capacity is the array's length. -/
structure Slice where
  array : Nat
  len : Nat
  deriving DecidableEq

variable (mem : Memory α)

def Memory.cells (a : Nat) : List α := (mem[a]?).getD []

namespace Slice

variable (sl : Slice)

def read (mem : Memory α) : List α := (mem.cells sl.array).take sl.len

def at? (i : Nat) (mem : Memory α) : Option α := (sl.read mem)[i]?

def make [Inhabited α] (cap : Nat) (mem : Memory α) : Slice × Memory α :=
  (⟨mem.length,0⟩,mem++[List.replicate cap default])

/-- In place while the capacity lasts, then in a new array with `grow` spare cells. -/
def append [Inhabited α] (grow : Nat → Nat) (sl : Slice) (xs : List α) (mem : Memory α) :
    Slice × Memory α :=
  let cells := mem.cells sl.array
  let len := sl.len+xs.length
  if len≤cells.length then
    (⟨sl.array,len⟩,mem.set sl.array (cells.take sl.len++xs++cells.drop len))
  else
    (⟨mem.length,len⟩,mem++[cells.take sl.len++xs++List.replicate (grow len) default])

def copied (mem : Memory α) : Slice × Memory α :=
  (⟨mem.length,sl.len⟩,mem++[sl.read mem])

/-- A range loop from index `i` on: each iteration reads its element when it starts. -/
def rangeFrom (sl : Slice) (body : β → α → Memory α → Option (ForInStep β × Memory α)) :
    Nat → Nat → β → Memory α → Option (β × Memory α)
  | 0,_,b,mem => some (b,mem)
  | k+1,i,b,mem => do
    let x ← sl.at? i mem
    let (next,mem) ← body b x mem
    match next with
    | .yield b => rangeFrom sl body k (i+1) b mem
    | .done b => some (b,mem)

def range (body : β → α → Memory α → Option (ForInStep β × Memory α)) (b : β) (mem : Memory α) :
    Option (β × Memory α) :=
  sl.rangeFrom body (sl.read mem).length 0 b mem

end Slice

def Keeps (n : Nat) (mem mem' : Memory α) : Prop := ∀ a<n,mem'.cells a=mem.cells a

namespace Keeps

theorem refl (n : Nat) (mem : Memory α) : Keeps n mem mem := fun _ _ => rfl

theorem trans {n : Nat} {m₁ m₂ m₃ : Memory α} (h₁ : Keeps n m₁ m₂) (h₂ : Keeps n m₂ m₃) :
    Keeps n m₁ m₃ := fun a ha => (h₂ a ha).trans (h₁ a ha)

theorem mono {m n : Nat} {mem mem' : Memory α} (h : Keeps n mem mem') (hle : m≤n) :
    Keeps m mem mem' := fun a ha => h a (by omega)

theorem read {n : Nat} {mem mem' : Memory α} (h : Keeps n mem mem') (sl : Slice)
    (hsl : sl.array<n) : sl.read mem'=sl.read mem := by
  rw [Slice.read,Slice.read,h sl.array hsl]

end Keeps

/-- The slice lies in an array from `n` on. -/
structure Fresh (n : Nat) (sl : Slice) (mem : Memory α) : Prop where
  le_array : n ≤ sl.array
  array_lt : sl.array < mem.length
  len_le : sl.len≤(mem.cells sl.array).length

private theorem cells_append (cells : List α) (a : Nat) (ha : a < mem.length) :
    (mem++[cells]).cells a=mem.cells a := by
  rw [Memory.cells,Memory.cells,List.getElem?_append_left ha]

private theorem cells_append_self (cells : List α) : (mem++[cells]).cells mem.length=cells := by
  simp [Memory.cells]

theorem Slice.copied_correct (sl : Slice) (mem : Memory α)
    (hsl : sl.len≤(mem.cells sl.array).length) :
    Fresh mem.length (sl.copied mem).1 (sl.copied mem).2 ∧
      Keeps mem.length mem (sl.copied mem).2 ∧ mem.length≤(sl.copied mem).2.length ∧
      (sl.copied mem).1.read (sl.copied mem).2=sl.read mem := by
  refine ⟨⟨Nat.le_refl _,by simp [copied],?_⟩,?_,by simp [copied],?_⟩
  · simp only [copied,cells_append_self,read,length_take]
    omega
  · intro a ha
    exact cells_append mem _ a ha
  · simp only [copied,read,cells_append_self,take_take,Nat.min_self]

section

variable [Inhabited α] {n : Nat} {sl : Slice} {mem : Memory α}

theorem Slice.make_correct {mem : Memory α} (cap : Nat) (hn : n ≤ mem.length) :
    Fresh n (make cap mem).1 (make cap mem).2 ∧ Keeps n mem (make cap mem).2 ∧
      mem.length≤(make cap mem).2.length ∧ (make cap mem).1.read (make cap mem).2=[] := by
  refine ⟨⟨hn,by simp [make],by simp [make]⟩,?_,by simp [make],by simp [make,read]⟩
  intro a ha
  exact cells_append mem _ a (by omega)

theorem Fresh.append (hf : Fresh n sl mem) (hn : n ≤ mem.length) (grow : Nat → Nat) (xs : List α) :
    Fresh n (sl.append grow xs mem).1 (sl.append grow xs mem).2 ∧
      Keeps n mem (sl.append grow xs mem).2 ∧ mem.length≤(sl.append grow xs mem).2.length ∧
      (sl.append grow xs mem).1.read (sl.append grow xs mem).2=sl.read mem++xs := by
  have hlen := hf.len_le
  simp only [Slice.append]
  split
  · rename_i hcap
    have hself : Memory.cells (mem.set sl.array ((mem.cells sl.array).take sl.len++xs ++
        (mem.cells sl.array).drop (sl.len+xs.length))) sl.array =
        (mem.cells sl.array).take sl.len++xs ++
          (mem.cells sl.array).drop (sl.len+xs.length) := by
      rw [Memory.cells,List.getElem?_set_self hf.array_lt,Option.getD_some]
    refine ⟨⟨hf.le_array,by simpa using hf.array_lt,?_⟩,?_,by simp,?_⟩
    · rw [hself]
      simp only [length_append,length_take,length_drop]
      omega
    · intro a ha
      have hle := hf.le_array
      rw [Memory.cells,List.getElem?_set_ne (by omega)]
      rfl
    · rw [Slice.read,hself,take_left' (by simp; omega)]
      rfl
  · refine ⟨⟨hn,by simp,?_⟩,?_,by simp,?_⟩
    · rw [cells_append_self]
      simp only [length_append,length_take,length_replicate]
      omega
    · intro a ha
      exact cells_append mem _ a (by omega)
    · rw [Slice.read,cells_append_self,take_left' (by simp; omega)]
      rfl

end

variable {n : Nat} {sl : Slice} (body : β → α → Memory α → Option (ForInStep β × Memory α))

/-- The rule of a range loop whose body leaves the arrays below `n` alone, the ranged one among
them. -/
theorem Slice.range_rule (hsl : sl.array<n) (P : List α → β → Memory α → Prop)
    (Q : β → Memory α → Prop) (hnil : ∀ b mem,P [] b mem → Q b mem)
    (hcons : ∀ x rest b mem,P (x::rest) b mem → ∃ next mem',body b x mem=some (next,mem') ∧
      Keeps n mem mem' ∧
      match next with
      | .yield b' => P rest b' mem'
      | .done b' => Q b' mem')
    (b : β) (mem : Memory α) (h : P (sl.read mem) b mem) :
    ∃ b' mem',sl.range body b mem=some (b',mem') ∧ Keeps n mem mem' ∧ Q b' mem' := by
  -- the elements from index `i` on are those the array held when the loop began
  suffices hloop : ∀ (rest : List α) (i : Nat) (b : β) (mem' : Memory α),Keeps n mem mem' →
      (sl.read mem).drop i=rest → P rest b mem' →
      ∃ b' mem'',sl.rangeFrom body rest.length i b mem'=some (b',mem'') ∧ Keeps n mem mem'' ∧
        Q b' mem'' by
    exact hloop (sl.read mem) 0 b mem (Keeps.refl n mem) rfl h
  intro rest
  induction rest with
  | nil =>
    intro i b mem' hk _ hp
    exact ⟨b,mem',rfl,hk,hnil b mem' hp⟩
  | cons x rest ih =>
    intro i b mem' hk hdrop hp
    have hx : sl.at? i mem'=some x := by
      rw [Slice.at?,hk.read sl hsl,← List.head?_drop,hdrop,List.head?_cons]
    obtain ⟨next,mem'',hbody,hk',hnext⟩ := hcons x rest b mem' hp
    simp only [length_cons,Slice.rangeFrom,hx,hbody,Option.bind_eq_bind,Option.bind_some]
    cases next with
    | yield b' =>
      refine ih (i+1) b' mem'' (hk.trans hk') ?_ hnext
      rw [← tail_drop,hdrop,tail_cons]
    | done b' => exact ⟨b',mem'',rfl,hk.trans hk',hnext⟩

end Cnmsql.Framework
