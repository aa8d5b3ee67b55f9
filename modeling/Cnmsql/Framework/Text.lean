import Mathlib.Algebra.Group.Nat.Defs
import Mathlib.Data.List.DropRight

namespace Cnmsql.Framework

open List

/-- Unicode's simple lower-case mapping: `Char.toLower` on ASCII, idempotent, and out of ASCII it
stays or gives a letter (the Kelvin sign `k`). -/
class CaseMapping where
  lower : Char → Char
  lower_idem : ∀ c,lower (lower c)=lower c
  lower_ascii : ∀ c,c.val<128 → lower c=c.toLower
  lower_letter : ∀ c,128≤c.val → (lower c).val<128 → (lower c).isLower=true

/-- The ASCII mapping, which leaves every other character alone. -/
instance : CaseMapping where
  lower := Char.toLower
  lower_idem c := by
    unfold Char.toLower
    split
    · rename_i h
      have h1 : c.val+32 ≥ 97 := by
        simp only [ge_iff_le,UInt32.le_iff_toNat_le,UInt32.toNat_add] at h ⊢
        have h2 := h.1
        have h3 := h.2
        simp at h2 h3
        simp
        omega
      split
      · rename_i h4
        exfalso
        have h5 := h4.2
        simp only [UInt32.le_iff_toNat_le] at h5 h1
        simp at h5 h1
        omega
      · rfl
    · rfl
  lower_ascii _ _ := rfl
  lower_letter c hc hl := by
    exfalso
    have he : c.toLower=c := by
      unfold Char.toLower
      split
      · rename_i h
        have h3 := h.2
        simp only [UInt32.le_iff_toNat_le] at h3 hc
        simp at h3 hc
        omega
      · rfl
    rw [he] at hl
    exact absurd hl (by simpa using hc)

section

variable [CaseMapping]

def toLower (s : String) : String := String.ofList (s.toList.map CaseMapping.lower)

@[simp] theorem toList_toLower (s : String) :
    (toLower s).toList=s.toList.map CaseMapping.lower := by
  simp [toLower]

theorem toLower_idem (s : String) : toLower (toLower s)=toLower s := by
  apply String.ext
  simp [CaseMapping.lower_idem]

/-- A character that is no lower-case letter is the image of itself alone. -/
theorem lower_eq_of_not_letter (c d : Char) (hd : d.val<128) (hl : d.isLower=false)
    (hu : d.isUpper=false) (h : CaseMapping.lower c=d) : c=d := by
  by_cases hc : c.val<128
  · rw [CaseMapping.lower_ascii c hc] at h
    unfold Char.toLower at h
    split at h
    · rename_i hr
      subst h
      exfalso
      revert hl
      delta Char.isLower
      simp only [Bool.eq_false_iff,ne_eq,Bool.and_eq_true,decide_eq_true_eq,not_and,
        ge_iff_le]
      have h2 := hr.1
      have h3 := hr.2
      simp only [UInt32.le_iff_toNat_le,ge_iff_le] at h2 h3 ⊢
      simp at h2 h3 ⊢
      omega
    · exact h
  · have := CaseMapping.lower_letter c (by simpa using hc) (h ▸ hd)
    rw [h,hl] at this
    exact absurd this (by simp)

end

def parseDigits (ds : List Char) : Option Nat :=
  if ds≠[] ∧ ds.all Char.isDigit then some (Nat.ofDigitChars 10 ds 0) else none

theorem parseDigits_toDigits (n : Nat) : parseDigits (Nat.toDigits 10 n)=some n := by
  have hd : (Nat.toDigits 10 n).all Char.isDigit=true := by
    rw [all_eq_true]
    intro c hc
    exact Nat.isDigit_of_mem_toDigits (by decide) (by decide) hc
  rw [parseDigits,if_pos ⟨Nat.toDigits_ne_nil,hd⟩,
    Nat.ofDigitChars_toDigits (by decide) (by decide)]

def maxInt64 : Nat := 9223372036854775807

/-- `strconv.ParseInt(s, 10, 64)`: an optional sign and decimal digits, in range. -/
def parseInt : List Char → Option Int
  | '+'::ds => (parseDigits ds).bind fun n => if n ≤ maxInt64 then some (n : Int) else none
  | '-'::ds => (parseDigits ds).bind fun n => if n ≤ maxInt64+1 then some (-n : Int) else none
  | ds => (parseDigits ds).bind fun n => if n ≤ maxInt64 then some (n : Int) else none

theorem parseInt_toDigits_eq (n : Nat) :
    parseInt (Nat.toDigits 10 n)=if n ≤ maxInt64 then some (n : Int) else none := by
  have hd := parseDigits_toDigits n
  have hdig : ∀ c∈Nat.toDigits 10 n, c.isDigit=true := fun c hc =>
    Nat.isDigit_of_mem_toDigits (by decide) (by decide) hc
  unfold parseInt
  split
  · rename_i ds he
    have := hdig '+' (by rw [he]; simp)
    simp at this
  · rename_i ds he
    have := hdig '-' (by rw [he]; simp)
    simp at this
  · rw [hd,Option.bind_some]

theorem parseInt_toDigits (n : Nat) (h : n ≤ maxInt64) :
    parseInt (Nat.toDigits 10 n)=some (n : Int) := by
  rw [parseInt_toDigits_eq,if_pos h]

theorem parseInt_le {s : List Char} {z : Int} (h : parseInt s=some z) :
    z≤(maxInt64 : Int) := by
  unfold parseInt at h
  split at h <;>
    (obtain ⟨n,hn,hz⟩ := Option.bind_eq_some_iff.mp h
     split at hz
     · simp only [Option.some.injEq] at hz
       omega
     · simp at hz)

/-- The value so far, `max` its bound; a failure says whether it ran out of range. -/
def parseUintLoop (max : Nat) : Nat → List Char → Except Bool Nat
  | n,[] => .ok n
  | n,c::cs =>
    if ¬c.isDigit then .error false
    else if max<10*n+(c.toNat - '0'.toNat) then .error true
    else parseUintLoop max (10*n+(c.toNat - '0'.toNat)) cs

/-- `strconv.ParseUint(s, 10, bits)`. -/
def parseUint (bits : Nat) (s : List Char) : Except String Nat :=
  let syntaxError := "strconv.ParseUint: parsing " ++ (String.ofList s).quote ++ ": invalid syntax"
  if s=[] then .error syntaxError
  else
    match parseUintLoop (2^bits-1) 0 s with
    | .ok n => .ok n
    | .error false => .error syntaxError
    | .error true =>
      .error ("strconv.ParseUint: parsing " ++ (String.ofList s).quote ++ ": value out of range")

theorem parseUintLoop_digits (max n : Nat) (cs : List Char) (hd : ∀ c∈cs,c.isDigit=true)
    (hle : Nat.ofDigitChars 10 cs n ≤ max) :
    parseUintLoop max n cs = .ok (Nat.ofDigitChars 10 cs n) := by
  induction cs generalizing n with
  | nil => simp [parseUintLoop]
  | cons c cs ih =>
    have hc := hd c (by simp)
    rw [Nat.ofDigitChars_cons] at hle ⊢
    have hmono : 10*n+(c.toNat - '0'.toNat) ≤
        Nat.ofDigitChars 10 cs (10*n+(c.toNat - '0'.toNat)) := by
      rw [Nat.ofDigitChars_eq_ofDigitChars_zero]
      have hmul := Nat.le_mul_of_pos_left (10*n+(c.toNat - '0'.toNat))
        (Nat.one_le_pow cs.length 10 (by decide))
      omega
    rw [parseUintLoop,if_neg (by simpa using hc),if_neg (by omega)]
    exact ih _ (fun d h => hd d (by simp [h])) hle

theorem parseUint_toDigits {bits n : Nat} (h : n<2^bits) :
    parseUint bits (Nat.toDigits 10 n) = .ok n := by
  have hval : Nat.ofDigitChars 10 (Nat.toDigits 10 n) 0=n :=
    Nat.ofDigitChars_toDigits (by decide) (by decide)
  have hloop := parseUintLoop_digits (2^bits-1) 0 (Nat.toDigits 10 n)
    (fun c hc => Nat.isDigit_of_mem_toDigits (by decide) (by decide) hc) (by rw [hval]; omega)
  simp only [parseUint,if_neg Nat.toDigits_ne_nil,hloop,hval]

theorem parseUintLoop_le (max n : Nat) (cs : List Char) (hn : n ≤ max) {v : Nat}
    (h : parseUintLoop max n cs = .ok v) : v ≤ max := by
  induction cs generalizing n with
  | nil =>
    cases h
    exact hn
  | cons c cs ih =>
    rw [parseUintLoop] at h
    split at h
    · cases h
    · split at h
      · cases h
      · exact ih _ (by omega) h

variable {s t : List Char}

theorem parseUint_lt {bits : Nat} {n : Nat} (h : parseUint bits s = .ok n) : n<2^bits := by
  unfold parseUint at h
  have hpos : 0<2^bits := Nat.two_pow_pos bits
  split at h
  · cases h
  · split at h
    · rename_i v hv
      cases h
      have := parseUintLoop_le _ 0 s (Nat.zero_le _) hv
      omega
    · cases h
    · cases h

theorem parseUintLoop_digit {max n v : Nat} {cs : List Char} (h : parseUintLoop max n cs = .ok v) :
    ∀ c∈cs, c.isDigit=true := by
  induction cs generalizing n with
  | nil => simp
  | cons c cs ih =>
    rw [parseUintLoop] at h
    split at h
    · cases h
    · rename_i hc
      split at h
      · cases h
      · rw [forall_mem_cons]
        exact ⟨by simpa using hc,ih h⟩

theorem digit_of_parseUint {bits n : Nat} (h : parseUint bits s = .ok n) :
    ∀ c∈s, c.isDigit=true := by
  unfold parseUint at h
  split at h
  · cases h
  · split at h
    · rename_i v hv
      exact parseUintLoop_digit hv
    · cases h
    · cases h

/-- The decimals of `v / 10 ^ prec` with their point, without trailing zeros. -/
def fracString (v prec : Nat) : String :=
  let digits := Nat.toDigits 10 (v % 10^prec)
  let padded := List.replicate (prec-digits.length) '0'++digits
  let kept := (padded.reverse.dropWhile (· == '0')).reverse
  if kept=[] then "" else String.ofList ('.'::kept)

/-- `time.Duration.String` of a number of nanoseconds. -/
def durationString (d : Int64) : String :=
  let u := d.toInt.natAbs
  let text :=
    if u=0 then "0s"
    else if u<1000 then toString u ++ "ns"
    else if u<1000000 then toString (u / 1000)++fracString u 3 ++ "µs"
    else if u<1000000000 then toString (u / 1000000)++fracString u 6 ++ "ms"
    else
      let secs := u / 1000000000
      let mins := secs / 60
      let hours := mins / 60
      (if hours=0 then "" else toString hours ++ "h") ++
        (if mins=0 then "" else toString (mins % 60) ++ "m") ++
        toString (secs % 60)++fracString u 9 ++ "s"
  if d.toInt<0 then "-" ++ text else text

/-- A non-negative duration to the second: halves go up, and the largest stands for what does not
fit. -/
def roundSecond (d : Int64) : Int64 :=
  let r := d.toInt % 1000000000
  if r+r<1000000000 then Int64.ofInt (d.toInt-r)
  else if d.toInt+1000000000-r≤Int64.maxValue.toInt then
    Int64.ofInt (d.toInt+1000000000-r)
  else Int64.maxValue

variable (sep : Char)

/-- `strings.Cut` at the first `sep`. -/
def cut (s : List Char) : List Char × List Char × Bool :=
  match s.dropWhile (·≠sep) with
  | [] => (s,[],false)
  | _::rest => (s.takeWhile (·≠sep),rest,true)

theorem cut_of_not_mem (s : List Char) (h : sep∉s) : cut sep s=(s,[], false) := by
  have hd : s.dropWhile (·≠sep)=[] := by
    rw [dropWhile_eq_nil_iff]
    intro c hc
    exact decide_eq_true (ne_of_mem_of_not_mem hc h)
  rw [cut,hd]

theorem cut_append (s t : List Char) (h : sep∉s) : cut sep (s++sep::t)=(s,t, true) := by
  have hall : ∀ c∈s, (decide (c≠sep))=true := by
    intro c hc
    exact decide_eq_true (ne_of_mem_of_not_mem hc h)
  have hd : (s++sep::t).dropWhile (·≠sep)=sep::t := by
    rw [dropWhile_append_of_pos hall]
    simp
  have ht : (s++sep::t).takeWhile (·≠sep)=s := by
    rw [takeWhile_append_of_pos hall]
    simp
  rw [cut,hd]
  simp only [ht]

theorem mem_splitOn {s piece : List Char} (h : piece∈s.splitOn sep) :
    sep∉piece ∧ piece ⊆ s := by
  induction hlen : s.length using Nat.strong_induction_on generalizing s with
  | _ n ih =>
    by_cases hsep : sep∈s
    · obtain ⟨before,after,rfl,hbefore⟩ := eq_append_cons_of_mem hsep
      rw [splitOn_append_cons_self_of_not_mem hbefore,mem_cons] at h
      rcases h with rfl | h
      · exact ⟨hbefore,subset_append_left _ _⟩
      · obtain ⟨hpiece,hsub⟩ := ih after.length (by simp [← hlen]; omega) h rfl
        exact ⟨hpiece,fun c hc => by simp [hsub hc]⟩
    · rw [splitOn_eq_singleton hsep,mem_singleton] at h
      rw [h]
      exact ⟨hsep,Subset.refl s⟩

theorem mem_intercalate (sep c : Char) (ls : List (List Char))
    (h : c∈[sep].intercalate ls) : c=sep ∨ ∃ l∈ls, c∈l := by
  induction ls with
  | nil => simp at h
  | cons l ls ih =>
    cases ls with
    | nil => exact .inr ⟨l,mem_cons_self,by simpa using h⟩
    | cons m ls =>
      rw [intercalate_cons_cons,mem_append,mem_append,mem_singleton] at h
      rcases h with (h | h) | h
      · exact .inr ⟨l,mem_cons_self,h⟩
      · exact .inl h
      · refine (ih h).imp_right ?_
        rintro ⟨x,hx,hc⟩
        exact ⟨x,mem_cons_of_mem _ hx,hc⟩

section

variable {α : Type} {w : List α}

/-- A word without the separator occurs on one side of it. -/
theorem infix_append_cons {c : α} (hc : c∉w) (a b : List α) :
    w <:+: a++c::b ↔ w <:+: a ∨ w <:+: b := by
  constructor
  · intro h
    rcases infix_append_iff.mp h with h | h | ⟨u,v,rfl,hu,hv⟩
    · exact .inl h
    · rcases infix_cons_iff.mp h with h | h
      · cases w with
        | nil => exact .inl nil_infix
        | cons x w =>
          obtain ⟨rfl,-⟩ := cons_prefix_cons.mp h
          simp at hc
      · exact .inr h
    · cases v with
      | nil =>
        rw [append_nil]
        exact .inl hu.isInfix
      | cons x v =>
        obtain ⟨rfl,-⟩ := cons_prefix_cons.mp hv
        simp at hc
  · rintro (h | h)
    · exact h.trans infix_append_left
    · exact h.trans ((suffix_cons c b).isInfix.trans infix_append_right)

theorem infix_append_of_disjoint {sep : List α} (hsep : ∀ c∈sep,c∉w) (hw : w≠[])
    (b : List α) : w <:+: sep++b ↔ w <:+: b := by
  induction sep with
  | nil => rfl
  | cons c sep ih =>
    rw [forall_mem_cons] at hsep
    have hsplit := infix_append_cons hsep.1 [] (sep++b)
    rw [nil_append,infix_nil,or_iff_right hw,ih hsep.2] at hsplit
    exact hsplit

theorem infix_intercalate {sep : List α} (hne : sep≠[]) (hsep : ∀ c∈sep,c∉w) (hw : w≠[])
    (parts : List (List α)) : w <:+: sep.intercalate parts ↔ ∃ t∈parts, w <:+: t := by
  obtain ⟨c,sep,rfl⟩ := exists_cons_of_ne_nil hne
  rw [forall_mem_cons] at hsep
  induction parts with
  | nil => simpa using hw
  | cons t parts ih =>
    cases parts with
    | nil => simp
    | cons t' parts =>
      rw [intercalate_cons_cons,append_assoc,cons_append,
        infix_append_cons hsep.1,infix_append_of_disjoint hsep.2 hw,ih]
      simp

variable {p : α → Bool} {s t : List α}

theorem dropWhile_prefix_dropWhile (h : s <+: t) : s.dropWhile p <+: t.dropWhile p := by
  obtain ⟨rest,rfl⟩ := h
  rw [dropWhile_append]
  split
  · rename_i hnil
    rw [isEmpty_iff.mp hnil]
    exact nil_prefix
  · exact prefix_append _ _

theorem rdropWhile_prefix_rdropWhile (h : s <+: t) : s.rdropWhile p <+: t.rdropWhile p := by
  obtain ⟨rest,rfl⟩ := h
  induction rest using List.reverseRecOn with
  | nil => exact (append_nil s).symm ▸ prefix_rfl
  | append_singleton rest c ih =>
    rw [← append_assoc,rdropWhile_concat]
    split
    · exact ih
    · rw [append_assoc]
      exact ( rdropWhile_prefix p s).trans (prefix_append _ _)

theorem takeWhile_prefix_takeWhile (h : s <+: t) : s.takeWhile p <+: t.takeWhile p := by
  obtain ⟨rest,rfl⟩ := h
  induction s with
  | nil => exact nil_prefix
  | cons c s ih =>
    rw [cons_append,takeWhile_cons,takeWhile_cons]
    split
    · exact cons_prefix_cons.mpr ⟨rfl,ih⟩
    · exact prefix_rfl

/-- All parts of a truncated text but the last are parts of the text; the last begins one. -/
theorem exists_splitOn [DecidableEq α] {sep : α} (h : s <+: t) :
    ∃ whole cut part rest,s.splitOn sep=whole++[cut] ∧ t.splitOn sep=whole++part::rest ∧
      cut <+: part := by
  obtain ⟨added,rfl⟩ := h
  induction hlen : s.length using Nat.strong_induction_on generalizing s with
  | _ n ih =>
    by_cases hs : sep∈s
    · obtain ⟨before,after,rfl,hbefore⟩ := eq_append_cons_of_mem hs
      obtain ⟨whole,cut,part,rest,hcut,hpart,hpre⟩ := ih after.length (by simp [← hlen]; omega) rfl
      refine ⟨before::whole,cut,part,rest,?_,?_,hpre⟩
      · rw [splitOn_append_cons_self_of_not_mem hbefore,hcut,cons_append]
      · rw [append_assoc,cons_append,splitOn_append_cons_self_of_not_mem hbefore,hpart,cons_append]
    · by_cases hadded : sep∈added
      · obtain ⟨before,after,rfl,hbefore⟩ := eq_append_cons_of_mem hadded
        refine ⟨[],s,s++before,after.splitOn sep,splitOn_eq_singleton hs,?_,prefix_append _ _⟩
        rw [← append_assoc,splitOn_append_cons_self_of_not_mem (by simp [hs,hbefore]),nil_append]
      · exact ⟨[],s,s++added,[],splitOn_eq_singleton hs,splitOn_eq_singleton (by simp [hs,hadded]),
          prefix_append _ _⟩

end

theorem parseDigits_prefix_zero (h : s <+: t) (ht : parseDigits t=some 0) {n : Nat}
    (hs : parseDigits s=some n) : n=0 := by
  obtain ⟨rest,rfl⟩ := h
  unfold parseDigits at ht hs
  split_ifs at ht hs
  simp only [Option.some.injEq] at ht hs
  have hsplit : Nat.ofDigitChars 10 (s++rest) 0=Nat.ofDigitChars 10 rest n := by
    rw [Nat.ofDigitChars_append,hs]
  rw [hsplit,Nat.ofDigitChars_eq_ofDigitChars_zero] at ht
  have hpow : 0<10^rest.length := Nat.pow_pos (by decide)
  have hzero : 10^rest.length*n=0 := by omega
  exact (Nat.mul_eq_zero.mp hzero).resolve_left (by omega)

/-- A number without its sign. -/
def unsigned : List Char → List Char
  | '+'::ds => ds
  | '-'::ds => ds
  | ds => ds

theorem parseDigits_unsigned {z : Int} (h : parseInt s=some z) :
    parseDigits (unsigned s)=some z.natAbs := by
  unfold parseInt at h
  unfold unsigned
  split at h
  all_goals
    obtain ⟨n,hn,hz⟩ := Option.bind_eq_some_iff.mp h
    split at hz
    · cases hz
      simpa using hn
    · cases hz

theorem isPrefix_unsigned (h : s <+: t) (hs : s≠[]) : unsigned s <+: unsigned t := by
  obtain ⟨c,s,rfl⟩ := exists_cons_of_ne_nil hs
  obtain ⟨rest,rfl⟩ := h
  by_cases hplus : c = '+'
  · subst hplus
    exact prefix_append _ _
  · by_cases hminus : c = '-'
    · subst hminus
      exact prefix_append _ _
    · have hself : ∀ l, unsigned (c::l)=c::l := by
        intro l
        unfold unsigned
        split
        · rename_i heq
          cases heq
          exact absurd rfl hplus
        · rename_i heq
          cases heq
          exact absurd rfl hminus
        · rfl
      rw [cons_append,hself,hself]
      exact prefix_append _ _

theorem parseInt_prefix_zero (h : s <+: t) (ht : parseInt t=some 0) {z : Int}
    (hs : parseInt s=some z) : z=0 := by
  have hne : s≠[] := by
    intro hnil
    subst hnil
    cases hs
  have hzero := parseDigits_prefix_zero (isPrefix_unsigned h hne) (parseDigits_unsigned ht)
    (parseDigits_unsigned hs)
  exact Int.natAbs_eq_zero.mp hzero

end Cnmsql.Framework
