import Cnmsql.Framework.Text

namespace Cnmsql.Api

open Framework

inductive RetentionUnit where
  | day
  | week
  | month
  deriving DecidableEq

namespace RetentionUnit

def ofChar : Char → Option RetentionUnit
  | 'd' => some .day
  | 'w' => some .week
  | 'm' => some .month
  | _ => none

/-- `retentionUnitDuration`, in nanoseconds. -/
def nanos : RetentionUnit → Nat
  | .day => 24*3600*10^9
  | .week => 7*24*3600*10^9
  | .month => 30*24*3600*10^9

end RetentionUnit

/-- `retentionPolicyRe`: a positive integer and a unit. -/
def matchRetentionPolicy (policy : String) : Option (List Char × RetentionUnit) := do
  let unit ← policy.toList.getLast?.bind RetentionUnit.ofChar
  let digits := policy.toList.dropLast
  if digits≠[] ∧ digits.head?≠some '0' ∧ digits.all Char.isDigit then some (digits,unit) else none

/-- How long a backup may live, in nanoseconds. -/
def parseRetentionPolicy (policy : String) : Except String Int64 :=
  match matchRetentionPolicy policy with
  | none => .error ("invalid retention policy " ++ policy.quote ++
      ": want <n>\x7bd|w|m\x7d (e.g. 30d, 8w, 3m)")
  | some (digits,unit) =>
    match parseInt digits with
    | none => .error ("invalid retention policy " ++ policy.quote ++ ": strconv.Atoi: parsing " ++
        (String.ofList digits).quote ++ ": value out of range")
    | some n => .ok (Int64.ofInt n*Int64.ofNat unit.nanos)

def policyCount (digits : List Char) : Nat := Nat.ofDigitChars 10 digits 0

variable {policy : String} {digits : List Char} {unit : RetentionUnit}

theorem parseDigits_of_match (h : matchRetentionPolicy policy=some (digits,unit)) :
    parseDigits digits=some (policyCount digits) := by
  unfold matchRetentionPolicy at h
  obtain ⟨u,_,h⟩ := Option.bind_eq_some_iff.mp h
  simp only [Option.ite_none_right_eq_some,Option.some.injEq,Prod.mk.injEq] at h
  obtain ⟨⟨hne,_,hdigits⟩,rfl,rfl⟩ := h
  exact if_pos ⟨hne,hdigits⟩

/-- Accepted when the count fits an `int`; the window is the product modulo 64 bits. -/
theorem parseRetentionPolicy_eq_ok (h : matchRetentionPolicy policy=some (digits,unit)) (w : Int64) :
    parseRetentionPolicy policy = .ok w ↔ policyCount digits ≤ maxInt64 ∧
      w=Int64.ofNat (policyCount digits)*Int64.ofNat unit.nanos := by
  have hdigits := parseDigits_of_match h
  have hall : digits.all Char.isDigit=true := by
    unfold parseDigits at hdigits
    split at hdigits
    · rename_i hd
      exact hd.2
    · cases hdigits
  have hint : parseInt digits =
      if policyCount digits ≤ maxInt64 then some (policyCount digits : Int) else none := by
    have hsigned : ∀ c∈digits, c ≠ '+' ∧ c ≠ '-' := by
      intro c hc
      have hdigit := List.all_eq_true.mp hall c hc
      apply And.intro
      · intro hplus
        rw [hplus] at hdigit
        exact absurd hdigit (by decide)
      · intro hminus
        rw [hminus] at hdigit
        exact absurd hdigit (by decide)
    unfold parseInt
    split
    · exact absurd rfl (hsigned '+' List.mem_cons_self).1
    · exact absurd rfl (hsigned '-' List.mem_cons_self).2
    · rw [hdigits,Option.bind_some]
  simp only [parseRetentionPolicy,h,hint]
  by_cases hle : policyCount digits ≤ maxInt64
  · simp only [hle,if_true,true_and,Except.ok.injEq]
    exact eq_comm
  · simp [hle]

theorem toInt_window (n : Nat) (unit : RetentionUnit) :
    (Int64.ofNat n*Int64.ofNat unit.nanos).toInt=((n*unit.nanos : Nat) : Int).bmod (2^64) := by
  rw [← Int64.ofNat_mul,Int64.toInt_ofNat']
  rfl

end Cnmsql.Api
