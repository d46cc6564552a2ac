import Mathlib.Data.Rat.Defs

/-!
# Numerals — numeric strings of decimal arithmetic

A sign, then digits with at most one point and at most one exponent, or a name of an infinity or of a
NaN.  Texts are lists of characters, their letters in lower case.
-/

namespace Reasoning

/-- What a numeric string stands for. -/
inductive Numeral where
  | finite (value : ℚ)
  | infinity (negative : Bool)
  | nan
deriving DecidableEq

/-- The exponents that an arithmetic has: of the leading digit at most `top`, of the last at least
`bottom`. -/
structure ExponentRange where
  top : ℤ
  bottom : ℤ

/-! ## 1. Reading -/

def splitSign : List Char → Bool × List Char
  | '+' :: cs => (false, cs)
  | '-' :: cs => (true, cs)
  | cs => (false, cs)

def digits? (cs : List Char) : Option ℕ :=
  if cs ≠ [] ∧ cs.all Char.isDigit then some (Nat.ofDigitChars 10 cs 0) else none

/-- `e`, a sign and digits, or nothing. -/
def exponent? : List Char → Option ℤ
  | [] => some 0
  | 'e' :: cs =>
      let (negative, cs) := splitSign cs
      (digits? cs).map fun n => if negative then -n else n
  | _ => none

/-- Digits with a point, and an exponent. -/
def unsigned? (range : ExponentRange) (cs : List Char) : Option ℚ :=
  let mantissa := cs.takeWhile (· ≠ 'e')
  let whole := mantissa.takeWhile (· ≠ '.')
  let fraction := (mantissa.dropWhile (· ≠ '.')).drop 1
  (digits? (whole ++ fraction)).bind fun coefficient =>
    (exponent? (cs.dropWhile (· ≠ 'e'))).bind fun exponent =>
      let last := exponent - fraction.length
      let leading := last + (Nat.toDigits 10 coefficient).length - 1
      if leading ≤ range.top ∧ range.bottom ≤ last then some (coefficient * 10 ^ last) else none

/-- A name of a NaN, with the digits of its payload. -/
def IsNaN (cs : List Char) : Prop :=
  ("nan".toList <+: cs ∧ (cs.drop 3).all Char.isDigit) ∨
    ("snan".toList <+: cs ∧ (cs.drop 4).all Char.isDigit)

instance (cs : List Char) : Decidable (IsNaN cs) := inferInstanceAs (Decidable (_ ∨ _))

/-- The text behind the sign. -/
def signed? (range : ExponentRange) (negative : Bool) (body : List Char) : Option Numeral :=
  if body = "inf".toList ∨ body = "infinity".toList then some (.infinity negative)
  else if IsNaN body then some .nan
  else (unsigned? range body).map fun value => .finite (if negative then -value else value)

def numeral? (range : ExponentRange) (cs : List Char) : Option Numeral :=
  let (negative, body) := splitSign cs
  signed? range negative body

/-! ## 2. Names -/

/-- A positive infinity, by name. -/
def NamesInfinity (cs : List Char) : Prop :=
  ∃ sign ∈ ["", "+"], ∃ name ∈ ["inf", "infinity"], cs = sign.toList ++ name.toList

/-- A NaN, by name. -/
def NamesNaN (cs : List Char) : Prop :=
  ∃ sign ∈ ["", "+", "-"], ∃ name ∈ ["nan", "snan"], ∃ payload : List Char,
    payload.all Char.isDigit ∧ cs = sign.toList ++ name.toList ++ payload

theorem isNaN_iff {cs : List Char} :
    IsNaN cs ↔ ∃ name ∈ ["nan", "snan"], ∃ payload : List Char,
      payload.all Char.isDigit ∧ cs = name.toList ++ payload := by
  constructor
  · rintro (⟨⟨payload, rfl⟩, hpayload⟩ | ⟨⟨payload, rfl⟩, hpayload⟩)
    · exact ⟨"nan", by simp, payload, hpayload, rfl⟩
    · exact ⟨"snan", by simp, payload, hpayload, rfl⟩
  · rintro ⟨name, hname, payload, hpayload, rfl⟩
    simp only [List.mem_cons, List.not_mem_nil, or_false] at hname
    rcases hname with rfl | rfl
    · exact .inl ⟨List.prefix_append _ _, hpayload⟩
    · exact .inr ⟨List.prefix_append _ _, hpayload⟩

section

variable {range : ExponentRange} {negative negative' : Bool} {body : List Char}

theorem signed?_eq_infinity_iff :
    signed? range negative body = some (.infinity negative') ↔
      negative = negative' ∧ (body = "inf".toList ∨ body = "infinity".toList) := by
  unfold signed?
  split
  · rename_i hname
    simp only [Option.some.injEq, Numeral.infinity.injEq, hname, and_true]
  · rename_i hname
    simp only [hname, and_false, iff_false]
    split
    · nofun
    · cases unsigned? range body with
      | none => nofun
      | some value => nofun

theorem signed?_eq_nan_iff : signed? range negative body = some .nan ↔ IsNaN body := by
  unfold signed?
  split
  · rename_i hname
    rcases hname with rfl | rfl
    · exact iff_of_false nofun (by decide)
    · exact iff_of_false nofun (by decide)
  · split
    · rename_i hnan
      exact iff_of_true rfl hnan
    · rename_i hnan
      refine iff_of_false ?_ hnan
      cases unsigned? range body with
      | none => nofun
      | some value => nofun

/-- Whichever the sign, a numeral is what stands behind it. -/
theorem numeral?_cases (range : ExponentRange) (cs : List Char) :
    (∃ body, cs = '+' :: body) ∨ (∃ body, cs = '-' :: body) ∨
      numeral? range cs = signed? range false cs := by
  have hsign : (∃ body, cs = '+' :: body) ∨ (∃ body, cs = '-' :: body) ∨
      splitSign cs = (false, cs) := by
    unfold splitSign
    split
    · exact .inl ⟨_, rfl⟩
    · exact .inr (.inl ⟨_, rfl⟩)
    · exact .inr (.inr rfl)
  refine hsign.imp_right (Or.imp_right fun hbare => ?_)
  unfold numeral?
  rw [hbare]

theorem numeral?_eq_infinity_iff (range : ExponentRange) {cs : List Char} :
    numeral? range cs = some (.infinity false) ↔ NamesInfinity cs := by
  constructor
  · intro h
    have hnamed : ∀ {body : List Char} {sign : String}, sign ∈ ["", "+"] →
        signed? range false body = some (.infinity false) →
        NamesInfinity (sign.toList ++ body) := by
      intro body sign hsign hbody
      obtain ⟨-, rfl | rfl⟩ := signed?_eq_infinity_iff.mp hbody
      · exact ⟨sign, hsign, "inf", by simp, rfl⟩
      · exact ⟨sign, hsign, "infinity", by simp, rfl⟩
    rcases numeral?_cases range cs with ⟨body, rfl⟩ | ⟨body, rfl⟩ | hbare
    · exact @hnamed body "+" (by simp) h
    · -- a minus makes it the negative one
      obtain ⟨hfalse, -⟩ := signed?_eq_infinity_iff.mp h
      cases hfalse
    · rw [hbare] at h
      exact @hnamed cs "" (by simp) h
  · rintro ⟨sign, hsign, name, hname, rfl⟩
    simp only [List.mem_cons, List.not_mem_nil, or_false] at hsign hname
    rcases hsign with rfl | rfl
    · rcases hname with rfl | rfl
      · rfl
      · rfl
    · rcases hname with rfl | rfl
      · rfl
      · rfl

theorem numeral?_eq_nan_iff (range : ExponentRange) {cs : List Char} :
    numeral? range cs = some .nan ↔ NamesNaN cs := by
  constructor
  · intro h
    have hnamed : ∀ {body : List Char} {sign : String} {negative : Bool}, sign ∈ ["", "+", "-"] →
        signed? range negative body = some .nan → NamesNaN (sign.toList ++ body) := by
      intro body sign negative hsign hbody
      obtain ⟨name, hname, payload, hpayload, rfl⟩ := isNaN_iff.mp (signed?_eq_nan_iff.mp hbody)
      exact ⟨sign, hsign, name, hname, payload, hpayload, (List.append_assoc ..).symm⟩
    rcases numeral?_cases range cs with ⟨body, rfl⟩ | ⟨body, rfl⟩ | hbare
    · exact @hnamed body "+" false (by simp) h
    · exact @hnamed body "-" true (by simp) h
    · rw [hbare] at h
      exact @hnamed cs "" false (by simp) h
  · rintro ⟨sign, hsign, name, hname, payload, hpayload, rfl⟩
    have hnan : ∀ {negative : Bool}, signed? range negative (name.toList ++ payload) = some .nan :=
      signed?_eq_nan_iff.mpr (isNaN_iff.mpr ⟨name, hname, payload, hpayload, rfl⟩)
    simp only [List.mem_cons, List.not_mem_nil, or_false] at hsign hname
    rcases hsign with rfl | rfl | rfl
    · -- neither name begins with a sign
      rcases hname with rfl | rfl
      · exact hnan
      · exact hnan
    · exact hnan
    · exact hnan

end

end Reasoning
