import Mathlib.Data.List.Induction
import Mathlib.Data.Nat.Digits.Defs

/-!
# Hex — numbers written in base 16

The value of a text of hexadecimal digits, upper or lower case, leading zeros allowed.  Reading what
`Nat.toDigits 16` has written, behind any number of zeros, gives the number back.
-/

namespace Reasoning

/-- The value of one hexadecimal digit. -/
def hexValue? (c : Char) : Option ℕ :=
  if '0' ≤ c ∧ c ≤ '9' then some (c.toNat - '0'.toNat)
  else if 'a' ≤ c ∧ c ≤ 'f' then some (c.toNat - 'a'.toNat + 10)
  else if 'A' ≤ c ∧ c ≤ 'F' then some (c.toNat - 'A'.toNat + 10)
  else none

/-- The value of a text of digits, read from left to right behind `acc`. -/
def ofHexFrom? (acc : ℕ) : List Char → Option ℕ
  | [] => some acc
  | c :: cs => (hexValue? c).bind fun d => ofHexFrom? (16 * acc + d) cs

def ofHex? (cs : List Char) : Option ℕ := ofHexFrom? 0 cs

theorem ofHexFrom?_append (acc : ℕ) (cs ds : List Char) :
    ofHexFrom? acc (cs ++ ds) = (ofHexFrom? acc cs).bind fun n => ofHexFrom? n ds := by
  induction cs generalizing acc with
  | nil => rfl
  | cons c cs ih =>
      simp only [List.cons_append, ofHexFrom?, Option.bind_assoc]
      congr 1
      funext d
      exact ih (16 * acc + d)

theorem ofHexFrom?_replicate_zero (n : ℕ) : ofHexFrom? 0 (List.replicate n '0') = some 0 := by
  induction n with
  | zero => rfl
  | succ n ih =>
      rw [List.replicate_succ, ofHexFrom?, show hexValue? '0' = some 0 by rfl]
      exact ih

theorem hexValue?_digitChar {d : ℕ} (hd : d < 16) : hexValue? (Nat.digitChar d) = some d := by
  decide +revert

theorem digitChar_ne_dash {d : ℕ} (hd : d < 16) : Nat.digitChar d ≠ '-' := by
  decide +revert

/-- Reading the digits of a number gives the number. -/
theorem ofHex?_toDigits (n : ℕ) : ofHex? (Nat.toDigits 16 n) = some n := by
  induction n using Nat.strong_induction_on with
  | _ n ih =>
      rw [Nat.toDigits_eq_if (by decide)]
      split
      · rename_i hlt
        simp only [ofHex?, ofHexFrom?, hexValue?_digitChar hlt, Option.bind_some, Nat.mul_zero,
          Nat.zero_add]
      · rename_i hge
        have hdiv : n / 16 < n := Nat.div_lt_self (by omega) (by decide)
        have hmod : n % 16 < 16 := Nat.mod_lt n (by decide)
        have hread := ih (n / 16) hdiv
        unfold ofHex? at hread ⊢
        rw [ofHexFrom?_append, hread, Option.bind_some, ofHexFrom?, hexValue?_digitChar hmod,
          Option.bind_some, ofHexFrom?, Nat.div_add_mod]

theorem ofHex?_replicate_append (k n : ℕ) :
    ofHex? (List.replicate k '0' ++ Nat.toDigits 16 n) = some n := by
  rw [ofHex?, ofHexFrom?_append, ofHexFrom?_replicate_zero, Option.bind_some]
  exact ofHex?_toDigits n

theorem mem_toDigits {n : ℕ} {c : Char} (h : c ∈ Nat.toDigits 16 n) :
    ∃ d < 16, c = Nat.digitChar d := by
  induction n using Nat.strong_induction_on with
  | _ n ih =>
      rw [Nat.toDigits_eq_if (by decide)] at h
      split at h
      · rename_i hlt
        exact ⟨n, hlt, List.mem_singleton.mp h⟩
      · rcases List.mem_append.mp h with h | h
        · exact ih (n / 16) (Nat.div_lt_self (by omega) (by decide)) h
        · exact ⟨n % 16, Nat.mod_lt n (by decide), List.mem_singleton.mp h⟩

theorem dash_notMem_toDigits (n : ℕ) : '-' ∉ Nat.toDigits 16 n := by
  intro hmem
  obtain ⟨d, hd, hdash⟩ := mem_toDigits hmem
  exact digitChar_ne_dash hd hdash.symm

/-! ## One number, one text -/

theorem isUpper_iff {c : Char} : c.isUpper ↔ 65 ≤ c.toNat ∧ c.toNat ≤ 90 := by
  change decide (c.val ≥ 'A'.val ∧ c.val ≤ 'Z'.val) = true ↔ _
  rw [decide_eq_true_iff]
  exact Iff.rfl

/-- A digit that is not upper case is the one that `Nat.digitChar` writes. -/
theorem eq_digitChar_of_hexValue? {c : Char} {d : ℕ} (hupper : ¬ c.isUpper)
    (h : hexValue? c = some d) : d < 16 ∧ c = Nat.digitChar d := by
  -- a character in a block of the code table, by its distance from the first
  have hblock : ∀ {first last : Char} (k : ℕ), first ≤ c → c ≤ last →
      (∀ i, i ≤ last.toNat - first.toNat → i + k < 16 ∧
        Char.ofNat (first.toNat + i) = Nat.digitChar (i + k)) →
      c.toNat - first.toNat + k < 16 ∧ c = Nat.digitChar (c.toNat - first.toNat + k) := by
    intro first last k hfirst hlast htable
    have hle : first.toNat ≤ c.toNat := hfirst
    have hge : c.toNat ≤ last.toNat := hlast
    obtain ⟨hlt, heq⟩ := htable (c.toNat - first.toNat) (by omega)
    refine ⟨hlt, ?_⟩
    rw [← heq, Nat.add_sub_cancel' hle, Char.ofNat_toNat]
  unfold hexValue? at h
  split at h
  · rename_i hc
    cases h
    exact hblock 0 hc.1 hc.2 (by decide)
  · split at h
    · rename_i hc
      cases h
      exact hblock 10 hc.1 hc.2 (by decide)
    · split at h
      · rename_i hc
        refine absurd ?_ hupper
        have hfirst : 65 ≤ c.toNat := hc.1
        have hlast : c.toNat ≤ 70 := hc.2
        rw [isUpper_iff]
        omega
      · cases h

theorem ofHexFrom?_concat (acc : ℕ) (cs : List Char) (c : Char) :
    ofHexFrom? acc (cs ++ [c]) =
      (ofHexFrom? acc cs).bind fun n => (hexValue? c).map fun d => 16 * n + d := by
  rw [ofHexFrom?_append]
  congr 1
  funext n
  cases hvalue : hexValue? c with
  | none => simp only [ofHexFrom?, hvalue, Option.bind_none, Option.map_none]
  | some d => simp only [ofHexFrom?, hvalue, Option.bind_some, Option.map_some]

theorem hexValue?_lt {c : Char} {d : ℕ} (h : hexValue? c = some d) : d < 16 := by
  unfold hexValue? at h
  split at h
  · rename_i hc
    have hlast : c.toNat ≤ 57 := hc.2
    cases h
    simp only [Char.reduceToNat]
    omega
  · split at h
    · rename_i hc
      have hlast : c.toNat ≤ 102 := hc.2
      cases h
      simp only [Char.reduceToNat]
      omega
    · split at h
      · rename_i hc
        have hlast : c.toNat ≤ 70 := hc.2
        cases h
        simp only [Char.reduceToNat]
        omega
      · cases h

theorem ofHex?_lt {cs : List Char} {n : ℕ} (h : ofHex? cs = some n) : n < 16 ^ cs.length := by
  unfold ofHex? at h
  induction cs using List.reverseRec generalizing n with
  | nil =>
      obtain rfl := Option.some.inj h
      decide
  | append_singleton cs c ih =>
      rw [ofHexFrom?_concat] at h
      obtain ⟨m, hm, hlast⟩ := Option.bind_eq_some_iff.mp h
      obtain ⟨d, hd, rfl⟩ := Option.map_eq_some_iff.mp hlast
      have hfirst := ih hm
      have hdigit := hexValue?_lt hd
      rw [List.length_append, List.length_singleton, pow_succ]
      omega

/-- Two texts of one length without upper-case letters that stand for one number are the same. -/
theorem ofHex?_inj {cs ds : List Char} {n : ℕ} (hlen : cs.length = ds.length)
    (hcs : ∀ c ∈ cs, ¬ c.isUpper) (hds : ∀ d ∈ ds, ¬ d.isUpper) (hc : ofHex? cs = some n)
    (hd : ofHex? ds = some n) : cs = ds := by
  unfold ofHex? at hc hd
  induction cs using List.reverseRec generalizing ds n with
  | nil => exact (List.length_eq_zero_iff.mp hlen.symm).symm
  | append_singleton cs c ih =>
      rcases List.eq_nil_or_concat ds with rfl | ⟨ds, d, rfl⟩
      · simp at hlen
      · rw [List.concat_eq_append] at hlen hds hd ⊢
        rw [ofHexFrom?_concat] at hc hd
        obtain ⟨m, hm, hlast⟩ := Option.bind_eq_some_iff.mp hc
        obtain ⟨m', hm', hlast'⟩ := Option.bind_eq_some_iff.mp hd
        obtain ⟨v, hv, rfl⟩ := Option.map_eq_some_iff.mp hlast
        obtain ⟨v', hv', hsame⟩ := Option.map_eq_some_iff.mp hlast'
        obtain ⟨hlt, rfl⟩ := eq_digitChar_of_hexValue? (hcs c (by simp)) hv
        obtain ⟨hlt', rfl⟩ := eq_digitChar_of_hexValue? (hds d (by simp)) hv'
        -- quotient and remainder by 16
        obtain rfl : v = v' := by omega
        obtain rfl : m = m' := by omega
        rw [ih (by simpa using hlen) (fun c hc => hcs c (List.mem_append_left _ hc))
          (fun d hd => hds d (List.mem_append_left _ hd)) hm hm']

end Reasoning
