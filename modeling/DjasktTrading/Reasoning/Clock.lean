import Mathlib.Algebra.Order.Floor.Semiring

/-!
# Clocks — instants that are read in whole units

A deadline is a whole number of units.  What is left until it is counted from a reading that is
rounded down, so that what is put off by it, then or later, ends at the deadline or after it.
-/

namespace Reasoning

structure Clock (τ : Type) [LinearOrder τ] where
  start : τ
  instant : ℕ → τ
  units : τ → ℕ
  after : τ → ℕ → τ
  start_le : ∀ t, start ≤ t
  units_lt : ∀ {t n}, t < instant n → units t < n
  instant_le_after : ∀ {t t'}, t ≤ t' → ∀ n, instant n ≤ after t' (n - units t)

namespace Clock

/-- Instants in ticks, with `perUnit` ticks to the unit. -/
def ticks (perUnit : ℕ) : Clock ℕ where
  start := 0
  instant n := n * perUnit
  units t := t / perUnit
  after t n := t + n * perUnit
  start_le := Nat.zero_le
  units_lt h := Nat.div_lt_of_lt_mul (by rwa [mul_comm])
  instant_le_after {t t'} hle n := by
    have hread : t / perUnit * perUnit ≤ t := Nat.div_mul_le_self t perUnit
    rw [Nat.sub_mul]
    omega

/-- Instants in units, as numbers that have an integer part. -/
def ofFloor (R : Type) [Semiring R] [LinearOrder R] [IsStrictOrderedRing R] [CanonicallyOrderedAdd R]
    [FloorSemiring R] : Clock R where
  start := 0
  instant n := n
  units t := ⌊t⌋₊
  after t n := t + n
  start_le _ := zero_le
  units_lt h := (Nat.floor_lt zero_le).mpr h
  instant_le_after {t t'} hle n := by
    have hleft : n ≤ ⌊t⌋₊ + (n - ⌊t⌋₊) := by omega
    have hread : (⌊t⌋₊ : R) ≤ t' := (Nat.floor_le zero_le).trans hle
    calc (n : R) ≤ ((⌊t⌋₊ + (n - ⌊t⌋₊) : ℕ) : R) := Nat.cast_le.mpr hleft
      _ = ⌊t⌋₊ + (n - ⌊t⌋₊ : ℕ) := Nat.cast_add _ _
      _ ≤ t' + (n - ⌊t⌋₊ : ℕ) := by gcongr

end Clock

end Reasoning
