import Mathlib.Algebra.Order.Round
import Mathlib.Data.Int.Log
import Mathlib.Data.Rat.Floor
import Mathlib.Tactic.Linarith
import Mathlib.Tactic.Positivity
import Mathlib.Tactic.FieldSimp
import Mathlib.Tactic.Ring
import Mathlib.Tactic.NormNum

/-!
# Rounding — decimal contexts and fixed-scale columns

Two roundings meet in fixed-point bookkeeping.  Arithmetic rounds every result to a number of
significant digits, ties to even; a fixed-scale column rounds every written value to the nearest
integer count of its unit, ties away from zero.  This file gives both, the few properties that hold
of every such arithmetic, and the exact cases in which rounding a sum or a difference agrees with
adding or subtracting the rounded operand.
-/

namespace Reasoning

/-! ## 1. Nearest integer, ties away from zero -/

/-- The nearest integer, ties away from zero. -/
def roundHalfAway (x : ℚ) : ℤ :=
  if 0 ≤ x then ⌊x + 1 / 2⌋ else -⌊-x + 1 / 2⌋

/-- `x` lies exactly halfway between two integers. -/
def IsTie (x : ℚ) : Prop := Int.fract x = 1 / 2

instance (x : ℚ) : Decidable (IsTie x) := inferInstanceAs (Decidable (Int.fract x = 1 / 2))

theorem isTie_iff (x : ℚ) : IsTie x ↔ x = ⌊x⌋ + 1 / 2 := by
  unfold IsTie Int.fract
  constructor <;> intro h <;> linarith

theorem isTie_add_half (k : ℤ) : IsTie (k + 1 / 2) := by
  unfold IsTie
  rw [Int.fract_intCast_add, Int.fract_eq_self]
  norm_num

theorem roundHalfAway_of_nonneg {x : ℚ} (hx : 0 ≤ x) : roundHalfAway x = ⌊x + 1 / 2⌋ :=
  if_pos hx

theorem roundHalfAway_neg (x : ℚ) : roundHalfAway (-x) = -roundHalfAway x := by
  unfold roundHalfAway
  by_cases hx : 0 ≤ x
  · by_cases hz : x = 0
    · subst hz
      decide +kernel
    · have hpos : 0 < x := lt_of_le_of_ne hx (Ne.symm hz)
      rw [if_neg (by linarith), if_pos hx, neg_neg]
  · rw [if_pos (by linarith), if_neg hx, neg_neg]

@[simp] theorem roundHalfAway_intCast (n : ℤ) : roundHalfAway n = n := by
  have aux (m : ℤ) : ⌊(m : ℚ) + 1 / 2⌋ = m := by
    rw [Int.floor_eq_iff]
    constructor <;> norm_num
  unfold roundHalfAway
  split
  · exact aux n
  · have h := aux (-n)
    push_cast at h
    rw [h, neg_neg]

theorem roundHalfAway_nonneg {x : ℚ} (hx : 0 ≤ x) : 0 ≤ roundHalfAway x := by
  rw [roundHalfAway_of_nonneg hx, Int.floor_nonneg]
  linarith

theorem abs_roundHalfAway_sub_le (x : ℚ) : |(roundHalfAway x : ℚ) - x| ≤ 1 / 2 := by
  have aux {y : ℚ} (hy : 0 ≤ y) : |(roundHalfAway y : ℚ) - y| ≤ 1 / 2 := by
    rw [roundHalfAway_of_nonneg hy, abs_le]
    have hle := Int.floor_le (y + 1 / 2)
    have hlt := Int.lt_floor_add_one (y + 1 / 2)
    constructor <;> linarith
  by_cases hx : 0 ≤ x
  · exact aux hx
  · have h := aux (y := -x) (by linarith)
    rw [roundHalfAway_neg] at h
    push_cast at h
    rwa [show -(roundHalfAway x : ℚ) - -x = -((roundHalfAway x : ℚ) - x) by ring, abs_neg] at h

/-- A count is reached from half a unit below it. -/
theorem succ_le_roundHalfAway_iff {x : ℚ} (hx : 0 ≤ x) (k : ℕ) :
    (k : ℤ) + 1 ≤ roundHalfAway x ↔ (k : ℚ) + 1 / 2 ≤ x := by
  rw [roundHalfAway_of_nonneg hx, Int.le_floor]
  push_cast
  constructor <;> intro h <;> linarith

theorem roundHalfAway_pos_iff {x : ℚ} (hx : 0 ≤ x) : 0 < roundHalfAway x ↔ 1 / 2 ≤ x := by
  have hone : (1 : ℤ) ≤ roundHalfAway x ↔ 1 / 2 ≤ x := by
    simpa using succ_le_roundHalfAway_iff hx 0
  exact hone

/-- No half-integer separates the two numbers. -/
def SameSide (x y : ℚ) : Prop := ∀ k : ℕ, (k : ℚ) + 1 / 2 ≤ x ↔ (k : ℚ) + 1 / 2 ≤ y

theorem SameSide.roundHalfAway_le {x y : ℚ} (h : SameSide x y) (hx : 0 ≤ x) (hy : 0 ≤ y) :
    roundHalfAway x ≤ roundHalfAway y := by
  obtain ⟨n, hn⟩ := Int.eq_ofNat_of_zero_le (roundHalfAway_nonneg hx)
  cases n with
  | zero =>
      rw [hn]
      exact roundHalfAway_nonneg hy
  | succ k =>
      have hreached : (k : ℤ) + 1 ≤ roundHalfAway x := by
        rw [hn]
        push_cast
        exact le_rfl
      rw [hn]
      exact (succ_le_roundHalfAway_iff hy k).mpr
        ((h k).mp ((succ_le_roundHalfAway_iff hx k).mp hreached))

/-- Two numbers are rounded to one exactly if no half-integer separates them. -/
theorem roundHalfAway_eq_iff {x y : ℚ} (hx : 0 ≤ x) (hy : 0 ≤ y) :
    roundHalfAway x = roundHalfAway y ↔ SameSide x y := by
  constructor
  · intro h k
    rw [← succ_le_roundHalfAway_iff hx, h, succ_le_roundHalfAway_iff hy]
  · intro h
    have hback : SameSide y x := fun k => (h k).symm
    exact le_antisymm (h.roundHalfAway_le hx hy) (hback.roundHalfAway_le hy hx)

/-- The nearest integer, ties down. -/
def roundHalfDown (x : ℚ) : ℤ := ⌈x - 1 / 2⌉

theorem abs_roundHalfDown_sub_le (x : ℚ) : |(roundHalfDown x : ℚ) - x| ≤ 1 / 2 := by
  have hle := Int.le_ceil (x - 1 / 2)
  have hlt := Int.ceil_lt_add_one (x - 1 / 2)
  unfold roundHalfDown
  rw [abs_le]
  constructor <;> linarith

@[simp] theorem roundHalfDown_intCast (n : ℤ) : roundHalfDown n = n := by
  unfold roundHalfDown
  rw [Int.ceil_eq_iff]
  constructor <;> norm_num

/-- An integer is added outside the rounding of a nonnegative number, and below zero, where the tie
goes the other way, it can only be less. -/
theorem roundHalfAway_intCast_add_le (n : ℤ) {x : ℚ} (hx : 0 ≤ x) :
    roundHalfAway (n + x) ≤ n + roundHalfAway x := by
  rw [roundHalfAway_of_nonneg hx]
  unfold roundHalfAway
  split
  · rw [add_assoc, Int.floor_intCast_add]
  · rw [← Int.ceil_neg, Int.ceil_le]
    have hlt := Int.lt_floor_add_one (x + 1 / 2)
    push_cast
    linarith

theorem roundHalfAway_intCast_add {n : ℤ} {x : ℚ} (hn : 0 ≤ n) (hx : 0 ≤ x) :
    roundHalfAway (n + x) = n + roundHalfAway x := by
  have hnq : (0 : ℚ) ≤ n := by exact_mod_cast hn
  rw [roundHalfAway_of_nonneg hx, roundHalfAway_of_nonneg (by positivity), add_assoc,
    Int.floor_intCast_add]

/-- Subtracted from an integer, a number that is rounded with the tie away is rounded with the tie
down. -/
theorem roundHalfAway_intCast_sub {n : ℤ} {x : ℚ} (hx : x ≤ n) :
    roundHalfAway (n - x) = n - roundHalfDown x := by
  unfold roundHalfDown
  rw [roundHalfAway_of_nonneg (by linarith), sub_add, sub_eq_add_neg (n : ℚ),
    Int.floor_intCast_add, Int.floor_neg, ← sub_eq_add_neg]

/-! ## 2. Rounding against addition and subtraction -/

/-- `y` is where an arithmetic may put the exact value `d`: on the same side of every half-integer
up to `bound`, or on it. -/
def KeepsHalves (bound : ℤ) (d y : ℚ) : Prop :=
  ∀ k : ℤ, |k| ≤ bound →
    ((k : ℚ) + 1 / 2 ≤ d → (k : ℚ) + 1 / 2 ≤ y) ∧ (d ≤ (k : ℚ) + 1 / 2 → y ≤ (k : ℚ) + 1 / 2)

/-- The half-integers around a nonnegative `d` enclose `y`. -/
theorem KeepsHalves.enclosed {bound k : ℤ} {d y : ℚ} (h : KeepsHalves bound d y)
    (hk : 0 ≤ k) (hkb : k ≤ bound) (hb : 1 ≤ bound)
    (hlo : (k : ℚ) - 1 / 2 ≤ d) (hhi : d ≤ (k : ℚ) + 1 / 2) :
    (k : ℚ) - 1 / 2 ≤ y ∧ y ≤ (k : ℚ) + 1 / 2 := by
  have hl := (h (k - 1) (by rw [abs_le]; omega)).1
  have hr := (h k (by rw [abs_le]; omega)).2
  push_cast at hl
  exact ⟨by have := hl (by linarith); linarith, hr hhi⟩

private theorem floor_add_half_eq {k : ℤ} {y : ℚ} (hlo : (k : ℚ) - 1 / 2 ≤ y)
    (hhi : y < (k : ℚ) + 1 / 2) : ⌊y + 1 / 2⌋ = k := by
  rw [Int.floor_eq_iff]
  constructor <;> linarith

private theorem not_isTie_of_between {k : ℤ} {y : ℚ} (hlo : (k : ℚ) - 1 / 2 < y)
    (hhi : y < (k : ℚ) + 1 / 2) : ¬ IsTie y := by
  rw [isTie_iff]
  intro he
  have h1 : (⌊y⌋ : ℚ) < k := by linarith
  have h2 : (k : ℚ) - 1 < ⌊y⌋ := by linarith
  have h1' : ⌊y⌋ < k := by exact_mod_cast h1
  have h2' : k - 1 < ⌊y⌋ := by exact_mod_cast h2
  omega

/-- Within half of `k`, a number is rounded to `k` unless it is at the upper end, one of the two ties. -/
private theorem floor_add_half_eq_iff {k : ℤ} {y : ℚ} {P : Prop} (hlo : (k : ℚ) - 1 / 2 ≤ y)
    (hhi : y ≤ (k : ℚ) + 1 / 2) (hlower : y = (k : ℚ) - 1 / 2 → ¬ P)
    (hupper : y = (k : ℚ) + 1 / 2 → P) : ⌊y + 1 / 2⌋ = k ↔ ¬ (IsTie y ∧ P) := by
  rcases lt_or_eq_of_le hhi with hhi | hhi
  · rw [floor_add_half_eq hlo hhi]
    simp only [true_iff, not_and]
    intro ht
    rcases lt_or_eq_of_le hlo with hlo | hlo
    · exact absurd ht (not_isTie_of_between hlo hhi)
    · exact hlower hlo.symm
  · have hne : ⌊y + 1 / 2⌋ ≠ k := by
      rw [hhi, show (k : ℚ) + 1 / 2 + 1 / 2 = ((k + 1 : ℤ) : ℚ) by push_cast; ring, Int.floor_intCast]
      omega
    simp only [hne, false_iff, not_not]
    exact ⟨hhi ▸ isTie_add_half k, hupper hhi⟩

/-- A sum written to a fixed-scale column moves the column by the rounded summand, unless the
arithmetic has lifted it onto a tie. -/
theorem roundHalfAway_add_iff {bound n : ℤ} {x y : ℚ} (hn : 0 ≤ n) (hx : 0 ≤ x)
    (hb : (n : ℚ) + x + 1 ≤ bound) (hy0 : 0 ≤ y) (hy : KeepsHalves bound (n + x) y) :
    roundHalfAway y = n + roundHalfAway x ↔ ¬ (IsTie y ∧ (n : ℚ) + x < y) := by
  set k := n + ⌊x + 1 / 2⌋ with hk
  have hle := Int.floor_le (x + 1 / 2)
  have hlt := Int.lt_floor_add_one (x + 1 / 2)
  have hkq : (k : ℚ) = n + ⌊x + 1 / 2⌋ := by rw [hk]; push_cast; ring
  have hfloor : 0 ≤ ⌊x + 1 / 2⌋ := by rw [Int.floor_nonneg]; linarith
  have hnq : (0 : ℚ) ≤ n := by exact_mod_cast hn
  have hkb : k ≤ bound := by
    have : (k : ℚ) ≤ bound := by linarith
    exact_mod_cast this
  have hb1 : (1 : ℤ) ≤ bound := by
    have : (1 : ℚ) ≤ bound := by linarith
    exact_mod_cast this
  -- `k` is the rounded sum; `y` stays within half of it, and can only miss by reaching the end
  obtain ⟨hlo, hhi⟩ := hy.enclosed (k := k) (by omega) hkb hb1 (by linarith) (by linarith)
  rw [roundHalfAway_of_nonneg hx, roundHalfAway_of_nonneg hy0, ← hk]
  exact floor_add_half_eq_iff hlo hhi (fun heq => not_lt.mpr (by linarith)) fun heq => by linarith

/-- A difference written to a fixed-scale column moves the column by the rounded subtrahend, unless
it falls on a tie that the arithmetic has not lowered it onto. -/
theorem roundHalfAway_sub_iff {bound n : ℤ} {x y : ℚ} (hx : 0 ≤ x) (hxn : x ≤ n)
    (hb : (n : ℚ) + 1 ≤ bound) (hy0 : 0 ≤ y) (hy : KeepsHalves bound (n - x) y) :
    roundHalfAway y = n - roundHalfAway x ↔ ¬ (IsTie y ∧ (n : ℚ) - x ≤ y) := by
  set k := n - ⌊x + 1 / 2⌋ with hk
  have hle := Int.floor_le (x + 1 / 2)
  have hlt := Int.lt_floor_add_one (x + 1 / 2)
  have hkq : (k : ℚ) = n - ⌊x + 1 / 2⌋ := by rw [hk]; push_cast; ring
  have hfloor : 0 ≤ ⌊x + 1 / 2⌋ := by rw [Int.floor_nonneg]; linarith
  have hk0 : 0 ≤ k := by
    have : (-1 : ℚ) < k := by linarith
    have : (-1 : ℤ) < k := by exact_mod_cast this
    omega
  have hnb : n < bound := by
    have : (n : ℚ) < bound := by linarith
    exact_mod_cast this
  -- here the upper end is where the exact difference may lie already
  obtain ⟨hlo, hhi⟩ := hy.enclosed hk0 (by omega) (by omega) (by linarith) (by linarith)
  rw [roundHalfAway_of_nonneg hx, roundHalfAway_of_nonneg hy0, ← hk]
  exact floor_add_half_eq_iff hlo hhi (fun heq => not_le.mpr (by linarith)) fun heq => by linarith

/-! ## 3. Arithmetic with a fixed number of significant digits -/

/-- The nearest integer to a nonnegative number, ties to even. -/
def halfEven (x : ℚ) : ℤ :=
  let n := ⌊x⌋
  if 2 * (x - n) < 1 ∨ (2 * (x - n) = 1 ∧ n % 2 = 0) then n else n + 1

theorem floor_le_halfEven (x : ℚ) : ⌊x⌋ ≤ halfEven x := by
  unfold halfEven
  dsimp only
  split <;> omega

theorem halfEven_le_floor_add_one (x : ℚ) : halfEven x ≤ ⌊x⌋ + 1 := by
  unfold halfEven
  dsimp only
  split <;> omega

@[simp] theorem halfEven_intCast (n : ℤ) : halfEven n = n := by
  unfold halfEven
  rw [Int.floor_intCast]
  norm_num

@[simp] theorem halfEven_zero : halfEven 0 = 0 := by
  simpa using halfEven_intCast 0

theorem halfEven_mono {x y : ℚ} (hxy : x ≤ y) : halfEven x ≤ halfEven y := by
  rcases lt_or_eq_of_le (Int.floor_le_floor hxy) with hlt | heq
  · have hx := halfEven_le_floor_add_one x
    have hy := floor_le_halfEven y
    omega
  · unfold halfEven
    dsimp only
    rw [heq]
    -- both lie in one unit interval: the larger one can only leave the lower end
    split_ifs with hcx hcy hcy <;> try omega
    push Not at hcx
    exfalso
    rcases hcy with hcy | ⟨hcy, heven⟩
    · linarith [hcx.1]
    · exact hcx.2 (by linarith [hcx.1]) heven

/-- A nonnegative number rounded to `digits` significant decimal digits. -/
def roundMagnitude (digits : ℕ) (x : ℚ) : ℚ :=
  let exponent := Int.log 10 x - (digits - 1)
  halfEven (x / 10 ^ exponent) * 10 ^ exponent

/-- Sign-and-magnitude rounding to `digits` significant decimal digits, ties to even. -/
def roundToDigits (digits : ℕ) (x : ℚ) : ℚ :=
  if 0 ≤ x then roundMagnitude digits x else -roundMagnitude digits (-x)

private theorem ten_zpow_pos (e : ℤ) : (0 : ℚ) < 10 ^ e := zpow_pos (by norm_num) e

theorem roundMagnitude_nonneg (digits : ℕ) {x : ℚ} (hx : 0 ≤ x) : 0 ≤ roundMagnitude digits x := by
  unfold roundMagnitude
  dsimp only
  have hp := ten_zpow_pos (Int.log 10 x - (digits - 1))
  have hf : 0 ≤ ⌊x / 10 ^ (Int.log 10 x - ((digits : ℤ) - 1))⌋ := by
    rw [Int.floor_nonneg]
    positivity
  have hh : (0 : ℚ) ≤ halfEven (x / 10 ^ (Int.log 10 x - ((digits : ℤ) - 1))) := by
    exact_mod_cast hf.trans (floor_le_halfEven _)
  positivity

/-- A number of the decade `10 ^ k` does not round below it. -/
theorem le_roundMagnitude {digits : ℕ} {x : ℚ} (hd : 0 < digits) (hx : 0 < x) :
    (10 : ℚ) ^ Int.log 10 x ≤ roundMagnitude digits x := by
  have hp := ten_zpow_pos (Int.log 10 x - (digits - 1))
  have hlog : (10 : ℚ) ^ Int.log 10 x ≤ x := Int.zpow_log_le_self (by norm_num) hx
  have hsplit : (10 : ℚ) ^ Int.log 10 x =
      ((10 ^ (digits - 1) : ℤ) : ℚ) * 10 ^ (Int.log 10 x - ((digits : ℤ) - 1)) := by
    push_cast
    rw [← zpow_natCast, ← zpow_add₀ (by norm_num), Nat.cast_sub hd]
    congr 1
    push_cast
    ring
  have hle : ((10 ^ (digits - 1) : ℤ) : ℚ) ≤ x / 10 ^ (Int.log 10 x - ((digits : ℤ) - 1)) := by
    rw [le_div_iff₀ hp, ← hsplit]
    exact hlog
  have hround := halfEven_mono hle
  rw [halfEven_intCast] at hround
  unfold roundMagnitude
  dsimp only
  conv_lhs => rw [hsplit]
  exact mul_le_mul_of_nonneg_right (by exact_mod_cast hround) hp.le

/-- A number of the decade `10 ^ k` does not round above the next one. -/
theorem roundMagnitude_le {digits : ℕ} {x : ℚ} :
    roundMagnitude digits x ≤ (10 : ℚ) ^ (Int.log 10 x + 1) := by
  have hp := ten_zpow_pos (Int.log 10 x - (digits - 1))
  have hlog : x < (10 : ℚ) ^ (Int.log 10 x + 1) := Int.lt_zpow_succ_log_self (by norm_num) x
  have hsplit : (10 : ℚ) ^ (Int.log 10 x + 1) =
      ((10 ^ digits : ℤ) : ℚ) * 10 ^ (Int.log 10 x - ((digits : ℤ) - 1)) := by
    push_cast
    rw [← zpow_natCast, ← zpow_add₀ (by norm_num)]
    congr 1
    ring
  have hle : x / 10 ^ (Int.log 10 x - ((digits : ℤ) - 1)) ≤ ((10 ^ digits : ℤ) : ℚ) := by
    rw [div_le_iff₀ hp, ← hsplit]
    exact hlog.le
  have hround := halfEven_mono hle
  rw [halfEven_intCast] at hround
  unfold roundMagnitude
  dsimp only
  conv_rhs => rw [hsplit]
  exact mul_le_mul_of_nonneg_right (by exact_mod_cast hround) hp.le

theorem roundMagnitude_mono {digits : ℕ} {x y : ℚ} (hd : 0 < digits) (hx : 0 ≤ x) (hxy : x ≤ y) :
    roundMagnitude digits x ≤ roundMagnitude digits y := by
  rcases lt_or_eq_of_le hx with hx | hx
  · rcases lt_or_eq_of_le (Int.log_mono_right (b := 10) hx hxy) with hlt | heq
    · calc
        roundMagnitude digits x ≤ (10 : ℚ) ^ (Int.log 10 x + 1) := roundMagnitude_le
        _ ≤ (10 : ℚ) ^ Int.log 10 y := zpow_le_zpow_right₀ (by norm_num) (by omega)
        _ ≤ roundMagnitude digits y := le_roundMagnitude hd (hx.trans_le hxy)
    · unfold roundMagnitude
      dsimp only
      rw [heq]
      have hp := ten_zpow_pos (Int.log 10 y - (digits - 1))
      have hh := halfEven_mono (div_le_div_of_nonneg_right hxy hp.le)
      exact mul_le_mul_of_nonneg_right (by exact_mod_cast hh) hp.le
  · subst hx
    have hz : roundMagnitude digits 0 = 0 := by
      simp [roundMagnitude]
    rw [hz]
    exact roundMagnitude_nonneg digits hxy

theorem roundToDigits_mono {digits : ℕ} (hd : 0 < digits) : Monotone (roundToDigits digits) := by
  intro x y hxy
  unfold roundToDigits
  by_cases hx : 0 ≤ x
  · rw [if_pos hx, if_pos (hx.trans hxy)]
    exact roundMagnitude_mono hd hx hxy
  · rw [if_neg hx]
    by_cases hy : 0 ≤ y
    · rw [if_pos hy]
      have h1 := roundMagnitude_nonneg digits (x := -x) (by linarith)
      have h2 := roundMagnitude_nonneg digits hy
      linarith
    · rw [if_neg hy]
      exact neg_le_neg (roundMagnitude_mono hd (by linarith) (by linarith))

/-- A number of at most `digits` digits rounds to itself. -/
theorem roundMagnitude_of_digits {digits : ℕ} {n : ℕ} {e : ℤ} (hd : 0 < digits) (hn : n ≤ 10 ^ digits) :
    roundMagnitude digits (n * 10 ^ e) = n * 10 ^ e := by
  rcases Nat.eq_zero_or_pos n with hz | hpos
  · subst hz
    simp [roundMagnitude]
  set x : ℚ := n * 10 ^ e with hx
  set k := Int.log 10 x - ((digits : ℤ) - 1) with hk
  have hxpos : 0 < x := mul_pos (by exact_mod_cast hpos) (ten_zpow_pos e)
  have hxle : x ≤ (10 : ℚ) ^ ((digits : ℤ) + e) := by
    rw [hx, zpow_add₀ (by norm_num), zpow_natCast]
    exact mul_le_mul_of_nonneg_right (by exact_mod_cast hn) (ten_zpow_pos e).le
  -- the scaled number is an integer, so the rounding leaves it alone
  obtain ⟨m, hm⟩ : ∃ m : ℤ, x / 10 ^ k = m := by
    rcases lt_or_eq_of_le hxle with hlt | heq
    · have hlog : Int.log 10 x < (digits : ℤ) + e :=
        (Int.lt_zpow_iff_log_lt (b := 10) (by norm_num) hxpos).mp (by exact_mod_cast hlt)
      refine ⟨n * 10 ^ (e - k).toNat, ?_⟩
      rw [hx, mul_div_assoc, ← zpow_sub₀ (by norm_num)]
      push_cast
      rw [← zpow_natCast, Int.toNat_of_nonneg (by omega)]
    · have hlog : Int.log 10 x = (digits : ℤ) + e := by
        rw [heq]
        exact_mod_cast Int.log_zpow (R := ℚ) (b := 10) (by norm_num) ((digits : ℤ) + e)
      refine ⟨10 ^ ((digits : ℤ) + e - k).toNat, ?_⟩
      rw [heq, ← zpow_sub₀ (by norm_num)]
      push_cast
      rw [← zpow_natCast, Int.toNat_of_nonneg (by omega)]
  unfold roundMagnitude
  dsimp only
  rw [← hk, hm, halfEven_intCast, ← hm, div_mul_cancel₀ _ (ten_zpow_pos k).ne']

theorem roundToDigits_of_digits {digits : ℕ} {n e : ℤ} (hd : 0 < digits) (hn : n.natAbs ≤ 10 ^ digits) :
    roundToDigits digits (n * 10 ^ e) = n * 10 ^ e := by
  have hp := ten_zpow_pos e
  unfold roundToDigits
  rcases Int.natAbs_eq n with hpos | hneg
  · have hcast : (n : ℚ) = n.natAbs := by rw [hpos]; simp
    rw [if_pos (by rw [hcast]; positivity), hcast]
    exact roundMagnitude_of_digits hd hn
  · have hcast : (n : ℚ) = -(n.natAbs : ℚ) := by rw [hneg]; simp
    by_cases hz : n.natAbs = 0
    · rw [hcast, hz]
      simpa using roundMagnitude_of_digits (n := 0) (e := e) hd (by positivity)
    · have hnpos : (0 : ℚ) < n.natAbs := by exact_mod_cast Nat.pos_of_ne_zero hz
      have hlt : (n : ℚ) * 10 ^ e < 0 := by
        rw [hcast, neg_mul, neg_lt_zero]
        positivity
      rw [if_neg (not_le.mpr hlt), hcast, neg_mul, neg_neg, roundMagnitude_of_digits hd hn]

/-- A decimal arithmetic of at least 28 significant digits: every result is rounded, never across
another result, and a number of 28 digits is kept. -/
structure DecimalContext where
  round : ℚ → ℚ
  mono : Monotone round
  fixes : ∀ n e : ℤ, n.natAbs ≤ 10 ^ 28 → round (n * 10 ^ e) = n * 10 ^ e

namespace DecimalContext

/-- The usual context: 28 significant digits, ties to even. -/
def prec28 : DecimalContext where
  round := roundToDigits 28
  mono := roundToDigits_mono (by norm_num)
  fixes _ _ hn := roundToDigits_of_digits (by norm_num) hn

/-- Arithmetic without rounding. -/
def exact : DecimalContext where
  round := id
  mono := monotone_id
  fixes _ _ _ := rfl

variable (ctx : DecimalContext)

@[simp] theorem round_zero : ctx.round 0 = 0 := by
  simpa using ctx.fixes 0 0 (by norm_num)

theorem round_nonneg {x : ℚ} (hx : 0 ≤ x) : 0 ≤ ctx.round x := by
  simpa using ctx.mono hx

/-- Halves of ten-thousandths are 28-digit numbers, so a context keeps every value on its side of
them. -/
theorem keepsHalves (d : ℚ) :
    KeepsHalves (10 ^ 20) (d * 10 ^ 4) (ctx.round d * 10 ^ 4) := by
  intro k hk
  have hfix : ctx.round (((k : ℚ) + 1 / 2) / 10 ^ 4) = ((k : ℚ) + 1 / 2) / 10 ^ 4 := by
    have h := ctx.fixes (10 * k + 5) (-5) (by rw [abs_le] at hk; omega)
    have he : ((10 * k + 5 : ℤ) : ℚ) * 10 ^ (-5 : ℤ) = ((k : ℚ) + 1 / 2) / 10 ^ 4 := by
      push_cast
      rw [zpow_neg]
      norm_num
      ring
    rwa [he] at h
  constructor <;> intro h
  · have hm := ctx.mono (a := ((k : ℚ) + 1 / 2) / 10 ^ 4) (b := d) (by linarith)
    rw [hfix] at hm
    linarith
  · have hm := ctx.mono (a := d) (b := ((k : ℚ) + 1 / 2) / 10 ^ 4) (by linarith)
    rw [hfix] at hm
    linarith

/-- What is not rounded to `10 ^ 16` was below it. -/
theorem abs_lt_of_round {x : ℚ} (h : |ctx.round x| < 10 ^ 16) : |x| < 10 ^ 16 := by
  have htop := ctx.fixes 1 16 (by norm_num)
  have hbottom := ctx.fixes (-1) 16 (by norm_num)
  norm_num at htop hbottom
  rw [abs_lt] at h ⊢
  constructor
  · by_contra hle
    have hmono := ctx.mono (not_lt.mp hle)
    norm_num at hmono
    linarith [h.1]
  · by_contra hle
    have hmono := ctx.mono (not_lt.mp hle)
    norm_num at hmono
    linarith [h.2]

/-- A number below `10 ^ 16` lies between two neighbours of twelve decimals, and both are kept. -/
theorem abs_round_sub_le {x : ℚ} (hx : |x| < 10 ^ 16) : |ctx.round x - x| ≤ 1 / 10 ^ 12 := by
  have hfixes : ∀ n : ℤ, n.natAbs ≤ 10 ^ 28 → ctx.round (n / 10 ^ 12) = n / 10 ^ 12 := by
    intro n hn
    have h := ctx.fixes n (-12) hn
    rwa [zpow_neg, ← div_eq_mul_inv, show (10 : ℚ) ^ (12 : ℤ) = 10 ^ 12 by norm_num] at h
  obtain ⟨hlo, hhi⟩ := abs_lt.mp hx
  have hfloor := Int.floor_le (x * 10 ^ 12)
  have hceil := Int.lt_floor_add_one (x * 10 ^ 12)
  have hbelow : -10 ^ 28 ≤ ⌊x * 10 ^ 12⌋ := by
    rw [Int.le_floor]
    push_cast
    linarith
  have habove : ⌊x * 10 ^ 12⌋ < 10 ^ 28 := by
    rw [Int.floor_lt]
    push_cast
    linarith
  have hleft := ctx.mono (a := ⌊x * 10 ^ 12⌋ / 10 ^ 12) (b := x)
    (by rw [div_le_iff₀ (by norm_num)]; exact hfloor)
  have hright := ctx.mono (a := x) (b := (⌊x * 10 ^ 12⌋ + 1 : ℤ) / 10 ^ 12)
    (by rw [le_div_iff₀ (by norm_num)]; push_cast; exact hceil.le)
  rw [hfixes _ (by omega)] at hleft hright
  push_cast at hright
  rw [div_le_iff₀ (by norm_num)] at hleft
  rw [le_div_iff₀ (by norm_num)] at hright
  rw [abs_le]
  constructor <;> linarith

end DecimalContext

end Reasoning
