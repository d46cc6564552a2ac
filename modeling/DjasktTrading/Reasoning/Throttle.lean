import DjasktTrading.Reasoning.Expiry
import Mathlib.Algebra.Order.Ring.Nat
import Mathlib.Data.List.Basic

/-!
# Throttles — a key that is set only where there is none

Who finds a key sets it for a while and is let through; who finds one is not.  So the times at which
someone is let through lie apart, and an interval has room for few of them.
-/

namespace Reasoning

/-- Each time comes at least `gap` after the one before. -/
def Spaced (gap : ℕ) (times : List ℕ) : Prop := times.Pairwise fun s t => s + gap ≤ t

theorem Spaced.concat {gap now : ℕ} {times : List ℕ} (h : Spaced gap times)
    (hnow : ∀ t ∈ times, t + gap ≤ now) : Spaced gap (times ++ [now]) := by
  rw [Spaced, List.pairwise_append]
  exact ⟨h, List.pairwise_singleton _ _, by simpa using hnow⟩

/-- Times that lie apart are few. -/
theorem Spaced.length_mul_le {gap lo hi : ℕ} {times : List ℕ} (h : Spaced gap times)
    (hle : lo ≤ hi) (hlo : ∀ t ∈ times, lo ≤ t) (hhi : ∀ t ∈ times, t ≤ hi) :
    times.length * gap ≤ hi - lo + gap := by
  induction times generalizing lo with
  | nil => simp
  | cons s times ih =>
      obtain ⟨hnext, hrest⟩ := List.pairwise_cons.mp h
      have hs := hlo s List.mem_cons_self
      rw [List.length_cons, Nat.succ_mul]
      by_cases hroom : s + gap ≤ hi
      · have hfew := ih hrest hroom hnext fun t ht => hhi t (List.mem_cons_of_mem _ ht)
        omega
      · -- nothing fits after the first
        have hnone : times = [] := by
          refine List.eq_nil_iff_forall_not_mem.mpr fun t ht => hroom ?_
          exact (hnext t ht).trans (hhi t (List.mem_cons_of_mem _ ht))
        simp [hnone]

/-! ## What a throttle remembers -/

/-- The key lasts for `gap` after each of the times. -/
def Expiring.Remembers {κ ν : Type} (s : Expiring κ ν ℕ) (key : κ) (gap : ℕ) (times : List ℕ) : Prop :=
  ∀ t ∈ times, s.Keeps key (fun _ => True) (t + gap)

namespace Expiring.Remembers

variable {κ ν : Type} {s : Expiring κ ν ℕ} {key k : κ} {gap now : ℕ} {times : List ℕ}

/-- Where the key is not there, the gap is over. -/
theorem elapsed (h : s.Remembers key gap times) (hfree : s.get now key = none) :
    ∀ t ∈ times, t + gap ≤ now := by
  intro t ht
  by_contra hearly
  obtain ⟨value, hget, -⟩ := (h t ht).get (not_le.mp hearly)
  rw [hfree] at hget
  cases hget

variable [DecidableEq κ]

theorem set_self (h : s.Remembers key gap times) (hfree : s.get now key = none) (value : ν) :
    (s.set key value (now + gap)).Remembers key gap (times ++ [now]) := by
  have helapsed := h.elapsed hfree
  intro t ht
  refine keeps_set_self trivial ?_
  rcases List.mem_append.mp ht with ht | ht
  · have := helapsed t ht
    omega
  · rw [List.mem_singleton.mp ht]

theorem set_of_ne (h : s.Remembers key gap times) (hne : key ≠ k) (value : ν) (ends : ℕ) :
    (s.set k value ends).Remembers key gap times :=
  fun t ht => (h t ht).set_of_ne hne value ends

end Expiring.Remembers

end Reasoning
