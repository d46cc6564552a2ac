import Mathlib.Order.Basic

/-!
# Expiry — a store whose entries end

Every entry is written with the time it ends at.  A later write of the same key replaces value and
time.  Times are any order.
-/

namespace Reasoning

/-- The last write of each key: the value and the time it ends at. -/
def Expiring (κ ν τ : Type) : Type := κ → Option (ν × τ)

namespace Expiring

variable {κ ν τ : Type} {s : Expiring κ ν τ} {key k : κ}

def empty : Expiring κ ν τ := fun _ => none

section Set

variable [DecidableEq κ]

def set (s : Expiring κ ν τ) (key : κ) (value : ν) (ends : τ) : Expiring κ ν τ :=
  fun k => if k = key then some (value, ends) else s k

theorem set_self (s : Expiring κ ν τ) (key : κ) (value : ν) (ends : τ) :
    s.set key value ends key = some (value, ends) := if_pos rfl

theorem set_of_ne (hne : k ≠ key) (value : ν) (ends : τ) : s.set key value ends k = s k :=
  if_neg hne

def delete (s : Expiring κ ν τ) (key : κ) : Expiring κ ν τ := fun k => if k = key then none else s k

end Set

section Get

variable [LT τ] [DecidableLT τ]

def get (s : Expiring κ ν τ) (now : τ) (key : κ) : Option ν :=
  match s key with
  | some (value, ends) => if now < ends then some value else none
  | none => none

theorem get_congr {s' : Expiring κ ν τ} (h : s key = s' key) (now : τ) :
    s.get now key = s'.get now key := by
  simp only [get, h]

theorem get_eq_some_iff {now : τ} {value : ν} :
    s.get now key = some value ↔ ∃ ends, s key = some (value, ends) ∧ now < ends := by
  unfold get
  constructor
  · intro h
    split at h
    · rename_i v ends hkey
      obtain ⟨hlt, hvalue⟩ := Option.ite_none_right_eq_some.mp h
      exact ⟨ends, Option.some.inj hvalue ▸ hkey, hlt⟩
    · cases h
  · rintro ⟨ends, hkey, hlt⟩
    rw [hkey]
    exact if_pos hlt

variable [DecidableEq κ]

theorem get_set_of_ne (hne : k ≠ key) (value : ν) (ends now : τ) :
    (s.set key value ends).get now k = s.get now k :=
  get_congr (set_of_ne hne value ends) now

/-- What is read back under the key is what was written, if anything. -/
theorem get_set_self {value v : ν} {ends now : τ}
    (h : (s.set key value ends).get now key = some v) : v = value := by
  simp only [get, set_self, Option.ite_none_right_eq_some, Option.some.injEq] at h
  exact h.2.symm

theorem get_delete_self (s : Expiring κ ν τ) (key : κ) (now : τ) :
    (s.delete key).get now key = none := by
  simp only [get, delete, if_true]

theorem get_delete_of_ne (hne : k ≠ key) (now : τ) : (s.delete key).get now k = s.get now k :=
  get_congr (if_neg hne) now

omit [DecidableEq κ] in
theorem get_of_eq_none (h : s key = none) (now : τ) : s.get now key = none := by
  simp only [get, h]

end Get

section Order

variable [Preorder τ] [DecidableLT τ]

/-- What is there later was there before. -/
theorem get_mono {value : ν} {now later : τ} (hle : now ≤ later) (h : s.get later key = some value) :
    s.get now key = some value := by
  obtain ⟨ends, hkey, hlt⟩ := get_eq_some_iff.mp h
  exact get_eq_some_iff.mpr ⟨ends, hkey, lt_of_le_of_lt hle hlt⟩

end Order

/-! ## What a store keeps -/

/-- Up to the time `t`, the store has a value with `P` under `key`. -/
def Keeps [LE τ] (s : Expiring κ ν τ) (key : κ) (P : ν → Prop) (t : τ) : Prop :=
  ∃ value ends, s key = some (value, ends) ∧ P value ∧ t ≤ ends

variable {P : ν → Prop} {now t : τ}

instance [LE τ] [DecidableLE τ] [DecidablePred P] : Decidable (s.Keeps key P t) :=
  decidable_of_iff (∃ x ∈ s key, P x.1 ∧ t ≤ x.2) ⟨fun ⟨x, hx, h⟩ => ⟨x.1, x.2, hx, h⟩,
    fun ⟨value, ends, hx, h⟩ => ⟨(value, ends), hx, h⟩⟩

theorem Keeps.get [Preorder τ] [DecidableLT τ] (h : s.Keeps key P t) (hnow : now < t) :
    ∃ value, s.get now key = some value ∧ P value := by
  obtain ⟨value, ends, hkey, hvalue, hends⟩ := h
  refine ⟨value, ?_, hvalue⟩
  simp only [Expiring.get, hkey, if_pos (lt_of_lt_of_le hnow hends)]

variable [LE τ] [DecidableEq κ]

theorem keeps_set_self {value : ν} {ends : τ} (hvalue : P value) (hends : t ≤ ends) :
    (s.set key value ends).Keeps key P t :=
  ⟨value, ends, s.set_self key value ends, hvalue, hends⟩

theorem Keeps.set_of_ne (h : s.Keeps k P t) (hne : k ≠ key) (value : ν) (ends : τ) :
    (s.set key value ends).Keeps k P t := by
  obtain ⟨v, e, hkey, hv, he⟩ := h
  exact ⟨v, e, (Expiring.set_of_ne hne value ends).trans hkey, hv, he⟩

end Expiring

end Reasoning
