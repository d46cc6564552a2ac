import DjasktTrading.Reasoning.Runs

/-!
# Latch — a value that is made under a lock

Who finds no value takes the lock, looks again, and makes the value if there is still none.  A value
may be dropped, with or without the lock, and is then made anew.  Looking is free; only who has looked
under the lock makes anything.
-/

namespace Reasoning

variable {α : Type*}

structure Latch (α : Type*) where
  value : Option α
  /-- who has the lock -/
  holder : Option ℕ
  /-- the holder has looked again and found nothing -/
  making : Bool
  /-- how many values have been made, and how often one was dropped -/
  made : ℕ
  dropped : ℕ

namespace Latch

def empty : Latch α := ⟨none, none, false, 0, 0⟩

inductive Event (α : Type*) where
  | acquire (i : ℕ)
  /-- the holder starts to make a value -/
  | make (i : ℕ)
  | set (i : ℕ) (value : α)
  /-- the holder leaves, with a value made or not -/
  | release (i : ℕ)
  | drop

def step (l : Latch α) : Event α → Option (Latch α)
  | .acquire i => if l.holder = none then some { l with holder := some i } else none
  | .make i =>
      if l.holder = some i ∧ l.value.isNone then some { l with making := true } else none
  | .set i value =>
      if l.holder = some i ∧ l.making then
        some { l with value := some value, making := false, made := l.made + 1 }
      else none
  | .release i => if l.holder = some i then some { l with holder := none, making := false } else none
  | .drop => some { l with value := none, dropped := l.dropped + 1 }

/-- A step of a party with what it does to the latch, if anything. -/
def act (l : Latch α) (e? : Option (Event α)) : Option (Latch α) :=
  match e? with
  | none => some l
  | some e => l.step e

section

variable {l l' : Latch α} {i : ℕ} {value : α}

theorem act_none_iff : l.act none = some l' ↔ l' = l := by
  simp [act, eq_comm (a := l')]

theorem step_acquire_iff :
    l.step (.acquire i) = some l' ↔ l.holder = none ∧ l' = { l with holder := some i } := by
  simp [step, eq_comm (a := l')]

theorem step_make_iff : l.step (.make i) = some l' ↔
    l.holder = some i ∧ l.value = none ∧ l' = { l with making := true } := by
  simp [step, eq_comm (a := l'), and_assoc]

theorem step_set_iff : l.step (.set i value) = some l' ↔
    l.holder = some i ∧ l.making = true ∧
      l' = { l with value := some value, making := false, made := l.made + 1 } := by
  simp [step, eq_comm (a := l'), and_assoc]

theorem step_release_iff : l.step (.release i) = some l' ↔
    l.holder = some i ∧ l' = { l with holder := none, making := false } := by
  simp [step, eq_comm (a := l')]

theorem step_drop_iff :
    l.step .drop = some l' ↔ l' = { l with value := none, dropped := l.dropped + 1 } := by
  simp [step, eq_comm (a := l')]

end

/-- While the holder makes a value there is none, and each but the first has been made for one that
was dropped. -/
structure Inv (l : Latch α) : Prop where
  held : l.making = true → l.holder.isSome
  unset : l.making = true → l.value = none
  made : l.made ≤ l.dropped + if l.value.isSome then 1 else 0

variable {l l' : Latch α} {e : Event α} {es : List (Event α)}

theorem inv_empty : (empty : Latch α).Inv := ⟨nofun, nofun, Nat.le_refl 0⟩

theorem Inv.step (h : l.Inv) (hstep : l.step e = some l') : l'.Inv := by
  cases e with
  | acquire i =>
      obtain ⟨-, rfl⟩ := step_acquire_iff.mp hstep
      exact ⟨fun _ => rfl, h.unset, h.made⟩
  | make i =>
      obtain ⟨hholder, hnone, rfl⟩ := step_make_iff.mp hstep
      exact ⟨fun _ => hholder ▸ rfl, fun _ => hnone, h.made⟩
  | set i value =>
      obtain ⟨-, hmaking, rfl⟩ := step_set_iff.mp hstep
      refine ⟨nofun, nofun, ?_⟩
      -- there was no value, so those that were made have been dropped
      have hmade := h.made
      rw [h.unset hmaking] at hmade
      simpa using hmade
  | release i =>
      obtain ⟨-, rfl⟩ := step_release_iff.mp hstep
      exact ⟨nofun, nofun, h.made⟩
  | drop =>
      obtain rfl := step_drop_iff.mp hstep
      refine ⟨h.held, fun _ => rfl, ?_⟩
      have hmade := h.made
      split at hmade <;> simp <;> omega

theorem Inv.of_run (hrun : Run Latch.step empty es l) : l.Inv :=
  hrun.invariant inv_empty fun _ _ _ h hstep => h.step hstep

theorem Inv.act (h : l.Inv) {e? : Option (Event α)} (hact : l.act e? = some l') : l'.Inv := by
  cases e? with
  | none => exact act_none_iff.mp hact ▸ h
  | some e => exact h.step hact

theorem made_le_of_act {e? : Option (Event α)} (hact : l.act e? = some l') : l.made ≤ l'.made := by
  cases e? with
  | none => exact act_none_iff.mp hact ▸ Nat.le_refl _
  | some e =>
      cases e with
      | acquire i => exact (step_acquire_iff.mp hact).2 ▸ Nat.le_refl _
      | make i => exact (step_make_iff.mp hact).2.2 ▸ Nat.le_refl _
      | set i value => exact (step_set_iff.mp hact).2.2 ▸ Nat.le_succ _
      | release i => exact (step_release_iff.mp hact).2 ▸ Nat.le_refl _
      | drop => exact step_drop_iff.mp hact ▸ Nat.le_refl _

/-- Where there is a value there was one before, or one has been made. -/
theorem made_lt_of_act {e? : Option (Event α)} (hact : l.act e? = some l')
    (hset : l'.value.isSome) : l.value.isSome ∨ l.made < l'.made := by
  cases e? with
  | none => exact .inl (act_none_iff.mp hact ▸ hset)
  | some e =>
      cases e with
      | acquire i =>
          obtain ⟨-, rfl⟩ := step_acquire_iff.mp hact
          exact .inl hset
      | make i =>
          obtain ⟨-, -, rfl⟩ := step_make_iff.mp hact
          exact .inl hset
      | set i value =>
          obtain ⟨-, -, rfl⟩ := step_set_iff.mp hact
          exact .inr (Nat.lt_succ_self _)
      | release i =>
          obtain ⟨-, rfl⟩ := step_release_iff.mp hact
          exact .inl hset
      | drop =>
          obtain rfl := step_drop_iff.mp hact
          cases hset

theorem dropped_of_act {e? : Option (Event α)} (hact : l.act e? = some l')
    (hkeeps : e? ≠ some .drop) : l'.dropped = l.dropped := by
  cases e? with
  | none => rw [act_none_iff.mp hact]
  | some e =>
      cases e with
      | acquire i => rw [(step_acquire_iff.mp hact).2]
      | make i => rw [(step_make_iff.mp hact).2.2]
      | set i value => rw [(step_set_iff.mp hact).2.2]
      | release i => rw [(step_release_iff.mp hact).2]
      | drop => exact absurd rfl hkeeps

/-- The event is of this party, or drops a value. -/
def Event.By (i : ℕ) : Event α → Prop
  | .acquire j => j = i
  | .make j => j = i
  | .set j _ => j = i
  | .release j => j = i
  | .drop => True

/-- Nobody but the holder changes what the holder is at. -/
theorem act_of_holder_ne {e? : Option (Event α)} {i j : ℕ} (hact : l.act e? = some l')
    (hby : ∀ e ∈ e?, e.By i) (hheld : l.holder = some j) (hij : i ≠ j) :
    l'.holder = some j ∧ l'.making = l.making := by
  have hother : l.holder ≠ some i := by
    rw [hheld]
    exact fun heq => hij (Option.some.inj heq).symm
  cases e? with
  | none =>
      obtain rfl := act_none_iff.mp hact
      exact ⟨hheld, rfl⟩
  | some e =>
      have hby : e.By i := hby e rfl
      cases e with
      | acquire k => exact absurd ((step_acquire_iff.mp hact).1.symm.trans hheld) nofun
      | make k => exact absurd (hby ▸ (step_make_iff.mp hact).1) hother
      | set k value => exact absurd (hby ▸ (step_set_iff.mp hact).1) hother
      | release k => exact absurd (hby ▸ (step_release_iff.mp hact).1) hother
      | drop =>
          obtain rfl := step_drop_iff.mp hact
          exact ⟨hheld, rfl⟩

/-- A value that has been made is not made again before it is dropped. -/
theorem Inv.made_le (h : l.Inv) : l.made ≤ l.dropped + 1 := by
  have hmade := h.made
  split at hmade <;> omega

/-- A value stays until it is dropped. -/
theorem Inv.value_of_step (h : l.Inv) (hstep : l.step e = some l') (hkeeps : e ≠ .drop) {value : α}
    (hvalue : l.value = some value) : l'.value = some value := by
  cases e with
  | acquire i =>
      obtain ⟨-, rfl⟩ := step_acquire_iff.mp hstep
      exact hvalue
  | make i =>
      obtain ⟨-, hnone, -⟩ := step_make_iff.mp hstep
      exact absurd (hnone.symm.trans hvalue) nofun
  | set i other =>
      obtain ⟨-, hmaking, -⟩ := step_set_iff.mp hstep
      exact absurd ((h.unset hmaking).symm.trans hvalue) nofun
  | release i =>
      obtain ⟨-, rfl⟩ := step_release_iff.mp hstep
      exact hvalue
  | drop => exact absurd rfl hkeeps

end Latch

end Reasoning
