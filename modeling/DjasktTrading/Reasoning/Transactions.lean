import Mathlib.Data.List.Basic

/-!
# Transactions — computations that read a database and leave a list of writes

A computation sees the database together with its own earlier writes, and what it writes is kept
even when it raises; `atomic` is what discards the writes of a computation that raises.  Keeping
the writes apart from the database is what lets a statement of an open transaction be run against a
database that others have committed to in the meantime.
-/

namespace Reasoning

/-- A database type `σ` whose contents change by writes `ω`. -/
class Writable (σ : Type) (ω : outParam Type) where
  apply : σ → ω → σ

variable {σ ω ε α β : Type}

section Writes

variable [Writable σ ω]

/-- The database after a list of writes, first write first. -/
def applyAll (db : σ) (ws : List ω) : σ := ws.foldl Writable.apply db

@[simp] theorem applyAll_nil (db : σ) : applyAll db ([] : List ω) = db := rfl

@[simp] theorem applyAll_cons (db : σ) (w : ω) (ws : List ω) :
    applyAll db (w :: ws) = applyAll (Writable.apply db w) ws := rfl

@[simp] theorem applyAll_append (db : σ) (ws vs : List ω) :
    applyAll db (ws ++ vs) = applyAll (applyAll db ws) vs := List.foldl_append

end Writes

/-- A computation over a database: it returns or raises, and leaves its writes either way. -/
def Tx (σ ω ε α : Type) : Type := σ → Except ε α × List ω

namespace Tx

/-- The value of the database's current contents under `f`. -/
def read (f : σ → α) : Tx σ ω ε α := fun db => (.ok (f db), [])

def write (w : ω) : Tx σ ω ε Unit := fun _ => (.ok (), [w])

def ofExcept (r : Except ε α) : Tx σ ω ε α := fun _ => (r, [])

def raise (e : ε) : Tx σ ω ε α := ofExcept (.error e)

/-- Keep the writes of `m` if it returns, discard them if it raises. -/
def atomic (m : Tx σ ω ε α) : Tx σ ω ε α := fun db =>
  match m db with
  | (.ok a, ws) => (.ok a, ws)
  | (.error e, _) => (.error e, [])

theorem read_apply (f : σ → α) (db : σ) : (read f : Tx σ ω ε α) db = (.ok (f db), []) := rfl

theorem write_apply (w : ω) (db : σ) : (write w : Tx σ ω ε Unit) db = (.ok (), [w]) := rfl

theorem ofExcept_apply (r : Except ε α) (db : σ) : (ofExcept r : Tx σ ω ε α) db = (r, []) := rfl

theorem raise_apply (e : ε) (db : σ) : (raise e : Tx σ ω ε α) db = (.error e, []) := rfl

theorem atomic_eq_ok_iff {m : Tx σ ω ε α} {db : σ} {a : α} {ws : List ω} :
    atomic m db = (.ok a, ws) ↔ m db = (.ok a, ws) := by
  unfold atomic
  split
  · rename_i h
    rw [h]
  · rename_i h
    rw [h]
    simp

/-- An `atomic` computation that raises leaves no writes. -/
theorem atomic_of_error {m : Tx σ ω ε α} {db : σ} {e : ε} {ws : List ω}
    (h : m db = (.error e, ws)) : atomic m db = (.error e, []) := by
  simp only [atomic, h]

variable [Writable σ ω]

/-- The outcome of `m` on `db` and the database it leaves. -/
def run (m : Tx σ ω ε α) (db : σ) : Except ε α × σ := ((m db).1, applyAll db (m db).2)

instance : Monad (Tx σ ω ε) where
  pure a := fun _ => (.ok a, [])
  bind m f := fun db =>
    match m db with
    | (.ok a, ws) => ((f a (applyAll db ws)).1, ws ++ (f a (applyAll db ws)).2)
    | (.error e, ws) => (.error e, ws)

theorem pure_apply (a : α) (db : σ) : (pure a : Tx σ ω ε α) db = (.ok a, []) := rfl

theorem bind_apply_of_ok {m : Tx σ ω ε α} {f : α → Tx σ ω ε β} {db : σ} {a : α} {ws : List ω}
    (h : m db = (.ok a, ws)) :
    (m >>= f) db = ((f a (applyAll db ws)).1, ws ++ (f a (applyAll db ws)).2) := by
  simp only [bind, h]

theorem bind_apply_of_error {m : Tx σ ω ε α} {f : α → Tx σ ω ε β} {db : σ} {e : ε} {ws : List ω}
    (h : m db = (.error e, ws)) : (m >>= f) db = (.error e, ws) := by
  simp only [bind, h]

/-- Putting a returning step before a computation. -/
theorem bind_eq {m : Tx σ ω ε α} {f : α → Tx σ ω ε β} {db : σ} {a : α} {r : Except ε β}
    {ws vs : List ω} (hm : m db = (.ok a, ws)) (hf : f a (applyAll db ws) = (r, vs)) :
    (m >>= f) db = (r, ws ++ vs) := by
  rw [bind_apply_of_ok hm, hf]

theorem read_bind (f : σ → α) (g : α → Tx σ ω ε β) (db : σ) :
    (read f >>= g) db = g (f db) db := by
  rw [bind_apply_of_ok (read_apply f db)]
  rfl

theorem ofExcept_bind_ok (a : α) (g : α → Tx σ ω ε β) (db : σ) :
    (ofExcept (.ok a) >>= g) db = g a db := by
  rw [bind_apply_of_ok (ofExcept_apply _ db)]
  rfl

theorem ofExcept_bind_error (e : ε) (g : α → Tx σ ω ε β) (db : σ) :
    (ofExcept (.error e) >>= g) db = (.error e, []) :=
  bind_apply_of_error (ofExcept_apply _ db)

instance : LawfulMonad (Tx σ ω ε) := LawfulMonad.mk' _
  (by
    intro α m
    funext db
    rcases hm : m db with ⟨_ | a, ws⟩
    · exact (bind_apply_of_error hm : (id <$> m) db = _)
    · have hpure : (id <$> m) db = (.ok a, ws ++ []) := bind_apply_of_ok hm
      rw [hpure, List.append_nil])
  (by
    intro α β a f
    funext db
    exact (bind_apply_of_ok (pure_apply a db)).trans (by simp))
  (by
    intro α β γ m f g
    funext db
    rcases hm : m db with ⟨_ | a, ws⟩
    · rw [bind_apply_of_error hm, bind_apply_of_error (bind_apply_of_error hm)]
    · rcases hf : f a (applyAll db ws) with ⟨e | b, vs⟩
      · have hmf : (m >>= f) db = (.error e, ws ++ vs) := by rw [bind_apply_of_ok hm, hf]
        rw [bind_apply_of_error hmf, bind_apply_of_ok hm, bind_apply_of_error hf]
      · have hmf : (m >>= f) db = (.ok b, ws ++ vs) := by rw [bind_apply_of_ok hm, hf]
        rw [bind_apply_of_ok hmf, bind_apply_of_ok hm, bind_apply_of_ok hf, applyAll_append,
          List.append_assoc])

/-- Taking a returning sequence apart. -/
theorem bind_eq_ok_iff {m : Tx σ ω ε α} {f : α → Tx σ ω ε β} {db : σ} {b : β} {us : List ω} :
    (m >>= f) db = (.ok b, us) ↔
      ∃ a ws vs, m db = (.ok a, ws) ∧ f a (applyAll db ws) = (.ok b, vs) ∧ us = ws ++ vs := by
  rcases hm : m db with ⟨_ | a, ws⟩
  · rw [bind_apply_of_error hm]
    simp
  · rw [bind_apply_of_ok hm]
    constructor
    · intro h
      obtain ⟨h1, h2⟩ := Prod.mk.inj h
      exact ⟨a, ws, _, rfl, Prod.ext h1 rfl, h2.symm⟩
    · rintro ⟨a', ws', vs, h, hf, rfl⟩
      obtain ⟨h1, rfl⟩ := Prod.mk.inj h
      obtain rfl := Except.ok.inj h1
      rw [hf]

theorem ofExcept_bind_eq_ok_iff {r : Except ε α} {g : α → Tx σ ω ε β} {db : σ} {b : β}
    {ws : List ω} :
    (ofExcept r >>= g) db = (.ok b, ws) ↔ ∃ a, r = .ok a ∧ g a db = (.ok b, ws) := by
  cases r with
  | error e =>
      rw [ofExcept_bind_error]
      simp
  | ok a =>
      rw [ofExcept_bind_ok]
      simp

theorem write_bind_eq_ok_iff {w : ω} {g : Unit → Tx σ ω ε β} {db : σ} {b : β} {ws : List ω} :
    (write w >>= g) db = (.ok b, ws) ↔
      ∃ vs, g () (Writable.apply db w) = (.ok b, vs) ∧ ws = w :: vs := by
  rw [bind_apply_of_ok (write_apply w db), Prod.mk.injEq]
  change _ ∧ w :: (g () (Writable.apply db w)).2 = ws ↔ _
  constructor
  · intro h
    exact ⟨_, Prod.ext h.1 rfl, h.2.symm⟩
  · rintro ⟨vs, hg, rfl⟩
    exact ⟨congrArg Prod.fst hg, congrArg (w :: Prod.snd ·) hg⟩

theorem pure_eq_ok_iff {a b : α} {db : σ} {ws : List ω} :
    (pure a : Tx σ ω ε α) db = (.ok b, ws) ↔ a = b ∧ ws = [] := by
  rw [pure_apply, Prod.mk.injEq, Except.ok.injEq]
  exact and_congr_right fun _ => eq_comm

omit [Writable σ ω] in
theorem raise_ne_ok {e : ε} {db : σ} {b : β} {ws : List ω} :
    (raise e : Tx σ ω ε β) db ≠ (.ok b, ws) := by
  simp [raise_apply]

/-! ## What a computation depends on -/

/-- A relation between databases that every write preserves. -/
def Stable (R : σ → σ → Prop) : Prop :=
  ∀ db db' (w : ω), R db db' → R (Writable.apply db w) (Writable.apply db' w)

/-- `m` cannot tell `R`-related databases apart. -/
def DependsOn (R : σ → σ → Prop) (m : Tx σ ω ε α) : Prop :=
  ∀ db db', R db db' → m db = m db'

variable {R : σ → σ → Prop}

theorem Stable.applyAll (hR : Stable R) {db db' : σ} (h : R db db') (ws : List ω) :
    R (applyAll db ws) (applyAll db' ws) := by
  induction ws generalizing db db' with
  | nil => exact h
  | cons w ws ih => exact ih (hR db db' w h)

theorem dependsOn_pure (a : α) : DependsOn R (pure a : Tx σ ω ε α) := fun _ _ _ => rfl

omit [Writable σ ω] in
theorem dependsOn_ofExcept (r : Except ε α) : DependsOn R (ofExcept r : Tx σ ω ε α) :=
  fun _ _ _ => rfl

omit [Writable σ ω] in
theorem dependsOn_raise (e : ε) : DependsOn R (raise e : Tx σ ω ε α) := fun _ _ _ => rfl

omit [Writable σ ω] in
theorem dependsOn_write (w : ω) : DependsOn R (write w : Tx σ ω ε Unit) := fun _ _ _ => rfl

omit [Writable σ ω] in
theorem dependsOn_read {f : σ → α} (hf : ∀ db db', R db db' → f db = f db') :
    DependsOn R (read f : Tx σ ω ε α) := by
  intro db db' h
  rw [read_apply, read_apply, hf db db' h]

/-- It is enough that the continuation depends on `R` after the values that `m` can return. -/
theorem DependsOn.bind_of_returns (hR : Stable R) {m : Tx σ ω ε α} {f : α → Tx σ ω ε β}
    (hm : DependsOn R m) (hf : ∀ db a ws, m db = (.ok a, ws) → DependsOn R (f a)) :
    DependsOn R (m >>= f) := by
  intro db db' h
  have he := hm db db' h
  rcases hdb : m db with ⟨_ | a, ws⟩
  · rw [bind_apply_of_error hdb, bind_apply_of_error (he ▸ hdb)]
  · rw [bind_apply_of_ok hdb, bind_apply_of_ok (he ▸ hdb), hf db a ws hdb _ _ (hR.applyAll h ws)]

theorem DependsOn.bind (hR : Stable R) {m : Tx σ ω ε α} {f : α → Tx σ ω ε β}
    (hm : DependsOn R m) (hf : ∀ a, DependsOn R (f a)) : DependsOn R (m >>= f) :=
  hm.bind_of_returns hR fun _ a _ _ => hf a

omit [Writable σ ω] in
theorem DependsOn.mono {R' : σ → σ → Prop} {m : Tx σ ω ε α} (hm : DependsOn R m)
    (h : ∀ db db', R' db db' → R db db') : DependsOn R' m :=
  fun db db' hr => hm db db' (h db db' hr)

omit [Writable σ ω] in
theorem DependsOn.atomic {m : Tx σ ω ε α} (hm : DependsOn R m) : DependsOn R (atomic m) := by
  intro db db' h
  simp only [Tx.atomic, hm db db' h]

/-! ## Computations that leave nothing when they raise -/

/-- Whenever `m` raises, it has written nothing. -/
def Clean (m : Tx σ ω ε α) : Prop := ∀ db e ws, m db = (.error e, ws) → ws = []

/-- `m` writes nothing at all. -/
def Silent (m : Tx σ ω ε α) : Prop := ∀ db, (m db).2 = []

omit [Writable σ ω] in
theorem silent_ofExcept (r : Except ε α) : Silent (ofExcept r : Tx σ ω ε α) := fun _ => rfl

omit [Writable σ ω] in
theorem silent_read (f : σ → α) : Silent (read f : Tx σ ω ε α) := fun _ => rfl

theorem clean_pure (a : α) : Clean (pure a : Tx σ ω ε α) := by
  intro db e ws h
  cases h

omit [Writable σ ω] in
theorem clean_atomic (m : Tx σ ω ε α) : Clean (atomic m) := by
  intro db e ws h
  rcases hm : m db with ⟨e' | a, vs⟩
  · rw [atomic_of_error hm] at h
    exact (Prod.mk.inj h).2.symm
  · rw [atomic_eq_ok_iff.mpr hm] at h
    cases h

/-- What comes before the part that writes has to be silent. -/
theorem Silent.bind_clean {m : Tx σ ω ε α} {f : α → Tx σ ω ε β} (hm : Silent m)
    (hf : ∀ a, Clean (f a)) : Clean (m >>= f) := by
  intro db e ws h
  rcases hdb : m db with ⟨e' | a, vs⟩
  · rw [bind_apply_of_error hdb] at h
    have hvs := hm db
    rw [hdb] at hvs
    exact (Prod.mk.inj h).2 ▸ hvs
  · have hvs : vs = [] := by
      have hvs := hm db
      rwa [hdb] at hvs
    subst hvs
    rw [bind_apply_of_ok hdb] at h
    obtain ⟨hraised, rfl⟩ := Prod.mk.inj h
    exact hf a _ e _ (Prod.ext hraised rfl)

/-- What comes after it must not raise. -/
theorem Clean.bind_pure {m : Tx σ ω ε α} (hm : Clean m) (g : α → β) :
    Clean (m >>= fun a => pure (g a)) := by
  intro db e ws h
  rcases hdb : m db with ⟨e' | a, vs⟩
  · rw [bind_apply_of_error hdb] at h
    exact (Prod.mk.inj h).2 ▸ hm db e' vs hdb
  · rw [bind_apply_of_ok hdb] at h
    cases (Prod.mk.inj h).1

/-- The database after a call that raises is the one before it. -/
theorem Clean.run_of_error {m : Tx σ ω ε α} (hm : Clean m) {db : σ} {e : ε}
    (h : (m.run db).1 = .error e) : (m.run db).2 = db := by
  have hws : (m db).2 = [] := hm db e _ (Prod.ext h rfl)
  unfold Tx.run
  rw [hws]
  rfl

end Tx

end Reasoning
