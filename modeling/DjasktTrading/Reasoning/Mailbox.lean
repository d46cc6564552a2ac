import Mathlib.Data.List.Basic

/-!
# Mailbox — a queue whose reader stops at a sentinel

Anybody puts items at the end, and whoever closes the mailbox puts a sentinel there.  The reader takes
one after the other and is gone once it has come to the sentinel.  What it still has to take is what
stands before the sentinel: a put adds to it as long as the mailbox is open, closing does not change
it, and when the reader goes there is nothing left of it.
-/

namespace Reasoning

inductive Reader
  | idle
  | reading
  | gone
deriving DecidableEq

/-- `none` is the sentinel. -/
structure Mailbox (α : Type*) where
  queue : List (Option α)
  reader : Reader

namespace Mailbox

variable {α : Type*} {m m' : Mailbox α} {x : α}

def empty : Mailbox α := ⟨[], .idle⟩

def put (m : Mailbox α) (x : α) : Mailbox α := { m with queue := m.queue ++ [some x] }

def close (m : Mailbox α) : Mailbox α := { m with queue := m.queue ++ [none] }

def start (m : Mailbox α) : Mailbox α := { m with reader := .reading }

/-- What the reader takes, and what it leaves. -/
def take (m : Mailbox α) : Option (Option α × Mailbox α) :=
  match m.reader, m.queue with
  | .reading, some x :: rest => some (some x, ⟨rest, .reading⟩)
  | .reading, none :: rest => some (none, ⟨rest, .gone⟩)
  | _, _ => none

/-- What is put now is not taken any more. -/
def closed (m : Mailbox α) : Bool := m.queue.any Option.isNone || m.reader = .gone

theorem closed_iff : m.closed = true ↔ none ∈ m.queue ∨ m.reader = .gone := by
  unfold closed
  rw [Bool.or_eq_true, decide_eq_true_eq, List.any_eq_true]
  simp only [Option.isNone_iff_eq_none, exists_eq_right]

/-- What stands before the first sentinel. -/
def before : List (Option α) → List α
  | some x :: rest => x :: before rest
  | none :: _ => []
  | [] => []

/-- What the reader still has to take. -/
def pending (m : Mailbox α) : List α := if m.reader = .gone then [] else before m.queue

theorem before_append_of_mem {xs ys : List (Option α)} (h : none ∈ xs) :
    before (xs ++ ys) = before xs := by
  induction xs with
  | nil => cases h
  | cons x? xs ih =>
      cases x? with
      | none => rfl
      | some x =>
          have htail : none ∈ xs := by simpa using h
          exact congrArg (x :: ·) (ih htail)

theorem before_append_of_notMem {xs ys : List (Option α)} (h : none ∉ xs) :
    before (xs ++ ys) = before xs ++ before ys := by
  induction xs with
  | nil => rfl
  | cons x? xs ih =>
      cases x? with
      | none => exact absurd List.mem_cons_self h
      | some x =>
          have htail : none ∉ xs := fun hmem => h (List.mem_cons_of_mem _ hmem)
          exact congrArg (x :: ·) (ih htail)

theorem pending_put (h : m.closed = false) (x : α) : (m.put x).pending = m.pending ++ [x] := by
  obtain ⟨hopen, hthere⟩ := not_or.mp (mt closed_iff.mpr (ne_true_of_eq_false h))
  unfold pending put
  rw [if_neg hthere, if_neg hthere, before_append_of_notMem hopen]
  rfl

theorem pending_put_of_closed (h : m.closed = true) (x : α) : (m.put x).pending = m.pending := by
  unfold pending put
  rcases closed_iff.mp h with hclosed | hgone
  · rw [before_append_of_mem hclosed]
  · rw [if_pos hgone, if_pos hgone]

theorem pending_close : m.close.pending = m.pending := by
  unfold pending close
  by_cases h : none ∈ m.queue
  · rw [before_append_of_mem h]
  · rw [before_append_of_notMem h, before, List.append_nil]

theorem pending_start (h : m.reader ≠ .gone) : m.start.pending = m.pending := by
  unfold pending start
  rw [if_neg h, if_neg nofun]

theorem pending_of_gone (h : m.reader = .gone) : m.pending = [] := if_pos h

theorem take_cases {x? : Option α} (h : m.take = some (x?, m')) : m.reader = .reading ∧
    ((∃ x, x? = some x ∧ m.queue = some x :: m'.queue ∧ m'.reader = .reading ∧
        m.pending = x :: m'.pending) ∨
      (x? = none ∧ m.queue = none :: m'.queue ∧ m'.reader = .gone ∧ m.pending = m'.pending)) := by
  obtain ⟨queue, reader⟩ := m
  cases reader with
  | idle => cases h
  | gone => cases h
  | reading =>
      refine ⟨rfl, ?_⟩
      cases queue with
      | nil => cases h
      | cons head rest =>
          cases head with
          | none =>
              cases h
              exact .inr ⟨rfl, rfl, rfl, rfl⟩
          | some x =>
              cases h
              exact .inl ⟨x, rfl, rfl, rfl, rfl⟩

/-- A reader takes as long as anything is there. -/
theorem take_isSome (hreading : m.reader = .reading) (hqueue : m.queue ≠ []) : m.take.isSome := by
  obtain ⟨queue, reader⟩ := m
  obtain rfl : reader = .reading := hreading
  cases queue with
  | nil => exact absurd rfl hqueue
  | cons head rest => cases head <;> rfl

/-! ## How far a mailbox is -/

/-- A mailbox that is barred has been closed before it was started. -/
inductive Status
  | idle
  | barred
  | serving
  | closing
  | gone
deriving DecidableEq

def status (m : Mailbox α) : Status :=
  match m.reader with
  | .idle => if m.queue.any Option.isNone then .barred else .idle
  | .reading => if m.queue.any Option.isNone then .closing else .serving
  | .gone => .gone

theorem status_eq_gone_iff : m.status = .gone ↔ m.reader = .gone := by
  unfold status
  split <;> rename_i hreader <;> rw [hreader]
  · split_ifs <;> exact iff_of_false nofun nofun
  · split_ifs <;> exact iff_of_false nofun nofun
  · exact iff_of_true rfl rfl

theorem status_eq_closing_iff : m.status = .closing ↔ m.reader = .reading ∧ none ∈ m.queue := by
  have hany : m.queue.any Option.isNone = true ↔ none ∈ m.queue := by
    rw [List.any_eq_true]
    simp only [Option.isNone_iff_eq_none, exists_eq_right]
  rw [← hany]
  unfold status
  split <;> rename_i hreader <;> rw [hreader]
  · split_ifs <;> simp
  · split_ifs with h <;> simp [h]
  · simp

/-- An open mailbox is idle or serves, as its reader says. -/
theorem closed_eq_false_iff : m.closed = false ↔ m.status = .idle ∨ m.status = .serving := by
  unfold status closed
  cases m.reader with
  | idle => cases m.queue.any Option.isNone <;> simp
  | reading => cases m.queue.any Option.isNone <;> simp
  | gone => simp

theorem status_put (m : Mailbox α) (x : α) : (m.put x).status = m.status := by
  have hany : (m.queue ++ [some x]).any Option.isNone = m.queue.any Option.isNone := by
    rw [List.any_append]
    exact Bool.or_false _
  unfold status put
  rw [hany]

theorem status_close (h : m.status = .serving) : m.close.status = .closing := by
  have hreading : m.reader = .reading := by
    unfold status at h
    split at h
    · split_ifs at h
    · assumption
    · cases h
  exact status_eq_closing_iff.mpr ⟨hreading, List.mem_append_right _ (List.mem_singleton_self _)⟩

theorem status_start (h : m.status = .idle) : m.start.status = .serving := by
  have hopen : m.closed = false := closed_eq_false_iff.mpr (.inl h)
  rw [status, start, (Bool.or_eq_false_iff.mp hopen).1]
  rfl

/-- A reader that takes an item stays where it is; one that takes the sentinel goes. -/
theorem status_of_take {x? : Option α} (h : m.take = some (x?, m')) :
    (∃ x, x? = some x ∧ m'.status = m.status ∧ m.status ≠ .gone) ∨
      (x? = none ∧ m.status = .closing ∧ m'.status = .gone) := by
  obtain ⟨hreading, ⟨x, hx, hqueue, hreader, -⟩ | ⟨hx, hqueue, hreader, -⟩⟩ := take_cases h
  · refine .inl ⟨x, hx, ?_, ?_⟩
    · rw [status, status, hreading, hreader, hqueue]
      rfl
    · rw [ne_eq, status_eq_gone_iff, hreading]
      nofun
  · refine .inr ⟨hx, ?_, status_eq_gone_iff.mpr hreader⟩
    rw [status, hreading, hqueue]
    rfl

theorem pending_of_status (h : m.status = .gone) : m.pending = [] :=
  pending_of_gone (status_eq_gone_iff.mp h)

end Mailbox

/-! ## Places of a list of which one has anything -/

theorem flatMap_eq_of_others_nil {α β : Type*} {f : α → List β} {xs : List α} {k : ℕ} {x : α}
    (hx : xs[k]? = some x) (hothers : ∀ j y, xs[j]? = some y → j ≠ k → f y = []) :
    xs.flatMap f = f x := by
  induction xs generalizing k with
  | nil => cases hx
  | cons y ys ih =>
      rw [List.flatMap_cons]
      cases k with
      | zero =>
          obtain rfl : y = x := Option.some.inj hx
          have hnil : ys.flatMap f = [] := by
            rw [List.flatMap_eq_nil_iff]
            intro z hz
            obtain ⟨j, hj⟩ := List.mem_iff_getElem?.mp hz
            exact hothers (j + 1) z hj (Nat.succ_ne_zero j)
          rw [hnil, List.append_nil]
      | succ k =>
          rw [hothers 0 y rfl (Nat.succ_ne_zero k).symm, List.nil_append]
          exact ih hx fun j z hz hne => hothers (j + 1) z hz fun h => hne (Nat.succ.inj h)

theorem flatMap_set_of_eq {α β : Type*} {f : α → List β} {xs : List α} {k : ℕ} {x y : α}
    (hx : xs[k]? = some x) (h : f y = f x) : (xs.set k y).flatMap f = xs.flatMap f := by
  rw [List.flatMap_def, List.flatMap_def, List.map_set, h, ← List.map_set]
  rw [show xs.set k x = xs by
    obtain ⟨hlt, rfl⟩ := List.getElem?_eq_some_iff.mp hx
    exact List.set_getElem_self hlt]

end Reasoning
