import DjasktTrading.Reasoning.Latch

/-!
# Redis client — one connection pool for the process

`get_client` looks for the client, takes the lock if there is none, looks again and builds one.  Any
number of threads call it at the same time.
-/

open Reasoning

namespace DjasktTrading.Extensions.RedisClientManager

/-! ## 1. Calls of `get_client` -/

/-- Where a call stands.  A client is known by how many were built before it. -/
inductive Phase where
  /-- about to look at `_client` -/
  | checking
  | locking
  | rechecking
  | building
  | unlocking
  /-- about to `return self._client` -/
  | reading
  | returned (client : Option ℕ)
  /-- `from_url` has raised -/
  | raised
deriving DecidableEq

/-- The next step of a call, and what it does to the client and the lock; `url` says whether `from_url`
accepts the setting. -/
def Phase.next (url : Bool) (i : ℕ) (latch : Latch ℕ) : Phase → Phase × Option (Latch.Event ℕ)
  | .checking => if latch.value.isNone then (.locking, none) else (.reading, none)
  | .locking => (.rechecking, some (.acquire i))
  | .rechecking => if latch.value.isNone then (.building, some (.make i)) else (.unlocking, none)
  | .building =>
      if url then (.unlocking, some (.set i latch.made)) else (.raised, some (.release i))
  | .unlocking => (.reading, some (.release i))
  | .reading => (.returned latch.value, none)
  | .returned client => (.returned client, none)
  | .raised => (.raised, none)

/-- `_client` with its lock, and the calls. -/
structure World where
  latch : Latch ℕ
  calls : List Phase

def World.initial : World := ⟨.empty, []⟩

inductive Event where
  | getClient
  | advance (i : ℕ)

def step (url : Bool) (w : World) : Event → Option World
  | .getClient => some { w with calls := w.calls ++ [.checking] }
  | .advance i =>
      match w.calls[i]? with
      | none => none
      | some phase =>
          let (next, e?) := phase.next url i w.latch
          (w.latch.act e?).map fun latch => { latch, calls := w.calls.set i next }

/-! ## 2. What holds in every run -/

variable {url : Bool} {w w' : World} {e : Event} {es : List Event}

/-- Who is past the lock finds a client, and who has returned one the client. -/
def Phase.Finds (latch : Latch ℕ) : Phase → Prop
  | .unlocking | .reading => latch.value.isSome
  | .returned client => client.isSome ∧ latch.value = client
  | _ => True

theorem Phase.Finds.act {latch latch' : Latch ℕ} {phase : Phase} {e? : Option (Latch.Event ℕ)}
    (h : phase.Finds latch) (hinv : latch.Inv) (hact : latch.act e? = some latch')
    (hkeeps : e? ≠ some .drop) : phase.Finds latch' := by
  have hstays {client : ℕ} (hvalue : latch.value = some client) : latch'.value = some client := by
    cases e? with
    | none => exact Latch.act_none_iff.mp hact ▸ hvalue
    | some e => exact hinv.value_of_step hact (fun heq => hkeeps (congrArg some heq)) hvalue
  have hset (hsome : latch.value.isSome) : latch'.value.isSome := by
    obtain ⟨client, hvalue⟩ := Option.isSome_iff_exists.mp hsome
    rw [hstays hvalue]
    rfl
  cases phase with
  | unlocking => exact hset h
  | reading => exact hset h
  | returned client =>
      obtain ⟨hsome, hvalue⟩ := h
      obtain ⟨c, rfl⟩ := Option.isSome_iff_exists.mp hsome
      exact ⟨rfl, hstays hvalue⟩
  | _ => trivial

/-- A client is never dropped. -/
theorem Phase.next_ne_drop (i : ℕ) (latch : Latch ℕ) (phase : Phase) :
    (phase.next url i latch).2 ≠ some .drop := by
  cases phase with
  | checking =>
      rw [Phase.next]
      split <;> nofun
  | rechecking =>
      rw [Phase.next]
      split <;> nofun
  | building =>
      rw [Phase.next]
      split <;> nofun
  | _ => nofun

theorem Phase.Finds.next {latch latch' : Latch ℕ} {phase : Phase} {i : ℕ} (h : phase.Finds latch)
    (hinv : latch.Inv) (hact : latch.act (phase.next url i latch).2 = some latch') :
    (phase.next url i latch).1.Finds latch' := by
  have hold := h.act hinv hact (phase.next_ne_drop i latch)
  cases phase with
  | checking =>
      rw [Phase.next] at hact ⊢
      split
      · trivial
      · rename_i hset
        rw [if_neg hset] at hact
        rw [← Latch.act_none_iff.mp hact] at hset
        simpa [Phase.Finds, Option.isSome_iff_ne_none] using hset
  | locking => trivial
  | rechecking =>
      rw [Phase.next] at hact ⊢
      split
      · trivial
      · rename_i hset
        rw [if_neg hset] at hact
        rw [← Latch.act_none_iff.mp hact] at hset
        simpa [Phase.Finds, Option.isSome_iff_ne_none] using hset
  | building =>
      rw [Phase.next] at hact ⊢
      split
      · rename_i hurl
        rw [if_pos hurl] at hact
        obtain ⟨-, -, rfl⟩ := Latch.step_set_iff.mp hact
        rfl
      · trivial
  | unlocking => exact hold
  | reading =>
      obtain rfl := Latch.act_none_iff.mp hact
      exact ⟨h, rfl⟩
  | returned client => exact hold
  | raised => trivial

structure Inv (w : World) : Prop where
  latch : w.latch.Inv
  kept : w.latch.dropped = 0
  calls : ∀ phase ∈ w.calls, phase.Finds w.latch

theorem Inv.step (h : Inv w) (hstep : step url w e = some w') : Inv w' := by
  cases e with
  | getClient =>
      cases hstep
      refine ⟨h.latch, h.kept, fun phase hmem => ?_⟩
      rcases List.mem_append.mp hmem with hold | hnew
      · exact h.calls phase hold
      · rw [List.mem_singleton.mp hnew]
        trivial
  | advance i =>
      simp only [RedisClientManager.step] at hstep
      split at hstep
      · cases hstep
      · rename_i phase hphase
        obtain ⟨latch, hact, rfl⟩ := Option.map_eq_some_iff.mp hstep
        have hkeeps : (phase.next url i w.latch).2 ≠ some .drop := phase.next_ne_drop i w.latch
        refine ⟨h.latch.act hact, ?_, fun other hmem => ?_⟩
        · exact (Latch.dropped_of_act hact hkeeps).trans h.kept
        · rcases List.mem_or_eq_of_mem_set hmem with hold | rfl
          · exact (h.calls other hold).act h.latch hact hkeeps
          · exact (h.calls phase (List.mem_of_getElem? hphase)).next h.latch hact

/-- **One client for all.**  Whatever threads ask for the client at the same time, no more than one is
ever built, and each call that has returned has returned it. -/
theorem one_client (hrun : Run (RedisClientManager.step url) .initial es w) :
    w.latch.made ≤ 1 ∧
      ∀ client, .returned client ∈ w.calls → client.isSome ∧ w.latch.value = client := by
  have h : Inv w := hrun.invariant ⟨Latch.inv_empty, rfl, nofun⟩ fun _ _ _ hu hstep => hu.step hstep
  constructor
  · have hmade := h.latch.made_le
    rw [h.kept] at hmade
    exact hmade
  · exact fun client hmem => h.calls _ hmem

/-- Both threads find no client; the first builds it. -/
def raceForClient : List Event :=
  [.getClient, .getClient, .advance 0, .advance 1, .advance 0, .advance 0, .advance 0, .advance 0,
    .advance 0, .advance 1, .advance 1, .advance 1, .advance 1]

theorem one_client_raceForClient : ∃ w,
    Run (RedisClientManager.step true) .initial raceForClient w ∧
      w.calls = [.returned (some 0), .returned (some 0)] ∧ w.latch.made ≤ 1 ∧
        ∀ client, .returned client ∈ w.calls → client.isSome ∧ w.latch.value = client := by
  have hvalues : (exec (RedisClientManager.step true) .initial raceForClient).map (·.calls) =
      some [.returned (some 0), .returned (some 0)] := by decide +kernel
  obtain ⟨w, hrun, hw⟩ := Option.map_eq_some_iff.mp hvalues
  exact ⟨w, hrun, hw, one_client hrun⟩

end DjasktTrading.Extensions.RedisClientManager
