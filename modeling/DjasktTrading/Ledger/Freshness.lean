import DjasktTrading.Reasoning.Expiry
import DjasktTrading.Reasoning.Tallies
import DjasktTrading.Ledger.Deadlock
import DjasktTrading.Ledger.Views
import Mathlib.Tactic.IntervalCases

/-!
# Freshness — prices that expire while a trade waits

The market-data writer publishes every price with a lifetime.  A trade reads its price once, before it
opens its transaction; after that it waits for locks, and time passes.  At every moment either the
trade runs or a transaction that it waits for does, directly or through others, so that the time from
the fetch to the commit is made up of what these transactions take.
-/

open Reasoning

namespace DjasktTrading.Ledger

/-! ## 1. A request fetches its price once -/

section

variable {py : Python} {w w' : World} {e : Event} {i : ℕ} {call : Call}

/-- Once it has asked it has a price, or has failed. -/
theorem le_rank_of_fetchPrice (hstep : step py w (.fetchPrice i) = some w')
    (there : w.At i call .missed) : ∃ phase, w'.At i call phase ∧ 2 ≤ phase.rank := by
  cases step_fires hstep with
  | priced here opened =>
      exact ⟨_, (World.at_put_self here).mpr ⟨(there.unique here).1, rfl⟩, le_rfl⟩
  | unpriced here refused =>
      exact ⟨_, (World.at_put_self here).mpr ⟨(there.unique here).1, rfl⟩, by simp [Phase.rank]⟩

/-- It never asks again. -/
theorem le_rank_of_step {phase : Phase} (hstep : step py w e = some w') (there : w.At i call phase)
    (hpast : 2 ≤ phase.rank) : ∃ phase', w'.At i call phase' ∧ 2 ≤ phase'.rank := by
  obtain ⟨phase', hat, rfl | ⟨-, hle⟩⟩ := step_rank hstep there
  · exact ⟨phase', hat, hpast⟩
  · exact ⟨phase', hat, hpast.trans hle⟩

/-- An open transaction was open before, or has just fetched its price. -/
theorem inTx_of_step {job : Job} {stage : Stage}
    {ws : List Write} (hstep : step py w e = some w') (there : w'.At i call (.inTx job stage ws)) :
    (∃ stage' ws', w.At i call (.inTx job stage' ws')) ∨
      (e = .fetchPrice i ∧ w.At i call .missed ∧ call.job py = .ok job) := by
  cases step_fires hstep with
  | arrive call' =>
      rcases World.at_arrive_cases there with there | ⟨-, hslot⟩
      · exact .inl ⟨stage, ws, there⟩
      · cases hslot
  | @lookup j call' here =>
      rcases World.at_put_cases here there with ⟨-, -, hphase⟩ | ⟨-, there⟩
      · have houtside := Call.lookup_outside py w.db call'
        rw [← hphase] at houtside
        exact houtside.elim
      · exact .inl ⟨stage, ws, there⟩
  | priced here opened =>
      rcases World.at_put_cases here there with ⟨rfl, rfl, hphase⟩ | ⟨-, there⟩
      · cases hphase
        exact .inr ⟨rfl, here, opened⟩
      · exact .inl ⟨stage, ws, there⟩
  | ran here left free returned =>
      rcases World.at_put_cases here there with ⟨rfl, rfl, hphase⟩ | ⟨-, there⟩
      · cases hphase
        exact .inl ⟨_, _, here⟩
      · exact .inl ⟨stage, ws, there⟩
  | unpriced here refused => exact .inl ⟨stage, ws, here.of_put there nofun⟩
  | raised here free threw => exact .inl ⟨stage, ws, here.of_put there nofun⟩
  | commit here => exact .inl ⟨stage, ws, here.of_put there nofun⟩
  | fail here early => exact .inl ⟨stage, ws, here.of_put there nofun⟩
  | skipBroadcast here => exact .inl ⟨stage, ws, here.of_put there nofun⟩
  | reread here => exact .inl ⟨stage, ws, here.of_put there nofun⟩
  | rereadFails here => exact .inl ⟨stage, ws, here.of_put there nofun⟩
  | groupSend here => exact .inl ⟨stage, ws, here.of_put there nofun⟩
  | groupSendFails here => exact .inl ⟨stage, ws, here.of_put there nofun⟩

end

/-! ## 2. Time and prices around the requests -/

/-- The time, the entries of the price cache, and the requests.  `pricedUntil` records when the entry
ends that a request has read its price from; no step reads it. -/
structure Market (τ : Type) where
  now : τ
  prices : Expiring String String τ
  world : World
  pricedUntil : ℕ → Option τ

inductive MarketEvent (τ : Type) where
  | wait (duration : τ)
  /-- the market-data writer sets a price -/
  | publish (ticker text : String)
  | ledger (e : Event)

/-- The key that a call reads its price under; a transfer reads none. -/
def Call.priceKey? (py : Python) (call : Call) : Option String :=
  match call.request with
  | .trade req => some (priceKey (py.upper req.ticker))
  | .transfer _ => none

namespace Market

variable {τ : Type} [LinearOrder τ]

def initial (now : τ) (prices : Expiring String String τ) (db : Ledger) : Market τ where
  now := now
  prices := prices
  world := .initial db
  pricedUntil _ := none

/-- What Redis answers to `GET key`. -/
def reply (m : Market τ) (key : String) : CacheReply :=
  match m.prices.get m.now key with
  | some text => .raw text
  | none => .missing

/-- The call, which comes with the reply it is going to get, can get that reply now: Redis can't be
reached, or answers from the entries. -/
def Serves (py : Python) (m : Market τ) (call : Call) : Prop :=
  ∀ key ∈ call.priceKey? py, call.cache.get key = .unreachable ∨ call.cache.get key = m.reply key

instance (py : Python) (m : Market τ) (call : Call) : Decidable (m.Serves py call) :=
  inferInstanceAs (Decidable (∀ key ∈ call.priceKey? py, _))

omit [LinearOrder τ] in
/-- When the entry ends that the call reads. -/
def ends? (py : Python) (m : Market τ) (call : Call) : Option τ :=
  (call.priceKey? py).bind fun key => (m.prices key).map Prod.snd

/-- A price that is fetched has not expired. -/
theorem Serves.exists_ends {py : Python} {m : Market τ} {call : Call} {job : Job} {req : TradeRequest}
    (served : m.Serves py call) (hjob : call.job py = .ok job) (hreq : call.request = .trade req) :
    ∃ ends, m.ends? py call = some ends ∧ m.now < ends := by
  cases Call.opens_of_job hjob with
  | @trade req' tradeType price request checked priced =>
      obtain rfl := Request.trade.inj (request.symm.trans hreq)
      obtain ⟨text, hraw⟩ := getLivePrice_raw priced
      have hkey : call.priceKey? py = some (priceKey (py.upper req'.ticker)) := by
        rw [Call.priceKey?, request]
      have hserved := served _ hkey
      rw [hraw] at hserved
      have hget : m.prices.get m.now (priceKey (py.upper req'.ticker)) = some text := by
        unfold reply at hserved
        split at hserved
        · rename_i text' hget
          simp only [reduceCtorEq, CacheReply.raw.injEq, false_or] at hserved
          rw [hget, hserved]
        · simp at hserved
      obtain ⟨ends, hentry, hlt⟩ := Expiring.get_eq_some_iff.mp hget
      refine ⟨ends, ?_, hlt⟩
      rw [ends?, hkey, Option.bind_some, hentry, Option.map_some]
  | transfer request checked =>
      rw [hreq] at request
      cases request

end Market

section Step

variable {τ : Type} [LinearOrder τ] [AddCommMonoid τ]

def marketStep (py : Python) (ttl : τ) (m : Market τ) : MarketEvent τ → Option (Market τ)
  | .wait duration => some { m with now := m.now + duration }
  | .publish ticker text =>
      some { m with prices := m.prices.set (priceKey ticker) text (m.now + ttl) }
  | .ledger (.fetchPrice i) =>
      match m.world.requests[i]? with
      | none => none
      | some ⟨call, _⟩ =>
          if m.Serves py call then
            (step py m.world (.fetchPrice i)).map fun world =>
              { m with world, pricedUntil := Function.update m.pricedUntil i (m.ends? py call) }
          else none
  | .ledger e => (step py m.world e).map fun world => { m with world }

/-- Everything a step can do. -/
inductive MarketFires (py : Python) (ttl : τ) (m : Market τ) : MarketEvent τ → Market τ → Prop where
  | wait (duration : τ) : MarketFires py ttl m (.wait duration) { m with now := m.now + duration }
  | publish (ticker text : String) : MarketFires py ttl m (.publish ticker text)
      { m with prices := m.prices.set (priceKey ticker) text (m.now + ttl) }
  | fetchPrice {i : ℕ} {call : Call} {world : World} (here : m.world.At i call .missed)
      (served : m.Serves py call) (moved : step py m.world (.fetchPrice i) = some world) :
      MarketFires py ttl m (.ledger (.fetchPrice i))
        { m with world, pricedUntil := Function.update m.pricedUntil i (m.ends? py call) }
  | ledger {e : Event} {world : World} (other : ∀ i, e ≠ .fetchPrice i)
      (moved : step py m.world e = some world) : MarketFires py ttl m (.ledger e) { m with world }

variable {py : Python} {ttl : τ} {m m' : Market τ} {e : MarketEvent τ}

theorem marketStep_fires (h : marketStep py ttl m e = some m') : MarketFires py ttl m e m' := by
  cases e with
  | wait duration =>
      obtain rfl := Option.some.inj h
      exact .wait duration
  | publish ticker text =>
      obtain rfl := Option.some.inj h
      exact .publish ticker text
  | ledger e =>
      unfold marketStep at h
      split at h
      · rename_i heq
        cases heq
      · rename_i heq
        cases heq
      · rename_i i heq
        obtain rfl := MarketEvent.ledger.inj heq
        split at h
        · cases h
        · rename_i call phase hslot
          split at h
          · rename_i hserved
            obtain ⟨world, hmoved, rfl⟩ := Option.map_eq_some_iff.mp h
            -- only a request that has missed its key fetches a price
            have here : m.world.At i call .missed := by
              have hfires := step_fires hmoved
              have hat : m.world.At i call phase := hslot
              cases hfires with
              | priced here _ => exact (hat.unique here).1 ▸ here
              | unpriced here _ => exact (hat.unique here).1 ▸ here
            exact .fetchPrice here hserved hmoved
          · cases h
      · rename_i e' hother heq
        obtain rfl := MarketEvent.ledger.inj heq
        obtain ⟨world, hmoved, rfl⟩ := Option.map_eq_some_iff.mp h
        exact .ledger hother hmoved

/-! ## 3. From the fetch of a price to the commit -/

def MarketEvent.duration : MarketEvent τ → τ
  | .wait duration => duration
  | _ => 0

/-- The time that passes over the events. -/
def waited (es : List (MarketEvent τ)) : τ := (es.map MarketEvent.duration).sum

theorem run_now {es : List (MarketEvent τ)} (hrun : Run (marketStep py ttl) m es m') :
    m'.now = m.now + waited es := by
  refine hrun.induction (motive := fun es t => t.now = m.now + waited es) ?_ ?_
  · simp [waited]
  · intro es t e u _ ih hstep
    have hlast : u.now = t.now + e.duration := by
      cases marketStep_fires hstep with
      | wait duration => rfl
      | publish ticker text => exact (add_zero _).symm
      | fetchPrice here served moved => exact (add_zero _).symm
      | ledger other moved => exact (add_zero _).symm
    rw [hlast, ih, waited, waited, List.map_append, List.sum_append, List.map_singleton,
      List.sum_singleton, add_assoc]

/-- The price stays the one that was fetched. -/
theorem run_pricedUntil {es : List (MarketEvent τ)} (hrun : Run (marketStep py ttl) m es m') {i : ℕ}
    {call : Call} {phase : Phase} (there : m.world.At i call phase) (hpast : 2 ≤ phase.rank) :
    m'.pricedUntil i = m.pricedUntil i ∧
      ∃ phase', m'.world.At i call phase' ∧ 2 ≤ phase'.rank := by
  refine hrun.invariant (I := fun t => t.pricedUntil i = m.pricedUntil i ∧
    ∃ phase', t.world.At i call phase' ∧ 2 ≤ phase'.rank) ⟨rfl, phase, there, hpast⟩ ?_
  rintro t e u ⟨hsame, phase', hat, hpast'⟩ hstep
  cases marketStep_fires hstep with
  | wait duration => exact ⟨hsame, phase', hat, hpast'⟩
  | publish ticker text => exact ⟨hsame, phase', hat, hpast'⟩
  | @fetchPrice j call' world here served moved =>
      have hne : i ≠ j := by
        rintro rfl
        obtain ⟨-, rfl⟩ := here.unique hat
        exact absurd hpast' (by simp [Phase.rank])
      refine ⟨?_, le_rank_of_step moved hat hpast'⟩
      rw [← hsame]
      exact Function.update_of_ne hne _ _
  | ledger other moved => exact ⟨hsame, le_rank_of_step moved hat hpast'⟩

/-- Whoever is in a transaction has fetched a price that the entries served. -/
theorem exists_fetchPrice {now : τ} {prices : Expiring String String τ} {db : Ledger}
    {es : List (MarketEvent τ)} (hrun : Run (marketStep py ttl) (.initial now prices db) es m) {i : ℕ}
    {call : Call} {job : Job} {stage : Stage} {ws : List Write}
    (there : m.world.At i call (.inTx job stage ws)) :
    ∃ earlier between t, es = earlier ++ .ledger (.fetchPrice i) :: between ∧
      Run (marketStep py ttl) (.initial now prices db) earlier t ∧ t.world.At i call .missed ∧
      t.Serves py call ∧ call.job py = .ok job := by
  refine hrun.induction (motive := fun es m => ∀ stage ws, m.world.At i call (.inTx job stage ws) →
    ∃ earlier between t, es = earlier ++ .ledger (.fetchPrice i) :: between ∧
      Run (marketStep py ttl) (.initial now prices db) earlier t ∧ t.world.At i call .missed ∧
      t.Serves py call ∧ call.job py = .ok job) ?_ ?_ stage ws there
  · intro stage ws there
    simp [World.At, Market.initial, World.initial] at there
  · intro es t e u ht ih hstep stage ws there
    have hbefore : ∀ stage' ws', t.world.At i call (.inTx job stage' ws') →
        ∃ earlier between t, es ++ [e] = earlier ++ .ledger (.fetchPrice i) :: between ∧
          Run (marketStep py ttl) (.initial now prices db) earlier t ∧ t.world.At i call .missed ∧
          t.Serves py call ∧ call.job py = .ok job := by
      intro stage' ws' hat
      obtain ⟨earlier, between, v, rfl, hv⟩ := ih stage' ws' hat
      exact ⟨earlier, between ++ [e], v, by simp, hv⟩
    cases marketStep_fires hstep with
    | wait duration => exact hbefore stage ws there
    | publish ticker text => exact hbefore stage ws there
    | @fetchPrice j call' world here served moved =>
        rcases inTx_of_step moved there with ⟨stage', ws', hat⟩ | ⟨heq, hat, hjob⟩
        · exact hbefore stage' ws' hat
        · obtain rfl := Event.fetchPrice.inj heq
          obtain ⟨rfl, -⟩ := here.unique hat
          exact ⟨es, [], t, rfl, ht, hat, served, hjob⟩
    | ledger other moved =>
        rcases inTx_of_step moved there with ⟨stage', ws', hat⟩ | ⟨heq, -⟩
        · exact hbefore stage' ws' hat
        · exact absurd heq (other i)

/-- The transaction of a trade has been open ever since it fetched its price. -/
theorem inTx_of_run {es : List (MarketEvent τ)} (hrun : Run (marketStep py ttl) m es m') {i : ℕ}
    {call : Call} {phase : Phase} (there : m.world.At i call phase) (hpast : 2 ≤ phase.rank) {job : Job}
    {stage : Stage} {ws : List Write} (open' : m'.world.At i call (.inTx job stage ws)) :
    ∃ job stage ws, m.world.At i call (.inTx job stage ws) := by
  refine hrun.induction (motive := fun _ u => (∃ phase', u.world.At i call phase' ∧ 2 ≤ phase'.rank) ∧
    ∀ job stage ws, u.world.At i call (.inTx job stage ws) →
      ∃ job stage ws, m.world.At i call (.inTx job stage ws)) ?_ ?_ |>.2 job stage ws open'
  · exact ⟨⟨phase, there, hpast⟩, fun job stage ws hat => ⟨job, stage, ws, hat⟩⟩
  · rintro es t e u - ⟨⟨phase', hat, hpast'⟩, ih⟩ hstep
    have hledger : ∀ {e world}, step py t.world e = some world →
        (∃ phase'', world.At i call phase'' ∧ 2 ≤ phase''.rank) ∧
          ∀ job stage ws, world.At i call (.inTx job stage ws) →
            ∃ job stage ws, m.world.At i call (.inTx job stage ws) := by
      intro e world moved
      refine ⟨le_rank_of_step moved hat hpast', fun job stage ws hafter => ?_⟩
      rcases inTx_of_step moved hafter with ⟨stage', ws', hbefore⟩ | ⟨-, hmissed, -⟩
      · exact ih _ _ _ hbefore
      · obtain ⟨-, rfl⟩ := hmissed.unique hat
        exact absurd hpast' (by simp [Phase.rank])
    cases marketStep_fires hstep with
    | wait duration => exact ⟨⟨phase', hat, hpast'⟩, ih⟩
    | publish ticker text => exact ⟨⟨phase', hat, hpast'⟩, ih⟩
    | fetchPrice here served moved => exact hledger moved
    | ledger other moved => exact hledger moved

/-! ## 4. Commits -/

/-- Where a trade commits, the entry that its price was read from has not expired. -/
def CommitsFresh (m : Market τ) : MarketEvent τ → Prop
  | .ledger (.commit i) => ∀ call phase req, m.world.At i call phase → call.request = .trade req →
      ∃ ends, m.pricedUntil i = some ends ∧ m.now < ends
  | _ => True

/-- How long the transaction of a request runs over the events: it is open and waits for nobody. -/
def runningTime (py : Python) (ttl : τ) (j : ℕ) (start : Market τ) (events : List (MarketEvent τ)) :
    τ :=
  tally (marketStep py ttl) (fun m e => if m.world.running j then e.duration else 0) start events

/-- From the fetch of a trade that commits, the trade and those that it waits for, directly or through
others, run for less time in all than the entry has left. -/
def QueuesInTime (py : Python) (ttl : τ) (start : Market τ) (events : List (MarketEvent τ)) : Prop :=
  ∀ earlier i between t call ends,
    earlier ++ .ledger (.fetchPrice i) :: between ++ [.ledger (.commit i)] <+: events →
    Run (marketStep py ttl) start earlier t → t.world.At i call .missed →
    t.ends? py call = some ends →
    ∃ queue : Finset ℕ,
      EveryStep (marketStep py ttl) t (.ledger (.fetchPrice i) :: between)
        (fun m _ => ∀ j, Relation.ReflTransGen m.world.WaitsFor i j → j ∈ queue) ∧
      t.now + ∑ j ∈ queue, runningTime py ttl j t (.ledger (.fetchPrice i) :: between) < ends

/-- At the commit, the price is the one that was fetched, and the time that of the fetch and all that
has passed since. -/
theorem of_fetchPrice {i : ℕ} {call : Call} {between : List (MarketEvent τ)} {t : Market τ}
    (there : t.world.At i call .missed)
    (hrun : Run (marketStep py ttl) t (.ledger (.fetchPrice i) :: between) m) :
    m.pricedUntil i = t.ends? py call ∧ m.now = t.now + waited between := by
  obtain ⟨u, hstep, hrest⟩ := run_cons_iff.mp hrun
  have hnow := run_now hrest
  cases marketStep_fires hstep with
  | fetchPrice here served moved =>
      obtain ⟨rfl, -⟩ := here.unique there
      obtain ⟨phase, hat, hpast⟩ := le_rank_of_fetchPrice moved there
      obtain ⟨hsame, -⟩ := run_pricedUntil hrest hat hpast
      exact ⟨hsame.trans (Function.update_self _ _ _), hnow⟩
  | ledger other => exact absurd rfl (other i)

/-- While the transaction of a request is open, it or one that it waits for runs. -/
theorem duration_le_of_inTx [IsOrderedAddMonoid τ] [CanonicallyOrderedAdd τ] {i : ℕ} {call : Call}
    {job : Job} {stage : Stage} {ws : List Write} (here : m.world.At i call (.inTx job stage ws))
    {queue : Finset ℕ} (hqueue : ∀ j, Relation.ReflTransGen m.world.WaitsFor i j → j ∈ queue)
    (e : MarketEvent τ) :
    e.duration ≤ ∑ j ∈ queue, if m.world.running j then e.duration else 0 := by
  obtain ⟨j, call', job', stage', ws', hreach, there, hfree⟩ := exists_at_not_blocked here
  have hrunning : m.world.running j := there.running_iff.mpr hfree
  have hterm : e.duration = if m.world.running j then e.duration else 0 := by rw [if_pos hrunning]
  conv_lhs => rw [hterm]
  exact Finset.single_le_sum (f := fun j => if m.world.running j then e.duration else 0)
    (fun _ _ => zero_le) (hqueue j hreach)

/-- What passes from the fetch to the commit is what the queue takes, or less. -/
theorem waited_le_of_queue [IsOrderedAddMonoid τ] [CanonicallyOrderedAdd τ] {t : Market τ} {i : ℕ}
    {call : Call} {job : Job} {stage : Stage} {ws : List Write} {between : List (MarketEvent τ)}
    (there : t.world.At i call .missed)
    (hrun : Run (marketStep py ttl) t (.ledger (.fetchPrice i) :: between) m)
    (open' : m.world.At i call (.inTx job stage ws)) {queue : Finset ℕ}
    (hqueue : EveryStep (marketStep py ttl) t (.ledger (.fetchPrice i) :: between)
      (fun m _ => ∀ j, Relation.ReflTransGen m.world.WaitsFor i j → j ∈ queue)) :
    waited between ≤
      ∑ j ∈ queue, runningTime py ttl j t (.ledger (.fetchPrice i) :: between) := by
  obtain ⟨u, hstep, hrest⟩ := run_cons_iff.mp hrun
  obtain ⟨-, hlater⟩ := everyStep_cons hstep hqueue
  have hfetched : ∃ phase, u.world.At i call phase ∧ 2 ≤ phase.rank := by
    cases marketStep_fires hstep with
    | fetchPrice here served moved => exact le_rank_of_fetchPrice moved there
    | ledger other => exact absurd rfl (other i)
  obtain ⟨phase, hat, hpast⟩ := hfetched
  have hsteps : EveryStep (marketStep py ttl) u between fun v e =>
      e.duration ≤ ∑ j ∈ queue, if v.world.running j then e.duration else 0 := by
    intro pre e v hpre hv
    obtain ⟨-, phase', hat', hpast'⟩ := run_pricedUntil hv hat hpast
    have hmoment := hlater pre e v hpre hv
    obtain ⟨later, rfl⟩ := hpre
    rw [List.append_assoc] at hrest
    obtain ⟨v', hv', hend⟩ := run_append_iff.mp hrest
    obtain rfl := hv'.unique hv
    obtain ⟨_, _, _, hinTx⟩ := inTx_of_run hend hat' hpast' open'
    exact duration_le_of_inTx hinTx hmoment e
  calc waited between = tally (marketStep py ttl) (fun _ e => e.duration) u between :=
        (tally_const hrest).symm
    _ ≤ tally (marketStep py ttl) (fun v e => ∑ j ∈ queue, if v.world.running j then e.duration else 0)
          u between := tally_le_tally hrest hsteps
    _ = ∑ j ∈ queue, runningTime py ttl j u between := tally_sum queue _ hrest
    _ ≤ _ := by
        refine Finset.sum_le_sum fun j _ => ?_
        unfold runningTime
        rw [tally_cons hstep]
        exact le_add_self

/-- **Fresh prices.**  No trade commits on an expired price in a run in which each trade that commits,
and those that it waits for, are done in less time than the entry had left at the fetch. -/
theorem commitsFresh_of_queuesInTime [IsOrderedAddMonoid τ] [CanonicallyOrderedAdd τ] {now : τ}
    {prices : Expiring String String τ} {db : Ledger} {events : List (MarketEvent τ)}
    (hrun : Run (marketStep py ttl) (.initial now prices db) events m)
    (h : QueuesInTime py ttl (.initial now prices db) events) :
    EveryStep (marketStep py ttl) (.initial now prices db) events CommitsFresh := by
  intro pre e u hpre hu
  unfold CommitsFresh
  split
  · rename_i i
    intro call phase req hat hreq
    obtain ⟨v, hstep⟩ := hrun.exists_step hpre hu
    -- a commit ends a transaction, which has fetched its price before
    have hopen : ∃ job stage ws, u.world.At i call (.inTx job stage ws) := by
      cases marketStep_fires hstep with
      | ledger other moved =>
          cases step_fires moved with
          | commit here => exact ⟨_, _, _, (here.unique hat).1 ▸ here⟩
    obtain ⟨job, stage, ws, hopen⟩ := hopen
    obtain ⟨earlier, between, t, rfl, ht, hmissed, hserved, hjob⟩ := exists_fetchPrice hu hopen
    obtain ⟨ends, hends, -⟩ := hserved.exists_ends hjob hreq
    obtain ⟨t', ht', hrest⟩ := run_append_iff.mp hu
    obtain rfl := ht'.unique ht
    obtain ⟨hsame, hnow⟩ := of_fetchPrice hmissed hrest
    obtain ⟨queue, hqueue, hlt⟩ := h earlier i between t' call ends hpre ht hmissed hends
    refine ⟨ends, hsame.trans hends, ?_⟩
    calc u.now = t'.now + waited between := hnow
      _ ≤ t'.now + ∑ j ∈ queue, runningTime py ttl j t' (.ledger (.fetchPrice i) :: between) := by
          gcongr
          exact waited_le_of_queue hmissed hrest hopen hqueue
      _ < ends := hlt
  · trivial

/-! Where time only goes forward, no entry has more than its lifetime left. -/

variable [IsOrderedAddMonoid τ] [CanonicallyOrderedAdd τ] {now : τ} {prices : Expiring String String τ}
  {db : Ledger} {es : List (MarketEvent τ)}

theorem ends_le_of_run (hstart : ∀ key text ends, prices key = some (text, ends) → ends ≤ now + ttl)
    (hrun : Run (marketStep py ttl) (.initial now prices db) es m) :
    ∀ key text ends, m.prices key = some (text, ends) → ends ≤ m.now + ttl := by
  refine hrun.invariant (I := fun m => ∀ key text ends, m.prices key = some (text, ends) →
    ends ≤ m.now + ttl) hstart ?_
  intro t e u ht hstep key text ends hentry
  cases marketStep_fires hstep with
  | wait duration =>
      calc ends ≤ t.now + ttl := ht key text ends hentry
        _ ≤ t.now + duration + ttl := by gcongr; exact le_self_add
  | publish ticker text' =>
      have hset : t.prices.set (priceKey ticker) text' (t.now + ttl) key = some (text, ends) := hentry
      by_cases hkey : key = priceKey ticker
      · subst hkey
        rw [Expiring.set_self] at hset
        cases hset
        exact le_rfl
      · rw [Expiring.set_of_ne hkey] at hset
        exact ht key text ends hset
  | fetchPrice here served moved => exact ht key text ends hentry
  | ledger other moved => exact ht key text ends hentry

/-- A request that waits for the whole lifetime of a price holds one that has expired. -/
theorem expired_of_ttl_le (hstart : ∀ key text ends, prices key = some (text, ends) → ends ≤ now + ttl)
    {t : Market τ} (ht : Run (marketStep py ttl) (.initial now prices db) es t) {i : ℕ} {call : Call}
    (there : t.world.At i call .missed) {between : List (MarketEvent τ)}
    (hrest : Run (marketStep py ttl) t (.ledger (.fetchPrice i) :: between) m)
    (hlong : ttl ≤ waited between) {ends : τ} (hends : m.pricedUntil i = some ends) :
    ends ≤ m.now := by
  obtain ⟨hsame, hnow⟩ := of_fetchPrice there hrest
  rw [hsame, Market.ends?] at hends
  obtain ⟨key, -, hread⟩ := Option.bind_eq_some_iff.mp hends
  obtain ⟨⟨text, ends⟩, hentry, rfl⟩ := Option.map_eq_some_iff.mp hread
  calc ends ≤ t.now + ttl := ends_le_of_run hstart ht key text ends hentry
    _ ≤ t.now + waited between := by gcongr
    _ = m.now := hnow.symm

end Step

/-! ## 5. A trade behind a deposit -/

/-- The text of a price of 1. -/
def onePrice : String := "\x7b\"price\": 1\x7d"

/-- A purchase that gets this text. -/
def pricedPurchase : Call :=
  { purchaseCall 1 1 with
    cache := { get := fun _ => .raw onePrice, decode := fun _ => .finite 1 } }

/-- The purchase fetches its price while a deposit holds the portfolio's row; the deposit commits
`duration` seconds later. -/
def purchaseBehindDeposit (duration : ℕ) : List (MarketEvent ℕ) :=
  [.publish "A" onePrice, .ledger (.arrive (transferCall 1 "CREDIT" 1)), .ledger (.lookup 0),
    .ledger (.fetchPrice 0), .ledger (.statement 0), .ledger (.arrive pricedPurchase),
    .ledger (.lookup 1), .ledger (.fetchPrice 1), .wait duration, .ledger (.statement 0),
    .ledger (.statement 0), .ledger (.statement 0), .ledger (.commit 0), .ledger (.statement 1),
    .ledger (.statement 1), .ledger (.statement 1), .ledger (.statement 1), .ledger (.statement 1),
    .ledger (.commit 1)]

/-- The events before the purchase fetches its price, and those from there up to its commit. -/
theorem purchaseBehindDeposit_split {duration i : ℕ} {earlier between : List (MarketEvent ℕ)}
    (h : earlier ++ .ledger (.fetchPrice i) :: between ++ [.ledger (.commit i)] <+:
      purchaseBehindDeposit duration) :
    (i = 0 ∧ earlier = (purchaseBehindDeposit duration).take 3) ∨
      i = 1 ∧ earlier = (purchaseBehindDeposit duration).take 7 ∧
        .ledger (.fetchPrice i) :: between = ((purchaseBehindDeposit duration).drop 7).take 11 := by
  obtain ⟨later, h⟩ := h
  have hearlier : earlier = (purchaseBehindDeposit duration).take earlier.length := by
    rw [← h]
    simp
  have hbetween : .ledger (.fetchPrice i) :: between =
      ((purchaseBehindDeposit duration).drop earlier.length).take (between.length + 1) := by
    rw [← h]
    simp
  have hfetch : (purchaseBehindDeposit duration)[earlier.length]? =
      some (.ledger (.fetchPrice i)) := by
    rw [← h]
    simp
  have hcommit : ((purchaseBehindDeposit duration).drop (earlier.length + 1))[between.length]? =
      some (.ledger (.commit i)) := by
    rw [← h]
    simp
  -- two of the events are fetches, and each request commits once
  generalize earlier.length = n at *
  generalize between.length = k at *
  have hn : n < 19 := (List.getElem?_eq_some_iff.mp hfetch).1
  have hk : k < 19 := by
    have hlt := (List.getElem?_eq_some_iff.mp hcommit).1
    rw [List.length_drop] at hlt
    exact hlt.trans_le (Nat.sub_le _ _)
  interval_cases n
  all_goals simp [purchaseBehindDeposit] at hfetch
  · exact .inl ⟨hfetch.symm, hearlier⟩
  · subst hfetch
    refine .inr ⟨rfl, hearlier, ?_⟩
    interval_cases k
    all_goals simp [purchaseBehindDeposit] at hcommit
    exact hbetween

/-- For the purchase, five seconds of the deposit's are within the ten that its price has left. -/
theorem queuesInTime_purchaseBehindDeposit :
    QueuesInTime .default 10 (.initial 0 .empty firstPortfolio) (purchaseBehindDeposit 5) := by
  intro earlier i between t call ends hpre ht hat hends
  rcases purchaseBehindDeposit_split hpre with ⟨rfl, rfl⟩ | ⟨rfl, rfl, hbetween⟩
  · -- the deposit has no price
    have hrequest : (exec (marketStep .default 10) (.initial 0 .empty firstPortfolio)
        ((purchaseBehindDeposit 5).take 3)).map
          (fun t => (t.world.requests[0]?).map fun slot => t.ends? .default slot.call) =
            some (some none) := by
      decide +kernel
    unfold Run at ht
    unfold World.At at hat
    simp only [ht, hat, Option.map_some, Option.some.injEq, hends] at hrequest
    cases hrequest
  · have hvalues : (exec (marketStep .default 10) (.initial 0 .empty firstPortfolio)
        ((purchaseBehindDeposit 5).take 7)).map
          (fun t => ((t.world.requests[1]?).map fun slot => t.ends? .default slot.call,
            checkSteps (marketStep .default 10) (fun m _ => m.world.requests.length = 2) t
              (((purchaseBehindDeposit 5).drop 7).take 11),
            t.now + ∑ j ∈ Finset.range 2, runningTime .default 10 j t
              (((purchaseBehindDeposit 5).drop 7).take 11))) =
            some (some (some 10), true, 5) := by
      decide +kernel
    unfold Run at ht
    unfold World.At at hat
    rw [hbetween]
    simp only [ht, hat, Option.map_some, Option.some.injEq, hends, Prod.mk.injEq] at hvalues
    obtain ⟨rfl, htwo, htime⟩ := hvalues
    refine ⟨Finset.range 2, ?_, by rw [htime]; norm_num⟩
    refine everyStep_of_checkSteps (fun m _ hlength j hreach => ?_) htwo
    have hlength : m.world.requests.length = 2 := by simpa using hlength
    have hlt := World.lt_of_reflTransGen_waitsFor (by omega) hreach
    exact Finset.mem_range.mpr (hlength ▸ hlt)

theorem commitsFresh_of_queuesInTime_purchaseBehindDeposit :
    EveryStep (marketStep .default 10) (.initial 0 .empty firstPortfolio) (purchaseBehindDeposit 5)
      CommitsFresh := by
  have hcommits : (exec (marketStep .default 10) (.initial 0 .empty firstPortfolio)
      (purchaseBehindDeposit 5)).map (fun m => m.world.db.trades.length) = some 1 := by
    decide +kernel
  obtain ⟨m, hrun, -⟩ := Option.map_eq_some_iff.mp hcommits
  exact commitsFresh_of_queuesInTime hrun queuesInTime_purchaseBehindDeposit

/-- The purchase commits at the price that has expired while it waited. -/
theorem not_commitsFresh_purchaseBehindDeposit :
    ¬ EveryStep (marketStep .default 10) (.initial 0 .empty firstPortfolio)
      (purchaseBehindDeposit 10) CommitsFresh := by
  intro h
  have hbefore : (exec (marketStep .default 10) (.initial 0 .empty firstPortfolio)
      (purchaseBehindDeposit 10).dropLast).map
        (fun m => (m.now, m.pricedUntil 1, (m.world.requests[1]?).map (·.call.request))) =
          some (10, some 10, some pricedPurchase.request) := by
    decide +kernel
  obtain ⟨m, hrun, hm⟩ := Option.map_eq_some_iff.mp hbefore
  obtain ⟨hnow, hm⟩ := Prod.mk.inj hm
  obtain ⟨huntil, hslot⟩ := Prod.mk.inj hm
  obtain ⟨⟨call, phase⟩, hat, hrequest⟩ := Option.map_eq_some_iff.mp hslot
  obtain ⟨ends, hends, hlt⟩ := h _ _ m (List.prefix_refl _) hrun call phase _ hat hrequest
  rw [huntil] at hends
  rw [hnow, ← Option.some.inj hends] at hlt
  exact lt_irrefl _ hlt

end DjasktTrading.Ledger
