import DjasktTrading.Service.Requests

/-!
# Authorization — who moved the money

Whatever runs at the same time, an entry is made on a portfolio only by a request whose token has been
checked and found to be the owner's, and the token goes back to a login.
-/

open Reasoning

namespace DjasktTrading.Service

open Accounts Accounts.Clocked Accounts.Clocked.Rotation

variable {τ : Type} [LinearOrder τ] {c : Clock τ} {py : Python} {start : Ledger} {w w' : World τ}
  {es : List (Event τ)} {e : Event τ}

/-! ## 1. Where submissions come from -/

/-- Only an arrival adds a request. -/
theorem at_of_step {u v : Ledger.World} {e : Ledger.Event} {i : ℕ} {call : Ledger.Call}
    {phase : Ledger.Phase} (hstep : Ledger.step py u e = some v) (hown : ∀ call, e ≠ .arrive call)
    (there : v.At i call phase) : ∃ phase', u.At i call phase' := by
  have aux {j : ℕ} {call' : Ledger.Call} {old new : Ledger.Phase} (here : u.At j call' old)
      (there : (u.put j new).At i call phase) : ∃ phase', u.At i call phase' := by
    rcases Ledger.World.at_put_cases here there with ⟨rfl, rfl, -⟩ | ⟨-, there⟩
    · exact ⟨old, here⟩
    · exact ⟨phase, there⟩
  cases Ledger.step_fires hstep with
  | arrive call' => exact absurd rfl (hown call')
  | lookup here => exact aux here there
  | priced here opened => exact aux here there
  | unpriced here refused => exact aux here there
  | ran here left free returned => exact aux here there
  | raised here free threw => exact aux here there
  | commit here => exact aux here there
  | fail here early => exact aux here there
  | skipBroadcast here => exact aux here there
  | reread here => exact aux here there
  | rereadFails here => exact aux here there
  | groupSend here => exact aux here there
  | groupSendFails here => exact aux here there

/-- The request asks for this call, on the portfolio of its user. -/
def Incoming.Makes (py : Python) (start : Ledger) (incoming : Incoming) (call : Ledger.Call) : Prop :=
  ∃ request id, incoming.mutation.request py = .ok request ∧
    (Ledger.portfolioOf? start incoming.user).map (·.id) = some id ∧
      call = { request := request id, cache := incoming.cache, fresh := incoming.fresh }

theorem makes_of_call? {db : Ledger} {incoming : Incoming} {call : Ledger.Call}
    (hdb : Ledger.Extends start db)
    (h : incoming.mutation.call? py incoming.context db = some call) :
    incoming.Makes py start call := by
  obtain ⟨request, portfolio, hrequest, hportfolio, rfl⟩ := Ledger.Mutation.call?_eq_some h
  refine ⟨request, portfolio.id, hrequest, ?_, rfl⟩
  rw [← hdb.portfolioOf? incoming.user]
  rw [show Ledger.portfolioOf? db incoming.user = some portfolio from hportfolio, Option.map_some]

theorem extends_of_run (hids : (start.portfolios.map (·.id)).Nodup)
    (hrun : Run (step c py) (.initial c start) es w) : Ledger.Extends start w.ledger.db := by
  obtain ⟨fs, hledger⟩ := run_ledger hrun
  exact (Ledger.grows_of_run hids (Ledger.Inv.of_run hledger).serial).rows

/-! ## 2. What a check has found -/

/-- At a step of the check of request `k`, the run so far and its state have `P`. -/
def CheckedAt (c : Clock τ) (py : Python) (start : Ledger) (k : ℕ)
    (P : List (Event τ) → World τ → Prop) (es : List (Event τ)) : Prop :=
  ∃ pre v, pre ++ [.check k] <+: es ∧ Run (step c py) (.initial c start) pre v ∧ P pre v

theorem CheckedAt.mono {k : ℕ} {P : List (Event τ) → World τ → Prop} {es' : List (Event τ)}
    (h : CheckedAt c py start k P es) (hle : es <+: es') : CheckedAt c py start k P es' := by
  obtain ⟨pre, v, hpre, hrest⟩ := h
  exact ⟨pre, v, hpre.trans hle, hrest⟩

theorem CheckedAt.imp {k : ℕ} {P Q : List (Event τ) → World τ → Prop}
    (h : CheckedAt c py start k P es)
    (hPQ : ∀ pre v, Run (step c py) (.initial c start) pre v → P pre v → Q pre v) :
    CheckedAt c py start k Q es := by
  obtain ⟨pre, v, hpre, hv, hP⟩ := h
  exact ⟨pre, v, hpre, hv, hPQ pre v hv hP⟩

/-- The token is a signed access token that has not expired. -/
structure World.Valid (c : Clock τ) (w : World τ) (token : Token) : Prop where
  signed : token ∈ w.accounts.server.signed
  unexpired : w.accounts.clock < c.instant token.exp
  access : token.tokenType = .access

/-- Request `k` has had its token decoded. -/
def Decoded (c : Clock τ) (py : Python) (start : Ledger) (k : ℕ) (token : Token) :
    List (Event τ) → Prop :=
  CheckedAt c py start k fun _ v => v.Valid c token

/-- Then its token has not been found denied. -/
def Undenied (c : Clock τ) (py : Python) (start : Ledger) (k : ℕ) (token : Token) :
    List (Event τ) → Prop :=
  CheckedAt c py start k fun pre v => Decoded c py start k token pre ∧
    isDenied v.accounts.server.redis v.accounts.clock token.jti = false

/-- And then not cut off. -/
def Passed (c : Clock τ) (py : Python) (start : Ledger) (k : ℕ) (token : Token) :
    List (Event τ) → Prop :=
  CheckedAt c py start k fun pre v => Undenied c py start k token pre ∧
    isDeniedForUser v.accounts.server.redis v.accounts.clock token.userId token.iat = false

/-- What a request has shown to come as far as it has. -/
def Passage.Earned (c : Clock τ) (py : Python) (start : Ledger) (k : ℕ) (token : Token)
    (es : List (Event τ)) : Passage → Prop
  | .checking .decode => True
  | .checking .isDenied => Decoded c py start k token es
  | .checking .isDeniedForUser => Undenied c py start k token es
  | .authenticated => Passed c py start k token es
  | .submitted _ => Passed c py start k token es
  | .rejected _ => True
  | .refused _ => True

theorem Passage.Earned.mono {k : ℕ} {token : Token} {passage : Passage} {es' : List (Event τ)}
    (h : passage.Earned c py start k token es) (hle : es <+: es') :
    passage.Earned c py start k token es' := by
  cases passage with
  | checking check =>
      cases check with
      | decode => trivial
      | isDenied => exact CheckedAt.mono h hle
      | isDeniedForUser => exact CheckedAt.mono h hle
  | authenticated => exact CheckedAt.mono h hle
  | submitted i => exact CheckedAt.mono h hle
  | rejected response => trivial
  | refused response => trivial

/-- A step of the check earns the next. -/
theorem earned_authenticate {k : ℕ} {incoming : Incoming} {check : BearerCheck}
    (hrun : Run (step c py) (.initial c start) es w)
    (h : (Passage.checking check).Earned c py start k incoming.bearer es) :
    (authenticate c w.accounts incoming check).Earned c py start k incoming.bearer
      (es ++ [.check k]) := by
  unfold authenticate
  rcases check.next_cases c w.accounts.server w.accounts.clock incoming.bearer Passage.checking
    .authenticated .rejected with
      ⟨response, hnext⟩ | ⟨rfl, hdecode, hnext⟩ | ⟨rfl, hfree, hnext⟩ | ⟨rfl, hyoung, hnext⟩
  · rw [hnext]
    trivial
  · rw [hnext]
    obtain ⟨hsigned, hvalid, htype⟩ := decode_eq_ok_iff.mp hdecode
    exact ⟨es, w, List.prefix_refl _, hrun, hsigned, hvalid, htype⟩
  · rw [hnext]
    exact ⟨es, w, List.prefix_refl _, hrun, h, hfree⟩
  · rw [hnext]
    exact ⟨es, w, List.prefix_refl _, hrun, h, hyoung⟩

structure Inv (c : Clock τ) (py : Python) (start : Ledger) (es : List (Event τ)) (w : World τ) :
    Prop where
  earned : ∀ {k : ℕ} {incoming : Incoming} {passage : Passage},
    w.slots[k]? = some ⟨incoming, passage⟩ → passage.Earned c py start k incoming.bearer es
  submitted : ∀ {i : ℕ} {call : Ledger.Call} {phase : Ledger.Phase}, w.ledger.At i call phase →
    ∃ (k : ℕ) (incoming : Incoming),
      w.slots[k]? = some ⟨incoming, .submitted i⟩ ∧ incoming.Makes py start call

theorem Inv.set_of_not_submitted (h : Inv c py start es w) {k : ℕ} {incoming : Incoming}
    {old new : Passage} (here : w.slots[k]? = some ⟨incoming, old⟩) (hold : ∀ i, old ≠ .submitted i)
    (hnew : new.Earned c py start k incoming.bearer (es ++ [e])) :
    Inv c py start (es ++ [e]) { w with slots := w.slots.set k ⟨incoming, new⟩ } := by
  constructor
  · intro j incoming' passage hslot
    rcases getElem?_set_cases hslot with ⟨rfl, hsame⟩ | ⟨-, hslot⟩
    · obtain ⟨rfl, rfl⟩ := Slot.mk.inj hsame
      exact hnew
    · exact (h.earned hslot).mono (List.prefix_append _ _)
  · intro i call phase there
    obtain ⟨j, incoming', hslot, hmakes⟩ := h.submitted there
    refine ⟨j, incoming', ?_, hmakes⟩
    rw [List.getElem?_set_ne, hslot]
    rintro rfl
    have hsame := (Slot.mk.inj (Option.some.inj (here.symm.trans hslot))).2
    exact hold i hsame

theorem Inv.step (h : Inv c py start es w) (hdb : Ledger.Extends start w.ledger.db)
    (hrun : Run (step c py) (.initial c start) es w) (hstep : Service.step c py w e = some w') :
    Inv c py start (es ++ [e]) w' := by
  have hle : es <+: es ++ [e] := List.prefix_append _ _
  cases step_fires hstep with
  | accounts stepped => exact ⟨fun hslot => (h.earned hslot).mono hle, h.submitted⟩
  | receive =>
      constructor
      · intro k incoming' passage hslot
        rcases getElem?_append_singleton_cases hslot with hslot | ⟨rfl, hnew⟩
        · exact (h.earned hslot).mono hle
        · obtain ⟨rfl, rfl⟩ := Slot.mk.inj hnew
          trivial
      · intro i call phase there
        obtain ⟨k, incoming', hslot, hmakes⟩ := h.submitted there
        have hlt := (List.getElem?_eq_some_iff.mp hslot).1
        exact ⟨k, incoming', by rwa [List.getElem?_append_left hlt], hmakes⟩
  | check here => exact h.set_of_not_submitted here nofun (earned_authenticate hrun (h.earned here))
  | refuse here => exact h.set_of_not_submitted here nofun trivial
  | @submit k incoming call ledger here made arrived =>
      have hpassed : (Passage.submitted w.ledger.requests.length).Earned c py start k incoming.bearer
          (es ++ [.resolve k]) := (h.earned here).mono hle
      have hset := h.set_of_not_submitted here nofun hpassed
      refine ⟨hset.earned, fun {i call' phase} there => ?_⟩
      obtain rfl := Option.some.inj arrived
      rcases Ledger.World.at_arrive_cases there with there | ⟨rfl, hnew⟩
      · exact hset.submitted there
      · obtain ⟨rfl, -⟩ := Ledger.Slot.mk.inj hnew
        have hlt := (List.getElem?_eq_some_iff.mp here).1
        exact ⟨k, incoming, List.getElem?_set_self hlt, makes_of_call? hdb made⟩
  | ledger own stepped =>
      refine ⟨fun hslot => (h.earned hslot).mono hle, fun there => ?_⟩
      obtain ⟨phase', there⟩ := at_of_step stepped own there
      exact h.submitted there

theorem Inv.of_run (hids : (start.portfolios.map (·.id)).Nodup)
    (hrun : Run (Service.step c py) (.initial c start) es w) : Inv c py start es w := by
  refine hrun.induction (motive := Inv c py start) ?_ ?_
  · constructor
    · intro k incoming passage hslot
      cases hslot
    · intro i call phase there
      cases there
  · intro es v e u hv ih hstep
    exact ih.step (extends_of_run hids hv) hv hstep

/-! ## 3. Every commit is authorised -/

/-- The token whose denial the step writes. -/
def World.denies? (w : World τ) : Event τ → Option Token
  | .accounts e => w.accounts.denies? e
  | _ => none

/-- The user whose cutoff the step writes, and the cutoff. -/
def World.cutsOff? (w : World τ) : Event τ → Option (UserId × ℕ)
  | .accounts e => w.accounts.cutsOff? e
  | _ => none

theorem Incoming.Makes.portfolioId {incoming : Incoming} {call : Ledger.Call}
    (h : incoming.Makes py start call) :
    (Ledger.portfolioOf? start incoming.user).map (·.id) = some call.request.portfolioId := by
  obtain ⟨request, id, hrequest, hid, rfl⟩ := h
  rw [hid]
  rcases Ledger.Mutation.request_eq_ok hrequest with ⟨_, req, -, hreq⟩ | ⟨_, req, -, hreq⟩ <;>
    simp only [hreq, Ledger.Request.portfolioId]

/-- The token that the next step of the check looks up in Redis. -/
def Slot.looksUp? : Slot → Option Token
  | ⟨incoming, .checking check⟩ => check.looksUp? incoming.bearer
  | _ => none

/-- The user does not log in, and no token of the user's expires between its decoding and its lookups
in Redis. -/
structure World.Quiet (c : Clock τ) (w : World τ) (user : UserId) (e : Event τ) : Prop where
  accounts : ∀ a, e = .accounts a → w.accounts.Quiet c user a
  prompt : ∀ k slot token, e = .check k → w.slots[k]? = some slot → slot.looksUp? = some token →
    token.userId = user → w.accounts.clock < c.instant token.exp

/-- The request has not passed its check, and cannot where its user has no token left. -/
def Slot.Idle (c : Clock τ) (server : Server τ) (slot : Slot) : Prop :=
  match slot.passage with
  | .checking .decode => True
  | .checking .isDenied => slot.incoming.bearer ∈ server.signed
  | .checking .isDeniedForUser => CutOff c server slot.incoming.bearer
  | .authenticated => False
  | .submitted _ => False
  | .rejected _ => True
  | .refused _ => True

/-- In `v` the request had had its token decoded. -/
def World.HasDecoded (v : World τ) (k : ℕ) (incoming : Incoming) : Prop :=
  ∃ passage, v.slots[k]? = some ⟨incoming, passage⟩ ∧ passage ≠ .checking .decode

/-- A request of the user's that had not had its token decoded in `v` does not pass its check. -/
structure Frozen (c : Clock τ) (v : World τ) (user : UserId) (w : World τ) : Prop where
  sound : Sound c w.accounts
  bereft : w.accounts.Bereft c user
  idle : ∀ k slot, w.slots[k]? = some slot → slot.incoming.user = user →
    v.HasDecoded k slot.incoming ∨ slot.Idle c w.accounts.server

theorem Slot.Idle.mono {slot : Slot} {server server' : Server τ} (h : slot.Idle c server)
    (hsigned : ∀ token ∈ server.signed, token ∈ server'.signed)
    (hkeeps : CutOff c server slot.incoming.bearer → CutOff c server' slot.incoming.bearer) :
    slot.Idle c server' := by
  obtain ⟨incoming, passage⟩ := slot
  cases passage with
  | checking check =>
      cases check with
      | decode => trivial
      | isDenied => exact hsigned _ h
      | isDeniedForUser => exact hkeeps h
  | authenticated => exact h
  | submitted i => exact h
  | rejected response => trivial
  | refused response => trivial

/-- A request with a token of a user with no token left is rejected. -/
theorem Slot.Idle.authenticate {incoming : Incoming} {check : BearerCheck}
    (h : (Slot.mk incoming (.checking check)).Idle c w.accounts.server)
    (hbereft : w.accounts.Bereft c incoming.user)
    (hprompt : ∀ token, (Slot.mk incoming (.checking check)).looksUp? = some token →
      token.userId = incoming.user → w.accounts.clock < c.instant token.exp) :
    (Slot.mk incoming (authenticate c w.accounts incoming check)).Idle c w.accounts.server := by
  unfold Service.authenticate
  rcases check.next_cases c w.accounts.server w.accounts.clock incoming.bearer Passage.checking
    .authenticated .rejected with
      ⟨response, hnext⟩ | ⟨rfl, hdecode, hnext⟩ | ⟨rfl, hfree, hnext⟩ | ⟨rfl, hyoung, hnext⟩
  · rw [hnext]
    trivial
  · rw [hnext]
    exact (decode_eq_ok_iff.mp hdecode).1
  · rw [hnext]
    exact ((hbereft.dead incoming.bearer h rfl).cutOff (hprompt incoming.bearer rfl rfl) hfree).2
  · rw [CutOff.isDeniedForUser h (hprompt incoming.bearer rfl rfl)] at hyoung
    cases hyoung

theorem Frozen.initial {user : UserId} (hsound : Sound c w.accounts)
    (hbereft : w.accounts.Bereft c user) : Frozen c w user w where
  sound := hsound
  bereft := hbereft
  idle k slot hslot _ := by
    obtain ⟨incoming, passage⟩ := slot
    by_cases hpassage : passage = .checking .decode
    · subst hpassage
      exact .inr trivial
    · exact .inl ⟨passage, hslot, hpassage⟩

theorem Frozen.step {v : World τ} {user : UserId} (h : Frozen c v user w)
    (hquiet : w.Quiet c user e) (hstep : step c py w e = some w') : Frozen c v user w' := by
  cases step_fires hstep with
  | @accounts a accounts stepped =>
      obtain ⟨hsound, hlater⟩ := h.sound.step (ownStep_eq_some stepped).2
      obtain ⟨hbereft, hkeeps⟩ := h.bereft.step h.sound stepped (hquiet.accounts a rfl)
      exact ⟨hsound, hbereft, fun k slot hslot huser => (h.idle k slot hslot huser).imp_right
        fun hidle => hidle.mono hlater.signed (hkeeps _ huser)⟩
  | receive =>
      refine ⟨h.sound, h.bereft, fun k slot hslot huser => ?_⟩
      rcases getElem?_append_singleton_cases hslot with hslot | ⟨rfl, rfl⟩
      · exact h.idle k slot hslot huser
      · exact .inr trivial
  | @check k incoming check here =>
      refine ⟨h.sound, h.bereft, fun j slot hslot huser => ?_⟩
      rcases getElem?_set_cases hslot with ⟨rfl, rfl⟩ | ⟨-, hslot⟩
      · refine (h.idle k _ here huser).imp_right fun hidle => ?_
        obtain rfl : incoming.user = user := huser
        exact hidle.authenticate h.bereft fun token => hquiet.prompt k _ token rfl here
      · exact h.idle j slot hslot huser
  | @refuse k incoming here =>
      refine ⟨h.sound, h.bereft, fun j slot hslot huser => ?_⟩
      rcases getElem?_set_cases hslot with ⟨rfl, rfl⟩ | ⟨-, hslot⟩
      · exact .inr trivial
      · exact h.idle j slot hslot huser
  | @submit k incoming call ledger here made arrived =>
      refine ⟨h.sound, h.bereft, fun j slot hslot huser => ?_⟩
      rcases getElem?_set_cases hslot with ⟨rfl, rfl⟩ | ⟨-, hslot⟩
      · exact .inl ((h.idle k _ here huser).resolve_right fun hidle => hidle)
      · exact h.idle j slot hslot huser
  | ledger own stepped => exact ⟨h.sound, h.bereft, h.idle⟩

end DjasktTrading.Service
