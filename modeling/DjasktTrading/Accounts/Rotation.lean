import DjasktTrading.Accounts.TokenRequests
import DjasktTrading.Reasoning.Slots

/-!
# Rotation — a refresh token is spent once

A refresh checks the denylist in one step and writes it in another.  A token is spent once in the runs
in which no two passages between check and answer overlap.
-/

open Reasoning

namespace DjasktTrading.Accounts.Clocked.Rotation

variable {τ : Type} [LinearOrder τ] (c : Clock τ)

/-! ## 1. Spent tokens -/

/-- No pair is answered for a token for which one was answered before, or that was logged out. -/
def SpentOnce (log : List Outcome) : Prop :=
  log.Pairwise fun earlier later => ∀ token, later = .rotated token → earlier.token ≠ token

def World.passing (w : World τ) (i : ℕ) : Option Token := w.tasks[i]?.bind Task.passing

/-- A refresh of the token is between the check that it has passed and its answer. -/
def World.Passes (w : World τ) (token : Token) : Prop :=
  token ∈ w.tasks.filterMap Task.passing

instance (w : World τ) (token : Token) : Decidable (w.Passes token) :=
  inferInstanceAs (Decidable (_ ∈ _))

/-- No refresh passes the check of a token while another is between its check and its answer, or
after the token's `exp` when it was answered for before; and no logout returns while a refresh of the
token it names is between its check and its answer. -/
def World.Separate (w : World τ) : Event τ → Prop
  | .advance i _ =>
      match w.tasks[i]? with
      | some (.refresh oldRefresh .checkDenylist) =>
          isDenied w.server.redis w.clock oldRefresh.jti = false →
            ¬ w.Passes oldRefresh ∧
              (w.clock < c.instant oldRefresh.exp ∨ ∀ o ∈ w.log, o.token ≠ oldRefresh)
      | some (.logout _ _ _ (.returning (some token))) => ¬ w.Passes token
      | _ => True
  | _ => True

instance (w : World τ) (e : Event τ) : Decidable (w.Separate c e) := by
  cases e
  case advance i pair =>
    unfold World.Separate
    dsimp only
    split
    · exact instDecidableForall
    · exact instDecidableNot
    · exact instDecidableTrue
  all_goals exact instDecidableTrue

omit [LinearOrder τ] in
theorem World.passes_of_passing {w : World τ} {i : ℕ} {token : Token}
    (h : w.passing i = some token) : w.Passes token := by
  obtain ⟨task, htask, hpassing⟩ := Option.bind_eq_some_iff.mp h
  exact List.mem_filterMap.mpr ⟨task, List.mem_of_getElem? htask, hpassing⟩

/-! ## 2. The invariant -/

section

variable {c} {server : Server τ} {now : τ} {token : Token} {pair : TokenPair}

/-- A refresh comes to be between its check and its answer by passing the check. -/
theorem passing_next {task : Task τ} (h : (task.next c server now pair).1.passing = some token) :
    task.passing = some token ∨
      task = .refresh token .checkDenylist ∧ isDenied server.redis now token.jti = false := by
  cases task with
  | refresh oldRefresh phase =>
      cases phase with
      | verify =>
          dsimp only [Task.next, RefreshPhase.next] at h
          split at h
          · cases h
          · cases h
      | checkDenylist =>
          dsimp only [Task.next, RefreshPhase.next] at h
          split at h
          · cases h
          · rename_i hdenied
            cases h
            exact .inr ⟨rfl, by simpa using hdenied⟩
      | loadUser => exact .inl h
      | readClock => exact .inl h
      | writeDenylist read => exact .inl h
      | mint => cases h
      | answered response => cases h
      | raised => cases h
  | logout bearer access refresh phase => cases h
  | logoutAll bearer phase => cases h

/-- What a step answers is of a token that it had settled; a rotation ends its passage. -/
theorem outcome_cases (pair : TokenPair) {task : Task τ} {o : Outcome} (h : o ∈ task.outcome)
    (hfits : task.Fits c server now) :
    Settled c server now o.token ∧ (task.next c server now pair).1.passing = none ∧
      task.outcome = [o] ∧
      (task.passing = some o.token ∨
        ∃ bearer access refresh,
          task = .logout bearer access refresh (.returning (some o.token)) ∧
            o = .loggedOut o.token) := by
  unfold Task.outcome at h
  split at h
  · obtain rfl := List.mem_singleton.mp h
    exact ⟨hfits, rfl, rfl, .inl rfl⟩
  · obtain rfl := List.mem_singleton.mp h
    exact ⟨hfits, rfl, rfl, .inr ⟨_, _, _, rfl, rfl⟩⟩
  · cases h

end

structure Inv (c : Clock τ) (w : World τ) : Prop where
  sound : Sound c w
  /-- no two refreshes of a token are between check and answer -/
  alone : ∀ i j token, w.passing i = some token → w.passing j = some token → i = j
  /-- and none is once the token was answered for -/
  ended : ∀ o ∈ w.log, Settled c w.server w.clock o.token ∧ ∀ i, w.passing i ≠ some o.token
  spent : SpentOnce w.log

section

variable {c} {w w' : World τ} {e : Event τ} {pair : TokenPair}

theorem Inv.initial : Inv c (.initial c) where
  sound := .initial
  alone i j token h := by simp [World.passing, World.initial] at h
  ended _ h := by cases h
  spent := List.Pairwise.nil

/-- A step that no refresh passes its check by and that answers nothing. -/
theorem Inv.of_later (h : Inv c w)
    (hsound : Sound c w' ∧ Later c w.server w.clock w'.server w'.clock)
    (hpassing : ∀ i token, w'.passing i = some token → w.passing i = some token)
    (hlog : w'.log = w.log) : Inv c w' where
  sound := hsound.1
  alone i j token hi hj := h.alone i j token (hpassing i token hi) (hpassing j token hj)
  ended o ho := by
    obtain ⟨hsettled, hnone⟩ := h.ended o (hlog ▸ ho)
    exact ⟨hsound.2.settled _ hsettled, fun i hi => hnone i (hpassing i _ hi)⟩
  spent := hlog ▸ h.spent

theorem Inv.advance (h : Inv c w) {i : ℕ} (hseparate : w.Separate c (.advance i pair))
    (hstep : Rotation.step c w (.advance i pair) = some w') : Inv c w' := by
  obtain ⟨hsound, hlater⟩ := h.sound.step hstep
  obtain ⟨task, htask, rfl⟩ : ∃ task, w.tasks[i]? = some task ∧ w' = { w with
      server := (task.next c w.server w.clock pair).2
      tasks := w.tasks.set i (task.next c w.server w.clock pair).1
      log := w.log ++ task.outcome } := by
    cases step_fires hstep with
    | advance here mints => exact ⟨_, here, rfl⟩
    | arrive new => cases new
  have hfits : task.Fits c w.server w.clock := h.sound.fits task (List.mem_of_getElem? htask)
  have hat : w.passing i = task.passing := by rw [World.passing, htask]; rfl
  -- a token whose refresh comes past its check here has been neither passed nor answered for
  have hchecked : ∀ token, task = .refresh token .checkDenylist →
      isDenied w.server.redis w.clock token.jti = false →
        (∀ j, w.passing j ≠ some token) ∧ ∀ o ∈ w.log, o.token ≠ token := by
    rintro token rfl hdenied
    simp only [World.Separate, htask] at hseparate
    obtain ⟨hnone, hvalid | hnew⟩ := hseparate hdenied
    · refine ⟨fun j hj => hnone (World.passes_of_passing hj), fun o ho heq => ?_⟩
      have hsettled := (h.ended o ho).1
      rw [heq] at hsettled
      rw [hsettled.isDenied hvalid] at hdenied
      cases hdenied
    · exact ⟨fun j hj => hnone (World.passes_of_passing hj), hnew⟩
  have hpasses : ∀ j token, ((w.tasks.set i (task.next c w.server w.clock pair).1)[j]?).bind
      Task.passing = some token → w.passing j = some token ∨
        i = j ∧ (∀ k, w.passing k ≠ some token) ∧ ∀ o ∈ w.log, o.token ≠ token := by
    intro j token hj
    rcases bind_set_cases hj with ⟨rfl, hnextj⟩ | ⟨-, holdj⟩
    · rcases passing_next hnextj with hpassing | ⟨hcheck, hdenied⟩
      · exact .inl (hat.trans hpassing)
      · exact .inr ⟨rfl, hchecked token hcheck hdenied⟩
    · exact .inl holdj
  constructor
  · exact hsound
  · intro j k token hj hk
    rcases hpasses j token hj with holdj | ⟨rfl, hfresh, -⟩
    · rcases hpasses k token hk with holdk | ⟨-, hfresh, -⟩
      · exact h.alone j k token holdj holdk
      · exact absurd holdj (hfresh j)
    · rcases hpasses k token hk with holdk | ⟨heq, -⟩
      · exact absurd holdk (hfresh k)
      · exact heq
  · intro o ho
    rcases List.mem_append.mp ho with hold | hnew
    · obtain ⟨hsettled, hnone⟩ := h.ended o hold
      refine ⟨hlater.settled _ hsettled, fun j hj => ?_⟩
      rcases hpasses j o.token hj with holdj | ⟨-, -, hfresh⟩
      · exact hnone j holdj
      · exact hfresh o hold rfl
    · obtain ⟨hsettled, hends, -, hkind⟩ := outcome_cases pair hnew hfits
      refine ⟨hlater.settled _ hsettled, fun j hj => ?_⟩
      rcases bind_set_cases hj with ⟨-, hnextj⟩ | ⟨hij, holdj⟩
      · rw [hends] at hnextj
        cases hnextj
      · rcases hkind with hpassing | ⟨bearer, access, refresh, rfl, -⟩
        · exact hij (h.alone i j _ (hat.trans hpassing) holdj)
        · simp only [World.Separate, htask] at hseparate
          exact hseparate (World.passes_of_passing holdj)
  · refine List.pairwise_append.mpr ⟨h.spent, ?_, ?_⟩
    · cases houtcome : task.outcome with
      | nil => exact List.Pairwise.nil
      | cons o rest =>
          obtain ⟨-, -, hsingle, -⟩ :=
            outcome_cases pair (houtcome ▸ List.mem_cons_self) hfits
          rw [houtcome] at hsingle
          rw [hsingle]
          exact List.pairwise_singleton _ _
    · rintro earlier hearlier later hnew token rfl heq
      -- the refresh of the token was between its check and its answer
      obtain ⟨-, -, -, hpassing | ⟨-, -, -, -, hkind⟩⟩ := outcome_cases pair hnew hfits
      · exact (h.ended earlier hearlier).2 i (by rw [hat, hpassing, heq]; rfl)
      · cases hkind

/-- Every step that keeps the passages of a token apart keeps the invariant. -/
theorem Inv.step (h : Inv c w) (hseparate : w.Separate c e)
    (hstep : Rotation.step c w e = some w') : Inv c w' := by
  have hsound := h.sound.step hstep
  cases step_fires hstep with
  | login fresh => exact h.of_later hsound (fun _ _ hi => hi) rfl
  | arrive new =>
      refine h.of_later hsound (fun _ _ hi => bind_append_singleton ?_ hi) rfl
      cases new <;> rfl
  | advance here mints => exact h.advance hseparate hstep
  | userMissing here =>
      refine h.of_later hsound (fun j token hj => ?_) rfl
      rcases bind_set_cases hj with ⟨-, hj⟩ | ⟨-, hj⟩
      · cases hj
      · exact hj
  | wait later => exact h.of_later hsound (fun _ _ hi => hi) rfl

end

/-- **Refresh tokens are spent once.**  In a run whose steps keep the passages of a token apart, no
state has a pair answered for a token that was exchanged or logged out before. -/
theorem spentOnce_of_separate (c : Clock τ) {es : List (Event τ)}
    (h : EveryStep (step c) (.initial c) es (World.Separate c)) :
    EveryState (step c) (.initial c) es fun _ w => SpentOnce w.log := by
  have hinv : EveryState (step c) (.initial c) es fun _ w => Inv c w :=
    h.everyState .initial fun _ _ _ _ _ hw hseparate hstep => hw.step hseparate hstep
  exact fun pre w hpre hrun => (hinv pre w hpre hrun).spent

/-- The steps of one request in a row. -/
def advances (i n : ℕ) : List (Event ℕ) :=
  List.replicate n (.advance i (samplePair ⟨3, 4⟩))

/-- A login, a refresh, a second refresh with the same token, and a logout of the new one. -/
def refreshedTwice : List (Event ℕ) :=
  [.login (samplePair ⟨1, 2⟩), .arriveRefresh (sampleToken .refresh 1)] ++ advances 0 6 ++
    [.arriveRefresh (sampleToken .refresh 1)] ++ advances 1 2 ++
      [.arriveLogout (sampleToken .access 2) none (some (sampleToken .refresh 3))] ++ advances 2 8

theorem spentOnce_of_separate_refreshedTwice :
    (exec (step microseconds) (.initial microseconds) refreshedTwice).isSome ∧
      EveryState (step microseconds) (.initial microseconds) refreshedTwice
        fun _ w => SpentOnce w.log := by
  refine ⟨by decide +kernel, spentOnce_of_separate microseconds ?_⟩
  refine everyStep_of_checkSteps (c := fun w e => decide (w.Separate microseconds e))
    (fun w e h => of_decide_eq_true h) ?_
  decide +kernel

/-- Two refreshes check the token before one of them writes. -/
def checkedTwice : List (Event ℕ) :=
  [.login (samplePair ⟨1, 2⟩), .arriveRefresh (sampleToken .refresh 1),
      .arriveRefresh (sampleToken .refresh 1)] ++ advances 0 2 ++ advances 1 2 ++ advances 0 4 ++
    List.replicate 4 (.advance 1 (samplePair ⟨5, 6⟩))

theorem not_spentOnce_checkedTwice :
    ¬ EveryState (step microseconds) (.initial microseconds) checkedTwice
      fun _ w => SpentOnce w.log := by
  intro h
  have hlog : (exec (step microseconds) (.initial microseconds) checkedTwice).map World.log =
      some [.rotated (sampleToken .refresh 1), .rotated (sampleToken .refresh 1)] := by
    decide +kernel
  obtain ⟨w, hrun, hw⟩ := Option.map_eq_some_iff.mp hlog
  have hspent : SpentOnce w.log := h _ w (List.prefix_refl _) hrun
  rw [hw] at hspent
  exact List.rel_of_pairwise_cons hspent List.mem_cons_self _ rfl rfl

end DjasktTrading.Accounts.Clocked.Rotation
