import DjasktTrading.Ledger.Router
import DjasktTrading.Ledger.Serializability

/-!
# Idempotency — one effect per key, whatever the interleaving

Duplicates may all pass the key lookup; the unique insert at the end of their transactions lets one
of them commit and undoes the others.  What a request answers is decided after that, and there a
failing broadcast turns a commit into an error.
-/

open Reasoning

namespace DjasktTrading.Ledger

/-! ## 1. After the commit -/

/-- The request has committed, and has not been failed since. -/
def Phase.Kept : Phase → Prop
  | .committed _ _ => True
  | .sending _ _ _ => True
  | .done (.ok (.committed _ _)) => True
  | _ => False

def Phase.Finished : Phase → Prop
  | .done _ => True
  | _ => False

/-- How the answers and the messages go with the commits. -/
structure AnswerInv (w : World) : Prop where
  once : (w.commits.map Prod.fst).Nodup
  kept : ∀ {i call phase}, w.At i call phase → phase.Kept → ∃ job, (i, job) ∈ w.commits
  sentOnce : (w.sent.map Prod.fst).Nodup
  sentKept : ∀ x ∈ w.sent, ∃ call phase, w.At x.1 call phase ∧ phase.Finished ∧ phase.Kept

namespace AnswerInv

variable {py : Python} {start : Ledger} {w : World}

theorem initial (db : Ledger) : AnswerInv (.initial db) where
  once := List.nodup_nil
  kept here := by simp [World.At, World.initial] at here
  sentOnce := List.nodup_nil
  sentKept x hx := by cases hx

/-- A request that moves on, and is not over. -/
theorem put (h : AnswerInv w) {i : ℕ} {call : Call} {phase new : Phase} (here : w.At i call phase)
    (hopen : ¬ phase.Finished) (hkept : new.Kept → phase.Kept) : AnswerInv (w.put i new) where
  once := h.once
  kept there hnew := by
    rcases World.at_put_cases here there with ⟨rfl, rfl, rfl⟩ | ⟨-, there⟩
    · exact h.kept here (hkept hnew)
    · exact h.kept there hnew
  sentOnce := h.sentOnce
  sentKept x hx := by
    obtain ⟨call', phase', there, hfinished, hphase⟩ := h.sentKept x hx
    exact ⟨call', phase', there.put_of_not hfinished here hopen, hfinished, hphase⟩

theorem arrive (h : AnswerInv w) (call : Call) :
    AnswerInv { w with requests := w.requests ++ [{ call, phase := .submitted }] } where
  once := h.once
  kept there hphase := by
    rcases World.at_arrive_cases there with there | ⟨-, hslot⟩
    · exact h.kept there hphase
    · cases hslot
      exact hphase.elim
  sentOnce := h.sentOnce
  sentKept x hx := by
    obtain ⟨call', phase', there, hrest⟩ := h.sentKept x hx
    exact ⟨call', phase', (World.at_arrive there.lt_length).mpr there, hrest⟩

theorem commit (h : AnswerInv w) (hinv : Inv py start w) {i : ℕ} {call : Call} {job : Job}
    {entry : Entry} {portfolio : PortfolioInstance} {ws : List Write}
    (here : w.At i call (.inTx job (.recorded entry portfolio) ws)) (db : Ledger) :
    AnswerInv { w.put i (.committed entry portfolio) with
      db, commits := w.commits ++ [(i, job)] } where
  once := by
    refine nodup_map_append_singleton h.once ?_
    rintro ⟨j, job'⟩ hx rfl
    exact hinv.notMem_commits here not_false job' hx
  kept there hphase := by
    rcases World.at_put_cases here there with ⟨rfl, -, -⟩ | ⟨-, there⟩
    · exact ⟨job, List.mem_append_right _ (List.mem_singleton_self _)⟩
    · obtain ⟨job', hmem⟩ := h.kept there hphase
      exact ⟨job', List.mem_append_left _ hmem⟩
  sentOnce := h.sentOnce
  sentKept x hx := by
    change ∃ call phase, (w.put i _).At x.1 call phase ∧ _
    obtain ⟨call', phase', there, hfinished, hphase⟩ := h.sentKept x hx
    exact ⟨call', phase', there.put_of_not hfinished here not_false, hfinished, hphase⟩

/-- A message is sent by a request that is about to answer, so for the first time. -/
theorem groupSend (h : AnswerInv w) {i : ℕ} {call : Call} {entry : Entry}
    {portfolio : PortfolioInstance} {message : Broadcast}
    (here : w.At i call (.sending entry portfolio message)) :
    AnswerInv { w.put i (.done (.ok (.committed entry portfolio))) with
      sent := w.sent ++ [(i, message)] } := by
  have hput : AnswerInv (w.put i (.done (.ok (.committed entry portfolio)))) :=
    h.put here not_false fun _ => trivial
  refine ⟨hput.once, hput.kept, ?_, ?_⟩
  · refine nodup_map_append_singleton h.sentOnce ?_
    rintro x hx rfl
    -- who has sent a message is over
    obtain ⟨call', phase', there, hfinished, -⟩ := h.sentKept x hx
    obtain ⟨rfl, rfl⟩ := here.unique there
    exact hfinished
  · intro x hx
    rcases List.mem_append.mp hx with hx | hx
    · exact hput.sentKept x hx
    · obtain rfl := List.mem_singleton.mp hx
      exact ⟨call, _, (World.at_put_self here).mpr ⟨rfl, rfl⟩, trivial, trivial⟩

theorem step (h : AnswerInv w) (hinv : Inv py start w) {e : Event} {w' : World}
    (hstep : Ledger.step py w e = some w') : AnswerInv w' := by
  cases step_fires hstep with
  | arrive call => exact h.arrive call
  | @lookup i call here =>
      apply h.put here not_false
      unfold Call.lookup
      split
      · exact fun hkept => hkept.elim
      · split <;> exact fun hkept => hkept.elim
  | priced here opened => exact h.put here not_false fun hkept => hkept.elim
  | unpriced here refused => exact h.put here not_false fun hkept => hkept.elim
  | @ran i call job stage stage' ws vs here left free returned =>
      have hput : AnswerInv (w.put i (.inTx job stage' (ws ++ vs))) :=
        h.put here not_false fun hkept => hkept.elim
      exact ⟨hput.once, hput.kept, hput.sentOnce, hput.sentKept⟩
  | raised here free threw => exact h.put here not_false fun hkept => hkept.elim
  | commit here => exact h.commit hinv here _
  | fail here early =>
      refine h.put here ?_ fun hkept => hkept.elim
      rcases early with rfl | rfl | ⟨job, stage, ws, rfl⟩ <;> exact not_false
  | skipBroadcast here => exact h.put here not_false fun _ => trivial
  | reread here => exact h.put here not_false fun _ => trivial
  | rereadFails here => exact h.put here not_false fun _ => trivial
  | groupSend here => exact h.groupSend here
  | groupSendFails here => exact h.put here not_false fun _ => trivial

theorem of_run {es : List Event} (hrun : Run (Ledger.step py) (.initial start) es w) :
    AnswerInv w :=
  (hrun.invariant (I := fun v => Inv py start v ∧ AnswerInv v) ⟨Inv.initial py start, initial start⟩
    fun _ _ _ hv hstep => ⟨hv.1.step hstep, hv.2.step hv.1 hstep⟩).2

end AnswerInv

/-! ## 2. At most one effect per key -/

namespace World

/-- The key that request `i` was submitted under. -/
def keyOf (w : World) (i : ℕ) : Option Key := (w.requests[i]?).map (·.call.request.key)

theorem At.keyOf {w : World} {i : ℕ} {call : Call} {phase : Phase} (here : w.At i call phase) :
    w.keyOf i = some call.request.key := by
  unfold World.At at here
  simp only [World.keyOf, here, Option.map_some]

end World

/-- A request that was answered with a replay or an error has changed nothing. -/
def Silent (w : World) : Prop :=
  ∀ i call outcome, w.At i call (.done outcome) →
    (∀ entry portfolio, outcome ≠ .ok (.committed entry portfolio)) →
      ∀ job, (i, job) ∉ w.commits

/-- What the idempotency keys promise of a world. -/
structure AtMostOnce (py : Python) (start : Ledger) (w : World) : Prop where
  /-- no key labels two entries of a table -/
  unique : (keys w.db).Nodup
  /-- the new entries are those of the committed requests -/
  labelled : (keys w.db).Perm (keys start ++ (w.callsOf w.commits).map (·.request.key))
  /-- the rows are what making each of these calls once gives -/
  applied : Run (commitCall py) start (w.callsOf w.commits) w.db
  /-- no key is broadcast twice -/
  told : (w.sent.map fun x => w.keyOf x.1).Nodup
  /-- only commits are broadcast -/
  toldCommitted : ∀ x ∈ w.sent, ∃ job, (x.1, job) ∈ w.commits
  silent : Silent w

theorem keys_run {py : Python} {start db : Ledger} {jobs : List Job}
    (h : Run (jobStep py) start jobs db) :
    (keys db).Perm (keys start ++ jobs.map Job.key) := by
  refine h.induction (motive := fun jobs db => (keys db).Perm (keys start ++ jobs.map Job.key))
    (by simp) ?_
  intro jobs t job u _ ih hstep
  -- each commit adds its own key
  obtain ⟨c, rfl⟩ := jobStep_eq_some hstep
  rw [List.map_append, ← List.append_assoc]
  exact c.keys_after.trans (ih.append_right _)

theorem map_key_callsOf {py : Python} {calls : List Call} {jobs : List Job}
    (h : List.Forall₂ (fun call job => call.job py = .ok job) calls jobs) :
    calls.map (·.request.key) = jobs.map Job.key := by
  induction h with
  | nil => rfl
  | cons hjob _ ih => rw [List.map_cons, List.map_cons, ih, (Call.job_eq_ok hjob).2.2]

section

variable {py : Python} {start : Ledger} {w : World}

/-- Messages come from requests under different keys. -/
theorem told_nodup (hinv : Inv py start w) (hanswer : AnswerInv w) :
    (w.sent.map fun x => w.keyOf x.1).Nodup := by
  have hkeys : ((w.commits.map Prod.snd).map Job.key).Nodup :=
    ((ledgerPartition py).run_labels hinv.serial).1
  have hmap : w.sent.map (fun x => w.keyOf x.1) = (w.sent.map Prod.fst).map w.keyOf := by
    rw [List.map_map]
    rfl
  rw [hmap]
  apply hanswer.sentOnce.map_on
  intro i hi j hj heq
  -- both senders have committed
  obtain ⟨x, hx, rfl⟩ := List.mem_map.mp hi
  obtain ⟨y, hy, rfl⟩ := List.mem_map.mp hj
  obtain ⟨callx, phasex, herex, -, hkeptx⟩ := hanswer.sentKept x hx
  obtain ⟨cally, phasey, herey, -, hkepty⟩ := hanswer.sentKept y hy
  obtain ⟨jobx, hjobx⟩ := hanswer.kept herex hkeptx
  obtain ⟨joby, hjoby⟩ := hanswer.kept herey hkepty
  rw [herex.keyOf, herey.keyOf, Option.some.injEq] at heq
  -- equal keys are the key of one committed job
  obtain ⟨callx', _, herex', hcallx, -⟩ := hinv.committed _ hjobx
  obtain ⟨cally', _, herey', hcally, -⟩ := hinv.committed _ hjoby
  obtain ⟨rfl, -⟩ := herex.unique herex'
  obtain ⟨rfl, -⟩ := herey.unique herey'
  rw [← (Call.job_eq_ok hcallx).2.2, ← (Call.job_eq_ok hcally).2.2] at heq
  rw [List.map_map] at hkeys
  exact (Prod.mk.inj (List.inj_on_of_nodup_map hkeys hjobx hjoby heq)).1

theorem keys_nodup (hstart : (keys start).Nodup) (hinv : Inv py start w) : (keys w.db).Nodup := by
  obtain ⟨hnodup, hnew, -⟩ := (ledgerPartition py).run_labels hinv.serial
  rw [(keys_run hinv.serial).nodup_iff, List.nodup_append]
  refine ⟨hstart, hnodup, ?_⟩
  rintro key hkey key' hkey' rfl
  exact hnew key hkey' hkey

/-- All of the promise but the last part holds of every reachable world. -/
theorem atMostOnce_iff_silent (hstart : (keys start).Nodup) (hinv : Inv py start w)
    (hanswer : AnswerInv w) : AtMostOnce py start w ↔ Silent w := by
  refine ⟨AtMostOnce.silent, fun hsilent => ?_⟩
  have hcalls := hinv.callsOf_jobs fun _ hx => hx
  exact {
    unique := keys_nodup hstart hinv
    labelled := by
      rw [map_key_callsOf hcalls]
      exact keys_run hinv.serial
    applied := run_commitCall hcalls hinv.serial
    told := told_nodup hinv hanswer
    toldCommitted := fun x hx => by
      obtain ⟨call, phase, here, -, hkept⟩ := hanswer.sentKept x hx
      exact hanswer.kept here hkept
    silent := hsilent }

end

/-! ## 3. When a failed request has changed nothing -/

/-- A step that raises after the commit: the position re-read or the send. -/
def Event.BroadcastFails : Event → Prop
  | .rereadFails _ => True
  | .groupSendFails _ => True
  | _ => False

section

variable {py : Python} {start : Ledger} {w : World}

theorem Silent.put (h : Silent w) {i : ℕ} {call : Call} {phase new : Phase}
    (here : w.At i call phase)
    (hnew : (∀ job, (i, job) ∉ w.commits) ∨ ¬ new.Finished ∨ new.Kept) : Silent (w.put i new) := by
  intro j call' outcome there houtcome job
  rcases World.at_put_cases here there with ⟨rfl, rfl, rfl⟩ | ⟨-, there⟩
  · rcases hnew with hnot | hopen | hkept
    · exact hnot job
    · exact absurd trivial hopen
    · rcases outcome with e | entry | entry
      · exact hkept.elim
      · exact absurd rfl (houtcome _ _)
      · exact hkept.elim
  · exact h j call' outcome there houtcome job

theorem Silent.arrive (h : Silent w) (call : Call) :
    Silent { w with requests := w.requests ++ [{ call, phase := .submitted }] } := by
  intro j call' outcome there houtcome job
  rcases World.at_arrive_cases there with there | ⟨-, hslot⟩
  · exact h j call' outcome there houtcome job
  · cases hslot

theorem Silent.commit (h : Silent w) {i : ℕ} {call : Call} {job : Job} {entry : Entry}
    {portfolio : PortfolioInstance} {ws : List Write}
    (here : w.At i call (.inTx job (.recorded entry portfolio) ws)) (db : Ledger) :
    Silent { w.put i (.committed entry portfolio) with db, commits := w.commits ++ [(i, job)] } := by
  intro j call' outcome there houtcome job' hmem
  rcases World.at_put_cases here there with ⟨-, -, hphase⟩ | ⟨hij, there⟩
  · cases hphase
  · rcases List.mem_append.mp hmem with hmem | hmem
    · exact h j call' outcome there houtcome job' hmem
    · exact hij (congrArg Prod.fst (List.mem_singleton.mp hmem)).symm

/-- A committed request that is failed has not been silent. -/
theorem not_silent_put (hanswer : AnswerInv w) {i : ℕ} {call : Call} {phase : Phase} {e : Exn}
    (here : w.At i call phase) (hkept : phase.Kept) : ¬ Silent (w.put i (.done (.error e))) := by
  intro h
  obtain ⟨job, hjob⟩ := hanswer.kept here hkept
  refine h i call (.error e) ((World.at_put_self here).mpr ⟨rfl, rfl⟩) ?_ job hjob
  intro entry portfolio heq
  cases heq

theorem silent_step_iff (hinv : Inv py start w) (hanswer : AnswerInv w) (h : Silent w) {e : Event}
    {w' : World} (hstep : step py w e = some w') : Silent w' ↔ ¬ e.BroadcastFails := by
  cases step_fires hstep with
  | rereadFails here =>
      exact iff_of_false (not_silent_put hanswer here trivial) (not_not.mpr trivial)
  | groupSendFails here =>
      exact iff_of_false (not_silent_put hanswer here trivial) (not_not.mpr trivial)
  | arrive call => exact iff_of_true (h.arrive call) not_false
  | lookup here =>
      exact iff_of_true (h.put here (.inl (hinv.notMem_commits here not_false))) not_false
  | priced here opened => exact iff_of_true (h.put here (.inr (.inl not_false))) not_false
  | unpriced here refused =>
      exact iff_of_true (h.put here (.inl (hinv.notMem_commits here not_false))) not_false
  | @ran i call job stage stage' ws vs here left free returned =>
      have hput : Silent (w.put i (.inTx job stage' (ws ++ vs))) :=
        h.put here (.inr (.inl not_false))
      exact iff_of_true hput not_false
  | raised here free threw =>
      exact iff_of_true (h.put here (.inl (hinv.notMem_commits here not_false))) not_false
  | commit here => exact iff_of_true (h.commit here _) not_false
  | fail here early =>
      refine iff_of_true (h.put here (.inl (hinv.notMem_commits here ?_))) not_false
      rcases early with rfl | rfl | ⟨job, stage, ws, rfl⟩ <;> exact not_false
  | skipBroadcast here => exact iff_of_true (h.put here (.inr (.inr trivial))) not_false
  | reread here => exact iff_of_true (h.put here (.inr (.inl not_false))) not_false
  | @groupSend i call entry portfolio message here =>
      have hput : Silent (w.put i (.done (.ok (.committed entry portfolio)))) :=
        h.put here (.inr (.inr trivial))
      exact iff_of_true hput not_false

end

/-- **At most once.**  The keys keep their promise in every state of a run exactly when no broadcast
of the run raises after its commit. -/
theorem atMostOnce_iff_no_broadcast_fails (py : Python) {start : Ledger}
    (hstart : (keys start).Nodup) {es : List Event} {w : World}
    (hrun : Run (step py) (.initial start) es w) :
    EveryState (step py) (.initial start) es (fun _ v => AtMostOnce py start v) ↔
      EveryStep (step py) (.initial start) es (fun _ e => ¬ e.BroadcastFails) := by
  refine everyState_iff_everyStep ?_ ?_ hrun
  · rw [atMostOnce_iff_silent hstart (Inv.initial py start) (AnswerInv.initial start)]
    intro i call outcome here
    simp [World.At, World.initial] at here
  · intro earlier e t u ht hearlier hstep
    have hinv := Inv.of_run ht
    have hanswer := AnswerInv.of_run ht
    have hsilent := (hearlier earlier t (List.prefix_refl _) ht).silent
    rw [atMostOnce_iff_silent hstart (hinv.step hstep) (hanswer.step hinv hstep)]
    exact silent_step_iff hinv hanswer hsilent hstep

theorem atMostOnce_iff_no_broadcast_fails_twoDeposits :
    EveryState (step .default) (.initial firstPortfolio) twoDeposits
        (fun _ v => AtMostOnce .default firstPortfolio v) ↔
      EveryStep (step .default) (.initial firstPortfolio) twoDeposits
        (fun _ e => ¬ e.BroadcastFails) := by
  obtain ⟨w, hrun⟩ := exists_run_twoDeposits
  have hkeys : (keys firstPortfolio).Nodup := List.nodup_nil
  exact atMostOnce_iff_no_broadcast_fails .default hkeys hrun

/-- One deposit whose positions cannot be re-read after the commit. -/
def depositNotTold : List Event :=
  [.arrive (transferCall 1 "CREDIT" 1), .lookup 0, .fetchPrice 0, .statement 0, .statement 0,
   .statement 0, .statement 0, .commit 0, .rereadFails 0]

theorem not_atMostOnce_depositNotTold :
    ¬ EveryState (step .default) (.initial firstPortfolio) depositNotTold
        (fun _ v => AtMostOnce .default firstPortfolio v) := by
  obtain ⟨w, hrun⟩ : ∃ w, Run (step .default) (.initial firstPortfolio) depositNotTold w :=
    Option.isSome_iff_exists.mp (by decide +kernel)
  rintro h
  -- the request is over, with an error, and it has committed
  have hsilent := (h _ w (List.prefix_refl _) hrun).silent
  have hlast : Run (step .default) (.initial firstPortfolio)
      (depositNotTold.dropLast ++ [.rereadFails 0]) w := hrun
  obtain ⟨v, hv, hstep⟩ := run_concat_iff.mp hlast
  have hanswer := AnswerInv.of_run hv
  cases step_fires hstep with
  | rereadFails here => exact not_silent_put hanswer here trivial hsilent

/-! ## 4. What a duplicate is answered -/

/-- On its own, right at the start, the call commits. -/
def AcceptedAlone (py : Python) (start : Ledger) (call : Call) : Prop :=
  ∃ db, commitCall py start call = some db

/-- The outcome is a replay of the entry stored under the key, answered with 200. -/
def AnsweredWithOriginal (w : World) (key : Key) (outcome : Except Exn (Result Entry)) : Prop :=
  ∃ row, existing? w.db key = some row ∧ outcome = .ok (.replay row) ∧
    respond outcome = ⟨200, row.body true⟩

/-- The key lookup of request `j` comes after the commit of request `i`. -/
def LookedUpAfter (py : Python) (start : Ledger) (es : List Event) (i j : ℕ) : Prop :=
  ∃ earlier v, earlier ++ [.lookup j] <+: es ∧ Run (step py) (.initial start) earlier v ∧
    ∃ job, (i, job) ∈ v.commits

section

variable {py : Python} {start : Ledger} {w w' : World} {es : List Event}

theorem AcceptedAlone.check {call : Call} (h : AcceptedAlone py start call) :
    call.check py = .ok () := by
  obtain ⟨db, h⟩ := h
  have hends := call.service_ends py start
  unfold commitCall at h
  split at h
  · rename_i entry portfolio db' hrun
    rw [hrun] at hends
    cases hends with
    | committed job entry portfolio ws hnew hjob hbody => exact (Call.job_eq_ok hjob).1
  · cases h

/-- Only a key lookup answers with a replay. -/
theorem replay_of_step {e : Event} {j : ℕ} {call : Call} {row : Entry}
    (hstep : step py w e = some w') (there : w'.At j call (.done (.ok (.replay row)))) :
    w.At j call (.done (.ok (.replay row))) ∨
      (e = .lookup j ∧ existing? w.db call.request.key = some row) := by
  cases step_fires hstep with
  | arrive call' =>
      rcases World.at_arrive_cases there with there | ⟨-, hslot⟩
      · exact .inl there
      · cases hslot
  | @lookup i call' here =>
      rcases World.at_put_cases here there with ⟨rfl, rfl, hphase⟩ | ⟨-, there⟩
      · refine .inr ⟨rfl, ?_⟩
        unfold Call.lookup at hphase
        split at hphase
        · cases hphase
        · split at hphase
          · rename_i entry hentry
            cases hphase
            exact hentry
          · cases hphase
      · exact .inl there
  | priced here => exact .inl (here.of_put there nofun)
  | unpriced here => exact .inl (here.of_put there nofun)
  | ran here => exact .inl (here.of_put there nofun)
  | raised here => exact .inl (here.of_put there nofun)
  | commit here => exact .inl (here.of_put there nofun)
  | fail here => exact .inl (here.of_put there nofun)
  | skipBroadcast here => exact .inl (here.of_put there nofun)
  | reread here => exact .inl (here.of_put there nofun)
  | rereadFails here => exact .inl (here.of_put there nofun)
  | groupSend here => exact .inl (here.of_put there nofun)
  | groupSendFails here => exact .inl (here.of_put there nofun)

/-- A replay was decided by a lookup that found the entry. -/
theorem lookup_of_replay (hrun : Run (step py) (.initial start) es w) {j : ℕ} {call : Call}
    {row : Entry} (there : w.At j call (.done (.ok (.replay row)))) :
    ∃ earlier v, earlier ++ [.lookup j] <+: es ∧ Run (step py) (.initial start) earlier v ∧
      existing? v.db call.request.key = some row := by
  refine hrun.induction (motive := fun es w => w.At j call (.done (.ok (.replay row))) →
    ∃ earlier v, earlier ++ [.lookup j] <+: es ∧ Run (step py) (.initial start) earlier v ∧
      existing? v.db call.request.key = some row) ?_ ?_ there
  · intro there
    simp [World.At, World.initial] at there
  · intro es t e u ht ih hstep there
    rcases replay_of_step hstep there with hold | ⟨rfl, hrow⟩
    · obtain ⟨earlier, v, hpre, hv⟩ := ih hold
      exact ⟨earlier, v, List.IsPrefix.trans hpre (List.prefix_append _ _), hv⟩
    · exact ⟨es, t, List.prefix_refl _, ht, hrow⟩

/-- Two commits under one key are one. -/
theorem Inv.commit_unique (hinv : Inv py start w) {x y : ℕ × Job} (hx : x ∈ w.commits)
    (hy : y ∈ w.commits) (hkey : x.2.key = y.2.key) : x = y := by
  have hnodup := ((ledgerPartition py).run_labels hinv.serial).1
  rw [List.map_map] at hnodup
  exact List.inj_on_of_nodup_map hnodup hx hy hkey

/-- Once a request under the key has committed, a lookup that the checks let through replays it. -/
theorem answered_of_lookedUpAfter (hrun : Run (step py) (.initial start) es w) {i j : ℕ}
    {calli call : Call} {phasei : Phase} {outcome : Except Exn (Result Entry)}
    (herei : w.At i calli phasei) (there : w.At j call (.done outcome))
    (hsame : call.request = calli.request) (halone : AcceptedAlone py start call)
    (hlate : LookedUpAfter py start es i j) :
    AnsweredWithOriginal w call.request.key outcome := by
  -- cut the run at the lookup
  obtain ⟨earlier, v, ⟨later, rfl⟩, hv, job, hjob⟩ := hlate
  obtain ⟨v', hv', hlater⟩ := run_append_iff.mp hrun
  obtain ⟨u, hu, hstep⟩ := run_concat_iff.mp hv'
  obtain rfl := hu.unique hv
  have hinv := Inv.of_run hv
  -- the committed request has the same key, so the key is stored
  obtain ⟨calli', phasei', herei', hcalli, -⟩ := hinv.committed _ hjob
  have hcall : calli' = calli := by
    obtain ⟨_, hat, -⟩ := step_at hstep herei'
    obtain ⟨_, hat, -⟩ := run_at hlater hat
    exact (hat.unique herei).1
  have hkey : job.key = call.request.key := by
    rw [(Call.job_eq_ok hcalli).2.2, hcall, hsame]
  have hstored : call.request.key ∈ keys u.db := by
    rw [(keys_run hinv.serial).mem_iff, ← hkey]
    exact List.mem_append_right _ (List.mem_map_of_mem (List.mem_map_of_mem hjob))
  obtain ⟨row, hrow⟩ : ∃ row, existing? u.db call.request.key = some row := by
    rw [← Option.ne_none_iff_exists']
    exact fun hnone => existing?_eq_none_iff.mp hnone hstored
  cases step_fires hstep with
  | @lookup _ call' here =>
      have hat : (u.put j (call'.lookup py u.db)).At j call' (call'.lookup py u.db) :=
        (World.at_put_self here).mpr ⟨rfl, rfl⟩
      obtain ⟨phase, hatw, hdone⟩ := run_at hlater hat
      obtain ⟨rfl, rfl⟩ := hatw.unique there
      have hphase : call'.lookup py u.db = .done (.ok (.replay row)) := by
        simp only [Call.lookup, halone.check, hrow]
      -- the answer is given with the lookup, and stays
      have houtcome := hdone _ hphase
      have hroww := run_existing? (hinv.step hstep) hlater hrow
      obtain rfl := Phase.done.inj houtcome
      exact ⟨row, hroww, rfl, rfl⟩

end

/-- The other finished requests with this payload, as far as they would be accepted on their own,
are answered with the stored entry. -/
def DuplicatesAnswered (py : Python) (start : Ledger) (w : World) (i : ℕ) (request : Request) :
    Prop :=
  ∀ j call outcome, j ≠ i → w.At j call (.done outcome) → call.request = request →
    AcceptedAlone py start call → AnsweredWithOriginal w call.request.key outcome

/-- Each of them looked the key up after the commit of request `i`. -/
def DuplicatesLate (py : Python) (start : Ledger) (es : List Event) (w : World) (i : ℕ)
    (request : Request) : Prop :=
  ∀ j call outcome, j ≠ i → w.At j call (.done outcome) → call.request = request →
    AcceptedAlone py start call → LookedUpAfter py start es i j

/-- **Duplicates.**  After a request has committed, its duplicates are answered with its entry
exactly when they looked the key up after that commit. -/
theorem duplicatesAnswered_iff_late (py : Python) {start : Ledger} {es : List Event} {w : World}
    (hrun : Run (step py) (.initial start) es w) {i : ℕ} {job : Job}
    (hcommit : (i, job) ∈ w.commits) {calli : Call} {phasei : Phase}
    (herei : w.At i calli phasei) :
    DuplicatesAnswered py start w i calli.request ↔
      DuplicatesLate py start es w i calli.request := by
  have hinv := Inv.of_run hrun
  constructor
  · intro h j call outcome hne there hsame halone
    obtain ⟨row, -, rfl, -⟩ := h j call outcome hne there hsame halone
    obtain ⟨earlier, v, hpre, hv, hrow⟩ := lookup_of_replay hrun there
    refine ⟨earlier, v, hpre, hv, job, ?_⟩
    -- the key that the lookup found is new, so a commit has brought it
    obtain ⟨calli', _, herei', hcalli, -⟩ := hinv.committed _ hcommit
    obtain ⟨rfl, -⟩ := herei'.unique herei
    have hkey : job.key = call.request.key := by rw [(Call.job_eq_ok hcalli).2.2, hsame]
    have hvinv := Inv.of_run hv
    have hstored : call.request.key ∈ keys v.db := by
      by_contra hnot
      rw [existing?_eq_none_iff.mpr hnot] at hrow
      cases hrow
    rw [(keys_run hvinv.serial).mem_iff, List.mem_append] at hstored
    rcases hstored with hold | hnew
    · -- not a key of the start: the commit of request `i` could not have used it
      have hunused := ((ledgerPartition py).run_labels hinv.serial).2.1
      exact absurd (hkey ▸ hold)
        (hunused job.key (List.mem_map_of_mem (List.mem_map_of_mem hcommit)))
    · -- the commit that brought it is the one of request `i`, for the key is used once
      rw [List.map_map] at hnew
      obtain ⟨x, hx, hxkey⟩ := List.mem_map.mp hnew
      obtain ⟨later, hlater⟩ := hpre
      obtain ⟨u, hu, hrest⟩ := run_append_iff.mp
        (show Run (step py) (.initial start) (earlier ++ ([.lookup j] ++ later)) w by
          rw [← List.append_assoc, hlater]
          exact hrun)
      obtain rfl := hu.unique hv
      have hxw : x ∈ w.commits := (run_commits hrest).subset hx
      obtain rfl := hinv.commit_unique hxw hcommit (hxkey.trans hkey.symm)
      exact hx
  · intro h j call outcome hne there hsame halone
    exact answered_of_lookedUpAfter hrun herei there hsame halone
      (h j call outcome hne there hsame halone)

/-- The first deposit again, with the fresh values of another attempt. -/
def duplicateCall (n : ℕ) : Call := { transferCall 1 "CREDIT" 1 with fresh := ⟨.ofNat 128 n, n⟩ }

def arrivals : List Event := [.arrive (duplicateCall 1), .arrive (duplicateCall 2)]

theorem run_arrivals {w : World} {es : List Event}
    (hrun : Run (step .default) (.initial firstPortfolio) (arrivals ++ es) w) (n : ℕ) {call : Call}
    (hcall : ([duplicateCall 1, duplicateCall 2])[n]? = some call) : ∃ phase, w.At n call phase := by
  obtain ⟨v, hv, hrest⟩ := run_append_iff.mp hrun
  have hvAt : v.At n call .submitted := by
    obtain rfl := Option.some.inj hv
    unfold World.At
    have hmap := congrArg (Option.map fun call => (⟨call, .submitted⟩ : Slot)) hcall
    rw [← List.getElem?_map] at hmap
    exact hmap
  obtain ⟨phase, hat, -⟩ := run_at hrest hvAt
  exact ⟨phase, hat⟩

/-- The duplicate looks the key up after the commit. -/
def lateDuplicate : List Event :=
  arrivals ++ [.lookup 0, .fetchPrice 0, .statement 0, .statement 0, .statement 0, .statement 0,
    .commit 0, .lookup 1]

/-- Both look the key up before either commits. -/
def earlyDuplicate : List Event :=
  arrivals ++ [.lookup 0, .lookup 1, .fetchPrice 0, .fetchPrice 1, .statement 0, .statement 0,
    .statement 0, .statement 0, .commit 0, .statement 1, .statement 1, .statement 1, .statement 1]

/-- The status a request has been answered with. -/
def World.statusOf (w : World) (i : ℕ) : Option ℕ :=
  match (w.requests[i]?).map Slot.phase with
  | some (.done outcome) => some (respond outcome).status
  | _ => none

theorem duplicatesAnswered_iff_late_lateDuplicate :
    ∃ w job, Run (step .default) (.initial firstPortfolio) lateDuplicate w ∧ (0, job) ∈ w.commits ∧
      (DuplicatesAnswered .default firstPortfolio w 0 (duplicateCall 1).request ↔
        DuplicatesLate .default firstPortfolio lateDuplicate w 0 (duplicateCall 1).request) := by
  have hvalues : (exec (step .default) (.initial firstPortfolio) lateDuplicate).map
      (fun w => w.commits.map Prod.fst) = some [0] := by
    decide +kernel
  obtain ⟨w, hrun, hcommits⟩ := Option.map_eq_some_iff.mp hvalues
  obtain ⟨⟨_, job⟩, hcommit, rfl⟩ := List.mem_map.mp (hcommits ▸ List.mem_singleton_self 0)
  obtain ⟨phase, here⟩ := run_arrivals hrun 0 rfl
  exact ⟨w, job, hrun, hcommit, duplicatesAnswered_iff_late .default hrun hcommit here⟩

/-- The loser of the race is answered with a 500. -/
theorem not_duplicatesAnswered_earlyDuplicate :
    ∃ w job, Run (step .default) (.initial firstPortfolio) earlyDuplicate w ∧ (0, job) ∈ w.commits ∧
      ¬ DuplicatesAnswered .default firstPortfolio w 0 (duplicateCall 1).request := by
  have hvalues : (exec (step .default) (.initial firstPortfolio) earlyDuplicate).map
      (fun w => (w.commits.map Prod.fst, w.statusOf 1)) = some ([0], some 500) := by
    decide +kernel
  obtain ⟨w, hrun, hvalues⟩ := Option.map_eq_some_iff.mp hvalues
  obtain ⟨hcommits, hstatus⟩ := Prod.mk.inj hvalues
  obtain ⟨⟨_, job⟩, hcommit, rfl⟩ := List.mem_map.mp (hcommits ▸ List.mem_singleton_self 0)
  refine ⟨w, job, hrun, hcommit, fun h => ?_⟩
  obtain ⟨phase, there⟩ := run_arrivals hrun 1 rfl
  have halone : AcceptedAlone .default firstPortfolio (duplicateCall 2) :=
    Option.isSome_iff_exists.mp (by decide +kernel)
  have hslot : w.requests[1]? = some ⟨duplicateCall 2, phase⟩ := there
  simp only [World.statusOf, hslot, Option.map_some] at hstatus
  cases phase with
  | done outcome =>
      obtain ⟨row, -, -, hrespond⟩ := h 1 _ outcome (by decide) there rfl halone
      simp [hrespond] at hstatus
  | _ => cases hstatus

end DjasktTrading.Ledger
