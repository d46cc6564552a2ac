import DjasktTrading.Accounts.Duplicates
import DjasktTrading.Reasoning.Progress

/-!
# Winners — who gets a key, and to whom the others lose it

Requests for one email, or for one link, run into each other at their checks, at the unique indexes and
while they wait for open transactions.  One of them creates its rows; nothing else is stored, and each
that is turned away has lost to a row that stays.
-/

open Reasoning
open DjasktTrading.Ledger (Portfolio Numeric)
open DjasktTrading.Brokerage (Platform Dict UserBrokerageLink)

namespace DjasktTrading.Accounts.Signup

variable (dj : Django) (py : Python) (p : Platform)

/-! ## 1. Keys won and lost -/

def Row.key : Row → Option Key
  | .user u => some (.email u.email)
  | .portfolio _ => none
  | .link l => some (.link l.user l.brokerage.id)

/-- The key of what a request has created. -/
def Task.createdKey : Task → Option Key
  | .signup _ _ (.created user _) => some (.email user.email)
  | .createLink _ _ _ _ (.created link) => some (.link link.user link.brokerage.id)
  | _ => none

def World.created (w : World) (i : ℕ) : Option Key := w.tasks[i]?.bind Task.createdKey

/-- The key that a request has found taken.  The check looks for the email as it was given, the insert
for the normalized one. -/
def Task.lostKey : Task → Option Key
  | .signup payload _ .refused => some (.email payload.email)
  | .signup payload _ (.raised (.integrityError .userEmail)) =>
      some (.email (dj.normalizeEmail payload.email))
  | .createLink user name _ _ .refused =>
      (p.active? name).map fun brokerage => .link user.id brokerage.id
  | .createLink user name _ _ (.raised (.integrityError .userBrokerageLink)) =>
      (p.active? name).map fun brokerage => .link user.id brokerage.id
  | _ => none

/-- The rows that a request has made are those it asks for. -/
def Task.AsAsked : Task → Prop
  | .signup payload draws (.insertPortfolio user) =>
      requestedUser dj user.id payload draws = .ok user
  | .signup payload draws (.commit user portfolio) =>
      requestedUser dj user.id payload draws = .ok user ∧
        portfolio = userPortfolio user draws.portfolioId
  | .signup payload draws (.created user portfolio) =>
      requestedUser dj user.id payload draws = .ok user ∧
        portfolio = userPortfolio user draws.portfolioId
  | .createLink _ name _ _ (.check brokerage) => p.active? name = some brokerage
  | .createLink _ name _ _ (.insert brokerage) => p.active? name = some brokerage
  | .createLink user name data id (.created link) =>
      ∃ brokerage, p.active? name = some brokerage ∧ link = ⟨id, user.id, brokerage, data⟩
  | _ => True

/-- What a run has to come to, whatever its order. -/
structure OneWinner (start : Database) (w : World) : Prop where
  /-- what is stored is what was there and what the requests answered 201 have created, once each -/
  rows : w.db.rows.Perm (start.rows ++ w.tasks.flatMap Task.rows)
  asked : ∀ task ∈ w.tasks, task.AsAsked dj p
  /-- a key has one winner, and none if it was taken at the start -/
  won : ∀ i key, w.created i = some key → key ∉ start.keys ∧ ∀ j, w.created j = some key → j = i
  /-- and who loses it has lost it to that one, or to what was there -/
  lost : ∀ task ∈ w.tasks, task.Taken → ∃ key, task.lostKey dj p = some key ∧
    (key ∈ start.keys ∨ ∃ i, w.created i = some key)

/-! ## 2. Open requests -/

/-- The steps that a request may still take. -/
def Task.work : Task → ℕ
  | .signup _ _ .check => 4
  | .signup _ _ .insertUser => 3
  | .signup _ _ (.insertPortfolio _) => 2
  | .signup _ _ (.commit _ _) => 1
  | .createLink _ _ _ _ .lookup => 3
  | .createLink _ _ _ _ (.check _) => 2
  | .createLink _ _ _ _ (.insert _) => 1
  | _ => 0

def World.work (w : World) : ℕ := (w.tasks.map Task.work).sum

/-- The request is there and has not been answered. -/
def World.Open (w : World) (i : ℕ) : Prop := ∃ task, w.tasks[i]? = some task ∧ task.status = none

/-- The event is the next step of an open request, or its failure. -/
def World.Moves (w : World) : Event → Prop
  | .advance i => w.Open i
  | .fail i => w.Open i
  | _ => False

instance (w : World) (i : ℕ) : Decidable (w.Open i) :=
  decidable_of_iff (w.tasks[i]?.any (·.status.isNone)) <| by
    unfold World.Open
    cases w.tasks[i]? with
    | none => simp
    | some task => simp

instance (w : World) : DecidablePred w.Moves
  | .advance i => inferInstanceAs (Decidable (w.Open i))
  | .fail i => inferInstanceAs (Decidable (w.Open i))
  | .signup _ _ => .isFalse not_false
  | .createLink _ _ _ _ => .isFalse not_false

/-! ## 3. What one step does -/

/-- What every step keeps. -/
structure Tally (start : Database) (w : World) : Prop where
  rows : w.db.rows.Perm (start.rows ++ w.tasks.flatMap Task.rows)
  asked : ∀ task ∈ w.tasks, task.AsAsked dj p
  lost : ∀ task ∈ w.tasks, task.Taken → ∃ key, task.lostKey dj p = some key ∧ key ∈ w.db.keys

section

variable {dj py p} {start : Database} {w w' : World} {i : ℕ} {task : Task} {n : UserId} {e : Event}
  {key : Key} {r : Task × Database × UserId}

/-- A request comes with nothing done, takes its next step, or fails. -/
theorem step_moves (h : step dj py p w e = some w') :
    (∃ task, w' = { w with tasks := w.tasks ++ [task] } ∧ task.status = none ∧ task.AsAsked dj p ∧
      ¬ w.Moves e) ∨
    (∃ i task r, e = .advance i ∧ w.tasks[i]? = some task ∧ task.next dj py p w = some r ∧
      w' = ⟨r.2.1, r.2.2, w.tasks.set i r.1⟩) ∨
    ∃ i task, e = .fail i ∧ w.tasks[i]? = some task ∧
      w' = { w with tasks := w.tasks.set i task.fail } := by
  cases e with
  | signup payload draws =>
      cases h
      exact .inl ⟨_, rfl, rfl, trivial, not_false⟩
  | createLink user name data id =>
      cases h
      exact .inl ⟨_, rfl, rfl, trivial, not_false⟩
  | advance i =>
      simp only [step] at h
      split at h
      · cases h
      · rename_i task htask
        obtain ⟨r, hnext, rfl⟩ := Option.map_eq_some_iff.mp h
        exact .inr (.inl ⟨i, task, r, rfl, htask, hnext, rfl⟩)
  | fail i =>
      simp only [step] at h
      split at h
      · cases h
      · rename_i task htask
        cases h
        exact .inr (.inr ⟨i, task, rfl, htask, rfl⟩)

theorem Task.open_nothing (h : task.status = none) : task.rows = [] ∧ ¬ task.Taken := by
  cases task with
  | signup payload draws phase =>
      cases phase with
      | created user portfolio => cases h
      | refused => cases h
      | raised e => cases h
      | _ => exact ⟨rfl, not_false⟩
  | createLink user name data id phase =>
      cases phase with
      | created link => cases h
      | refused => cases h
      | raised e => cases h
      | _ => exact ⟨rfl, not_false⟩

/-- A failure creates nothing, and finds no key taken. -/
theorem Task.fail_spec (task : Task) :
    task.fail.rows = task.rows ∧ (task.AsAsked dj p → task.fail.AsAsked dj p) ∧
      (task.fail.Taken → task.fail = task) := by
  cases task with
  | signup payload draws phase =>
      cases phase with
      | created user portfolio => exact ⟨rfl, id, fun _ => rfl⟩
      | refused => exact ⟨rfl, id, fun _ => rfl⟩
      | raised e => exact ⟨rfl, id, fun _ => rfl⟩
      | _ => exact ⟨rfl, fun _ => trivial, fun htaken => by cases htaken⟩
  | createLink user name data uuid phase =>
      cases phase with
      | created link => exact ⟨rfl, id, fun _ => rfl⟩
      | unknown response => exact ⟨rfl, id, fun _ => rfl⟩
      | refused => exact ⟨rfl, id, fun _ => rfl⟩
      | raised e => exact ⟨rfl, id, fun _ => rfl⟩
      | _ => exact ⟨rfl, fun _ => trivial, fun htaken => by cases htaken⟩

theorem Database.rows_commit (db : Database) (user : User) (portfolio : Portfolio) :
    Database.rows { db with
      users := db.users ++ [user]
      portfolios := db.portfolios ++ [portfolio] } |>.Perm
        (db.rows ++ [.user user, .portfolio portfolio]) := by
  simp only [rows, List.map_append, List.map_singleton, ← Multiset.coe_eq_coe, ← Multiset.coe_add]
  rw [show [Row.user user, Row.portfolio portfolio] = [.user user] ++ [.portfolio portfolio] from rfl,
    ← Multiset.coe_add]
  abel

/-- What a step stores is what its request is then answered with. -/
theorem Task.next_rows (h : task.next dj py p w = some r) :
    ∃ more, r.1.rows = task.rows ++ more ∧ r.2.1.rows.Perm (w.db.rows ++ more) := by
  have hsteps := Task.next_steps h
  obtain ⟨next, db, n⟩ := r
  have hnothing : next.rows = task.rows → db = w.db →
      ∃ more, next.rows = task.rows ++ more ∧ db.rows.Perm (w.db.rows ++ more) := by
    rintro hrows rfl
    exact ⟨[], by rw [hrows, List.append_nil], by rw [List.append_nil]⟩
  dsimp only at hsteps ⊢
  cases hsteps with
  | @commit payload draws user portfolio =>
      exact ⟨[.user user, .portfolio portfolio], rfl, w.db.rows_commit user portfolio⟩
  | @createLink user name data id brokerage free =>
      refine ⟨[.link ⟨id, user.id, brokerage, data⟩], rfl, ?_⟩
      rw [Database.rows, List.map_append, ← List.append_assoc]
      rfl
  | _ => exact hnothing rfl rfl

/-- A check that refuses has found the email; -/
theorem Task.next_refused {payload : SignupInput} {draws : Draws} {db : Database}
    (h : (Task.signup payload draws .check).next dj py p w =
      some (.signup payload draws .refused, db, n)) : .email payload.email ∈ w.db.keys := by
  simp only [Task.next, SignupPhase.next] at h
  split at h
  · rename_i hfound
    exact Database.mem_keys_email.mpr (by simpa using hfound)
  · cases h

/-- or the link; -/
theorem Task.next_refusedLink {user : Brokerage.User} {name : String} {data : Dict} {id : Uuid}
    {brokerage : Brokerage.Brokerage} {db : Database}
    (h : (Task.createLink user name data id (.check brokerage)).next dj py p w =
      some (.createLink user name data id .refused, db, n)) :
    .link user.id brokerage.id ∈ w.db.keys := by
  simp only [Task.next, LinkPhase.next] at h
  split at h
  · rename_i hfound
    exact Database.mem_keys_link.mpr hfound
  · cases h

/-- and a lookup that goes on has found the brokerage. -/
theorem Task.next_check {user : Brokerage.User} {name : String} {data : Dict} {id : Uuid}
    {brokerage : Brokerage.Brokerage} {db : Database}
    (h : (Task.createLink user name data id .lookup).next dj py p w =
      some (.createLink user name data id (.check brokerage), db, n)) :
    p.active? name = some brokerage := by
  simp only [Task.next, LinkPhase.next] at h
  split at h
  · cases h
  · split at h
    · cases h
    · rename_i active hactive
      obtain rfl : active = brokerage := by simpa using congrArg (·.map Prod.fst) h
      exact hactive

/-- The rows of the next step are those that the request asks for. -/
theorem Task.next_asked (hasked : task.AsAsked dj p) (h : task.next dj py p w = some r) :
    r.1.AsAsked dj p := by
  have hsteps := Task.next_steps h
  obtain ⟨next, db, n⟩ := r
  dsimp only at hsteps ⊢
  cases hsteps with
  | @insertUser payload draws user asked free alone =>
      -- the id that was drawn is the one of the row
      rcases requestedUser_cases dj w.nextUserId payload draws with
        ⟨-, text, hraised⟩ | ⟨-, user', hdrawn, hid, -⟩
      · rw [asked] at hraised
        cases hraised
      · rw [asked] at hdrawn
        obtain rfl := Except.ok.inj hdrawn
        show requestedUser dj user.id payload draws = .ok user
        rw [hid, asked]
  | insertPortfolio => exact ⟨hasked, rfl⟩
  | commit => exact hasked
  | lookup => exact Task.next_check h
  | passLink => exact hasked
  | @createLink user name data id brokerage free => exact ⟨brokerage, hasked, rfl⟩
  | stay ended => exact hasked
  | _ => trivial

/-- A request that is turned away at its next step has found its key in the tables. -/
theorem Task.next_lost (hasked : task.AsAsked dj p) (h : task.next dj py p w = some r)
    (htaken : r.1.Taken) :
    r.1 = task ∨ ∃ key, r.1.lostKey dj p = some key ∧ key ∈ w.db.keys := by
  have hsteps := Task.next_steps h
  obtain ⟨next, db, n⟩ := r
  dsimp only at hsteps htaken ⊢
  cases hsteps with
  | refuse => exact .inr ⟨_, rfl, Task.next_refused h⟩
  | emailTaken given taken => exact .inr ⟨_, rfl, Database.mem_keys_email.mpr taken⟩
  | portfolioFails other => exact absurd htaken other
  | refuseLink =>
      exact .inr ⟨_, Option.map_eq_some_iff.mpr ⟨_, hasked, rfl⟩, Task.next_refusedLink h⟩
  | linkTaken taken =>
      exact .inr ⟨_, Option.map_eq_some_iff.mpr ⟨_, hasked, rfl⟩, Database.mem_keys_link.mpr taken⟩
  | stay ended => exact .inl rfl
  | _ => cases htaken

/-! ## 4. Keys and rows -/

theorem Database.filterMap_rows (db : Database) : db.rows.filterMap Row.key = db.keys := by
  have husers : db.users.filterMap (Row.key ∘ Row.user) = db.users.map fun user => .email user.email :=
    congrFun List.filterMap_eq_map' db.users
  have hportfolios : db.portfolios.filterMap (Row.key ∘ Row.portfolio) = [] :=
    List.filterMap_eq_nil_iff.mpr fun _ _ => rfl
  have hlinks : db.links.filterMap (Row.key ∘ Row.link) =
      db.links.map fun link => .link link.user link.brokerage.id :=
    congrFun List.filterMap_eq_map' db.links
  simp only [rows, keys, List.filterMap_append, List.filterMap_map]
  rw [husers, hportfolios, hlinks, List.append_nil]

theorem Task.filterMap_rows (task : Task) : task.rows.filterMap Row.key = task.createdKey.toList := by
  cases task with
  | signup payload draws phase => cases phase <;> rfl
  | createLink user name data id phase => cases phase <;> rfl

theorem Database.Valid.nodup_keys {db : Database} (h : db.Valid n) : db.keys.Nodup := by
  have hemails : (db.users.map fun user => Key.email user.email).Nodup := by
    have hmapped := h.emails.map (f := Key.email) fun a b hab => by cases hab; rfl
    rwa [List.map_map] at hmapped
  have hlinks : (db.links.map fun link => Key.link link.user link.brokerage.id).Nodup := by
    have hmapped := h.links.map (f := fun k => Key.link k.1 k.2) fun a b hab => by
      simpa [Prod.ext_iff] using hab
    rwa [List.map_map] at hmapped
  refine List.nodup_append.mpr ⟨hemails, hlinks, ?_⟩
  intro key hkey key' hkey'
  obtain ⟨user, -, rfl⟩ := List.mem_map.mp hkey
  obtain ⟨link, -, rfl⟩ := List.mem_map.mp hkey'
  exact fun heq => by cases heq

/-! ## 5. Winners -/

theorem Tally.initial : Tally dj p start (.initial start n) where
  rows := by simp [World.initial]
  asked task htask := by cases htask
  lost task htask := by cases htask

/-- A request comes that has done nothing. -/
theorem Tally.arrive (h : Tally dj p start w) (hopen : task.status = none)
    (hasked : task.AsAsked dj p) : Tally dj p start { w with tasks := w.tasks ++ [task] } := by
  obtain ⟨hrows, hnot⟩ := Task.open_nothing hopen
  constructor
  · rw [List.flatMap_append, List.flatMap_singleton, hrows, List.append_nil]
    exact h.rows
  · intro task' htask'
    rcases List.mem_append.mp htask' with hold | hnew
    · exact h.asked task' hold
    · rw [List.mem_singleton.mp hnew]
      exact hasked
  · intro task' htask' htaken
    rcases List.mem_append.mp htask' with hold | hnew
    · exact h.lost task' hold htaken
    · rw [List.mem_singleton.mp hnew] at htaken
      exact absurd htaken hnot

/-- A request moves on and stores what it is then answered with. -/
theorem Tally.move (h : Tally dj p start w) {next : Task} {db : Database} {more : List Row}
    (htask : w.tasks[i]? = some task) (hrows : next.rows = task.rows ++ more)
    (hstored : db.rows.Perm (w.db.rows ++ more)) (hkeys : ∀ key ∈ w.db.keys, key ∈ db.keys)
    (hasked : next.AsAsked dj p)
    (hlost : next.Taken → ∃ key, next.lostKey dj p = some key ∧ key ∈ db.keys) :
    Tally dj p start ⟨db, n, w.tasks.set i next⟩ := by
  constructor
  · calc db.rows.Perm (w.db.rows ++ more) := hstored
      _ |>.Perm (start.rows ++ w.tasks.flatMap Task.rows ++ more) := h.rows.append_right more
      _ |>.Perm (start.rows ++ (w.tasks.set i next).flatMap Task.rows) := by
        rw [List.append_assoc]
        exact (flatMap_set_perm htask hrows).symm.append_left start.rows
  · intro task' htask'
    rcases List.mem_or_eq_of_mem_set htask' with hold | rfl
    · exact h.asked task' hold
    · exact hasked
  · intro task' htask' htaken
    rcases List.mem_or_eq_of_mem_set htask' with hold | rfl
    -- who has lost a key, has lost it for good
    · obtain ⟨key, hlost, hkey⟩ := h.lost task' hold htaken
      exact ⟨key, hlost, hkeys key hkey⟩
    · exact hlost htaken

theorem Tally.step (h : Tally dj p start w) (hstep : step dj py p w e = some w') :
    Tally dj p start w' := by
  rcases step_moves hstep with ⟨task, rfl, hopen, hasked, -⟩ | ⟨i, task, r, -, htask, hnext, rfl⟩ |
    ⟨i, task, -, htask, rfl⟩
  · exact h.arrive hopen hasked
  · have hmem := List.mem_of_getElem? htask
    obtain ⟨more, hrows, hstored⟩ := Task.next_rows hnext
    have hkeys : ∀ key ∈ w.db.keys, key ∈ r.2.1.keys := fun key => mem_keys_of_step hstep
    refine h.move htask hrows hstored hkeys (Task.next_asked (h.asked task hmem) hnext) ?_
    intro htaken
    -- it has lost its key at this step, or before
    rcases Task.next_lost (h.asked task hmem) hnext htaken with hsame | ⟨key, hlost, hkey⟩
    · rw [hsame] at htaken ⊢
      obtain ⟨key, hlost, hkey⟩ := h.lost task hmem htaken
      exact ⟨key, hlost, hkeys key hkey⟩
    · exact ⟨key, hlost, hkeys key hkey⟩
  · have hmem := List.mem_of_getElem? htask
    obtain ⟨hrows, hasked, hsame⟩ := @Task.fail_spec dj p task
    refine h.move htask (hrows.trans (List.append_nil _).symm) (by rw [List.append_nil])
      (fun key hkey => hkey) (hasked (h.asked task hmem)) ?_
    intro htaken
    have hover := hsame htaken
    rw [hover] at htaken ⊢
    exact h.lost task hmem htaken

/-- The keys that are taken are those of the start and of the winners. -/
theorem Tally.keys (h : Tally dj p start w) :
    w.db.keys.Perm (start.keys ++ w.tasks.filterMap Task.createdKey) := by
  have hkeys := h.rows.filterMap Row.key
  have hcreated : (w.tasks.flatMap Task.rows).filterMap Row.key =
      w.tasks.filterMap Task.createdKey := by
    rw [List.filterMap_flatMap, List.filterMap_eq_flatMap_toList]
    simp only [Task.filterMap_rows]
  rwa [List.filterMap_append, hcreated, w.db.filterMap_rows, start.filterMap_rows] at hkeys

theorem World.created_iff_mem {key : Key} :
    key ∈ w.tasks.filterMap Task.createdKey ↔ ∃ i, w.created i = some key := by
  rw [List.mem_filterMap]
  constructor
  · rintro ⟨task, htask, hkey⟩
    obtain ⟨i, hi⟩ := List.mem_iff_getElem?.mp htask
    exact ⟨i, Option.bind_eq_some_iff.mpr ⟨task, hi, hkey⟩⟩
  · rintro ⟨i, hi⟩
    obtain ⟨task, htask, hkey⟩ := Option.bind_eq_some_iff.mp hi
    exact ⟨task, List.mem_of_getElem? htask, hkey⟩

/-- **A key has one winner.**  However signups and link creations interleave, the tables hold the rows
of the start and those of the requests answered 201, once each and as asked for; no two of these have
one key, and whoever is turned away has lost to one of them or to the start. -/
theorem one_winner {es : List Event} (hstart : start.Valid n)
    (hrun : Run (Signup.step dj py p) (.initial start n) es w) : OneWinner dj p start w := by
  have htally : Tally dj p start w := hrun.invariant .initial fun t e u ht hstep => ht.step hstep
  have hinv : Inv start w := hrun.invariant (.initial hstart) fun t e u ht hstep => ht.step hstep
  have hnodup := (htally.keys.nodup_iff).mp hinv.valid.nodup_keys
  obtain ⟨-, honce, hapart⟩ := List.nodup_append.mp hnodup
  refine ⟨htally.rows, htally.asked, ?_, ?_⟩
  · intro i key hi
    refine ⟨fun hmem => ?_, fun j hj => eq_of_nodup_filterMap honce hj hi⟩
    exact hapart key hmem key (World.created_iff_mem.mpr ⟨i, hi⟩) rfl
  · intro task htask htaken
    obtain ⟨key, hlost, hkey⟩ := htally.lost task htask htaken
    refine ⟨key, hlost, ?_⟩
    rw [htally.keys.mem_iff, List.mem_append, World.created_iff_mem] at hkey
    exact hkey

/-- The second of two signups loses at its insert. -/
theorem one_winner_sideBySide : ∃ w,
    Run (Signup.step plain .default Brokerage.angelOne) (.initial .empty 1) sideBySide w ∧
      w.tasks.map Task.status = [some 201, some 500] ∧
      OneWinner plain Brokerage.angelOne .empty w := by
  have hvalues : (exec (Signup.step plain .default Brokerage.angelOne) (.initial .empty 1)
      sideBySide).map (fun w => w.tasks.map Task.status) = some [some 201, some 500] := by
    decide +kernel
  obtain ⟨w, hrun, hw⟩ := Option.map_eq_some_iff.mp hvalues
  exact ⟨w, hrun, hw, one_winner Database.valid_empty hrun⟩

/-! ## 6. Every request is answered -/

theorem Task.work_le (task : Task) : task.work ≤ 4 := by
  unfold Task.work
  split <;> omega

theorem Steps.work_lt {task next : Task} {db : Database} (h : Steps dj w task next db n)
    (hopen : task.status = none) : next.work < task.work := by
  cases h with
  | stay ended =>
      rw [hopen] at ended
      cases ended
  | _ => simp [Task.work]

theorem Task.fail_work_lt (hopen : task.status = none) : task.fail.work < task.work := by
  cases task with
  | signup payload draws phase =>
      cases phase with
      | created user portfolio => cases hopen
      | refused => cases hopen
      | raised e => cases hopen
      | _ => simp [Task.fail, Task.work]
  | createLink user name data id phase =>
      cases phase with
      | created link => cases hopen
      | unknown response => cases hopen
      | refused => cases hopen
      | raised e => cases hopen
      | _ => simp [Task.fail, Task.work]

theorem step_spends (hmoves : w.Moves e) (hstep : Signup.step dj py p w e = some w') :
    w'.work < w.work := by
  rcases step_moves hstep with ⟨task, -, -, -, hnot⟩ | ⟨i, task, r, rfl, htask, hnext, rfl⟩ |
    ⟨i, task, rfl, htask, rfl⟩
  · exact absurd hmoves hnot
  · obtain ⟨task', htask', hopen⟩ := hmoves
    obtain rfl := Option.some.inj (htask.symm.trans htask')
    have hsum := sum_map_set Task.work htask r.1
    have hless := (Task.next_steps hnext).work_lt hopen
    unfold World.work
    dsimp only
    omega
  · obtain ⟨task', htask', hopen⟩ := hmoves
    obtain rfl := Option.some.inj (htask.symm.trans htask')
    have hsum := sum_map_set Task.work htask task.fail
    have hless := Task.fail_work_lt hopen
    unfold World.work
    dsimp only
    omega

/-- A request that does not wait can take its next step. -/
theorem step_isSome (htask : w.tasks[i]? = some task) (h : (task.next dj py p w).isSome) :
    (Signup.step dj py p w (.advance i)).isSome := by
  obtain ⟨r, hr⟩ := Option.isSome_iff_exists.mp h
  simp [Signup.step, htask, hr]

/-- Who has inserted the portfolio waits for nobody. -/
theorem exists_commit {portfolio : Portfolio} (hheld : w.holdsPortfolio portfolio = true) :
    ∃ i, w.Open i ∧ (Signup.step dj py p w (.advance i)).isSome := by
  obtain ⟨task, htask, hany⟩ := List.any_eq_true.mp hheld
  obtain ⟨i, hi⟩ := List.mem_iff_getElem?.mp htask
  unfold Task.insertedPortfolio at hany
  split at hany
  · rename_i payload draws user portfolio'
    exact ⟨i, ⟨_, hi, rfl⟩, step_isSome hi rfl⟩
  · cases hany

/-- Who is about to insert a portfolio waits for one about to commit, if for any. -/
theorem exists_step_of_insertPortfolio {payload : SignupInput} {draws : Draws} {user : User}
    (hi : w.tasks[i]? = some (.signup payload draws (.insertPortfolio user))) :
    ∃ j, w.Open j ∧ (Signup.step dj py p w (.advance j)).isSome := by
  cases hheld : w.holdsPortfolio (userPortfolio user draws.portfolioId) with
  | true => exact exists_commit hheld
  | false =>
      refine ⟨i, ⟨_, hi, rfl⟩, step_isSome hi ?_⟩
      simp only [Task.next, SignupPhase.next, hheld, Option.isSome_map, Bool.false_eq_true, if_false]
      split <;> rfl

/-- Who is about to insert a user waits for one of these two, if for any. -/
theorem exists_step_of_insertUser {payload : SignupInput} {draws : Draws}
    (hi : w.tasks[i]? = some (.signup payload draws .insertUser)) :
    ∃ j, w.Open j ∧ (Signup.step dj py p w (.advance j)).isSome := by
  by_cases hwaits : ((Task.signup payload draws .insertUser).next dj py p w).isSome
  · exact ⟨i, ⟨_, hi, rfl⟩, step_isSome hi hwaits⟩
  · obtain ⟨email, hheld⟩ : ∃ email, w.holdsEmail email = true := by
      simp only [Task.next, SignupPhase.next, Option.isSome_map] at hwaits
      split at hwaits
      · exact absurd rfl hwaits
      · split at hwaits
        · exact ⟨_, ‹_›⟩
        · split at hwaits
          · exact absurd rfl hwaits
          · exact absurd rfl hwaits
    obtain ⟨other, hother, hany⟩ := List.any_eq_true.mp hheld
    obtain ⟨j, hj⟩ := List.mem_iff_getElem?.mp hother
    unfold Task.insertedUser at hany
    split at hany
    · exact exists_step_of_insertPortfolio hj
    · exact ⟨j, ⟨_, hj, rfl⟩, step_isSome hj rfl⟩
    · cases hany

/-- As long as a request is open, some open request can take its next step. -/
theorem exists_step_of_open (hopen : w.Open i) :
    ∃ j, w.Open j ∧ (Signup.step dj py p w (.advance j)).isSome := by
  obtain ⟨task, hi, hstatus⟩ := hopen
  cases task with
  | createLink user name data id phase => exact ⟨i, ⟨_, hi, hstatus⟩, step_isSome hi rfl⟩
  | signup payload draws phase =>
      cases phase with
      | check =>
          refine ⟨i, ⟨_, hi, rfl⟩, step_isSome hi ?_⟩
          simp only [Task.next, SignupPhase.next, Option.isSome_map]
          split <;> rfl
      | insertUser => exact exists_step_of_insertUser hi
      | insertPortfolio user => exact exists_step_of_insertPortfolio hi
      | commit user portfolio => exact ⟨i, ⟨_, hi, rfl⟩, step_isSome hi rfl⟩
      | created user portfolio => cases hstatus
      | refused => cases hstatus
      | raised e => cases hstatus

/-- **Every request is answered.**  Signups wait for each other at two unique indexes and never in a
circle: a schedule of open requests takes no more steps than the work that is left, at most four for
each request, and where no open request can go on there is none. -/
theorem creations_end {es : List Event} (hrun : Run (Signup.step dj py p) w es w')
    (hmoves : EveryStep (Signup.step dj py p) w es World.Moves) :
    es.length ≤ w.work ∧ w.work ≤ 4 * w.tasks.length ∧
      ((∀ i, w'.Open i → Signup.step dj py p w' (.advance i) = none) →
        ∀ task ∈ w'.tasks, task.status.isSome) := by
  refine ⟨?_, ?_, ?_⟩
  · have hlength := hrun.length_add_le_of_everyStep (fun u e v => step_spends) hmoves
    omega
  · exact sum_map_le Task.work_le w.tasks
  · intro hstuck task htask
    by_contra hnot
    obtain ⟨i, hi⟩ := List.mem_iff_getElem?.mp htask
    obtain ⟨j, hopen, hsome⟩ :
        ∃ j, w'.Open j ∧ (Signup.step dj py p w' (.advance j)).isSome :=
      exists_step_of_open ⟨task, hi, by simpa using hnot⟩
    rw [hstuck j hopen] at hsome
    cases hsome

/-- Both signups from their arrival on; the second waits for the first to commit. -/
theorem creations_end_sideBySide : ∃ w w',
    Run (Signup.step plain .default Brokerage.angelOne) (.initial .empty 1) (sideBySide.take 2) w ∧
      Run (Signup.step plain .default Brokerage.angelOne) w (sideBySide.drop 2) w' ∧
      (sideBySide.drop 2).length ≤ w.work ∧ w.work ≤ 4 * w.tasks.length ∧
        ((∀ i, w'.Open i →
            Signup.step plain .default Brokerage.angelOne w' (.advance i) = none) →
          ∀ task ∈ w'.tasks, task.status.isSome) := by
  have hvalues : (exec (Signup.step plain .default Brokerage.angelOne) (.initial .empty 1)
      (sideBySide.take 2)).map (fun w =>
        (checkSteps (Signup.step plain .default Brokerage.angelOne) (fun v e => decide (v.Moves e)) w
          (sideBySide.drop 2),
        (exec (Signup.step plain .default Brokerage.angelOne) w (sideBySide.drop 2)).isSome)) =
      some (true, true) := by
    decide +kernel
  obtain ⟨w, hcome, hw⟩ := Option.map_eq_some_iff.mp hvalues
  obtain ⟨hchecked, hsome⟩ := Prod.mk.inj hw
  obtain ⟨w', hrun⟩ := Option.isSome_iff_exists.mp hsome
  refine ⟨w, w', hcome, hrun, creations_end hrun ?_⟩
  exact everyStep_of_checkSteps (fun v e => of_decide_eq_true) hchecked

end

end DjasktTrading.Accounts.Signup
