import DjasktTrading.Accounts.Creations
import DjasktTrading.Brokerage.Links
import DjasktTrading.Reasoning.Slots

/-!
# Duplicates — what is refused, and how

Emails and links stay unique in every run, and an account comes with one empty portfolio.  A request
whose check finds nothing and whose insert finds the key taken is answered 500.
-/

open Reasoning
open DjasktTrading.Ledger (Portfolio Numeric)
open DjasktTrading.Brokerage (Platform Dict UserBrokerageLink)

namespace DjasktTrading.Accounts.Signup

variable (dj : Django) (py : Python) (p : Platform)

/-! ## 1. No duplicates -/

inductive Row where
  | user (user : User)
  | portfolio (portfolio : Portfolio)
  | link (link : UserBrokerageLink)

def Database.rows (db : Database) : List Row :=
  db.users.map .user ++ db.portfolios.map .portfolio ++ db.links.map .link

/-- The rows that a request has created. -/
def Task.rows : Task → List Row
  | .signup _ _ (.created user portfolio) => [.user user, .portfolio portfolio]
  | .createLink _ _ _ _ (.created link) => [.link link]
  | _ => []

/-- The request creates nothing because the email or the link is taken: its check has found that, or
its insert. -/
def Task.Taken : Task → Prop
  | .signup _ _ .refused => True
  | .signup _ _ (.raised e) => e = .integrityError .userEmail
  | .createLink _ _ _ _ .refused => True
  | .createLink _ _ _ _ (.raised e) => e = .integrityError .userBrokerageLink
  | _ => False

/-- No duplicates, a new user has one portfolio and it is empty, who creates nothing because the email
or the link is taken is answered 409, and every new row is of a request that is answered 201. -/
structure DuplicatesRefused (start : Database) (w : World) : Prop where
  emails : (w.db.users.map User.email).Nodup
  portfolios : ∀ user ∈ w.db.users, user ∉ start.users →
    ∃ portfolio, w.db.portfolios.filter (·.user = user.id) = [portfolio] ∧
      portfolio.cashBalance = Numeric.zero
  links : (w.db.links.map fun link => (link.user, link.brokerage.id)).Nodup
  answered : ∀ task ∈ w.tasks, task.Taken → task.status = some 409
  rows : ∀ row ∈ w.db.rows, row ∈ start.rows ∨
    ∃ task ∈ w.tasks, task.status = some 201 ∧ row ∈ task.rows

/-- What a check is about: an email, or a user's link to a brokerage. -/
inductive Key where
  | email (text : String)
  | link (user : UserId) (brokerage : Uuid)
deriving DecidableEq

def Database.keys (db : Database) : List Key :=
  db.users.map (fun user => .email user.email) ++
    db.links.map fun link => .link link.user link.brokerage.id

/-- The key that a request past its check inserts next. -/
def Task.inserts (dj : Django) : Task → Option Key
  | .signup payload _ .insertUser =>
      if payload.email = "" then none else some (.email (dj.normalizeEmail payload.email))
  | .createLink user _ _ _ (.insert brokerage) => some (.link user.id brokerage.id)
  | _ => none

def World.inserts (w : World) (i : ℕ) : Option Key := w.tasks[i]?.bind (Task.inserts dj)

/-- The next step of a request is its check. -/
def Task.Checks : Task → Prop
  | .signup _ _ .check => True
  | .createLink _ _ _ _ (.check _) => True
  | _ => False

def World.Checks (w : World) (i : ℕ) : Prop := ∃ task, w.tasks[i]? = some task ∧ task.Checks

/-- The step commits a row with the key. -/
def Takes (key : Key) (w : World) (e : Event) : Prop :=
  key ∉ w.db.keys ∧ ∃ w', step dj py p w e = some w' ∧ key ∈ w'.db.keys

/-- From a check to the insert that follows it the key is free: nobody has it at the check, and nobody
takes it in between. -/
def ChecksLast (start : World) (events : List Event) : Prop :=
  ∀ earlier i later s s' t key,
    earlier ++ .advance i :: later ++ [.advance i] <+: events →
    Run (step dj py p) start earlier s → s.Checks i → step dj py p s (.advance i) = some s' →
    Run (step dj py p) s' later t → t.inserts dj i = some key →
    key ∉ s.db.keys ∧ EveryStep (step dj py p) s' later fun u e => ¬ Takes dj py p key u e

/-- The unique constraints and foreign keys of the tables, and a sequence that is ahead of the ids. -/
structure Database.Valid (db : Database) (nextUserId : UserId) : Prop where
  emails : (db.users.map User.email).Nodup
  userIds : (db.users.map User.id).Nodup
  belowNext : ∀ user ∈ db.users, user.id < nextUserId
  owners : ∀ portfolio ∈ db.portfolios, ∃ user ∈ db.users, user.id = portfolio.user
  links : (db.links.map fun link => (link.user, link.brokerage.id)).Nodup

/-! ## 2. What holds in every run -/

/-- What a signup about to commit has made. -/
def Task.Fits : Task → Prop
  | .signup _ _ (.commit user portfolio) =>
      portfolio.user = user.id ∧ portfolio.cashBalance = Numeric.zero
  | _ => True

def World.pending (w : World) (i : ℕ) : Option User := w.tasks[i]?.bind Task.insertedUser

structure Inv (start : Database) (w : World) : Prop where
  valid : w.db.Valid w.nextUserId
  /-- an inserted user has an email and an id of its own -/
  pending : ∀ i user, w.pending i = some user →
    (∀ u ∈ w.db.users, u.email ≠ user.email ∧ u.id ≠ user.id) ∧ user.id < w.nextUserId
  apart : ∀ i j user user', w.pending i = some user → w.pending j = some user' → i ≠ j →
    user.email ≠ user'.email ∧ user.id ≠ user'.id
  fits : ∀ task ∈ w.tasks, task.Fits
  portfolios : ∀ user ∈ w.db.users, user ∉ start.users →
    ∃ portfolio, w.db.portfolios.filter (·.user = user.id) = [portfolio] ∧
      portfolio.cashBalance = Numeric.zero
  rows : ∀ row ∈ w.db.rows, row ∈ start.rows ∨
    ∃ task ∈ w.tasks, task.status = some 201 ∧ row ∈ task.rows

section

variable {dj py p} {start : Database} {w w' : World} {i : ℕ} {task next : Task} {db : Database}
  {n : UserId} {e : Event} {key : Key}

theorem Inv.initial (h : start.Valid n) : Inv start (.initial start n) where
  valid := h
  pending i user hpending := by simp [World.pending, World.initial] at hpending
  apart i j user user' hpending := by simp [World.pending, World.initial] at hpending
  fits task htask := by cases htask
  portfolios user huser hnew := absurd huser hnew
  rows row hrow := .inl hrow

/-- A step that inserts and commits nothing. -/
theorem Inv.quiet (h : Inv start w) {tasks : List Task} (hn : w.nextUserId ≤ n)
    (hpending : ∀ i user, (tasks[i]?).bind Task.insertedUser = some user → w.pending i = some user)
    (hfits : ∀ task ∈ tasks, task ∈ w.tasks ∨ task.Fits)
    (hdone : ∀ task ∈ w.tasks, task.status = some 201 → task ∈ tasks) : Inv start ⟨w.db, n, tasks⟩ where
  valid := { h.valid with belowNext := fun user huser => (h.valid.belowNext user huser).trans_le hn }
  pending i user hi :=
    let ⟨hown, hbelow⟩ := h.pending i user (hpending i user hi)
    ⟨hown, hbelow.trans_le hn⟩
  apart i j user user' hi hj := h.apart i j user user' (hpending i user hi) (hpending j user' hj)
  fits task htask := (hfits task htask).elim (h.fits task) id
  portfolios := h.portfolios
  rows row hrow := by
    rcases h.rows row hrow with hstart | ⟨task, htask, hstatus, hmem⟩
    · exact .inl hstart
    · exact .inr ⟨task, hdone task htask hstatus, hstatus, hmem⟩

/-- A request comes. -/
theorem Inv.arrive (h : Inv start w) (hnone : task.insertedUser = none) (hfits : task.Fits) :
    Inv start { w with tasks := w.tasks ++ [task] } := by
  refine h.quiet le_rfl (fun i user hi => bind_append_singleton hnone hi) (fun task' htask' => ?_)
    fun task' htask' _ => List.mem_append_left _ htask'
  refine (List.mem_append.mp htask').imp_right fun hnew => ?_
  rw [List.mem_singleton.mp hnew]
  exact hfits

/-- A request moves on and inserts no user. -/
theorem Inv.move (h : Inv start w) (htask : w.tasks[i]? = some task) (hn : w.nextUserId ≤ n)
    (hpending : ∀ user, next.insertedUser = some user → task.insertedUser = some user)
    (hfits : next.Fits) (hdone : task.status = some 201 → next = task) :
    Inv start ⟨w.db, n, w.tasks.set i next⟩ := by
  refine h.quiet hn (fun j user hj => ?_) (fun task' htask' => ?_) fun task' htask' hstatus => ?_
  · rcases bind_set_cases hj with ⟨rfl, hnext⟩ | ⟨-, hold⟩
    · rw [World.pending, htask]
      exact hpending user hnext
    · exact hold
  · refine (List.mem_or_eq_of_mem_set htask').imp_right fun heq => ?_
    rw [heq]
    exact hfits
  · rcases mem_set_or_eq htask htask' with hmem | rfl
    · exact hmem
    · rw [← hdone hstatus]
      exact mem_set_of_getElem? htask next

/-- A user is inserted: the email is free and the id is new. -/
theorem Inv.insertUser (h : Inv start w) {payload : SignupInput} {draws : Draws} {user : User}
    (htask : w.tasks[i]? = some (.signup payload draws .insertUser)) (hid : user.id = w.nextUserId)
    (hfree : ∀ u ∈ w.db.users, u.email ≠ user.email) (halone : w.holdsEmail user.email = false) :
    Inv start ⟨w.db, w.nextUserId + 1,
      w.tasks.set i (.signup payload draws (.insertPortfolio user))⟩ := by
  have hbelow : w.nextUserId ≤ w.nextUserId + 1 := (lt_add_one _).le
  -- no open transaction holds the email, and the ids that were drawn are smaller
  have hnot : ∀ j u, w.pending j = some u → u.email ≠ user.email ∧ u.id ≠ user.id := by
    intro j u hj
    obtain ⟨other, hother, hu⟩ := Option.bind_eq_some_iff.mp hj
    refine ⟨fun heq => ?_, hid ▸ (h.pending j u hj).2.ne⟩
    have hheld := List.any_eq_false.mp halone other (List.mem_of_getElem? hother)
    rw [hu] at hheld
    exact hheld (decide_eq_true heq)
  constructor
  · exact { h.valid with belowNext := fun u hu => (h.valid.belowNext u hu).trans_le hbelow }
  · intro j u hj
    rcases bind_set_cases hj with ⟨-, hnext⟩ | ⟨-, hold⟩
    · obtain rfl := Option.some.inj hnext
      exact ⟨fun u hu => ⟨hfree u hu, hid ▸ (h.valid.belowNext u hu).ne⟩, hid ▸ lt_add_one _⟩
    · obtain ⟨hown, hlt⟩ := h.pending j u hold
      exact ⟨hown, hlt.trans_le hbelow⟩
  · intro j k u u' hj hk hjk
    rcases bind_set_cases hj with ⟨rfl, hnext⟩ | ⟨-, holdj⟩
    · obtain rfl := Option.some.inj hnext
      rcases bind_set_cases hk with ⟨heq, -⟩ | ⟨-, holdk⟩
      · exact absurd heq hjk
      · obtain ⟨hemail, hne⟩ := hnot k u' holdk
        exact ⟨hemail.symm, hne.symm⟩
    · rcases bind_set_cases hk with ⟨-, hnext⟩ | ⟨-, holdk⟩
      · obtain rfl := Option.some.inj hnext
        exact hnot j u holdj
      · exact h.apart j k u u' holdj holdk hjk
  · intro task' htask'
    rcases List.mem_or_eq_of_mem_set htask' with hold | rfl
    · exact h.fits task' hold
    · trivial
  · exact h.portfolios
  · intro row hrow
    rcases h.rows row hrow with hstart | ⟨task', htask', hstatus, hmem⟩
    · exact .inl hstart
    · rcases mem_set_or_eq htask htask' with hstays | rfl
      · exact .inr ⟨task', hstays, hstatus, hmem⟩
      · cases hstatus

theorem Database.Valid.commit (h : db.Valid n) {user : User} {portfolio : Portfolio}
    (hown : ∀ u ∈ db.users, u.email ≠ user.email ∧ u.id ≠ user.id) (hbelow : user.id < n)
    (howner : portfolio.user = user.id) :
    Database.Valid { db with
      users := db.users ++ [user]
      portfolios := db.portfolios ++ [portfolio] } n where
  emails := nodup_map_append_singleton h.emails fun u hu => (hown u hu).1
  userIds := nodup_map_append_singleton h.userIds fun u hu => (hown u hu).2
  belowNext u hu := by
    rcases List.mem_append.mp hu with hold | hnew
    · exact h.belowNext u hold
    · rw [List.mem_singleton.mp hnew]
      exact hbelow
  owners q hq := by
    rcases List.mem_append.mp hq with hold | hnew
    · obtain ⟨u, hu, heq⟩ := h.owners q hold
      exact ⟨u, List.mem_append_left _ hu, heq⟩
    · rw [List.mem_singleton.mp hnew]
      exact ⟨user, List.mem_append_right _ (List.mem_singleton_self user), howner.symm⟩
  links := h.links

/-- The new portfolio is of none of the users before. -/
theorem Database.filter_portfolios_of_ne (db : Database) {portfolio : Portfolio} {u : User}
    (hne : portfolio.user ≠ u.id) :
    (db.portfolios ++ [portfolio]).filter (·.user = u.id) = db.portfolios.filter (·.user = u.id) := by
  rw [List.filter_append, List.filter_singleton, decide_eq_false hne]
  simp

/-- And its user had none. -/
theorem Database.Valid.filter_portfolios_self (h : db.Valid n) {user : User} {portfolio : Portfolio}
    (hown : ∀ u ∈ db.users, u.email ≠ user.email ∧ u.id ≠ user.id)
    (howner : portfolio.user = user.id) :
    (db.portfolios ++ [portfolio]).filter (·.user = user.id) = [portfolio] := by
  have hnone : db.portfolios.filter (·.user = user.id) = [] := by
    rw [List.filter_eq_nil_iff]
    intro q hq heq
    obtain ⟨v, hv, hvq⟩ := h.owners q hq
    exact (hown v hv).2 (hvq.trans (of_decide_eq_true heq))
  rw [List.filter_append, hnone, List.filter_singleton, decide_eq_true howner]
  simp

/-- An inserted user is committed with the portfolio that was made for it. -/
theorem Inv.commit (h : Inv start w) {payload : SignupInput} {draws : Draws} {user : User}
    {portfolio : Portfolio}
    (htask : w.tasks[i]? = some (.signup payload draws (.commit user portfolio))) :
    Inv start ⟨{ w.db with
        users := w.db.users ++ [user]
        portfolios := w.db.portfolios ++ [portfolio] },
      w.nextUserId, w.tasks.set i (.signup payload draws (.created user portfolio))⟩ := by
  have hi : w.pending i = some user := by rw [World.pending, htask]; rfl
  obtain ⟨hown, hbelow⟩ := h.pending i user hi
  obtain ⟨howner, hzero⟩ : portfolio.user = user.id ∧ portfolio.cashBalance = Numeric.zero :=
    h.fits _ (List.mem_of_getElem? htask)
  -- the signup itself has nothing pending any more
  have hpending : ∀ j u, ((w.tasks.set i (.signup payload draws (.created user portfolio)))[j]?).bind
      Task.insertedUser = some u → i ≠ j ∧ w.pending j = some u := by
    intro j u hj
    rcases bind_set_cases hj with ⟨-, hnext⟩ | hold
    · cases hnext
    · exact hold
  constructor
  · exact h.valid.commit hown hbelow howner
  · intro j u hj
    obtain ⟨hij, hold⟩ := hpending j u hj
    obtain ⟨hother, hlt⟩ := h.pending j u hold
    refine ⟨fun v hv => ?_, hlt⟩
    rcases List.mem_append.mp hv with hv | hnew
    · exact hother v hv
    · rw [List.mem_singleton.mp hnew]
      exact h.apart i j user u hi hold hij
  · intro j k u u' hj hk hjk
    exact h.apart j k u u' (hpending j u hj).2 (hpending k u' hk).2 hjk
  · intro task' htask'
    rcases List.mem_or_eq_of_mem_set htask' with hold | rfl
    · exact h.fits task' hold
    · trivial
  · intro u hu hnew
    rcases List.mem_append.mp hu with hold | hlast
    · obtain ⟨q, hq, hbalance⟩ := h.portfolios u hold hnew
      have hne : portfolio.user ≠ u.id := fun heq => (hown u hold).2 (heq.symm.trans howner)
      exact ⟨q, (w.db.filter_portfolios_of_ne hne).trans hq, hbalance⟩
    · rw [List.mem_singleton.mp hlast]
      exact ⟨portfolio, h.valid.filter_portfolios_self hown howner, hzero⟩
  · intro row hrow
    have hcreated := mem_set_of_getElem? htask (.signup payload draws (.created user portfolio))
    -- the two new rows are those of the signup, which is answered 201
    have hcases : row ∈ w.db.rows ∨ row = .user user ∨ row = .portfolio portfolio := by
      simp only [Database.rows, List.map_append, List.map_singleton, List.mem_append,
        List.mem_singleton] at hrow ⊢
      tauto
    rcases hcases with hold | rfl | rfl
    · rcases h.rows row hold with hstart | ⟨task', htask', hstatus, hmem⟩
      · exact .inl hstart
      · rcases mem_set_or_eq htask htask' with hstays | rfl
        · exact .inr ⟨task', hstays, hstatus, hmem⟩
        · cases hstatus
    · exact .inr ⟨_, hcreated, rfl, List.mem_cons_self⟩
    · exact .inr ⟨_, hcreated, rfl, List.mem_cons_of_mem _ List.mem_cons_self⟩

theorem Database.link?_eq_none {user : UserId} {brokerage : Brokerage.Brokerage} :
    db.link? user brokerage = none ↔
      (user, brokerage.id) ∉ db.links.map fun link => (link.user, link.brokerage.id) := by
  simp [Database.link?, List.find?_eq_none]

/-- A link is inserted, where the user had none to the brokerage. -/
theorem Inv.createLink (h : Inv start w) {user : Brokerage.User} {name : String} {data : Dict}
    {id : Uuid} {brokerage : Brokerage.Brokerage}
    (htask : w.tasks[i]? = some (.createLink user name data id (.insert brokerage)))
    (hfree : w.db.link? user.id brokerage = none) :
    Inv start ⟨{ w.db with links := w.db.links ++ [⟨id, user.id, brokerage, data⟩] }, w.nextUserId,
      w.tasks.set i (.createLink user name data id (.created ⟨id, user.id, brokerage, data⟩))⟩ := by
  have hcreated := mem_set_of_getElem? htask
    (.createLink user name data id (.created ⟨id, user.id, brokerage, data⟩))
  have hmoved : Inv start ⟨w.db, w.nextUserId,
      w.tasks.set i (.createLink user name data id (.created ⟨id, user.id, brokerage, data⟩))⟩ :=
    h.move htask le_rfl (fun user hnone => by cases hnone) trivial (fun hstatus => by cases hstatus)
  constructor
  · refine { hmoved.valid with links := ?_ }
    refine nodup_map_append_singleton h.valid.links fun link hlink heq => ?_
    exact Database.link?_eq_none.mp hfree (List.mem_map.mpr ⟨link, hlink, heq⟩)
  · exact hmoved.pending
  · exact hmoved.apart
  · exact hmoved.fits
  · exact hmoved.portfolios
  · intro row hrow
    have hcases : row ∈ w.db.rows ∨ row = .link ⟨id, user.id, brokerage, data⟩ := by
      simp only [Database.rows, List.map_append, List.map_singleton, List.mem_append,
        List.mem_singleton] at hrow ⊢
      tauto
    rcases hcases with hold | rfl
    · exact hmoved.rows row hold
    · exact .inr ⟨_, hcreated, rfl, List.mem_cons_self⟩

theorem Inv.advance (h : Inv start w) (htask : w.tasks[i]? = some task)
    (hsteps : Steps dj w task next db n) : Inv start ⟨db, n, w.tasks.set i next⟩ := by
  have hlater : w.nextUserId ≤ w.nextUserId + 1 := (lt_add_one _).le
  cases hsteps with
  | refuse => exact h.move htask le_rfl nofun trivial nofun
  | pass => exact h.move htask le_rfl nofun trivial nofun
  | noEmail empty => exact h.move htask le_rfl nofun trivial nofun
  | emailTaken given taken => exact h.move htask hlater nofun trivial nofun
  | @insertUser payload draws user asked free alone =>
      have hid : user.id = w.nextUserId := by
        rcases requestedUser_cases dj w.nextUserId payload draws with
          ⟨-, text, hraised⟩ | ⟨-, user', hasked, hid, -⟩
        · rw [asked] at hraised
          cases hraised
        · rw [asked] at hasked
          obtain rfl := Except.ok.inj hasked
          exact hid
      exact h.insertUser htask hid free alone
  | portfolioFails other => exact h.move htask le_rfl nofun trivial nofun
  | insertPortfolio => exact h.move htask le_rfl (fun user hsame => hsame) ⟨rfl, rfl⟩ nofun
  | commit => exact h.commit htask
  | lookup => exact h.move htask le_rfl nofun trivial nofun
  | unknown status => exact h.move htask le_rfl nofun trivial nofun
  | refuseLink => exact h.move htask le_rfl nofun trivial nofun
  | passLink => exact h.move htask le_rfl nofun trivial nofun
  | linkTaken taken => exact h.move htask le_rfl nofun trivial nofun
  | linkFails free => exact h.move htask le_rfl nofun trivial nofun
  | createLink free => exact h.createLink htask free
  | stay ended =>
      exact h.move htask le_rfl (fun user hsame => hsame) (h.fits _ (List.mem_of_getElem? htask))
        fun _ => rfl

/-- A request that fails is over with nothing, or was over before. -/
theorem Task.fail_cases (task : Task) :
    task.fail = task ∧ task.status.isSome ∨
      task.fail.insertedUser = none ∧ task.fail.Fits ∧ task.status = none ∧ ¬ task.fail.Taken ∧
        task.fail.inserts dj = none := by
  cases task with
  | signup payload draws phase =>
      cases phase with
      | created user portfolio => exact .inl ⟨rfl, rfl⟩
      | refused => exact .inl ⟨rfl, rfl⟩
      | raised e => exact .inl ⟨rfl, rfl⟩
      | _ => exact .inr ⟨rfl, trivial, rfl, nofun, rfl⟩
  | createLink user name data id phase =>
      cases phase with
      | created link => exact .inl ⟨rfl, rfl⟩
      | unknown response => exact .inl ⟨rfl, rfl⟩
      | refused => exact .inl ⟨rfl, rfl⟩
      | raised e => exact .inl ⟨rfl, rfl⟩
      | _ => exact .inr ⟨rfl, trivial, rfl, nofun, rfl⟩

/-- What one event does: a request comes, takes its next step, or fails. -/
theorem step_cases (h : step dj py p w e = some w') :
    (∃ task, w' = { w with tasks := w.tasks ++ [task] } ∧ task.insertedUser = none ∧ task.Fits ∧
      ¬ task.Taken ∧ task.inserts dj = none) ∨
    (∃ i task next, e = .advance i ∧ w.tasks[i]? = some task ∧
      Steps dj w task next w'.db w'.nextUserId ∧ w'.tasks = w.tasks.set i next) ∨
    ∃ i task, e = .fail i ∧ w.tasks[i]? = some task ∧
      w' = { w with tasks := w.tasks.set i task.fail } := by
  cases e with
  | signup payload draws =>
      cases h
      exact .inl ⟨_, rfl, rfl, trivial, nofun, rfl⟩
  | createLink user name data id =>
      cases h
      exact .inl ⟨_, rfl, rfl, trivial, nofun, rfl⟩
  | advance i =>
      simp only [step] at h
      split at h
      · cases h
      · rename_i task htask
        obtain ⟨⟨next, db, n⟩, hnext, rfl⟩ := Option.map_eq_some_iff.mp h
        exact .inr (.inl ⟨i, task, next, rfl, htask, Task.next_steps hnext, rfl⟩)
  | fail i =>
      simp only [step] at h
      split at h
      · cases h
      · rename_i task htask
        cases h
        exact .inr (.inr ⟨i, task, rfl, htask, rfl⟩)

theorem Inv.step (h : Inv start w) (hstep : step dj py p w e = some w') : Inv start w' := by
  rcases step_cases hstep with ⟨task, rfl, hnone, hfits, -⟩ | ⟨i, task, next, -, htask, hsteps, hset⟩ |
    ⟨i, task, -, htask, rfl⟩
  · exact h.arrive hnone hfits
  · have hadvanced := h.advance htask hsteps
    rwa [← hset] at hadvanced
  · rcases @Task.fail_cases dj task with ⟨hsame, -⟩ | ⟨hnone, hfits, hopen, -⟩
    · rw [hsame]
      exact h.move htask le_rfl (fun user huser => huser) (h.fits _ (List.mem_of_getElem? htask))
        fun _ => rfl
    · refine h.move htask le_rfl (fun user huser => ?_) hfits fun hstatus => ?_
      · rw [hnone] at huser
        cases huser
      · rw [hopen] at hstatus
        cases hstatus

/-! ## 3. Keys that are taken between a check and its insert -/

theorem Database.mem_keys_email {email : String} :
    .email email ∈ db.keys ↔ ∃ user ∈ db.users, user.email = email := by
  simp [Database.keys]

theorem Database.mem_keys_link {user : UserId} {brokerage : Brokerage.Brokerage} :
    .link user brokerage.id ∈ db.keys ↔ (db.link? user brokerage).isSome := by
  simp [Database.keys, Database.link?, List.find?_isSome]

/-- Who has a key keeps it. -/
theorem mem_keys_of_step (hstep : step dj py p w e = some w') (hkey : key ∈ w.db.keys) :
    key ∈ w'.db.keys := by
  rcases step_cases hstep with ⟨task, rfl, -⟩ | ⟨i, task, next, -, -, hsteps, -⟩ | ⟨i, task, -, -, rfl⟩
  · exact hkey
  · generalize w'.db = db, w'.nextUserId = n at hsteps ⊢
    cases hsteps with
    | commit =>
        simp only [Database.keys, List.map_append, List.mem_append] at hkey ⊢
        exact hkey.imp_left Or.inl
    | createLink free =>
        simp only [Database.keys, List.map_append, List.mem_append] at hkey ⊢
        exact hkey.imp_right Or.inl
    | _ => exact hkey
  · exact hkey

theorem mem_keys_of_run {es : List Event} (hrun : Run (step dj py p) w es w')
    (hkey : key ∈ w.db.keys) : key ∈ w'.db.keys :=
  hrun.invariant (I := fun v => key ∈ v.db.keys) hkey fun _ _ _ hv hstep => mem_keys_of_step hstep hv

/-- A key is free as long as nobody takes it. -/
theorem notMem_keys_of_run {es : List Event} (hrun : Run (step dj py p) w es w')
    (hkey : key ∉ w.db.keys)
    (hnone : EveryStep (step dj py p) w es fun u f => ¬ Takes dj py p key u f) :
    key ∉ w'.db.keys :=
  hnone.invariant (I := fun v => key ∉ v.db.keys) hrun hkey fun _ _ u hv hnot hstep hmem =>
    hnot ⟨hv, u, hstep, hmem⟩

/-- A request comes to its insert by a check that finds nothing. -/
theorem Steps.inserts (h : Steps dj w task next db n) (hkey : next.inserts dj = some key) :
    task.Checks ∧ db = w.db := by
  cases h with
  | pass => exact ⟨trivial, rfl⟩
  | passLink => exact ⟨trivial, rfl⟩
  | stay ended =>
      unfold Task.inserts at hkey
      split at hkey
      · cases ended
      · cases ended
      · cases hkey
  | _ => cases hkey

theorem inserts_of_step (hstep : step dj py p w e = some w') (hkey : w'.inserts dj i = some key) :
    w.inserts dj i = some key ∨ e = .advance i ∧ w.Checks i ∧ w'.db = w.db := by
  unfold World.inserts at hkey
  rcases step_cases hstep with ⟨task, rfl, -, -, -, hnone⟩ | ⟨j, task, next, rfl, htask, hsteps, hset⟩ |
    ⟨j, task, rfl, htask, rfl⟩
  · exact .inl (bind_append_singleton hnone hkey)
  · rw [hset] at hkey
    rcases bind_set_cases hkey with ⟨rfl, hnext⟩ | ⟨-, hold⟩
    · obtain ⟨hchecks, hdb⟩ := hsteps.inserts hnext
      exact .inr ⟨rfl, ⟨task, htask, hchecks⟩, hdb⟩
    · exact .inl hold
  · rcases bind_set_cases hkey with ⟨rfl, hnext⟩ | ⟨-, hold⟩
    · rcases @Task.fail_cases dj task with ⟨hsame, -⟩ | ⟨-, -, -, -, hnone⟩
      · rw [hsame] at hnext
        exact .inl (Option.bind_eq_some_iff.mpr ⟨task, htask, hnext⟩)
      · rw [hnone] at hnext
        cases hnext
    · exact .inl hold

/-- Whoever is about to insert has checked, and is about to insert since. -/
theorem exists_check {es : List Event} (hrun : Run (step dj py p) (.initial start n) es w)
    (hkey : w.inserts dj i = some key) :
    ∃ earlier later s s', es = earlier ++ .advance i :: later ∧
      Run (step dj py p) (.initial start n) earlier s ∧ s.Checks i ∧
      step dj py p s (.advance i) = some s' ∧ s'.db = s.db ∧ Run (step dj py p) s' later w := by
  refine hrun.induction (motive := fun es w => w.inserts dj i = some key →
    ∃ earlier later s s', es = earlier ++ .advance i :: later ∧
      Run (step dj py p) (.initial start n) earlier s ∧ s.Checks i ∧
      step dj py p s (.advance i) = some s' ∧ s'.db = s.db ∧ Run (step dj py p) s' later w) ?_ ?_ hkey
  · intro hnone
    simp [World.inserts, World.initial] at hnone
  · intro es t e u ht ih hstep hu
    -- either it was about to insert before, or this step is the check
    rcases inserts_of_step hstep hu with hbefore | ⟨rfl, hchecks, hdb⟩
    · obtain ⟨earlier, later, s, s', rfl, hs, hchecks, hs', hdb, hlater⟩ := ih hbefore
      exact ⟨earlier, later ++ [e], s, s', by simp, hs, hchecks, hs', hdb,
        run_concat_iff.mpr ⟨t, hlater, hstep⟩⟩
    · exact ⟨es, [], t, u, rfl, ht, hchecks, hstep, hdb, run_nil_iff.mpr rfl⟩

/-! ## 4. Answers -/

def World.Answered (w : World) : Prop := ∀ task ∈ w.tasks, task.Taken → task.status = some 409

/-- The next step of a request answers a taken key with 409, unless it is an insert of that key. -/
theorem Steps.answered (h : Steps dj w task next db n)
    (hbefore : task.Taken → task.status = some 409) :
    (next.Taken → next.status = some 409) ∨ ∃ key, task.inserts dj = some key ∧ key ∈ w.db.keys := by
  cases h with
  | refuse => exact .inl fun _ => rfl
  | refuseLink => exact .inl fun _ => rfl
  | emailTaken given taken =>
      exact .inr ⟨_, if_neg given, Database.mem_keys_email.mpr taken⟩
  | portfolioFails other => exact .inl fun htaken => absurd htaken other
  | linkTaken taken => exact .inr ⟨_, rfl, Database.mem_keys_link.mpr taken⟩
  | stay ended => exact .inl hbefore
  | _ => exact .inl nofun

/-- An insert of a key that is taken is answered 500. -/
theorem Steps.not_answered (h : Steps dj w task next db n) (hinserts : task.inserts dj = some key)
    (hkey : key ∈ w.db.keys) : next.Taken ∧ next.status = some 500 := by
  cases h with
  | noEmail empty =>
      rw [Task.inserts, if_pos empty] at hinserts
      cases hinserts
  | emailTaken given taken => exact ⟨rfl, rfl⟩
  | @insertUser payload draws user asked free alone =>
      rcases requestedUser_cases dj w.nextUserId payload draws with
        ⟨hempty, -⟩ | ⟨hgiven, user', hasked, -, hemail⟩
      · rw [Task.inserts, if_pos hempty] at hinserts
        cases hinserts
      · rw [Task.inserts, if_neg hgiven] at hinserts
        obtain rfl := Option.some.inj hinserts
        obtain ⟨u, hu, heq⟩ := Database.mem_keys_email.mp hkey
        rw [asked] at hasked
        obtain rfl := Except.ok.inj hasked
        exact absurd (heq.trans hemail.symm) (free u hu)
  | linkTaken taken => exact ⟨rfl, rfl⟩
  | linkFails free =>
      obtain rfl := Option.some.inj hinserts
      rw [Database.mem_keys_link, free] at hkey
      cases hkey
  | createLink free =>
      obtain rfl := Option.some.inj hinserts
      rw [Database.mem_keys_link, free] at hkey
      cases hkey
  | stay ended =>
      unfold Task.inserts at hinserts
      split at hinserts
      · cases ended
      · cases ended
      · cases hinserts
  | _ => cases hinserts

theorem answered_of_step (hbefore : w.Answered) (hstep : step dj py p w e = some w')
    (hfree : ∀ i key, e = .advance i → w.inserts dj i = some key → key ∉ w.db.keys) :
    w'.Answered := by
  intro task' htask' htaken
  rcases step_cases hstep with ⟨task, rfl, -, -, hnot, -⟩ | ⟨i, task, next, rfl, htask, hsteps, hset⟩ |
    ⟨i, task, -, htask, rfl⟩
  · rcases List.mem_append.mp htask' with hold | hnew
    · exact hbefore task' hold htaken
    · rw [List.mem_singleton.mp hnew] at htaken
      exact absurd htaken hnot
  · rw [hset] at htask'
    rcases List.mem_or_eq_of_mem_set htask' with hold | rfl
    · exact hbefore task' hold htaken
    · rcases hsteps.answered (hbefore task (List.mem_of_getElem? htask)) with hanswer | ⟨key, hkey, hmem⟩
      · exact hanswer htaken
      · exact absurd hmem (hfree i key rfl (Option.bind_eq_some_iff.mpr ⟨task, htask, hkey⟩))
  · rcases List.mem_or_eq_of_mem_set htask' with hold | rfl
    · exact hbefore task' hold htaken
    · rcases @Task.fail_cases dj task with ⟨hsame, -⟩ | ⟨-, -, -, hnot, -⟩
      · rw [hsame] at htaken ⊢
        exact hbefore task (List.mem_of_getElem? htask) htaken
      · exact absurd htaken hnot

theorem not_answered_of_step (hstep : step dj py p w (.advance i) = some w')
    (hinserts : w.inserts dj i = some key) (hkey : key ∈ w.db.keys) : ¬ w'.Answered := by
  obtain ⟨task, htask, hinsert⟩ := Option.bind_eq_some_iff.mp hinserts
  simp only [step, htask] at hstep
  obtain ⟨⟨next, db, n⟩, hnext, rfl⟩ := Option.map_eq_some_iff.mp hstep
  obtain ⟨htaken, hstatus⟩ := (Task.next_steps hnext).not_answered hinsert hkey
  intro h
  have hanswer := h next (mem_set_of_getElem? htask next) htaken
  rw [hstatus] at hanswer
  cases hanswer

/-- **Duplicate creations are refused cleanly** exactly if every key stays free from its check to its
insert. -/
theorem duplicatesRefused_iff_checksLast {events : List Event} (hstart : start.Valid n)
    (hrun : Run (step dj py p) (.initial start n) events w) :
    EveryState (step dj py p) (.initial start n) events (fun _ v => DuplicatesRefused start v) ↔
      ChecksLast dj py p (.initial start n) events := by
  constructor
  · intro h earlier i later s s' t key hpre hs hchecks hstep ht hkey
    have hrunt : Run (step dj py p) (.initial start n) (earlier ++ .advance i :: later) t :=
      run_append_iff.mpr ⟨s, hs, run_cons_iff.mpr ⟨s', hstep, ht⟩⟩
    obtain ⟨v, hv⟩ := hrun.exists_step hpre hrunt
    -- an insert of a taken key would be answered 500
    have hfree : key ∉ t.db.keys := fun hmem =>
      not_answered_of_step hv hkey hmem (h _ v hpre (run_concat_iff.mpr ⟨t, hrunt, hv⟩)).answered
    refine ⟨fun hmem => hfree (mem_keys_of_run ht (mem_keys_of_step hstep hmem)), ?_⟩
    -- who takes it in between keeps it up to the insert
    rintro before f u ⟨after, rfl⟩ hu ⟨-, u', hu', hmem⟩
    rw [List.append_assoc, List.singleton_append] at ht
    obtain ⟨u₁, hu₁, hrest⟩ := run_append_iff.mp ht
    obtain rfl := hu₁.unique hu
    obtain ⟨u₂, hu₂, hafter⟩ := run_cons_iff.mp hrest
    obtain rfl := Option.some.inj (hu₂.symm.trans hu')
    exact hfree (mem_keys_of_run hafter hmem)
  · intro h pre v hpre hv
    have hinv : Inv start v := hv.invariant (.initial hstart) fun t e u ht hstep => ht.step hstep
    -- only the answers need the condition; the tables are right in every run
    have hanswered : v.Answered := by
      revert hpre
      refine hv.induction (motive := fun pre v => pre <+: events → v.Answered) (fun _ => ?_) ?_
      · intro task htask
        cases htask
      · intro es t e u ht ih hstep hpre
        refine answered_of_step (ih ((List.prefix_append es [e]).trans hpre)) hstep ?_
        rintro i key rfl hkey
        obtain ⟨earlier, later, s, s', rfl, hs, hchecks, hs', hdb, hlater⟩ := exists_check ht hkey
        obtain ⟨hfree, hnone⟩ := h earlier i later s s' t key hpre hs hchecks hs' hlater hkey
        exact notMem_keys_of_run hlater (hdb ▸ hfree) hnone
    exact {
      emails := hinv.valid.emails
      portfolios := hinv.portfolios
      links := hinv.valid.links
      answered := hanswered
      rows := hinv.rows }

end

/-! ## 5. Two signups with one email -/

/-- Domains in lower case already, and passwords that are not hashed. -/
def plain : Django where
  normalizeEmail email := email
  makePassword password _ := password

def alice (portfolioId : Uuid) : Event :=
  .signup ⟨"alice@example.com", "hunter2", "", ""⟩ ⟨"", portfolioId⟩

def Database.empty : Database := ⟨[], [], []⟩

theorem Database.valid_empty : Database.empty.Valid 1 where
  emails := List.nodup_nil
  userIds := List.nodup_nil
  belowNext user huser := by cases huser
  owners portfolio hportfolio := by cases hportfolio
  links := List.nodup_nil

/-- The second signup comes when the first has been answered. -/
def oneAfterTheOther : List Event :=
  [alice 7, .advance 0, .advance 0, .advance 0, .advance 0, alice 8, .advance 1, .advance 1]

theorem duplicatesRefused_iff_checksLast_sample :
    ∃ w, Run (step plain .default Brokerage.angelOne) (.initial .empty 1) oneAfterTheOther w ∧
      (EveryState (step plain .default Brokerage.angelOne) (.initial .empty 1) oneAfterTheOther
          (fun _ v => DuplicatesRefused .empty v) ↔
        ChecksLast plain .default Brokerage.angelOne (.initial .empty 1) oneAfterTheOther) ∧
      w.tasks.map Task.status = [some 201, some 409] := by
  have hvalues : (exec (step plain .default Brokerage.angelOne) (.initial .empty 1)
      oneAfterTheOther).map (fun w => w.tasks.map Task.status) = some [some 201, some 409] := by
    decide +kernel
  obtain ⟨w, hrun, hw⟩ := Option.map_eq_some_iff.mp hvalues
  exact ⟨w, hrun, duplicatesRefused_iff_checksLast Database.valid_empty hrun, hw⟩

/-- Both signups check before either inserts. -/
def sideBySide : List Event :=
  [alice 7, alice 8, .advance 0, .advance 1, .advance 0, .advance 0, .advance 0, .advance 1]

/-- The second is answered 500. -/
theorem not_duplicatesRefused_sideBySide :
    ¬ EveryState (step plain .default Brokerage.angelOne) (.initial .empty 1) sideBySide
      (fun _ v => DuplicatesRefused .empty v) := by
  intro h
  have hvalues : (exec (step plain .default Brokerage.angelOne) (.initial .empty 1)
      sideBySide.dropLast).map (fun w => (w.inserts plain 1, w.db.keys)) =
        some (some (.email "alice@example.com"), [.email "alice@example.com"]) := by
    decide +kernel
  have hlast : (exec (step plain .default Brokerage.angelOne) (.initial .empty 1)
      (sideBySide.dropLast ++ [.advance 1])).isSome := by
    decide +kernel
  obtain ⟨t, ht, hkeys⟩ := Option.map_eq_some_iff.mp hvalues
  obtain ⟨v, hv⟩ := Option.isSome_iff_exists.mp hlast
  obtain ⟨hinserts, htaken⟩ := Prod.mk.inj hkeys
  obtain ⟨t', ht', hstep⟩ := run_concat_iff.mp hv
  obtain rfl := Run.unique ht ht'
  exact not_answered_of_step hstep hinserts (by rw [htaken]; exact List.mem_singleton_self _)
    (h _ v (List.prefix_refl _) hv).answered

end DjasktTrading.Accounts.Signup
