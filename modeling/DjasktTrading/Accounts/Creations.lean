import DjasktTrading.Accounts.Signup
import DjasktTrading.Brokerage.Router
import DjasktTrading.Reasoning.Runs

/-!
# Creations — signups and new links, interleaved

A request checks that there is no such row yet, and then inserts it.  The steps of all requests
interleave; checks see what is committed.  An insert fails on a unique key that is committed, and waits
for a transaction that has inserted the key and has not ended.
-/

open Reasoning
open DjasktTrading.Ledger (Portfolio Numeric)
open DjasktTrading.Brokerage (Platform Dict UserBrokerageLink)

namespace DjasktTrading.Accounts.Signup

/-! ## 1. Requests -/

/-- Where a signup stands. -/
inductive SignupPhase where
  | check
  | insertUser
  | insertPortfolio (user : User)
  | commit (user : User) (portfolio : Portfolio)
  | created (user : User) (portfolio : Portfolio)
  /-- the check has found the email -/
  | refused
  | raised (e : Exn)

/-- Where a `create_link` stands. -/
inductive LinkPhase where
  | lookup
  | check (brokerage : Brokerage.Brokerage)
  | insert (brokerage : Brokerage.Brokerage)
  | created (link : UserBrokerageLink)
  /-- there is no such brokerage -/
  | unknown (response : Brokerage.Response)
  /-- the check has found the link -/
  | refused
  | raised (e : Exn)

inductive Task where
  | signup (payload : SignupInput) (draws : Draws) (phase : SignupPhase)
  | createLink (user : Brokerage.User) (brokerageName : String) (userBrokerageData : Dict) (id : Uuid)
      (phase : LinkPhase)

/-- What is committed, the next value of the sequence of user ids, and the requests. -/
structure World where
  db : Database
  nextUserId : UserId
  tasks : List Task

def World.initial (db : Database) (nextUserId : UserId) : World where
  db := db
  nextUserId := nextUserId
  tasks := []

/-- The user that a signup has inserted and not committed. -/
def Task.insertedUser : Task → Option User
  | .signup _ _ (.insertPortfolio user) => some user
  | .signup _ _ (.commit user _) => some user
  | _ => none

def Task.insertedPortfolio : Task → Option Portfolio
  | .signup _ _ (.commit _ portfolio) => some portfolio
  | _ => none

/-- A transaction that is open has inserted this email. -/
def World.holdsEmail (w : World) (email : String) : Bool :=
  w.tasks.any fun task => task.insertedUser.any (·.email = email)

def World.holdsPortfolio (w : World) (portfolio : Portfolio) : Bool :=
  w.tasks.any fun task =>
    task.insertedPortfolio.any fun p => p.user = portfolio.user ∨ p.id = portfolio.id

/-- The user's link to a brokerage. -/
def Database.link? (db : Database) (userId : UserId) (brokerage : Brokerage.Brokerage) :
    Option UserBrokerageLink :=
  db.links.find? fun link => link.user = userId ∧ link.brokerage.id = brokerage.id

/-! ## 2. Steps -/

variable (dj : Django) (py : Python) (p : Platform)

/-- The next step of `signup`, if it does not have to wait; it may draw the next user id. -/
def SignupPhase.next (w : World) (payload : SignupInput) (draws : Draws) :
    SignupPhase → Option (SignupPhase × Database × UserId)
  | .check =>
      if w.db.users.any (·.email = payload.email) then some (.refused, w.db, w.nextUserId)
      else some (.insertUser, w.db, w.nextUserId)
  | .insertUser =>
      match requestedUser dj w.nextUserId payload draws with
      | .error e => some (.raised e, w.db, w.nextUserId)
      | .ok user =>
          -- the insert waits for the open transaction that holds the email
          if w.holdsEmail user.email then none
          else
            match w.db.insertUser user with
            | .error e => some (.raised e, w.db, w.nextUserId + 1)
            | .ok _ => some (.insertPortfolio user, w.db, w.nextUserId + 1)
  | .insertPortfolio user =>
      let portfolio := userPortfolio user draws.portfolioId
      -- and for the one that holds a key of the portfolio
      if w.holdsPortfolio portfolio then none
      else
        match w.db.insertPortfolio portfolio with
        | .error e => some (.raised e, w.db, w.nextUserId)
        | .ok _ => some (.commit user portfolio, w.db, w.nextUserId)
  | .commit user portfolio =>
      some (.created user portfolio,
        { w.db with
          users := w.db.users ++ [user]
          portfolios := w.db.portfolios ++ [portfolio] },
        w.nextUserId)
  | .created user portfolio => some (.created user portfolio, w.db, w.nextUserId)
  | .refused => some (.refused, w.db, w.nextUserId)
  | .raised e => some (.raised e, w.db, w.nextUserId)

/-- The next step of `create_link`; the insert is a transaction of its own. -/
def LinkPhase.next (db : Database) (user : Brokerage.User) (brokerageName : String)
    (userBrokerageData : Dict) (id : Uuid) : LinkPhase → LinkPhase × Database
  | .lookup =>
      if brokerageName ∉ Brokerage.brokerStrategies then
        (.unknown (Brokerage.unknownBrokerage py brokerageName), db)
      else
        match p.active? brokerageName with
        | none => (.unknown ⟨404, .error "Unknown or inactive brokerage."⟩, db)
        | some brokerage => (.check brokerage, db)
  | .check brokerage =>
      -- `.exists()`: what it finds may change before the insert
      if (db.link? user.id brokerage).isSome then (.refused, db) else (.insert brokerage, db)
  | .insert brokerage =>
      let link : UserBrokerageLink := ⟨id, user.id, brokerage, userBrokerageData⟩
      match db.insertLink link with
      | .error e => (.raised e, db)
      | .ok db => (.created link, db)
  | .created link => (.created link, db)
  | .unknown response => (.unknown response, db)
  | .refused => (.refused, db)
  | .raised e => (.raised e, db)

def Task.next (w : World) : Task → Option (Task × Database × UserId)
  | .signup payload draws phase =>
      (phase.next dj w payload draws).map fun (next, db, nextUserId) =>
        (.signup payload draws next, db, nextUserId)
  | .createLink user brokerageName data id phase =>
      let (next, db) := phase.next py p w.db user brokerageName data id
      some (.createLink user brokerageName data id next, db, w.nextUserId)

/-- A request that the database fails. -/
def Task.fail : Task → Task
  | .signup payload draws .check => .signup payload draws (.raised .databaseError)
  | .signup payload draws .insertUser => .signup payload draws (.raised .databaseError)
  | .signup payload draws (.insertPortfolio _) => .signup payload draws (.raised .databaseError)
  | .signup payload draws (.commit _ _) => .signup payload draws (.raised .databaseError)
  | .createLink user brokerageName data id .lookup =>
      .createLink user brokerageName data id (.raised .databaseError)
  | .createLink user brokerageName data id (.check _) =>
      .createLink user brokerageName data id (.raised .databaseError)
  | .createLink user brokerageName data id (.insert _) =>
      .createLink user brokerageName data id (.raised .databaseError)
  | task => task

inductive Event where
  | signup (payload : SignupInput) (draws : Draws)
  | createLink (user : Brokerage.User) (brokerageName : String) (userBrokerageData : Dict) (id : Uuid)
  /-- the next step of a request -/
  | advance (i : ℕ)
  | fail (i : ℕ)

def step (w : World) : Event → Option World
  | .signup payload draws => some { w with tasks := w.tasks ++ [.signup payload draws .check] }
  | .createLink user brokerageName data id =>
      some { w with tasks := w.tasks ++ [.createLink user brokerageName data id .lookup] }
  | .advance i =>
      match w.tasks[i]? with
      | none => none
      | some task => (task.next dj py p w).map fun (next, db, nextUserId) =>
          { db, nextUserId, tasks := w.tasks.set i next }
  | .fail i =>
      match w.tasks[i]? with
      | none => none
      | some task => some { w with tasks := w.tasks.set i task.fail }

/-! ## 3. Answers -/

def SignupPhase.response : SignupPhase → Option Response
  | .created user _ => some (signedUp user)
  | .refused => some alreadyExists
  | .raised _ => some unexpectedError
  | _ => none

def LinkPhase.response : LinkPhase → Option Brokerage.Response
  | .created link => some ⟨201, .link {
      id := link.id
      brokerageName := link.brokerage.name
      userBrokerageData := link.userBrokerageData
      isConnected := false }⟩
  | .unknown response => some response
  | .refused => some ⟨409, .error "This brokerage is already linked."⟩
  | .raised _ => some Brokerage.unexpectedError
  | _ => none

def Task.status : Task → Option ℕ
  | .signup _ _ phase => phase.response.map Response.status
  | .createLink _ _ _ _ phase => phase.response.map Brokerage.Response.status

/-! ## 4. One request alone -/

section

variable {dj py p} {w : World} {payload : SignupInput} {draws : Draws}

theorem Database.insertUser_eq_ok {db db' : Database} {user : User}
    (h : db.insertUser user = .ok db') :
    (∀ u ∈ db.users, u.email ≠ user.email) ∧ db' = { db with users := db.users ++ [user] } := by
  unfold insertUser at h
  split at h
  · cases h
  · rename_i hfree
    exact ⟨by simpa using hfree, (Except.ok.inj h).symm⟩

theorem Database.insertUser_eq_error {db : Database} {user : User} {e : Exn}
    (h : db.insertUser user = .error e) :
    e = .integrityError .userEmail ∧ ∃ u ∈ db.users, u.email = user.email := by
  unfold insertUser at h
  split at h
  · rename_i htaken
    exact ⟨(Except.error.inj h).symm, by simpa using htaken⟩
  · cases h

/-- An insert of a portfolio fails at one of its constraints only. -/
theorem Database.insertPortfolio_ne_email {db : Database} {portfolio : Portfolio} :
    db.insertPortfolio portfolio ≠ .error (.integrityError .userEmail) := by
  unfold insertPortfolio
  split
  · simp
  · split <;> simp

theorem Database.insertPortfolio_eq_ok {db db' : Database} {portfolio : Portfolio}
    (h : db.insertPortfolio portfolio = .ok db') :
    db' = { db with portfolios := db.portfolios ++ [portfolio] } := by
  unfold insertPortfolio at h
  split at h
  · cases h
  · split at h
    · cases h
    · exact (Except.ok.inj h).symm

theorem Database.insertPortfolio_users (db : Database) (users : List User) (portfolio : Portfolio) :
    insertPortfolio { db with users } portfolio =
      (db.insertPortfolio portfolio).map fun db => { db with users } := by
  unfold insertPortfolio
  dsimp only
  split_ifs
  · rfl
  · rfl
  · rfl

theorem Database.insertLink_eq (db : Database) (link : UserBrokerageLink) :
    db.insertLink link =
      if (db.link? link.user link.brokerage).isSome then
        .error (.integrityError .userBrokerageLink)
      else if db.links.any (·.id = link.id) then .error (.integrityError .linkId)
      else .ok { db with links := db.links ++ [link] } := by
  have hany : (db.links.any fun l => l.user = link.user ∧ l.brokerage.id = link.brokerage.id) =
      (db.link? link.user link.brokerage).isSome := by
    rw [Bool.eq_iff_iff, link?, List.find?_isSome, List.any_eq_true]
  rw [insertLink, hany]

/-- Steps in a row are `create_link`. -/
theorem LinkPhase.iterate_next (db : Database) {around : Brokerage.World}
    (hlinks : around.links = db.links) (user : Brokerage.User) (brokerageName : String)
    (data : Dict) (id : Uuid) :
    let answer := Brokerage.BrokerageController.createLink py p around user brokerageName data id
    let after := (fun r : LinkPhase × Database =>
      r.1.next py p r.2 user brokerageName data id)^[3] (.lookup, db)
    after.1.response = some answer.1 ∧ after.2 = { db with links := answer.2.links } := by
  have hlink : ∀ brokerage, around.link? user.id brokerage = db.link? user.id brokerage := by
    intro brokerage
    rw [Brokerage.World.link?, hlinks]
    rfl
  unfold Brokerage.BrokerageController.createLink
  dsimp only
  by_cases hname : brokerageName ∉ Brokerage.brokerStrategies
  · simp [next, hname, response, hlinks]
  · cases hactive : p.active? brokerageName with
    | none => simp [next, hname, hactive, response, hlinks]
    | some brokerage =>
        cases hfound : db.link? user.id brokerage with
        | some link => simp [next, hname, hactive, hlink, hfound, response, hlinks]
        | none =>
            have hinsert := db.insertLink_eq ⟨id, user.id, brokerage, data⟩
            rw [hfound, if_neg (by simp)] at hinsert
            cases hid : db.links.any (·.id = id) with
            | true =>
                rw [if_pos hid] at hinsert
                simp [next, hname, hactive, hlink, hfound, hinsert, hid, response, hlinks]
            | false =>
                rw [if_neg (by simp [hid])] at hinsert
                simp [next, hname, hactive, hlink, hfound, hinsert, hid, response, hlinks]

theorem Task.insertedPortfolio_eq_none {task : Task} (h : task.insertedUser = none) :
    task.insertedPortfolio = none := by
  unfold Task.insertedPortfolio
  split
  · cases h
  · rfl

theorem World.holdsEmail_eq_false (h : ∀ task ∈ w.tasks, task.insertedUser = none) (email : String) :
    w.holdsEmail email = false := by
  rw [holdsEmail, List.any_eq_false]
  intro task htask
  rw [h task htask]
  exact Bool.false_ne_true

theorem World.holdsPortfolio_eq_false (h : ∀ task ∈ w.tasks, task.insertedPortfolio = none)
    (portfolio : Portfolio) : w.holdsPortfolio portfolio = false := by
  rw [holdsPortfolio, List.any_eq_false]
  intro task htask
  rw [h task htask]
  exact Bool.false_ne_true

/-- Where no other signup is open, steps in a row are `signup`. -/
theorem run_signup (halone : ∀ task ∈ w.tasks, task.insertedUser = none) :
    ∃ (phase : SignupPhase) (nextUserId : UserId),
      phase.response = some (signup dj w.db w.nextUserId payload draws).1 ∧
      Run (step dj py p) w
        (.signup payload draws :: List.replicate 4 (.advance w.tasks.length))
        ⟨(signup dj w.db w.nextUserId payload draws).2, nextUserId,
          w.tasks ++ [.signup payload draws phase]⟩ := by
  obtain ⟨db, n, tasks⟩ := w
  have hemail : ∀ email,
      World.holdsEmail ⟨db, n, tasks ++ [.signup payload draws .insertUser]⟩ email = false := by
    refine World.holdsEmail_eq_false fun task htask => ?_
    rcases List.mem_append.mp htask with hold | hnew
    · exact halone task hold
    · rw [List.mem_singleton.mp hnew]
      rfl
  have hportfolio : ∀ user portfolio, World.holdsPortfolio
      ⟨db, n + 1, tasks ++ [.signup payload draws (.insertPortfolio user)]⟩ portfolio = false := by
    refine fun user => World.holdsPortfolio_eq_false fun task htask => ?_
    rcases List.mem_append.mp htask with hold | hnew
    · exact Task.insertedPortfolio_eq_none (halone task hold)
    · rw [List.mem_singleton.mp hnew]
      rfl
  -- the steps are run one by one, along the branches of `signup`
  simp only [Run, exec, List.replicate, step, Option.bind_some]
  unfold signup createAccount
  cases hcheck : db.users.any (·.email = payload.email) with
  | true => exact ⟨.refused, n, rfl, by simp [Task.next, SignupPhase.next, hcheck]⟩
  | false =>
      cases huser : requestedUser dj n payload draws with
      | error e =>
          exact ⟨.raised e, n, rfl,
            by simp [Task.next, SignupPhase.next, hcheck, huser, bind, Except.bind]⟩
      | ok user =>
          cases hinsert : db.insertUser user with
          | error e =>
              refine ⟨.raised e, n + 1, ?_, ?_⟩
              · simp [bind, Except.bind, hinsert, SignupPhase.response]
              · simp [Task.next, SignupPhase.next, hcheck, huser, hemail, hinsert, bind, Except.bind]
          | ok db' =>
              obtain ⟨-, rfl⟩ := Database.insertUser_eq_ok hinsert
              cases hopen : db.insertPortfolio (userPortfolio user draws.portfolioId) with
              | error e =>
                  refine ⟨.raised e, n + 1, ?_, ?_⟩
                  · simp [bind, Except.bind, hinsert, Database.insertPortfolio_users, hopen, Except.map,
                      SignupPhase.response]
                  · simp [Task.next, SignupPhase.next, hcheck, huser, hemail, hinsert, hportfolio,
                      Database.insertPortfolio_users, hopen, Except.map, bind, Except.bind]
              | ok db'' =>
                  obtain rfl := Database.insertPortfolio_eq_ok hopen
                  refine ⟨.created user (userPortfolio user draws.portfolioId), n + 1, ?_, ?_⟩
                  · simp [bind, Except.bind, pure, Except.pure, hinsert,
                      Database.insertPortfolio_users, hopen, Except.map, SignupPhase.response]
                  · simp [Task.next, SignupPhase.next, hcheck, huser, hemail, hinsert, hportfolio,
                      Database.insertPortfolio_users, hopen, Except.map, bind, Except.bind, pure,
                      Except.pure]

end

/-! ## 5. What a step can do -/

/-- Everything that the next step of a request can do. -/
inductive Steps (w : World) : Task → Task → Database → UserId → Prop where
  | refuse {payload : SignupInput} {draws : Draws} :
      Steps w (.signup payload draws .check) (.signup payload draws .refused) w.db w.nextUserId
  | pass {payload : SignupInput} {draws : Draws} :
      Steps w (.signup payload draws .check) (.signup payload draws .insertUser) w.db w.nextUserId
  | noEmail {payload : SignupInput} {draws : Draws} {text : String} (empty : payload.email = "") :
      Steps w (.signup payload draws .insertUser) (.signup payload draws (.raised (.valueError text)))
        w.db w.nextUserId
  | emailTaken {payload : SignupInput} {draws : Draws} (given : payload.email ≠ "")
      (taken : ∃ user ∈ w.db.users, user.email = dj.normalizeEmail payload.email) :
      Steps w (.signup payload draws .insertUser)
        (.signup payload draws (.raised (.integrityError .userEmail))) w.db (w.nextUserId + 1)
  | insertUser {payload : SignupInput} {draws : Draws} {user : User}
      (asked : requestedUser dj w.nextUserId payload draws = .ok user)
      (free : ∀ u ∈ w.db.users, u.email ≠ user.email) (alone : w.holdsEmail user.email = false) :
      Steps w (.signup payload draws .insertUser) (.signup payload draws (.insertPortfolio user))
        w.db (w.nextUserId + 1)
  | portfolioFails {payload : SignupInput} {draws : Draws} {user : User} {e : Exn}
      (other : e ≠ .integrityError .userEmail) :
      Steps w (.signup payload draws (.insertPortfolio user)) (.signup payload draws (.raised e))
        w.db w.nextUserId
  | insertPortfolio {payload : SignupInput} {draws : Draws} {user : User} :
      Steps w (.signup payload draws (.insertPortfolio user))
        (.signup payload draws (.commit user (userPortfolio user draws.portfolioId)))
        w.db w.nextUserId
  | commit {payload : SignupInput} {draws : Draws} {user : User} {portfolio : Portfolio} :
      Steps w (.signup payload draws (.commit user portfolio))
        (.signup payload draws (.created user portfolio))
        { w.db with
          users := w.db.users ++ [user]
          portfolios := w.db.portfolios ++ [portfolio] }
        w.nextUserId
  | lookup {user : Brokerage.User} {name : String} {data : Dict} {id : Uuid}
      {brokerage : Brokerage.Brokerage} :
      Steps w (.createLink user name data id .lookup) (.createLink user name data id (.check brokerage))
        w.db w.nextUserId
  | unknown {user : Brokerage.User} {name : String} {data : Dict} {id : Uuid}
      {response : Brokerage.Response} (status : response.status ≠ 201) :
      Steps w (.createLink user name data id .lookup)
        (.createLink user name data id (.unknown response)) w.db w.nextUserId
  | refuseLink {user : Brokerage.User} {name : String} {data : Dict} {id : Uuid}
      {brokerage : Brokerage.Brokerage} :
      Steps w (.createLink user name data id (.check brokerage))
        (.createLink user name data id .refused) w.db w.nextUserId
  | passLink {user : Brokerage.User} {name : String} {data : Dict} {id : Uuid}
      {brokerage : Brokerage.Brokerage} :
      Steps w (.createLink user name data id (.check brokerage))
        (.createLink user name data id (.insert brokerage)) w.db w.nextUserId
  | linkTaken {user : Brokerage.User} {name : String} {data : Dict} {id : Uuid}
      {brokerage : Brokerage.Brokerage} (taken : (w.db.link? user.id brokerage).isSome) :
      Steps w (.createLink user name data id (.insert brokerage))
        (.createLink user name data id (.raised (.integrityError .userBrokerageLink)))
        w.db w.nextUserId
  | linkFails {user : Brokerage.User} {name : String} {data : Dict} {id : Uuid}
      {brokerage : Brokerage.Brokerage} (free : w.db.link? user.id brokerage = none) :
      Steps w (.createLink user name data id (.insert brokerage))
        (.createLink user name data id (.raised (.integrityError .linkId))) w.db w.nextUserId
  | createLink {user : Brokerage.User} {name : String} {data : Dict} {id : Uuid}
      {brokerage : Brokerage.Brokerage} (free : w.db.link? user.id brokerage = none) :
      Steps w (.createLink user name data id (.insert brokerage))
        (.createLink user name data id (.created ⟨id, user.id, brokerage, data⟩))
        { w.db with links := w.db.links ++ [⟨id, user.id, brokerage, data⟩] } w.nextUserId
  /-- an answered request -/
  | stay {task : Task} (ended : task.status.isSome) : Steps w task task w.db w.nextUserId

section

variable {dj py p} {w : World} {payload : SignupInput} {draws : Draws} {user : User}

theorem requestedUser_cases (dj : Django) (id : UserId) (payload : SignupInput) (draws : Draws) :
    (payload.email = "" ∧ ∃ text, requestedUser dj id payload draws = .error (.valueError text)) ∨
      payload.email ≠ "" ∧ ∃ user, requestedUser dj id payload draws = .ok user ∧
        user.id = id ∧ user.email = dj.normalizeEmail payload.email := by
  unfold requestedUser createUser newUser
  by_cases hempty : payload.email = ""
  · exact .inl ⟨hempty, _, if_pos hempty⟩
  · exact .inr ⟨hempty, _, if_neg hempty, rfl, rfl⟩

theorem SignupPhase.next_steps {phase : SignupPhase} {r : SignupPhase × Database × UserId}
    (h : phase.next dj w payload draws = some r) :
    Steps dj w (.signup payload draws phase) (.signup payload draws r.1) r.2.1 r.2.2 := by
  cases phase with
  | check =>
      simp only [next] at h
      split at h
      · cases h
        exact .refuse
      · cases h
        exact .pass
  | insertUser =>
      simp only [next] at h
      rcases requestedUser_cases dj w.nextUserId payload draws with
        ⟨hempty, text, hraised⟩ | ⟨hgiven, user, hasked, -, hemail⟩
      -- `create_user` raises before it reaches the database
      · rw [hraised] at h
        cases h
        exact .noEmail hempty
      · simp only [hasked] at h
        split at h
        · cases h
        · rename_i halone
          cases hinsert : w.db.insertUser user with
          | error e =>
              rw [hinsert] at h
              cases h
              obtain ⟨rfl, htaken⟩ := Database.insertUser_eq_error hinsert
              exact .emailTaken hgiven (hemail ▸ htaken)
          | ok db =>
              rw [hinsert] at h
              cases h
              exact .insertUser hasked (Database.insertUser_eq_ok hinsert).1 (by simpa using halone)
  | insertPortfolio user =>
      simp only [next] at h
      split at h
      · cases h
      · cases hinsert : w.db.insertPortfolio (userPortfolio user draws.portfolioId) with
        | error e =>
            rw [hinsert] at h
            cases h
            exact .portfolioFails fun heq => Database.insertPortfolio_ne_email (heq ▸ hinsert)
        | ok db =>
            rw [hinsert] at h
            cases h
            exact .insertPortfolio
  | commit user portfolio =>
      cases h
      exact .commit
  | created user portfolio =>
      cases h
      exact .stay rfl
  | refused =>
      cases h
      exact .stay rfl
  | raised e =>
      cases h
      exact .stay rfl

theorem LinkPhase.next_steps (user : Brokerage.User) (name : String) (data : Dict) (id : Uuid)
    (phase : LinkPhase) :
    Steps dj w (.createLink user name data id phase)
      (.createLink user name data id (phase.next py p w.db user name data id).1)
      (phase.next py p w.db user name data id).2 w.nextUserId := by
  cases phase with
  | lookup =>
      simp only [next]
      split
      · exact .unknown (by simp [Brokerage.unknownBrokerage])
      · split
        · exact .unknown (by simp)
        · exact .lookup
  | check brokerage =>
      simp only [next]
      split
      · exact .refuseLink
      · exact .passLink
  | insert brokerage =>
      simp only [next, Database.insertLink_eq]
      cases hfound : w.db.link? user.id brokerage with
      | some link => exact .linkTaken (by rw [hfound]; rfl)
      | none =>
          cases hid : w.db.links.any (·.id = id) with
          | true => exact .linkFails hfound
          | false => exact .createLink hfound
  | created link => exact .stay rfl
  | unknown response => exact .stay rfl
  | refused => exact .stay rfl
  | raised e => exact .stay rfl

theorem Task.next_steps {task : Task} {r : Task × Database × UserId}
    (h : task.next dj py p w = some r) : Steps dj w task r.1 r.2.1 r.2.2 := by
  cases task with
  | signup payload draws phase =>
      obtain ⟨s, hnext, rfl⟩ := Option.map_eq_some_iff.mp h
      exact SignupPhase.next_steps hnext
  | createLink user name data id phase =>
      cases h
      exact LinkPhase.next_steps user name data id phase

end

end DjasktTrading.Accounts.Signup
