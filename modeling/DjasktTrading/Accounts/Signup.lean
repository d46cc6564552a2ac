import DjasktTrading.Brokerage.Models

/-!
# Signup — an account and its portfolio

`AuthController.signup` with the user manager and `create_user_portfolio`, over the tables that signups
and links write and their unique constraints.
-/

open DjasktTrading.Ledger (Portfolio Numeric)
open DjasktTrading.Brokerage (UserBrokerageLink)

namespace DjasktTrading.Accounts.Signup

/-! ## 1. Tables -/

/-- A row of `accounts.User`; `password` is a hash. -/
structure User where
  id : UserId
  email : String
  username : String
  password : String
  firstName : String
  lastName : String
  isStaff : Bool
  isSuperuser : Bool
deriving DecidableEq

inductive UniqueConstraint where
  | userEmail
  | portfolioUser
  | portfolioId
  | userBrokerageLink
  | linkId
deriving DecidableEq

inductive Exn where
  | valueError (text : String)
  | integrityError (violated : UniqueConstraint)
  /-- any other failure of the database -/
  | databaseError
deriving DecidableEq

structure Database where
  users : List User
  portfolios : List Portfolio
  links : List UserBrokerageLink

namespace Database

def insertUser (db : Database) (user : User) : Except Exn Database :=
  if db.users.any (·.email = user.email) then .error (.integrityError .userEmail)
  else .ok { db with users := db.users ++ [user] }

def insertPortfolio (db : Database) (portfolio : Portfolio) : Except Exn Database :=
  if db.portfolios.any (·.user = portfolio.user) then .error (.integrityError .portfolioUser)
  else if db.portfolios.any (·.id = portfolio.id) then .error (.integrityError .portfolioId)
  else .ok { db with portfolios := db.portfolios ++ [portfolio] }

def insertLink (db : Database) (link : UserBrokerageLink) : Except Exn Database :=
  if db.links.any fun l => l.user = link.user ∧ l.brokerage.id = link.brokerage.id then
    .error (.integrityError .userBrokerageLink)
  else if db.links.any (·.id = link.id) then .error (.integrityError .linkId)
  else .ok { db with links := db.links ++ [link] }

end Database

/-! ## 2. The user manager -/

/-- What Django makes of an address, and of a password with a salt. -/
structure Django where
  normalizeEmail : String → String
  makePassword : (password salt : String) → String

/-- The keyword arguments of the manager; `none` is not given. -/
structure ExtraFields where
  username : Option String := none
  firstName : String
  lastName : String
  isStaff : Option Bool := none
  isSuperuser : Option Bool := none

/-- What a signup draws: the salt of the password, and the `uuid4` of the portfolio. -/
structure Draws where
  salt : String
  portfolioId : Uuid

/-- `email.split("@")[0]` -/
def localPart (email : String) : String := String.ofList (email.toList.takeWhile (· ≠ '@'))

/-- `_create_user` up to its insert; `id` is what the insert draws from the sequence. -/
def newUser (dj : Django) (id : UserId) (email password salt : String) (extra : ExtraFields) :
    Except Exn User :=
  if email = "" then .error (.valueError "The given email must be set")
  else
    let email := dj.normalizeEmail email
    .ok {
      id
      email
      username := extra.username.getD (localPart email)
      password := dj.makePassword password salt
      firstName := extra.firstName
      lastName := extra.lastName
      isStaff := extra.isStaff.getD false
      isSuperuser := extra.isSuperuser.getD false }

/-- `create_user` -/
def createUser (dj : Django) (id : UserId) (email password salt : String) (extra : ExtraFields) :
    Except Exn User :=
  newUser dj id email password salt { extra with
    isStaff := some (extra.isStaff.getD false)
    isSuperuser := some (extra.isSuperuser.getD false) }

/-- The row of `create_user_portfolio`. -/
def userPortfolio (user : User) (id : Uuid) : Portfolio where
  id := id
  user := user.id
  cashBalance := Numeric.zero

/-! ## 3. The endpoint -/

/-- `SignupInputSchema` -/
structure SignupInput where
  email : String
  password : String
  firstName : String
  lastName : String

inductive ResponseBody where
  | error (detail : String)
  | user (email firstName lastName : String)
deriving DecidableEq

structure Response where
  status : ℕ
  body : ResponseBody
deriving DecidableEq

def alreadyExists : Response := ⟨409, .error "An account with this email already exists."⟩

def signedUp (user : User) : Response := ⟨201, .user user.email user.firstName user.lastName⟩

/-- `handle_unexpected_error` -/
def unexpectedError : Response := ⟨500, .error "An unexpected error occurred."⟩

/-- The user that a signup asks for. -/
def requestedUser (dj : Django) (id : UserId) (payload : SignupInput) (draws : Draws) :
    Except Exn User :=
  createUser dj id payload.email payload.password draws.salt
    { firstName := payload.firstName, lastName := payload.lastName }

/-- The `transaction.atomic()` block. -/
def createAccount (dj : Django) (db : Database) (id : UserId) (payload : SignupInput)
    (draws : Draws) : Except Exn (User × Database) := do
  let user ← requestedUser dj id payload draws
  let db ← db.insertUser user
  let db ← db.insertPortfolio (userPortfolio user draws.portfolioId)
  return (user, db)

/-- `signup`; `id` is the next value of the sequence of user ids. -/
def signup (dj : Django) (db : Database) (id : UserId) (payload : SignupInput) (draws : Draws) :
    Response × Database :=
  if db.users.any (·.email = payload.email) then (alreadyExists, db)
  else
    match createAccount dj db id payload draws with
    -- nothing of the block stays
    | .error _ => (unexpectedError, db)
    | .ok (user, db) => (signedUp user, db)

end DjasktTrading.Accounts.Signup
