import EnterpriseRag.Core.Exceptions
import EnterpriseRag.Library.Table
import EnterpriseRag.Library.Threads
import EnterpriseRag.Sql.Models
import Mathlib.Data.Rat.Floor

/-!
# Registration, login and tokens

`AuthService.register` and `login` as programs over the users table, with the rate limiter, the
password hasher and the token library around them. The requests of all clients run side by
side, and a request learns rows of the table and passwords that fit their hashes.

`no_escalation` is what a token is worth : it was returned to a request that presented the
password of its row, it is good for that user and until it expires, and it carries the admin
flag only if the row did before the first request came.
-/

namespace EnterpriseRag

open Program

/-- A row of `users`. -/
structure User where
  id : ℕ
  username : String
  passwordHash : String
  isAdmin : Bool
  deriving DecidableEq, Repr

/-- The claims of a token, its times in seconds. -/
structure TokenClaims where
  sub : String
  isAdmin : Bool
  iat : ℤ
  exp : ℤ
  deriving DecidableEq, Repr

/-- Why the token library does not decode a token. -/
inductive JwtError
  | expiredSignature
  | invalidToken
  deriving DecidableEq, Repr

/-- The token library under one secret and one algorithm. -/
structure Jwt (τ : Type) where
  encode : TokenClaims → τ
  decode : ℚ → τ → Except JwtError TokenClaims

/-- What the library documents of a token that it encoded. -/
structure Jwt.Lawful {τ : Type} (jwt : Jwt τ) : Prop where
  valid : ∀ claims now, claims.iat ≤ now → now < claims.exp →
    jwt.decode now (jwt.encode claims) = .ok claims
  expired : ∀ claims now, claims.exp ≤ now →
    jwt.decode now (jwt.encode claims) = .error .expiredSignature

/-! ## Tokens -/

/-- The claims of `JWTTokenIssuer.issue`, at a time. -/
def issueClaims (expiresMinutes : ℕ) (username : String) (isAdmin : Bool) (now : ℚ) :
    TokenClaims :=
  ⟨username, isAdmin, ⌊now⌋, ⌊now + (expiresMinutes * 60 : ℕ)⌋⟩

/-- `JWTTokenVerifier.verify`. -/
def verifyToken {τ : Type} (jwt : Jwt τ) (now : ℚ) (token : τ) :
    Except Raised AuthenticatedUser :=
  match jwt.decode now token with
  | .error .expiredSignature => .error (.exception "TokenExpiredError")
  | .error .invalidToken => .error (.exception "InvalidTokenError")
  | .ok claims =>
    if claims.sub = "" then .error (.exception "InvalidTokenError")
    else .ok ⟨claims.sub, claims.isAdmin⟩

/-! ## The service -/

/-- A call of the service. -/
inductive AuthOp
  | isAllowed (key route : String) (limit windowSeconds : ℕ)
  | hash (password : String)
  | verify (password passwordHash : String)
  | create (username passwordHash : String)
  | getByUsername (username : String)
  | issue (username : String) (isAdmin : Bool)

/-- What a call returns or raises. -/
abbrev AuthOp.Res (τ : Type) : AuthOp → Type
  | .isAllowed _ _ _ _ => Except Raised Bool
  | .hash _ => Except Raised String
  | .verify _ _ => Except Raised Bool
  | .create _ _ => Except Raised User
  | .getByUsername _ => Except Raised (Option User)
  | .issue _ _ => Except Raised τ

/-- `RateLimitSettings`, what `AuthService` uses of it. -/
structure AuthRateLimits where
  loginPerMin : ℕ := 5
  registerPerHour : ℕ := 3

abbrev AuthProgram (τ : Type) := Program AuthOp (AuthOp.Res τ) Raised

namespace AuthService

variable {τ : Type}

/-- `_enforce_rate_limit`. -/
def enforceRateLimit (clientIp route : String) (limit windowSeconds : ℕ) : AuthProgram τ Unit :=
  ask (.isAllowed clientIp route limit windowSeconds) fun r => r.bind fun allowed =>
    if allowed then .ok () else .error (.exception "RateLimitExceededError")

def register (limits : AuthRateLimits) (clientIp username password : String) :
    AuthProgram τ τ := do
  enforceRateLimit clientIp "/auth/register" limits.registerPerHour 3600
  let passwordHash ← ask (.hash password) id
  let user ← ask (.create username passwordHash) id
  ask (.issue user.username user.isAdmin) id

def login (limits : AuthRateLimits) (clientIp username password : String) :
    AuthProgram τ τ := do
  enforceRateLimit clientIp "/auth/login" limits.loginPerMin 60
  match ← ask (.getByUsername username) id with
  | none => .raise (.exception "InvalidCredentialsError")
  | some user => do
    let verified ← ask (.verify password user.passwordHash) id
    if verified then ask (.issue user.username user.isAdmin) id
    else .raise (.exception "InvalidCredentialsError")

end AuthService

/-! ## The surroundings -/

/-- The table, unique by its usernames. -/
abbrev UserTable := Table User.username

/-- The password hasher, the token library and what tokens are issued with. -/
structure AuthEnvironment (τ : Type) where
  limits : AuthRateLimits
  checkpw : String → String → Bool
  jwt : Jwt τ
  expiresMinutes : ℕ

namespace AuthEnvironment

variable {τ : Type} (env : AuthEnvironment τ)

/-- What a call may answer and leave. `is_admin` is false by default, and a call that raises may
have been committed. -/
def Handles (s : UserTable) : (op : AuthOp) → op.Res τ → UserTable → Prop
  | .isAllowed _ _ _ _, _, s' => s' = s
  | .hash password, r, s' =>
    s' = s ∧ ∀ passwordHash, r = .ok passwordHash → env.checkpw password passwordHash = true
  | .verify password passwordHash, r, s' =>
    s' = s ∧ ∀ verified, r = .ok verified → verified = env.checkpw password passwordHash
  | .create username passwordHash, r, s' =>
    (∃ id, s.insert ⟨id, username, passwordHash, false⟩ = some s' ∧
        ∀ user, r = .ok user → user = ⟨id, username, passwordHash, false⟩) ∨
      (s' = s ∧ ∀ user, r ≠ .ok user)
  | .getByUsername username, r, s' => s' = s ∧ ∀ found, r = .ok found → found = s.find username
  | .issue username isAdmin, r, s' => s' = s ∧ ∀ token, r = .ok token →
    ∃ now, token = env.jwt.encode (issueClaims env.expiresMinutes username isAdmin now)

end AuthEnvironment

/-- A request to one of the two routes. -/
structure AuthClient where
  registers : Bool
  clientIp : String
  username : String
  password : String
  username_length : 1 ≤ username.length ∧ username.length ≤ 32

namespace AuthService

variable {τ : Type} {env : AuthEnvironment τ} {client : AuthClient}

def serve (env : AuthEnvironment τ) (client : AuthClient) : AuthProgram τ τ :=
  if client.registers then register env.limits client.clientIp client.username client.password
  else login env.limits client.clientIp client.username client.password

abbrev AuthThreads (τ : Type) :=
  Threads AuthOp (AuthOp.Res τ) Raised τ AuthClient UserTable

/-! ## What a request knows -/

inductive AuthFact (τ : Type)
  | found (username : String) (user : User)
  | created (username passwordHash : String) (user : User)
  | fits (password passwordHash : String)
  | issued (username : String) (isAdmin : Bool) (token : τ)

/-- What a fact says of the table. -/
def AuthFact.Holds (env : AuthEnvironment τ) (s : UserTable) : AuthFact τ → Prop
  | .found username user => user ∈ s.rows ∧ user.username = username
  | .created username passwordHash user =>
    user ∈ s.rows ∧ user.username = username ∧ user.passwordHash = passwordHash
  | .fits password passwordHash => env.checkpw password passwordHash = true
  | .issued username isAdmin token =>
    ∃ now, token = env.jwt.encode (issueClaims env.expiresMinutes username isAdmin now)

def Knows (env : AuthEnvironment τ) (known : List (AuthFact τ)) (s : UserTable) : Prop :=
  ∀ fact ∈ known, fact.Holds env s

/-- The fact that a response tells. -/
def told : (op : AuthOp) → op.Res τ → Option (AuthFact τ)
  | .isAllowed _ _ _ _, _ => none
  | .hash password, r => r.toOption.map (.fits password)
  | .verify password passwordHash, r =>
    if r.toOption = some true then some (.fits password passwordHash) else none
  | .create username passwordHash, r => r.toOption.map (.created username passwordHash)
  | .getByUsername username, r => r.toOption.join.map (.found username)
  | .issue username isAdmin, r => r.toOption.map (.issued username isAdmin)

def learn (known : List (AuthFact τ)) (op : AuthOp) (r : op.Res τ) : List (AuthFact τ) :=
  known ++ (told op r).toList

/-- A row of the client's name, and the client's password fits its hash. -/
def Authenticated (client : AuthClient) (known : List (AuthFact τ)) (user : User) : Prop :=
  (.found client.username user ∈ known ∧ .fits client.password user.passwordHash ∈ known) ∨
    ∃ passwordHash, .created client.username passwordHash user ∈ known ∧
      .fits client.password passwordHash ∈ known

/-- A token is issued for a row whose password was presented. -/
def Allowed (client : AuthClient) (known : List (AuthFact τ)) : AuthOp → Prop
  | .issue username isAdmin =>
    ∃ user, Authenticated client known user ∧ user.username = username ∧ user.isAdmin = isAdmin
  | _ => True

def Answers (client : AuthClient) (known : List (AuthFact τ)) : Except Raised τ → Prop
  | .ok token => ∃ user, Authenticated client known user ∧
    .issued user.username user.isAdmin token ∈ known
  | .error _ => True

/-- Rows stay, and new ones are no admins. -/
def Extends (initial s : UserTable) : Prop :=
  (∀ user ∈ initial.rows, user ∈ s.rows) ∧
    ∀ user ∈ s.rows, user ∈ initial.rows ∨ user.isAdmin = false

theorem Authenticated.mono {known known' : List (AuthFact τ)} {user : User}
    (h : Authenticated client known user) (hsub : known ⊆ known') :
    Authenticated client known' user := by
  rcases h with ⟨hfound, hfits⟩ | ⟨passwordHash, hcreated, hfits⟩
  · exact Or.inl ⟨hsub hfound, hsub hfits⟩
  · exact Or.inr ⟨passwordHash, hsub hcreated, hsub hfits⟩

theorem keeps_issue {user : User} {known : List (AuthFact τ)}
    (h : Authenticated client known user) :
    Keeps (Allowed client) learn (Answers client) known
      (ask (.issue user.username user.isAdmin) id : AuthProgram τ τ) := by
  rw [keeps_ask]
  refine ⟨⟨user, h, rfl, rfl⟩, fun r => ?_⟩
  cases r with
  | error e => trivial
  | ok token =>
    exact ⟨user, h.mono (List.subset_append_left _ _), List.mem_append_right _ (by
      simp [told, Except.toOption])⟩

theorem keeps_register (limits : AuthRateLimits) :
    Keeps (Allowed client) learn (Answers client) []
      (register limits client.clientIp client.username client.password : AuthProgram τ τ) := by
  refine keeps_ask_bind trivial (fun _ _ _ => trivial) fun _ _ _ => ?_
  refine keeps_ask_bind trivial (fun _ _ _ => trivial) fun r passwordHash hr => ?_
  refine keeps_ask_bind trivial (fun _ _ _ => trivial) fun r' user hr' => ?_
  obtain rfl : r = .ok passwordHash := hr
  obtain rfl : r' = .ok user := hr'
  exact keeps_issue (Or.inr ⟨passwordHash, by simp [learn, told, Except.toOption],
    by simp [learn, told, Except.toOption]⟩)

theorem keeps_login (limits : AuthRateLimits) :
    Keeps (Allowed client) learn (Answers client) []
      (login limits client.clientIp client.username client.password : AuthProgram τ τ) := by
  refine keeps_ask_bind trivial (fun _ _ _ => trivial) fun _ _ _ => ?_
  refine keeps_ask_bind trivial (fun _ _ _ => trivial) fun r found hr => ?_
  obtain rfl : r = .ok found := hr
  cases found with
  | none => trivial
  | some user =>
    refine keeps_ask_bind trivial (fun _ _ _ => trivial) fun r' verified hr' => ?_
    obtain rfl : r' = .ok verified := hr'
    cases verified with
    | false => trivial
    | true =>
      exact keeps_issue (Or.inl ⟨by simp [learn, told, Except.toOption],
        by simp [learn, told, Except.toOption]⟩)

theorem keeps_serve (env : AuthEnvironment τ) (client : AuthClient) :
    Keeps (Allowed client) learn (Answers client) [] (serve env client) := by
  unfold serve
  split
  · exact keeps_register env.limits
  · exact keeps_login env.limits

/-! ## Any number of requests -/

variable {initial s s' : UserTable} {op : AuthOp} {r : op.Res τ}

theorem rows_handles (h : env.Handles s op r s') {user : User} (huser : user ∈ s.rows) :
    user ∈ s'.rows := by
  cases op with
  | create username passwordHash =>
    rcases h with ⟨id, hinsert, -⟩ | ⟨rfl, -⟩
    · exact (Table.mem_insert hinsert).2 (Or.inl huser)
    · exact huser
  | isAllowed key route limit windowSeconds => exact (show s' = s from h) ▸ huser
  | _ => exact h.1 ▸ huser

theorem holds_handles (h : env.Handles s op r s') {fact : AuthFact τ} (hfact : fact.Holds env s) :
    fact.Holds env s' := by
  cases fact with
  | found username user => exact ⟨rows_handles h hfact.1, hfact.2⟩
  | created username passwordHash user => exact ⟨rows_handles h hfact.1, hfact.2⟩
  | fits password passwordHash => exact hfact
  | issued username isAdmin token => exact hfact

/-- What a response tells is true. -/
theorem told_handles (h : env.Handles s op r s') {fact : AuthFact τ} (hfact : told op r = some fact) :
    fact.Holds env s' := by
  cases op with
  | isAllowed key route limit windowSeconds => cases hfact
  | hash password =>
    obtain ⟨passwordHash, hr, rfl⟩ := Option.map_eq_some_iff.1 hfact
    exact h.2 _ (ok_of_toOption hr)
  | verify password passwordHash =>
    have hfact : (if r.toOption = some true then some (.fits password passwordHash) else none) =
        some fact := hfact
    by_cases hr : r.toOption = some true
    · rw [if_pos hr] at hfact
      obtain rfl := Option.some.inj hfact
      exact (h.2 true (ok_of_toOption hr)).symm
    · rw [if_neg hr] at hfact
      cases hfact
  | create username passwordHash =>
    obtain ⟨user, hr, rfl⟩ := Option.map_eq_some_iff.1 hfact
    rcases h with ⟨id, hinsert, huser⟩ | ⟨-, hraised⟩
    · obtain rfl := huser user (ok_of_toOption hr)
      exact ⟨(Table.mem_insert hinsert).2 (Or.inr rfl), rfl, rfl⟩
    · exact absurd (ok_of_toOption hr) (hraised user)
  | getByUsername username =>
    obtain ⟨user, hr, rfl⟩ := Option.map_eq_some_iff.1 hfact
    have hfind : s.find username = some user := (h.2 _ (ok_of_join_toOption hr)).symm
    exact ⟨h.1 ▸ Table.mem_of_find hfind, Table.key_of_find hfind⟩
  | issue username isAdmin =>
    obtain ⟨token, hr, rfl⟩ := Option.map_eq_some_iff.1 hfact
    exact h.2 _ (ok_of_toOption hr)

theorem Extends.handles (hext : Extends initial s) (h : env.Handles s op r s') :
    Extends initial s' := by
  refine ⟨fun user huser => rows_handles h (hext.1 user huser), ?_⟩
  cases op with
  | create username passwordHash =>
    rcases h with ⟨id, hinsert, -⟩ | ⟨rfl, -⟩
    · intro user huser
      rcases (Table.mem_insert hinsert).1 huser with huser | rfl
      · exact hext.2 user huser
      · exact Or.inr rfl
    · exact hext.2
  | isAllowed key route limit windowSeconds => exact (show s' = s from h) ▸ hext.2
  | _ => exact h.1 ▸ hext.2

theorem knows_handles {known : List (AuthFact τ)} (hknows : Knows env known s)
    (h : env.Handles s op r s') : Knows env (learn known op r) s' := by
  intro fact hfact
  rcases List.mem_append.1 hfact with hfact | hfact
  · exact holds_handles h (hknows fact hfact)
  · exact told_handles h (Option.mem_toList.1 hfact)

theorem Authenticated.row {known : List (AuthFact τ)} {user : User}
    (h : Authenticated client known user) (hknows : Knows env known s) :
    user ∈ s.rows ∧ user.username = client.username ∧
      env.checkpw client.password user.passwordHash = true := by
  rcases h with ⟨hfound, hfits⟩ | ⟨passwordHash, hcreated, hfits⟩
  · obtain ⟨hrow, husername⟩ := hknows _ hfound
    exact ⟨hrow, husername, hknows _ hfits⟩
  · obtain ⟨hrow, husername, rfl⟩ := hknows _ hcreated
    exact ⟨hrow, husername, hknows _ hfits⟩

variable {ws : List AuthClient} {t u : AuthThreads τ}

theorem run_kept (hrun : Threads.Run (serve env) env.Handles ws t u) (hempty : t.pool = []) :
    Threads.Kept (Extends t.state) (Knows env) Allowed learn Answers u := by
  have hstart : Threads.Kept (Extends t.state) (Knows env) Allowed learn Answers t :=
    ⟨⟨fun _ h => h, fun _ h => Or.inl h⟩, fun e he => by
      rw [hempty] at he
      cases he⟩
  exact hrun.kept (fun client _ _ => ⟨[], fun _ h => (by cases h), keeps_serve env client⟩)
    (fun _ _ _ _ _ _ hext hknows _ hop => ⟨hext.handles hop, knows_handles hknows hop⟩)
    (fun _ _ _ _ _ _ _ _ _ hop _ hknows fact hfact => holds_handles hop (hknows fact hfact))
    hstart

theorem verifyToken_issueClaims (hjwt : env.jwt.Lawful) (user : User) (hname : user.username ≠ "")
    (issuedAt now : ℚ) :
    let claims := issueClaims env.expiresMinutes user.username user.isAdmin issuedAt
    (claims.iat ≤ now → now < claims.exp →
        verifyToken env.jwt now (env.jwt.encode claims) = .ok ⟨user.username, user.isAdmin⟩) ∧
      (claims.exp ≤ now → verifyToken env.jwt now (env.jwt.encode claims) =
        .error (.exception "TokenExpiredError")) := by
  intro claims
  refine ⟨fun hiat hexp => ?_, fun hexp => ?_⟩
  · rw [verifyToken, hjwt.valid claims now hiat hexp]
    exact if_neg hname
  · rw [verifyToken, hjwt.expired claims now hexp]

/-- A token that a request was answered with, in any run. -/
theorem no_escalation (hjwt : env.jwt.Lawful)
    (hrun : Threads.Run (serve env) env.Handles ws t u) (hempty : t.pool = []) :
    (∀ user ∈ t.state.rows, user ∈ u.state.rows) ∧
      ∀ client token, (client, .pure token) ∈ u.pool → ∃ user ∈ u.state.rows,
        user.username = client.username ∧
        env.checkpw client.password user.passwordHash = true ∧
        (user.isAdmin = true → user ∈ t.state.rows) ∧
        ∃ issuedAt : ℚ, ∀ now : ℚ,
          (⌊issuedAt⌋ ≤ now → now < ⌊issuedAt + (env.expiresMinutes * 60 : ℕ)⌋ →
            verifyToken env.jwt now token = .ok ⟨client.username, user.isAdmin⟩) ∧
          (⌊issuedAt + (env.expiresMinutes * 60 : ℕ)⌋ ≤ now →
            verifyToken env.jwt now token = .error (.exception "TokenExpiredError")) := by
  obtain ⟨hext, hpool⟩ := run_kept hrun hempty
  refine ⟨hext.1, fun client token hmem => ?_⟩
  obtain ⟨known, hknows, user, hauthenticated, hissued⟩ := hpool _ hmem
  obtain ⟨hrow, husername, hfits⟩ := hauthenticated.row hknows
  obtain ⟨issuedAt, rfl⟩ := hknows _ hissued
  have hname : user.username ≠ "" := by
    rintro hempty
    have hlength := client.username_length.1
    rw [← husername, hempty] at hlength
    cases hlength
  refine ⟨user, hrow, husername, hfits, fun hadmin => ?_, issuedAt, fun now => ?_⟩
  · refine (hext.2 user hrow).resolve_right fun hnot => ?_
    rw [hadmin] at hnot
    cases hnot
  · rw [← husername]
    exact verifyToken_issueClaims hjwt user hname issuedAt now

/-! ### The admin logs in -/

/-- A library whose tokens are their claims. -/
def plainJwt : Jwt TokenClaims where
  encode claims := claims
  decode now claims :=
    if claims.exp ≤ now then .error .expiredSignature
    else if now < claims.iat then .error .invalidToken
    else .ok claims

theorem lawful_plainJwt : plainJwt.Lawful where
  valid _ _ hiat hexp := (if_neg (not_le.2 hexp)).trans (if_neg (not_lt.2 hiat))
  expired _ _ hexp := if_pos hexp

def deskEnvironment : AuthEnvironment TokenClaims where
  limits := {}
  checkpw password passwordHash := passwordHash = "hash of " ++ password
  jwt := plainJwt
  expiresMinutes := 60

def adminRow : User :=
  ⟨1, "admin", "hash of swordfish", true⟩

def adminTable : UserTable :=
  ⟨[adminRow], by decide⟩

def adminClient : AuthClient :=
  ⟨false, "10.0.0.1", "admin", "swordfish", by decide⟩

theorem run_adminLogin : Threads.Run (serve deskEnvironment) deskEnvironment.Handles
    [adminClient, adminClient, adminClient, adminClient, adminClient] ⟨adminTable, []⟩
    ⟨adminTable, [(adminClient, .pure (issueClaims 60 "admin" true 7))]⟩ := by
  have hallowed : deskEnvironment.Handles adminTable
      (.isAllowed "10.0.0.1" "/auth/login" 5 60) (.ok true) adminTable := rfl
  have hfound : deskEnvironment.Handles adminTable (.getByUsername "admin")
      (.ok (some adminRow)) adminTable := ⟨rfl, fun found h => by
    rw [← Except.ok.inj h]
    decide⟩
  have hverified : deskEnvironment.Handles adminTable (.verify "swordfish" "hash of swordfish")
      (.ok true) adminTable := ⟨rfl, fun verified h => by
    rw [← Except.ok.inj h]
    decide⟩
  have hissued : deskEnvironment.Handles adminTable (.issue "admin" true)
      (.ok (issueClaims 60 "admin" true 7)) adminTable := ⟨rfl, fun token h =>
    ⟨7, (Except.ok.inj h).symm⟩⟩
  exact .cons (.arrive adminClient adminTable []) (.alone hallowed (.alone hfound
    (.alone hverified (.alone hissued (.nil _)))))

theorem no_escalation_admin : ∃ user ∈ adminTable.rows, user.username = "admin" ∧
    deskEnvironment.checkpw "swordfish" user.passwordHash = true ∧
    (user.isAdmin = true → user ∈ adminTable.rows) ∧
    ∃ issuedAt : ℚ, ∀ now : ℚ,
      (⌊issuedAt⌋ ≤ now → now < ⌊issuedAt + (60 * 60 : ℕ)⌋ →
        verifyToken plainJwt now (issueClaims 60 "admin" true 7) =
          .ok ⟨"admin", user.isAdmin⟩) ∧
      (⌊issuedAt + (60 * 60 : ℕ)⌋ ≤ now →
        verifyToken plainJwt now (issueClaims 60 "admin" true 7) =
          .error (.exception "TokenExpiredError")) :=
  (no_escalation (show deskEnvironment.jwt.Lawful from lawful_plainJwt) run_adminLogin rfl).2
    adminClient _ (List.mem_singleton_self _)

end AuthService

end EnterpriseRag
