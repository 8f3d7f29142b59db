import TickerWatch.Foundations.Dict
import TickerWatch.Foundations.Text
import TickerWatch.Shared.Security

/-!
# The caller of a request

`current_user` of `api/deps.py`, on the two kinds of tokens that are signed with one secret:
`issue_token` makes access tokens for the API, and `connection_token` tokens for Centrifugo.  They
differ in their claims only.

`current_user` answers what PyJWT refuses with 401.  A connection token is not refused there: its
signature is right, and only its `username` is missing, which is a `KeyError` that nothing turns
into an answer.  What is assumed of PyJWT, and of who signs with the secret, is `Jwt.Verifies`.
-/

namespace TickerWatch

/-- The value of a claim. -/
inductive Claim
  | text (s : String)
  | number (n : ℤ)
  deriving DecidableEq, Repr

/-- The payload of a token. -/
abbrev Claims := Dict String Claim

/-- `int(v)`; `none` is `ValueError`. -/
def Claim.toInt : Claim → Option ℤ
  | .text s => Text.parseInt s
  | .number n => some n

/-- A claim that a `str` field of a model takes. -/
def Claim.toText : Claim → Option String
  | .text s => some s
  | .number _ => none

/-- The payload as `issue_token` writes it. -/
def AccessPayload.claims (payload : AccessPayload) : Claims :=
  .ofList [("sub", .text payload.sub), ("username", .text payload.username),
    ("iat", .number payload.iat), ("exp", .number payload.exp)]

/-- PyJWT.  `decode` is given the time, and `none` is `PyJWTError`. -/
structure Jwt where
  encode : Claims → String → String → String
  decode : String → String → List String → Timestamp → Option Claims

/-- The libraries with PyJWT for the tokens. -/
def Crypto.withJwt (sec : Crypto) (jwt : Jwt) : Crypto :=
  { sec with encode := fun payload secret algorithm => jwt.encode payload.claims secret algorithm }

/-- The settings the API reads. -/
structure ApiSettings extends AuthSettings where
  centrifugoTokenTtlSeconds : ℤ := 15 * 60

/-- The answer of the realtime endpoint. -/
structure ConnectionToken where
  token : String
  expiresIn : ℤ
  channelPrefix : String

/-- `Principal`. -/
structure Principal where
  id : UserId
  username : String
  deriving DecidableEq, Repr

/-- What `current_user` raises: an `HTTPException`, a `KeyError`, a `ValueError` of `int`, or
pydantic's `ValidationError`. -/
inductive CallerError
  | http (statusCode : ℕ) (detail : String)
  | key (name : String)
  | value
  | validation
  deriving DecidableEq, Repr

namespace Jwt

/-! ## Making and reading tokens -/

/-- `issue_token`, in which no password is hashed. -/
def issueToken (jwt : Jwt) (cfg : ApiSettings) (now : Timestamp) (user : UserId)
    (username : String) : String × ℤ :=
  (Crypto.plain.withJwt jwt).issueToken cfg.toAuthSettings now user username

/-- The payload of `connection_token`. -/
def connectionClaims (cfg : ApiSettings) (now : Timestamp) (user : UserId) : Claims :=
  .ofList [("sub", .text (toString user)), ("iat", .number now.toSeconds),
    ("exp", .number (now.addSeconds cfg.centrifugoTokenTtlSeconds).toSeconds)]

/-- `connection_token`. -/
def connectionToken (jwt : Jwt) (cfg : ApiSettings) (now : Timestamp) (user : UserId) :
    ConnectionToken where
  token := jwt.encode (connectionClaims cfg now user) cfg.jwtSecret cfg.jwtAlgorithm
  expiresIn := cfg.centrifugoTokenTtlSeconds
  channelPrefix := "ticker:"

/-- `decode_token`. -/
def decodeToken (jwt : Jwt) (cfg : ApiSettings) (token : String) (now : Timestamp) :
    Option Claims :=
  jwt.decode token cfg.jwtSecret [cfg.jwtAlgorithm] now

/-- `Principal(id=int(payload["sub"]), username=payload["username"])`. -/
def principal (payload : Claims) : Except CallerError Principal :=
  (payload.get? "sub").elim (.error (.key "sub")) fun sub =>
    sub.toInt.elim (.error .value) fun id =>
      (payload.get? "username").elim (.error (.key "username")) fun username =>
        username.toText.elim (.error .validation) fun username => .ok ⟨id, username⟩

/-- `current_user`. -/
def currentUser (jwt : Jwt) (cfg : ApiSettings) (credentials : Option String) (now : Timestamp) :
    Except CallerError Principal :=
  credentials.elim (.error (.http 401 "missing bearer token")) fun token =>
    (jwt.decodeToken cfg token now).elim (.error (.http 401 "invalid token")) principal

end Jwt

/-- A token that was made, and when: for the API or for Centrifugo. -/
inductive Mint
  | access (made : Timestamp) (user : UserId) (username : String)
  | connection (made : Timestamp) (user : UserId)
  deriving DecidableEq, Repr

namespace Mint

/-- The token. -/
def token (jwt : Jwt) (cfg : ApiSettings) : Mint → String
  | .access made user username => (jwt.issueToken cfg made user username).1
  | .connection made user => (jwt.connectionToken cfg made user).token

/-- Its claims. -/
def claims (cfg : ApiSettings) : Mint → Claims
  | .access made user username =>
    AccessPayload.claims ⟨toString user, username, made.toSeconds,
      (made.addSeconds cfg.accessTokenTtlSeconds).toSeconds⟩
  | .connection made user => Jwt.connectionClaims cfg made user

/-- When it expires, in seconds. -/
def exp (cfg : ApiSettings) : Mint → ℤ
  | .access made _ _ => (made.addSeconds cfg.accessTokenTtlSeconds).toSeconds
  | .connection made _ => (made.addSeconds cfg.centrifugoTokenTtlSeconds).toSeconds

/-- It has not expired. -/
def Unexpired (cfg : ApiSettings) (now : Timestamp) (m : Mint) : Prop := now < m.exp cfg * second

instance (cfg : ApiSettings) (now : Timestamp) (m : Mint) : Decidable (m.Unexpired cfg now) :=
  inferInstanceAs (Decidable (now < m.exp cfg * second))

variable {jwt : Jwt} {cfg : ApiSettings}

lemma token_eq (m : Mint) : m.token jwt cfg =
    jwt.encode (m.claims cfg) cfg.jwtSecret cfg.jwtAlgorithm := by
  cases m <;> rfl

end Mint

namespace Jwt

/-- What is assumed of PyJWT when `minted` are the tokens signed with the secret: a token carries
its claims, they are returned until it expires, and everything else is refused. -/
structure Verifies (jwt : Jwt) (cfg : ApiSettings) (minted : Set Mint) : Prop where
  carries : ∀ m ∈ minted, ∀ m' ∈ minted, m.token jwt cfg = m'.token jwt cfg →
    m.claims cfg = m'.claims cfg
  returns : ∀ m ∈ minted, ∀ now, m.Unexpired cfg now →
    jwt.decodeToken cfg (m.token jwt cfg) now = some (m.claims cfg)
  refuses : ∀ token now payload, jwt.decodeToken cfg token now = some payload →
    ∃ m ∈ minted, m.token jwt cfg = token ∧ m.Unexpired cfg now

/-- The bearer is the user of an unexpired access token, or is answered with 401; and the bearer of
a connection token always is. -/
def Separated (jwt : Jwt) (cfg : ApiSettings) (minted : Set Mint) (bearer : String)
    (now : Timestamp) : Prop :=
  ((∃ made user username, .access made user username ∈ minted ∧
      (jwt.issueToken cfg made user username).1 = bearer ∧
      (Mint.access made user username).Unexpired cfg now ∧
      jwt.currentUser cfg (some bearer) now = .ok ⟨user, username⟩) ∨
    ∃ detail, jwt.currentUser cfg (some bearer) now = .error (.http 401 detail)) ∧
  ∀ made user, .connection made user ∈ minted → (jwt.connectionToken cfg made user).token = bearer →
    ∃ detail, jwt.currentUser cfg (some bearer) now = .error (.http 401 detail)

variable {jwt : Jwt} {cfg : ApiSettings} {minted : Set Mint} {bearer : String} {now : Timestamp}

/-! ## What the caller is taken for -/

lemma currentUser_of_refused (h : jwt.decodeToken cfg bearer now = none) :
    jwt.currentUser cfg (some bearer) now = .error (.http 401 "invalid token") := by
  rw [currentUser, Option.elim_some, h]
  rfl

lemma currentUser_of_returned {payload : Claims}
    (h : jwt.decodeToken cfg bearer now = some payload) :
    jwt.currentUser cfg (some bearer) now = principal payload := by
  rw [currentUser, Option.elim_some, h]
  rfl

lemma principal_access (cfg : ApiSettings) (made : Timestamp) (user : UserId) (username : String) :
    principal ((Mint.access made user username).claims cfg) = .ok ⟨user, username⟩ := by
  have hsub : ((Mint.access made user username).claims cfg).get? "sub" =
      some (.text (toString user)) :=
    Dict.get?_ofList_of_unique (by simp) (by simp)
  have hname : ((Mint.access made user username).claims cfg).get? "username" =
      some (.text username) :=
    Dict.get?_ofList_of_unique (by simp) (by simp)
  rw [principal, hsub, hname, Option.elim_some, Claim.toInt, Text.parseInt_toString]
  rfl

lemma principal_connection (cfg : ApiSettings) (made : Timestamp) (user : UserId) :
    principal ((Mint.connection made user).claims cfg) = .error (.key "username") := by
  have hsub : ((Mint.connection made user).claims cfg).get? "sub" = some (.text (toString user)) :=
    Dict.get?_ofList_of_unique (by simp) (by simp)
  have hname : ((Mint.connection made user).claims cfg).get? "username" = none :=
    Dict.get?_ofList_of_notMem (by simp)
  rw [principal, hsub, hname, Option.elim_some, Claim.toInt, Text.parseInt_toString]
  rfl

lemma currentUser_connection (hjwt : jwt.Verifies cfg minted) {made : Timestamp} {user : UserId}
    (hm : .connection made user ∈ minted) (hnow : (Mint.connection made user).Unexpired cfg now) :
    jwt.currentUser cfg (some (jwt.connectionToken cfg made user).token) now =
      .error (.key "username") := by
  rw [← principal_connection cfg made user]
  exact currentUser_of_returned (hjwt.returns _ hm now hnow)

/-- **The two kinds of tokens are told apart** exactly unless the bearer is a connection token that
has not expired. -/
theorem separated_iff (hjwt : jwt.Verifies cfg minted) (bearer : String) (now : Timestamp) :
    jwt.Separated cfg minted bearer now ↔ ¬ ∃ made user, .connection made user ∈ minted ∧
      (jwt.connectionToken cfg made user).token = bearer ∧
      (Mint.connection made user).Unexpired cfg now := by
  constructor
  · rintro ⟨-, hconnection⟩ ⟨made, user, hm, rfl, hnow⟩
    obtain ⟨detail, hdetail⟩ := hconnection made user hm rfl
    rw [currentUser_connection hjwt hm hnow] at hdetail
    exact absurd hdetail (by simp)
  · intro hexpired
    cases hdecode : jwt.decodeToken cfg bearer now with
    | none =>
      have hrefused := currentUser_of_refused hdecode
      exact ⟨Or.inr ⟨_, hrefused⟩, fun _ _ _ _ => ⟨_, hrefused⟩⟩
    | some payload =>
      obtain ⟨m, hm, rfl, hnow⟩ := hjwt.refuses bearer now payload hdecode
      cases m with
      | connection made user => exact absurd ⟨made, user, hm, rfl, hnow⟩ hexpired
      | access made user username =>
        have hok := currentUser_of_returned (hjwt.returns _ hm now hnow)
        rw [principal_access] at hok
        refine ⟨Or.inl ⟨made, user, username, hm, rfl, hnow, hok⟩, fun made' user' hm' htoken => ?_⟩
        -- the token would carry both kinds of claims
        have hsame := congrArg principal (hjwt.carries _ hm' _ hm htoken)
        rw [principal_connection, principal_access] at hsame
        exact absurd hsame (by simp)

/-! ## One token of each kind -/

/-- The claims in plain text, unsigned: the user, and the username if there is one. -/
def plainText (claims : Claims) : String :=
  let part (name : String) := ((claims.get? name).bind Claim.toText).getD ""
  if claims.contains "username" then part "sub" ++ "/" ++ part "username" else part "sub"

/-- A user's access token and connection token, made at once. -/
def pair : List Mint := [.access 0 1 "ada", .connection 0 1]

/-- A library that knows these two tokens. -/
def small : Jwt where
  encode claims _ _ := plainText claims
  decode token _ _ now :=
    (pair.find? fun m => decide (plainText (m.claims {}) = token ∧ m.Unexpired {} now)).map
      (Mint.claims {})

lemma token_small (m : Mint) : m.token small {} = plainText (m.claims {}) := by
  rw [Mint.token_eq]
  rfl

lemma pair_carries : ∀ m ∈ pair, ∀ m' ∈ pair, m.token small {} = m'.token small {} →
    m.claims {} = m'.claims {} := by
  decide +kernel

lemma small_verifies : small.Verifies {} {m | m ∈ pair} where
  carries := pair_carries
  returns := by
    intro m hm now hnow
    let known (m' : Mint) : Bool :=
      decide (plainText (m'.claims {}) = m.token small {} ∧ m'.Unexpired {} now)
    have hknown : known m = true := decide_eq_true ⟨(token_small m).symm, hnow⟩
    obtain ⟨m', hfind⟩ : ∃ m', pair.find? known = some m' :=
      Option.isSome_iff_exists.1 (List.find?_isSome.2 ⟨m, hm, hknown⟩)
    have hfound : known m' = true := List.find?_some hfind
    obtain ⟨htoken, -⟩ := of_decide_eq_true hfound
    have hsame := pair_carries m' (List.mem_of_find?_eq_some hfind) m hm
      ((token_small m').trans htoken)
    exact Option.map_eq_some_iff.2 ⟨m', hfind, hsame⟩
  refuses := by
    intro token now payload h
    obtain ⟨m, hfind, -⟩ := Option.map_eq_some_iff.1 h
    have hfound := List.find?_some hfind
    obtain ⟨htoken, hnow⟩ := of_decide_eq_true hfound
    exact ⟨m, List.mem_of_find?_eq_some hfind, (token_small m).trans htoken, hnow⟩

/-- The access token of the two is taken for its user. -/
theorem access_token_separated : small.Separated {} {m | m ∈ pair} "1/ada" 5000000 := by
  refine (separated_iff small_verifies _ _).2 ?_
  rintro ⟨made, user, hm, htoken, -⟩
  obtain ⟨rfl, rfl⟩ : made = 0 ∧ user = 1 := by simpa [pair] using hm
  exact absurd htoken (by decide +kernel)

/-- **A connection token raises a `KeyError`** when it is used on the API. -/
theorem connection_token_raises : ¬ ∀ (jwt : Jwt) (cfg : ApiSettings) (minted : Set Mint),
    jwt.Verifies cfg minted → ∀ bearer now, jwt.Separated cfg minted bearer now := by
  intro h
  have hm : Mint.connection 0 1 ∈ {m | m ∈ pair} := List.mem_cons_of_mem _ List.mem_cons_self
  obtain ⟨-, hconnection⟩ :=
    h small {} _ small_verifies (small.connectionToken {} 0 1).token 5000000
  obtain ⟨detail, hdetail⟩ := hconnection 0 1 hm rfl
  rw [currentUser_connection small_verifies hm (by decide)] at hdetail
  exact absurd hdetail (by simp)

end Jwt
end TickerWatch
