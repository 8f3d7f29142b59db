import Mathlib.Logic.Function.Basic
import TickerWatch.Auth.Controller

/-!
# Tokens and password hashes

`shared/security.py`.  What bcrypt, SHA-256 and PyJWT compute is a parameter, `Crypto`; that two
refresh tokens never hash alike is a field of it.  Random values (the salt, the token) are arguments
of the functions that draw them.
-/

namespace TickerWatch

/-- The settings the auth domain reads. -/
structure AuthSettings where
  jwtSecret : String := "dev-only-not-a-secret-but-at-least-32-bytes"
  jwtAlgorithm : String := "HS256"
  accessTokenTtlSeconds : ℤ := 15 * 60
  refreshTokenTtlSeconds : ℤ := 30 * 24 * 3600
  deriving DecidableEq, Repr

/-- The payload of an access token. -/
structure AccessPayload where
  sub : String
  username : String
  iat : ℤ
  exp : ℤ
  deriving DecidableEq, Repr

/-- What the libraries compute.  `hashpw salt plain` is `none` where bcrypt raises `ValueError`, and
`checkpw` is `verify_password`, which answers `False` there. -/
structure Crypto where
  hashpw : String → String → Option String
  checkpw : String → String → Bool
  hashRefreshToken : String → String
  encode : AccessPayload → String → String → String
  hash_injective : Function.Injective hashRefreshToken

/-- A library that hashes nothing. -/
def Crypto.plain : Crypto where
  hashpw _ plain := some plain
  checkpw plain hashed := decide (plain = hashed)
  hashRefreshToken token := token
  encode payload _ _ := payload.sub
  hash_injective := Function.injective_id

/-- Microseconds in a second. -/
def second : ℤ := 1000000

/-- `dt.datetime.now(dt.UTC) + dt.timedelta(seconds=...)`. -/
def Timestamp.addSeconds (now : Timestamp) (seconds : ℤ) : Timestamp := now + seconds * second

/-- `int(now.timestamp())`: whole seconds, toward zero. -/
def Timestamp.toSeconds (now : Timestamp) : ℤ := now.tdiv second

/-- `issue_token`: the access token and its lifetime. -/
def Crypto.issueToken (sec : Crypto) (cfg : AuthSettings) (now : Timestamp) (user : UserId)
    (username : String) : String × ℤ :=
  let ttl := cfg.accessTokenTtlSeconds
  (sec.encode ⟨toString user, username, now.toSeconds, (now.addSeconds ttl).toSeconds⟩
    cfg.jwtSecret cfg.jwtAlgorithm, ttl)

/-- When a refresh token issued at `now` expires. -/
def AuthSettings.expiresAt (cfg : AuthSettings) (now : Timestamp) : Timestamp :=
  now.addSeconds cfg.refreshTokenTtlSeconds

end TickerWatch
