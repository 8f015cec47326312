import CScript.Lib.Run
import CScript.Runtime.Json
import CScript.Lib.Numeral

/-! The three sources of an identity: the sessions of the store, the sessions of MCP and the
JWTs of another issuer. base64, the JSON parser and HMAC-SHA256 are not the program's own. The
texts that a claim of a float has and the random bits of a token are left open. -/

namespace CScript.Auth

open Lib

abbrev Bytes := List UInt8

/-- `URL_SAFE_NO_PAD`, `serde_json` and `Hmac<Sha256>`. -/
structure Crypto where
  decode : List Char → Option Bytes
  encode : Bytes → List Char
  parse : Bytes → Option Json
  serialize : Json → Bytes
  hmac : String → List Char → Bytes
  numberText : JsonNumber → String

/-- A reading of both clocks, in nanoseconds. The seconds of the system clock are an `i64`. -/
structure Clock where
  instant : Nat
  unix : Nat
  inRange : unix / 10 ^ 9 < 2 ^ 63

def Clock.unixSecs (now : Clock) : Nat := now.unix / 10 ^ 9

/-- Neither clock goes back. -/
def Clock.NotAfter (a b : Clock) : Prop := a.instant ≤ b.instant ∧ a.unix ≤ b.unix

instance (a b : Clock) : Decidable (a.NotAfter b) := inferInstanceAs (Decidable (_ ∧ _))

abbrev Claims := List (String × Json)

/-- `v.get(key)`. -/
def get (v : Json) (key : String) : Option Json := v.asObject.bind fun entries => jsonGet entries key

/-- `verify_jwt` up to the expiration: the claims of a token with the right signature. -/
def signedClaims (k : Crypto) (token secret : String) : Option Claims :=
  match token.toList.splitOn '.' with
  | [header, payload, signature] =>
      match (k.decode header).bind k.parse with
      | none => none
      | some h =>
          if (get h "alg").bind Json.asStr ≠ some "HS256" then none
          else
            match k.decode signature with
            | none => none
            | some actual =>
                if k.hmac secret (header ++ '.' :: payload) ≠ actual then none
                else ((k.decode payload).bind k.parse).bind Json.asObject
  | _ => none

/-- `claims.get("exp").and_then(as_i64)` is not in the past. -/
def notExpired (now : Clock) (claims : Claims) : Bool :=
  match (jsonGet claims "exp").bind Json.asI64 with
  | some exp => decide ((now.unixSecs : Int) < exp.toInt)
  | none => true

def verifyJwt (k : Crypto) (now : Clock) (token secret : String) : Option Claims :=
  match signedClaims k token secret with
  | some claims => if notExpired now claims then some claims else none
  | none => none

def signJwt (k : Crypto) (claims : Claims) (secret : String) : String :=
  let header := k.encode (k.serialize (.object [("alg", .string "HS256"), ("typ", .string "JWT")]))
  let payload := k.encode (k.serialize (.object claims))
  let input := header ++ '.' :: payload
  String.ofList (input ++ '.' :: k.encode (k.hmac secret input))

structure JwtConfig where
  secret : String
  roleClaim : String
  userIdClaim : String

structure SessionEntry where
  enumName : String
  variantName : String
  userId : Option I64
  expiresAt : Option Nat

/-- The store, without the failed logins. -/
structure SessionStore where
  sessions : List (String × SessionEntry)
  ttl : Option Nat
  jwt : Option JwtConfig
  mcpRevokedJti : List String
  mcpSecret : Option String

/-- `MCP_SESSION_TTL_SECS`. -/
def mcpSessionTtlSecs : Nat := 3600

def SessionEntry.expired (entry : SessionEntry) (now : Clock) : Bool :=
  entry.expiresAt.any fun exp => exp ≤ now.instant

/-- 16 hexadecimal digits. -/
def hex16 (n : BitVec 64) : List Char :=
  (List.range 16).map fun i => Nat.digitChar (n.toNat / 16 ^ (15 - i) % 16)

def freshToken (a b : BitVec 64) : String := String.ofList (hex16 a ++ hex16 b)

/-- A claim with a user id: a number, or a text of digits. -/
def userIdOf : Option Json → Option I64
  | some (.number n) => n.asI64
  | some (.string s) => parseInt 64 s.toList
  | _ => none

namespace SessionStore

variable (k : Crypto) (s : SessionStore) (now : Clock) (token : String)

/-- `sessions.get(token)`. -/
def session : Option SessionEntry := (s.sessions.find? fun e => e.1 == token).map Prod.snd

def remove : SessionStore := { s with sessions := s.sessions.filter fun e => e.1 != token }

/-- `create_with_user_id`. -/
def create (enumName variantName : String) (userId : Option I64) : SessionStore :=
  let entry : SessionEntry := ⟨enumName, variantName, userId, s.ttl.map (now.instant + ·)⟩
  { s with sessions := (token, entry) :: (s.remove token).sessions }

def destroy : SessionStore := s.remove token

def destroyAllForUser (userId : I64) : SessionStore :=
  { s with sessions := s.sessions.filter fun e => e.2.userId ≠ some userId }

/-- What each of the three look-ups leaves behind: an expired session is dropped. -/
def afterAccess : SessionStore :=
  match s.session token with
  | some entry => if entry.expired now then s.remove token else s
  | none => s

/-- The role, the user and the `jti` of an MCP session. -/
def verifyMcpSession : Option (String × Option I64 × String) := do
  let secret ← s.mcpSecret
  let claims ← verifyJwt k now token secret
  let jti ← (jsonGet claims "jti").bind Json.asStr
  if s.mcpRevokedJti.contains jti then none
  else
    let role ← (jsonGet claims "role").bind Json.asStr
    return (role, userIdOf (jsonGet claims "sub"), jti)

def roleFor : Option (String × String) :=
  match s.session token with
  | some entry => if entry.expired now then none else some (entry.enumName, entry.variantName)
  | none =>
      match s.verifyMcpSession k now token with
      | some (role, _, _) => some ("", role)
      | none => do
          let jwt ← s.jwt
          let claims ← verifyJwt k now token jwt.secret
          let variant ← (jsonGet claims jwt.roleClaim).bind Json.asStr
          return ("", variant)

def userIdFor : Option I64 :=
  match s.session token with
  | some entry => if entry.expired now then none else entry.userId
  | none =>
      match s.verifyMcpSession k now token with
      | some (_, userId, _) => userId
      | none => do
          let jwt ← s.jwt
          let claims ← verifyJwt k now token jwt.secret
          userIdOf (jsonGet claims jwt.userIdClaim)

def claimFor (name : String) : Option String :=
  match s.session token with
  | some _ => none
  | none => do
      let jwt ← s.jwt
      let claims ← verifyJwt k now token jwt.secret
      match jsonGet claims name with
      | some (.string text) => some text
      | some (.number n) =>
          some (match n.asI64 with
            | some i => displayInt i.toInt
            | none => k.numberText n)
      | some (.bool b) => some (toString b)
      | _ => none

/-- `sign_mcp_session` with the `jti` that it draws; the store does not change. -/
def signMcpSession (role : String) (userId : Option I64) (a b : BitVec 64) : Option String := do
  let secret ← s.mcpSecret
  let exp : Int := now.unixSecs + mcpSessionTtlSecs
  let claims := insertKey "jti" (.string (freshToken a b)) <|
    insertKey "role" (.string role) <|
      (match userId with
        | some uid => insertKey "sub" (.number (.ofI64 uid))
        | none => id) <|
        match SInt.ofInt? 64 exp with
        | some exp => [("exp", .number (.ofI64 exp))]
        | none => []
  return signJwt k claims secret

def revokeMcpSession (jti : String) : SessionStore :=
  { s with mcpRevokedJti := jti :: s.mcpRevokedJti }

end SessionStore

end CScript.Auth
