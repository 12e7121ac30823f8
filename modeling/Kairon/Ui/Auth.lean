import Kairon.Infra.Signed
import Kairon.Model.Machine
import Mathlib.Data.Countable.Basic
import Mathlib.Logic.Equiv.List

/-!
# Sign-in and authorization of the UI server

`internal/uiapi/auth.go`, `internal/uiapi/oidc.go` and `withAuth` of `internal/uiapi/server.go`. A
session is a signed text that names its user, and what its holder may do is looked up on every
request, by the user's name and groups.
-/

namespace Kairon.Ui

open Infra GoText Model

structure User where
  username : String
  passwordHash : String
  isAdmin : Bool
  namespaces : List String
  deriving DecidableEq

structure OIDCAuth where
  usernameClaim : String
  groupsClaim : String
  adminGroups : List String
  namespaceGroups : List (String × List String)
  deriving DecidableEq

/-- `Server`, as far as authorization reads it. Times are in nanoseconds. -/
structure Server where
  token : String
  users : List User
  sessionSecret : String
  oidc : Option OIDCAuth
  namespaceScopingEnabled : Bool
  /-- By the hash of the token, when the revoked session ends. -/
  revoked : List (String × Int)
  passwordChangedAt : List (String × Int)
  deriving DecidableEq

/-! ## Authorization -/

namespace Server

variable (s : Server)

def findUser (username : String) : Option User :=
  s.users.find? fun u => u.username == username

def adminGroups : List String :=
  (s.oidc.map OIDCAuth.adminGroups).getD []

def namespacesOf (group : String) : List String :=
  ((s.oidc.bind fun o => o.namespaceGroups.lookup group)).getD []

end Server

def groupsContainAdmin (groups adminGroups : List String) : Bool :=
  groups.any fun g => adminGroups.any fun admin => g == admin

def isAdminIdentity (s : Server) (username : String) (groups : List String) : Bool :=
  if (s.findUser username).any User.isAdmin then true
  else
    match s.oidc with
    | none => false
    | some oidc => groupsContainAdmin groups oidc.adminGroups

def authorizedForNamespace (s : Server) (username : String) (groups : List String) (ns : String) :
    Bool :=
  if !s.namespaceScopingEnabled then true
  else if username = "" then false
  else if isAdminIdentity s username groups then true
  else if (s.findUser username).any fun u => u.namespaces.any fun allowed => allowed == ns then true
  else groups.any fun g => (s.namespacesOf g).any fun allowed => allowed == ns

/-! ## Sessions -/

structure SessionPayload where
  subject : String
  expires : Int
  issuedAt : Int
  groups : List String

structure OIDCState where
  codeVerifier : String
  nonce : String
  expires : Int

def second : Int := 1000 * 1000 * 1000

def sessionTTL : Int := 12 * 60 * 60 * second

def oidcStateTTL : Int := 10 * 60 * second

def unix (t : Int) : Int := t / second

/-- What is not part of the repository: JSON in base64, HMAC-SHA256 and the SHA-256 of a text. -/
structure Crypto where
  sessions : Codec SessionPayload
  states : Codec OIDCState
  hmac : (key text : String) → String
  sha256Hex : String → String

variable (X : Crypto)

def signSession (key : String) (now : Int) (username : String) (groups : List String) (ttl : Int) :
    String × Int :=
  (X.sessions.sign (X.hmac key) ⟨username, unix (now + ttl), unix now, groups⟩, now + ttl)

def verifySession (key : String) (now : Int) (token : String) : Option SessionPayload :=
  (X.sessions.verify (X.hmac key) token).filter fun p => now ≤ p.expires * second

def isSessionRevoked (s : Server) (now : Int) (token : String) : Bool :=
  (s.revoked.lookup (X.sha256Hex token)).any fun expires => now ≤ expires

def passwordChangedAfter (s : Server) (username : String) (issuedAt : Int) : Bool :=
  (s.passwordChangedAt.lookup username).any fun changedAt => issuedAt * second ≤ changedAt

inductive Access where
  /-- Nothing is configured: anyone may come in. -/
  | unguarded
  | sharedToken
  | session (username : String) (groups : List String)
  | unauthorized

/-- `withAuth`, for the bearer token of the request (`""` if there is none). -/
def withAuth (s : Server) (now : Int) (tok : String) : Access :=
  if s.token = "" ∧ s.users = [] ∧ s.oidc = none then .unguarded
  else if tok = "" then .unauthorized
  else if s.token ≠ "" ∧ tok = s.token then .sharedToken
  else if s.sessionSecret = "" then .unauthorized
  else
    match verifySession X s.sessionSecret now tok with
    | none => .unauthorized
    | some p =>
      if isSessionRevoked X s now tok ∨ passwordChangedAfter s p.subject p.issuedAt then
        .unauthorized
      else .session p.subject p.groups

/-! ## Signing in through a provider -/

structure IDToken where
  nonce : String
  claims : Option (String → Json)

structure Provider where
  /-- `OAuth2.Exchange`: the answer, with its ID token if there is one. -/
  exchange : (code verifier : String) → Option (Option String)
  /-- `Verifier.Verify`. -/
  verify : String → Option IDToken

structure CallbackQuery where
  error : String
  state : String
  code : String

inductive CallbackResult where
  | notConfigured
  | redirectError (message : String)
  | redirect (token username : String) (isAdmin : Bool) (expiresAt : Int)

def oidcStateKey (s : Server) : String := X.hmac s.sessionSecret "kairon-ui-oidc-state-v1"

def signOIDCState (s : Server) (now : Int) (codeVerifier nonce : String) : String :=
  X.states.sign (X.hmac (oidcStateKey X s)) ⟨codeVerifier, nonce, unix (now + oidcStateTTL)⟩

def verifyOIDCState (s : Server) (now : Int) (state : String) : Option OIDCState :=
  (X.states.verify (X.hmac (oidcStateKey X s)) state).filter fun p => now ≤ p.expires * second

def stringClaim : Json → String
  | .str text => text
  | _ => ""

def stringClaimSlice : Json → List String
  | .arr items => items.filterMap fun
    | .str text => some text
    | _ => none
  | _ => []

def OIDCAuth.sessionGroups (o : OIDCAuth) (claims : String → Json) : List String :=
  if o.groupsClaim ≠ "" ∧ (o.adminGroups ≠ [] ∨ o.namespaceGroups ≠ []) then
    stringClaimSlice (claims o.groupsClaim)
  else []

def fetchIDToken (provider : Provider) (code verifier : String) : Except String IDToken :=
  match provider.exchange code verifier with
  | none => .error "sign-in failed"
  | some none => .error "identity provider did not return an ID token"
  | some (some rawIDToken) =>
    match provider.verify rawIDToken with
    | none => .error "sign-in failed"
    | some idToken => .ok idToken

def callbackClaims (s : Server) (now : Int) (provider : Provider) (query : CallbackQuery) :
    Except String (String → Json) :=
  if query.error ≠ "" then .error query.error
  else
    match verifyOIDCState X s now query.state with
    | none => .error "invalid or expired login attempt, please try again"
    | some state =>
      match fetchIDToken provider query.code state.codeVerifier with
      | .error message => .error message
      | .ok idToken =>
        if idToken.nonce ≠ state.nonce then .error "sign-in failed"
        else
          match idToken.claims with
          | none => .error "sign-in failed"
          | some claims => .ok claims

def handleOIDCCallback (s : Server) (now : Int) (provider : Provider) (query : CallbackQuery) :
    CallbackResult :=
  match s.oidc with
  | none => .notConfigured
  | some oidc =>
    match callbackClaims X s now provider query with
    | .error message => .redirectError message
    | .ok claims =>
      let username := stringClaim (claims oidc.usernameClaim)
      if username = "" then
        .redirectError ("identity provider did not return a " ++ quote oidc.usernameClaim ++
          " claim")
      else
        let groups := oidc.sessionGroups claims
        let (token, expires) := signSession X s.sessionSecret now username groups sessionTTL
        .redirect token username (groupsContainAdmin groups oidc.adminGroups) expires

/-! ## Signatures for samples -/

instance countableString : Countable String :=
  have : Countable Char := (Function.LeftInverse.injective Char.ofNat_toNat).countable
  Function.Injective.countable fun _ _ h => String.toList_injective h

instance : Countable SessionPayload :=
  Function.Injective.countable
    (f := fun p : SessionPayload => (p.subject, p.expires, p.issuedAt, p.groups)) (by
      rintro ⟨⟩ ⟨⟩ h
      simp_all)

instance : Countable OIDCState :=
  Function.Injective.countable
    (f := fun p : OIDCState => (p.codeVerifier, p.nonce, p.expires)) (by
      rintro ⟨⟩ ⟨⟩ h
      simp_all)

noncomputable def strokes : Crypto where
  sessions := @Codec.unary SessionPayload (Encodable.ofCountable _)
  states := @Codec.unary OIDCState (Encodable.ofCountable _)
  hmac key _ := key
  sha256Hex text := text

end Kairon.Ui
