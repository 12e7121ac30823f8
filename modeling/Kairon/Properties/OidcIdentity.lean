import Kairon.Ui.Auth

/-!
# What a session from an identity provider may do

The name in the token is all that ties a session to an account of the server, so a session whose
user is called like an account has the rights of that account, besides those of its groups.

* `isAdminIdentity_iff`, `authorizedForNamespace_iff`: the rights of a name and its groups
* `oidc_session_rights`: the rights of a session that the callback has issued
-/

namespace Kairon.Ui

open Infra GoText Model

/-! ## Rights -/

variable {groups : List String} {s : Server} {username : String} {now : Int} {provider : Provider}
  {query : CallbackQuery}

theorem groupsContainAdmin_iff {adminGroups : List String} :
    groupsContainAdmin groups adminGroups = true ↔ ∃ g ∈ groups, g ∈ adminGroups := by
  simp [groupsContainAdmin]

theorem isAdminIdentity_iff : isAdminIdentity s username groups = true ↔
      (∃ u, s.findUser username = some u ∧ u.isAdmin = true) ∨ ∃ g ∈ groups, g ∈ s.adminGroups := by
  unfold isAdminIdentity
  rw [← Option.any_eq_true]
  split
  · next hlocal => simp [hlocal]
  · next hlocal =>
    rw [or_iff_right hlocal]
    cases hoidc : s.oidc with
    | none => simp [Server.adminGroups, hoidc]
    | some oidc => simp [Server.adminGroups, hoidc, groupsContainAdmin_iff]

/-- A user with a name may act on a namespace by being an administrator, through the account of that
name, or through a group. -/
theorem authorizedForNamespace_iff {ns : String} (hname : username ≠ "") :
    authorizedForNamespace s username groups ns = true ↔
      s.namespaceScopingEnabled = false ∨ isAdminIdentity s username groups = true ∨
        (∃ u, s.findUser username = some u ∧ ns ∈ u.namespaces) ∨
        ∃ g ∈ groups, ns ∈ s.namespacesOf g := by
  have hlocal : ((s.findUser username).any fun u => u.namespaces.any fun a => a == ns) = true ↔
      ∃ u, s.findUser username = some u ∧ ns ∈ u.namespaces := by
    simp [Option.any_eq_true]
  have hgroup : (groups.any fun g => (s.namespacesOf g).any fun a => a == ns) = true ↔
      ∃ g ∈ groups, ns ∈ s.namespacesOf g := by
    simp
  unfold authorizedForNamespace
  rw [if_neg hname, ← hlocal, ← hgroup]
  cases s.namespaceScopingEnabled <;> cases isAdminIdentity s username groups <;>
    simp only [Bool.not_true, Bool.not_false, Bool.false_eq_true, if_true, if_false, true_or,
      false_or, or_true, reduceCtorEq]
  split <;> simp_all

/-! ## Sessions -/

variable {X : Crypto}

theorem session_of_withAuth {now₀ ttl : Int} {user : String} {groups₀ : List String}
    (h : withAuth X s now (signSession X s.sessionSecret now₀ username groups₀ ttl).1 =
      .session user groups) : user = username ∧ groups = groups₀ := by
  unfold withAuth at h
  split_ifs at h
  rw [verifySession, signSession, Codec.verify_sign] at h
  split at h
  · cases h
  · next p hp =>
    obtain ⟨hp, _⟩ := Option.filter_eq_some_iff.mp hp
    cases hp
    split at h
    · cases h
    · cases h
      exact ⟨rfl, rfl⟩

theorem verify_of_callbackClaims {claims : String → Json}
    (h : callbackClaims X s now provider query = .ok claims) :
    ∃ raw idToken, provider.verify raw = some idToken ∧ idToken.claims = some claims := by
  unfold callbackClaims at h
  split_ifs at h
  split at h
  · cases h
  · split at h
    · cases h
    · next idToken hfetch =>
      split_ifs at h
      split at h
      · cases h
      · next claims' hclaims =>
        cases h
        unfold fetchIDToken at hfetch
        split at hfetch
        · cases hfetch
        · cases hfetch
        · next raw _ =>
          split at hfetch
          · cases hfetch
          · next hverify =>
            cases hfetch
            exact ⟨raw, idToken, hverify, hclaims⟩

theorem eq_str_of_stringClaim {claim : Json} (h : stringClaim claim ≠ "") :
    claim = .str (stringClaim claim) := by
  cases claim with
  | str text => rfl
  | _ => exact absurd rfl h

theorem claims_of_redirect {expiresAt : Int} {token : String} {isAdmin : Bool}
    (h : handleOIDCCallback X s now provider query = .redirect token username isAdmin expiresAt) :
    ∃ oidc claims, s.oidc = some oidc ∧ callbackClaims X s now provider query = .ok claims ∧
      claims oidc.usernameClaim = .str username ∧ username ≠ "" ∧
      token = (signSession X s.sessionSecret now username (oidc.sessionGroups claims)
        sessionTTL).1 := by
  unfold handleOIDCCallback at h
  split at h
  · cases h
  · next oidc hoidc =>
    split at h
    · cases h
    · next claims hclaims =>
      obtain ⟨-, ⟨⟩⟩ | ⟨hname, ⟨⟩⟩ := ite_eq_iff.mp h
      exact ⟨oidc, claims, hoidc, hclaims, eq_str_of_stringClaim hname, hname, rfl⟩

/-- The rights of a session that was issued by the callback, on a server with the same secret and
any accounts and settings: its user and groups come from the claims of a verified ID token, and it
has the rights of the account of that name besides those of the groups. -/
theorem oidc_session_rights {s₀ : Server} {now₀ expiresAt : Int}
    {token user : String} {isAdmin : Bool} (hsecret : s.sessionSecret = s₀.sessionSecret)
    (hissued : handleOIDCCallback X s₀ now₀ provider query =
      .redirect token username isAdmin expiresAt)
    (hserved : withAuth X s now token = .session user groups) :
    (∃ oidc raw idToken claims, s₀.oidc = some oidc ∧ provider.verify raw = some idToken ∧
      idToken.claims = some claims ∧ claims oidc.usernameClaim = .str user ∧
      groups = oidc.sessionGroups claims) ∧
    (isAdminIdentity s user groups = true ↔
      (∃ u, s.findUser user = some u ∧ u.isAdmin = true) ∨ ∃ g ∈ groups, g ∈ s.adminGroups) ∧
    ∀ ns, authorizedForNamespace s user groups ns = true ↔
      s.namespaceScopingEnabled = false ∨ isAdminIdentity s user groups = true ∨
        (∃ u, s.findUser user = some u ∧ ns ∈ u.namespaces) ∨
        ∃ g ∈ groups, ns ∈ s.namespacesOf g := by
  obtain ⟨oidc, claims, hoidc, hcallback, hname, hne, rfl⟩ := claims_of_redirect hissued
  obtain ⟨raw, idToken, hverify, hclaims⟩ := verify_of_callbackClaims hcallback
  rw [← hsecret] at hserved
  obtain ⟨rfl, rfl⟩ := session_of_withAuth hserved
  exact ⟨⟨oidc, raw, idToken, claims, hoidc, hverify, hclaims, hname, rfl⟩, isAdminIdentity_iff,
    fun ns => authorizedForNamespace_iff hne⟩

/-! ## A name that is also an account's -/

def twoDoors : Server where
  token := ""
  users := [⟨"admin", "$2a$10$hash", true, ["team-a"]⟩]
  sessionSecret := "secret"
  oidc := some ⟨"preferred_username", "groups", [], []⟩
  namespaceScopingEnabled := true
  revoked := []
  passwordChangedAt := []

def anyProvider : Provider where
  exchange _ _ := some (some "id-token")
  verify _ := some ⟨"nonce", some fun
    | "preferred_username" => .str "admin"
    | _ => .absent⟩

noncomputable def anyQuery : CallbackQuery :=
  ⟨"", signOIDCState strokes twoDoors 0 "verifier" "nonce", "code"⟩

theorem callback_admin : handleOIDCCallback strokes twoDoors 0 anyProvider anyQuery =
      .redirect (signSession strokes "secret" 0 "admin" [] sessionTTL).1 "admin" false
        sessionTTL := by
  have hstate : verifyOIDCState strokes twoDoors 0 anyQuery.state =
      some ⟨"verifier", "nonce", unix oidcStateTTL⟩ := by
    rw [anyQuery, signOIDCState, verifyOIDCState, Codec.verify_sign]
    rfl
  have hclaims : callbackClaims strokes twoDoors 0 anyProvider anyQuery =
      .ok fun | "preferred_username" => .str "admin" | _ => .absent := by
    rw [callbackClaims, hstate]
    rfl
  unfold handleOIDCCallback
  split
  · next h => cases h
  · next oidc h =>
    cases h
    rw [hclaims]
    rfl

theorem withAuth_admin :
    withAuth strokes twoDoors 0 (signSession strokes "secret" 0 "admin" [] sessionTTL).1 =
      .session "admin" [] := by
  have hverify : verifySession strokes "secret" 0
      (signSession strokes "secret" 0 "admin" [] sessionTTL).1 =
        some ⟨"admin", unix sessionTTL, 0, []⟩ := by
    rw [verifySession, signSession, Codec.verify_sign]
    rfl
  have hne : (signSession strokes "secret" 0 "admin" [] sessionTTL).1 ≠ "" := by
    simp [signSession, Codec.sign]
  rw [withAuth, if_neg (by decide), if_neg hne, if_neg (by decide), if_neg (by decide)]
  dsimp only [twoDoors]
  rw [hverify]
  rfl

/-- Somebody whom the provider calls `admin` signs in, without any groups. The session is that of an
administrator all the same. -/
theorem local_rights_inherited :
    ∃ X s now provider query token username isAdmin expiresAt user groups,
      handleOIDCCallback X s now provider query = .redirect token username isAdmin expiresAt ∧
      withAuth X s now token = .session user groups ∧
      isAdminIdentity s user groups = true ∧ ¬∃ g ∈ groups, g ∈ s.adminGroups :=
  ⟨strokes, twoDoors, 0, anyProvider, anyQuery, _, _, _, _, "admin", [], callback_admin,
    withAuth_admin, by decide, by simp⟩

theorem oidc_session_rights_admin : isAdminIdentity twoDoors "admin" [] = true ↔
      (∃ u, twoDoors.findUser "admin" = some u ∧ u.isAdmin = true) ∨
        ∃ g ∈ ([] : List String), g ∈ twoDoors.adminGroups :=
  (oidc_session_rights rfl callback_admin withAuth_admin).2.1

end Kairon.Ui
