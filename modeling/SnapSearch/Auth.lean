import Mathlib.Data.List.Nodup
import SnapSearch.Config
import SnapSearch.Lib.PyStr
import SnapSearch.Python

/-!
# Authentication

`app/auth`: from the `Authorization` header of a request to the identity and the
permissions its token carries.

Verifying a token is the work of a library: `jwt.decode` is a parameter, and the
claims it gives are the ones it requires, all present and none of them null.

## Main definitions

* `AuthContext`, `AuthContext.searchApps` — an authenticated identity, and the
  apps it may search.
* `Payload` — the claims of a verified token.
* `normalizePermissions` — `resource_access` as `<app>:<role>` texts.
* `getAuthContext` — the dependency of the endpoint.
* `requireSearchPermission` — the one it leaves out, to record what it refuses.

## Main results

* `mem_of_normalizePermissions` — **the permissions are the pairs of a known
  client's app and a role of its own entry.**
* `searchApps_eq_grantedApps` — **the apps to search are those whose own client
  entry has the role `search`.**
* `getAuthContext_eq_ok` — what an accepted header says.
-/

namespace SnapSearch

open PyStr

/-! ### The context -/

/-- The identity behind a request, as everything after authentication sees it. -/
structure AuthContext where
  userId : String
  originApp : String
  permissions : List String
  deriving DecidableEq

/-- The apps the user may search, in declaration order. -/
def AuthContext.searchApps (context : AuthContext) : List String :=
  appNames.filter fun app => app ++ ":" ++ "search" ∈ context.permissions

theorem AuthContext.searchApps_sublist (context : AuthContext) :
    context.searchApps.Sublist appNames := List.filter_sublist

theorem AuthContext.nodup_searchApps (context : AuthContext) : context.searchApps.Nodup :=
  nodup_appNames.sublist context.searchApps_sublist

/-! ### The token -/

/-- The failures of `jwt.decode`. -/
inductive JwtError
  | expiredSignature
  | invalidToken
  deriving DecidableEq

/-- The claims of a verified token. -/
structure Payload where
  sub : String
  azp : Json
  resourceAccess : Json
  azp_ne : azp ≠ .null
  resourceAccess_ne : resourceAccess ≠ .null

/-- `_unauthorized`. -/
def unauthorized (reason : String) : Exn :=
  .httpException 401 reason [("WWW-Authenticate", "Bearer")]

/-- The token of an `Authorization` header: what follows the scheme `Bearer`.

A header reaches the service as Latin-1 text, and lowering any of its characters
outside ASCII gives none inside. -/
def bearerToken (authorization : Option String) : Except Exn String :=
  match authorization with
  | none => .error (unauthorized "not authenticated")
  | some authorization =>
      let (scheme, _, token) := partition ' ' authorization.toList
      if scheme.map Char.toLower ≠ "bearer".toList ∨ token = [] then
        .error (unauthorized "not authenticated")
      else .ok (String.ofList token)

/-! ### Permissions -/

/-- The items of a list that holds texts only. -/
def allTexts : List Json → Option (List String)
  | [] => some []
  | .str s :: items => (allTexts items).map (s :: ·)
  | _ :: _ => none

/-- The roles of a client's entry: an object whose `roles` is a list of texts. -/
def rolesOf : Json → Option (List String)
  | .obj members =>
      match members.lookup "roles" with
      | some (.arr items) => allTexts items
      | _ => none
  | _ => none

/-- The loop over `KNOWN_CLIENTS`: an absent or null entry grants nothing, and a
malformed one ends the loop. -/
def permissionsOf (resourceAccess : List (String × Json)) :
    List (String × String) → Except Exn (List String)
  | [] => .ok []
  | (clientId, appName) :: clients =>
      -- only known clients are looked up: other entries are never read
      match resourceAccess.lookup clientId with
      | none | some .null => permissionsOf resourceAccess clients
      | some access =>
          match rolesOf access with
          | none => .error (unauthorized "invalid token")
          | some roles =>
              (permissionsOf resourceAccess clients).map fun permissions =>
                (roles.map fun role => appName ++ ":" ++ role) ++ permissions

/-- `_normalize_permissions`. -/
def normalizePermissions : Json → Except Exn (List String)
  | .obj members => permissionsOf members knownClients
  | _ => .error (unauthorized "invalid token")

/-! ### The dependency -/

/-- `azp not in KNOWN_CLIENTS`: the app of the client, where it is a known one.
Only a list and an object cannot be looked up at all. -/
def originAppOf : Json → Except Exn String
  | .str azp =>
      match knownClients.lookup azp with
      | none => .error (unauthorized "invalid token")
      | some app => .ok app
  | .arr _ => .error (.typeError "unhashable type: 'list'")
  | .obj _ => .error (.typeError "unhashable type: 'dict'")
  | _ => .error (unauthorized "invalid token")

/-- What the service does with the claims of a verified token. -/
def contextOf (payload : Payload) : Except Exn AuthContext := do
  let originApp ← originAppOf payload.azp
  let permissions ← normalizePermissions payload.resourceAccess
  return { userId := payload.sub, originApp, permissions }

/-- `get_auth_context`. -/
def getAuthContext (decode : String → Except JwtError Payload) (authorization : Option String) :
    Except Exn AuthContext := do
  let token ← bearerToken authorization
  match decode token with
  | .error .expiredSignature => throw (unauthorized "token expired")
  | .error .invalidToken => throw (unauthorized "invalid token")
  | .ok payload => contextOf payload

/-- `require_search_permission`: the check of permissions that needs no database. -/
def requireSearchPermission (context : AuthContext) : Except Exn AuthContext :=
  if context.searchApps = [] then
    .error (.httpException 403 "no search permission in any application" [])
  else .ok context

/-! ### What a context says about its token -/

/-- The roles that a token's entry for a client grants. -/
def rolesGranted (resourceAccess : Json) (clientId : String) : List String :=
  match resourceAccess with
  | .obj members => ((members.lookup clientId).bind rolesOf).getD []
  | _ => []

theorem mem_permissionsOf {members : List (String × Json)} {clients : List (String × String)}
    {permissions : List String} (h : permissionsOf members clients = .ok permissions)
    (p : String) :
    p ∈ permissions ↔ ∃ client ∈ clients, ∃ role ∈ rolesGranted (.obj members) client.1,
      p = client.2 ++ ":" ++ role := by
  induction clients generalizing permissions with
  | nil =>
    cases h
    simp
  | cons client clients ih =>
    obtain ⟨clientId, appName⟩ := client
    rw [List.exists_mem_cons_iff]
    rw [permissionsOf] at h
    split at h
    · next hl => simpa [rolesGranted, hl] using ih h
    · next hl => simpa [rolesGranted, hl, rolesOf] using ih h
    · next access _ hl =>
      split at h
      · cases h
      · next roles hroles =>
        cases hrest : permissionsOf members clients with
        | error e =>
          rw [hrest] at h
          cases h
        | ok rest =>
          rw [hrest] at h
          cases h
          simp [rolesGranted, hl, hroles, ih hrest, eq_comm]

/-- **The permissions are the pairs of a known client's app and a role of its own
entry.** -/
theorem mem_of_normalizePermissions {resourceAccess : Json} {permissions : List String}
    (h : normalizePermissions resourceAccess = .ok permissions) (p : String) :
    p ∈ permissions ↔ ∃ client ∈ knownClients, ∃ role ∈ rolesGranted resourceAccess client.1,
      p = client.2 ++ ":" ++ role := by
  cases resourceAccess with
  | obj members => exact mem_permissionsOf h p
  | _ => cases h

/-- **A permission splits in one way**: the app of a pair has no separator, so
neither it nor the role can stand for another. -/
theorem permission_inj {app app' role role' : String} (happ : ':' ∉ app.toList)
    (happ' : ':' ∉ app'.toList) (h : app ++ ":" ++ role = app' ++ ":" ++ role') :
    app = app' ∧ role = role' := by
  -- the app is what stands before the first separator
  have happart : ∀ {x z : List Char}, ':' ∉ x → (x ++ ':' :: z).takeWhile (· ≠ ':') = x := by
    intro x z hx
    have hall : ∀ c ∈ x, decide (c ≠ ':') = true := by
      intro c hc
      rw [decide_eq_true_eq]
      rintro rfl
      exact hx hc
    rw [List.takeWhile_append_of_pos hall]
    simp
  have hchars : app.toList ++ ':' :: role.toList = app'.toList ++ ':' :: role'.toList := by
    simpa [String.toList_append] using congrArg String.toList h
  have hx : app.toList = app'.toList := by
    rw [← happart happ, hchars, happart happ']
  rw [hx, List.append_cancel_left_eq, List.cons.injEq] at hchars
  exact ⟨String.toList_inj.mp hx, String.toList_inj.mp hchars.2⟩

theorem contextOf_eq_ok {payload : Payload} {context : AuthContext}
    (h : contextOf payload = .ok context) :
    context.userId = payload.sub ∧
      (∃ clientId, payload.azp = .str clientId ∧
        knownClients.lookup clientId = some context.originApp) ∧
      normalizePermissions payload.resourceAccess = .ok context.permissions := by
  unfold contextOf at h
  obtain ⟨originApp, horigin, h⟩ := bind_eq_ok_iff.mp h
  obtain ⟨permissions, hperm, h⟩ := bind_eq_ok_iff.mp h
  cases h
  refine ⟨rfl, ?_, hperm⟩
  unfold originAppOf at horigin
  split at horigin
  · next clientId hazp =>
    refine ⟨clientId, hazp, ?_⟩
    split at horigin
    · cases horigin
    · next hl =>
      cases horigin
      exact hl
  all_goals cases horigin

/-- What an accepted header says: its token was verified, and the context holds
what the token's claims do. -/
theorem getAuthContext_eq_ok {decode : String → Except JwtError Payload}
    {authorization : Option String} {context : AuthContext}
    (h : getAuthContext decode authorization = .ok context) :
    ∃ token payload, bearerToken authorization = .ok token ∧ decode token = .ok payload ∧
      contextOf payload = .ok context := by
  unfold getAuthContext at h
  obtain ⟨token, htoken, h⟩ := bind_eq_ok_iff.mp h
  refine ⟨token, ?_⟩
  cases hdecode : decode token with
  | error e =>
    rw [hdecode] at h
    cases e <;> cases h
  | ok payload =>
    rw [hdecode] at h
    exact ⟨payload, htoken, rfl, h⟩

/-- The apps, in declaration order, whose own client entry has the role `search`. -/
def grantedApps (resourceAccess : Json) : List String :=
  (knownClients.filter fun client => "search" ∈ rolesGranted resourceAccess client.1).map Prod.snd

theorem grantedApps_eq_nil_iff {resourceAccess : Json} :
    grantedApps resourceAccess = [] ↔
      ∀ client ∈ knownClients, "search" ∉ rolesGranted resourceAccess client.1 := by
  simp only [grantedApps, List.map_eq_nil_iff, List.filter_eq_nil_iff, decide_eq_true_eq]

/-- **The apps to search are the apps granted**: a permission stands for the role of
its own client's entry, however the roles are spelled. -/
theorem searchApps_eq_grantedApps {resourceAccess : Json} {context : AuthContext}
    (h : normalizePermissions resourceAccess = .ok context.permissions) :
    context.searchApps = grantedApps resourceAccess := by
  rw [AuthContext.searchApps, grantedApps, appNames, List.filter_map]
  apply congrArg (List.map Prod.snd)
  apply List.filter_congr
  intro client hclient
  -- a permission `<app>:search` can only come from the role `search` of that app's client
  rw [Function.comp_apply, decide_eq_decide, mem_of_normalizePermissions h]
  constructor
  · rintro ⟨client', hclient', role, hrole, heq⟩
    obtain ⟨happ, rfl⟩ := permission_inj
      (colon_notMem_appName _ (List.mem_map_of_mem hclient))
      (colon_notMem_appName _ (List.mem_map_of_mem hclient')) heq
    rwa [List.inj_on_of_nodup_map nodup_appNames hclient hclient' happ]
  · intro hrole
    exact ⟨client, hclient, "search", hrole, rfl⟩

/-! ### Refused headers -/

theorem permissionsOf_eq_error {members : List (String × Json)} {clients : List (String × String)}
    {e : Exn} (h : permissionsOf members clients = .error e) :
    ∃ reason, e = unauthorized reason := by
  induction clients with
  | nil => cases h
  | cons client clients ih =>
    rw [permissionsOf] at h
    split at h
    · exact ih h
    · exact ih h
    · split at h
      · cases h
        exact ⟨_, rfl⟩
      · cases hrest : permissionsOf members clients with
        | ok rest =>
          rw [hrest] at h
          cases h
        | error e' =>
          rw [hrest] at h
          cases h
          exact ih hrest

theorem normalizePermissions_eq_error {resourceAccess : Json} {e : Exn}
    (h : normalizePermissions resourceAccess = .error e) : ∃ reason, e = unauthorized reason := by
  cases resourceAccess with
  | obj members => exact permissionsOf_eq_error h
  | _ => cases h; exact ⟨_, rfl⟩

theorem originAppOf_eq_error {azp : Json} {e : Exn} (h : originAppOf azp = .error e) :
    (∃ reason, e = unauthorized reason) ∨ ∃ msg, e = .typeError msg := by
  cases azp with
  | str clientId =>
    rw [originAppOf] at h
    split at h
    · cases h
      exact Or.inl ⟨_, rfl⟩
    · cases h
  | arr items => cases h; exact Or.inr ⟨_, rfl⟩
  | obj members => cases h; exact Or.inr ⟨_, rfl⟩
  | _ => cases h; exact Or.inl ⟨_, rfl⟩

theorem bearerToken_eq_error {authorization : Option String} {e : Exn}
    (h : bearerToken authorization = .error e) : ∃ reason, e = unauthorized reason := by
  cases authorization with
  | none =>
    cases h
    exact ⟨_, rfl⟩
  | some header =>
    simp only [bearerToken] at h
    split at h <;> cases h
    exact ⟨_, rfl⟩

/-- What a header is refused with. -/
theorem getAuthContext_eq_error {decode : String → Except JwtError Payload}
    {authorization : Option String} {e : Exn}
    (h : getAuthContext decode authorization = .error e) :
    (∃ reason, e = unauthorized reason) ∨ ∃ msg, e = .typeError msg := by
  unfold getAuthContext at h
  rcases bind_eq_error_iff.mp h with h | ⟨token, -, h⟩
  · exact Or.inl (bearerToken_eq_error h)
  · cases hdecode : decode token with
    | error e' =>
      rw [hdecode] at h
      cases e' <;> cases h <;> exact Or.inl ⟨_, rfl⟩
    | ok payload =>
      rw [hdecode] at h
      unfold contextOf at h
      rcases bind_eq_error_iff.mp h with h | ⟨originApp, -, h⟩
      · exact originAppOf_eq_error h
      · rcases bind_eq_error_iff.mp h with h | ⟨permissions, -, h⟩
        · exact Or.inl (normalizePermissions_eq_error h)
        · cases h

end SnapSearch
