import SnapSearch.Auth

/-!
# Trusted tokens

Which headers `get_auth_context` accepts, and what it makes of the others.  A token
is trusted by what its claims are, said here without the code that reads them; any
other is to be answered with a 401 (`docs/JWT_STRUCTURE.md`).

The code looks `azp` up in a dictionary before anything is known of its type, and
a JSON array or object cannot be looked up: the lookup raises instead.

## Main definitions

* `Bearer` — a header that carries a token.
* `Grants` — the roles of a client's entry.
* `Payload.Says` — the claims of a trusted token, and the context they make.
* `AcceptsTrusted` — the trusted tokens are accepted, and the rest get a 401.

## Main results

* `contextOf_eq_ok_iff` — **the claims accepted are the trusted ones, and the context
  is what they say.**
* `acceptsTrusted_iff` — when that is so, and any other header gets a 401.
-/

namespace SnapSearch

open PyStr

/-! ### What a trusted token is -/

/-- A header that carries a token: the scheme before the first space is `bearer`
in any case, and the token after it is not empty. -/
def Bearer (authorization : Option String) (token : String) : Prop :=
  ∃ scheme : List Char, ' ' ∉ scheme ∧ scheme.map Char.toLower = "bearer".toList ∧
    token ≠ "" ∧ authorization = some (String.ofList (scheme ++ ' ' :: token.toList))

/-- The roles of a client: none where its entry is absent or null, and otherwise the
texts that its `roles` lists. -/
def Grants (resourceAccess : List (String × Json)) (clientId : String) (roles : List String) :
    Prop :=
  match resourceAccess.lookup clientId with
  | none => roles = []
  | some .null => roles = []
  | some (.obj entry) => entry.lookup "roles" = some (.arr (roles.map Json.str))
  | some _ => False

/-- The claims are those of a trusted token: a known client asked for it, and every
known client's entry is well formed.  The context holds what they say. -/
def Payload.Says (payload : Payload) (context : AuthContext) : Prop :=
  context.userId = payload.sub ∧
    (∃ clientId, payload.azp = .str clientId ∧ (clientId, context.originApp) ∈ knownClients) ∧
    ∃ members, payload.resourceAccess = .obj members ∧
      ∃ roles : String → List String,
        (∀ client ∈ knownClients, Grants members client.1 (roles client.1)) ∧
        context.permissions = knownClients.flatMap fun client =>
          (roles client.1).map fun role => client.2 ++ ":" ++ role

/-- The trusted tokens are accepted, with what they say, and every other header is
refused with a 401 that names the scheme. -/
def AcceptsTrusted (decode : String → Except JwtError Payload) (authorization : Option String) :
    Prop :=
  (∀ context, getAuthContext decode authorization = .ok context ↔
    ∃ token payload, Bearer authorization token ∧ decode token = .ok payload ∧
      payload.Says context) ∧
  ∀ e, getAuthContext decode authorization = .error e →
    ∃ reason, e = .httpException 401 reason [("WWW-Authenticate", "Bearer")]

/-! ### The header -/

theorem bearerToken_eq_ok_iff {authorization : Option String} {token : String} :
    bearerToken authorization = .ok token ↔ Bearer authorization token := by
  cases authorization with
  | none => simp [bearerToken, Bearer]
  | some header =>
    by_cases hspace : ' ' ∈ header.toList
    · obtain ⟨scheme, rest, hheader, hscheme⟩ := List.eq_append_cons_of_mem hspace
      rw [bearerToken, hheader]
      simp only [partition_append_cons hscheme]
      constructor
      · intro h
        split at h
        · cases h
        · next hok =>
          cases h
          rw [not_or, not_not] at hok
          refine ⟨scheme, hscheme, hok.1, ?_, ?_⟩
          · intro hempty
            exact hok.2 (by simpa using congrArg String.toList hempty)
          · rw [String.toList_ofList, ← hheader, String.ofList_toList]
      · rintro ⟨scheme', hscheme', hbearer, htoken, hheader'⟩
        -- the first space is where it is, so the parts are the same
        have hparts : scheme' = scheme ∧ token.toList = rest := by
          have hsplit := congrArg (partition ' ')
            (hheader.symm.trans (congrArg String.toList (Option.some.inj hheader')))
          rw [String.toList_ofList, partition_append_cons hscheme,
            partition_append_cons hscheme'] at hsplit
          simp only [Prod.mk.injEq] at hsplit
          exact ⟨hsplit.1.symm, hsplit.2.2.symm⟩
        obtain ⟨rfl, rfl⟩ := hparts
        rw [if_neg, String.ofList_toList]
        rw [not_or, not_not]
        exact ⟨hbearer, fun h => htoken (String.toList_inj.mp h)⟩
    · -- without a space the whole header is the scheme, and no token is left
      have hnone : bearerToken (some header) = .error (unauthorized "not authenticated") := by
        rw [bearerToken]
        simp only [partition_of_notMem hspace, or_true, if_true]
      rw [hnone]
      constructor
      · intro h
        cases h
      · intro h
        obtain ⟨scheme, -, -, -, hheader⟩ := h
        apply absurd _ hspace
        rw [Option.some.inj hheader]
        simp

/-- A header carries one token at most. -/
theorem Bearer.unique {authorization : Option String} {token token' : String}
    (h : Bearer authorization token) (h' : Bearer authorization token') : token = token' := by
  have htoken := bearerToken_eq_ok_iff.mpr h'
  rw [bearerToken_eq_ok_iff.mpr h] at htoken
  exact Except.ok.inj htoken

/-! ### The permissions -/

theorem allTexts_eq_some_iff {items : List Json} {texts : List String} :
    allTexts items = some texts ↔ items = texts.map Json.str := by
  induction items generalizing texts with
  | nil => cases texts <;> simp [allTexts]
  | cons item items ih =>
    cases item with
    | str s =>
      cases texts with
      | nil => simp [allTexts]
      | cons text texts => simp [allTexts, ih, and_comm]
    | _ => cases texts <;> simp [allTexts]

/-- The roles read from an entry are those it grants. -/
theorem grants_iff_rolesOf {members : List (String × Json)} {clientId : String} {access : Json}
    (hlookup : members.lookup clientId = some access) (hnull : access ≠ .null)
    {roles : List String} : Grants members clientId roles ↔ rolesOf access = some roles := by
  unfold Grants
  rw [hlookup]
  cases access with
  | null => exact absurd rfl hnull
  | obj entry =>
    simp only [rolesOf]
    split
    · next items hitems => rw [hitems, allTexts_eq_some_iff, Option.some.injEq, Json.arr.injEq]
    · next hitems =>
      rw [iff_false_right (by simp)]
      exact hitems _
  | _ => simp [rolesOf]

theorem rolesGranted_of_grants {members : List (String × Json)} {clientId : String}
    {roles : List String} (h : Grants members clientId roles) :
    rolesGranted (.obj members) clientId = roles := by
  cases hlookup : members.lookup clientId with
  | none =>
    rw [Grants, hlookup] at h
    simp [rolesGranted, hlookup, h]
  | some access =>
    by_cases hnull : access = .null
    · rw [Grants, hlookup, hnull] at h
      simp [rolesGranted, hlookup, hnull, rolesOf, h]
    · simp [rolesGranted, hlookup, (grants_iff_rolesOf hlookup hnull).mp h]

/-- The loop over the clients ends where every entry grants its roles. -/
theorem permissionsOf_eq_ok_iff {members : List (String × Json)} {clients : List (String × String)}
    {permissions : List String} :
    permissionsOf members clients = .ok permissions ↔
      (∀ client ∈ clients, Grants members client.1 (rolesGranted (.obj members) client.1)) ∧
        permissions = clients.flatMap fun client =>
          (rolesGranted (.obj members) client.1).map fun role => client.2 ++ ":" ++ role := by
  induction clients generalizing permissions with
  | nil => simp [permissionsOf, eq_comm]
  | cons client clients ih =>
    obtain ⟨clientId, appName⟩ := client
    rw [List.forall_mem_cons, List.flatMap_cons, permissionsOf]
    split
    · next hlookup =>
      have hgrants : Grants members clientId [] := by
        rw [Grants, hlookup]
      rw [ih, rolesGranted_of_grants hgrants]
      simp [hgrants]
    · next hlookup =>
      have hgrants : Grants members clientId [] := by
        rw [Grants, hlookup]
      rw [ih, rolesGranted_of_grants hgrants]
      simp [hgrants]
    · next access hnull hlookup =>
      have hiff : ∀ roles, Grants members clientId roles ↔ rolesOf access = some roles := by
        intro roles
        exact grants_iff_rolesOf hlookup hnull
      cases hroles : rolesOf access with
      | none =>
        have herror : ¬∃ roles, rolesOf access = some roles := by simp [hroles]
        constructor
        · intro h
          cases h
        · rintro ⟨⟨hgrants, -⟩, -⟩
          exact absurd ⟨_, (hiff _).mp hgrants⟩ herror
      | some roles =>
        have hgrants := (hiff roles).mpr hroles
        rw [rolesGranted_of_grants hgrants]
        cases hrest : permissionsOf members clients with
        | error e =>
          constructor
          · intro h
            cases h
          · rintro ⟨⟨-, hall⟩, -⟩
            -- the loop over the other clients would end
            have hok := ih.mpr ⟨hall, rfl⟩
            rw [hrest] at hok
            cases hok
        | ok rest =>
          obtain ⟨hall, rfl⟩ := ih.mp hrest
          simp only [Except.map, Except.ok.injEq]
          constructor
          · intro h
            exact ⟨⟨hgrants, hall⟩, h.symm⟩
          · intro h
            exact h.2.symm

theorem normalizePermissions_eq_ok_iff {resourceAccess : Json} {permissions : List String} :
    normalizePermissions resourceAccess = .ok permissions ↔
      ∃ members, resourceAccess = .obj members ∧ ∃ roles : String → List String,
        (∀ client ∈ knownClients, Grants members client.1 (roles client.1)) ∧
        permissions = knownClients.flatMap fun client =>
          (roles client.1).map fun role => client.2 ++ ":" ++ role := by
  cases resourceAccess with
  | obj members =>
    simp only [normalizePermissions, permissionsOf_eq_ok_iff, Json.obj.injEq, exists_eq_left']
    constructor
    · intro h
      obtain ⟨hall, hpermissions⟩ := h
      exact ⟨rolesGranted (.obj members), hall, hpermissions⟩
    · intro h
      obtain ⟨roles, hall, rfl⟩ := h
      -- an entry grants one list of roles only
      have hroles : ∀ client ∈ knownClients,
          rolesGranted (.obj members) client.1 = roles client.1 := by
        intro client hclient
        exact rolesGranted_of_grants (hall client hclient)
      refine ⟨?_, ?_⟩
      · intro client hclient
        rw [hroles client hclient]
        exact hall client hclient
      · rw [List.flatMap_congr]
        intro client hclient
        rw [hroles client hclient]
  | _ => simp [normalizePermissions]

/-! ### The context -/

theorem originAppOf_eq_ok_iff {azp : Json} {app : String} :
    originAppOf azp = .ok app ↔
      ∃ clientId, azp = .str clientId ∧ (clientId, app) ∈ knownClients := by
  have hnodup : (knownClients.map Prod.fst).Nodup := by decide
  cases azp with
  | str clientId =>
    simp only [originAppOf, Json.str.injEq, exists_eq_left']
    constructor
    · intro h
      split at h
      · cases h
      · next hlookup =>
        cases h
        exact mem_of_lookup_eq_some hlookup
    · intro h
      rw [lookup_eq_some_of_mem hnodup h]
  | _ => simp [originAppOf]

/-- **The claims accepted are the trusted ones**, and the context is what they say. -/
theorem contextOf_eq_ok_iff {payload : Payload} {context : AuthContext} :
    contextOf payload = .ok context ↔ payload.Says context := by
  simp only [contextOf, bind_eq_ok_iff, originAppOf_eq_ok_iff, normalizePermissions_eq_ok_iff]
  constructor
  · intro h
    obtain ⟨app, hazp, permissions, hpermissions, hcontext⟩ := h
    cases hcontext
    exact ⟨rfl, hazp, hpermissions⟩
  · intro h
    obtain ⟨huser, hazp, hpermissions⟩ := h
    refine ⟨_, hazp, _, hpermissions, ?_⟩
    rw [← huser]
    rfl

theorem getAuthContext_eq_ok_iff {decode : String → Except JwtError Payload}
    {authorization : Option String} {context : AuthContext} :
    getAuthContext decode authorization = .ok context ↔
      ∃ token payload, Bearer authorization token ∧ decode token = .ok payload ∧
        payload.Says context := by
  simp only [getAuthContext, bind_eq_ok_iff, bearerToken_eq_ok_iff]
  constructor
  · intro h
    obtain ⟨token, htoken, h⟩ := h
    cases hdecode : decode token with
    | error e =>
      rw [hdecode] at h
      cases e <;> cases h
    | ok payload =>
      rw [hdecode] at h
      exact ⟨token, payload, htoken, hdecode, contextOf_eq_ok_iff.mp h⟩
  · intro h
    obtain ⟨token, payload, htoken, hdecode, hsays⟩ := h
    refine ⟨token, htoken, ?_⟩
    rw [hdecode]
    exact contextOf_eq_ok_iff.mpr hsays

/-! ### Refused headers -/

/-- A JSON array or object, which no dictionary can be asked for. -/
def Json.Unhashable : Json → Prop
  | .arr _ => True
  | .obj _ => True
  | _ => False

theorem originAppOf_eq_error_iff {azp : Json} {e : Exn} (h : originAppOf azp = .error e) :
    azp.Unhashable ↔ ¬ ∃ reason, e = unauthorized reason := by
  cases azp with
  | str clientId =>
    rw [originAppOf] at h
    split at h <;> cases h
    simp [Json.Unhashable]
  | arr items => cases h; simp [Json.Unhashable, unauthorized]
  | obj members => cases h; simp [Json.Unhashable, unauthorized]
  | _ => cases h; simp [Json.Unhashable]

/-- What fails with anything but a 401 is the lookup of such a value. -/
theorem contextOf_eq_error_iff {payload : Payload} {e : Exn} (h : contextOf payload = .error e) :
    payload.azp.Unhashable ↔ ¬ ∃ reason, e = unauthorized reason := by
  unfold contextOf at h
  rw [bind_eq_error_iff] at h
  rcases h with h | ⟨app, happ, h⟩
  · exact originAppOf_eq_error_iff h
  · -- the client is known, so `azp` is a text
    obtain ⟨clientId, hazp, -⟩ := originAppOf_eq_ok_iff.mp happ
    rw [bind_eq_error_iff] at h
    rcases h with h | ⟨permissions, -, h⟩
    · simp [hazp, Json.Unhashable, normalizePermissions_eq_error h]
    · cases h

theorem getAuthContext_eq_error_iff {decode : String → Except JwtError Payload}
    {authorization : Option String} {e : Exn} (h : getAuthContext decode authorization = .error e) :
    (∃ token payload, Bearer authorization token ∧ decode token = .ok payload ∧
      payload.azp.Unhashable) ↔ ¬ ∃ reason, e = unauthorized reason := by
  unfold getAuthContext at h
  rw [bind_eq_error_iff] at h
  rcases h with h | ⟨token, htoken, h⟩
  · refine iff_of_false ?_ (not_not.mpr (bearerToken_eq_error h))
    rintro ⟨token, _, htoken, -⟩
    rw [bearerToken_eq_ok_iff.mpr htoken] at h
    cases h
  · rw [bearerToken_eq_ok_iff] at htoken
    cases hdecode : decode token with
    | error jwtError =>
      rw [hdecode] at h
      refine iff_of_false ?_ ?_
      · rintro ⟨token', payload, htoken', hdecode', -⟩
        rw [htoken'.unique htoken, hdecode] at hdecode'
        cases hdecode'
      · rw [not_not]
        cases jwtError <;> cases h <;> exact ⟨_, rfl⟩
    | ok payload =>
      rw [hdecode] at h
      rw [← contextOf_eq_error_iff h]
      constructor
      · rintro ⟨token', payload', htoken', hdecode', hazp⟩
        rw [htoken'.unique htoken, hdecode] at hdecode'
        cases hdecode'
        exact hazp
      · intro hazp
        exact ⟨token, payload, htoken, hdecode, hazp⟩

/-- **The trusted tokens are accepted and the rest get a 401** just where no accepted
header carries claims whose `azp` is an array or an object. -/
theorem acceptsTrusted_iff (decode : String → Except JwtError Payload)
    (authorization : Option String) :
    AcceptsTrusted decode authorization ↔
      ∀ token payload, Bearer authorization token → decode token = .ok payload →
        ¬ payload.azp.Unhashable := by
  constructor
  · intro haccepts token payload htoken hdecode hazp
    obtain ⟨hok, herror⟩ := haccepts
    cases h : getAuthContext decode authorization with
    | ok context =>
      -- an accepted token names a client, and that is a text
      obtain ⟨token', payload', htoken', hdecode', -, ⟨clientId, hazp', -⟩, -⟩ := (hok context).mp h
      rw [htoken'.unique htoken, hdecode] at hdecode'
      cases hdecode'
      rw [hazp'] at hazp
      exact hazp
    | error e =>
      exact (getAuthContext_eq_error_iff h).mp ⟨token, payload, htoken, hdecode, hazp⟩ (herror e h)
  · intro hazp
    refine ⟨fun _ => getAuthContext_eq_ok_iff, ?_⟩
    intro e h
    have hnot := not_congr (getAuthContext_eq_error_iff h)
    rw [not_not] at hnot
    apply hnot.mp
    rintro ⟨token, payload, htoken, hdecode, hunhashable⟩
    exact hazp token payload htoken hdecode hunhashable

/-- A token whose `azp` is a list with a known client in it. -/
def Payload.listAzp : Payload where
  sub := "00000000-0000-0000-0000-000000000007"
  azp := .arr [.str "investigator-api"]
  resourceAccess := .obj [("investigator-api", .obj [("roles", .arr [.str "search"])])]
  azp_ne := nofun
  resourceAccess_ne := nofun

/-- Such a token is answered with an exception that no handler turns into a 401. -/
theorem listAzp_not_unauthorized :
    ¬ AcceptsTrusted (fun _ => .ok Payload.listAzp) (some "Bearer t") := by
  rintro ⟨-, herror⟩
  have h : getAuthContext (fun _ => .ok Payload.listAzp) (some "Bearer t") =
      .error (.typeError "unhashable type: 'list'") := rfl
  obtain ⟨reason, hreason⟩ := herror _ h
  cases hreason

end SnapSearch
