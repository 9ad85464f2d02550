import OaLibs.Auth.Guard
import OaLibs.Auth.Scopes
import OaLibs.Auth.Wire

/-!
# Access to a handler

A service puts the guard of its module in front of its handlers; a handler asks for an `AuthUser`
and then for roles and scopes. This file puts these parts together and follows a token from its
issue to the handler.

* `Requirement`, `serve`: the questions of a handler, and the way of a request through the layers;
* `serve_ok_iff`: which requests reach the handler, and with which claims;
* `serve_issued`: what a request with an issued token is allowed, in terms of the claims it was
  issued for.
-/

namespace OaLibs

namespace Access

/-- What a handler asks of an `AuthUser`. -/
inductive Requirement
  | role (name : String)
  | admin
  | scope (name : String)
  | resourceScope (kind id : String)

def Requirement.check (claims : Claims) : Requirement → Except AppError Unit
  | .role name => Extract.requireRole claims name
  | .admin => Extract.requireAdmin claims
  | .scope name => Extract.requireScope claims name
  | .resourceScope kind id => Extract.requireResourceScope claims kind id

/-- The claims have what is asked. -/
def Requirement.Met (claims : Claims) : Requirement → Prop
  | .role name => name ∈ claims.roles
  | .admin => "admin" ∈ claims.roles ∨ "superadmin" ∈ claims.roles
  | .scope name => name ∈ claims.scopes
  | .resourceScope kind id => kind ++ ":" ++ id ∈ claims.scopes

/-- The first requirement that is not met refuses. -/
def checkAll (claims : Claims) : List Requirement → Except AppError Unit
  | [] => .ok ()
  | r :: requirements => do
    r.check claims
    checkAll claims requirements

/-- The claims with which a request reaches the handler, or the error that answers it. -/
def serve (url : Base64.Engine) (fromSlice : List UInt8 → Option Claims)
    (toStr : List UInt8 → Option String) (verifier : TokenVerifier) (module : String)
    (requirements : List Requirement) (req : Request) : Except AppError Claims := do
  let req ← Guard.guardBotRequest url fromSlice toStr req module
  let claims ← Extract.authUser toStr verifier req
  checkAll claims requirements
  return claims

/-! ### Requests that reach the handler -/

theorem Requirement.check_ok_iff {claims : Claims} {r : Requirement} :
    r.check claims = .ok () ↔ r.Met claims := by
  cases r with
  | role name =>
    rw [Requirement.check, Extract.requireRole, Extract.require_ok_iff]
    simp [Claims.hasRole, Requirement.Met]
  | admin =>
    rw [Requirement.check, Extract.requireAdmin, Extract.require_ok_iff]
    simp [Claims.isAdmin, Claims.hasRole, Requirement.Met]
  | scope name =>
    rw [Requirement.check, Extract.requireScope, Extract.require_ok_iff, Claims.hasScope_iff,
      Requirement.Met]
  | resourceScope kind id =>
    rw [Requirement.check, Extract.requireResourceScope, Extract.require_ok_iff,
      Claims.hasResourceScope_iff, Requirement.Met]

theorem checkAll_ok_iff {claims : Claims} {requirements : List Requirement} :
    checkAll claims requirements = .ok () ↔ ∀ r ∈ requirements, r.Met claims := by
  induction requirements with
  | nil => simp [checkAll]
  | cons r requirements ih =>
    rw [checkAll, List.forall_mem_cons, ← ih, ← Requirement.check_ok_iff]
    cases r.check claims with
    | error e => simp [bind, Except.bind]
    | ok u => simp [bind, Except.bind]

section

variable {Key : Type} {jwt : Jsonwebtoken Key} {url : Base64.Engine}
  {fromSlice : List UInt8 → Option Claims} {toStr : List UInt8 → Option String} {key : Key}
  {issuer : String} {answer : JwtError → AppError} {req : Request} {module token : String}
  {claims : Claims} {requirements : List Requirement}

/-- On a request that the extractor accepts, the guard decides by the accepted claims. -/
theorem guard_of_decode (hjwt : jwt.SplitsFromRight url fromSlice)
    (hdot : ∀ bytes, '.' ∉ (url.encode bytes).toList)
    (htoken : Extract.bearerToken toStr req = some token)
    (hdecode : decodeAccessToken jwt token key issuer = .ok claims) :
    Guard.guardBotRequest url fromSlice toStr req module =
      if claims.allowModule module (Guard.isWriteMethod req.method) then .ok req
      else .error (Guard.forbiddenModule module (Guard.isWriteMethod req.method)) := by
  obtain ⟨payload, bytes, hsecond, hbytes, hclaims⟩ :=
    payload_eq_second hjwt hdot (decodeAccessToken_ok_iff.1 hdecode)
  have hunverified : Guard.decodeClaimsUnverified url fromSlice token = some claims := by
    simp only [Guard.decodeClaimsUnverified, hsecond, Option.bind_eq_bind, Option.bind_some,
      hbytes, hclaims]
  unfold Guard.guardBotRequest
  simp only [Guard.bearerToken_of_extract htoken, hunverified]
  cases claims.allowModule module (Guard.isWriteMethod req.method) <;> rfl

/-- The guard hands a request on as it is, or stops it. -/
theorem guard_eq_req {req' : Request}
    (h : Guard.guardBotRequest url fromSlice toStr req module = .ok req') : req' = req := by
  unfold Guard.guardBotRequest at h
  split at h
  · exact (Except.ok.inj h).symm
  · split at h
    · exact (Except.ok.inj h).symm
    · simp only at h
      split_ifs at h
      exact (Except.ok.inj h).symm

/-- The way of a request whose token is accepted. -/
theorem serve_of_decode (hjwt : jwt.SplitsFromRight url fromSlice)
    (hdot : ∀ bytes, '.' ∉ (url.encode bytes).toList)
    (htoken : Extract.bearerToken toStr req = some token)
    (hdecode : decodeAccessToken jwt token key issuer = .ok claims) :
    serve url fromSlice toStr (.ofDecode jwt key issuer answer) module requirements req =
      if claims.allowModule module (Guard.isWriteMethod req.method) then
        (checkAll claims requirements).map fun _ => claims
      else .error (Guard.forbiddenModule module (Guard.isWriteMethod req.method)) := by
  have hauth : Extract.authUser toStr (.ofDecode jwt key issuer answer) req = .ok claims :=
    Extract.authUser_ofDecode_ok_iff.2 ⟨token, htoken, hdecode⟩
  rw [serve, guard_of_decode hjwt hdot htoken hdecode]
  split_ifs
  · simp only [bind, Except.bind, hauth]
    cases checkAll claims requirements <;> rfl
  · rfl

theorem serve_of_decode_ok_iff (hjwt : jwt.SplitsFromRight url fromSlice)
    (hdot : ∀ bytes, '.' ∉ (url.encode bytes).toList)
    (htoken : Extract.bearerToken toStr req = some token)
    (hdecode : decodeAccessToken jwt token key issuer = .ok claims) {claims' : Claims} :
    serve url fromSlice toStr (.ofDecode jwt key issuer answer) module requirements req =
        .ok claims' ↔
      claims' = claims ∧
      (claims.accountType ≠ some "bot" ∨
        claims.Grants module (Guard.permissionKey req.method)) ∧
      ∀ r ∈ requirements, r.Met claims := by
  rw [serve_of_decode hjwt hdot htoken hdecode, ← claims.isBot_eq_false_iff,
    Guard.permissionKey_eq, ← claims.allowModule_iff, ← checkAll_ok_iff]
  by_cases hallow : claims.allowModule module (Guard.isWriteMethod req.method) = true
  · rw [if_pos hallow]
    cases checkAll claims requirements with
    | error e => simp [Except.map]
    | ok u => simp [Except.map, hallow, eq_comm]
  · simp [hallow]

/-- **A request reaches the handler with some claims if and only if its token is accepted with
these claims, they are not those of a bot without the permission, and they meet every
requirement.** Whatever the guard reads in a token that is not accepted opens nothing. -/
theorem serve_ok_iff (hjwt : jwt.SplitsFromRight url fromSlice)
    (hdot : ∀ bytes, '.' ∉ (url.encode bytes).toList) (toStr : List UInt8 → Option String)
    (key : Key) (issuer : String) (answer : JwtError → AppError) (module : String)
    (requirements : List Requirement) (req : Request) (claims : Claims) :
    serve url fromSlice toStr (.ofDecode jwt key issuer answer) module requirements req =
        .ok claims ↔
      (∃ token, Extract.bearerToken toStr req = some token ∧
        decodeAccessToken jwt token key issuer = .ok claims) ∧
      (claims.accountType ≠ some "bot" ∨
        claims.Grants module (Guard.permissionKey req.method)) ∧
      ∀ r ∈ requirements, r.Met claims := by
  constructor
  · intro h
    have hauth : ∃ token claims', Extract.bearerToken toStr req = some token ∧
        decodeAccessToken jwt token key issuer = .ok claims' := by
      cases hguard : Guard.guardBotRequest url fromSlice toStr req module with
      | error e => simp [serve, hguard, bind, Except.bind] at h
      | ok req' =>
        obtain rfl := guard_eq_req hguard
        cases hauth : Extract.authUser toStr (.ofDecode jwt key issuer answer) req' with
        | error e => simp [serve, hguard, hauth, bind, Except.bind] at h
        | ok claims' =>
          obtain ⟨token, htoken, hdecode⟩ := Extract.authUser_ofDecode_ok_iff.1 hauth
          exact ⟨token, claims', htoken, hdecode⟩
    obtain ⟨token, claims', htoken, hdecode⟩ := hauth
    obtain ⟨rfl, hallow, hmet⟩ := (serve_of_decode_ok_iff hjwt hdot htoken hdecode).1 h
    exact ⟨⟨token, htoken, hdecode⟩, hallow, hmet⟩
  · rintro ⟨⟨token, htoken, hdecode⟩, hallow, hmet⟩
    exact (serve_of_decode_ok_iff hjwt hdot htoken hdecode).2 ⟨rfl, hallow, hmet⟩

end

/-! ### From the issue of a token to the handler -/

section

variable (c : Claims)

@[simp] theorem accountType_dropNull : c.dropNull.accountType = c.accountType := by
  unfold Claims.dropNull
  split <;> rfl

@[simp] theorem roles_dropNull : c.dropNull.roles = c.roles := by
  unfold Claims.dropNull
  split <;> rfl

@[simp] theorem scopes_dropNull : c.dropNull.scopes = c.scopes := by
  unfold Claims.dropNull
  split <;> rfl

theorem met_dropNull (r : Requirement) : r.Met c.dropNull ↔ r.Met c := by
  cases r <;> simp [Requirement.Met]

/-- A matrix that is `null` grants as little as none. -/
theorem grants_dropNull (module key : String) :
    c.dropNull.Grants module key ↔ c.Grants module key := by
  unfold Claims.dropNull
  split
  · rename_i hnull
    simp [Claims.Grants, hnull]
  · rfl

end

/-- **What a request with an issued token is allowed is decided by the claims it was issued for.**
The handler gets these claims, a matrix that is `null` aside, and a bot without the permission is
answered by the guard. -/
theorem serve_issued {EncodingKey Key : Type} {jwt : Jsonwebtoken Key}
    {enc : JwtEncoder EncodingKey} {serde : SerdeJson} {now : ℕ}
    {fromSlice : List UInt8 → Option Claims} {toStr : List UInt8 → Option String}
    (hjwt : jwt.SplitsFromRight Base64.urlSafeNoPad fromSlice) (c : Claims)
    (hexp : now < c.exp.toInt) {text : String} (htext : serde.toString c.serialize = .ok text)
    (hserde : serde.RoundTrips c.serialize) {privatePem : List UInt8} {signing : EncodingKey}
    (hpem : enc.fromRsaPem privatePem = .ok signing) {key : Key} {kid token : String}
    (htransports : jwt.Transports enc serde now signing key
      { Header.new .rs256 with kid := some kid } c)
    (hissued : encodeAccessToken enc c privatePem kid = .ok token)
    (req : Request) {value : List UInt8} (hvalue : req.authorization = some value)
    (hbearer : toStr value = some ("Bearer " ++ token)) (answer : JwtError → AppError)
    (module : String) (requirements : List Requirement) :
    (∀ claims, serve Base64.urlSafeNoPad fromSlice toStr (.ofDecode jwt key c.iss answer) module
        requirements req = .ok claims ↔
      claims = c.dropNull ∧
      (c.accountType ≠ some "bot" ∨ c.Grants module (Guard.permissionKey req.method)) ∧
      ∀ r ∈ requirements, r.Met c) ∧
    (c.accountType = some "bot" → ¬ c.Grants module (Guard.permissionKey req.method) →
      serve Base64.urlSafeNoPad fromSlice toStr (.ofDecode jwt key c.iss answer) module
        requirements req =
          .error (Guard.forbiddenModule module (Guard.isWriteMethod req.method))) := by
  have hdot := Base64.dot_notMem_urlSafeNoPad
  have hdecode : decodeAccessToken jwt token key c.iss = .ok c.dropNull := by
    obtain ⟨token', htoken', hdecode⟩ :=
      Claims.decode_encode c htransports hexp htext hserde hpem
    rw [hissued, Except.ok.injEq] at htoken'
    rw [htoken', hdecode]
  -- an accepted token has dots in it
  have hne : token ≠ "" := by
    obtain ⟨header, payload, signature, htoken, -⟩ :=
      hjwt token key _ _ (decodeAccessToken_ok_iff.1 hdecode)
    rw [htoken]
    intro hempty
    have hlist := congrArg String.toList hempty
    simp at hlist
  have htoken : Extract.bearerToken toStr req = some token :=
    Extract.bearerToken_of_header hvalue hbearer hne
  constructor
  · intro claims
    rw [serve_of_decode_ok_iff hjwt hdot htoken hdecode, accountType_dropNull, grants_dropNull]
    simp only [met_dropNull]
  · intro hbot hgrants
    rw [serve_of_decode hjwt hdot htoken hdecode, if_neg]
    rw [Claims.allowModule_iff, Claims.isBot_eq_false_iff, ← Guard.permissionKey_eq,
      accountType_dropNull, grants_dropNull]
    exact not_or.2 ⟨not_not.2 hbot, hgrants⟩

/-! ### A member of the club asks for the chat -/

/-- A reader of claims. -/
def memberFromSlice (bytes : List UInt8) : Option Claims :=
  (Claims.memberSerde.fromSlice bytes).bind Claims.deserialize

theorem memberFromSlice_memberPayload :
    memberFromSlice (Text.utf8 Claims.memberPayload) = some Claims.sampleMember := by
  have hread : Claims.deserialize Claims.sampleMember.serialize =
      some Claims.sampleMember.dropNull := Claims.deserialize_serialize _ (.refl _)
  rw [memberFromSlice, Claims.memberSerde_roundTrips _ rfl, Option.bind_some, hread]
  rfl

theorem memberDecoder_splits :
    Claims.memberDecoder.SplitsFromRight Base64.urlSafeNoPad memberFromSlice := by
  intro token key validation claims h
  simp only [Claims.memberDecoder] at h
  split_ifs at h with htoken
  obtain rfl := Except.ok.inj h
  have hheader := Base64.urlSafeNoPad.decode_encode (Text.utf8 Claims.headerText)
  exact ⟨_, _, _, htoken, Base64.dot_notMem_urlSafeNoPad _,
    Base64.dot_notMem_urlSafeNoPad _, by rw [hheader]; rfl, _,
    Base64.urlSafeNoPad.decode_encode _, memberFromSlice_memberPayload⟩

/-- A request with the token of the member. -/
def memberRequest : Request where
  method := .post
  headers := [("authorization", Text.utf8 ("Bearer " ++ Claims.memberToken))]

/-- A reader of that header value. -/
def memberToStr : List UInt8 → Option String :=
  Guard.single (Text.utf8 ("Bearer " ++ Claims.memberToken)) ("Bearer " ++ Claims.memberToken)

theorem serve_issued_member :
    serve Base64.urlSafeNoPad memberFromSlice memberToStr
      (.ofDecode Claims.memberDecoder () "i" fun e => .unauthorized "AUTH_INVALID_TOKEN" e.display)
      "im" [.role "member", .scope "im"] memberRequest = .ok Claims.sampleMember := by
  have hissued : encodeAccessToken Claims.memberEncoder Claims.sampleMember Claims.issuerPem
      Claims.issuerKid = .ok Claims.memberToken :=
    (encodeAccessToken_ok_iff Claims.memberEncoder_fromRsaPem).2 Claims.memberEncoder_encode
  have hstr : memberToStr (Text.utf8 ("Bearer " ++ Claims.memberToken)) =
      some ("Bearer " ++ Claims.memberToken) := Guard.single_eq_some_iff.2 ⟨rfl, rfl⟩
  have hexp : (0 : ℕ) < Claims.sampleMember.exp.toInt := by decide
  refine ((serve_issued memberDecoder_splits Claims.sampleMember hexp rfl
    Claims.memberSerde_roundTrips Claims.memberEncoder_fromRsaPem
    (Claims.member_transports fun _ => by simp only [Claims.memberDecoder, if_true]) hissued
    memberRequest rfl hstr _ "im" [.role "member", .scope "im"]).1 Claims.sampleMember).2
    ⟨rfl, .inl (by decide), ?_⟩
  intro r hr
  rcases List.mem_pair.1 hr with rfl | rfl
  · exact List.mem_singleton_self _
  · exact List.mem_singleton_self _

/-- The member is no administrator, and is not let in where one is asked for. -/
theorem serve_ok_iff_member :
    serve Base64.urlSafeNoPad memberFromSlice memberToStr
      (.ofDecode Claims.memberDecoder () "i" fun e => .unauthorized "AUTH_INVALID_TOKEN" e.display)
      "im" [.admin] memberRequest ≠ .ok Claims.sampleMember := by
  intro h
  have hmet := ((serve_ok_iff memberDecoder_splits Base64.dot_notMem_urlSafeNoPad _ _ _ _ _ _ _
    _).1 h).2.2 .admin (List.mem_singleton_self _)
  exact absurd hmet (by simp [Requirement.Met, Claims.sampleMember])

end Access

end OaLibs
