import OaLibs.Auth.Extract

/-!
# The bot guard

`guard.rs`: a middleware in front of the handlers. It reads the claims of the bearer token without
checking the signature, finds the payload as the second part from the left, and stops a bot that
lacks the permission for the module. Everything else goes on to the handler, which does its own
authentication.

`guard_agrees`: on every request that the handler would authenticate, the guard sees the same
claims and decides by the permission matrix.
-/

namespace OaLibs

namespace Guard

section

variable (url : Base64.Engine) (fromSlice : List UInt8 → Option Claims)
  (toStr : List UInt8 → Option String)

/-- The claims of a token, without verification. -/
def decodeClaimsUnverified (token : String) : Option Claims := do
  let payload ← (Text.split '.' token)[1]?
  let bytes ← url.decode payload
  fromSlice bytes

/-- Whether a method counts as a write. -/
def isWriteMethod : Method → Bool
  | .get | .head | .options => false
  | _ => true

/-- The bearer token of a request. -/
def bearerToken (req : Request) : Option String := do
  let value ← req.authorization
  let text ← toStr value
  Text.stripPrefix "Bearer " text

/-- The error of a denied request. -/
def forbiddenModule (module : String) (write : Bool) : AppError :=
  .forbidden "AUTH_FORBIDDEN_MODULE"
    ("Bot 无权" ++ (if write then "写入" else "读取") ++ "模块 " ++ module)

/-- The guard: the answer that stops the request, or the request handed to the next layer. -/
def guardBotRequest (req : Request) (module : String) : Except AppError Request :=
  -- what the guard cannot read it leaves to the extractor of the handler
  match bearerToken toStr req with
  | none => .ok req
  | some token =>
    match decodeClaimsUnverified url fromSlice token with
    | none => .ok req
    | some claims =>
      let write := isWriteMethod req.method
      if !claims.allowModule module write then .error (forbiddenModule module write)
      else .ok req

end

variable {url : Base64.Engine} {fromSlice : List UInt8 → Option Claims}
  {toStr : List UInt8 → Option String}

/-- The guard's bearer token is the extractor's, when that has one. -/
theorem bearerToken_of_extract {req : Request} {token : String}
    (h : Extract.bearerToken toStr req = some token) : bearerToken toStr req = some token := by
  simp only [Extract.bearerToken, Option.bind_eq_bind, Option.bind_eq_some_iff,
    Option.filter_eq_some_iff] at h
  obtain ⟨value, hvalue, text, htext, htoken, -⟩ := h
  simp only [bearerToken, hvalue, htext, Option.bind_eq_bind, Option.bind_some, htoken]

/-- The guard lets a request pass whose claims it can read exactly when they allow the operation. -/
theorem guardBotRequest_ok_iff {req : Request} {module token : String} {claims : Claims}
    (htoken : bearerToken toStr req = some token)
    (hclaims : decodeClaimsUnverified url fromSlice token = some claims) :
    guardBotRequest url fromSlice toStr req module = .ok req ↔
      claims.allowModule module (isWriteMethod req.method) = true := by
  unfold guardBotRequest
  simp only [htoken, hclaims]
  cases claims.allowModule module (isWriteMethod req.method) <;> simp

/-- The key of the permission matrix that a method needs. -/
def permissionKey : Method → String
  | .get | .head | .options => "read"
  | _ => "write"

theorem permissionKey_eq (method : Method) :
    permissionKey method = if isWriteMethod method then "write" else "read" := by
  cases method <;> rfl

/-- **The guard and the extractor never disagree about an authenticated request.** -/
theorem guard_agrees {Key : Type} (jwt : Jsonwebtoken Key)
    (hjwt : jwt.SplitsFromRight url fromSlice) (hdot : ∀ bytes, '.' ∉ (url.encode bytes).toList)
    (toStr : List UInt8 → Option String) (key : Key) (issuer : String)
    (answer : JwtError → AppError) (req : Request)
    (module : String) (claims : Claims) :
    (Extract.authUser toStr (.ofDecode jwt key issuer answer) req = .ok claims ↔
      Extract.optionalAuthUser toStr (.ofDecode jwt key issuer answer) req = some claims) ∧
    (Extract.authUser toStr (.ofDecode jwt key issuer answer) req = .ok claims →
      (bearerToken toStr req).bind (decodeClaimsUnverified url fromSlice) = some claims ∧
      (guardBotRequest url fromSlice toStr req module = .ok req ↔
        claims.accountType ≠ some "bot" ∨ claims.Grants module (permissionKey req.method))) := by
  refine ⟨Extract.authUser_ok_iff_optionalAuthUser, fun h => ?_⟩
  obtain ⟨token, htoken, hdecode⟩ := Extract.authUser_ofDecode_ok_iff.1 h
  obtain ⟨payload, bytes, hsecond, hbytes, hclaims⟩ :=
    payload_eq_second hjwt hdot (decodeAccessToken_ok_iff.1 hdecode)
  have hguard : bearerToken toStr req = some token := bearerToken_of_extract htoken
  have hunverified : decodeClaimsUnverified url fromSlice token = some claims := by
    simp only [decodeClaimsUnverified, hsecond, Option.bind_eq_bind, Option.bind_some, hbytes,
      hclaims]
  refine ⟨by rw [hguard, Option.bind_some, hunverified], ?_⟩
  rw [guardBotRequest_ok_iff hguard hunverified, claims.allowModule_iff, permissionKey_eq,
    claims.isBot_eq_false_iff]

/-! ### A bot that may read one module -/

/-- The claims of a bot that may read the module `task`. -/
def sampleBot : Claims where
  sub := "b1"
  name := "bot"
  avatar := none
  roles := []
  scopes := []
  guest := false
  accountType := some "bot"
  botPermissions := some (.object [("task", .object [("read", .bool true)])])
  iss := "i"
  iat := 1
  exp := 4102444800
  jti := "j"

/-- The JSON text of `sampleBot`. -/
def samplePayload : String :=
  "\x7b\"sub\":\"b1\",\"name\":\"bot\",\"account_type\":\"bot\",\"bot_permissions\":\x7b" ++
  "\"task\":\x7b\"read\":true\x7d\x7d,\"iss\":\"i\",\"iat\":1,\"exp\":4102444800,\"jti\":\"j\"\x7d"

/-- The header of its token. -/
def sampleHeader : String := "\x7b\"alg\":\"RS256\"\x7d"

/-- The RS256 signature of an RSA key under both. -/
def sampleSignature : List UInt8 :=
  [48, 89, 50, 190, 230, 13, 10, 157, 65, 103, 117, 35, 206, 19, 206, 14, 153, 74, 252, 2, 100,
    169, 34, 28, 72, 194, 201, 164, 73, 63, 20, 190, 84, 147, 70, 38, 210, 118, 46, 13, 230, 146,
    234, 235, 80, 211, 220, 24, 122, 127, 170, 153, 55, 98, 40, 3, 247, 150, 62, 27, 63, 238, 210,
    132, 105, 67, 132, 99, 2, 52, 40, 108, 172, 222, 13, 191, 239, 26, 63, 112, 179, 32, 3, 138,
    134, 39, 10, 212, 147, 185, 198, 11, 242, 154, 138, 214, 17, 51, 173, 15, 89, 99, 14, 11, 145,
    87, 69, 180, 41, 248, 32, 29, 155, 29, 88, 13, 221, 199, 150, 199, 164, 227, 198, 53, 159, 41,
    131, 81, 3, 139, 120, 139, 65, 91, 71, 109, 165, 251, 69, 77, 230, 51, 20, 125, 222, 117, 51,
    102, 96, 158, 247, 32, 36, 36, 240, 209, 7, 205, 97, 82, 216, 137, 167, 23, 68, 38, 255, 224,
    2, 175, 191, 11, 154, 38, 45, 93, 233, 126, 20, 20, 143, 24, 49, 177, 255, 81, 21, 9, 235,
    194, 231, 9, 53, 118, 53, 155, 71, 221, 211, 136, 202, 222, 159, 15, 178, 124, 136, 71, 183,
    103, 36, 106, 7, 189, 17, 172, 69, 125, 101, 234, 131, 56, 165, 92, 84, 207, 112, 67, 123, 56,
    159, 178, 55, 205, 125, 72, 57, 207, 91, 96, 129, 220, 81, 244, 123, 151, 108, 16, 182, 192,
    144, 222, 177, 194, 148, 153]

/-- The token of `sampleBot`. -/
def sampleToken : String :=
  Base64.urlSafeNoPad.encode (Text.utf8 sampleHeader) ++ "." ++
    (Base64.urlSafeNoPad.encode (Text.utf8 samplePayload) ++ "." ++
      Base64.urlSafeNoPad.encode sampleSignature)

/-- The table with one entry. -/
def single {α β : Type} [DecidableEq α] (a : α) (b : β) (x : α) : Option β :=
  if x = a then some b else none

theorem single_eq_some_iff {α β : Type} [DecidableEq α] {a x : α} {b y : β} :
    single a b x = some y ↔ x = a ∧ b = y := by
  unfold single
  split_ifs with h <;> simp [h]

/-- A decoder that accepts one token. -/
def sampleJwt : Jsonwebtoken Unit where
  decode token _ _ := ((single sampleToken sampleBot token).elim (.error .other) .ok)

/-- A reader of one JSON text. -/
def sampleFromSlice : List UInt8 → Option Claims := single (Text.utf8 samplePayload) sampleBot

/-- A reader of one header value. -/
def sampleToStr : List UInt8 → Option String :=
  single (Text.utf8 ("Bearer " ++ sampleToken)) ("Bearer " ++ sampleToken)

/-- A request with the token of `sampleBot`. -/
def sampleRequest (method : Method) : Request where
  method
  headers :=
    [("host", Text.utf8 "oa.test"), ("authorization", Text.utf8 ("Bearer " ++ sampleToken))]

theorem append_dot_append_ne_empty (a b : String) : a ++ "." ++ b ≠ "" := by
  intro h
  have hlist := congrArg String.toList h
  simp at hlist

theorem sampleToken_ne_empty : sampleToken ≠ "" := by
  unfold sampleToken
  exact append_dot_append_ne_empty _ _

theorem bearerToken_sampleRequest (method : Method) :
    Extract.bearerToken sampleToStr (sampleRequest method) = some sampleToken :=
  Extract.bearerToken_of_header rfl (single_eq_some_iff.2 ⟨rfl, rfl⟩) sampleToken_ne_empty

theorem sampleJwt_splits :
    sampleJwt.SplitsFromRight Base64.urlSafeNoPad sampleFromSlice := by
  intro token key validation claims h
  simp only [sampleJwt] at h
  cases hentry : single sampleToken sampleBot token with
  | none => simp [hentry] at h
  | some c =>
    obtain ⟨htoken, hc⟩ := single_eq_some_iff.1 hentry
    simp only [hentry, Option.elim_some, Except.ok.injEq] at h
    have hheader := Base64.urlSafeNoPad.decode_encode (Text.utf8 sampleHeader)
    exact ⟨_, _, _, htoken, Base64.dot_notMem_urlSafeNoPad _, Base64.dot_notMem_urlSafeNoPad _,
      by rw [hheader]; rfl, _, Base64.urlSafeNoPad.decode_encode _,
      single_eq_some_iff.2 ⟨rfl, hc.trans h⟩⟩

/-- The bot reads the module `task`, and is stopped when it writes to it. -/
theorem guard_agrees_sampleBot :
    guardBotRequest Base64.urlSafeNoPad sampleFromSlice sampleToStr (sampleRequest .get) "task" =
      .ok (sampleRequest .get) ∧
    guardBotRequest Base64.urlSafeNoPad sampleFromSlice sampleToStr (sampleRequest .post) "task" ≠
      .ok (sampleRequest .post) := by
  have hentry : single sampleToken sampleBot sampleToken = some sampleBot :=
    single_eq_some_iff.2 ⟨rfl, rfl⟩
  have hverify : decodeAccessToken sampleJwt sampleToken () "i" = .ok sampleBot :=
    decodeAccessToken_ok_iff.2 (by simp only [sampleJwt, hentry, Option.elim_some])
  have hagrees := fun method =>
    (guard_agrees sampleJwt sampleJwt_splits Base64.dot_notMem_urlSafeNoPad sampleToStr () "i"
      (fun e => .unauthorized "AUTH_INVALID_TOKEN" e.display) (sampleRequest method) "task"
      sampleBot).2
      (Extract.authUser_ofDecode_ok_iff.2
        ⟨sampleToken, bearerToken_sampleRequest method, hverify⟩)
  refine ⟨(hagrees .get).2.2 (Or.inr ⟨_, _, rfl, rfl, rfl⟩), fun h => ?_⟩
  rcases (hagrees .post).2.1 h with hbot | ⟨matrix, entry, hmatrix, hentry, hkey⟩
  · exact hbot rfl
  · cases hmatrix
    cases hentry
    cases hkey

end Guard

end OaLibs
