import OaLibs.Auth.Jwt
import OaLibs.Common.AppError

/-!
# Request extractors

`extract.rs`: a handler that asks for an `AuthUser` gets the verified claims of the bearer token,
or the request is rejected; `OptionalAuthUser` never rejects.

A request is its method and its header fields; `toStr` stands for `HeaderValue::to_str`.
-/

namespace OaLibs

/-- HTTP methods. -/
inductive Method
  | get
  | head
  | options
  | post
  | put
  | patch
  | delete
  | connect
  | trace
  | extension (name : String)
  deriving DecidableEq

/-- A request: its method and its header fields, whose names are in lower case. -/
structure Request where
  method : Method
  headers : List (String × List UInt8)

/-- `headers.get(AUTHORIZATION)`: the first field of that name. -/
def Request.authorization (req : Request) : Option (List UInt8) :=
  req.headers.lookup "authorization"

/-- A service's way to check a token. -/
structure TokenVerifier where
  verifyToken : String → Except AppError Claims

/-- The verifier given by `decodeAccessToken`, with its errors turned into answers. -/
def TokenVerifier.ofDecode {Key : Type} (jwt : Jsonwebtoken Key) (key : Key) (issuer : String)
    (answer : JwtError → AppError) : TokenVerifier where
  verifyToken token := (decodeAccessToken jwt token key issuer).mapError answer

namespace Extract

variable (toStr : List UInt8 → Option String)

/-- The bearer token of a request; an empty one counts as absent. -/
def bearerToken (req : Request) : Option String := do
  let value ← req.authorization
  let text ← toStr value
  (Text.stripPrefix "Bearer " text).filter fun t => t ≠ ""

/-- The extractor of a handler that requires a login. -/
def authUser (verifier : TokenVerifier) (req : Request) : Except AppError Claims :=
  match bearerToken toStr req with
  | none => .error (.unauthorized "AUTH_MISSING_TOKEN" "缺少访问令牌")
  | some token => verifier.verifyToken token

/-- The extractor of a handler for which the login is optional. -/
def optionalAuthUser (verifier : TokenVerifier) (req : Request) : Option Claims :=
  (bearerToken toStr req).bind fun token => (verifier.verifyToken token).toOption

variable {toStr}

/-- A header value that is `Bearer`, a space and a token. -/
theorem bearerToken_of_header {req : Request} {value : List UInt8} {token : String}
    (hauth : req.authorization = some value) (hstr : toStr value = some ("Bearer " ++ token))
    (hne : token ≠ "") : bearerToken toStr req = some token := by
  simp only [bearerToken, hauth, hstr, Option.bind_eq_bind, Option.bind_some,
    Text.stripPrefix_append, Option.filter_eq_some_iff]
  exact ⟨trivial, decide_eq_true hne⟩

theorem authUser_ok_iff {verifier : TokenVerifier} {req : Request} {claims : Claims} :
    authUser toStr verifier req = .ok claims ↔
      ∃ token, bearerToken toStr req = some token ∧ verifier.verifyToken token = .ok claims := by
  unfold authUser
  cases bearerToken toStr req <;> simp

/-- The two extractors succeed together. -/
theorem authUser_ok_iff_optionalAuthUser {verifier : TokenVerifier} {req : Request}
    {claims : Claims} :
    authUser toStr verifier req = .ok claims ↔
      optionalAuthUser toStr verifier req = some claims := by
  rw [authUser_ok_iff, optionalAuthUser, Option.bind_eq_some_iff]
  refine exists_congr fun token => and_congr_right fun _ => ?_
  cases verifier.verifyToken token <;> simp [Except.toOption]

/-- With a verifier given by `decodeAccessToken`, the extractor accepts the tokens that it
accepts. -/
theorem authUser_ofDecode_ok_iff {Key : Type} {jwt : Jsonwebtoken Key} {key : Key}
    {issuer : String} {answer : JwtError → AppError} {req : Request} {claims : Claims} :
    authUser toStr (.ofDecode jwt key issuer answer) req = .ok claims ↔
      ∃ token, bearerToken toStr req = some token ∧
        decodeAccessToken jwt token key issuer = .ok claims := by
  rw [authUser_ok_iff]
  refine exists_congr fun token => and_congr_right fun _ => ?_
  simp only [TokenVerifier.ofDecode]
  cases decodeAccessToken jwt token key issuer <;> simp [Except.mapError]

end Extract

end OaLibs
