import OaLibs.Auth.Claims
import OaLibs.Base.Base64
import OaLibs.Base.Text

/-!
# Access tokens

`jwt.rs` on top of the `jsonwebtoken` crate, which is a parameter here: a token is three base64url
parts separated by dots, and `Jsonwebtoken.SplitsFromRight` is what the crate documents of a token
that it accepts.
-/

namespace OaLibs

/-- Errors of `jwt.rs`. -/
inductive JwtError
  | expired
  | invalid (detail : String)
  | encoding (detail : String)
  deriving DecidableEq

/-- The `Display` text of an error. -/
def JwtError.display : JwtError → String
  | .expired => "token expired"
  | .invalid detail => "invalid token: " ++ detail
  | .encoding detail => "token encoding failed: " ++ detail

/-- Signature algorithms in use. -/
inductive Algorithm
  | rs256
  deriving DecidableEq

/-- What `jsonwebtoken` is asked to validate. -/
structure Validation where
  algorithm : Algorithm
  issuers : Option (List String)
  validateExp : Bool

def Validation.new (algorithm : Algorithm) : Validation :=
  { algorithm, issuers := none, validateExp := true }

/-- The error kinds of `jsonwebtoken` that `jwt.rs` tells apart. -/
inductive JwtErrorKind
  | expiredSignature
  | other

/-- The decoder of the `jsonwebtoken` crate, over its type of decoding keys. -/
structure Jsonwebtoken (Key : Type) where
  decode : String → Key → Validation → Except JwtErrorKind Claims

/-- A token that is accepted is split from the right into a signature, a payload and a header.
The header is a base64url text, and the claims are read from the JSON bytes of the payload. -/
def Jsonwebtoken.SplitsFromRight {Key : Type} (jwt : Jsonwebtoken Key) (url : Base64.Engine)
    (fromSlice : List UInt8 → Option Claims) : Prop :=
  ∀ token key validation claims, jwt.decode token key validation = .ok claims →
    ∃ header payload signature, token = header ++ "." ++ (payload ++ "." ++ signature) ∧
      '.' ∉ payload.toList ∧ '.' ∉ signature.toList ∧ (url.decode header).isSome ∧
      ∃ bytes, url.decode payload = some bytes ∧ fromSlice bytes = some claims

/-- The check of an access token: algorithm, signature, issuer and expiry. -/
def decodeAccessToken {Key : Type} (jwt : Jsonwebtoken Key) (token : String) (key : Key)
    (issuer : String) : Except JwtError Claims :=
  let validation := { Validation.new .rs256 with issuers := some [issuer], validateExp := true }
  match jwt.decode token key validation with
  | .ok claims => .ok claims
  | .error .expiredSignature => .error .expired
  | .error .other => .error (.invalid "token verification failed")

/-- Accepted tokens are those that the crate accepts. -/
theorem decodeAccessToken_ok_iff {Key : Type} {jwt : Jsonwebtoken Key} {token : String}
    {key : Key} {issuer : String} {claims : Claims} :
    decodeAccessToken jwt token key issuer = .ok claims ↔
      jwt.decode token key { Validation.new .rs256 with issuers := some [issuer] } =
        .ok claims := by
  unfold decodeAccessToken
  simp only
  constructor
  · intro h
    split at h
    · cases h; assumption
    · cases h
    · cases h
  · intro h
    have hvalidation : { Validation.new .rs256 with issuers := some [issuer] } =
        { Validation.new .rs256 with issuers := some [issuer], validateExp := true } := rfl
    rw [← hvalidation, h]

/-- The second part from the left of an accepted token is its payload: the header, being a base64url
text, contains no dot. -/
theorem payload_eq_second {Key : Type} {jwt : Jsonwebtoken Key} {url : Base64.Engine}
    {fromSlice : List UInt8 → Option Claims} (hjwt : jwt.SplitsFromRight url fromSlice)
    (hdot : ∀ bytes, '.' ∉ (url.encode bytes).toList) {token : String} {key : Key}
    {validation : Validation} {claims : Claims}
    (h : jwt.decode token key validation = .ok claims) :
    ∃ payload bytes, (Text.split '.' token)[1]? = some payload ∧ url.decode payload = some bytes ∧
      fromSlice bytes = some claims := by
  obtain ⟨header, payload, signature, rfl, hpayload, hsignature, hheader, bytes, hbytes, hclaims⟩ :=
    hjwt token key validation claims h
  obtain ⟨headerBytes, hheader⟩ := Option.isSome_iff_exists.1 hheader
  have hheaderDot : '.' ∉ header.toList := by
    rw [url.decode_eq_some_iff.1 hheader]
    exact hdot headerBytes
  refine ⟨payload, bytes, ?_, hbytes, hclaims⟩
  have hsep : "." = String.singleton '.' := rfl
  rw [hsep, Text.split_append_sep hheaderDot, Text.split_append_sep hpayload]
  rfl

end OaLibs
