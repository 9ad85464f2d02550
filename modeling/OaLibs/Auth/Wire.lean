import OaLibs.Auth.Jwt
import OaLibs.Bus.Message
import OaLibs.Common.Serde

/-!
# Access tokens on the wire

Claims are written as a JSON object and read back by the functions that serde derives from the
attributes of the struct. The token around the JSON text is the work of the `jsonwebtoken` crate.

* `Claims.serialize`, `Claims.deserialize`: the derived functions;
* `Claims.deserialize_serialize`: all that is lost is a permission matrix that is `null`;
* `encodeAccessToken`: issuing a token;
* `Transports`, `ReadsHeader`, `KeepsFields`: what is assumed of the two crates;
* `Claims.survives_iff`: which claims survive.
-/

namespace OaLibs

namespace Claims

open Serde

/-! ### The derived functions -/

/-- The members of the object, in the order of the struct. -/
def members (c : Claims) : List (String × Json) :=
  [("sub", .string c.sub), ("name", .string c.name)] ++
  optional "avatar" .string c.avatar ++
  [("roles", vec .string c.roles), ("scopes", vec .string c.scopes), ("guest", .bool c.guest)] ++
  optional "account_type" .string c.accountType ++
  optional "bot_permissions" id c.botPermissions ++
  [("iss", .string c.iss), ("iat", i64 c.iat), ("exp", i64 c.exp), ("jti", .string c.jti)]

def serialize (c : Claims) : Json := .object c.members

/-- Reading an object: unknown members are ignored. -/
def visitMap (members : List (String × Json)) : Option Claims := do
  let sub ← member "sub" Json.asStr none members
  let name ← member "name" Json.asStr none members
  -- an `Option` may be missing even without `#[serde(default)]`
  let avatar ← member "avatar" (asOption Json.asStr) (some none) members
  let roles ← member "roles" (asVec Json.asStr) (some []) members
  let scopes ← member "scopes" (asVec Json.asStr) (some []) members
  let guest ← member "guest" Json.asBool (some false) members
  let accountType ← member "account_type" (asOption Json.asStr) (some none) members
  let botPermissions ← member "bot_permissions" (asOption some) (some none) members
  let iss ← member "iss" Json.asStr none members
  let iat ← member "iat" asI64 none members
  let exp ← member "exp" asI64 none members
  let jti ← member "jti" Json.asStr none members
  return ⟨sub, name, avatar, roles, scopes, guest, accountType, botPermissions, iss, iat, exp, jti⟩

/-- Reading an array: only fields with a default may be missing at the end. -/
def visitSeq (elems : List Json) : Option Claims := do
  let (sub, elems) ← element Json.asStr none elems
  let (name, elems) ← element Json.asStr none elems
  let (avatar, elems) ← element (asOption Json.asStr) none elems
  let (roles, elems) ← element (asVec Json.asStr) (some []) elems
  let (scopes, elems) ← element (asVec Json.asStr) (some []) elems
  let (guest, elems) ← element Json.asBool (some false) elems
  let (accountType, elems) ← element (asOption Json.asStr) (some none) elems
  let (botPermissions, elems) ← element (asOption some) (some none) elems
  let (iss, elems) ← element Json.asStr none elems
  let (iat, elems) ← element asI64 none elems
  let (exp, elems) ← element asI64 none elems
  let (jti, elems) ← element Json.asStr none elems
  if elems.isEmpty then
    return ⟨sub, name, avatar, roles, scopes, guest, accountType, botPermissions, iss, iat, exp,
      jti⟩
  else none

def deserialize : Json → Option Claims
  | .object members => visitMap members
  | .array elems => visitSeq elems
  | _ => none

/-! ### Writing and reading back -/

/-- The claims without a permission matrix that is `null`. -/
def dropNull (c : Claims) : Claims :=
  match c.botPermissions with
  | some .null => { c with botPermissions := none }
  | _ => c

theorem dropNull_eq_self_iff (c : Claims) : c.dropNull = c ↔ c.botPermissions ≠ some .null := by
  unfold dropNull
  split
  · rename_i h
    refine ⟨fun heq => ?_, fun hne => absurd h hne⟩
    have hbot := congrArg botPermissions heq
    rw [h] at hbot
    cases hbot
  · rename_i h
    exact ⟨fun _ => h, fun _ => rfl⟩

/-- The field of the permission matrix: `null` is taken for a missing matrix. -/
theorem botPermissions_members (c : Claims) :
    member "bot_permissions" (asOption some) (some none) c.members =
      some c.dropNull.botPermissions := by
  cases h : c.botPermissions with
  | none => simp [member, members, h, dropNull]
  | some v => cases v <;> simp [member, members, h, dropNull, asOption]

theorem visitMap_members (c : Claims) : visitMap c.members = some c.dropNull := by
  have havatar : member "avatar" (asOption Json.asStr) (some none) c.members = some c.avatar := by
    cases h : c.avatar <;> simp [member, members, h, asOption, Json.asStr]
  have haccount : member "account_type" (asOption Json.asStr) (some none) c.members =
      some c.accountType := by
    cases h : c.accountType <;> simp [member, members, h, asOption, Json.asStr]
  have hothers : c.dropNull = { c with botPermissions := c.dropNull.botPermissions } := by
    unfold dropNull
    split <;> rfl
  rw [hothers]
  unfold visitMap
  rw [havatar, haccount, botPermissions_members]
  simp [member, members, Json.asStr, Json.asBool]

/-- Only a permission matrix that is `null` is lost, in whatever order the members are read. -/
theorem deserialize_serialize (c : Claims) {ms : List (String × Json)} (h : ms.Perm c.members) :
    deserialize (.object ms) = some c.dropNull := by
  have hmember : ∀ {α : Type} (name : String) (read : Json → Option α) (absent : Option α),
      member name read absent ms = member name read absent c.members := member_perm h
  rw [← visitMap_members c]
  simp only [deserialize, visitMap, hmember]

theorem get_iss (c : Claims) : c.serialize.get "iss" = some (.string c.iss) := by
  show c.members.lookup "iss" = _
  simp [members, List.lookup_append, lookup_optional, List.lookup]

theorem get_exp (c : Claims) : c.serialize.get "exp" = some (i64 c.exp) := by
  show c.members.lookup "exp" = _
  simp [members, List.lookup_append, lookup_optional, List.lookup]

theorem get_botPermissions (c : Claims) :
    c.serialize.get "bot_permissions" = c.botPermissions := by
  have hmatrix : (Serde.optional "bot_permissions" id c.botPermissions).lookup "bot_permissions" =
      c.botPermissions := by
    cases c.botPermissions <;> rfl
  show c.members.lookup "bot_permissions" = _
  simp [members, List.lookup_append, lookup_optional, List.lookup, hmatrix]

end Claims

/-! ### Tokens -/

/-- The header of a token. -/
structure Header where
  typ : Option String
  alg : Algorithm
  kid : Option String

def Header.new (alg : Algorithm) : Header := { typ := some "JWT", alg, kid := none }

/-- The encoder of the `jsonwebtoken` crate, over its type of encoding keys. -/
structure JwtEncoder (Key : Type) where
  fromRsaPem : List UInt8 → Except String Key
  encode : Header → Json → Key → Except String String

/-- Issue an access token. -/
def encodeAccessToken {Key : Type} (enc : JwtEncoder Key) (claims : Claims)
    (privatePem : List UInt8) (kid : String) : Except JwtError String :=
  match enc.fromRsaPem privatePem with
  | .error e => .error (.encoding e)
  | .ok key =>
      let header := { Header.new .rs256 with kid := some kid }
      match enc.encode header claims.serialize key with
      | .error e => .error (.encoding e)
      | .ok token => .ok token

/-- A payload that meets a validation at the second `now`: the issuer is one of those accepted, and
the expiry lies in the future. -/
structure Validation.Accepts (validation : Validation) (now : ℕ) (payload : Json) : Prop where
  issuer : ∀ issuers, validation.issuers = some issuers →
    ∃ iss ∈ issuers, payload.get "iss" = some (.string iss)
  exp : validation.validateExp = true →
    ∃ exp : UInt64, payload.get "exp" = some (.number (.posInt exp)) ∧ now < exp.toNat

/-- The crate transports claims under a header and a pair of keys: claims that can be printed are
signed, and the decoder reads them from the JSON text in the token, if that can be parsed. -/
def Jsonwebtoken.Transports {EncodingKey Key : Type} (jwt : Jsonwebtoken Key)
    (enc : JwtEncoder EncodingKey) (serde : SerdeJson) (now : ℕ) (key : EncodingKey)
    (decodingKey : Key) (header : Header) (c : Claims) : Prop :=
  ∀ text, serde.toString c.serialize = .ok text →
    ∃ token, enc.encode header c.serialize key = .ok token ∧
      ∀ validation, validation.algorithm = header.alg →
        (∀ json, serde.fromSlice (Text.utf8 text) = some json → validation.Accepts now json) →
        jwt.decode token decodingKey validation =
          ((serde.fromSlice (Text.utf8 text)).bind Claims.deserialize).elim (.error .other) .ok

/-- The crate reads back the header of a token that it made. -/
def JwtEncoder.ReadsHeader {EncodingKey : Type} (enc : JwtEncoder EncodingKey)
    (decodeHeader : String → Except JwtErrorKind Header) (key : EncodingKey) (header : Header)
    (c : Claims) : Prop :=
  ∀ token, enc.encode header c.serialize key = .ok token → decodeHeader token = .ok header

/-- With a private key that can be read, a token is what the crate makes of the claims. -/
theorem encodeAccessToken_ok_iff {EncodingKey : Type} {enc : JwtEncoder EncodingKey}
    {key : EncodingKey} {c : Claims} {privatePem : List UInt8} {kid token : String}
    (hpem : enc.fromRsaPem privatePem = .ok key) :
    encodeAccessToken enc c privatePem kid = .ok token ↔
      enc.encode { Header.new .rs256 with kid := some kid } c.serialize key = .ok token := by
  unfold encodeAccessToken
  simp only [hpem]
  cases enc.encode { Header.new .rs256 with kid := some kid } c.serialize key <;> simp

/-- Parsing printed claims changes at most the permission matrix: its floats may be rounded, and a
text that is nested too deep is refused. -/
def SerdeJson.KeepsFields (serde : SerdeJson) (c : Claims) : Prop :=
  ∀ text json, serde.toString c.serialize = .ok text →
    serde.fromSlice (Text.utf8 text) = some json →
      ∃ matrix : Option Json, matrix.isSome = c.botPermissions.isSome ∧
        json = { c with botPermissions := matrix }.serialize

theorem SerdeJson.RoundTrips.keepsFields {serde : SerdeJson} {c : Claims}
    (h : serde.RoundTrips c.serialize) : serde.KeepsFields c := by
  intro text json htext hjson
  rw [h text htext, Option.some.injEq] at hjson
  exact ⟨c.botPermissions, rfl, hjson.symm⟩

namespace Claims

/-- Written claims meet the validation of their own issuer, up to their expiry. -/
theorem accepts_serialize (c : Claims) {now : ℕ} (hexp : now < c.exp.toInt) :
    Validation.Accepts
      { Validation.new .rs256 with issuers := some [c.iss], validateExp := true } now
      c.serialize := by
  have hnat := Serde.toNat_toUInt64 (n := c.exp) (by omega)
  refine ⟨?_, fun _ => ⟨c.exp.toUInt64, ?_, by omega⟩⟩
  · rintro issuers ⟨⟩
    exact ⟨c.iss, List.mem_singleton_self _, c.get_iss⟩
  · rw [c.get_exp, Serde.i64, if_neg (by omega)]

/-- The claims that are read from a text with another matrix are the old ones if and only if the
matrix is not `null` and is not another one. -/
theorem dropNull_matrix_eq_iff (c : Claims) {matrix : Option Json}
    (hsome : matrix.isSome = c.botPermissions.isSome) :
    { c with botPermissions := matrix }.dropNull = c ↔
      c.botPermissions ≠ some .null ∧ matrix = c.botPermissions := by
  constructor
  · intro h
    have hbot := congrArg botPermissions h
    unfold dropNull at hbot
    split at hbot
    · -- a matrix that was read as `null` stands in the text
      rename_i hnull
      obtain rfl : matrix = some .null := hnull
      have hnone : none = c.botPermissions := hbot
      rw [← hnone] at hsome
      cases hsome
    · rename_i hnull
      obtain rfl : matrix = c.botPermissions := hbot
      exact ⟨hnull, rfl⟩
  · rintro ⟨hnull, rfl⟩
    exact (dropNull_eq_self_iff c).2 hnull

/-- The text shows the matrix. -/
theorem serialize_matrix_inj (c : Claims) {matrix : Option Json}
    (h : { c with botPermissions := matrix }.serialize = c.serialize) :
    matrix = c.botPermissions := by
  have hget := congrArg (Json.get "bot_permissions") h
  rwa [get_botPermissions, get_botPermissions] at hget

section

variable {EncodingKey Key : Type} {jwt : Jsonwebtoken Key} {enc : JwtEncoder EncodingKey}
  {serde : SerdeJson} {now : ℕ} {key : EncodingKey} {decodingKey : Key} {kid : String}

/-- A token gives back what can be read of the text in it. -/
theorem decode_encode_eq (c : Claims)
    (htransports : jwt.Transports enc serde now key decodingKey
      { Header.new .rs256 with kid := some kid } c)
    (hkeeps : serde.KeepsFields c) (hexp : now < c.exp.toInt) {text : String}
    (htext : serde.toString c.serialize = .ok text) {privatePem : List UInt8}
    (hpem : enc.fromRsaPem privatePem = .ok key) :
    ∃ token, encodeAccessToken enc c privatePem kid = .ok token ∧
      ∀ c', decodeAccessToken jwt token decodingKey c.iss = .ok c' ↔
        (serde.fromSlice (Text.utf8 text)).bind deserialize = some c' := by
  obtain ⟨token, htoken, hdecode⟩ := htransports text htext
  have haccepts : ∀ json, serde.fromSlice (Text.utf8 text) = some json →
      Validation.Accepts
        { Validation.new .rs256 with issuers := some [c.iss], validateExp := true } now json := by
    intro json hjson
    obtain ⟨matrix, -, rfl⟩ := hkeeps text json htext hjson
    exact accepts_serialize { c with botPermissions := matrix } hexp
  refine ⟨token, (encodeAccessToken_ok_iff hpem).2 htoken, fun c' => ?_⟩
  unfold decodeAccessToken
  simp only
  rw [hdecode _ rfl haccepts]
  cases (serde.fromSlice (Text.utf8 text)).bind deserialize <;> simp

/-- What a token gives back when the text is read as it was written. -/
theorem decode_encode (c : Claims)
    (htransports : jwt.Transports enc serde now key decodingKey
      { Header.new .rs256 with kid := some kid } c)
    (hexp : now < c.exp.toInt) {text : String} (htext : serde.toString c.serialize = .ok text)
    (hserde : serde.RoundTrips c.serialize) {privatePem : List UInt8}
    (hpem : enc.fromRsaPem privatePem = .ok key) :
    ∃ token, encodeAccessToken enc c privatePem kid = .ok token ∧
      decodeAccessToken jwt token decodingKey c.iss = .ok c.dropNull := by
  obtain ⟨token, htoken, hdecode⟩ :=
    decode_encode_eq c htransports hserde.keepsFields hexp htext hpem
  refine ⟨token, htoken, (hdecode c.dropNull).2 ?_⟩
  rw [hserde text htext, Option.bind_some]
  exact deserialize_serialize c (.refl _)

end

/-- **Claims survive the wire if and only if their permission matrix is not `null`** and, on the
way through a token, is read back from its text. -/
theorem survives_iff {EncodingKey Key : Type} (jwt : Jsonwebtoken Key)
    (enc : JwtEncoder EncodingKey) (serde : SerdeJson) (now : ℕ) (c : Claims) :
    (∀ ms : List (String × Json), ms.Perm c.members →
      (deserialize (.object ms) = some c ↔ c.botPermissions ≠ some .null)) ∧
    (serde.KeepsFields c → now < c.exp.toInt →
      (∃ text, serde.toString c.serialize = .ok text) →
      ∀ (privatePem : List UInt8) (key : EncodingKey) (kid : String) (decodingKey : Key)
        (issuer : String), enc.fromRsaPem privatePem = .ok key →
        jwt.Transports enc serde now key decodingKey
          { Header.new .rs256 with kid := some kid } c → c.iss = issuer →
        ∃ token, encodeAccessToken enc c privatePem kid = .ok token ∧
          (decodeAccessToken jwt token decodingKey issuer = .ok c ↔
            c.botPermissions ≠ some .null ∧ serde.RoundTrips c.serialize)) := by
  constructor
  · intro ms hperm
    rw [deserialize_serialize c hperm, Option.some.injEq, dropNull_eq_self_iff]
  · rintro hkeeps hexp ⟨text, htext⟩ privatePem key kid decodingKey issuer hpem htransports rfl
    obtain ⟨token, htoken, hdecode⟩ := decode_encode_eq c htransports hkeeps hexp htext hpem
    have hround : serde.RoundTrips c.serialize ↔
        serde.fromSlice (Text.utf8 text) = some c.serialize := by
      refine ⟨fun h => h text htext, fun h text' htext' => ?_⟩
      obtain rfl := Except.ok.inj (htext.symm.trans htext')
      exact h
    refine ⟨token, htoken, ?_⟩
    rw [hdecode, hround]
    cases hjson : serde.fromSlice (Text.utf8 text) with
    | none => simp
    | some json =>
      obtain ⟨matrix, hsome, rfl⟩ := hkeeps text json htext hjson
      have hread := deserialize_serialize { c with botPermissions := matrix } (.refl _)
      have hjson : deserialize { c with botPermissions := matrix }.serialize =
          some { c with botPermissions := matrix }.dropNull := hread
      rw [Option.bind_some, hjson, Option.some.injEq, Option.some.injEq,
        dropNull_matrix_eq_iff c hsome]
      refine and_congr_right fun _ => ⟨?_, serialize_matrix_inj c⟩
      rintro rfl
      rfl

/-! ### A member, and a bot without a matrix -/

/-- The claims of a member. -/
def sampleMember : Claims where
  sub := "u1"
  name := "member"
  avatar := none
  roles := ["member"]
  scopes := ["im"]
  guest := false
  accountType := none
  botPermissions := none
  iss := "i"
  iat := 1
  exp := 4102444800
  jti := "j"

/-- The JSON text of `sampleMember`. -/
def memberPayload : String :=
  "\x7b\"sub\":\"u1\",\"name\":\"member\",\"roles\":[\"member\"],\"scopes\":[\"im\"]," ++
  "\"guest\":false,\"iss\":\"i\",\"iat\":1,\"exp\":4102444800,\"jti\":\"j\"\x7d"

/-- A printer and parser of that text. -/
def memberSerde : SerdeJson where
  toString _ := .ok memberPayload
  fromSlice bytes :=
    if bytes = Text.utf8 memberPayload then some sampleMember.serialize else none

theorem memberSerde_roundTrips : memberSerde.RoundTrips sampleMember.serialize := by
  intro text htext
  obtain rfl := Except.ok.inj htext
  simp only [memberSerde, if_true]

/-- A PEM text. -/
def pemText (label : String) (lines : List String) : List UInt8 :=
  Text.utf8 ("-----BEGIN " ++ label ++ "-----\n") ++
    (lines.flatMap fun line => Text.utf8 (line ++ "\n")) ++
    Text.utf8 ("-----END " ++ label ++ "-----\n")

/-- The private key of an issuer. -/
def issuerPem : List UInt8 :=
  pemText "PRIVATE KEY" [
    "MIIEvQIBADANBgkqhkiG9w0BAQEFAASCBKcwggSjAgEAAoIBAQDkHFDssr6cggcH",
    "Bvy+YUbLhrOutHCRJen0dpVLRgYnnKSJ2dqp6dlUSjfrc16dOaBoMV4zQoj3lV7h",
    "d96/srjDPh5wtjrUJnUm0zZHfl/kMR0nu7OPaPop9ve+yj1rE9LopCT09+XrWWTG",
    "eJgh22NruLyGMwHlIser8jWGZ4oBDico9lyQVQvCPCyOtgyz27JeqgCJFlGWPcX2",
    "vMK/mZIgXUlLLYHi2cqxoFlWMYTFBHOfzhFAhVRM4Pnt8c95khS/H8mtlPvACEq0",
    "4EW57Q90ZJ2dZiYOfXQjuc0ZKcJOq15b9Ys/YokAB+JnQ8LlBTKbBAQuOBXhrpfd",
    "Pxi1W0e7AgMBAAECggEAA8e7OAV7P6eNobHxL+q/8nEcFp4Qq5StazuBrQnoJJh5",
    "MPaA0HKZXEFuLVPcZ2HJ2zqcTHwrHLB2xI/mC46SKOH42UysJdFoukCSiq649E77",
    "96PLTZEKbHBvdZwQmVMgn+xiteFWEvl9bM3hotXTiaJxgxlMeJa7uVy5yGUB3S87",
    "3gSGJGHIxA/OSHA8Ft6+6q2r974WvcDebcwMB0cffkDbxkJP10szEi6P2vcajd69",
    "9yDA5B9P+w2f1b7DJGBu//ov4GnHAndN/Rm1NGqPshpUsq4opaAg/IPEk7sNv7iy",
    "aE4ox4Gsgdikk5WnDmeVVXQu8NHSp9iHaPAsRCpgrQKBgQD5KfyxS5WZ7ZswkB+C",
    "N9Dl/t5+yypzDsO3VsyBD8+L9onmH83CVMdIvOlaVw+/s+qs+CsCMAlUALWfb28w",
    "Unx0UhOHevySZKyYQgZB41GbL7b/kQ6SNDLHu5Z1uRJA6Ojl94TyxYnntLdk/3f4",
    "2lKI1o8IqEWKepQLTiC5Qu+W9QKBgQDqXnWsQ6naL3V8WXOL3nXp5bCjDIS2cFNH",
    "wvFGxSrhHSHWZTDG2PFVrhZdNCqzqoLN94sdNKodfbS0DhPkzc7j+UTDAGdDVZNk",
    "dx1gp4ub/55Bf1O77w56jOKgaoOtUuukwyUcjd4EeTeuaoOl9DSjgdKq41nK9E8O",
    "1uJR+5ZV7wKBgQCOCsqchBtf6h2rfK4JvSogw8Axhj7H4uXeMeRZuxq1jrGkeAMD",
    "wvLs240oTDOVNMsXGk7ia2IV+mWP46X+ZTe/1D5/4LP1/OCL2C/bBe0yy+vGG/qz",
    "jIBabu1iZUQrrtt+pjGreMOaTOKz+BN70XJ1weM+qzchr6mQHFT5aFhPtQKBgHba",
    "Tkx8x98o4CieaFVPDHcAD1KwX4Dxd5pVxuu/w14D2wwRpunATKrJrPe5I8qXNtxi",
    "o7683WQ1QnVpCjenEztTRsapJrTj6eox6ckBTnBe8g9/FaSht7L4TVlSitJT0cJt",
    "YB2Z6DRWkKE3zOlU7XjZtk8JGpksygbZfE5dCsErAoGAeJtP5O3sTkIsy/718U8S",
    "1HGUs2pfNagSNYuymNHkZtkJFquIVqmovov4le0qKwokUeAhjp8AUKAOs4hu38jy",
    "ClmNkFwXf3pmR8gkY/sb6b3+7M+/jHdm2nldDE0P7ZJ9S4OJF+WYb4y5vn6PG7yz",
    "nQrS8w4RlYVLewDmzbaIPMI="]

/-- The id of its public key. -/
def issuerKid : String := "iarrGufRDMdrqCNRdRky1Q"

/-- The header of the tokens that it signs. -/
def issuerHeader : Header := { Header.new .rs256 with kid := some issuerKid }

/-- The JSON text of `issuerHeader`. -/
def headerText : String :=
  "\x7b\"typ\":\"JWT\",\"alg\":\"RS256\",\"kid\":\"iarrGufRDMdrqCNRdRky1Q\"\x7d"

/-- The RS256 signature of the key under the header and the claims of the member. -/
def memberSignature : List UInt8 :=
  [24, 251, 213, 212, 7, 226, 75, 245, 26, 37, 132, 154, 53, 250, 52, 245, 194, 139, 86, 131, 38,
    184, 177, 135, 145, 182, 62, 255, 1, 126, 80, 191, 135, 245, 72, 223, 40, 80, 134, 212, 225,
    248, 73, 14, 180, 48, 158, 22, 32, 61, 211, 17, 197, 131, 192, 57, 164, 5, 108, 84, 197, 221,
    161, 30, 83, 122, 156, 225, 47, 243, 246, 37, 149, 45, 48, 176, 246, 90, 3, 252, 111, 218,
    219, 153, 154, 122, 190, 14, 180, 71, 131, 98, 74, 111, 17, 77, 73, 107, 28, 202, 179, 133,
    56, 248, 191, 159, 157, 253, 242, 82, 240, 168, 125, 196, 35, 6, 92, 191, 239, 80, 173, 1, 58,
    201, 118, 100, 57, 184, 20, 118, 192, 171, 200, 31, 117, 248, 78, 68, 21, 168, 110, 8, 244,
    102, 103, 201, 160, 187, 249, 242, 79, 120, 135, 247, 149, 192, 211, 40, 7, 174, 90, 107, 14,
    150, 227, 113, 102, 221, 162, 119, 61, 85, 26, 241, 145, 218, 18, 44, 165, 121, 248, 23, 16,
    204, 58, 24, 149, 161, 255, 180, 137, 93, 63, 26, 145, 11, 41, 99, 196, 234, 172, 26, 160,
    171, 238, 59, 108, 234, 236, 27, 135, 148, 36, 144, 16, 107, 212, 46, 63, 160, 186, 12, 171,
    72, 39, 112, 115, 27, 149, 199, 33, 31, 212, 253, 232, 225, 80, 78, 105, 227, 244, 232, 20,
    238, 185, 252, 11, 130, 57, 132, 9, 174, 70, 200, 3, 144]

/-- The token of the member. -/
def memberToken : String :=
  Base64.urlSafeNoPad.encode (Text.utf8 headerText) ++ "." ++
    (Base64.urlSafeNoPad.encode (Text.utf8 memberPayload) ++ "." ++
      Base64.urlSafeNoPad.encode memberSignature)

/-- A crate that reads one private key and issues one token. -/
def memberEncoder : JwtEncoder Unit where
  fromRsaPem pem := if pem = issuerPem then .ok () else .error "InvalidKeyFormat"
  encode header _ _ :=
    if header.kid = some issuerKid then .ok memberToken else .error "InvalidKeyFormat"

theorem memberEncoder_fromRsaPem : memberEncoder.fromRsaPem issuerPem = .ok () := by
  simp only [memberEncoder, if_true]

/-- It verifies that token with the public half of the key. -/
def memberDecoder : Jsonwebtoken Unit where
  decode token _ _ := if token = memberToken then .ok sampleMember else .error .other

theorem memberEncoder_encode {json : Json} :
    memberEncoder.encode issuerHeader json () = .ok memberToken := by
  simp only [memberEncoder, issuerHeader, if_true]

/-- A decoder that accepts the token transports the claims in it. -/
theorem member_transports {Key : Type} {jwt : Jsonwebtoken Key} {decodingKey : Key} {now : ℕ}
    (h : ∀ validation, jwt.decode memberToken decodingKey validation = .ok sampleMember) :
    jwt.Transports memberEncoder memberSerde now () decodingKey issuerHeader sampleMember := by
  intro text htext
  refine ⟨memberToken, memberEncoder_encode, fun validation _ _ => ?_⟩
  have hread : deserialize sampleMember.serialize = some sampleMember.dropNull :=
    deserialize_serialize sampleMember (.refl _)
  rw [h validation, memberSerde_roundTrips text htext, Option.bind_some, hread]
  rfl

theorem survives_iff_sampleMember :
    ∃ token, encodeAccessToken memberEncoder sampleMember issuerPem issuerKid = .ok token ∧
      decodeAccessToken memberDecoder token () "i" = .ok sampleMember := by
  obtain ⟨token, htoken, hdecode⟩ :=
    (survives_iff memberDecoder memberEncoder memberSerde 0 sampleMember).2
      memberSerde_roundTrips.keepsFields (by decide) ⟨memberPayload, rfl⟩ issuerPem () issuerKid ()
      "i" memberEncoder_fromRsaPem
      (member_transports fun _ => by simp only [memberDecoder, if_true]) rfl
  exact ⟨token, htoken, hdecode.2 ⟨by rintro ⟨⟩, memberSerde_roundTrips⟩⟩

/-- The claims of a bot whose permission matrix is `null`. -/
def sampleNullBot : Claims :=
  { sampleMember with accountType := some "bot", botPermissions := some .null }

/-- The bot comes back without a matrix. -/
theorem sampleNullBot_lost : deserialize sampleNullBot.serialize ≠ some sampleNullBot := by
  intro h
  have hread := deserialize_serialize sampleNullBot (.refl _)
  have hbot : some sampleNullBot.dropNull = some sampleNullBot := hread.symm.trans h
  exact (dropNull_eq_self_iff sampleNullBot).1 (Option.some.inj hbot) rfl

end Claims

end OaLibs
