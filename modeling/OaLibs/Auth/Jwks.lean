import OaLibs.Auth.Wire
import OaLibs.Common.Mac

/-!
# Key sets

`jwks.rs`: the public keys of an issuer travel as a JSON document, and a verifier picks the key of
a token by its key id. The constructors of a decoding key are those of the `jsonwebtoken` crate,
which is a parameter.

* `Jwk`, `Jwks`: the document and its derived readers and writers;
* `decodingKeyFromJwks`: the choice of a key;
* `Jwks.deserialize_of_writes`: a document is read whatever the order of its members, and whatever
  else it holds;
* `selects_published_iff`: every published key is found under its own id exactly when the digests
  of different keys differ in their first 16 bytes;
* `verifies_published`: a token issued under a published key is verified through the document.
-/

namespace OaLibs

open Serde

/-! ### The document -/

/-- The public half of one RSA key. -/
structure Jwk where
  kty : String
  kid : String
  use_ : String
  alg : String
  n : String
  e : String
  deriving DecidableEq

/-- A set of keys. -/
structure Jwks where
  keys : List Jwk
  deriving DecidableEq

namespace Jwk

/-- The members that the reader knows. -/
def fields : List String := ["kty", "kid", "use", "alg", "n", "e"]

/-- The members of the object, in the order of the struct. -/
def members (jwk : Jwk) : List (String × Json) :=
  [("kty", .string jwk.kty), ("kid", .string jwk.kid), ("use", .string jwk.use_),
    ("alg", .string jwk.alg), ("n", .string jwk.n), ("e", .string jwk.e)]

def serialize (jwk : Jwk) : Json := .object jwk.members

/-- Reading an object: unknown members are ignored. -/
def visitMap (members : List (String × Json)) : Option Jwk := do
  let kty ← member "kty" Json.asStr none members
  let kid ← member "kid" Json.asStr none members
  let use_ ← member "use" Json.asStr none members
  let alg ← member "alg" Json.asStr none members
  let n ← member "n" Json.asStr none members
  let e ← member "e" Json.asStr none members
  return ⟨kty, kid, use_, alg, n, e⟩

/-- Reading an array. -/
def visitSeq : List Json → Option Jwk
  | [kty, kid, use_, alg, n, e] => do
    return ⟨← kty.asStr, ← kid.asStr, ← use_.asStr, ← alg.asStr, ← n.asStr, ← e.asStr⟩
  | _ => none

def deserialize : Json → Option Jwk
  | .object members => visitMap members
  | .array elems => visitSeq elems
  | _ => none

theorem visitMap_members (jwk : Jwk) : visitMap jwk.members = some jwk := by
  simp [visitMap, member, members, Json.asStr]

/-- One key is read back from any text that writes it. -/
theorem deserialize_of_writes {jwk : Jwk} {v : Json} (h : Writes fields jwk.members v) :
    deserialize v = some jwk := by
  obtain ⟨ms, rfl, hmember⟩ := h.member_eq
  rw [← visitMap_members jwk]
  simp only [deserialize, visitMap]
  rw [hmember "kty" _ _ (by decide), hmember "kid" _ _ (by decide), hmember "use" _ _ (by decide),
    hmember "alg" _ _ (by decide), hmember "n" _ _ (by decide), hmember "e" _ _ (by decide)]

end Jwk

namespace Jwks

/-- The members of the object. -/
def members (jwks : Jwks) : List (String × Json) := [("keys", vec Jwk.serialize jwks.keys)]

def serialize (jwks : Jwks) : Json := .object jwks.members

/-- Reading an object: unknown members are ignored. -/
def visitMap (members : List (String × Json)) : Option Jwks := do
  let keys ← member "keys" (asVec Jwk.deserialize) none members
  return ⟨keys⟩

/-- Reading an array. -/
def visitSeq : List Json → Option Jwks
  | [keys] => do return ⟨← asVec Jwk.deserialize keys⟩
  | _ => none

def deserialize : Json → Option Jwks
  | .object members => visitMap members
  | .array elems => visitSeq elems
  | _ => none

/-- A document that publishes these keys: the set and each key in it may have their members in any
order, and members of other names. -/
def WrittenAs (jwks : Jwks) (doc : Json) : Prop :=
  ∃ vs, List.Forall₂ (fun jwk v => Writes Jwk.fields jwk.members v) jwks.keys vs ∧
    Writes ["keys"] [("keys", .array vs)] doc

theorem writtenAs_serialize (jwks : Jwks) : jwks.WrittenAs jwks.serialize := by
  refine ⟨jwks.keys.map Jwk.serialize, ?_, writes_object _ _⟩
  rw [List.forall₂_map_right_iff]
  exact List.forall₂_same.2 fun jwk _ => writes_object _ _

/-- A document gives back the keys that it publishes. -/
theorem deserialize_of_writes {jwks : Jwks} {doc : Json} (h : jwks.WrittenAs doc) :
    deserialize doc = some jwks := by
  obtain ⟨vs, hvs, hdoc⟩ := h
  obtain ⟨ms, rfl, hmember⟩ := hdoc.member_eq
  have hread : asVec Jwk.deserialize (.array vs) = some jwks.keys :=
    asVec_of_forall₂ (hvs.imp fun _ _ hv => Jwk.deserialize_of_writes hv)
  simp only [deserialize, visitMap]
  rw [hmember "keys" _ _ (by decide)]
  simp [member, hread]

end Jwks

/-! ### Keys -/

/-- The constructors of a decoding key in the `jsonwebtoken` crate. -/
structure RsaKeys (Key : Type) where
  fromRsaPem : List UInt8 → Except String Key
  fromRsaComponents : String → String → Except String Key

/-- What the crate documents of components: both are base64url texts without padding, and the key
is made of the bytes that they stand for. -/
def RsaKeys.ReadsComponents {Key : Type} (rsa : RsaKeys Key)
    (ofComponents : List UInt8 → List UInt8 → Key) : Prop :=
  ∀ n e modulus exponent, Base64.urlSafeNoPad.decode n = some modulus →
    Base64.urlSafeNoPad.decode e = some exponent →
      rsa.fromRsaComponents n e = .ok (ofComponents modulus exponent)

/-- The id of a key: the first 16 bytes of the digest of its PEM text. -/
def keyIdFromPem (hs : Hashes) (publicPem : List UInt8) : String :=
  Base64.urlSafeNoPad.encode ((hs.sha256 publicPem).toList.take 16)

def jwkFromRsaPublicComponents (kid : String) (modulus exponent : List UInt8) : Jwk :=
  { kty := "RSA"
    kid
    use_ := "sig"
    alg := "RS256"
    n := Base64.urlSafeNoPad.encode modulus
    e := Base64.urlSafeNoPad.encode exponent }

section

variable {Key : Type} (rsa : RsaKeys Key)

def decodingKeyFromRsaPem (publicPem : List UInt8) : Except JwtError Key :=
  (rsa.fromRsaPem publicPem).mapError fun e => .invalid ("invalid pem: " ++ e)

/-- The key of one entry; only RSA is supported. -/
def decodingKeyFromJwk (jwk : Jwk) : Except JwtError Key :=
  if jwk.kty ≠ "RSA" then .error (.invalid ("unsupported kty: " ++ jwk.kty))
  else (rsa.fromRsaComponents jwk.n jwk.e).mapError fun e =>
    .invalid ("invalid rsa components: " ++ e)

/-- The key of an id, or the first one if there is no id. -/
def decodingKeyFromJwks (jwks : Jwks) (kid : Option String) : Except JwtError Key := do
  let jwk ← match kid with
    | some kid =>
      ((jwks.keys.find? fun k => k.kid == kid).elim
        (.error (.invalid ("kid not found: " ++ kid))) .ok : Except JwtError Jwk)
    | none => jwks.keys.head?.elim (.error (.invalid "empty jwks")) .ok
  decodingKeyFromJwk rsa jwk

/-- For an id, only the entries with that id count, and of these the first. -/
theorem decodingKeyFromJwks_some (jwks : Jwks) (kid : String) :
    decodingKeyFromJwks rsa jwks (some kid) =
      match jwks.keys.filter fun k => k.kid == kid with
      | [] => .error (.invalid ("kid not found: " ++ kid))
      | jwk :: _ => decodingKeyFromJwk rsa jwk := by
  unfold decodingKeyFromJwks
  simp only
  rw [← List.head?_filter]
  cases jwks.keys.filter fun k => k.kid == kid with
  | nil => rfl
  | cons jwk rest => rfl

/-- An id that no entry has is not replaced by another key. -/
theorem decodingKeyFromJwks_unknown {jwks : Jwks} {kid : String}
    (h : ∀ jwk ∈ jwks.keys, jwk.kid ≠ kid) :
    decodingKeyFromJwks rsa jwks (some kid) = .error (.invalid ("kid not found: " ++ kid)) := by
  have hnil : (jwks.keys.filter fun k => k.kid == kid) = [] := by
    rw [List.filter_eq_nil_iff]
    intro jwk hjwk
    simp [h jwk hjwk]
  rw [decodingKeyFromJwks_some, hnil]

end

/-! ### Published keys -/

/-- A public key of an issuer: its PEM text and its components. -/
structure PublicKey where
  pem : List UInt8
  modulus : List UInt8
  exponent : List UInt8

/-- The entry of a public key, under the id that is derived from it. -/
def PublicKey.jwk (hs : Hashes) (key : PublicKey) : Jwk :=
  jwkFromRsaPublicComponents (keyIdFromPem hs key.pem) key.modulus key.exponent

/-- The set of some public keys. -/
def published (hs : Hashes) (keys : List PublicKey) : Jwks := ⟨keys.map (PublicKey.jwk hs)⟩

/-- Two PEM texts have the same id if their digests agree in the first 16 bytes. -/
theorem keyIdFromPem_eq_iff {hs : Hashes} {pem pem' : List UInt8} :
    keyIdFromPem hs pem = keyIdFromPem hs pem' ↔
      (hs.sha256 pem).toList.take 16 = (hs.sha256 pem').toList.take 16 :=
  Base64.urlSafeNoPad.encode_injective.eq_iff

section

variable {Key : Type} {rsa : RsaKeys Key} {ofComponents : List UInt8 → List UInt8 → Key}
  {hs : Hashes}

/-- The entry of a public key gives the key made of its components. -/
theorem decodingKeyFromJwk_jwk (hrsa : rsa.ReadsComponents ofComponents) (key : PublicKey) :
    decodingKeyFromJwk rsa (key.jwk hs) = .ok (ofComponents key.modulus key.exponent) := by
  have hn := Base64.urlSafeNoPad.decode_encode key.modulus
  have he := Base64.urlSafeNoPad.decode_encode key.exponent
  have hkty : (key.jwk hs).kty = "RSA" := rfl
  have hkey : rsa.fromRsaComponents (key.jwk hs).n (key.jwk hs).e =
      .ok (ofComponents key.modulus key.exponent) := hrsa _ _ _ _ hn he
  rw [decodingKeyFromJwk, if_neg (not_not.2 hkty), hkey]
  rfl

variable (hs) in
/-- The key that is found under the id of a published key: the first one with that id. -/
theorem decodingKeyFromJwks_published (hrsa : rsa.ReadsComponents ofComponents)
    {keys : List PublicKey} {key : PublicKey} (hkey : key ∈ keys) :
    ∃ found ∈ keys, keyIdFromPem hs found.pem = keyIdFromPem hs key.pem ∧
      keys.find? (fun k => keyIdFromPem hs k.pem == keyIdFromPem hs key.pem) = some found ∧
      decodingKeyFromJwks rsa (published hs keys) (some (keyIdFromPem hs key.pem)) =
        .ok (ofComponents found.modulus found.exponent) := by
  have hsome : (keys.find? fun k => keyIdFromPem hs k.pem == keyIdFromPem hs key.pem).isSome := by
    rw [List.find?_isSome]
    exact ⟨key, hkey, beq_self_eq_true _⟩
  obtain ⟨found, hfound⟩ := Option.isSome_iff_exists.1 hsome
  have hid : keyIdFromPem hs found.pem = keyIdFromPem hs key.pem := by
    have hbeq := List.find?_some hfound
    exact eq_of_beq hbeq
  refine ⟨found, List.mem_of_find?_eq_some hfound, hid, hfound, ?_⟩
  have hjwk : ((published hs keys).keys.find? fun k => k.kid == keyIdFromPem hs key.pem) =
      some (found.jwk hs) := by
    show ((keys.map (PublicKey.jwk hs)).find? _) = _
    rw [List.find?_map]
    have hfound' : keys.find? ((fun k : Jwk => k.kid == keyIdFromPem hs key.pem) ∘
        PublicKey.jwk hs) = some found := hfound
    rw [hfound', Option.map_some]
  unfold decodingKeyFromJwks
  simp only
  rw [hjwk]
  exact decodingKeyFromJwk_jwk hrsa found

/-- **Every published key is found under its own id if and only if no other key, with other
components, has a digest with the same first 16 bytes.** An id that was not published is refused in
any case. -/
theorem selects_published_iff (hrsa : rsa.ReadsComponents ofComponents)
    (hinj : ∀ m e m' e', ofComponents m e = ofComponents m' e' → m = m' ∧ e = e')
    (keys : List PublicKey) (doc : Json) (hdoc : (published hs keys).WrittenAs doc) :
    ∃ jwks, Jwks.deserialize doc = some jwks ∧
      (∀ kid, (∀ key ∈ keys, keyIdFromPem hs key.pem ≠ kid) →
        decodingKeyFromJwks rsa jwks (some kid) =
          .error (.invalid ("kid not found: " ++ kid))) ∧
      ((∀ key ∈ keys, decodingKeyFromJwks rsa jwks (some (keyIdFromPem hs key.pem)) =
          .ok (ofComponents key.modulus key.exponent)) ↔
        ∀ key ∈ keys, ∀ key' ∈ keys,
          (hs.sha256 key.pem).toList.take 16 = (hs.sha256 key'.pem).toList.take 16 →
            key.modulus = key'.modulus ∧ key.exponent = key'.exponent) := by
  refine ⟨published hs keys, Jwks.deserialize_of_writes hdoc, fun kid hkid => ?_, ?_⟩
  · refine decodingKeyFromJwks_unknown rsa fun jwk hjwk => ?_
    obtain ⟨key, hkey, rfl⟩ := List.mem_map.1 hjwk
    exact hkid key hkey
  · constructor
    · intro h key hkey key' hkey' hdigest
      have hid := keyIdFromPem_eq_iff.2 hdigest
      have hfound := h key hkey
      rw [hid, h key' hkey', Except.ok.injEq] at hfound
      obtain ⟨hm, he⟩ := hinj _ _ _ _ hfound
      exact ⟨hm.symm, he.symm⟩
    · intro h key hkey
      obtain ⟨found, hfound, hid, -, hchoice⟩ := decodingKeyFromJwks_published hs hrsa hkey
      obtain ⟨hm, he⟩ := h found hfound key hkey (keyIdFromPem_eq_iff.1 hid)
      rw [hchoice, hm, he]

/-- **A token that is issued under one of the published keys is verified through any document that
publishes them**, whichever keys stand before and after it, unless another key has the same id: its
header tells the key. -/
theorem verifies_published {EncodingKey : Type} {jwt : Jsonwebtoken Key}
    {enc : JwtEncoder EncodingKey} {decodeHeader : String → Except JwtErrorKind Header}
    {serde : SerdeJson} {now : ℕ} (hrsa : rsa.ReadsComponents ofComponents)
    (keys : List PublicKey) (doc : Json) (hdoc : (published hs keys).WrittenAs doc)
    {key : PublicKey} (hkey : key ∈ keys)
    (hother : ∀ key' ∈ keys,
      (hs.sha256 key'.pem).toList.take 16 = (hs.sha256 key.pem).toList.take 16 →
        key'.modulus = key.modulus ∧ key'.exponent = key.exponent)
    {privatePem : List UInt8} {signing : EncodingKey}
    (hpem : enc.fromRsaPem privatePem = .ok signing) (c : Claims)
    (htransports : jwt.Transports enc serde now signing (ofComponents key.modulus key.exponent)
      { Header.new .rs256 with kid := some (keyIdFromPem hs key.pem) } c)
    (hheader : enc.ReadsHeader decodeHeader signing
      { Header.new .rs256 with kid := some (keyIdFromPem hs key.pem) } c)
    (hexp : now < c.exp.toInt) {text : String} (htext : serde.toString c.serialize = .ok text)
    (hserde : serde.RoundTrips c.serialize) :
    ∃ token header jwks decodingKey,
      encodeAccessToken enc c privatePem (keyIdFromPem hs key.pem) = .ok token ∧
      decodeHeader token = .ok header ∧ Jwks.deserialize doc = some jwks ∧
      decodingKeyFromJwks rsa jwks header.kid = .ok decodingKey ∧
      decodeAccessToken jwt token decodingKey c.iss = .ok c.dropNull := by
  obtain ⟨found, hfound, hid, -, hchoice⟩ := decodingKeyFromJwks_published hs hrsa hkey
  obtain ⟨hm, he⟩ := hother found hfound (keyIdFromPem_eq_iff.1 hid)
  rw [hm, he] at hchoice
  obtain ⟨token, htoken, hdecode⟩ := Claims.decode_encode c htransports hexp htext hserde hpem
  have hread := hheader token ((encodeAccessToken_ok_iff hpem).1 htoken)
  exact ⟨token, _, published hs keys, _, htoken, hread, Jwks.deserialize_of_writes hdoc, hchoice,
    hdecode⟩

end

/-! ### Two keys, the newer one first -/

/-- The bytes of a component. -/
def componentBytes (text : String) : List UInt8 := (Base64.urlSafeNoPad.decode text).getD []

/-- A key that is not in use yet. -/
def newerKey : PublicKey where
  pem := Claims.pemText "PUBLIC KEY" [
    "MIIBIjANBgkqhkiG9w0BAQEFAAOCAQ8AMIIBCgKCAQEArKp0nMqwWw9O+M/ks/Q3",
    "Rn7Qj2JSlDGdKj/3Cfw+SCvdaFv4oaabZXWcc5r4/qTsrC/Gc7lsdSFPv188nHUW",
    "YJcrafZH68k4Ndc6zLDRMvgSrTYt5tutARxATYowNar7+luiysar4HsjeV3VXXvj",
    "xx2bOuBaiZl9MLZqUkH+oPD8LUn2QHE+U4Zc3K4UCFMF9m5MrS76WuxuDeIi0zht",
    "+NRsvfLBYJW4Apts6Pco57alSBJgJ0RHgy+vGjwQzC4il4yOOQn+a5w0a012mu8i",
    "RLlGRJprTnb9+NlFpLPFeGxHAy3psVmloLOTBxfd05mdVZinBla8oJ6uiSkouw1j",
    "iQIDAQAB"]
  modulus := componentBytes (
    "rKp0nMqwWw9O-M_ks_Q3Rn7Qj2JSlDGdKj_3Cfw-SCvdaFv4oaabZXWcc5r4_qTsrC_Gc7lsdSFPv188nHUW" ++
    "YJcrafZH68k4Ndc6zLDRMvgSrTYt5tutARxATYowNar7-luiysar4HsjeV3VXXvjxx2bOuBaiZl9MLZqUkH-" ++
    "oPD8LUn2QHE-U4Zc3K4UCFMF9m5MrS76WuxuDeIi0zht-NRsvfLBYJW4Apts6Pco57alSBJgJ0RHgy-vGjwQ" ++
    "zC4il4yOOQn-a5w0a012mu8iRLlGRJprTnb9-NlFpLPFeGxHAy3psVmloLOTBxfd05mdVZinBla8oJ6uiSko" ++
    "uw1jiQ")
  exponent := componentBytes "AQAB"

/-- The digest of its PEM text. -/
def newerDigest : Vector UInt8 32 :=
  #v[68, 65, 92, 74, 56, 56, 36, 243, 239, 199, 68, 26, 129, 228, 236, 50, 244, 224, 224, 230,
    210, 172, 107, 155, 239, 43, 0, 134, 141, 111, 2, 194]

/-- The public half of `Claims.issuerPem`. -/
def olderKey : PublicKey where
  pem := Claims.pemText "PUBLIC KEY" [
    "MIIBIjANBgkqhkiG9w0BAQEFAAOCAQ8AMIIBCgKCAQEA5BxQ7LK+nIIHBwb8vmFG",
    "y4azrrRwkSXp9HaVS0YGJ5ykidnaqenZVEo363NenTmgaDFeM0KI95Ve4Xfev7K4",
    "wz4ecLY61CZ1JtM2R35f5DEdJ7uzj2j6Kfb3vso9axPS6KQk9Pfl61lkxniYIdtj",
    "a7i8hjMB5SLHq/I1hmeKAQ4nKPZckFULwjwsjrYMs9uyXqoAiRZRlj3F9rzCv5mS",
    "IF1JSy2B4tnKsaBZVjGExQRzn84RQIVUTOD57fHPeZIUvx/JrZT7wAhKtOBFue0P",
    "dGSdnWYmDn10I7nNGSnCTqteW/WLP2KJAAfiZ0PC5QUymwQELjgV4a6X3T8YtVtH",
    "uwIDAQAB"]
  modulus := componentBytes (
    "5BxQ7LK-nIIHBwb8vmFGy4azrrRwkSXp9HaVS0YGJ5ykidnaqenZVEo363NenTmgaDFeM0KI95Ve4Xfev7K4" ++
    "wz4ecLY61CZ1JtM2R35f5DEdJ7uzj2j6Kfb3vso9axPS6KQk9Pfl61lkxniYIdtja7i8hjMB5SLHq_I1hmeK" ++
    "AQ4nKPZckFULwjwsjrYMs9uyXqoAiRZRlj3F9rzCv5mSIF1JSy2B4tnKsaBZVjGExQRzn84RQIVUTOD57fHP" ++
    "eZIUvx_JrZT7wAhKtOBFue0PdGSdnWYmDn10I7nNGSnCTqteW_WLP2KJAAfiZ0PC5QUymwQELjgV4a6X3T8Y" ++
    "tVtHuw")
  exponent := componentBytes "AQAB"

/-- The digest of its PEM text. -/
def olderDigest : Vector UInt8 32 :=
  #v[137, 170, 235, 26, 231, 209, 12, 199, 107, 168, 35, 81, 117, 25, 50, 213, 210, 100, 169, 140,
    91, 107, 24, 109, 185, 231, 149, 35, 128, 202, 250, 58]

/-- A hash function with the values of SHA-256 on the PEM texts of both keys. -/
def pemHashes : Hashes where
  sha256 pem := if pem = olderKey.pem then olderDigest else newerDigest
  hmacSha256 _ message := message

/-- The constructors of a crate whose keys are pairs of components. -/
def pairRsa : RsaKeys (List UInt8 × List UInt8) where
  fromRsaPem _ := .error "InvalidKeyFormat"
  fromRsaComponents n e :=
    match Base64.urlSafeNoPad.decode n, Base64.urlSafeNoPad.decode e with
    | some modulus, some exponent => .ok (modulus, exponent)
    | _, _ => .error "Base64"

theorem pairRsa_reads : pairRsa.ReadsComponents Prod.mk := by
  intro n e modulus exponent hn he
  simp only [pairRsa, hn, he]

/-- The document of both keys; it also says when it was made. -/
def rotatedDoc : Json :=
  .object [("updated", .number (.posInt 1700000000)),
    ("keys", vec Jwk.serialize [newerKey.jwk pemHashes, olderKey.jwk pemHashes])]

theorem rotatedDoc_written : (published pemHashes [newerKey, olderKey]).WrittenAs rotatedDoc := by
  refine ⟨_, ?_, [("updated", .number (.posInt 1700000000)), _],
    [("updated", .number (.posInt 1700000000))], rfl, List.Perm.swap _ _ _, ?_⟩
  · exact .cons (writes_object _ _) (.cons (writes_object _ _) .nil)
  · intro kv hkv
    rw [List.mem_singleton.1 hkv]
    decide

theorem pemHashes_olderKey : pemHashes.sha256 olderKey.pem = olderDigest := by
  simp only [pemHashes, if_true]

theorem newerKey_pem_ne : newerKey.pem ≠ olderKey.pem := by
  intro h
  -- the first lines differ, and are of one length
  simp only [newerKey, olderKey, Claims.pemText, List.flatMap_cons, List.append_assoc] at h
  have hlines := List.append_inj_left (List.append_cancel_left h) (by decide)
  exact absurd (Text.utf8_injective hlines) (by decide)

theorem pemHashes_newerKey : pemHashes.sha256 newerKey.pem = newerDigest := by
  simp only [pemHashes, if_neg newerKey_pem_ne]

theorem digests_ne : (pemHashes.sha256 newerKey.pem).toList.take 16 ≠
    (pemHashes.sha256 olderKey.pem).toList.take 16 := by
  rw [pemHashes_newerKey, pemHashes_olderKey]
  decide

theorem selects_published_iff_rotated : ∃ jwks, Jwks.deserialize rotatedDoc = some jwks ∧
    decodingKeyFromJwks pairRsa jwks (some (keyIdFromPem pemHashes olderKey.pem)) =
      .ok (olderKey.modulus, olderKey.exponent) := by
  obtain ⟨jwks, hread, -, hiff⟩ := selects_published_iff pairRsa_reads
    (fun _ _ _ _ h => Prod.mk.inj h) [newerKey, olderKey] rotatedDoc rotatedDoc_written
  refine ⟨jwks, hread, hiff.2 ?_ olderKey (by simp)⟩
  intro key hkey key' hkey' h
  rcases List.mem_pair.1 hkey with rfl | rfl <;> rcases List.mem_pair.1 hkey' with rfl | rfl
  · exact ⟨rfl, rfl⟩
  · exact absurd h digests_ne
  · exact absurd h.symm digests_ne
  · exact ⟨rfl, rfl⟩

/-- A decoder that verifies the token of the member with the key that signed it. -/
def componentsDecoder : Jsonwebtoken (List UInt8 × List UInt8) where
  decode token key _ :=
    if key = (olderKey.modulus, olderKey.exponent) ∧ token = Claims.memberToken then
      .ok Claims.sampleMember
    else .error .other

/-- A reader of the header of that token. -/
def memberDecodeHeader (token : String) : Except JwtErrorKind Header :=
  if token = Claims.memberToken then .ok Claims.issuerHeader else .error .other

theorem keyIdFromPem_olderKey : keyIdFromPem pemHashes olderKey.pem = Claims.issuerKid := by
  rw [keyIdFromPem, pemHashes_olderKey]
  decide

theorem verifies_published_olderKey : ∃ token header jwks decodingKey,
    encodeAccessToken Claims.memberEncoder Claims.sampleMember Claims.issuerPem
      (keyIdFromPem pemHashes olderKey.pem) = .ok token ∧
    memberDecodeHeader token = .ok header ∧ Jwks.deserialize rotatedDoc = some jwks ∧
    decodingKeyFromJwks pairRsa jwks header.kid = .ok decodingKey ∧
    decodeAccessToken componentsDecoder token decodingKey "i" = .ok Claims.sampleMember := by
  have hmem : olderKey ∈ [newerKey, olderKey] := by simp
  have hexp : (0 : ℕ) < Claims.sampleMember.exp.toInt := by decide
  refine verifies_published pairRsa_reads [newerKey, olderKey] rotatedDoc rotatedDoc_written hmem
    ?_ Claims.memberEncoder_fromRsaPem Claims.sampleMember ?_ ?_ hexp rfl
    Claims.memberSerde_roundTrips
  · intro key hkey h
    rcases List.mem_pair.1 hkey with rfl | rfl
    · exact absurd h digests_ne
    · exact ⟨rfl, rfl⟩
  · rw [keyIdFromPem_olderKey]
    exact Claims.member_transports fun _ => by simp only [componentsDecoder, and_self, if_true]
  · rw [keyIdFromPem_olderKey]
    intro token htoken
    obtain rfl := Except.ok.inj (Claims.memberEncoder_encode.symm.trans htoken)
    simp only [memberDecodeHeader, if_true]
    rfl

end OaLibs
