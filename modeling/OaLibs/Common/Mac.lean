import OaLibs.Base.Base64
import OaLibs.Base.Text

/-!
# Message authentication

`Hashes` stands for the `sha2` and `hmac` crates. A signature is the base64 text of a tag; it is
checked by decoding it and comparing the bytes with the tag computed afresh.

The tag has no fixed length here: the results about binding assume that the keyed function is
injective on messages, which no function into 32 bytes is.
-/

namespace OaLibs

/-- The hash functions. -/
structure Hashes where
  sha256 : List UInt8 → Vector UInt8 32
  hmacSha256 : List UInt8 → List UInt8 → List UInt8

/-- The tag of a text under a secret. -/
def Hashes.macFor (hs : Hashes) (secret : List UInt8) (message : String) : List UInt8 :=
  hs.hmacSha256 secret (Text.utf8 message)

/-- `Mac::verify_slice`: the bytes are the whole tag. -/
def verifySlice (tag raw : List UInt8) : Bool := decide (raw = tag)

theorem Hashes.macFor_injective {hs : Hashes} {secret : List UInt8}
    (h : Function.Injective (hs.hmacSha256 secret)) : Function.Injective (hs.macFor secret) :=
  h.comp Text.utf8_injective

end OaLibs
