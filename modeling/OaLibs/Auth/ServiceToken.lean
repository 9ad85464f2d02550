import OaLibs.Base.MachineInt
import OaLibs.Common.Mac

/-!
# Service tokens

`service_token.rs`: a service signs its name, a timestamp and the digest of the request body
under a shared secret; the receiver checks the time window and then the signature.

* `signServiceToken`, `verifyServiceToken`;
* `candidateMessage_inj`: the signed text determines its three parts, although the service name
  is an arbitrary string;
* `verifyServiceToken_binds`: a signature is accepted for exactly one service, timestamp and
  body digest;
* `freshness_exact_iff`: the window is computed exactly if and only if the difference of the two
  instants fits in an `i64` together with its absolute value.

The functions take the overflow mode of the build; `none` is a panic.
-/

namespace OaLibs

open MachineInt

/-- Errors of the verification. -/
inductive ServiceTokenError
  | invalidSignature
  | expired
  | malformed
  deriving DecidableEq

/-- The `Display` text of an error. -/
def ServiceTokenError.toString : ServiceTokenError → String
  | .invalidSignature => "invalid signature"
  | .expired => "timestamp out of allowed window"
  | .malformed => "malformed token"

namespace ServiceToken

section

variable (hs : Hashes) (b64 : Base64.Engine)

/-- The SHA-256 digest of a body in hexadecimal. -/
def bodyDigestHex (body : List UInt8) : String := Text.hex (hs.sha256 body).toList

/-- The signed text: service name, timestamp and body digest, one per line. -/
def candidateMessage (service : String) (timestamp : Int64) (body : List UInt8) : String :=
  service ++ "\n" ++ Text.decimal timestamp.toInt ++ "\n" ++ bodyDigestHex hs body

/-- The signature of a request. -/
def signServiceToken (service : String) (secret : List UInt8) (timestamp : Int64)
    (body : List UInt8) : String :=
  b64.encode (hs.macFor secret (candidateMessage hs service timestamp body))

/-- The check of a signature: the window first, then the signature. -/
def verifyServiceToken (m : OverflowMode) (service : String) (secret : List UInt8)
    (timestamp : Int64) (body : List UInt8) (signature : String) (now leewaySeconds : Int64) :
    Option (Except ServiceTokenError Unit) := do
  let difference ← sub64 m now timestamp
  let age ← abs64 m difference
  if leewaySeconds < age then
    return .error .expired
  match b64.decode signature with
  | none => return .error .malformed
  | some raw =>
    if verifySlice (hs.macFor secret (candidateMessage hs service timestamp body)) raw then
      return .ok ()
    else
      return .error .invalidSignature

end

variable {hs : Hashes} {b64 : Base64.Engine}

/-! ### The signed text -/

theorem candidateMessage_toList (service : String) (timestamp : Int64) (body : List UInt8) :
    (candidateMessage hs service timestamp body).toList =
      (service.toList ++ '\n' :: (Text.decimal timestamp.toInt).toList) ++
        '\n' :: (bodyDigestHex hs body).toList := by
  simp [candidateMessage]

/-- Read from the right: the digest and the timestamp contain no newline. -/
theorem candidateMessage_inj {service service' : String} {t t' : Int64} {body body' : List UInt8} :
    candidateMessage hs service t body = candidateMessage hs service' t' body' ↔
      service = service' ∧ t = t' ∧ hs.sha256 body = hs.sha256 body' := by
  constructor
  · intro h
    have hl := congrArg String.toList h
    rw [candidateMessage_toList, candidateMessage_toList] at hl
    obtain ⟨hl, hdigest⟩ :=
      Text.append_sep_inj (Text.newline_notMem_hex _) (Text.newline_notMem_hex _) hl
    obtain ⟨hservice, htime⟩ :=
      Text.append_sep_inj (Text.newline_notMem_decimal _) (Text.newline_notMem_decimal _) hl
    refine ⟨String.toList_inj.1 hservice, ?_, ?_⟩
    · exact Int64.toInt_inj.1 (Text.decimal_injective (String.toList_inj.1 htime))
    · exact Vector.toList_inj.1 (Text.hex_injective (String.toList_inj.1 hdigest))
  · rintro ⟨rfl, rfl, hdigest⟩
    unfold candidateMessage bodyDigestHex
    rw [hdigest]

/-! ### The window -/

/-- The window test when nothing overflows. -/
theorem verifyServiceToken_of_exact (m : OverflowMode) (service : String) (secret : List UInt8)
    {timestamp : Int64} (body : List UInt8) (signature : String) {now : Int64} (leeway : Int64)
    (hl : -2 ^ 63 < now.toInt - timestamp.toInt) (hu : now.toInt - timestamp.toInt < 2 ^ 63) :
    verifyServiceToken hs b64 m service secret timestamp body signature now leeway =
      if leeway.toInt < |now.toInt - timestamp.toInt| then some (.error .expired)
      else match b64.decode signature with
        | none => some (.error .malformed)
        | some raw =>
          if verifySlice (hs.macFor secret (candidateMessage hs service timestamp body)) raw then
            some (.ok ())
          else some (.error .invalidSignature) := by
  -- Both operations of the source are exact, the absolute value because the minimum is excluded.
  have hsub : (now - timestamp).toInt = now.toInt - timestamp.toInt :=
    (toInt_sub_eq_iff _ _).2 ⟨by omega, hu⟩
  have habs : (now - timestamp).abs.toInt = |now.toInt - timestamp.toInt| := by
    rw [← hsub]
    exact (toInt_abs_eq_iff _).2 (by omega)
  unfold verifyServiceToken sub64 abs64
  rw [outcome_of_exact hsub, Option.bind_eq_bind, Option.bind_some,
    outcome_of_exact (by rw [habs, hsub]), Option.bind_some]
  simp only [Int64.lt_iff_toInt_lt, habs]
  split_ifs
  · rfl
  · cases b64.decode signature with
    | none => rfl
    | some raw =>
      simp only
      split_ifs <;> rfl

/-- Without overflow, a signature is accepted inside the window exactly when it is the one that
would be issued. -/
theorem verifyServiceToken_ok_iff (m : OverflowMode) (service : String) (secret : List UInt8)
    {timestamp : Int64} (body : List UInt8) (signature : String) {now : Int64} (leeway : Int64)
    (hl : -2 ^ 63 < now.toInt - timestamp.toInt) (hu : now.toInt - timestamp.toInt < 2 ^ 63) :
    verifyServiceToken hs b64 m service secret timestamp body signature now leeway =
        some (.ok ()) ↔
      |now.toInt - timestamp.toInt| ≤ leeway.toInt ∧
        signature = signServiceToken hs b64 service secret timestamp body := by
  rw [verifyServiceToken_of_exact _ _ _ _ _ _ hl hu, signServiceToken, ← b64.decode_eq_some_iff]
  split_ifs with hexp
  · simp only [Option.some.injEq, reduceCtorEq, false_iff, not_and]
    omega
  · cases hdec : b64.decode signature with
    | none => simp
    | some raw => simp [verifySlice, not_lt.1 hexp]

/-- **A service token is bound to one service, timestamp and body.** -/
theorem verifyServiceToken_binds (hs : Hashes) (b64 : Base64.Engine) (secret : List UInt8)
    (hinj : Function.Injective (hs.hmacSha256 secret)) (m : OverflowMode)
    (service service' : String) (t t' : Int64) (body body' : List UInt8) (now leeway : Int64)
    (hl : -2 ^ 63 < now.toInt - t'.toInt) (hu : now.toInt - t'.toInt < 2 ^ 63) :
    (∀ s, verifyServiceToken hs b64 m service' secret t' body' s now leeway = some (.ok ()) ↔
      |now.toInt - t'.toInt| ≤ leeway.toInt ∧
        s = signServiceToken hs b64 service' secret t' body') ∧
    (|now.toInt - t'.toInt| ≤ leeway.toInt →
      (verifyServiceToken hs b64 m service' secret t' body'
          (signServiceToken hs b64 service secret t body) now leeway = some (.ok ()) ↔
        service = service' ∧ t = t' ∧ hs.sha256 body = hs.sha256 body')) := by
  have hok : ∀ s, verifyServiceToken hs b64 m service' secret t' body' s now leeway =
      some (.ok ()) ↔ |now.toInt - t'.toInt| ≤ leeway.toInt ∧
        s = signServiceToken hs b64 service' secret t' body' :=
    fun s => verifyServiceToken_ok_iff m service' secret body' s leeway hl hu
  refine ⟨hok, fun hwindow => ?_⟩
  have hsign : signServiceToken hs b64 service secret t body =
      signServiceToken hs b64 service' secret t' body' ↔
        candidateMessage hs service t body = candidateMessage hs service' t' body' :=
    (b64.encode_injective.comp (Hashes.macFor_injective hinj)).eq_iff
  rw [hok, hsign, candidateMessage_inj]
  exact and_iff_right hwindow

/-- The permutation of byte strings that gives the text `head` and the digest of the empty JSON
object its tag. -/
def sampleTag (head : String) (tag : List UInt8) : Equiv.Perm (List UInt8) :=
  Equiv.swap
    (Text.utf8 (head ++ "44136fa355b3678a1146ad16f7e8649e94fb4fc21fe77e8310c060f61caaff8a")) tag

/-- Hash functions with the values of SHA-256 and HMAC-SHA256 on the inputs used below: the empty
JSON object as the body, and three texts under the secret `super-secret`. -/
def sampleHashes : Hashes where
  sha256 _ := #v[68, 19, 111, 163, 85, 179, 103, 138, 17, 70, 173, 22, 247, 232, 100, 158,
    148, 251, 79, 194, 31, 231, 126, 131, 16, 192, 96, 246, 28, 170, 255, 138]
  hmacSha256 _ :=
    sampleTag "notify\n1700000000\n" [23, 241, 37, 58, 120, 116, 245, 179, 28, 28, 159, 162, 121,
      30, 87, 187, 23, 201, 79, 105, 51, 63, 87, 181, 41, 181, 160, 216, 21, 17, 215, 120] ∘
    sampleTag "im\n1700000000\n" [19, 100, 110, 221, 103, 147, 102, 237, 252, 68, 36, 20, 142, 157,
      64, 79, 165, 106, 145, 63, 150, 103, 82, 62, 45, 50, 113, 79, 227, 47, 96, 62] ∘
    sampleTag "notify\n-9223372035154775808\n" [72, 241, 111, 131, 158, 66, 245, 181, 17, 33, 218,
      252, 105, 91, 252, 70, 220, 17, 149, 235, 62, 56, 76, 0, 80, 33, 80, 157, 187, 222, 242, 67]

theorem sampleHashes_injective (secret : List UInt8) :
    Function.Injective (sampleHashes.hmacSha256 secret) :=
  (Equiv.injective _).comp ((Equiv.injective _).comp (Equiv.injective _))

/-- The token issued to `notify` opens the door to `notify`, thirty seconds later, and not to
`im`. -/
theorem verifyServiceToken_binds_notify :
    verifyServiceToken sampleHashes Base64.standard .checked "notify" (Text.utf8 "super-secret")
        1700000000 [123, 125] "F/ElOnh09bMcHJ+ieR5XuxfJT2kzP1e1KbWg2BUR13g=" 1700000030 60 =
      some (.ok ()) ∧
    verifyServiceToken sampleHashes Base64.standard .checked "im" (Text.utf8 "super-secret")
        1700000000 [123, 125] (signServiceToken sampleHashes Base64.standard "notify"
          (Text.utf8 "super-secret") 1700000000 [123, 125]) 1700000030 60 ≠ some (.ok ()) := by
  have hnotify := verifyServiceToken_binds sampleHashes Base64.standard
    (Text.utf8 "super-secret") (sampleHashes_injective _) .checked "notify" "notify" 1700000000
    1700000000 [123, 125] [123, 125] 1700000030 60 (by decide) (by decide)
  have him := verifyServiceToken_binds sampleHashes Base64.standard
    (Text.utf8 "super-secret") (sampleHashes_injective _) .checked "notify" "im" 1700000000
    1700000000 [123, 125] [123, 125] 1700000030 60 (by decide) (by decide)
  refine ⟨(hnotify.1 _).2 ⟨by decide, by decide⟩, fun h => ?_⟩
  exact absurd ((him.2 (by decide)).1 h).1 (by decide)

/-! ### The window on all of `i64` -/

/-- The freshness check is exact at an input: in a build with or without overflow checks the
verification does not panic, answers `expired` exactly outside the window, and accepts only
inside it. -/
def FreshnessExact (hs : Hashes) (b64 : Base64.Engine) (service : String) (secret : List UInt8)
    (timestamp : Int64) (body : List UInt8) (signature : String) (now leeway : Int64) : Prop :=
  ∀ m : OverflowMode,
    verifyServiceToken hs b64 m service secret timestamp body signature now leeway ≠ none ∧
    (verifyServiceToken hs b64 m service secret timestamp body signature now leeway =
        some (.error .expired) ↔ leeway.toInt < |now.toInt - timestamp.toInt|) ∧
    (verifyServiceToken hs b64 m service secret timestamp body signature now leeway =
        some (.ok ()) → |now.toInt - timestamp.toInt| ≤ leeway.toInt)

variable (hs b64) in
theorem verifyServiceToken_outside (m : OverflowMode) (service : String) (secret : List UInt8)
    {timestamp : Int64} (body : List UInt8) (signature : String) {now leeway : Int64}
    (hl : -2 ^ 63 < now.toInt - timestamp.toInt) (hu : now.toInt - timestamp.toInt < 2 ^ 63)
    (hexp : leeway.toInt < |now.toInt - timestamp.toInt|) :
    verifyServiceToken hs b64 m service secret timestamp body signature now leeway =
      some (.error .expired) := by
  rw [verifyServiceToken_of_exact _ _ _ _ _ _ hl hu, if_pos hexp]

variable (hs b64) in
/-- Inside the window the signature decides. -/
theorem verifyServiceToken_inside (m : OverflowMode) (service : String) (secret : List UInt8)
    {timestamp : Int64} (body : List UInt8) (signature : String) {now leeway : Int64}
    (hl : -2 ^ 63 < now.toInt - timestamp.toInt) (hu : now.toInt - timestamp.toInt < 2 ^ 63)
    (hwindow : |now.toInt - timestamp.toInt| ≤ leeway.toInt) :
    verifyServiceToken hs b64 m service secret timestamp body signature now leeway =
        some (.ok ()) ∨
      verifyServiceToken hs b64 m service secret timestamp body signature now leeway =
        some (.error .malformed) ∨
      verifyServiceToken hs b64 m service secret timestamp body signature now leeway =
        some (.error .invalidSignature) := by
  rw [verifyServiceToken_of_exact _ _ _ _ _ _ hl hu, if_neg (not_lt.2 hwindow)]
  cases b64.decode signature with
  | none => exact .inr (.inl rfl)
  | some raw =>
    simp only
    split_ifs
    · exact .inl rfl
    · exact .inr (.inr rfl)

theorem freshnessExact_of_exact {service : String} {secret : List UInt8} {timestamp : Int64}
    {body : List UInt8} {signature : String} {now leeway : Int64}
    (hl : -2 ^ 63 < now.toInt - timestamp.toInt) (hu : now.toInt - timestamp.toInt < 2 ^ 63) :
    FreshnessExact hs b64 service secret timestamp body signature now leeway := by
  intro m
  rcases lt_or_ge leeway.toInt |now.toInt - timestamp.toInt| with hexp | hwindow
  · rw [verifyServiceToken_outside hs b64 m service secret body signature hl hu hexp]
    refine ⟨by simp, iff_of_true rfl hexp, fun h => ?_⟩
    cases Option.some.inj h
  · rcases verifyServiceToken_inside hs b64 m service secret body signature hl hu hwindow with
      h | h | h
    · rw [h]
      exact ⟨by simp, iff_of_false (by simp) (not_lt.2 hwindow), fun _ => hwindow⟩
    · rw [h]
      exact ⟨by simp, iff_of_false (by simp) (not_lt.2 hwindow), fun _ => hwindow⟩
    · rw [h]
      exact ⟨by simp, iff_of_false (by simp) (not_lt.2 hwindow), fun _ => hwindow⟩

/-- A build with overflow checks panics when the difference does not fit. -/
theorem verifyServiceToken_checked_eq_none {service : String} {secret : List UInt8}
    {timestamp : Int64} {body : List UInt8} {signature : String} {now leeway : Int64}
    (h : ¬ (-2 ^ 63 < now.toInt - timestamp.toInt ∧ now.toInt - timestamp.toInt < 2 ^ 63)) :
    verifyServiceToken hs b64 .checked service secret timestamp body signature now leeway =
      none := by
  unfold verifyServiceToken
  by_cases hsub : (now - timestamp).toInt = now.toInt - timestamp.toInt
  · -- the difference fits, so it is the one value without an absolute value
    have hrange := (toInt_sub_eq_iff _ _).1 hsub
    have hmin : (now - timestamp).abs.toInt ≠ |(now - timestamp).toInt| := by
      rw [Ne, toInt_abs_eq_iff, not_not]
      omega
    rw [sub64, outcome_of_exact hsub, Option.bind_eq_bind, Option.bind_some, abs64,
      outcome_checked_of_ne hmin]
    rfl
  · rw [sub64, outcome_checked_of_ne hsub]
    rfl

/-- **The freshness check is exact if and only if the difference of the two instants and its
absolute value fit in an `i64`.** -/
theorem freshness_exact_iff (service : String) (secret : List UInt8) (timestamp : Int64)
    (body : List UInt8) (signature : String) (now leeway : Int64) :
    FreshnessExact hs b64 service secret timestamp body signature now leeway ↔
      |now.toInt - timestamp.toInt| < 2 ^ 63 := by
  rw [abs_lt]
  constructor
  · intro h
    by_contra hfit
    exact (h .checked).1 (verifyServiceToken_checked_eq_none hfit)
  · rintro ⟨hl, hu⟩
    exact freshnessExact_of_exact hl hu

/-- A timestamp 2⁶³ seconds before now: the build with overflow checks panics, and the build
without them accepts the signed request, three hundred billion years too late. -/
theorem freshness_fails_far_past :
    ¬ FreshnessExact sampleHashes Base64.standard "notify" (Text.utf8 "super-secret")
        (-9223372035154775808) [123, 125] "SPFvg55C9bURIdr8aVv8RtwRles+OEwAUCFQnbve8kM="
        1700000000 60 ∧
    verifyServiceToken sampleHashes Base64.standard .checked "notify" (Text.utf8 "super-secret")
        (-9223372035154775808) [123, 125] "SPFvg55C9bURIdr8aVv8RtwRles+OEwAUCFQnbve8kM="
        1700000000 60 = none ∧
    verifyServiceToken sampleHashes Base64.standard .wrapping "notify" (Text.utf8 "super-secret")
        (-9223372035154775808) [123, 125] "SPFvg55C9bURIdr8aVv8RtwRles+OEwAUCFQnbve8kM="
        1700000000 60 = some (.ok ()) := by
  refine ⟨fun h => ?_, rfl, rfl⟩
  exact (h .checked).1 rfl

end ServiceToken

end OaLibs
