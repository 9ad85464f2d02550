import OaLibs.Base.DateTime
import OaLibs.Common.Mac
import OaLibs.Storage.Local

/-!
# Signed downloads

The local backend signs a key and the second until which it may be downloaded. A download URL
carries the key, that second and the signature.

* `signDownload`, `verifyDownload`, `downloadUrl`;
* `downloadMessage_inj`: the signed text determines the key and the second, whatever the key is;
* `verifyDownload_binds`: a signature opens one key until one second;
* `readDownloadUrl_downloadUrl`: a URL is read back without ambiguity;
* `downloadUrl_works`: it works until the start of the second in which it expires.
-/

namespace OaLibs

namespace Storage

section

variable (hs : Hashes) (b : LocalBackend)

/-- The signed text: the key and the second of expiry, on two lines. -/
def downloadMessage (key : String) (expiresAt : DateTime) : String :=
  key ++ "\n" ++ Text.decimal expiresAt.timestamp

def signDownload (key : String) (expiresAt : DateTime) : String :=
  Base64.urlSafeNoPad.encode (hs.macFor b.signSecret (downloadMessage key expiresAt))

/-- The check of a signature: the time first, in full precision, and then the signature. -/
def verifyDownload (key : String) (expiresAt : DateTime) (signature : String) (now : DateTime) :
    Except StorageError Unit :=
  if expiresAt < now then .error .invalidSignature
  else
    -- the text that was signed has the second of the expiry only
    match Base64.urlSafeNoPad.decode signature with
    | none => .error .invalidSignature
    | some raw =>
        if verifySlice (hs.macFor b.signSecret (downloadMessage key expiresAt)) raw then .ok ()
        else .error .invalidSignature

def downloadUrl (key : String) (expiresAt : DateTime) : String :=
  key ++ "?expires=" ++ Text.decimal expiresAt.timestamp ++ "&signature=" ++
    signDownload hs b key expiresAt

end

variable {hs : Hashes} {b : LocalBackend} {key key' : String} {e e' now : DateTime}

/-! ### The signature -/

/-- Read from the right: the second contains no newline. -/
theorem downloadMessage_inj :
    downloadMessage key e = downloadMessage key' e' ↔
      key = key' ∧ e.timestamp = e'.timestamp := by
  constructor
  · intro h
    have hl := congrArg String.toList h
    have hlist : ∀ (k : String) (t : DateTime), (downloadMessage k t).toList =
        k.toList ++ '\n' :: (Text.decimal t.timestamp).toList := by
      intro k t
      simp [downloadMessage]
    rw [hlist, hlist] at hl
    obtain ⟨hkey, htime⟩ :=
      Text.append_sep_inj (Text.newline_notMem_decimal _) (Text.newline_notMem_decimal _) hl
    exact ⟨String.toList_inj.1 hkey, Text.decimal_injective (String.toList_inj.1 htime)⟩
  · rintro ⟨rfl, htime⟩
    unfold downloadMessage
    rw [htime]

theorem signDownload_inj (hinj : Function.Injective (hs.hmacSha256 b.signSecret)) :
    signDownload hs b key e = signDownload hs b key' e' ↔
      key = key' ∧ e.timestamp = e'.timestamp := by
  have hsign := (Base64.urlSafeNoPad.encode_injective.comp (Hashes.macFor_injective hinj)).eq_iff
    (a := downloadMessage key e) (b := downloadMessage key' e')
  exact hsign.trans downloadMessage_inj

theorem verifyDownload_ok_iff {s : String} :
    verifyDownload hs b key e s now = .ok () ↔ now ≤ e ∧ s = signDownload hs b key e := by
  unfold verifyDownload
  rw [signDownload, ← Base64.urlSafeNoPad.decode_eq_some_iff]
  split_ifs with hexp
  · simp [not_le.2 hexp]
  · cases hdec : Base64.urlSafeNoPad.decode s with
    | none => simp
    | some raw => simp [verifySlice, not_lt.1 hexp]

/-- **A download signature opens one key until one second and nothing else.** -/
theorem verifyDownload_binds (hs : Hashes) (b : LocalBackend)
    (hinj : Function.Injective (hs.hmacSha256 b.signSecret)) (key key' : String)
    (e e' now : DateTime) :
    (∀ s, verifyDownload hs b key' e' s now = .ok () ↔
      now ≤ e' ∧ s = signDownload hs b key' e') ∧
    (verifyDownload hs b key' e' (signDownload hs b key e) now = .ok () ↔
      key = key' ∧ e.timestamp = e'.timestamp ∧ now ≤ e') := by
  refine ⟨fun s => verifyDownload_ok_iff, ?_⟩
  rw [verifyDownload_ok_iff, signDownload_inj hinj, and_comm, and_assoc]

/-- The backend of the samples below. -/
def downloadBackend : LocalBackend := ⟨Text.utf8 "/data", Text.utf8 "secret"⟩

/-- Hash functions with the values of HMAC-SHA256 on two texts under the secret `secret`. -/
def downloadHashes : Hashes where
  sha256 _ := Vector.replicate 32 0
  hmacSha256 _ :=
    Equiv.swap (Text.utf8 "a/b.txt\n1700000300") [196, 175, 55, 0, 122, 144, 225, 103, 206, 65,
      117, 175, 228, 48, 64, 98, 58, 96, 84, 165, 22, 14, 209, 242, 137, 238, 21, 254, 5, 216,
      206, 224] ∘
    Equiv.swap (Text.utf8 "a/c.txt\n1700000300") [137, 43, 111, 33, 59, 137, 105, 22, 6, 171, 38,
      70, 26, 236, 118, 182, 9, 177, 113, 93, 8, 53, 96, 118, 155, 121, 70, 241, 55, 168, 146, 10]

theorem downloadHashes_injective (secret : List UInt8) :
    Function.Injective (downloadHashes.hmacSha256 secret) :=
  (Equiv.injective _).comp (Equiv.injective _)

/-- Half a second into the second of expiry. -/
def sampleExpiry : DateTime := ⟨1700000300, 500000000, by decide⟩

theorem verifyDownload_binds_sampleExpiry :
    verifyDownload downloadHashes downloadBackend "a/b.txt" sampleExpiry
        "xK83AHqQ4WfOQXWv5DBAYjpgVKUWDtHyie4V_gXYzuA" (.fromTimestamp 1700000300) = .ok () ∧
      verifyDownload downloadHashes downloadBackend "a/c.txt" sampleExpiry
        (signDownload downloadHashes downloadBackend "a/b.txt" sampleExpiry)
        (.fromTimestamp 1700000300) ≠ .ok () := by
  have hkey := verifyDownload_binds downloadHashes downloadBackend (downloadHashes_injective _)
    "a/b.txt" "a/b.txt" sampleExpiry sampleExpiry (.fromTimestamp 1700000300)
  have hother := verifyDownload_binds downloadHashes downloadBackend (downloadHashes_injective _)
    "a/b.txt" "a/c.txt" sampleExpiry sampleExpiry (.fromTimestamp 1700000300)
  refine ⟨(hkey.1 _).2 ⟨DateTime.fromTimestamp_le sampleExpiry, by decide⟩, fun h => ?_⟩
  exact absurd (hother.2.1 h).1 (by decide)

/-! ### The URL -/

/-- The key, the second and the signature of a URL: what stands before its first `?`, and behind
the labels of the two parts that a `&` separates. -/
def readDownloadUrl (url : String) : Option (String × ℤ × String) :=
  match Text.splitOnce '?' url with
  | none => none
  | some (key, query) =>
      match Text.split '&' query with
      | [expires, signature] =>
          match (Text.stripPrefix "expires=" expires).bind String.toInt?,
            Text.stripPrefix "signature=" signature with
          | some seconds, some signature => some (key, seconds, signature)
          | _, _ => none
      | _ => none

theorem question_notMem_of_validateKey (h : validateKey key = .ok ()) : '?' ∉ key.toList := by
  intro hmem
  exact absurd ((validateKey_ok h).1 _ hmem) (by decide)

theorem ampersand_notMem_decimal (n : ℤ) : '&' ∉ (Text.decimal n).toList := by
  intro h
  rcases Text.mem_decimal h with h | h
  · exact absurd h (by decide)
  · exact absurd h (by decide)

theorem ampersand_notMem_signDownload : '&' ∉ (signDownload hs b key e).toList :=
  Base64.notMem_encode (by decide) (by decide)

theorem readDownloadUrl_downloadUrl (h : validateKey key = .ok ()) :
    readDownloadUrl (downloadUrl hs b key e) =
      some (key, e.timestamp, signDownload hs b key e) := by
  have hurl : downloadUrl hs b key e = key ++ String.singleton '?' ++
      ("expires=" ++ Text.decimal e.timestamp ++ String.singleton '&' ++
        ("signature=" ++ signDownload hs b key e)) := by
    apply String.toList_inj.1
    simp [downloadUrl]
  have hfront : '&' ∉ ("expires=" ++ Text.decimal e.timestamp).toList := by
    rw [String.toList_append, List.mem_append, not_or]
    exact ⟨by decide, ampersand_notMem_decimal _⟩
  have hback : '&' ∉ ("signature=" ++ signDownload hs b key e).toList := by
    rw [String.toList_append, List.mem_append, not_or]
    exact ⟨by decide, ampersand_notMem_signDownload⟩
  have hquery : Text.split '&' ("expires=" ++ Text.decimal e.timestamp ++ String.singleton '&' ++
      ("signature=" ++ signDownload hs b key e)) =
        ["expires=" ++ Text.decimal e.timestamp, "signature=" ++ signDownload hs b key e] := by
    rw [Text.split_append_sep hfront, Text.split_of_notMem hback]
  unfold readDownloadUrl
  rw [hurl, Text.splitOnce_append_sep (question_notMem_of_validateKey h)]
  simp only [hquery, Text.stripPrefix_append, Option.bind_some, Text.toInt?_decimal]

/-- **A download URL works until the start of the second in which it expires.** It never works
after its expiry, and it works before it except in that second. -/
theorem downloadUrl_works (hs : Hashes) (b : LocalBackend) (key : String) (e now : DateTime)
    (hkey : validateKey key = .ok ()) :
    ∃ seconds signature,
      readDownloadUrl (downloadUrl hs b key e) = some (key, seconds, signature) ∧
      (verifyDownload hs b key (.fromTimestamp seconds) signature now = .ok () ↔
        now ≤ .fromTimestamp e.timestamp) ∧
      (verifyDownload hs b key (.fromTimestamp seconds) signature now = .ok () → now ≤ e) ∧
      (e.nanos = 0 ∨ now.timestamp ≠ e.timestamp →
        (verifyDownload hs b key (.fromTimestamp seconds) signature now = .ok () ↔ now ≤ e)) := by
  have hok : verifyDownload hs b key (.fromTimestamp e.timestamp) (signDownload hs b key e) now =
      .ok () ↔ now ≤ .fromTimestamp e.timestamp := by
    rw [verifyDownload_ok_iff]
    exact and_iff_left rfl
  refine ⟨e.timestamp, signDownload hs b key e, readDownloadUrl_downloadUrl hkey, hok, ?_, ?_⟩
  · intro h
    exact (hok.1 h).trans (DateTime.fromTimestamp_le e)
  · intro h
    exact hok.trans (DateTime.le_fromTimestamp_iff h)

theorem downloadUrl_works_sampleExpiry :
    ∃ seconds signature,
      readDownloadUrl (downloadUrl downloadHashes downloadBackend "a/b.txt" sampleExpiry) =
        some ("a/b.txt", seconds, signature) ∧
      verifyDownload downloadHashes downloadBackend "a/b.txt" (.fromTimestamp seconds) signature
        (.fromTimestamp 1700000299) = .ok () := by
  obtain ⟨seconds, signature, hread, -, -, hok⟩ := downloadUrl_works downloadHashes
    downloadBackend "a/b.txt" sampleExpiry (.fromTimestamp 1700000299) (by decide +kernel)
  exact ⟨seconds, signature, hread, (hok (Or.inr (by decide))).2 (by decide)⟩

/-- A quarter of a second before it expires, and in the second of its expiry, the URL is
refused. -/
theorem downloadUrl_refused :
    ¬ ∀ (key : String) (e now : DateTime), validateKey key = .ok () →
      ∃ seconds signature,
        readDownloadUrl (downloadUrl downloadHashes downloadBackend key e) =
          some (key, seconds, signature) ∧
        (verifyDownload downloadHashes downloadBackend key (.fromTimestamp seconds) signature now =
          .ok () ↔ now ≤ e) := by
  intro h
  have hkey : validateKey "a/b.txt" = .ok () := by decide +kernel
  obtain ⟨seconds, signature, hread, hok⟩ :=
    h "a/b.txt" sampleExpiry ⟨1700000300, 250000000, by decide⟩ hkey
  rw [readDownloadUrl_downloadUrl hkey] at hread
  obtain ⟨-, hrest⟩ := Prod.mk.inj (Option.some.inj hread)
  have hle := (verifyDownload_ok_iff.1 (hok.2 (by decide))).1
  rw [← (Prod.mk.inj hrest).1] at hle
  exact absurd hle (by decide)

end Storage

end OaLibs
