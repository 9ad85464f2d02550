import OaLibs.Base.Text
import OaLibs.Base.UnixPath

/-!
# Storage keys

The errors of the storage backends and the check of a key. A key that passes is a relative path
whose segments are neither empty nor `..`: its steps go down or stay.
-/

namespace OaLibs

namespace Storage

open UnixPath

inductive StorageError
  | notFound (key : String)
  | invalidKey (key : String)
  | invalidSignature
  | backend (text : String)
  deriving DecidableEq

def StorageError.display : StorageError → String
  | .notFound key => "object not found: " ++ key
  | .invalidKey key => "invalid key: " ++ key
  | .invalidSignature => "invalid or expired signature"
  | .backend text => "storage backend error: " ++ text

/-- The characters of a key. -/
def keyChar (c : Char) : Bool :=
  c.isAlphanum || c == '/' || c == '.' || c == '_' || c == '-'

def validateKey (key : String) : Except StorageError Unit :=
  if key == "" || key.toList.head? == some '/' || 512 < key.utf8ByteSize then
    .error (.invalidKey key)
  else if !key.toList.all keyChar then .error (.invalidKey key)
  else if (Text.split '/' key).any fun segment => segment == ".." || segment == "" then
    .error (.invalidKey key)
  else .ok ()

/-- A refused key is named by the error. -/
theorem validateKey_error {key : String} {err : StorageError} (h : validateKey key = .error err) :
    err = .invalidKey key := by
  unfold validateKey at h
  split_ifs at h <;> exact (Except.error.inj h).symm

/-- What the characters and segments of an accepted key are. -/
theorem validateKey_ok {key : String} (h : validateKey key = .ok ()) :
    (∀ c ∈ key.toList, keyChar c = true) ∧
      ∀ segment ∈ Text.split '/' key, segment ≠ ".." ∧ segment ≠ "" := by
  unfold validateKey at h
  split_ifs at h with hfront hchars hsegments
  refine ⟨by simpa using hchars, fun segment hsegment => ?_⟩
  simp only [List.any_eq_true, not_exists, not_and, Bool.or_eq_true, beq_iff_eq, not_or]
    at hsegments
  exact hsegments segment hsegment

theorem toNat_le_of_keyChar {c : Char} (h : keyChar c = true) : c.toNat ≤ 127 := by
  simp only [keyChar, Char.isAlphanum, Char.isAlpha, Char.isUpper, Char.isLower, Char.isDigit,
    Bool.or_eq_true, Bool.and_eq_true, decide_eq_true_eq, beq_iff_eq, ge_iff_le,
    UInt32.le_iff_toNat_le] at h
  rcases h with ((((((⟨-, h⟩ | ⟨-, h⟩) | ⟨-, h⟩) | rfl) | rfl) | rfl) | rfl)
  · exact h.trans (by decide)
  · exact h.trans (by decide)
  · exact h.trans (by decide)
  all_goals decide

/-! ### The path of a key -/

/-- A key as a path. -/
def keyPath (key : String) : PathBuf := Text.utf8 key

/-- The steps of a key below the root. -/
def keySteps (key : String) : List Step := (parse (keyPath key)).steps

/-- The bytes of a segment. -/
def segmentBytes (segment : String) : Name := segment.toList.map fun c => UInt8.ofNat c.toNat

/-- The parts of an accepted key's path are its segments. -/
theorem splitOn_keyPath {key : String} (h : validateKey key = .ok ()) :
    (keyPath key).splitOn slash = (Text.split '/' key).map segmentBytes := by
  have hascii : ∀ c ∈ key.toList, c.toNat ≤ 127 := fun c hc =>
    toNat_le_of_keyChar ((validateKey_ok h).1 c hc)
  have hslash : slash = UInt8.ofNat '/'.toNat := rfl
  unfold keyPath
  rw [Text.utf8_of_ascii hascii, hslash,
    Text.splitOn_map fun c hc heq => Text.ofNat_toNat_inj (hascii c hc) (by decide) heq]
  unfold Text.split segmentBytes
  rw [List.map_map]
  exact List.map_congr_left fun cs _ => by simp

theorem ascii_segment {key segment : String} (h : validateKey key = .ok ())
    (hsegment : segment ∈ Text.split '/' key) : ∀ c ∈ segment.toList, c.toNat ≤ 127 := by
  intro c hc
  obtain ⟨part, hpart, rfl⟩ := List.mem_map.1 hsegment
  rw [String.toList_ofList] at hc
  exact toNat_le_of_keyChar ((validateKey_ok h).1 c (Text.mem_of_mem_splitOn hpart hc))

/-- Segments of ASCII characters are told apart by their bytes. -/
theorem segmentBytes_inj {segment segment' : String} (h : ∀ c ∈ segment.toList, c.toNat ≤ 127)
    (h' : ∀ c ∈ segment'.toList, c.toNat ≤ 127)
    (heq : segmentBytes segment = segmentBytes segment') : segment = segment' :=
  String.toList_inj.1 (Text.map_ofNat_toNat_inj h h' heq)

/-- A segment of an accepted key is no empty part of its path and does not go up. -/
theorem segmentBytes_spec {key segment : String} (h : validateKey key = .ok ())
    (hsegment : segment ∈ Text.split '/' key) :
    segmentBytes segment ≠ [] ∧ segmentBytes segment ≠ [dot, dot] := by
  obtain ⟨hup, hempty⟩ := (validateKey_ok h).2 segment hsegment
  have hdots : segmentBytes ".." = [dot, dot] := by decide +kernel
  constructor
  · intro hnil
    exact hempty (String.toList_eq_nil_iff.1 (List.map_eq_nil_iff.1 hnil))
  · intro heq
    rw [← hdots] at heq
    exact hup (segmentBytes_inj (ascii_segment h hsegment) (by simp) heq)

theorem keySteps_eq {key : String} (h : validateKey key = .ok ()) :
    keySteps key = (Text.split '/' key).map fun segment => .ofSegment (segmentBytes segment) := by
  unfold keySteps parse segments
  rw [splitOn_keyPath h, List.filter_eq_self.2, List.map_map]
  · rfl
  · intro bytes hbytes
    obtain ⟨segment, hsegment, rfl⟩ := List.mem_map.1 hbytes
    simpa using (segmentBytes_spec h hsegment).1

theorem keySteps_ne_nil {key : String} (h : validateKey key = .ok ()) : keySteps key ≠ [] := by
  rw [keySteps_eq h]
  simp [Text.split, List.splitOn_ne_nil]

/-- The path of an accepted key never goes up. -/
theorem up_notMem_keySteps {key : String} (h : validateKey key = .ok ()) :
    Step.up ∉ keySteps key := by
  rw [keySteps_eq h, List.mem_map]
  rintro ⟨segment, hsegment, heq⟩
  unfold Step.ofSegment at heq
  split_ifs at heq with hdot hdots
  exact (segmentBytes_spec h hsegment).2 hdots

/-- The path of an accepted key is relative. -/
theorem head_keyPath {key : String} (h : validateKey key = .ok ()) :
    (keyPath key).head? ≠ some slash := by
  intro hhead
  obtain ⟨rest, hrest⟩ : ∃ rest, keyPath key = [] ++ slash :: rest := by
    cases hpath : keyPath key with
    | nil => simp [hpath] at hhead
    | cons b rest => exact ⟨rest, by simpa [hpath] using hhead⟩
  have hsplit := splitOn_keyPath h
  rw [hrest, List.splitOn_append_cons_self, List.splitOn_nil] at hsplit
  have hnil : [] ∈ (Text.split '/' key).map segmentBytes := by simp [← hsplit]
  obtain ⟨segment, hsegment, heq⟩ := List.mem_map.1 hnil
  exact (segmentBytes_spec h hsegment).1 heq

end Storage

end OaLibs
