import OaLibs.Base.Percent
import OaLibs.Storage.Objects

/-!
# The S3 backend

`s3.rs` on top of the `object_store` crate, and how its keys compare with those of the local
backend. The crate is a parameter: `ObjectStore` has its operations on a state of the bucket, and
the set of bytes that it encodes in paths.

* `ObjectPath.ofKey`, `ofKey_eq_iff`: the path of a key, and which keys have the same one;
* `S3Backend.put`, `get`, `delete`, `existsKey`: the operations;
* `SameObject`, `SameFile`, `withoutDots`: when two keys mean the same in each of the backends;
* `keysAgree_iff`: where the backends agree on what a key is.
-/

namespace OaLibs

namespace Storage

open UnixPath FileTree

/-- The bytes that are encoded in a part of a path; the separator is one of them. -/
structure PartSet extends Percent.EncodeSet where
  slash : contains slash = true

/-- A path in the bucket, as it is written. -/
abbrev ObjectPath := List UInt8

/-- A part of a path; the two parts that would mean a directory are encoded as a whole. -/
def pathPart (set : PartSet) (segment : String) : List UInt8 :=
  if segment = "." || segment = ".." then (Text.utf8 segment).flatMap Percent.escape
  else Percent.encode set.toEncodeSet (Text.utf8 segment)

/-- `Path::from` of a string: empty parts are left out. -/
def ObjectPath.ofKey (set : PartSet) (key : String) : ObjectPath :=
  [slash].intercalate
    (((Text.split '/' key).map (pathPart set)).filter fun part => !part.isEmpty)

/-- The errors of `object_store` that the backend tells apart. -/
inductive ObjectStoreError
  | notFound (text : String)
  | other (text : String)

def ObjectStoreError.display : ObjectStoreError → String
  | .notFound text => text
  | .other text => text

/-- The `object_store` crate, over the states of a bucket. The body of an object is read after the
answer to the request. -/
structure ObjectStore (σ : Type) where
  invalid : PartSet
  put : ObjectPath → List UInt8 → σ → Except ObjectStoreError Unit × σ
  get : ObjectPath → σ → Except ObjectStoreError (Except ObjectStoreError (List UInt8))
  delete : ObjectPath → σ → Except ObjectStoreError Unit × σ
  head : ObjectPath → σ → Except ObjectStoreError Unit

structure S3Backend (σ : Type) where
  store : ObjectStore σ

variable {σ : Type}

/-- The path of a key. -/
def S3Backend.path (b : S3Backend σ) (key : String) : ObjectPath :=
  ObjectPath.ofKey b.store.invalid key

def mapError (err : ObjectStoreError) : StorageError :=
  match err with
  | .notFound _ => .notFound err.display
  | .other _ => .backend err.display

def S3Backend.put (b : S3Backend σ) (key : String) (body : List UInt8) (s : σ) :
    Except StorageError Unit × σ :=
  match b.store.put (b.path key) body s with
  | (.ok (), s) => (.ok (), s)
  | (.error err, s) => (.error (mapError err), s)

def S3Backend.get (b : S3Backend σ) (key : String) (s : σ) : Except StorageError (List UInt8) :=
  match b.store.get (b.path key) s with
  | .error err => .error (mapError err)
  | .ok (.error err) => .error (mapError err)
  | .ok (.ok bytes) => .ok bytes

/-- Deleting an object that is not there succeeds. -/
def S3Backend.delete (b : S3Backend σ) (key : String) (s : σ) : Except StorageError Unit × σ :=
  match b.store.delete (b.path key) s with
  | (.ok (), s) => (.ok (), s)
  | (.error (.notFound _), s) => (.ok (), s)
  | (.error err, s) => (.error (mapError err), s)

def S3Backend.existsKey (b : S3Backend σ) (key : String) (s : σ) : Except StorageError Bool :=
  match b.store.head (b.path key) s with
  | .ok () => .ok true
  | .error (.notFound _) => .ok false
  | .error err => .error (mapError err)

/-! ### The path of a key -/

theorem encoded_pathPart (set : PartSet) (segment : String) :
    Percent.Encoded (Text.utf8 segment) (pathPart set segment) := by
  unfold pathPart
  split_ifs
  · exact Percent.encoded_escape _
  · exact Percent.encoded_encode _ _

theorem pathPart_injective (set : PartSet) : Function.Injective (pathPart set) := by
  intro segment segment' h
  have hencoded := encoded_pathPart set segment
  rw [h] at hencoded
  exact Text.utf8_injective (hencoded.unique (encoded_pathPart set segment'))

theorem pathPart_eq_nil_iff (set : PartSet) {segment : String} :
    pathPart set segment = [] ↔ segment = "" := by
  have hempty : pathPart set "" = [] := rfl
  rw [← hempty, (pathPart_injective set).eq_iff]

theorem slash_notMem_pathPart (set : PartSet) (segment : String) :
    slash ∉ pathPart set segment := by
  unfold pathPart
  split_ifs with hdots
  · rw [Bool.or_eq_true, decide_eq_true_eq, decide_eq_true_eq] at hdots
    rcases hdots with rfl | rfl <;> decide +kernel
  · intro hmem
    rcases Percent.mem_encode hmem with h | h | h
    · exact absurd h (by decide)
    · exact absurd h (by decide)
    · rw [set.slash] at h
      cases h

/-- Two keys have the same path exactly when they have the same segments, but for empty ones. -/
theorem ofKey_eq_iff (set : PartSet) (key key' : String) :
    ObjectPath.ofKey set key = ObjectPath.ofKey set key' ↔
      (Text.split '/' key).filter (· ≠ "") = (Text.split '/' key').filter (· ≠ "") := by
  have hparts : ∀ key,
      ((Text.split '/' key).map (pathPart set)).filter (fun part => !part.isEmpty) =
        ((Text.split '/' key).filter (· ≠ "")).map (pathPart set) := by
    intro key
    rw [List.filter_map]
    congr 2
    funext segment
    rw [Bool.eq_iff_iff]
    simp [pathPart_eq_nil_iff]
  have hfree : ∀ key, ∀ part ∈ ((Text.split '/' key).map (pathPart set)).filter
      (fun part => !part.isEmpty), part ≠ [] ∧ slash ∉ part := by
    intro key part hpart
    obtain ⟨hmem, hne⟩ := List.mem_filter.1 hpart
    obtain ⟨segment, -, rfl⟩ := List.mem_map.1 hmem
    exact ⟨by simpa using hne, slash_notMem_pathPart set segment⟩
  constructor
  -- No part is empty or has a separator in it, so the joined path can be taken apart again.
  · intro h
    have hlists := Text.intercalate_inj (hfree key) (hfree key') h
    rw [hparts, hparts] at hlists
    exact (List.map_injective_iff.2 (pathPart_injective set)) hlists
  · intro h
    unfold ObjectPath.ofKey
    rw [hparts, hparts, h]

/-- The path of an accepted key is that of an object. -/
theorem path_ne_nil (s3 : S3Backend σ) {key : String} (h : validateKey key = .ok ()) :
    s3.path key ≠ [] := by
  intro hnil
  have hempty : ObjectPath.ofKey s3.store.invalid "" = [] := rfl
  have hsegments := (ofKey_eq_iff _ key "").1 (hnil.trans hempty.symm)
  have hall : (Text.split '/' key).filter (· ≠ "") = Text.split '/' key := by
    rw [List.filter_eq_self]
    intro segment hsegment
    simpa using ((validateKey_ok h).2 segment hsegment).2
  rw [hall] at hsegments
  exact absurd hsegments (by simp [Text.split, List.splitOn_ne_nil])

/-! ### What the backends make of a key -/

/-- The result is the error of an invalid key. -/
def Refused {α : Type} (r : Except StorageError α) : Prop := ∃ key, r = .error (.invalidKey key)

/-- Both backends refuse a key, or neither does, in all four operations. -/
structure SameVerdict (s3 : S3Backend σ) (b : LocalBackend) (s : σ) (fs : FileSystem)
    (key : String) : Prop where
  put : ∀ faults body, Refused (s3.put key body s).1 ↔ Refused (b.put faults key body fs).1
  get : ∀ fault, Refused (s3.get key s) ↔ Refused (b.get fault key fs)
  delete : ∀ fault, Refused (s3.delete key s).1 ↔ Refused (b.delete fault key fs).1
  existsKey : ∀ fault, Refused (s3.existsKey key s) ↔ Refused (b.existsKey fault key fs)

/-- Two keys address the same object in the bucket. -/
def SameObject (s3 : S3Backend σ) (key key' : String) : Prop := s3.path key = s3.path key'

/-- Two keys address the same file: their paths lead to the same place from everywhere. -/
def SameFile (b : LocalBackend) (key key' : String) : Prop :=
  ∀ cwd, (parse (join b.root (keyPath key))).walk cwd =
    (parse (join b.root (keyPath key'))).walk cwd

/-- The backends agree on two keys. -/
structure KeysAgree (s3 : S3Backend σ) (b : LocalBackend) (s : σ) (fs : FileSystem)
    (key key' : String) : Prop where
  verdict : SameVerdict s3 b s fs key
  verdict' : SameVerdict s3 b s fs key'
  identity : validateKey key = .ok () → validateKey key' = .ok () →
    (SameObject s3 key key' ↔ SameFile b key key')

/-- The segments of a key but for those that stay in a directory. -/
def withoutDots (key : String) : List String := (Text.split '/' key).filter (· ≠ ".")

variable {key key' : String}

@[simp] theorem not_refused_ok {α : Type} (a : α) :
    ¬ Refused (.ok a : Except StorageError α) := by
  rintro ⟨key, ⟨⟩⟩

@[simp] theorem not_refused_backendError {α : Type} (e : IoError) :
    ¬ Refused (.error (backendError e) : Except StorageError α) := by
  rintro ⟨key, ⟨⟩⟩

@[simp] theorem not_refused_mapError {α : Type} (err : ObjectStoreError) :
    ¬ Refused (.error (mapError err) : Except StorageError α) := by
  rintro ⟨key, h⟩
  cases err <;> cases h

/-- The local backend refuses a key exactly when the check does. -/
theorem refused_resolvePath_iff (b : LocalBackend) (key : String) :
    Refused (b.resolvePath key) ↔ validateKey key ≠ .ok () := by
  unfold LocalBackend.resolvePath
  cases hkey : validateKey key with
  | ok _ => simp
  | error err =>
    rw [validateKey_error hkey]
    simp [Refused]

theorem refused_put_iff (b : LocalBackend) (faults : PutFaults) (key : String) (body : List UInt8)
    (fs : FileSystem) : Refused (b.put faults key body fs).1 ↔ validateKey key ≠ .ok () := by
  rw [← refused_resolvePath_iff b key]
  unfold LocalBackend.put
  cases hpath : b.resolvePath key with
  | error err => simp [Refused]
  | ok path =>
    simp only [not_refused_ok, iff_false]
    unfold putAt writeAll
    split
    · simp
    · split
      · simp
      · split
        · simp
        · split <;> simp

theorem refused_get_iff (b : LocalBackend) (fault : Option IoError) (key : String)
    (fs : FileSystem) : Refused (b.get fault key fs) ↔ validateKey key ≠ .ok () := by
  rw [← refused_resolvePath_iff b key]
  unfold LocalBackend.get
  cases hpath : b.resolvePath key with
  | error err => simp [Refused]
  | ok path =>
    simp only [not_refused_ok, iff_false]
    split
    · simp
    · rintro ⟨key, ⟨⟩⟩
    · simp

theorem refused_delete_iff (b : LocalBackend) (fault : Option IoError) (key : String)
    (fs : FileSystem) : Refused (b.delete fault key fs).1 ↔ validateKey key ≠ .ok () := by
  rw [← refused_resolvePath_iff b key]
  unfold LocalBackend.delete
  cases hpath : b.resolvePath key with
  | error err => simp [Refused]
  | ok path =>
    simp only [not_refused_ok, iff_false]
    split <;> simp

theorem refused_existsKey_iff (b : LocalBackend) (fault : Option IoError) (key : String)
    (fs : FileSystem) : Refused (b.existsKey fault key fs) ↔ validateKey key ≠ .ok () := by
  rw [← refused_resolvePath_iff b key]
  unfold LocalBackend.existsKey
  cases hpath : b.resolvePath key with
  | error err => simp [Refused]
  | ok path => simp

/-- The S3 backend refuses no key. -/
theorem s3_accepts (s3 : S3Backend σ) (key : String) (body : List UInt8) (s : σ) :
    ¬ Refused (s3.put key body s).1 ∧ ¬ Refused (s3.get key s) ∧
      ¬ Refused (s3.delete key s).1 ∧ ¬ Refused (s3.existsKey key s) := by
  refine ⟨?_, ?_, ?_, ?_⟩
  · unfold S3Backend.put
    split <;> simp
  · unfold S3Backend.get
    split <;> simp
  · unfold S3Backend.delete
    split <;> simp
  · unfold S3Backend.existsKey
    split <;> simp

theorem sameVerdict_iff (s3 : S3Backend σ) (b : LocalBackend) (s : σ) (fs : FileSystem)
    (key : String) : SameVerdict s3 b s fs key ↔ validateKey key = .ok () := by
  constructor
  -- A key that only the local backend refuses is told by a get.
  · intro h
    by_contra hkey
    exact (s3_accepts s3 key [] s).2.1 ((h.get none).2 ((refused_get_iff b none key fs).2 hkey))
  · intro hkey
    refine ⟨fun faults body => ?_, fun fault => ?_, fun fault => ?_, fun fault => ?_⟩
    · simp [(s3_accepts s3 key body s).1, refused_put_iff, hkey]
    · simp [(s3_accepts s3 key [] s).2.1, refused_get_iff, hkey]
    · simp [(s3_accepts s3 key [] s).2.2.1, refused_delete_iff, hkey]
    · simp [(s3_accepts s3 key [] s).2.2.2, refused_existsKey_iff, hkey]

/-! ### Which keys are the same -/

theorem split_injective (sep : Char) : Function.Injective (Text.split sep) := by
  intro s t h
  have hlists : s.toList.splitOn sep = t.toList.splitOn sep :=
    List.map_injective_iff.2 (fun _ _ heq => String.ofList_injective heq) h
  have hjoin : ∀ cs : List Char, [sep].intercalate (cs.splitOn sep) = cs :=
    fun _ => List.intercalate_splitOn sep
  rw [← String.toList_inj, ← hjoin s.toList, hlists, hjoin]

theorem sameObject_iff (s3 : S3Backend σ) (hkey : validateKey key = .ok ())
    (hkey' : validateKey key' = .ok ()) : SameObject s3 key key' ↔ key = key' := by
  have hall : ∀ {key}, validateKey key = .ok () →
      (Text.split '/' key).filter (· ≠ "") = Text.split '/' key := by
    intro key hkey
    refine List.filter_eq_self.2 fun segment hsegment => ?_
    simpa using ((validateKey_ok hkey).2 segment hsegment).2
  unfold SameObject S3Backend.path
  rw [ofKey_eq_iff, hall hkey, hall hkey', (split_injective '/').eq_iff]

/-- The names of an accepted key are its segments but for those that stay. -/
theorem keyNames_eq (hkey : validateKey key = .ok ()) :
    keyNames key = (withoutDots key).map segmentBytes := by
  have hmap : keySteps key = ((Text.split '/' key).map segmentBytes).map Step.ofSegment := by
    rw [keySteps_eq hkey, List.map_map]
    rfl
  have hup : [dot, dot] ∉ (Text.split '/' key).map segmentBytes := by
    intro hmem
    obtain ⟨segment, hsegment, heq⟩ := List.mem_map.1 hmem
    exact (segmentBytes_spec hkey hsegment).2 heq
  have hstay : ∀ segment ∈ Text.split '/' key, segmentBytes segment = [dot] ↔ segment = "." := by
    intro segment hsegment
    have hdot : segmentBytes "." = [dot] := by decide +kernel
    rw [← hdot]
    exact ⟨fun h => segmentBytes_inj (ascii_segment hkey hsegment) (by simp) h,
      fun h => congrArg segmentBytes h⟩
  unfold keyNames withoutDots
  rw [hmap, names_map_ofSegment hup, List.filter_map]
  congr 1
  refine List.filter_congr fun segment hsegment => ?_
  simp [hstay segment hsegment]

theorem sameFile_iff (b : LocalBackend) (hkey : validateKey key = .ok ())
    (hkey' : validateKey key' = .ok ()) :
    SameFile b key key' ↔ withoutDots key = withoutDots key' := by
  have hwalk : ∀ {key}, validateKey key = .ok () → ∀ cwd,
      (parse (join b.root (keyPath key))).walk cwd =
        (parse b.root).walk cwd ++ (withoutDots key).map segmentBytes := by
    intro key hkey cwd
    rw [parse_keyPath hkey, ← keyNames_eq hkey]
    unfold Path.walk
    rw [List.foldl_append, foldl_move_eq (up_notMem_keySteps hkey)]
    rfl
  have hascii : ∀ {key}, validateKey key = .ok () → ∀ segment ∈ withoutDots key,
      ∀ c ∈ segment.toList, c.toNat ≤ 127 := by
    intro key hkey segment hsegment
    exact ascii_segment hkey (List.mem_filter.1 hsegment).1
  unfold SameFile
  simp only [hwalk hkey, hwalk hkey', List.append_cancel_left_eq]
  constructor
  · intro h
    exact Text.map_inj_on (fun s hs t ht heq =>
      segmentBytes_inj (hascii hkey s hs) (hascii hkey' t ht) heq) (h [])
  · intro h _
    rw [h]

/-- **The backends agree on two keys if and only if both keys pass the check of the local backend
and differ, if they differ, even without the segments that stay.** -/
theorem keysAgree_iff (s3 : S3Backend σ) (b : LocalBackend) (s : σ) (fs : FileSystem)
    (key key' : String) :
    KeysAgree s3 b s fs key key' ↔ validateKey key = .ok () ∧ validateKey key' = .ok () ∧
      (key = key' ∨ withoutDots key ≠ withoutDots key') := by
  constructor
  · rintro ⟨h, h', hidentity⟩
    have hkey := (sameVerdict_iff s3 b s fs key).1 h
    have hkey' := (sameVerdict_iff s3 b s fs key').1 h'
    have hsame := hidentity hkey hkey'
    rw [sameObject_iff s3 hkey hkey', sameFile_iff b hkey hkey'] at hsame
    refine ⟨hkey, hkey', ?_⟩
    by_cases heq : key = key'
    · exact .inl heq
    · exact .inr fun hdots => heq (hsame.2 hdots)
  · rintro ⟨hkey, hkey', hcond⟩
    refine ⟨(sameVerdict_iff s3 b s fs key).2 hkey, (sameVerdict_iff s3 b s fs key').2 hkey',
      fun _ _ => ?_⟩
    rw [sameObject_iff s3 hkey hkey', sameFile_iff b hkey hkey']
    constructor
    · rintro rfl
      rfl
    · intro hdots
      exact hcond.resolve_right fun hne => hne hdots

/-! ### A bucket -/

/-- Control characters, the separator and the characters that the crate avoids in paths. -/
def samplePartSet : PartSet where
  contains b := b < 32 || b == 127 ||
    [47, 92, 123, 94, 125, 37, 96, 93, 34, 62, 91, 126, 60, 35, 124, 42, 63].contains b
  percent := by decide
  slash := by decide

/-- A bucket that answers every request. -/
def sampleStore : ObjectStore (ObjectPath → Option (List UInt8)) where
  invalid := samplePartSet
  put path body s := (.ok (), fun p => if p = path then some body else s p)
  get path s := (s path).elim (.error (.notFound "no such key")) fun bytes => .ok (.ok bytes)
  delete path s := (.ok (), fun p => if p = path then none else s p)
  head path s := (s path).elim (.error (.notFound "no such key")) fun _ => .ok ()

/-- A key that goes up is refused by the local backend only, and a segment that stays makes
another object of the same file. -/
theorem not_keysAgree :
    ¬ KeysAgree ⟨sampleStore⟩ sampleBackend (fun _ => none) sampleTree "../x" "x" ∧
      ¬ KeysAgree ⟨sampleStore⟩ sampleBackend (fun _ => none) sampleTree "a/b" "a/./b" := by
  constructor
  · rintro ⟨h, -, -⟩
    have hkey := (sameVerdict_iff _ _ _ _ _).1 h
    exact absurd hkey (by decide +kernel)
  · rintro ⟨-, -, hidentity⟩
    have hkey : validateKey "a/b" = .ok () := by decide +kernel
    have hkey' : validateKey "a/./b" = .ok () := by decide +kernel
    have hfile : SameFile sampleBackend "a/b" "a/./b" :=
      (sameFile_iff sampleBackend hkey hkey').2 (by decide +kernel)
    have hobject := (hidentity hkey hkey').2 hfile
    rw [sameObject_iff _ hkey hkey'] at hobject
    exact absurd hobject (by decide)

end Storage

end OaLibs
