import OaLibs.Base.PlainTree
import OaLibs.Storage.Key

/-!
# The local backend

The operations of `LocalBackend` on a file tree. The system calls they make fail as the tree makes
them fail, and may also fail by themselves: what fails is an argument of each operation.
-/

namespace OaLibs

namespace Storage

open UnixPath FileTree

/-- The local disk backend. -/
structure LocalBackend where
  root : PathBuf
  signSecret : List UInt8

/-- The check of a key and its path on the disk. -/
def LocalBackend.resolvePath (b : LocalBackend) (key : String) : Except StorageError PathBuf :=
  match validateKey key with
  | .error err => .error err
  | .ok () => .ok (join b.root (keyPath key))

def resolveWithin (root : PathBuf) (key : String) : Except StorageError PathBuf :=
  match validateKey key with
  | .error err => .error err
  | .ok () => .ok (join root (keyPath key))

/-- An error of the system as an error of the backend. -/
def backendError (e : IoError) : StorageError := .backend e.display

/-- The failures that the calls of one `put` meet by themselves. A failing write still writes as
many bytes as it says. -/
structure PutFaults where
  createDir : FileSystem.DirCall → Path → Option IoError
  create : Option IoError
  write : Option (ℕ × IoError)
  flush : Option IoError

def PutFaults.none : PutFaults := ⟨fun _ _ => Option.none, Option.none, Option.none, Option.none⟩

/-- The directory of a file, with its ancestors. -/
def createParent (faults : PutFaults) (path : Path) (fs : FileSystem) :
    Except IoError Unit × FileSystem :=
  match path.parent with
  | some parent => FileSystem.createDirAll faults.createDir parent fs
  | Option.none => (.ok (), fs)

/-- Writing and flushing an open file. -/
def writeAll (faults : PutFaults) (file : Loc) (body : List UInt8) (fs : FileSystem) :
    Except StorageError Unit × FileSystem :=
  match faults.write with
  | some (n, e) => (.error (backendError e), fs.append file (body.take n))
  | Option.none =>
      match faults.flush with
      | some e => (.error (backendError e), fs.append file body)
      | Option.none => (.ok (), fs.append file body)

def putAt (faults : PutFaults) (path : Path) (body : List UInt8) (fs : FileSystem) :
    Except StorageError Unit × FileSystem :=
  match createParent faults path fs with
  | (.error e, fs) => (.error (backendError e), fs)
  | (.ok (), fs) =>
      -- From here on the old content is gone.
      match FileSystem.faulty faults.create (fs.create path) with
      | .error e => (.error (backendError e), fs)
      | .ok (file, fs) => writeAll faults file body fs

def LocalBackend.put (b : LocalBackend) (faults : PutFaults) (key : String) (body : List UInt8)
    (fs : FileSystem) : Except StorageError Unit × FileSystem :=
  match b.resolvePath key with
  | .error err => (.error err, fs)
  | .ok path => putAt faults (parse path) body fs

def LocalBackend.get (b : LocalBackend) (fault : Option IoError) (key : String)
    (fs : FileSystem) : Except StorageError (List UInt8) :=
  match b.resolvePath key with
  | .error err => .error err
  | .ok path =>
      match FileSystem.faulty fault (fs.read (parse path)) with
      | .ok bytes => .ok bytes
      | .error .notFound => .error (.notFound key)
      | .error e => .error (backendError e)

def LocalBackend.delete (b : LocalBackend) (fault : Option IoError) (key : String)
    (fs : FileSystem) : Except StorageError Unit × FileSystem :=
  match b.resolvePath key with
  | .error err => (.error err, fs)
  | .ok path =>
      match FileSystem.faulty fault (fs.unlink (parse path)) with
      | .ok fs => (.ok (), fs)
      -- Deleting what is not there succeeds.
      | .error .notFound => (.ok (), fs)
      | .error e => (.error (backendError e), fs)

/-- `exists`: whether the path of the key leads to anything. -/
def LocalBackend.existsKey (b : LocalBackend) (fault : Option IoError) (key : String)
    (fs : FileSystem) : Except StorageError Bool :=
  match b.resolvePath key with
  | .error err => .error err
  | .ok path => .ok (FileSystem.faulty fault (fs.stat (parse path))).toBool

/-! ### What the operations do -/

variable {b : LocalBackend} {key : String} {path : PathBuf} {fs fs' : FileSystem} {p : Path}

theorem resolvePath_eq_ok :
    b.resolvePath key = .ok path ↔
      validateKey key = .ok () ∧ path = join b.root (keyPath key) := by
  unfold LocalBackend.resolvePath
  cases hkey : validateKey key with
  | error err => simp
  | ok _ => simp [eq_comm]

theorem resolvePath_of_ok (h : validateKey key = .ok ()) :
    b.resolvePath key = .ok (join b.root (keyPath key)) :=
  resolvePath_eq_ok.2 ⟨h, rfl⟩

/-- The functions that resolve a key agree. -/
theorem resolveWithin_eq (b : LocalBackend) (key : String) :
    resolveWithin b.root key = b.resolvePath key := rfl

/-- The path of a key goes on from the root with the steps of the key. -/
theorem parse_keyPath (h : validateKey key = .ok ()) :
    parse (join b.root (keyPath key)) =
      ⟨(parse b.root).absolute, (parse b.root).steps ++ keySteps key⟩ :=
  parse_join (head_keyPath h)

/-- A rejected key changes nothing. -/
theorem put_of_rejected (h : validateKey key ≠ .ok ()) (faults : PutFaults) (body : List UInt8)
    (fs : FileSystem) : (b.put faults key body fs).2 = fs := by
  unfold LocalBackend.put
  cases hpath : b.resolvePath key with
  | error err => rfl
  | ok path => exact absurd (resolvePath_eq_ok.1 hpath).1 h

theorem delete_of_rejected (h : validateKey key ≠ .ok ()) (fault : Option IoError)
    (fs : FileSystem) : (b.delete fault key fs).2 = fs := by
  unfold LocalBackend.delete
  cases hpath : b.resolvePath key with
  | error err => rfl
  | ok path => exact absurd (resolvePath_eq_ok.1 hpath).1 h

theorem createParent_extends (faults : PutFaults) (p : Path) (fs : FileSystem) :
    fs.Extends (createParent faults p fs).2 := by
  unfold createParent
  split
  · exact FileSystem.createDirAll_extends _ _ _
  · exact FileSystem.Extends.refl fs

/-- What is written of the body is a front part of it. -/
theorem writeAll_snd (faults : PutFaults) (file : Loc) (body : List UInt8) (fs : FileSystem) :
    ∃ bytes, bytes <+: body ∧ (writeAll faults file body fs).2 = fs.append file bytes := by
  unfold writeAll
  split
  · exact ⟨_, List.take_prefix _ body, rfl⟩
  · split <;> exact ⟨body, List.prefix_rfl, rfl⟩

/-- Putting makes directories, and then a file with a front part of the body at the place the path
leads to, unless it stops before. -/
theorem putAt_cases (faults : PutFaults) (p : Path) (body : List UInt8) (fs : FileSystem) :
    ∃ fs₁, fs.Extends fs₁ ∧ ((putAt faults p body fs).2 = fs₁ ∨
      ∃ m bytes fs₂, fs₁.create p = .ok (m, fs₂) ∧
        (putAt faults p body fs).2 = fs₁.insert m (.file bytes)) := by
  refine ⟨(createParent faults p fs).2, createParent_extends faults p fs, ?_⟩
  unfold putAt
  split
  · rename_i e fs₁ h
    exact Or.inl (by rw [h])
  · rename_i fs₁ h
    rw [h]
    split
    · exact Or.inl rfl
    · rename_i m fs₂ hcreate
      obtain ⟨-, hcreate⟩ := FileSystem.faulty_eq_ok.1 hcreate
      obtain ⟨bytes, -, hbytes⟩ := writeAll_snd faults m body fs₂
      refine Or.inr ⟨m, bytes, fs₂, hcreate, ?_⟩
      obtain ⟨-, hacc, -, rfl⟩ := FileSystem.create_eq_ok hcreate
      rw [hbytes, FileSystem.insert_append hacc]

/-- A put that succeeds has opened its file, in a tree with more directories. -/
theorem putAt_ok {faults : PutFaults} {body : List UInt8}
    (h : (putAt faults p body fs).1 = .ok ()) :
    ∃ fs₁ m fs₂, fs.Extends fs₁ ∧ fs₁.create p = .ok (m, fs₂) := by
  have hext := createParent_extends faults p fs
  unfold putAt at h
  split at h
  · cases h
  · rename_i fs₁ hparent
    rw [hparent] at hext
    split at h
    · cases h
    · rename_i m fs₂ hcreate
      exact ⟨fs₁, m, fs₂, hext, (FileSystem.faulty_eq_ok.1 hcreate).2⟩

theorem delete_cases (h : validateKey key = .ok ()) (fault : Option IoError) (fs : FileSystem) :
    (b.delete fault key fs).2 = fs ∨
      fs.unlink (parse (join b.root (keyPath key))) = .ok (b.delete fault key fs).2 := by
  unfold LocalBackend.delete
  rw [resolvePath_of_ok h]
  split
  · cases ‹_ = _›
  · rename_i path hpath
    obtain rfl := Except.ok.inj hpath
    split
    · rename_i fs₁ hunlink
      exact Or.inr (FileSystem.faulty_eq_ok.1 hunlink).2
    · exact Or.inl rfl
    · exact Or.inl rfl

/-! ### A sample tree -/

/-- A backend on `/data`. -/
def sampleBackend : LocalBackend := ⟨Text.utf8 "/data", []⟩

/-- A tree with the empty directory `/data` and a file `/etc` beside it. -/
def sampleTree : FileSystem :=
  (FileSystem.bare.insert [segmentBytes "data"] .dir).insert [segmentBytes "etc"] (.file [9])

theorem sampleTree_node (l : Loc) :
    sampleTree.node l = if l = [segmentBytes "etc"] then some (.file [9])
      else if l = [segmentBytes "data"] then some .dir else if l = [] then some .dir else none := by
  have hdata : FileSystem.bare.Accepts [segmentBytes "data"] := by decide +kernel
  have hetc : (FileSystem.bare.insert [segmentBytes "data"] .dir).Accepts [segmentBytes "etc"] := by
    decide +kernel
  unfold sampleTree
  rw [FileSystem.insert_node hetc, FileSystem.insert_node hdata]
  rfl

end Storage

end OaLibs
