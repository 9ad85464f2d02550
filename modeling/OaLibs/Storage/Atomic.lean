import OaLibs.Storage.Steps

/-!
# Gets during a put

A put writes the file of its key in place. What the gets of the key return while it runs, and after
it stopped with an error, depends on how far it came: until it opens the file they return what they
returned before, and from then on they see the front part of the body that is written.

* `Unopened`, `Written`: the disk before and after the file is opened;
* `PutState.Ok`, `GetState.Ok`: the invariant of the put, and what a get relies on;
* `putting_proof`: the put keeps its invariant and does not disturb the gets;
* `gets_during_put`: what every get returns; `not_putAtomic`: it is not always all or nothing.
-/

namespace OaLibs

namespace Storage

open UnixPath FileTree
open FileTree.FileSystem (Keeps)

/-- The put is atomic: after an error a get returns what it returned before, and every get returns
that or the whole body. -/
def PutAtomic (b : LocalBackend) (key : String) (body : List UInt8) (fs₀ : FileSystem) : Prop :=
  ∀ es s, Runs.run (putting b key body).step (beforePut b key fs₀) es = some s →
    (∀ written err, s.world.put = .returned written (.error err) →
      b.get none key s.world.fs = b.get none key fs₀) ∧
    ∀ g ∈ s.procs, ∀ reply, g.state = .returned reply →
      reply = b.get none key fs₀ ∨ reply = .ok body

/-- The bytes under a key, none if it cannot be read. -/
def bytesOf (b : LocalBackend) (key : String) (fs : FileSystem) : List UInt8 :=
  (b.get none key fs).toOption.getD []

/-- The first `i` bytes of the old content, and the bytes from there to `k` of the body. -/
def mixture (old body : List UInt8) (i k : ℕ) : List UInt8 := old.take i ++ (body.take k).drop i

/-! ### Mixtures -/

section Mixture

variable {old body : List UInt8} {i k n : ℕ}

@[simp] theorem mixture_zero_left : mixture old body 0 k = body.take k := rfl

@[simp] theorem mixture_zero_right : mixture old body i 0 = old.take i := by
  simp [mixture]

/-- Reading on in a content of which some bytes are read. -/
theorem take_append_read (bytes : List UInt8) (m c : ℕ) :
    bytes.take m ++ (bytes.drop (bytes.take m).length).take c =
      bytes.take ((bytes.take m).length + c) := by
  rw [List.take_add]
  congr 1
  rw [List.length_take, List.take_eq_take_iff]
  simp

/-- Reading on in the old content. -/
theorem mixture_old (hi : i ≤ old.length) (c : ℕ) :
    ∃ i', i' ≤ old.length ∧ mixture old body i 0 ++
      (old.drop (mixture old body i 0).length).take c = mixture old body i' 0 := by
  refine ⟨min (i + c) old.length, min_le_right _ _, ?_⟩
  simp only [mixture_zero_right]
  rw [take_append_read, List.take_eq_take_iff, List.length_take]
  omega

/-- Reading on in the new content. -/
theorem mixture_append (hi : i ≤ old.length) (hk : k ≤ n) (c : ℕ) :
    ∃ k', k' ≤ n ∧ mixture old body i k ++
      ((body.take n).drop (mixture old body i k).length).take c = mixture old body i k' := by
  -- What is left behind the old bytes, of which a front part is read.
  generalize hx : (body.take n).drop i = x
  have htake : ∀ m, m ≤ n → (body.take m).drop i = x.take (m - i) := by
    intro m hm
    rw [← hx, List.drop_take, List.drop_take, List.take_take]
    congr 1
    omega
  have hlen : (mixture old body i k).length = i + (x.take (k - i)).length := by
    rw [mixture, htake k hk, List.length_append, List.length_take_of_le hi]
  have hdrop : (body.take n).drop (mixture old body i k).length =
      x.drop (x.take (k - i)).length := by
    rw [hlen, ← List.drop_drop, hx]
  refine ⟨min (i + ((x.take (k - i)).length + c)) n, min_le_right _ _, ?_⟩
  rw [hdrop, mixture, mixture, htake k hk, htake _ (min_le_right _ _), List.append_assoc,
    take_append_read]
  have hxlen : x.length ≤ n - i := by
    rw [← hx, List.length_drop, List.length_take]
    omega
  congr 1
  rw [List.take_eq_take_iff]
  omega

end Mixture

/-! ### The disk during a put -/

section Disk

variable (b : LocalBackend) (key : String) (body : List UInt8) (fs₀ : FileSystem)

/-- The path of the file that the put writes. -/
def filePath : Path := parse (join b.root (keyPath key))

/-- The disk before the file is opened: a get returns what it returned at first. -/
structure Unopened (fs : FileSystem) : Prop where
  anchored : fs.Anchored (filePath b key)
  read : fs.read (filePath b key) = fs₀.read (filePath b key)

/-- The disk with the first `n` bytes of the body in the file. -/
structure Written (fs : FileSystem) (file : Loc) (n : ℕ) : Prop where
  resolve : fs.resolve true (filePath b key) = .ok (.found file)
  node : fs.node file = some (.file (body.take n))
  le : n ≤ body.length

/-- A directory on the way to the file. -/
def Above (p : Path) : Prop :=
  p.absolute = (filePath b key).absolute ∧ p.steps <+: (filePath b key).components.dropLast

/-- An opened file stays where it is. -/
def Kept (fs fs' : FileSystem) : Prop :=
  ∀ file bytes, fs.resolve true (filePath b key) = .ok (.found file) →
    fs.node file = some (.file bytes) →
    fs'.resolve true (filePath b key) = .ok (.found file) ∧
      ∃ bytes', fs'.node file = some (.file bytes')

/-- What is true of the put and of the disk. -/
def PutState.Ok (fs : FileSystem) : PutState → Prop
  | .descend path components above =>
      path = filePath b key ∧ Unopened b key fs₀ fs ∧
        components.reverse <+: (filePath b key).components.dropLast ∧ ∀ p ∈ above, Above b key p
  | .ascend path above => path = filePath b key ∧ Unopened b key fs₀ fs ∧ ∀ p ∈ above, Above b key p
  | .creating path => path = filePath b key ∧ Unopened b key fs₀ fs
  | .writing file n => Written b key body fs file n
  | .returned none result => Unopened b key fs₀ fs ∧ ∃ err, result = .error err
  | .returned (some n) result =>
      (∃ file, Written b key body fs file n) ∧ (result = .ok () → n = body.length)

/-- The put does not go back. -/
def Progress (before after : Option ℕ) : Prop :=
  ∀ n₀, before = some n₀ → ∃ n, after = some n ∧ n₀ ≤ n

/-- What a get returns that started when `since` was written, up to now, when `written` is. -/
def ReplyOk (since written : Option ℕ) (reply : Except StorageError (List UInt8)) : Prop :=
  (since = none → reply = b.get none key fs₀ ∨
    ∃ n i k, written = some n ∧ i ≤ (bytesOf b key fs₀).length ∧ k ≤ n ∧
      reply = .ok (mixture (bytesOf b key fs₀) body i k)) ∧
  ∀ n₀, since = some n₀ → ∃ n k, written = some n ∧ n₀ ≤ k ∧ k ≤ n ∧ reply = .ok (body.take k)

/-- What a get relies on. -/
def GetState.Ok (w : World) (since : Option ℕ) : GetState → Prop
  | .ready => True
  | .opened file got =>
      w.fs.resolve true (filePath b key) = .ok (.found file) ∧
        (∃ bytes, w.fs.node file = some (.file bytes)) ∧
        ∃ i k, i ≤ (bytesOf b key fs₀).length ∧ (since ≠ none → i = 0) ∧
          k ≤ w.put.written.getD 0 ∧ got = mixture (bytesOf b key fs₀) body i k
  | .returned reply => ReplyOk b key body fs₀ since w.put.written reply

end Disk

variable {b : LocalBackend} {key : String} {body : List UInt8} {fs₀ fs fs' : FileSystem}
  {file m : Loc} {n : ℕ} {p : Path}

/-- A get returns what reading the file returns. -/
theorem get_eq (hkey : validateKey key = .ok ()) :
    b.get none key fs = match fs.read (filePath b key) with
      | .ok bytes => .ok bytes
      | .error .notFound => .error (.notFound key)
      | .error e => .error (backendError e) := by
  unfold LocalBackend.get
  rw [resolvePath_of_ok hkey]
  rfl

theorem get_congr (hkey : validateKey key = .ok ())
    (h : fs'.read (filePath b key) = fs.read (filePath b key)) :
    b.get none key fs' = b.get none key fs := by
  rw [get_eq hkey, get_eq hkey, h]

theorem get_of_file {bytes : List UInt8} (hkey : validateKey key = .ok ())
    (hresolve : fs.resolve true (filePath b key) = .ok (.found file))
    (hnode : fs.node file = some (.file bytes)) : b.get none key fs = .ok bytes := by
  rw [get_eq hkey, FileSystem.read_of_file hresolve hnode]

theorem Unopened.get (hkey : validateKey key = .ok ()) (h : Unopened b key fs₀ fs) :
    b.get none key fs = b.get none key fs₀ :=
  get_congr hkey h.read

theorem Written.get (hkey : validateKey key = .ok ()) (h : Written b key body fs file n) :
    b.get none key fs = .ok (body.take n) :=
  get_of_file hkey h.resolve h.node

theorem Kept.refl (fs : FileSystem) : Kept b key fs fs :=
  fun _ bytes hresolve hnode => ⟨hresolve, bytes, hnode⟩

/-- A change that keeps directories, links and files keeps the opened file. -/
theorem kept_of_keeps (hkeeps : Keeps fs fs')
    (hfile : ∀ l bytes, fs.node l = some (.file bytes) →
      ∃ bytes', fs'.node l = some (.file bytes')) :
    Kept b key fs fs' := by
  intro l bytes hresolve hnode
  obtain ⟨bytes', hnode'⟩ := hfile l bytes hnode
  exact ⟨hkeeps.resolve_file hnode' (.inl rfl) hresolve, bytes', hnode'⟩

theorem kept_insert (hacc : fs.Accepts m) (hlink : ∀ target, fs.node m ≠ some (.link target))
    (bytes : List UInt8) : Kept b key fs (fs.insert m (.file bytes)) := by
  refine kept_of_keeps (FileSystem.keeps_insert_file hacc hlink bytes) fun l old hl => ?_
  rw [FileSystem.insert_node hacc]
  split_ifs
  · exact ⟨bytes, rfl⟩
  · exact ⟨old, hl⟩

/-- Making a directory on the way. -/
theorem Unopened.mkdir (h : Unopened b key fs₀ fs) (hp : Above b key p)
    (hmk : fs.mkdir p = .ok fs') :
    Unopened b key fs₀ fs' ∧ Kept b key fs fs' := by
  have hext := FileSystem.mkdir_extends hmk
  refine ⟨⟨h.anchored.extends hext, ?_⟩, ?_⟩
  · rw [h.anchored.read_mkdir hmk hp.1 hp.2, h.read]
  · exact kept_of_keeps hext.keeps fun l bytes hl => ⟨bytes, hext.node_of_some hl⟩

/-- Opening the file for writing. -/
theorem Written.create (body : List UInt8)
    (h : fs.create (filePath b key) = .ok (file, fs')) :
    Written b key body fs' file 0 ∧ Kept b key fs fs' := by
  obtain ⟨⟨x, hx, hresolve⟩, hacc, hlink, rfl⟩ := FileSystem.create_eq_ok h
  have hnode : (fs.insert file (.file [])).node file = some (.file []) := by
    rw [FileSystem.insert_node hacc, if_pos rfl]
  have hkeeps := FileSystem.keeps_insert_file hacc hlink []
  exact ⟨⟨hkeeps.resolve_file hnode hx hresolve, hnode, Nat.zero_le _⟩, kept_insert hacc hlink []⟩

/-- Writing on. -/
theorem Written.append (h : Written b key body fs file n) (c : ℕ) :
    Written b key body (fs.append file ((body.drop n).take c)) file (min (n + c) body.length) ∧
      Kept b key fs (fs.append file ((body.drop n).take c)) := by
  have hacc := FileSystem.accepts_of_node h.node (by simp)
  have hlink : ∀ target, fs.node file ≠ some (.link target) := by simp [h.node]
  rw [FileSystem.append_eq h.node]
  have hbytes : body.take n ++ (body.drop n).take c = body.take (min (n + c) body.length) := by
    rw [← List.take_add, List.take_eq_take_iff]
    omega
  rw [hbytes]
  have hnode : (fs.insert file (.file (body.take (min (n + c) body.length)))).node file =
      some (.file (body.take (min (n + c) body.length))) := by
    rw [FileSystem.insert_node hacc, if_pos rfl]
  have hkeeps := FileSystem.keeps_insert_file hacc hlink (body.take (min (n + c) body.length))
  exact ⟨⟨hkeeps.resolve_file hnode (.inl rfl) h.resolve, hnode, min_le_right _ _⟩,
    kept_insert hacc hlink _⟩

/-! ### The put -/

/-- What every call of the put guarantees to the gets. -/
structure Rely (b : LocalBackend) (key : String) (w w' : World) : Prop where
  progress : Progress w.put.written w'.put.written
  kept : Kept b key w.fs w'.fs

theorem Progress.refl (written : Option ℕ) : Progress written written :=
  fun n h => ⟨n, h, le_refl n⟩

theorem Progress.trans {x y z : Option ℕ} (h : Progress x y) (h' : Progress y z) :
    Progress x z := by
  intro n hn
  obtain ⟨n', hn', hle⟩ := h n hn
  obtain ⟨n'', hn'', hle'⟩ := h' n' hn'
  exact ⟨n'', hn'', hle.trans hle'⟩

theorem Progress.none (written : Option ℕ) : Progress .none written := by
  intro n h
  cases h

/-- What went wrong before the file was opened changes nothing. -/
theorem failed_ok (h : Unopened b key fs₀ fs) (e : IoError) :
    (PutState.failed none e).Ok b key body fs₀ fs :=
  ⟨h, _, rfl⟩

/-- What a step of the put has to keep. -/
def StepOk (b : LocalBackend) (key : String) (body : List UInt8) (fs₀ : FileSystem)
    (w w' : World) : Prop :=
  w'.put.Ok b key body fs₀ w'.fs ∧ Rely b key w w'

/-- A call that leaves the disk as it is. -/
theorem stepOk_put {w : World} {put : PutState} (h : put.Ok b key body fs₀ w.fs)
    (hprogress : Progress w.put.written put.written) :
    StepOk b key body fs₀ w { w with put := put } :=
  ⟨h, hprogress, Kept.refl w.fs⟩

/-- A call that is not the next one. -/
theorem stepOk_refl {w : World} (h : w.put.Ok b key body fs₀ w.fs) : StepOk b key body fs₀ w w :=
  stepOk_put h (Progress.refl _)

theorem descend_ok {w : World} {path : Path} {components : List Step} {above : List Path}
    (hput : w.put = .descend path components above) (h : w.put.Ok b key body fs₀ w.fs)
    (mkdir isDir : Option IoError) :
    StepOk b key body fs₀ w (putStep body w (.dir mkdir isDir)) := by
  obtain ⟨fs, put⟩ := w
  obtain rfl : put = _ := hput
  obtain ⟨rfl, hun, hcomp, habove⟩ := h
  cases components with
  | nil => exact stepOk_put ⟨rfl, hun, habove⟩ (Progress.none _)
  | cons step rest =>
    have hp : Above b key ⟨(filePath b key).absolute, (step :: rest).reverse⟩ := ⟨rfl, hcomp⟩
    simp only [putStep]
    split
    · rename_i fs₁ hmk
      obtain ⟨hun₁, hkept⟩ := hun.mkdir hp (FileSystem.faulty_eq_ok.1 hmk).2
      exact ⟨⟨rfl, hun₁, habove⟩, Progress.none _, hkept⟩
    · refine stepOk_put ⟨rfl, hun, ?_, ?_⟩ (Progress.none _)
      · rw [List.reverse_cons] at hcomp
        exact (List.prefix_append _ _).trans hcomp
      · exact List.forall_mem_cons.2 ⟨hp, habove⟩
    · split_ifs
      · exact stepOk_put ⟨rfl, hun, habove⟩ (Progress.none _)
      · exact stepOk_put (failed_ok hun _) (Progress.none _)

theorem ascend_ok {w : World} {path : Path} {above : List Path}
    (hput : w.put = .ascend path above) (h : w.put.Ok b key body fs₀ w.fs)
    (mkdir isDir : Option IoError) :
    StepOk b key body fs₀ w (putStep body w (.dir mkdir isDir)) := by
  obtain ⟨fs, put⟩ := w
  obtain rfl : put = _ := hput
  obtain ⟨rfl, hun, habove⟩ := h
  cases above with
  | nil => exact stepOk_put ⟨rfl, hun⟩ (Progress.none _)
  | cons p above =>
    obtain ⟨hp, habove⟩ := List.forall_mem_cons.1 habove
    simp only [putStep]
    split
    · rename_i fs₁ hmk
      obtain ⟨hun₁, hkept⟩ := hun.mkdir hp (FileSystem.faulty_eq_ok.1 hmk).2
      exact ⟨⟨rfl, hun₁, habove⟩, Progress.none _, hkept⟩
    · split_ifs
      · exact stepOk_put ⟨rfl, hun, habove⟩ (Progress.none _)
      · exact stepOk_put (failed_ok hun _) (Progress.none _)

theorem creating_ok {w : World} {path : Path} (hput : w.put = .creating path)
    (h : w.put.Ok b key body fs₀ w.fs) (fault : Option IoError) :
    StepOk b key body fs₀ w (putStep body w (.create fault)) := by
  obtain ⟨fs, put⟩ := w
  obtain rfl : put = _ := hput
  obtain ⟨rfl, hun⟩ := h
  simp only [putStep]
  split
  · exact stepOk_put (failed_ok hun _) (Progress.none _)
  · rename_i file fs₁ hcreate
    obtain ⟨hwritten, hkept⟩ := Written.create body (FileSystem.faulty_eq_ok.1 hcreate).2
    exact ⟨hwritten, Progress.none _, hkept⟩

theorem write_ok {w : World} {file : Loc} {n : ℕ} (hput : w.put = .writing file n)
    (h : w.put.Ok b key body fs₀ w.fs) (c : ℕ) :
    StepOk b key body fs₀ w (putStep body w (.write c)) := by
  obtain ⟨fs, put⟩ := w
  obtain rfl : put = _ := hput
  obtain ⟨hwritten, hkept⟩ := Written.append h c
  refine ⟨hwritten, fun n₀ hn₀ => ⟨_, rfl, ?_⟩, hkept⟩
  obtain rfl : n = n₀ := Option.some.inj hn₀
  have hle := h.le
  omega

theorem finish_ok {w : World} {file : Loc} {n : ℕ} (hput : w.put = .writing file n)
    (h : w.put.Ok b key body fs₀ w.fs) (fault : Option IoError) :
    StepOk b key body fs₀ w (putStep body w (.finish fault)) := by
  obtain ⟨fs, put⟩ := w
  obtain rfl : put = _ := hput
  cases fault with
  | some e => exact stepOk_put ⟨⟨file, h⟩, by simp⟩ (Progress.refl _)
  | none =>
    simp only [putStep]
    split_ifs with hall
    · exact stepOk_put ⟨⟨file, h⟩, fun _ => hall⟩ (Progress.refl _)
    · exact stepOk_refl h

/-- One call of the put keeps the invariant of the put, and what the gets rely on. -/
theorem putStep_ok {w : World} (e : PutEvent) (h : w.put.Ok b key body fs₀ w.fs) :
    StepOk b key body fs₀ w (putStep body w e) := by
  cases e with
  | dir mkdir isDir =>
    cases hput : w.put with
    | descend path components above => exact descend_ok hput h mkdir isDir
    | ascend path above => exact ascend_ok hput h mkdir isDir
    | _ => simpa only [putStep, hput] using stepOk_refl h
  | create fault =>
    cases hput : w.put with
    | creating path => exact creating_ok hput h fault
    | _ => simpa only [putStep, hput] using stepOk_refl h
  | write c =>
    cases hput : w.put with
    | writing file n => exact write_ok hput h c
    | _ => simpa only [putStep, hput] using stepOk_refl h
  | finish fault =>
    cases hput : w.put with
    | writing file n => exact finish_ok hput h fault
    | _ => simpa only [putStep, hput] using stepOk_refl h

/-- Before its first call. -/
theorem startPut_ok (hkey : validateKey key = .ok ()) (hroot : fs₀.Anchored (parse b.root)) :
    (startPut b key).Ok b key body fs₀ fs₀ := by
  have hanchored : fs₀.Anchored (filePath b key) := by
    unfold filePath
    rw [parse_keyPath hkey]
    exact hroot.append (up_notMem_keySteps hkey)
  have hun : Unopened b key fs₀ fs₀ := ⟨hanchored, rfl⟩
  unfold startPut
  rw [resolvePath_of_ok hkey]
  split
  · cases ‹_ = _›
  · rename_i path hpath
    obtain rfl := Except.ok.inj hpath
    split
    · rename_i parent hparent
      unfold Path.parent at hparent
      split_ifs at hparent
      obtain rfl := Option.some.inj hparent
      refine ⟨rfl, hun, ?_, by simp⟩
      rw [List.reverse_reverse, components_dropLast]
      exact List.prefix_rfl
    · exact ⟨rfl, hun⟩

/-- What a get returns at any time of the put. -/
theorem PutState.Ok.get {put : PutState} (hkey : validateKey key = .ok ())
    (h : put.Ok b key body fs₀ fs) :
    (put.written = none → b.get none key fs = b.get none key fs₀) ∧
      ∀ n, put.written = some n → n ≤ body.length ∧ b.get none key fs = .ok (body.take n) ∧
        ∃ file, Written b key body fs file n := by
  cases put with
  | descend path components above => exact ⟨fun _ => h.2.1.get hkey, by simp [PutState.written]⟩
  | ascend path above => exact ⟨fun _ => h.2.1.get hkey, by simp [PutState.written]⟩
  | creating path => exact ⟨fun _ => h.2.get hkey, by simp [PutState.written]⟩
  | writing file n =>
    refine ⟨by simp [PutState.written], fun n' hn => ?_⟩
    obtain rfl : n = n' := Option.some.inj hn
    exact ⟨h.le, Written.get hkey h, file, h⟩
  | returned written result =>
    cases written with
    | none => exact ⟨fun _ => h.1.get hkey, by simp [PutState.written]⟩
    | some n =>
      refine ⟨by simp [PutState.written], fun n' hn => ?_⟩
      obtain rfl : n = n' := Option.some.inj hn
      obtain ⟨file, hfile⟩ := h.1
      exact ⟨hfile.le, hfile.get hkey, file, hfile⟩

/-! ### The gets -/

/-- A get as it is started, and what it relies on. -/
def GetOk (b : LocalBackend) (key : String) (body : List UInt8) (fs₀ : FileSystem) (w : World)
    (g : Get) : Prop :=
  Progress g.since w.put.written ∧ g.state.Ok b key body fs₀ w g.since

/-- The put does not disturb a get. -/
theorem GetOk.stable {w w' : World} {g : Get} (h : GetOk b key body fs₀ w g)
    (hrely : Rely b key w w') : GetOk b key body fs₀ w' g := by
  obtain ⟨since, state⟩ := g
  obtain ⟨hsince, hstate⟩ := h
  refine ⟨hsince.trans hrely.progress, ?_⟩
  cases state with
  | ready => trivial
  | opened file got =>
    obtain ⟨hresolve, ⟨bytes, hnode⟩, i, k, hi, hzero, hk, hgot⟩ := hstate
    obtain ⟨hresolve', bytes', hnode'⟩ := hrely.kept file bytes hresolve hnode
    refine ⟨hresolve', ⟨bytes', hnode'⟩, i, k, hi, hzero, ?_, hgot⟩
    -- What is written only grows, so the part that was read is still part of it.
    cases hw : w.put.written with
    | none =>
      rw [hw] at hk
      exact hk.trans (Nat.zero_le _)
    | some n =>
      obtain ⟨n', hn', hle⟩ := hrely.progress n hw
      rw [hw] at hk
      rw [hn']
      exact hk.trans hle
  | returned reply =>
    refine ⟨fun hnone => (hstate.1 hnone).imp_right ?_, fun n₀ hn₀ => ?_⟩
    · rintro ⟨n, i, k, hn, hi, hk, hreply⟩
      obtain ⟨n', hn', hle⟩ := hrely.progress n hn
      exact ⟨n', i, k, hn', hi, hk.trans hle, hreply⟩
    · obtain ⟨n, k, hn, hle, hk, hreply⟩ := hstate.2 n₀ hn₀
      obtain ⟨n', hn', hle'⟩ := hrely.progress n hn
      exact ⟨n', k, hn', hle, hk.trans hle', hreply⟩

/-- A reply that a get gives at once. -/
theorem replyOk_get {w : World} {since : Option ℕ} (hkey : validateKey key = .ok ())
    (hput : w.put.Ok b key body fs₀ w.fs) (hsince : Progress since w.put.written) :
    ReplyOk b key body fs₀ since w.put.written (b.get none key w.fs) := by
  obtain ⟨hbefore, hafter⟩ := hput.get hkey
  cases hw : w.put.written with
  | none =>
    refine ⟨fun _ => .inl (hbefore hw), fun n₀ hn₀ => ?_⟩
    obtain ⟨n, hn, -⟩ := hsince n₀ hn₀
    rw [hw] at hn
    cases hn
  | some n =>
    obtain ⟨-, hget, -⟩ := hafter n hw
    refine ⟨fun _ => .inr ⟨n, 0, n, rfl, Nat.zero_le _, le_refl n, hget⟩, fun n₀ hn₀ => ?_⟩
    obtain ⟨n', hn', hle⟩ := hsince n₀ hn₀
    obtain rfl : n = n' := by rwa [hw, Option.some.injEq] at hn'
    exact ⟨n, n, rfl, hle, le_refl n, hget⟩

/-- A read of an open file, in what is left of its content. -/
theorem readAt_eq {bytes : List UInt8} (hnode : fs.node file = some (.file bytes)) (offset c : ℕ) :
    fs.readAt file offset c = (bytes.drop offset).take c := by
  simp [FileSystem.readAt, FileSystem.file_eq_some_iff.2 hnode]

/-- A read of the old content, before the put has opened the file. -/
theorem read_old {w : World} {got : List UInt8} {i c : ℕ} (hkey : validateKey key = .ok ())
    (hput : w.put.Ok b key body fs₀ w.fs) (hw : w.put.written = none)
    (hresolve : w.fs.resolve true (filePath b key) = .ok (.found file))
    (hnode : ∃ bytes, w.fs.node file = some (.file bytes)) (hi : i ≤ (bytesOf b key fs₀).length)
    (hgot : got = mixture (bytesOf b key fs₀) body i 0) :
    (w.fs.readAt file got.length (c + 1) = [] → .ok got = b.get none key fs₀) ∧
      ∃ i', i' ≤ (bytesOf b key fs₀).length ∧
        got ++ w.fs.readAt file got.length (c + 1) = mixture (bytesOf b key fs₀) body i' 0 := by
  obtain ⟨bytes, hnode⟩ := hnode
  have hget : b.get none key fs₀ = .ok bytes := by
    rw [← (hput.get hkey).1 hw]
    exact get_of_file hkey hresolve hnode
  have hold : bytesOf b key fs₀ = bytes := by
    rw [bytesOf, hget]
    rfl
  rw [hold] at hi hgot ⊢
  rw [readAt_eq hnode]
  refine ⟨fun hend => ?_, ?_⟩
  · -- Nothing is left, so everything was read.
    have hlen : bytes.length ≤ got.length := by
      rw [List.take_eq_nil_iff] at hend
      exact List.drop_eq_nil_iff.1 (hend.resolve_left (Nat.succ_ne_zero c))
    rw [hget, hgot, mixture_zero_right, List.take_of_length_le]
    rw [hgot, mixture_zero_right, List.length_take] at hlen
    omega
  · rw [hgot]
    exact mixture_old hi (c + 1)

/-- A read of what is written of the body. -/
theorem read_new {got : List UInt8} {i k c : ℕ} (hwritten : Written b key body fs file n)
    (hi : i ≤ (bytesOf b key fs₀).length) (hk : k ≤ n)
    (hgot : got = mixture (bytesOf b key fs₀) body i k) :
    (fs.readAt file got.length (c + 1) = [] → i = 0 → k = n) ∧
      ∃ k', k' ≤ n ∧
        got ++ fs.readAt file got.length (c + 1) = mixture (bytesOf b key fs₀) body i k' := by
  rw [readAt_eq hwritten.node]
  refine ⟨fun hend hzero => ?_, ?_⟩
  · have hlen : (body.take n).length ≤ got.length := by
      rw [List.take_eq_nil_iff] at hend
      exact List.drop_eq_nil_iff.1 (hend.resolve_left (Nat.succ_ne_zero c))
    rw [hgot, hzero, mixture_zero_left, List.length_take, List.length_take] at hlen
    have hle := hwritten.le
    omega
  · rw [hgot]
    exact mixture_append hi hk (c + 1)

/-- One call of a get, on the disk as the put has left it. -/
theorem GetOk.act {w w' : World} {g g' : Get} {a : GetAct} (hkey : validateKey key = .ok ())
    (hput : w.put.Ok b key body fs₀ w.fs) (h : GetOk b key body fs₀ w g)
    (hact : getStep b key w g a = some (w', g')) : w' = w ∧ GetOk b key body fs₀ w g' := by
  obtain ⟨rfl, hsame, hcase⟩ := getStep_cases hact
  obtain ⟨since, state⟩ := g
  obtain ⟨since', state'⟩ := g'
  obtain rfl : since' = since := hsame
  obtain ⟨hsince, hstate⟩ := h
  refine ⟨rfl, hsince, ?_⟩
  rcases hcase with ⟨-, hnext⟩ | ⟨file, got, c, hopened, hnext⟩
  · obtain rfl : state' = _ := hnext
    rcases openGet_cases b key w'.fs with ⟨file, bytes, hopen, hresolve, hnode, -⟩ | hreturned
    · rw [hopen]
      exact ⟨hresolve, ⟨bytes, hnode⟩, 0, 0, Nat.zero_le _, fun _ => rfl, Nat.zero_le _, rfl⟩
    · rw [hreturned]
      exact replyOk_get hkey hput hsince
  · obtain rfl : state = _ := hopened
    obtain ⟨hresolve, hnode, i, k, hi, hzero, hk, hgot⟩ := hstate
    -- The file holds the old content as long as the put has not opened it.
    cases hw : w'.put.written with
    | none =>
      have hnone : since' = none := by
        cases hs : since' with
        | none => rfl
        | some n₀ =>
          obtain ⟨n, hn, -⟩ := hsince n₀ hs
          rw [hw] at hn
          cases hn
      rw [hw] at hk
      obtain rfl : k = 0 := Nat.le_zero.1 hk
      obtain ⟨hend, i', hi', hmore⟩ := read_old (c := c) hkey hput hw hresolve hnode hi hgot
      rcases hnext with ⟨hchunk, hnext⟩ | ⟨-, hnext⟩
      · obtain rfl : state' = _ := hnext
        exact ⟨fun _ => .inl (hend hchunk), by simp [hnone]⟩
      · obtain rfl : state' = _ := hnext
        exact ⟨hresolve, hnode, i', 0, hi', fun hne => absurd hnone hne, Nat.zero_le _, hmore⟩
    | some n =>
      obtain ⟨-, -, file', hwritten⟩ := (hput.get hkey).2 n hw
      -- The get has the file of the put open.
      obtain rfl : file = file' := by simpa using hresolve.symm.trans hwritten.resolve
      rw [hw] at hk
      obtain ⟨hend, k', hk', hmore⟩ := read_new (c := c) hwritten hi hk hgot
      rcases hnext with ⟨hchunk, hnext⟩ | ⟨-, hnext⟩
      · obtain rfl : state' = _ := hnext
        refine ⟨fun _ => .inr ⟨n, i, k, hw, hi, hk, by rw [hgot]⟩, fun n₀ hn₀ => ?_⟩
        obtain rfl : since' = some n₀ := hn₀
        have hi0 : i = 0 := hzero (Option.some_ne_none n₀)
        obtain ⟨n', hn', hle⟩ := hsince n₀ rfl
        obtain rfl : n = n' := by rwa [hw, Option.some.injEq] at hn'
        obtain rfl := hend hchunk hi0
        exact ⟨k, k, hw, hle, le_refl k, by rw [hgot, hi0, mixture_zero_left]⟩
      · obtain rfl : state' = _ := hnext
        exact ⟨hresolve, hnode, i, k', hi, hzero, by rw [hw]; exact hk', hmore⟩

/-- The put keeps its invariant and does not disturb the gets, which do not change the disk. -/
theorem putting_proof (hkey : validateKey key = .ok ()) :
    (putting b key body).Proof (fun w => w.put.Ok b key body fs₀ w.fs) (GetOk b key body fs₀)
      (Rely b key) where
  env_world w e h := putStep_ok e h
  start_proc w _ _ := ⟨Progress.refl _, trivial⟩
  act_world w g a w' g' hput hg hact := by
    obtain ⟨rfl, hg'⟩ := hg.act hkey hput hact
    exact ⟨hput, hg', Progress.refl _, Kept.refl _⟩
  stable w w' g h hrely := h.stable hrely

theorem putting_invariant {es : List PuttingEvent} {s : PuttingState}
    (hkey : validateKey key = .ok ()) (hroot : fs₀.Anchored (parse b.root))
    (h : Runs.run (putting b key body).step (beforePut b key fs₀) es = some s) :
    Interleaving.Holds (fun w => w.put.Ok b key body fs₀ w.fs) (GetOk b key body fs₀) s := by
  refine (putting_proof hkey).invariant ⟨startPut_ok hkey hroot, ?_⟩ h
  intro g hg
  cases hg

/-! ### What a put that stops leaves behind -/

/-- After a put that nobody interrupts, whatever fails: if it fails, a get returns what it returned
before or a front part of the body, and else the whole body. -/
theorem get_after_put (hkey : validateKey key = .ok ()) (hroot : fs₀.Anchored (parse b.root))
    (faults : PutFaults) :
    ((∃ err, (b.put faults key body fs₀).1 = .error err) ∧
      b.get none key (b.put faults key body fs₀).2 = b.get none key fs₀) ∨
    ∃ n, n ≤ body.length ∧
      b.get none key (b.put faults key body fs₀).2 = .ok (body.take n) ∧
      ((b.put faults key body fs₀).1 = .ok () → n = body.length) := by
  obtain ⟨es, written, hrun⟩ := put_run b faults key body fs₀
  have hput := (putting_invariant hkey hroot
    (putting_run b key body (beforePut b key fs₀) es)).1
  simp only [beforePut, hrun] at hput
  have hget := hput.get hkey
  cases written with
  | none => exact .inl ⟨hput.2, hget.1 rfl⟩
  | some n =>
    obtain ⟨hle, hn, -⟩ := hget.2 n rfl
    exact .inr ⟨n, hle, hn, hput.2⟩

/-- In every run of a put of a valid key and of gets of this key, if the part of the root up to its
last `..` leads to a directory at first: until the file is opened for writing, a get returns what it
returned before the put, so an error up to then changes nothing; from then on it returns the front
part of the body that is written, which is the whole body once the put has succeeded. A get that
other steps interrupt returns what it returned before the put, or a front part of the old content
that the body continues up to a place that is written; one that started when a part of the body was
written returns at least this part of the body, and nothing of the old content. -/
theorem gets_during_put {es : List PuttingEvent} {s : PuttingState}
    (hkey : validateKey key = .ok ()) (hroot : fs₀.Anchored (parse b.root))
    (h : Runs.run (putting b key body).step (beforePut b key fs₀) es = some s) :
    (s.world.put.written = none → b.get none key s.world.fs = b.get none key fs₀) ∧
    (∀ n, s.world.put.written = some n →
      n ≤ body.length ∧ b.get none key s.world.fs = .ok (body.take n)) ∧
    (∀ written, s.world.put = .returned written (.ok ()) → written = some body.length) ∧
    ∀ g ∈ s.procs, ∀ reply, g.state = .returned reply →
      (g.since = none → reply = b.get none key fs₀ ∨
        ∃ n i k, s.world.put.written = some n ∧ i ≤ (bytesOf b key fs₀).length ∧ k ≤ n ∧
          reply = .ok ((bytesOf b key fs₀).take i ++ (body.take k).drop i)) ∧
      ∀ n₀, g.since = some n₀ → ∃ n k, s.world.put.written = some n ∧ n₀ ≤ k ∧ k ≤ n ∧
        reply = .ok (body.take k) := by
  obtain ⟨hput, hgets⟩ := putting_invariant hkey hroot h
  obtain ⟨hbefore, hafter⟩ := hput.get hkey
  refine ⟨hbefore, fun n hn => ?_, fun written hreturned => ?_, fun g hg reply hreply => ?_⟩
  · obtain ⟨hle, hget, -⟩ := hafter n hn
    exact ⟨hle, hget⟩
  · rw [hreturned] at hput
    cases written with
    | none =>
      obtain ⟨-, err, herr⟩ := hput
      cases herr
    | some n => rw [hput.2 rfl]
  · have hstate := (hgets g hg).2
    rw [hreply] at hstate
    exact hstate

/-- The sample tree with an object under the key `a`. -/
def sampleObject : FileSystem := (sampleBackend.put .none "a" [1, 2, 3] sampleTree).2

/-- A get reads one byte of the old object. The put of `[4, 5]` empties the file and writes a byte,
which is what a second get returns; it writes the other one, which the first get reads on with, and
fails when it flushes. -/
def sampleGets : List PuttingEvent :=
  [.start (), .act 0 .openFile, .act 0 (.read 0), .env (.dir none none), .env (.dir none none),
    .env (.dir none none), .env (.create none), .env (.write 1), .start (), .act 1 .openFile,
    .act 1 (.read 7), .act 1 (.read 7), .env (.write 1), .act 0 (.read 7), .act 0 (.read 7),
    .env (.finish (some (.other "disk full")))]

theorem sampleGets_run :
    ∃ s, Runs.run (putting sampleBackend "a" [4, 5]).step (beforePut sampleBackend "a" sampleObject)
        sampleGets = some s ∧
      s.world.put = .failed (some 2) (.other "disk full") ∧
      s.procs = [⟨none, .returned (.ok [1, 5])⟩, ⟨some 1, .returned (.ok [4])⟩] ∧
      sampleBackend.get none "a" s.world.fs = .ok [4, 5] := by
  have hsome : (Runs.run (putting sampleBackend "a" [4, 5]).step
      (beforePut sampleBackend "a" sampleObject) sampleGets).isSome := by decide +kernel
  refine ⟨_, (Option.some_get hsome).symm, ?_, ?_, ?_⟩
  · decide +kernel +revert
  · decide +kernel +revert
  · decide +kernel +revert

theorem gets_during_put_sampleGets :
    ∃ s, Runs.run (putting sampleBackend "a" [4, 5]).step (beforePut sampleBackend "a" sampleObject)
        sampleGets = some s ∧ sampleBackend.get none "a" s.world.fs = .ok [4, 5] := by
  have hroot : sampleObject.Anchored (parse sampleBackend.root) :=
    ⟨[], (parse sampleBackend.root).steps, [], rfl, by decide +kernel, by decide +kernel⟩
  obtain ⟨s, hrun, hput, -⟩ := sampleGets_run
  have hall := gets_during_put (by decide +kernel) hroot hrun
  exact ⟨s, hrun, (hall.2.1 2 (by rw [hput]; rfl)).2⟩

/-- A backend whose root goes up from a directory that does not exist. -/
def upBackend : LocalBackend := ⟨Text.utf8 "/x/../y", []⟩

/-- A tree with the file `/y/k`. -/
def upTree : FileSystem :=
  (FileSystem.bare.insert [segmentBytes "y"] .dir).insert [segmentBytes "y", segmentBytes "k"]
    (.file [7])

/-- A put that fails leaves the new body behind, and a get returns a mixture. On another root even a
put that cannot open its file makes an object appear: making the missing directory makes the root
lead somewhere. -/
theorem not_putAtomic :
    ¬ PutAtomic sampleBackend "a" [4, 5] sampleObject ∧
    (∃ s, Runs.run (putting sampleBackend "a" [4, 5]).step
        (beforePut sampleBackend "a" sampleObject) sampleGets = some s ∧
      ∃ g ∈ s.procs, g.state = .returned (.ok [1, 5])) ∧
    (upBackend.put { PutFaults.none with create := some (.other "disk full") } "k" [] upTree).1 =
      .error (.backend "disk full") ∧
    upBackend.get none "k" upTree = .error (.notFound "k") ∧
    upBackend.get none "k" (upBackend.put
      { PutFaults.none with create := some (.other "disk full") } "k" [] upTree).2 = .ok [7] := by
  obtain ⟨s, hrun, hput, hprocs, hget⟩ := sampleGets_run
  refine ⟨fun hatomic => ?_, ⟨s, hrun, _, by rw [hprocs]; exact List.mem_cons_self, rfl⟩,
    by decide +kernel, by decide +kernel, by decide +kernel⟩
  have hbefore : sampleBackend.get none "a" sampleObject = .ok [1, 2, 3] := by decide +kernel
  have hsame := (hatomic sampleGets s hrun).1 _ _ hput
  rw [hget, hbefore] at hsame
  exact absurd hsame (by decide)

end Storage

end OaLibs
