import OaLibs.Base.Ancestors
import OaLibs.Base.Runs
import OaLibs.Storage.Local

/-!
# Puts and gets, call by call

One put of a body under a key, in the system calls it makes, and any number of gets of this key
that take their steps between them. A get opens the file and reads it in pieces, until a read comes
back empty.

* `PutState`, `putStep`: the next call of the put; the calls may fail by themselves, and `write`
  writes as much as it likes;
* `GetState`, `getStep`: the next call of a get;
* `putting`: the interleaving of the put and the gets;
* `put_run`, `get_run`: without interruption they are `LocalBackend.put` and `LocalBackend.get`.
-/

namespace OaLibs

namespace Storage

open UnixPath FileTree

/-- How far a put is. On the way down it tries to make a directory and goes on with its parent if
that is missing; `above` are the directories to make on the way up, the next one first. -/
inductive PutState
  | descend (path : Path) (components : List Step) (above : List Path)
  | ascend (path : Path) (above : List Path)
  | creating (path : Path)
  | writing (file : Loc) (written : ℕ)
  | returned (written : Option ℕ) (result : Except StorageError Unit)
  deriving DecidableEq

/-- The bytes of the body that are in the file; none before the file is opened. -/
def PutState.written : PutState → Option ℕ
  | .writing _ n => some n
  | .returned n _ => n
  | _ => none

/-- The disk, and the put. -/
structure World where
  fs : FileSystem
  put : PutState

/-- The next call of a put, with the failures it meets by itself. -/
inductive PutEvent
  | dir (mkdir isDir : Option IoError)
  | create (fault : Option IoError)
  | write (n : ℕ)
  | finish (fault : Option IoError)

/-- A put that stops with an error of the system. -/
def PutState.failed (written : Option ℕ) (e : IoError) : PutState :=
  .returned written (.error (backendError e))

/-- The put before its first call. -/
def startPut (b : LocalBackend) (key : String) : PutState :=
  match b.resolvePath key with
  | .error err => .returned none (.error err)
  | .ok path =>
      match (parse path).parent with
      | some parent => .descend (parse path) parent.components.reverse []
      | none => .creating (parse path)

/-- One call of a put. A call that is not the next one does not happen. -/
def putStep (body : List UInt8) (w : World) : PutEvent → World
  | .dir mkdir isDir =>
      match w.put with
      | .descend path [] above => { w with put := .ascend path above }
      | .descend path (step :: rest) above =>
          let p : Path := ⟨path.absolute, (step :: rest).reverse⟩
          match FileSystem.faulty mkdir (w.fs.mkdir p) with
          | .ok fs => { fs := fs, put := .ascend path above }
          -- The parent is missing; this directory is tried again after it.
          | .error .notFound => { w with put := .descend path rest (p :: above) }
          | .error e =>
              if isDir = none ∧ w.fs.isDir p then { w with put := .ascend path above }
              else { w with put := .failed none e }
      | .ascend path [] => { w with put := .creating path }
      | .ascend path (p :: above) =>
          match FileSystem.faulty mkdir (w.fs.mkdir p) with
          | .ok fs => { fs := fs, put := .ascend path above }
          | .error e =>
              if isDir = none ∧ w.fs.isDir p then { w with put := .ascend path above }
              else { w with put := .failed none e }
      | _ => w
  | .create fault =>
      match w.put with
      | .creating path =>
          match FileSystem.faulty fault (w.fs.create path) with
          | .error e => { w with put := .failed none e }
          | .ok (file, fs) => { fs := fs, put := .writing file 0 }
      | _ => w
  | .write n =>
      match w.put with
      | .writing file written =>
          { fs := w.fs.append file ((body.drop written).take n)
            put := .writing file (min (written + n) body.length) }
      | _ => w
  | .finish fault =>
      match w.put, fault with
      | .writing _ written, some e => { w with put := .failed (some written) e }
      | .writing _ written, none =>
          -- The flush succeeds once everything is written.
          if written = body.length then { w with put := .returned (some written) (.ok ()) } else w
      | _, _ => w

/-! ### Gets -/

inductive GetState
  | ready
  | opened (file : Loc) (got : List UInt8)
  | returned (reply : Except StorageError (List UInt8))
  deriving DecidableEq

/-- A get, with the bytes that the put had written when it started. -/
structure Get where
  since : Option ℕ
  state : GetState
  deriving DecidableEq

inductive GetAct
  | openFile
  | read (n : ℕ)

/-- The first call of a get. -/
def openGet (b : LocalBackend) (key : String) (fs : FileSystem) : GetState :=
  match b.resolvePath key with
  | .error err => .returned (.error err)
  | .ok path =>
      match fs.openRead (parse path) with
      | .ok file => .opened file []
      | .error .notFound => .returned (.error (.notFound key))
      | .error e => .returned (.error (backendError e))

/-- One call of a get. It reads at least one byte, or is at the end of the file. -/
def getStep (b : LocalBackend) (key : String) (w : World) (g : Get) : GetAct → Option (World × Get)
  | .openFile =>
      match g.state with
      | .ready => some (w, { g with state := openGet b key w.fs })
      | _ => none
  | .read n =>
      match g.state with
      | .opened file got =>
          -- An empty read is the end of the file, as long as the file is now.
          let chunk := w.fs.readAt file got.length (n + 1)
          if chunk = [] then some (w, { g with state := .returned (.ok got) })
          else some (w, { g with state := .opened file (got ++ chunk) })
      | _ => none

/-- A put of a body and gets of the same key. -/
def putting (b : LocalBackend) (key : String) (body : List UInt8) :
    Interleaving World Get PutEvent Unit GetAct where
  env w e := putStep body w e
  start w _ := ⟨w.put.written, .ready⟩
  act := getStep b key

/-- The put and all gets. -/
abbrev PuttingState := Interleaving.State World Get

/-- A call of the put, the start of a get, or a call of a get. -/
abbrev PuttingEvent := Interleaving.Event PutEvent Unit GetAct

/-- Before the put, with no gets. -/
def beforePut (b : LocalBackend) (key : String) (fs : FileSystem) : PuttingState :=
  { world := ⟨fs, startPut b key⟩, procs := [] }

/-! ### Without interruption -/

variable {b : LocalBackend} {key : String} {body : List UInt8} {fs fs' : FileSystem} {path : Path}
  {above : List Path}

/-- The calls of a put, one after the other. -/
def putSteps (body : List UInt8) (w : World) (es : List PutEvent) : World :=
  es.foldl (putStep body) w

@[simp] theorem putSteps_cons (w : World) (e : PutEvent) (es : List PutEvent) :
    putSteps body w (e :: es) = putSteps body (putStep body w e) es := rfl

@[simp] theorem putSteps_nil (w : World) : putSteps body w [] = w := rfl

theorem putSteps_append (w : World) (es es' : List PutEvent) :
    putSteps body w (es ++ es') = putSteps body (putSteps body w es) es' := List.foldl_append

/-- Where a put goes on when the directories of its file are made, or not. -/
def PutState.after (path : Path) (above : List Path) : Except IoError Unit → PutState
  | .ok () => .ascend path above
  | .error e => .failed none e

/-- Making a directory with its ancestors is a run of calls of the put. -/
theorem descend_run (body : List UInt8) (fault : FileSystem.DirCall → Path → Option IoError)
    (path : Path) (components : List Step) (above : List Path) (fs : FileSystem) :
    ∃ es, putSteps body ⟨fs, .descend path components above⟩ es =
      ⟨(FileSystem.createDirAllFrom fault path.absolute components fs).2,
        .after path above (FileSystem.createDirAllFrom fault path.absolute components fs).1⟩ := by
  induction components generalizing above fs with
  | nil => exact ⟨[.dir none none], rfl⟩
  | cons step rest ih =>
    obtain ⟨es, hes⟩ := ih (⟨path.absolute, (step :: rest).reverse⟩ :: above) fs
    rw [FileSystem.createDirAllFrom]
    generalize hp : (⟨path.absolute, (step :: rest).reverse⟩ : Path) = p at hes ⊢
    cases hmk : FileSystem.faulty (fault .mkdir p) (fs.mkdir p) with
    | ok fs₁ =>
      refine ⟨[.dir (fault .mkdir p) none], ?_⟩
      simp only [putSteps_cons, putSteps_nil, putStep, hp, hmk, PutState.after]
    | error e =>
      by_cases he : e = .notFound
      · -- The parent is made first, and then the directory.
        subst he
        generalize FileSystem.createDirAllFrom fault path.absolute rest fs = made at hes ⊢
        obtain ⟨result, fs₁⟩ := made
        cases result with
        | error e =>
          refine ⟨.dir (fault .mkdir p) none :: es, ?_⟩
          have hafter : PutState.after path (p :: above) (.error e) =
              .after path above (.error e) := rfl
          simpa only [putSteps_cons, putStep, hp, hmk, hafter] using hes
        | ok _ =>
          refine ⟨.dir (fault .mkdir p) none ::
            (es ++ [.dir (fault .mkdirAgain p) (fault .isDirAgain p)]), ?_⟩
          have hfirst : putStep body ⟨fs, .descend path (step :: rest) above⟩
              (.dir (fault .mkdir p) none) = ⟨fs, .descend path rest (p :: above)⟩ := by
            simp only [putStep, hp, hmk]
          rw [putSteps_cons, hfirst, putSteps_append, hes]
          cases hagain : FileSystem.faulty (fault .mkdirAgain p) (fs₁.mkdir p) with
          | ok fs₂ => simp only [putSteps_cons, putSteps_nil, putStep, PutState.after, hagain]
          | error e =>
            simp only [putSteps_cons, putSteps_nil, putStep, PutState.after, hagain]
            split_ifs <;> rfl
      · refine ⟨[.dir (fault .mkdir p) (fault .isDir p)], ?_⟩
        simp only [putSteps_cons, putSteps_nil, putStep, hp, hmk]
        split_ifs <;> rfl

theorem createParent_run (body : List UInt8) (faults : PutFaults) (path : PathBuf)
    (fs : FileSystem) (h : b.resolvePath key = .ok path) :
    ∃ es, (∀ e fs₁, createParent faults (parse path) fs = (.error e, fs₁) →
        putSteps body ⟨fs, startPut b key⟩ es = ⟨fs₁, .failed none e⟩) ∧
      ∀ fs₁, createParent faults (parse path) fs = (.ok (), fs₁) →
        putSteps body ⟨fs, startPut b key⟩ es = ⟨fs₁, .creating (parse path)⟩ := by
  unfold startPut createParent
  simp only [h]
  cases hparent : (parse path).parent with
  | none => exact ⟨[], by simp, by simp [putSteps]⟩
  | some parent =>
    have habs : parent.absolute = (parse path).absolute := by
      unfold Path.parent at hparent
      split_ifs at hparent
      obtain rfl := Option.some.inj hparent
      rfl
    obtain ⟨es, hes⟩ := descend_run body faults.createDir (parse path)
      parent.components.reverse [] fs
    simp only [FileSystem.createDirAll, habs]
    refine ⟨es ++ [.dir none none], fun e fs₁ hmade => ?_, fun fs₁ hmade => ?_⟩
    · rw [putSteps_append, hes, hmade]
      rfl
    · rw [putSteps_append, hes, hmade]
      rfl

theorem writeAll_run (body : List UInt8) (faults : PutFaults) (file : Loc) (fs : FileSystem) :
    ∃ es written, putSteps body ⟨fs, .writing file 0⟩ es =
      ⟨(writeAll faults file body fs).2, .returned written (writeAll faults file body fs).1⟩ := by
  unfold writeAll
  cases faults.write with
  | some failure =>
    obtain ⟨n, e⟩ := failure
    refine ⟨[.write n, .finish (some e)], some (min n body.length), ?_⟩
    simp [putStep, PutState.failed]
  | none =>
    cases faults.flush with
    | some e =>
      refine ⟨[.write body.length, .finish (some e)], some body.length, ?_⟩
      simp [putStep, PutState.failed]
    | none =>
      refine ⟨[.write body.length, .finish none], some body.length, ?_⟩
      simp [putStep]

/-- A put that nobody interrupts, whatever fails, is a run of its calls. -/
theorem put_run (b : LocalBackend) (faults : PutFaults) (key : String) (body : List UInt8)
    (fs : FileSystem) :
    ∃ es written, putSteps body ⟨fs, startPut b key⟩ es =
      ⟨(b.put faults key body fs).2, .returned written (b.put faults key body fs).1⟩ := by
  unfold LocalBackend.put
  cases hpath : b.resolvePath key with
  | error err => exact ⟨[], none, by simp [startPut, hpath]⟩
  | ok path =>
    obtain ⟨es, hfailed, hmade⟩ := createParent_run body faults path fs hpath
    simp only [putAt]
    generalize createParent faults (parse path) fs = made at hfailed hmade ⊢
    obtain ⟨result, fs₁⟩ := made
    cases result with
    | error e => exact ⟨es, none, hfailed e fs₁ rfl⟩
    | ok _ =>
      cases hcreate : FileSystem.faulty faults.create (fs₁.create (parse path)) with
      | error e =>
        refine ⟨es ++ [.create faults.create], none, ?_⟩
        rw [putSteps_append, hmade fs₁ rfl]
        simp [putStep, hcreate, PutState.failed]
      | ok opened =>
        obtain ⟨file, fs₂⟩ := opened
        obtain ⟨es', written, hwrite⟩ := writeAll_run body faults file fs₂
        refine ⟨es ++ .create faults.create :: es', written, ?_⟩
        rw [putSteps_append, hmade fs₁ rfl, putSteps_cons]
        simpa [putStep, hcreate] using hwrite

/-- The calls of a put are steps of the system. -/
theorem putting_run (b : LocalBackend) (key : String) (body : List UInt8) (s : PuttingState)
    (es : List PutEvent) :
    Runs.run (putting b key body).step s (es.map .env) =
      some { s with world := putSteps body s.world es } := by
  induction es generalizing s with
  | nil => rfl
  | cons e es ih => exact ih _

/-! ### Gets -/

/-- Opening the file succeeds exactly if getting it does. -/
theorem openGet_cases (b : LocalBackend) (key : String) (fs : FileSystem) :
    (∃ file bytes, openGet b key fs = .opened file [] ∧
      fs.resolve true (parse (join b.root (keyPath key))) = .ok (.found file) ∧
      fs.node file = some (.file bytes) ∧ b.get none key fs = .ok bytes) ∨
    openGet b key fs = .returned (b.get none key fs) := by
  unfold openGet LocalBackend.get
  cases hpath : b.resolvePath key with
  | error err => exact .inr rfl
  | ok path =>
    obtain ⟨-, rfl⟩ := resolvePath_eq_ok.1 hpath
    rcases fs.openRead_cases (parse (join b.root (keyPath key))) with
      ⟨file, bytes, hopen, hresolve, hnode, hread⟩ | ⟨e, hopen, hread⟩
    · left
      exact ⟨file, bytes, by simp [hopen], hresolve, hnode, by simp [hread, FileSystem.faulty]⟩
    · right
      simp only [hopen, hread, FileSystem.faulty]
      cases e <;> rfl

/-- All that one call of a get can do. -/
theorem getStep_cases {w w' : World} {g g' : Get} {a : GetAct}
    (h : getStep b key w g a = some (w', g')) :
    w' = w ∧ g'.since = g.since ∧
      ((g.state = .ready ∧ g'.state = openGet b key w.fs) ∨
        ∃ file got n, g.state = .opened file got ∧
          ((w.fs.readAt file got.length (n + 1) = [] ∧ g'.state = .returned (.ok got)) ∨
            (w.fs.readAt file got.length (n + 1) ≠ [] ∧
              g'.state = .opened file (got ++ w.fs.readAt file got.length (n + 1))))) := by
  obtain ⟨since, state⟩ := g
  cases a with
  | openFile =>
    cases state with
    | ready =>
      obtain ⟨rfl, rfl⟩ := Prod.mk.inj (Option.some.inj h)
      exact ⟨rfl, rfl, .inl ⟨rfl, rfl⟩⟩
    | opened file got => cases h
    | returned reply => cases h
  | read n =>
    cases state with
    | opened file got =>
      simp only [getStep] at h
      split_ifs at h with hend
      · obtain ⟨rfl, rfl⟩ := Prod.mk.inj (Option.some.inj h)
        exact ⟨rfl, rfl, .inr ⟨file, got, n, rfl, .inl ⟨hend, rfl⟩⟩⟩
      · obtain ⟨rfl, rfl⟩ := Prod.mk.inj (Option.some.inj h)
        exact ⟨rfl, rfl, .inr ⟨file, got, n, rfl, .inr ⟨hend, rfl⟩⟩⟩
    | ready => cases h
    | returned reply => cases h

/-- A get on a disk that does not change. -/
def GetState.Alone (b : LocalBackend) (key : String) (fs : FileSystem) : GetState → Prop
  | .ready => True
  | .opened file got =>
      ∃ bytes, fs.file file = some bytes ∧ got <+: bytes ∧ b.get none key fs = .ok bytes
  | .returned reply => reply = b.get none key fs

def Get.Alone (b : LocalBackend) (key : String) (fs : FileSystem) (g : Get) : Prop :=
  g.state.Alone b key fs

theorem Get.Alone.step {w w' : World} {g g' : Get} {a : GetAct} (hg : g.Alone b key w.fs)
    (h : getStep b key w g a = some (w', g')) : w' = w ∧ g'.Alone b key w.fs := by
  unfold Get.Alone at hg ⊢
  obtain ⟨rfl, -, ⟨-, hstate⟩ | ⟨file, got, n, hopened, hread⟩⟩ := getStep_cases h
  · refine ⟨rfl, ?_⟩
    rw [hstate]
    rcases openGet_cases b key w'.fs with ⟨file, bytes, hopen, -, hnode, hget⟩ | hreturned
    · rw [hopen]
      exact ⟨bytes, FileSystem.file_eq_some_iff.2 hnode, List.nil_prefix, hget⟩
    · rw [hreturned]
      exact rfl
  · refine ⟨rfl, ?_⟩
    rw [hopened] at hg
    obtain ⟨bytes, hfile, ⟨rest, rfl⟩, hget⟩ := hg
    have hchunk : w'.fs.readAt file got.length (n + 1) = rest.take (n + 1) := by
      simp [FileSystem.readAt, hfile]
    rw [hchunk] at hread
    rcases hread with ⟨hend, hstate⟩ | ⟨-, hstate⟩
    · have hrest : rest = [] := by simpa using hend
      rw [hstate, GetState.Alone, hget, hrest, List.append_nil]
    · rw [hstate]
      refine ⟨_, hfile, ?_, hget⟩
      exact (List.prefix_append_right_inj got).2 (List.take_prefix _ rest)

/-- A get that nobody interrupts returns what `get` does. -/
theorem get_run {w : World} {g : Get} {acts : List GetAct} {since : Option ℕ}
    {reply : Except StorageError (List UInt8)}
    (h : Runs.run (fun g a => (getStep b key w g a).map Prod.snd) ⟨since, .ready⟩ acts = some g)
    (hreply : g.state = .returned reply) : reply = b.get none key w.fs := by
  have hready : Get.Alone b key w.fs ⟨since, .ready⟩ := trivial
  have hg : g.Alone b key w.fs := by
    refine Runs.run_invariant hready (fun g a g' hg hstep => ?_) h
    obtain ⟨⟨w', g''⟩, hact, rfl⟩ := Option.map_eq_some_iff.1 hstep
    exact (hg.step hact).2
  rwa [Get.Alone, hreply] at hg

end Storage

end OaLibs
