import OaLibs.Base.Places
import OaLibs.Storage.Flat
import OaLibs.Storage.Steps

/-!
# Puts under different keys

Any number of puts at the same time, each under a key of its own and each in the system calls it
makes, which take turns in any order and may fail by themselves. The directories that several keys
have in common are made by whichever put comes first.

* `Writer`, `writers`: a put under way, and the interleaving of the puts;
* `Site`, `OpenSite`: a key with room for its file below the root, and one that also is not too
  long for the disk;
* `PutState.Going`: how far a put is, on a disk where others are at work as well;
* `putStep_advances`: one call of a put gets on with it, and touches the disk at its key only;
* `puts_isolated`: no put disturbs another one or what is under other keys, and none fails unless a
  call does by itself;
* `puts_complete`: every run goes on to one where all puts have returned.
-/

namespace OaLibs

namespace Storage

open UnixPath FileTree
open FileTree.FileSystem (Room Touches)

/-! ### The puts -/

/-- What is put, and where. -/
structure Job where
  key : String
  body : List UInt8
  deriving DecidableEq

/-- The files of the jobs have separate places, and neither is in the way of the other. -/
def Job.Apart (j j' : Job) : Prop := FileSystem.Apart (keyNames j.key) (keyNames j'.key)

instance (j j' : Job) : Decidable (j.Apart j') :=
  inferInstanceAs (Decidable (FileSystem.Apart _ _))

instance : Std.Symm Job.Apart := ⟨fun _ _ h => symm_of FileSystem.Apart h⟩

/-- A put under way. -/
structure Writer where
  job : Job
  state : PutState
  deriving DecidableEq

/-- The next call of one of the puts. -/
def Writer.call (fs : FileSystem) (p : Writer) (e : PutEvent) : FileSystem × Writer :=
  let w := putStep p.job.body ⟨fs, p.state⟩ e
  (w.fs, { p with state := w.put })

/-- Puts on one disk. All of them are there from the start, and nobody else changes the disk. -/
def writers : Interleaving FileSystem Writer Empty Empty PutEvent where
  env _ e := e.elim
  start _ x := x.elim
  act fs p e := some (p.call fs e)

/-- The disk and all puts. -/
abbrev WritersState := Interleaving.State FileSystem Writer

/-- A call of one of the puts. -/
abbrev WritersEvent := Interleaving.Event Empty Empty PutEvent

/-- Before the first call of any put. -/
def beforePuts (b : LocalBackend) (jobs : List Job) (fs : FileSystem) : WritersState :=
  { world := fs, procs := jobs.map fun j => ⟨j, startPut b j.key⟩ }

/-- A call that does not fail by itself. -/
def PutEvent.Faultless : PutEvent → Prop
  | .dir mkdir isDir => mkdir = none ∧ isDir = none
  | .create fault => fault = none
  | .write _ => True
  | .finish fault => fault = none

/-- No call of the run fails by itself. -/
def Calm (es : List WritersEvent) : Prop := ∀ i e, .act i e ∈ es → e.Faultless

variable {b : LocalBackend} {L : Loc} {key : String} {body : List UInt8}
  {fs fs' fs₀ : FileSystem} {places : List (List Name)}

/-! ### Keys with room -/

/-- A key with room for its file below the root, where there are no links. A put of a key that ends
in a `.` segment always fails. -/
structure Site (b : LocalBackend) (L : Loc) (fs : FileSystem) (key : String) : Prop where
  root : fs.LeadsTo (parse b.root) L
  plain : fs.Plain L
  valid : validateKey key = .ok ()
  last : (keySteps key).getLast? ≠ some .stay
  room : Room fs L (keyNames key)

theorem Site.touches (h : Site b L fs key) (ht : Touches L places fs fs')
    (hplaces : ∀ ns ∈ places, ns = keyNames key ∨ FileSystem.Apart ns (keyNames key)) :
    Site b L fs' key where
  root := h.root.keeps ht.keeps
  plain := h.plain.keeps ht.keeps
  valid := h.valid
  last := h.last
  room := h.room.touches ht hplaces

theorem Site.keyNames_ne_nil (h : Site b L fs key) : keyNames key ≠ [] := by
  obtain ⟨front, name, hsteps⟩ := keySteps_eq_concat h.valid h.last
  rw [keyNames, hsteps, names_append]
  simp

/-- On an empty root there is room for every key. -/
theorem site_of_empty (hroot : fs.LeadsTo (parse b.root) L)
    (hempty : ∀ path, path ≠ [] → fs.node (L ++ path) = none) (hkey : validateKey key = .ok ())
    (hlast : (keySteps key).getLast? ≠ some .stay) : Site b L fs key := by
  have hnode : ∀ path x, fs.node (L ++ path) = some x → path = [] ∧ x = .dir := by
    intro path x hx
    by_cases hpath : path = []
    · rw [hpath, List.append_nil, hroot.dir] at hx
      exact ⟨hpath, (Option.some.inj hx).symm⟩
    · rw [hempty path hpath] at hx
      cases hx
  obtain ⟨front, name, hsteps⟩ := keySteps_eq_concat hkey hlast
  refine ⟨hroot, ?_, hkey, hlast, fun r _ _ bytes hfile => ?_, fun hdir => ?_⟩
  · rintro m ⟨path, rfl⟩ target hlink
    cases (hnode path _ hlink).2
  · cases (hnode r _ hfile).2
  · have hnil := (hnode _ _ hdir).1
    rw [keyNames, hsteps, names_append] at hnil
    simp at hnil

/-- A get returns the file under the names of the key. -/
theorem Site.get (h : Site b L fs key) :
    b.get none key fs =
      match fs.file (L ++ keyNames key) with
      | some bytes => .ok bytes
      | none => .error (.notFound key) := by
  obtain ⟨front, name, hsteps⟩ := keySteps_eq_concat h.valid h.last
  have hroom := h.room
  have hup := up_notMem_keySteps h.valid
  rw [keyNames, hsteps] at hroom
  rw [hsteps] at hup
  have hread := hroom.read h.root h.plain hup
  rw [← hsteps] at hread
  simp only [LocalBackend.get, resolvePath_of_ok h.valid, parse_keyPath h.valid,
    FileSystem.faulty, hread, keyNames]
  cases fs.file (L ++ names (keySteps key)) <;> rfl

theorem Site.get_congr (h : Site b L fs key) (h' : Site b L fs' key)
    (hnode : fs'.node (L ++ keyNames key) = fs.node (L ++ keyNames key)) :
    b.get none key fs' = b.get none key fs := by
  rw [h.get, h'.get, FileSystem.file_congr hnode]

theorem Site.get_of_node {bytes : List UInt8} (h : Site b L fs key)
    (hnode : fs.node (L ++ keyNames key) = some (.file bytes)) :
    b.get none key fs = .ok bytes := by
  rw [h.get, FileSystem.file_eq_some_iff.2 hnode]

/-! ### The way to the file -/

/-- The steps to the directory of a key's file. -/
def way (b : LocalBackend) (key : String) : List Step := (diskPath b key).components.dropLast

/-- It leads through the root and goes on with names. -/
theorem Site.way_eq (h : Site b L fs key) :
    ∃ c, way b key = c ++ (keyNames key).dropLast.map Step.down ∧
      fs.LeadsTo ⟨(diskPath b key).absolute, c⟩ L := by
  obtain ⟨c, hc, hfilter⟩ := components_append (parse b.root).absolute (parse b.root).steps
    (up_notMem_keySteps h.valid)
  have hne : (names (keySteps key)).map Step.down ≠ [] := by
    simpa [keyNames] using h.keyNames_ne_nil
  refine ⟨c, ?_, h.root.of_filter hfilter⟩
  unfold way diskPath
  rw [hc, List.dropLast_append_of_ne_nil hne, ← List.map_dropLast, keyNames]

theorem Site.startPut (h : Site b L fs key) :
    startPut b key = .descend (diskPath b key) (way b key).reverse [] := by
  have hne : (diskPath b key).components ≠ [] := by
    obtain ⟨c, hc, -⟩ := components_append (parse b.root).absolute (parse b.root).steps
      (up_notMem_keySteps h.valid)
    have hnames := h.keyNames_ne_nil
    unfold diskPath
    rw [hc]
    simpa [keyNames] using fun _ => hnames
  have hparent : (diskPath b key).parent =
      some ⟨(diskPath b key).absolute, (diskPath b key).components.dropLast⟩ := if_neg hne
  have hpath : parse (join b.root (keyPath key)) = diskPath b key := parse_keyPath h.valid
  simp only [Storage.startPut, resolvePath_of_ok h.valid, hpath, hparent, components_dropLast, way]

/-- The directories that are still to be made, the next one first. -/
def rungs (absolute : Bool) : List Step → List Step → List Path
  | _, [] => []
  | pre, step :: rest => ⟨absolute, pre ++ [step]⟩ :: rungs absolute (pre ++ [step]) rest

/-- One of the directories on the way is made, or it is there, or the one above it is missing. -/
theorem Site.mkdir {pre rest : List Step} {step : Step} (h : Site b L fs key)
    (hway : way b key = pre ++ step :: rest) :
    (∃ fs', fs.mkdir ⟨(diskPath b key).absolute, pre ++ [step]⟩ = .ok fs' ∧
      Touches L [keyNames key] fs fs' ∧
      fs'.node (L ++ keyNames key) = fs.node (L ++ keyNames key) ∧
      ∃ M, fs'.LeadsTo ⟨(diskPath b key).absolute, pre ++ [step]⟩ M) ∨
    (fs.mkdir ⟨(diskPath b key).absolute, pre ++ [step]⟩ = .error .alreadyExists ∧
      fs.isDir ⟨(diskPath b key).absolute, pre ++ [step]⟩ = true) ∨
    (fs.mkdir ⟨(diskPath b key).absolute, pre ++ [step]⟩ = .error .notFound ∧
      ∀ M, ¬ fs.LeadsTo ⟨(diskPath b key).absolute, pre⟩ M) := by
  obtain ⟨c, hc, hroot⟩ := h.way_eq
  refine h.room.mkdir hroot h.plain h.keyNames_ne_nil ⟨rest, ?_⟩
  rw [← hc, hway, List.append_assoc, List.singleton_append]

theorem Site.made {pre rest : List Step} {step : Step} (h : Site b L fs key)
    (hway : way b key = pre ++ step :: rest)
    (hmk : fs.mkdir ⟨(diskPath b key).absolute, pre ++ [step]⟩ = .ok fs') :
    Touches L [keyNames key] fs fs' ∧ fs'.node (L ++ keyNames key) = fs.node (L ++ keyNames key) ∧
      ∃ M, fs'.LeadsTo ⟨(diskPath b key).absolute, pre ++ [step]⟩ M := by
  rcases h.mkdir hway with ⟨fs₁, hok, hmade⟩ | ⟨hthere, -⟩ | ⟨hmissing, -⟩
  · rw [hok] at hmk
    obtain rfl := Except.ok.inj hmk
    exact hmade
  · rw [hthere] at hmk
    cases hmk
  · rw [hmissing] at hmk
    cases hmk

/-- Once its directory is there, the file is made, or emptied. -/
theorem Site.create {M : Loc} (h : Site b L fs key)
    (hdir : fs.LeadsTo ⟨(diskPath b key).absolute, way b key⟩ M) :
    fs.Accepts (L ++ keyNames key) ∧ fs.create (diskPath b key) =
      .ok (L ++ keyNames key, fs.insert (L ++ keyNames key) (.file [])) := by
  obtain ⟨c, hc, hroot⟩ := h.way_eq
  rw [hc] at hdir
  have hdirs := hroot.dirs_of_down h.plain hdir
  obtain ⟨front, name, hsteps⟩ := keySteps_eq_concat h.valid h.last
  have hroom := h.room
  have hup := up_notMem_keySteps h.valid
  have hfront : (keyNames key).dropLast = names front := by
    rw [keyNames, hsteps, names_append]
    simp
  rw [hfront] at hdirs
  rw [keyNames, hsteps] at hroom
  rw [hsteps] at hup
  have hcreate := hroom.create h.root h.plain hup hdirs
  rwa [← hsteps] at hcreate

/-! ### One call of a put -/

/-- How far a put is, on a disk where others are at work as well. Until it opens its file, what is
under its key is what was there at first; in a `calm` run it does not fail. -/
def PutState.Going (b : LocalBackend) (L : Loc) (fs₀ : FileSystem) (calm : Prop) (key : String)
    (body : List UInt8) (fs : FileSystem) : PutState → Prop
  | .descend path components above =>
      path = diskPath b key ∧ fs.node (L ++ keyNames key) = fs₀.node (L ++ keyNames key) ∧
        ∃ rest, way b key = components.reverse ++ rest ∧
          above = rungs path.absolute components.reverse rest
  | .ascend path above =>
      path = diskPath b key ∧ fs.node (L ++ keyNames key) = fs₀.node (L ++ keyNames key) ∧
        ∃ pre rest, way b key = pre ++ rest ∧ above = rungs path.absolute pre rest ∧
          ∃ M, fs.LeadsTo ⟨path.absolute, pre⟩ M
  | .creating path =>
      path = diskPath b key ∧ fs.node (L ++ keyNames key) = fs₀.node (L ++ keyNames key) ∧
        ∃ M, fs.LeadsTo ⟨path.absolute, way b key⟩ M
  | .writing file n =>
      file = L ++ keyNames key ∧ n ≤ body.length ∧ fs.node file = some (.file (body.take n))
  | .returned none result =>
      fs.node (L ++ keyNames key) = fs₀.node (L ++ keyNames key) ∧ ¬ calm ∧
        ∃ err, result = .error err
  | .returned (some n) result =>
      fs.node (L ++ keyNames key) = some (.file (body.take n)) ∧
        (result = .ok () → n = body.length) ∧ (calm → result = .ok ())

/-- A call that touches the disk at its key only, and gets on with the put. -/
structure Advances (b : LocalBackend) (L : Loc) (fs₀ : FileSystem) (calm : Prop) (key : String)
    (body : List UInt8) (w w' : World) : Prop where
  touches : Touches L [keyNames key] w.fs w'.fs
  going : w'.put.Going b L fs₀ calm key body w'.fs

variable {calm : Prop}

theorem advances_put {w : World} {put : PutState}
    (h : put.Going b L fs₀ calm key body w.fs) :
    Advances b L fs₀ calm key body w { w with put := put } := ⟨Touches.refl w.fs, h⟩

theorem advances_refl {w : World} (h : w.put.Going b L fs₀ calm key body w.fs) :
    Advances b L fs₀ calm key body w w := ⟨Touches.refl w.fs, h⟩

theorem failed_going {e : IoError}
    (hsame : fs.node (L ++ keyNames key) = fs₀.node (L ++ keyNames key)) (hcalm : ¬ calm) :
    (PutState.failed none e).Going b L fs₀ calm key body fs := ⟨hsame, hcalm, _, rfl⟩

/-- A directory on the way that is there now. -/
theorem ascend_going {pre rest : List Step} {step : Step} {M : Loc}
    (hway : way b key = pre ++ step :: rest)
    (hsame : fs.node (L ++ keyNames key) = fs₀.node (L ++ keyNames key))
    (hM : fs.LeadsTo ⟨(diskPath b key).absolute, pre ++ [step]⟩ M) :
    (PutState.ascend (diskPath b key) (rungs (diskPath b key).absolute (pre ++ [step]) rest)).Going
      b L fs₀ calm key body fs := by
  refine ⟨rfl, hsame, pre ++ [step], rest, ?_, rfl, M, hM⟩
  rw [hway, List.append_assoc, List.singleton_append]

theorem ascend_advances {w : World} {path : Path} {above : List Path}
    (hput : w.put = .ascend path above) (hsite : Site b L w.fs key)
    (h : w.put.Going b L fs₀ calm key body w.fs) (mkdir isDir : Option IoError)
    (hcalm : calm → mkdir = none ∧ isDir = none) :
    Advances b L fs₀ calm key body w (putStep body w (.dir mkdir isDir)) := by
  obtain ⟨fs, put⟩ := w
  obtain rfl : put = _ := hput
  obtain ⟨rfl, hsame, pre, rest, hway, habove, M, hM⟩ := h
  cases rest with
  | nil =>
    obtain rfl : above = [] := habove
    rw [List.append_nil] at hway
    exact advances_put ⟨rfl, hsame, M, hway ▸ hM⟩
  | cons step rest =>
    obtain rfl : above = _ :: rungs _ (pre ++ [step]) rest := habove
    simp only [putStep]
    split
    · rename_i fs₁ hmk
      obtain ⟨ht, hplace, M₁, hM₁⟩ := hsite.made hway (FileSystem.faulty_eq_ok.1 hmk).2
      exact ⟨ht, ascend_going hway (hplace.trans hsame) hM₁⟩
    · rename_i e hmk
      split_ifs with hdir
      · obtain ⟨M₁, hM₁⟩ := FileSystem.leadsTo_of_isDir (by simp) hdir.2
        exact advances_put (ascend_going hway hsame hM₁)
      · refine advances_put (failed_going hsame fun hc => ?_)
        obtain ⟨rfl, rfl⟩ := hcalm hc
        rcases hsite.mkdir hway with ⟨fs₁, hok, -⟩ | ⟨-, hthere⟩ | ⟨-, hnowhere⟩
        · rw [FileSystem.faulty, hok] at hmk
          cases hmk
        · exact hdir ⟨rfl, hthere⟩
        · exact hnowhere M hM

theorem descend_advances {w : World} {path : Path} {components : List Step} {above : List Path}
    (hput : w.put = .descend path components above) (hsite : Site b L w.fs key)
    (h : w.put.Going b L fs₀ calm key body w.fs) (mkdir isDir : Option IoError)
    (hcalm : calm → mkdir = none ∧ isDir = none) :
    Advances b L fs₀ calm key body w (putStep body w (.dir mkdir isDir)) := by
  obtain ⟨fs, put⟩ := w
  obtain rfl : put = _ := hput
  obtain ⟨rfl, hsame, up, hway, rfl⟩ := h
  cases components with
  | nil => exact advances_put ⟨rfl, hsame, [], up, hway, rfl, FileSystem.leadsTo_nil _ fs⟩
  | cons step rest =>
    rw [List.reverse_cons] at hway ⊢
    rw [List.append_assoc, List.singleton_append] at hway
    simp only [putStep, List.reverse_cons]
    split
    · rename_i fs₁ hmk
      obtain ⟨ht, hplace, M₁, hM₁⟩ := hsite.made hway (FileSystem.faulty_eq_ok.1 hmk).2
      exact ⟨ht, ascend_going hway (hplace.trans hsame) hM₁⟩
    · exact advances_put ⟨rfl, hsame, step :: up, hway, rfl⟩
    · rename_i e hne hmk
      split_ifs with hdir
      · obtain ⟨M₁, hM₁⟩ := FileSystem.leadsTo_of_isDir (by simp) hdir.2
        exact advances_put (ascend_going hway hsame hM₁)
      · refine advances_put (failed_going hsame fun hc => ?_)
        obtain ⟨rfl, rfl⟩ := hcalm hc
        rcases hsite.mkdir hway with ⟨fs₁, hok, -⟩ | ⟨-, hthere⟩ | ⟨hmissing, -⟩
        · rw [FileSystem.faulty, hok] at hmk
          cases hmk
        · exact hdir ⟨rfl, hthere⟩
        · rw [FileSystem.faulty, hmissing] at hmk
          exact hne (Except.error.inj hmk).symm

theorem creating_advances {w : World} {path : Path} (hput : w.put = .creating path)
    (hsite : Site b L w.fs key) (h : w.put.Going b L fs₀ calm key body w.fs)
    (fault : Option IoError) (hcalm : calm → fault = none) :
    Advances b L fs₀ calm key body w (putStep body w (.create fault)) := by
  obtain ⟨fs, put⟩ := w
  obtain rfl : put = _ := hput
  obtain ⟨rfl, hsame, M, hM⟩ := h
  cases fault with
  | some e =>
    refine advances_put (failed_going hsame fun hc => ?_)
    cases hcalm hc
  | none =>
    obtain ⟨hacc, hcreate⟩ := hsite.create hM
    simp only [putStep, FileSystem.faulty, hcreate]
    refine ⟨Touches.insert_file hacc hsite.plain [], rfl, Nat.zero_le _, ?_⟩
    rw [FileSystem.insert_node hacc, if_pos rfl, List.take_zero]

theorem write_advances {w : World} {file : Loc} {n : ℕ} (hput : w.put = .writing file n)
    (hsite : Site b L w.fs key) (h : w.put.Going b L fs₀ calm key body w.fs) (c : ℕ) :
    Advances b L fs₀ calm key body w (putStep body w (.write c)) := by
  obtain ⟨fs, put⟩ := w
  obtain rfl : put = _ := hput
  obtain ⟨rfl, hn, hnode⟩ := h
  have hacc : fs.Accepts (L ++ keyNames key) := FileSystem.accepts_of_node hnode (by simp)
  have hbytes : body.take n ++ (body.drop n).take c = body.take (min (n + c) body.length) := by
    rw [← List.take_add, List.take_eq_take_iff]
    omega
  simp only [putStep, FileSystem.append_eq hnode, hbytes]
  refine ⟨Touches.insert_file hacc hsite.plain _, rfl, min_le_right _ _, ?_⟩
  rw [FileSystem.insert_node hacc, if_pos rfl]

theorem finish_advances {w : World} {file : Loc} {n : ℕ} (hput : w.put = .writing file n)
    (h : w.put.Going b L fs₀ calm key body w.fs) (fault : Option IoError)
    (hcalm : calm → fault = none) :
    Advances b L fs₀ calm key body w (putStep body w (.finish fault)) := by
  obtain ⟨fs, put⟩ := w
  obtain rfl : put = _ := hput
  obtain ⟨rfl, hn, hnode⟩ := h
  cases fault with
  | some e =>
    refine advances_put ⟨hnode, fun hok => ?_, fun hc => ?_⟩
    · cases hok
    · cases hcalm hc
  | none =>
    simp only [putStep]
    split_ifs with hall
    · exact advances_put ⟨hnode, fun _ => hall, fun _ => rfl⟩
    · exact advances_put ⟨rfl, hn, hnode⟩

/-- One call of a put, at a key with room. -/
theorem putStep_advances {w : World} {e : PutEvent} (hsite : Site b L w.fs key)
    (h : w.put.Going b L fs₀ calm key body w.fs) (hcalm : calm → e.Faultless) :
    Advances b L fs₀ calm key body w (putStep body w e) := by
  cases e with
  | dir mkdir isDir =>
    cases hput : w.put with
    | descend path components above => exact descend_advances hput hsite h mkdir isDir hcalm
    | ascend path above => exact ascend_advances hput hsite h mkdir isDir hcalm
    | _ => simpa only [putStep, hput] using advances_refl h
  | create fault =>
    cases hput : w.put with
    | creating path => exact creating_advances hput hsite h fault hcalm
    | _ => simpa only [putStep, hput] using advances_refl h
  | write c =>
    cases hput : w.put with
    | writing file n => exact write_advances hput hsite h c
    | _ => simpa only [putStep, hput] using advances_refl h
  | finish fault =>
    cases hput : w.put with
    | writing file n => exact finish_advances hput h fault hcalm
    | _ => simpa only [putStep, hput] using advances_refl h

/-- Before its first call. -/
theorem startPut_going (hsite : Site b L fs₀ key) :
    (startPut b key).Going b L fs₀ calm key body fs₀ := by
  rw [hsite.startPut]
  exact ⟨rfl, rfl, [], by simp, rfl⟩

/-! ### What the others do -/

/-- Work at places apart does not disturb a put. -/
theorem PutState.Going.touches {put : PutState} (h : put.Going b L fs₀ calm key body fs)
    (ht : Touches L places fs fs') (hapart : ∀ ns ∈ places, FileSystem.Apart ns (keyNames key)) :
    put.Going b L fs₀ calm key body fs' := by
  have hplace := ht.node_apart hapart
  cases put with
  | descend path components above =>
    obtain ⟨rfl, hsame, hway⟩ := h
    exact ⟨rfl, hplace.trans hsame, hway⟩
  | ascend path above =>
    obtain ⟨rfl, hsame, pre, rest, hway, habove, M, hM⟩ := h
    exact ⟨rfl, hplace.trans hsame, pre, rest, hway, habove, M, hM.keeps ht.keeps⟩
  | creating path =>
    obtain ⟨rfl, hsame, M, hM⟩ := h
    exact ⟨rfl, hplace.trans hsame, M, hM.keeps ht.keeps⟩
  | writing file n =>
    obtain ⟨rfl, hn, hnode⟩ := h
    exact ⟨rfl, hn, hplace.trans hnode⟩
  | returned written result =>
    cases written with
    | none =>
      obtain ⟨hsame, hfailed⟩ := h
      exact ⟨hplace.trans hsame, hfailed⟩
    | some n =>
      obtain ⟨hnode, hresult⟩ := h
      exact ⟨hplace.trans hnode, hresult⟩

/-! ### What is under the key -/

theorem PutState.Going.get_unopened {put : PutState} (h : put.Going b L fs₀ calm key body fs)
    (hsite₀ : Site b L fs₀ key) (hsite : Site b L fs key) (hput : put.written = none) :
    b.get none key fs = b.get none key fs₀ := by
  refine hsite₀.get_congr hsite ?_
  cases put with
  | descend path components above => exact h.2.1
  | ascend path above => exact h.2.1
  | creating path => exact h.2.1
  | writing file n => cases hput
  | returned written result =>
    obtain rfl : written = none := hput
    exact h.1

theorem PutState.Going.get_written {put : PutState} (h : put.Going b L fs₀ calm key body fs)
    (hsite : Site b L fs key) (n : ℕ) (hput : put.written = some n) :
    b.get none key fs = .ok (body.take n) := by
  refine hsite.get_of_node ?_
  cases put with
  | writing file m =>
    obtain rfl : m = n := Option.some.inj hput
    obtain ⟨rfl, -, hnode⟩ := h
    exact hnode
  | returned written result =>
    obtain rfl : written = some n := hput
    exact h.1
  | _ => cases hput

theorem PutState.Going.get_returned {put : PutState} (h : put.Going b L fs₀ calm key body fs)
    (hsite : Site b L fs key) (n : Option ℕ) (hput : put = .returned n (.ok ())) :
    b.get none key fs = .ok body := by
  subst hput
  cases n with
  | none =>
    obtain ⟨-, -, err, herr⟩ := h
    cases herr
  | some n =>
    rw [h.get_written hsite n rfl, h.2.1 rfl, List.take_length]

theorem PutState.Going.no_error {put : PutState} (h : put.Going b L fs₀ calm key body fs)
    (hcalm : calm) (n : Option ℕ) (err : StorageError) : put ≠ .returned n (.error err) := by
  rintro rfl
  cases n with
  | none => exact h.2.1 hcalm
  | some n => cases h.2.2 hcalm

/-! ### All puts -/

variable {jobs : List Job} {s : WritersState} {es : List WritersEvent}

/-- The places of the files. -/
def jobPlaces (jobs : List Job) : List (List Name) := jobs.map fun j => keyNames j.key

/-- Every job keeps its room while the jobs are done. -/
theorem Site.during {j : Job} (h : Site b L fs₀ j.key) (hapart : jobs.Pairwise Job.Apart)
    (hj : j ∈ jobs) (ht : Touches L (jobPlaces jobs) fs₀ fs) : Site b L fs j.key := by
  refine h.touches ht fun ns hns => ?_
  obtain ⟨j', hj', rfl⟩ := List.mem_map.1 hns
  by_cases heq : j' = j
  · exact Or.inl (by rw [heq])
  · exact Or.inr (hapart.forall hj' hj heq)

theorem writers_owned (hsites : ∀ j ∈ jobs, Site b L fs₀ j.key)
    (hapart : jobs.Pairwise Job.Apart) (calm : Prop) :
    writers.Owned Writer.job Job.Apart (fun e => calm → e.Faultless)
      (Touches L (jobPlaces jobs) fs₀)
      (fun fs p => p.job ∈ jobs ∧ p.state.Going b L fs₀ calm p.job.key p.job.body fs)
      (fun j => Touches L [keyNames j.key]) where
  env_world _ e := e.elim
  act_own fs p e fs' q h := by
    obtain ⟨-, rfl⟩ := Prod.mk.inj (Option.some.inj h)
    rfl
  act_world fs p e fs' q hcalm ht hp h := by
    obtain ⟨rfl, rfl⟩ := Prod.mk.inj (Option.some.inj h)
    obtain ⟨hjob, hgoing⟩ := hp
    have hsite := (hsites p.job hjob).during hapart hjob ht
    have hadv := putStep_advances (w := ⟨fs, p.state⟩) hsite hgoing hcalm
    refine ⟨ht.trans (hadv.touches.mono ?_), ⟨hjob, hadv.going⟩, hadv.touches⟩
    intro ns hns
    rw [List.mem_singleton.1 hns]
    exact List.mem_map_of_mem hjob
  stable j fs fs' p hj ht hp := by
    refine ⟨hp.1, hp.2.touches ht fun ns hns => ?_⟩
    rw [List.mem_singleton.1 hns]
    exact hj

/-- What holds in every state of every run. -/
theorem writers_invariant (hsites : ∀ j ∈ jobs, Site b L fs₀ j.key)
    (hapart : jobs.Pairwise Job.Apart)
    (hrun : Runs.run writers.step (beforePuts b jobs fs₀) es = some s) :
    s.procs.map Writer.job = jobs ∧ Touches L (jobPlaces jobs) fs₀ s.world ∧
      ∀ p ∈ s.procs, p.job ∈ jobs ∧
        p.state.Going b L fs₀ (Calm es) p.job.key p.job.body s.world := by
  have howners : (beforePuts b jobs fs₀).procs.map Writer.job = jobs := by
    simp [beforePuts, Function.comp_def]
  have hinit : ∀ p ∈ (beforePuts b jobs fs₀).procs, p.job ∈ jobs ∧
      p.state.Going b L fs₀ (Calm es) p.job.key p.job.body fs₀ := by
    intro p hp
    obtain ⟨j, hj, rfl⟩ := List.mem_map.1 hp
    exact ⟨hj, startPut_going (hsites j hj)⟩
  obtain ⟨⟨ht, hprocs⟩, hsame⟩ := (writers_owned hsites hapart (Calm es)).invariant
    ⟨Touches.refl fs₀, hinit⟩ (howners.symm ▸ hapart) (fun i e he hcalm => hcalm i e he) hrun
  exact ⟨hsame.trans howners, ht, hprocs⟩

/-- Puts under keys apart from each other do not disturb each other, in whatever order their calls
come. What is under a key is what its own put left there: the old object until the put opens the
file, then a beginning of the body, and all of it when the put has returned without an error. A put
fails only if some call fails by itself. Under all other keys with room nothing changes. -/
theorem puts_isolated (hsites : ∀ j ∈ jobs, Site b L fs₀ j.key) (hapart : jobs.Pairwise Job.Apart)
    (hrun : Runs.run writers.step (beforePuts b jobs fs₀) es = some s) :
    s.procs.map Writer.job = jobs ∧
      (∀ p ∈ s.procs,
        (p.state.written = none → b.get none p.job.key s.world = b.get none p.job.key fs₀) ∧
        (∀ n, p.state.written = some n →
          b.get none p.job.key s.world = .ok (p.job.body.take n)) ∧
        (∀ n, p.state = .returned n (.ok ()) →
          b.get none p.job.key s.world = .ok p.job.body) ∧
        (Calm es → ∀ n err, p.state ≠ .returned n (.error err))) ∧
      ∀ key, Site b L fs₀ key → (∀ j ∈ jobs, FileSystem.Apart (keyNames j.key) (keyNames key)) →
        b.get none key s.world = b.get none key fs₀ := by
  obtain ⟨howners, ht, hprocs⟩ := writers_invariant hsites hapart hrun
  refine ⟨howners, fun p hp => ?_, fun key hsite hkey => ?_⟩
  · obtain ⟨hjob, hgoing⟩ := hprocs p hp
    have hsite₀ := hsites p.job hjob
    have hsite := hsite₀.during hapart hjob ht
    exact ⟨hgoing.get_unopened hsite₀ hsite, hgoing.get_written hsite, hgoing.get_returned hsite,
      hgoing.no_error⟩
  · have hplaces : ∀ ns ∈ jobPlaces jobs, FileSystem.Apart ns (keyNames key) := by
      intro ns hns
      obtain ⟨j, hj, rfl⟩ := List.mem_map.1 hns
      exact hkey j hj
    exact hsite.get_congr (hsite.touches ht fun ns hns => Or.inr (hplaces ns hns))
      (ht.node_apart hplaces)

/-- Two puts whose files are in one directory. -/
def sampleJobs : List Job := [⟨"a/x", [1, 2]⟩, ⟨"a/y", [3]⟩]

/-- Both puts find the directory missing; the second one makes it, and the first one finds it made
when it tries again. The second put returns when the first has written a byte. -/
def sampleTurns : List WritersEvent :=
  [.act 0 (.dir none none), .act 1 (.dir none none), .act 1 (.dir none none),
    .act 0 (.dir none none), .act 0 (.dir none none), .act 0 (.create none),
    .act 1 (.create none), .act 0 (.write 1), .act 1 (.write 7), .act 1 (.finish none)]

theorem sampleTurns_run :
    (∀ j ∈ sampleJobs, Storable sampleBackend j.key ∧ (keySteps j.key).getLast? ≠ some .stay) ∧
      sampleJobs.Pairwise Job.Apart ∧
      (Runs.run writers.step (beforePuts sampleBackend sampleJobs sampleTree) sampleTurns).map
        (fun s => s.procs) =
        some [⟨⟨"a/x", [1, 2]⟩,
            .writing [segmentBytes "data", segmentBytes "a", segmentBytes "x"] 1⟩,
          ⟨⟨"a/y", [3]⟩, .returned (some 1) (.ok ())⟩] := by
  decide +kernel

theorem site_sampleJobs (j : Job) (hj : j ∈ sampleJobs) :
    Site sampleBackend [segmentBytes "data"] sampleTree j.key :=
  site_of_empty leadsTo_sampleTree sampleTree_below (sampleTurns_run.1 j hj).1.valid
    (sampleTurns_run.1 j hj).2

theorem puts_isolated_sampleTurns :
    ∃ s, Runs.run writers.step (beforePuts sampleBackend sampleJobs sampleTree) sampleTurns =
        some s ∧
      sampleBackend.get none "a/x" s.world = .ok [1] ∧
      sampleBackend.get none "a/y" s.world = .ok [3] := by
  obtain ⟨-, hapart, hmap⟩ := sampleTurns_run
  obtain ⟨s, hrun, hprocs⟩ := Option.map_eq_some_iff.1 hmap
  obtain ⟨-, hgets, -⟩ := puts_isolated site_sampleJobs hapart hrun
  refine ⟨s, hrun, ?_, ?_⟩
  · exact (hgets _ (by rw [hprocs]; exact List.mem_cons_self)).2.1 1 rfl
  · exact (hgets _ (by rw [hprocs]; exact List.mem_cons_of_mem _ List.mem_cons_self)).2.2.1 _ rfl

/-! ### Every put returns -/

/-- The calls that a put still has to make, at most; what is left to write counts as one. -/
def PutState.left (body : List UInt8) : PutState → ℕ
  | .descend _ components above => 2 * components.length + above.length + 5
  | .ascend _ above => above.length + 4
  | .creating _ => 3
  | .writing _ n => if n < body.length then 2 else 1
  | .returned _ _ => 0

theorem left_failed (written : Option ℕ) (e : IoError) :
    (PutState.failed written e).left body = 0 := rfl

/-- The next call on the way down leaves less to do, also when it fails. -/
theorem left_descend (fs : FileSystem) (path : Path) (components : List Step) (above : List Path) :
    (putStep body ⟨fs, .descend path components above⟩ (.dir none none)).put.left body <
      (PutState.descend path components above).left body := by
  cases components with
  | nil => simp [putStep, PutState.left]
  | cons step rest =>
    have hleft : (PutState.descend path (step :: rest) above).left body =
        2 * (rest.length + 1) + above.length + 5 := rfl
    rw [hleft]
    simp only [putStep]
    split
    · simp only [PutState.left]
      omega
    · -- One directory less on the way down is one more on the way up.
      simp only [PutState.left, List.length_cons]
      omega
    · split_ifs
      · simp only [PutState.left]
        omega
      · rw [left_failed]
        omega

theorem left_ascend (fs : FileSystem) (path : Path) (above : List Path) :
    (putStep body ⟨fs, .ascend path above⟩ (.dir none none)).put.left body <
      (PutState.ascend path above).left body := by
  cases above with
  | nil => simp [putStep, PutState.left]
  | cons p above =>
    have hleft : (PutState.ascend path (p :: above)).left body = above.length + 1 + 4 := rfl
    rw [hleft]
    simp only [putStep]
    split
    · simp only [PutState.left]
      omega
    · split_ifs
      · simp only [PutState.left]
        omega
      · rw [left_failed]
        omega

/-- A put that has not returned has a next call. -/
theorem exists_next (w : World) (hgoing : w.put.Going b L fs₀ calm key body w.fs)
    (h : w.put.left body ≠ 0) :
    ∃ e : PutEvent, e.Faultless ∧ (putStep body w e).put.left body < w.put.left body := by
  obtain ⟨fs, put⟩ := w
  cases put with
  | descend path components above =>
    exact ⟨.dir none none, ⟨rfl, rfl⟩, left_descend fs path components above⟩
  | ascend path above => exact ⟨.dir none none, ⟨rfl, rfl⟩, left_ascend fs path above⟩
  | creating path =>
    refine ⟨.create none, rfl, ?_⟩
    simp only [putStep]
    split
    · exact Nat.succ_pos 2
    · simp only [PutState.left]
      split_ifs <;> omega
  | writing file n =>
    obtain ⟨-, hle, -⟩ := hgoing
    by_cases hn : n < body.length
    · refine ⟨.write body.length, trivial, ?_⟩
      simp [putStep, PutState.left, hn]
    · refine ⟨.finish none, rfl, ?_⟩
      have hall : n = body.length := by omega
      simp [putStep, PutState.left, hall]
  | returned written result => exact absurd rfl h

theorem returned_of_left {put : PutState} (hgoing : put.Going b L fs₀ calm key body fs)
    (hcalm : calm) (h : put.left body = 0) : ∃ n, put = .returned n (.ok ()) := by
  cases put with
  | returned n result =>
    cases result with
    | ok _ => exact ⟨n, rfl⟩
    | error err => exact absurd rfl (hgoing.no_error hcalm n err)
  | writing file n =>
    simp only [PutState.left] at h
    split_ifs at h
  | _ => simp [PutState.left] at h

theorem calm_concat {i : ℕ} {e : PutEvent} (hcalm : Calm es) (he : e.Faultless) :
    Calm (es ++ [.act i e]) := by
  intro j e' hmem
  rcases List.mem_append.1 hmem with hmem | hmem
  · exact hcalm j e' hmem
  · obtain ⟨-, rfl⟩ := Interleaving.Event.act.inj (List.mem_singleton.1 hmem)
    exact he

/-- The states that are reached without a call that fails by itself. -/
def Reached (b : LocalBackend) (jobs : List Job) (fs₀ : FileSystem) (s : WritersState) : Prop :=
  ∃ es, Calm es ∧ Runs.run writers.step (beforePuts b jobs fs₀) es = some s

/-- As long as a put has not returned, there is a call to make. -/
theorem Reached.next (hsites : ∀ j ∈ jobs, Site b L fs₀ j.key) (hapart : jobs.Pairwise Job.Apart)
    (h : Reached b jobs fs₀ s) (hleft : ¬ ∀ p ∈ s.procs, p.state.left p.job.body = 0) :
    ∃ e t, (∀ i a, e = .act i a → a.Faultless) ∧ writers.step s e = some t ∧
      Reached b jobs fs₀ t ∧ (t.procs.map fun p => p.state.left p.job.body).sum <
        (s.procs.map fun p => p.state.left p.job.body).sum := by
  obtain ⟨es, hcalm, hrun⟩ := h
  push Not at hleft
  obtain ⟨p, hp, hleft⟩ := hleft
  obtain ⟨i, hi⟩ := List.getElem?_of_mem hp
  obtain ⟨-, -, hprocs⟩ := writers_invariant hsites hapart hrun
  obtain ⟨e, he, hlt⟩ := exists_next ⟨s.world, p.state⟩ (hprocs p hp).2 hleft
  have hstep : writers.step s (.act i e) =
      some ⟨(p.call s.world e).1, s.procs.set i (p.call s.world e).2⟩ :=
    Interleaving.step_act_eq_some.2 ⟨p, _, _, hi, rfl, rfl⟩
  refine ⟨.act i e, _, ?_, hstep, ⟨es ++ [.act i e], calm_concat hcalm he, ?_⟩, ?_⟩
  · intro j a heq
    obtain ⟨-, rfl⟩ := Interleaving.Event.act.inj heq
    exact he
  · exact Runs.run_concat.2 ⟨s, hrun, hstep⟩
  · have hsum := Interleaving.sum_map_set (fun p : Writer => p.state.left p.job.body) hi
      (p.call s.world e).2
    have hcall : (p.call s.world e).2.state.left (p.call s.world e).2.job.body <
        p.state.left p.job.body := hlt
    simp only at hsum ⊢
    omega

/-- A key with room that is not too long for the disk. -/
structure OpenSite (b : LocalBackend) (L : Loc) (fs : FileSystem) (key : String) : Prop
    extends Site b L fs key, Storable b key

/-- Every run in which no call fails by itself goes on to one where all puts have returned without
an error, and every body is under its key. -/
theorem puts_complete (hopen : ∀ j ∈ jobs, OpenSite b L fs₀ j.key)
    (hapart : jobs.Pairwise Job.Apart) (hcalm : Calm es)
    (hrun : Runs.run writers.step (beforePuts b jobs fs₀) es = some s) :
    ∃ es' t, Calm es' ∧ Runs.run writers.step s es' = some t ∧ t.procs.map Writer.job = jobs ∧
      ∀ p ∈ t.procs, (∃ n, p.state = .returned n (.ok ())) ∧
        b.get none p.job.key t.world = .ok p.job.body := by
  have hsites : ∀ j ∈ jobs, Site b L fs₀ j.key := fun j hj => (hopen j hj).toSite
  have hs : Reached b jobs fs₀ s := ⟨es, hcalm, hrun⟩
  obtain ⟨es', t, hes', hrun', ⟨es₁, hcalm₁, hrun₁⟩, hdone⟩ := Runs.exists_run _
    (fun s hs hleft => Reached.next hsites hapart hs hleft) hs
  obtain ⟨howners, ht, hprocs⟩ := writers_invariant hsites hapart hrun₁
  refine ⟨es', t, fun i e he => hes' _ he i e rfl, hrun', howners, fun p hp => ?_⟩
  obtain ⟨hjob, hgoing⟩ := hprocs p hp
  obtain ⟨n, hn⟩ := returned_of_left hgoing hcalm₁ (hdone p hp)
  exact ⟨⟨n, hn⟩, hgoing.get_returned ((hsites p.job hjob).during hapart hjob ht) n hn⟩

theorem calm_sampleTurns : Calm sampleTurns := by
  intro i e he
  simp only [sampleTurns, List.mem_cons, Interleaving.Event.act.injEq, List.not_mem_nil,
    or_false] at he
  rcases he with ⟨-, rfl⟩ | ⟨-, rfl⟩ | ⟨-, rfl⟩ | ⟨-, rfl⟩ | ⟨-, rfl⟩ | ⟨-, rfl⟩ | ⟨-, rfl⟩ |
    ⟨-, rfl⟩ | ⟨-, rfl⟩ | ⟨-, rfl⟩
  all_goals simp [PutEvent.Faultless]

theorem puts_complete_sampleTurns :
    ∃ s es t, Runs.run writers.step (beforePuts sampleBackend sampleJobs sampleTree) sampleTurns =
        some s ∧
      Runs.run writers.step s es = some t ∧ t.procs.map Writer.job = sampleJobs ∧
      ∀ p ∈ t.procs, sampleBackend.get none p.job.key t.world = .ok p.job.body := by
  obtain ⟨-, hapart, hmap⟩ := sampleTurns_run
  obtain ⟨s, hrun, -⟩ := Option.map_eq_some_iff.1 hmap
  have hopen : ∀ j ∈ sampleJobs,
      OpenSite sampleBackend [segmentBytes "data"] sampleTree j.key := fun j hj =>
    ⟨site_sampleJobs j hj, (sampleTurns_run.1 j hj).1.names, (sampleTurns_run.1 j hj).1.path⟩
  obtain ⟨es, t, -, hrun', hjobs, hdone⟩ :=
    puts_complete hopen hapart calm_sampleTurns hrun
  exact ⟨s, es, t, hrun, hrun', hjobs, fun p hp => (hdone p hp).2⟩

end Storage

end OaLibs
