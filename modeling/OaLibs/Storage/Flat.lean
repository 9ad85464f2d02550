import OaLibs.Storage.Objects

/-!
# The local backend as a flat object store

On an empty root, where no system call fails by itself, the local backend answers a list of calls
as the flat store does exactly if every call fits the calls before it: no file stands where the
key's path needs a directory, its path is no directory, no put ends in a `.` segment, and a read
key was written last under its own spelling.

* `Fits`: the condition;
* `Represents`: the tree below the root after some calls, all of which fit;
* `Lookup`: what a key's path resolves to in such a tree;
* `replies_eq_flat_iff`: the equivalence, and `not_flat` a short run where the two differ.
-/

namespace OaLibs

namespace Storage

open UnixPath FileTree
open FileTree.FileSystem (Through PlainWalk)

/-- No file stands where the path of the key needs a directory. -/
def FreeOfFiles (hist : List Call) (key : String) : Prop :=
  ∀ t, t <+: keySteps key → t ≠ keySteps key → lastAt (names t) hist = none

/-- The condition under which a call after `hist` does what the flat store does. -/
def Fits (hist : List Call) : Call → Prop
  | .put key _ =>
      (keySteps key).getLast? ≠ some .stay ∧ FreeOfFiles hist key ∧ ¬ IsDir hist (keyNames key)
  | .get key =>
      FreeOfFiles hist key ∧ ¬ IsDir hist (keyNames key) ∧
        lastAt (keyNames key) hist = lastUnder key hist
  | .delete key => FreeOfFiles hist key ∧ ¬ IsDir hist (keyNames key)
  | .existsKey key =>
      (IsDir hist (keyNames key) ∨
        (FreeOfFiles hist key ∧ lastAt (keyNames key) hist ≠ none)) ↔ lastUnder key hist ≠ none

/-- The tree below the root after calls that all fit. -/
structure Represents (b : LocalBackend) (L : Loc) (hist : List Call) (fs : FileSystem) : Prop where
  root : fs.LeadsTo (parse b.root) L
  dir : ∀ path, IsDir hist path → fs.node (L ++ path) = some .dir
  file : ∀ path, ¬ IsDir hist path → fs.node (L ++ path) = (lastAt path hist).map .file
  disjoint : ∀ path, IsDir hist path → lastAt path hist = none

variable {b : LocalBackend} {L : Loc} {hist : List Call} {fs fs' : FileSystem} {key : String}
  {path : List Name}

theorem Represents.node_file_iff (h : Represents b L hist fs) {bytes : List UInt8} :
    fs.node (L ++ path) = some (.file bytes) ↔ lastAt path hist = some bytes := by
  by_cases hdir : IsDir hist path
  · rw [h.dir path hdir, h.disjoint path hdir]
    simp
  · rw [h.file path hdir]
    simp

theorem Represents.plain (h : Represents b L hist fs) : fs.Plain L := by
  rintro m ⟨path, rfl⟩ target
  by_cases hdir : IsDir hist path
  · simp [h.dir path hdir]
  · simp [h.file path hdir]

/-- What is not a file holds nothing. -/
theorem Represents.lastAt_eq_none (h : Represents b L hist fs)
    (hno : ∀ bytes, fs.node (L ++ path) ≠ some (.file bytes)) : lastAt path hist = none := by
  cases hlast : lastAt path hist with
  | none => rfl
  | some bytes => exact absurd (h.node_file_iff.2 hlast) (hno bytes)

/-- The path of a key on the disk. -/
def diskPath (b : LocalBackend) (key : String) : Path :=
  ⟨(parse b.root).absolute, (parse b.root).steps ++ keySteps key⟩

/-- What the path of a key resolves to in the tree after `hist`. -/
inductive Lookup (L : Loc) (hist : List Call) (fs : FileSystem) (key : String) :
    Except IoError Target → Prop
  | blocked (hfile : ¬ FreeOfFiles hist key) (hdir : ¬ IsDir hist (keyNames key)) :
      Lookup L hist fs key (.error .notADirectory)
  | absent (hfree : FreeOfFiles hist key) (hdir : ¬ IsDir hist (keyNames key))
      (hnone : lastAt (keyNames key) hist = none) : Lookup L hist fs key (.error .notFound)
  | missing (hfree : FreeOfFiles hist key) (hdir : ¬ IsDir hist (keyNames key))
      (hnone : lastAt (keyNames key) hist = none) :
      Lookup L hist fs key (.ok (.missing (L ++ keyNames key)))
  | file (hfree : FreeOfFiles hist key) (hdir : ¬ IsDir hist (keyNames key)) (bytes : List UInt8)
      (hsome : lastAt (keyNames key) hist = some bytes)
      (hnode : fs.node (L ++ keyNames key) = some (.file bytes)) :
      Lookup L hist fs key (.ok (.found (L ++ keyNames key)))
  | dir (hdir : IsDir hist (keyNames key)) (hnode : fs.node (L ++ keyNames key) = some .dir) :
      Lookup L hist fs key (.ok (.found (L ++ keyNames key)))

theorem Represents.lookup (h : Represents b L hist fs) (follow : Bool)
    (hkey : validateKey key = .ok ()) :
    Lookup L hist fs key (fs.resolve follow (diskPath b key)) := by
  have hw := h.root.plainWalk follow h.plain (keySteps_ne_nil hkey)
    (up_notMem_keySteps hkey)
  change PlainWalk fs L (keySteps key) (fs.resolve follow (diskPath b key)) at hw
  generalize fs.resolve follow (diskPath b key) = r at hw
  cases hw with
  | blocked m bytes hm hfile =>
    obtain ⟨t, ht, hne, rfl⟩ := hm
    refine .blocked (fun hfree => ?_) fun hdir => ?_
    · rw [h.node_file_iff, hfree t ht hne] at hfile
      cases hfile
    · rw [h.dir _ (hdir.of_prefix (names_mono ht))] at hfile
      cases hfile
  | absent m hm hnone hno =>
    obtain ⟨t, ht, hne, rfl⟩ := hm
    have hpre : names t <+: keyNames key := names_mono ht
    refine .absent (fun t' ht' hne' => h.lastAt_eq_none (hno _ ⟨t', ht', hne', rfl⟩)) ?_
      (h.lastAt_eq_none ?_)
    · intro hdir
      rw [h.dir _ (hdir.of_prefix hpre)] at hnone
      cases hnone
    · obtain ⟨rest, hrest⟩ := hpre
      rw [← hrest, ← List.append_assoc, FileSystem.node_append_of_none hnone]
      simp
  | reaches hdirs =>
    have hfree : FreeOfFiles hist key := by
      intro t ht hne
      refine h.lastAt_eq_none fun bytes hfile => ?_
      rw [hdirs _ ⟨t, ht, hne, rfl⟩] at hfile
      cases hfile
    change Lookup L hist fs key (.ok (if fs.node (L ++ keyNames key) = none then
      .missing (L ++ keyNames key) else .found (L ++ keyNames key)))
    by_cases hdir : IsDir hist (keyNames key)
    · rw [if_neg (by simp [h.dir _ hdir])]
      exact .dir hdir (h.dir _ hdir)
    · cases hlast : lastAt (keyNames key) hist with
      | none =>
        rw [if_pos (by rw [h.file _ hdir, hlast]; rfl)]
        exact .missing hfree hdir hlast
      | some bytes =>
        have hnode := h.node_file_iff.2 hlast
        rw [if_neg (by simp [hnode])]
        exact .file hfree hdir bytes hlast hnode

/-! ### Reading -/

theorem Represents.get_iff (h : Represents b L hist fs) (hkey : validateKey key = .ok ()) :
    Reply.get (b.get none key fs) = (Objects.call (.get key) fun k => lastUnder k hist).1 ↔
      Fits hist (.get key) := by
  have hlook := h.lookup true hkey
  have hfits : Fits hist (.get key) ↔ FreeOfFiles hist key ∧ ¬ IsDir hist (keyNames key) ∧
      lastAt (keyNames key) hist = lastUnder key hist := Iff.rfl
  unfold diskPath at hlook
  rw [hfits]
  simp only [LocalBackend.get, resolvePath_of_ok hkey, parse_keyPath hkey, FileSystem.faulty,
    FileSystem.read, Objects.call, Reply.get.injEq]
  generalize fs.resolve true _ = r at hlook ⊢
  -- Of the answers that a path can get, the first and the last are errors that no flat store has.
  cases hlook with
  | blocked hfile =>
    refine iff_of_false ?_ fun hfits => hfile hfits.1
    cases lastUnder key hist <;> simp [backendError]
  | absent hfree hdir hnone =>
    rw [hnone]
    cases lastUnder key hist <;> simp [hfree, hdir]
  | missing hfree hdir hnone =>
    rw [hnone]
    cases lastUnder key hist <;> simp [hfree, hdir]
  | file hfree hdir bytes hsome hnode =>
    rw [hsome]
    simp only [FileSystem.file_eq_some_iff.2 hnode]
    cases lastUnder key hist <;> simp [hfree, hdir]
  | dir hdir hnode =>
    refine iff_of_false ?_ fun hfits => hfits.2.1 hdir
    have hnofile : fs.file (L ++ keyNames key) = none :=
      FileSystem.file_of_ne_file (by simp [hnode])
    simp only [hnofile]
    cases lastUnder key hist <;> simp [backendError]

theorem Represents.existsKey_iff (h : Represents b L hist fs) (hkey : validateKey key = .ok ()) :
    Reply.existsKey (b.existsKey none key fs) =
        (Objects.call (.existsKey key) fun k => lastUnder k hist).1 ↔
      Fits hist (.existsKey key) := by
  have hlook := h.lookup true hkey
  have hfits : Fits hist (.existsKey key) ↔ ((IsDir hist (keyNames key) ∨
      (FreeOfFiles hist key ∧ lastAt (keyNames key) hist ≠ none)) ↔ lastUnder key hist ≠ none) :=
    Iff.rfl
  unfold diskPath at hlook
  rw [hfits]
  simp only [LocalBackend.existsKey, resolvePath_of_ok hkey, parse_keyPath hkey,
    FileSystem.faulty, FileSystem.stat, Objects.call, Reply.existsKey.injEq, Except.ok.injEq]
  generalize fs.resolve true _ = r at hlook ⊢
  cases hlook with
  | blocked hfile hdir =>
    cases lastUnder key hist <;> simp [Except.toBool, hfile, hdir]
  | absent hfree hdir hnone =>
    cases lastUnder key hist <;> simp [Except.toBool, hdir, hnone]
  | missing hfree hdir hnone =>
    cases lastUnder key hist <;> simp [Except.toBool, hdir, hnone]
  | file hfree hdir bytes hsome hnode =>
    cases lastUnder key hist <;> simp [Except.toBool, hdir, hsome, hfree]
  | dir hdir hnode =>
    cases lastUnder key hist <;> simp [Except.toBool, hdir]

/-! ### Deleting -/

/-- Calls that leave the same directories and contents leave the same tree. -/
theorem Represents.of_same {hist' : List Call} (h : Represents b L hist fs)
    (hdir : ∀ path, IsDir hist' path ↔ IsDir hist path)
    (hlast : ∀ path, lastAt path hist' = lastAt path hist) : Represents b L hist' fs where
  root := h.root
  dir path hpath := h.dir path ((hdir path).1 hpath)
  file path hpath := by
    rw [hlast]
    exact h.file path fun hdir' => hpath ((hdir path).2 hdir')
  disjoint path hpath := by
    rw [hlast]
    exact h.disjoint path ((hdir path).1 hpath)

theorem lastAt_concat_delete (key : String) (path : List Name) (hist : List Call) :
    lastAt path (hist ++ [.delete key]) =
      if keyNames key = path then none else lastAt path hist := by
  unfold lastAt
  rw [lastWrite_concat, Call.leaves]
  simp

theorem isDir_concat_delete (key : String) (path : List Name) (hist : List Call) :
    IsDir (hist ++ [.delete key]) path ↔ IsDir hist path :=
  isDir_concat fun _ _ => by simp

/-- Deleting a key under whose path there is nothing changes nothing. -/
theorem Represents.delete_nothing (h : Represents b L hist fs)
    (hnone : lastAt (keyNames key) hist = none) : Represents b L (hist ++ [.delete key]) fs := by
  refine h.of_same (isDir_concat_delete key · hist) fun path => ?_
  rw [lastAt_concat_delete]
  split_ifs with heq
  · rw [← heq, hnone]
  · rfl

theorem Represents.remove (h : Represents b L hist fs) {bytes : List UInt8}
    (hnode : fs.node (L ++ keyNames key) = some (.file bytes)) :
    Represents b L (hist ++ [.delete key]) (fs.remove (L ++ keyNames key)) := by
  have hnodir : fs.node (L ++ keyNames key) ≠ some .dir := by simp [hnode]
  have hkeeps := FileSystem.keeps_remove hnodir (by simp [hnode])
  refine ⟨h.root.keeps hkeeps, fun path hdir => ?_, fun path hdir => ?_, fun path hdir => ?_⟩
  · exact hkeeps.dir _ (h.dir path ((isDir_concat_delete key path hist).1 hdir))
  · rw [isDir_concat_delete] at hdir
    rw [FileSystem.remove_node hnodir, lastAt_concat_delete]
    by_cases heq : path = keyNames key
    · rw [if_pos (by rw [heq]), if_pos heq.symm]
      rfl
    · rw [if_neg (by simpa using heq), if_neg (Ne.symm heq)]
      exact h.file path hdir
  · rw [lastAt_concat_delete]
    split_ifs
    · rfl
    · exact h.disjoint path ((isDir_concat_delete key path hist).1 hdir)

theorem Represents.delete (h : Represents b L hist fs) (hkey : validateKey key = .ok ()) :
    ((b.delete none key fs).1 = .ok () ↔ Fits hist (.delete key)) ∧
      (Fits hist (.delete key) →
        Represents b L (hist ++ [.delete key]) (b.delete none key fs).2) := by
  have hlook := h.lookup false hkey
  have hfits : Fits hist (.delete key) ↔ FreeOfFiles hist key ∧ ¬ IsDir hist (keyNames key) :=
    Iff.rfl
  unfold diskPath at hlook
  rw [hfits]
  simp only [LocalBackend.delete, resolvePath_of_ok hkey, parse_keyPath hkey, FileSystem.faulty,
    FileSystem.unlink]
  generalize fs.resolve false _ = r at hlook ⊢
  cases hlook with
  | blocked hfile hdir =>
    exact ⟨by simp [hfile], fun hfits => absurd hfits.1 hfile⟩
  | absent hfree hdir hnone =>
    exact ⟨by simp [hfree, hdir], fun _ => h.delete_nothing hnone⟩
  | missing hfree hdir hnone =>
    exact ⟨by simp [hfree, hdir], fun _ => h.delete_nothing hnone⟩
  | file hfree hdir bytes hsome hnode =>
    simp only [hnode]
    exact ⟨by simp [hfree, hdir], fun _ => h.remove hnode⟩
  | dir hdir hnode =>
    simp only [hnode]
    exact ⟨by simp [hdir], fun hfits => absurd hdir hfits.2⟩

/-! ### Putting -/

theorem lastAt_concat_put (key : String) (body : List UInt8) (path : List Name)
    (hist : List Call) :
    lastAt path (hist ++ [.put key body]) =
      if keyNames key = path then some body else lastAt path hist := by
  unfold lastAt
  rw [lastWrite_concat, Call.leaves]
  simp

theorem put_eq_putAt (hkey : validateKey key = .ok ()) (body : List UInt8) :
    b.put .none key body fs = putAt .none (diskPath b key) body fs := by
  unfold LocalBackend.put
  rw [resolvePath_of_ok hkey]
  simp only [parse_keyPath hkey]
  rfl

/-- A key whose last segment is not `.` ends in a name. -/
theorem keySteps_eq_concat (hkey : validateKey key = .ok ())
    (hlast : (keySteps key).getLast? ≠ some .stay) :
    ∃ front name, keySteps key = front ++ [.down name] := by
  rcases List.eq_nil_or_concat (keySteps key) with hnil | ⟨front, last, hlast'⟩
  · exact absurd hnil (keySteps_ne_nil hkey)
  · rw [List.concat_eq_append] at hlast'
    cases last with
    | stay => simp [hlast'] at hlast
    | up =>
      have hup := up_notMem_keySteps hkey
      rw [hlast'] at hup
      simp at hup
    | down name => exact ⟨front, name, hlast'⟩

/-- The directory of a key that fits can be made. -/
theorem Represents.createParent {front : List Step} {name : Name} (h : Represents b L hist fs)
    (hkey : validateKey key = .ok ()) (hsteps : keySteps key = front ++ [.down name])
    (hfree : FreeOfFiles hist key) :
    ∃ fs₁, Storage.createParent .none (diskPath b key) fs = (.ok (), fs₁) ∧
      (∀ r, r <+: names front → fs₁.node (L ++ r) = some .dir) ∧
      ∀ m, fs₁.node m = fs.node m ∨ ∃ r, r <+: names front ∧ m = L ++ r := by
  obtain ⟨c, hc, hfilter⟩ := components_append (parse b.root).absolute (parse b.root).steps
    (up_notMem_keySteps hkey)
  change (diskPath b key).components = _ at hc
  have hdrop : (diskPath b key).components.dropLast = c ++ (names front).map Step.down := by
    rw [hc, hsteps, names_append, List.map_append, ← List.append_assoc]
    exact List.dropLast_concat
  have hroot : fs.LeadsTo ⟨(parse b.root).absolute, c⟩ L := h.root.of_filter hfilter
  -- A file on the way would be an object whose names are a proper prefix of the key's.
  have hno : ∀ r, r <+: names front → ∀ bytes, fs.node (L ++ r) ≠ some (.file bytes) := by
    intro r hr bytes hfile
    obtain ⟨t, ht, rfl⟩ := exists_prefix_of_names hr
    have hnone : lastAt (names t) hist = none := by
      refine hfree t (hsteps ▸ ht.trans (List.prefix_append _ _)) fun heq => ?_
      have hle := ht.length_le
      rw [heq, hsteps, List.length_append, List.length_singleton] at hle
      omega
    rw [h.node_file_iff, hnone] at hfile
    cases hfile
  obtain ⟨fs₁, hrun, hdirs, hnode⟩ := hroot.createDirAllFrom h.plain (names front) hno
  refine ⟨fs₁, ?_, hdirs, hnode⟩
  have hne : (diskPath b key).components ≠ [] := by
    rw [hc, hsteps, names_append]
    simp
  have hparent : (diskPath b key).parent =
      some ⟨(diskPath b key).absolute, (diskPath b key).components.dropLast⟩ := if_neg hne
  unfold Storage.createParent
  rw [hparent]
  show FileSystem.createDirAll _ _ fs = _
  unfold FileSystem.createDirAll
  rw [components_dropLast, hdrop]
  exact hrun

/-- The tree after a put that fits: the directories of the key, and its file. -/
theorem Represents.insert {front : List Step} {name : Name} {fs₁ : FileSystem}
    (h : Represents b L hist fs) (hsteps : keySteps key = front ++ [.down name])
    (hfree : FreeOfFiles hist key) (hnodir : ¬ IsDir hist (keyNames key))
    (hext : fs.Extends fs₁) (hdirs : ∀ r, r <+: names front → fs₁.node (L ++ r) = some .dir)
    (hnode : ∀ m, fs₁.node m = fs.node m ∨ ∃ r, r <+: names front ∧ m = L ++ r)
    (hacc : fs₁.Accepts (L ++ keyNames key)) (hlink : fs₁.Plain (L ++ keyNames key))
    (body : List UInt8) :
    Represents b L (hist ++ [.put key body]) (fs₁.insert (L ++ keyNames key) (.file body)) := by
  have hkeeps := hext.keeps.trans
    (FileSystem.keeps_insert_file hacc (hlink _ List.prefix_rfl) body)
  -- The new directories are the proper prefixes of the key's names.
  have hproper : ∀ r, r <+: keyNames key ∧ r ≠ keyNames key ↔ r <+: names front := by
    intro r
    have hnames : keyNames key = names front ++ [name] := by
      rw [keyNames, hsteps, names_append]
      rfl
    rw [hnames, List.prefix_concat_iff]
    constructor
    · rintro ⟨rfl | hr, hne⟩
      · exact absurd rfl hne
      · exact hr
    · intro hr
      refine ⟨Or.inr hr, ?_⟩
      rintro rfl
      simpa using hr.length_le
  refine ⟨h.root.keeps hkeeps, fun path hdir => ?_, fun path hdir => ?_, fun path hdir => ?_⟩
  · rcases isDir_concat_put.1 hdir with hdir | hdir
    · exact hkeeps.dir _ (h.dir path hdir)
    · rw [FileSystem.insert_node_ne _ (by simpa using hdir.2)]
      exact hdirs path ((hproper path).1 hdir)
  · rw [isDir_concat_put, not_or] at hdir
    rw [FileSystem.insert_node hacc, lastAt_concat_put]
    by_cases heq : path = keyNames key
    · rw [if_pos (by rw [heq]), if_pos heq.symm]
      rfl
    · rw [if_neg (by simpa using heq), if_neg (Ne.symm heq), ← h.file path hdir.1]
      rcases hnode (L ++ path) with hsame | ⟨r, hr, hpath⟩
      · exact hsame
      · obtain rfl := List.append_cancel_left hpath
        exact absurd ((hproper path).2 hr) hdir.2
  · rw [lastAt_concat_put, if_neg]
    · rcases isDir_concat_put.1 hdir with hdir | hdir
      · exact h.disjoint path hdir
      · obtain ⟨t, ht, rfl⟩ := exists_prefix_of_names hdir.1
        exact hfree t ht fun heq => hdir.2 (by rw [heq, keyNames])
    · rintro rfl
      rcases isDir_concat_put.1 hdir with hdir | hdir
      · exact hnodir hdir
      · exact hdir.2 rfl

theorem Represents.put_of_fits {body : List UInt8} (h : Represents b L hist fs)
    (hkey : validateKey key = .ok ()) (hfits : Fits hist (.put key body)) :
    (b.put .none key body fs).1 = .ok () ∧
      Represents b L (hist ++ [.put key body]) (b.put .none key body fs).2 := by
  obtain ⟨hlast, hfree, hnodir⟩ := hfits
  obtain ⟨front, name, hsteps⟩ := keySteps_eq_concat hkey hlast
  obtain ⟨fs₁, hparent, hdirs, hnode⟩ := h.createParent hkey hsteps hfree
  have hext : fs.Extends fs₁ := by
    have hall := createParent_extends .none (diskPath b key) fs
    rwa [hparent] at hall
  have hplain := h.plain.keeps hext.keeps
  have hresolve : fs₁.resolve true (diskPath b key) =
      .ok (if fs₁.node (L ++ keyNames key) = none then .missing (L ++ keyNames key)
        else .found (L ++ keyNames key)) := by
    refine PlainWalk.eq_of_dirs ((h.root.keeps hext.keeps).plainWalk true hplain
      (keySteps_ne_nil hkey) (up_notMem_keySteps hkey)) ?_
    rintro m ⟨t, ht, hne, rfl⟩
    rw [hsteps] at ht hne
    exact hdirs _ (names_mono ((List.prefix_concat_iff.1 ht).resolve_left hne))
  -- The file itself is not among the directories that were made.
  have hsame : fs₁.node (L ++ keyNames key) = fs.node (L ++ keyNames key) := by
    rcases hnode (L ++ keyNames key) with hsame | ⟨r, hr, hpath⟩
    · exact hsame
    · obtain rfl := List.append_cancel_left hpath
      have hle := hr.length_le
      rw [keyNames, hsteps, names_append, List.length_append] at hle
      simp at hle
  have hnodir₁ : fs₁.node (L ++ keyNames key) ≠ some .dir := by
    rw [hsame, h.file _ hnodir]
    simp
  have hcreate : fs₁.create (diskPath b key) =
      .ok (L ++ keyNames key, fs₁.insert (L ++ keyNames key) (.file [])) := by
    unfold FileSystem.create
    rw [hresolve]
    by_cases hnone : fs₁.node (L ++ keyNames key) = none
    · rw [if_pos hnone]
    · simp only [if_neg hnone, if_neg hnodir₁]
  obtain ⟨-, hacc, -, -⟩ := FileSystem.create_eq_ok hcreate
  have hput : b.put .none key body fs =
      (.ok (), fs₁.insert (L ++ keyNames key) (.file body)) := by
    rw [put_eq_putAt hkey, ← FileSystem.insert_append hacc body]
    unfold putAt
    rw [hparent]
    simp only [PutFaults.none, FileSystem.faulty, hcreate, writeAll]
  rw [hput]
  exact ⟨rfl, h.insert hsteps hfree hnodir hext hdirs hnode hacc
    (hplain.below (List.prefix_append L _)) body⟩

/-- Only a put that fits succeeds. -/
theorem Represents.fits_of_put {body : List UInt8} (h : Represents b L hist fs)
    (hkey : validateKey key = .ok ()) (hput : (b.put .none key body fs).1 = .ok ()) :
    Fits hist (.put key body) := by
  rw [put_eq_putAt hkey] at hput
  obtain ⟨fs₁, m, fs₂, hext, hcreate⟩ := putAt_ok hput
  obtain ⟨⟨x, hx, hresolve⟩, hacc, -, -⟩ := FileSystem.create_eq_ok hcreate
  have hw := (h.root.keeps hext.keeps).plainWalk true (h.plain.keeps hext.keeps)
    (keySteps_ne_nil hkey) (up_notMem_keySteps hkey)
  change PlainWalk fs₁ L (keySteps key) (fs₁.resolve true (diskPath b key)) at hw
  rw [hresolve] at hw
  obtain rfl : m = L ++ keyNames key := by
    rcases hw.of_ok.2 with rfl | rfl <;> simpa [eq_comm, keyNames] using hx
  refine ⟨fun hlast => ?_, fun t ht hne => ?_, fun hdir => ?_⟩
  · -- The path of a key that ends in `.` is a directory itself.
    obtain ⟨front, hfront⟩ := List.getLast?_eq_some_iff.1 hlast
    refine hacc.2.2 (hw.of_ok.1 _ ⟨front, ?_, ?_, ?_⟩)
    · rw [hfront]
      exact List.prefix_append _ _
    · rw [hfront]
      simp
    · rw [keyNames, hfront, names_append]
      simp
  · refine h.lastAt_eq_none fun bytes hfile => ?_
    have hstays := hext.node_of_some hfile
    rw [hw.of_ok.1 _ ⟨t, ht, hne, rfl⟩] at hstays
    cases hstays
  · exact hacc.2.2 (hext.node_of_some (h.dir _ hdir))

/-! ### Runs of calls -/

theorem isDir_empty : IsDir [] path ↔ path = [] := by
  unfold IsDir
  simp

/-- An empty root is the tree after no calls. -/
theorem represents_empty (hroot : fs.LeadsTo (parse b.root) L)
    (hempty : ∀ path, path ≠ [] → fs.node (L ++ path) = none) : Represents b L [] fs where
  root := hroot
  dir path hpath := by
    rw [isDir_empty.1 hpath, List.append_nil]
    exact hroot.dir
  file path hpath := hempty path fun hnil => hpath (isDir_empty.2 hnil)
  disjoint _ _ := rfl

/-- A call whose reply is that of the flat store fits, and the other way round. -/
theorem Represents.call_iff (h : Represents b L hist fs) {c : Call}
    (hkey : validateKey c.key = .ok ()) :
    (b.call c fs).1 = (Objects.call c fun key => lastUnder key hist).1 ↔ Fits hist c := by
  cases c with
  | put key body =>
    rw [LocalBackend.call, Objects.call, Reply.put.injEq]
    exact ⟨h.fits_of_put hkey, fun hfits => (h.put_of_fits hkey hfits).1⟩
  | get key => exact h.get_iff hkey
  | delete key =>
    rw [LocalBackend.call, Objects.call, Reply.delete.injEq]
    exact (h.delete hkey).1
  | existsKey key => exact h.existsKey_iff hkey

/-- A call that fits takes the tree after `hist` to the tree after `hist` and the call. -/
theorem Represents.call (h : Represents b L hist fs) {c : Call}
    (hkey : validateKey c.key = .ok ()) (hfits : Fits hist c) :
    Represents b L (hist ++ [c]) (b.call c fs).2 := by
  cases c with
  | put key body => exact (h.put_of_fits hkey hfits).2
  | get key =>
    refine h.of_same (fun path => isDir_concat fun _ _ => by simp) fun path => ?_
    rw [lastAt, lastWrite_concat]
    rfl
  | delete key => exact (h.delete hkey).2 hfits
  | existsKey key =>
    refine h.of_same (fun path => isDir_concat fun _ _ => by simp) fun path => ?_
    rw [lastAt, lastWrite_concat]
    rfl

/-- On an empty root, with accepted keys and no failures but those of the tree, the local backend
gives the replies of the flat store exactly if every call fits the calls before it. -/
theorem replies_eq_flat_iff (b : LocalBackend) (fs : FileSystem) (L : Loc) (calls : List Call)
    (hroot : fs.LeadsTo (parse b.root) L)
    (hempty : ∀ path, path ≠ [] → fs.node (L ++ path) = none)
    (hkeys : ∀ c ∈ calls, validateKey c.key = .ok ()) :
    Runs.replies b.call calls fs = Runs.replies Objects.call calls (fun _ => none) ↔
      ∀ before c after, calls = before ++ c :: after → Fits before c := by
  refine Runs.replies_eq_iff (V := fun c => validateKey c.key = .ok ()) (C := Fits)
    (R := fun hist fs objects => Represents b L hist fs ∧ objects = fun key => lastUnder key hist)
    ?_ ?_ hkeys ⟨represents_empty hroot hempty, rfl⟩
  · rintro hist fs objects c hkey ⟨hrep, rfl⟩
    exact hrep.call_iff hkey
  · rintro hist fs objects c hkey ⟨hrep, rfl⟩ hfits
    exact ⟨hrep.call hkey hfits, call_lastUnder c⟩

theorem leadsTo_sampleTree :
    sampleTree.LeadsTo (parse sampleBackend.root) [segmentBytes "data"] := by decide +kernel

theorem sampleTree_below (path : List Name) (h : path ≠ []) :
    sampleTree.node ([segmentBytes "data"] ++ path) = none := by
  have hne : segmentBytes "data" ≠ segmentBytes "etc" := by decide +kernel
  rw [sampleTree_node, if_neg (by simp [hne]), if_neg (by simpa using h), if_neg (by simp)]

/-- Calls that fit: an overwritten object, a directory, and repeated deletes. -/
def fittingCalls : List Call :=
  [.put "a" [1], .put "a" [2], .get "a", .put "b/./c" [3], .existsKey "b/./c", .delete "a",
    .delete "a", .existsKey "a", .get "a", .put "a" [4]]

theorem replies_eq_flat_iff_fittingCalls :
    Runs.replies sampleBackend.call fittingCalls sampleTree =
        Runs.replies Objects.call fittingCalls (fun _ => none) ∧
      ∀ before c after, fittingCalls = before ++ c :: after → Fits before c := by
  have hreplies : Runs.replies sampleBackend.call fittingCalls sampleTree =
      Runs.replies Objects.call fittingCalls (fun _ => none) := by decide +kernel
  refine ⟨hreplies, (replies_eq_flat_iff sampleBackend sampleTree _ fittingCalls
    leadsTo_sampleTree sampleTree_below ?_).1 hreplies⟩
  decide +kernel

/-- Calls with keys above and below the key of an object. -/
def nestedCalls : List Call :=
  [.put "a/b" [1], .existsKey "a", .delete "a/b/c", .put "a/b/c" [2]]

/-- An object is said to exist under `a`, an absent one cannot be deleted, and the last put fails;
the flat store answers `false` and then succeeds twice. -/
theorem not_flat :
    sampleTree.LeadsTo (parse sampleBackend.root) [segmentBytes "data"] ∧
      (∀ path, path ≠ [] → sampleTree.node ([segmentBytes "data"] ++ path) = none) ∧
      (∀ c ∈ nestedCalls, validateKey c.key = .ok ()) ∧
      Runs.replies sampleBackend.call nestedCalls sampleTree ≠
        Runs.replies Objects.call nestedCalls (fun _ => none) ∧
      Runs.replies sampleBackend.call nestedCalls sampleTree =
        [.put (.ok ()), .existsKey (.ok true),
          .delete (.error (.backend "Not a directory (os error 20)")),
          .put (.error (.backend "File exists (os error 17)"))] := by
  refine ⟨leadsTo_sampleTree, sampleTree_below, ?_, ?_, ?_⟩
  · decide +kernel
  · decide +kernel
  · decide +kernel

end Storage

end OaLibs
