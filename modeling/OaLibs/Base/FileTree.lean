import OaLibs.Base.UnixPath

/-!
# File trees

A tree of directories, files and symbolic links, the resolution of a path in it, and the calls of
an operating system that a program sees.

* `FileSystem`: the tree, with the facts every tree has as its fields;
* `FileSystem.walk`: the resolution of a path, which follows symbolic links and gives up after
  `maxLinks` of them;
* `mkdir`, `create`, `append`, `unlink`, `read`, `stat`: the calls; `createDirAll` makes a
  directory with all its ancestors;
* `walk_append`: a path is resolved by resolving its front part, to a directory, and the rest from
  there;
* `walk_plain`: below a directory without links a path without `..` leads to its names, and what
  it answers depends on the nodes on the way only;
* `Keeps`, `Extends`: changes after which directories are still found where they were.
-/

namespace FileTree

open UnixPath

/-- The error of a system call, by its kind. -/
inductive IoError
  | notFound
  | alreadyExists
  | notADirectory
  | isADirectory
  | filesystemLoop
  | other (text : String)
  deriving DecidableEq

/-- The text an error is displayed with. -/
def IoError.display : IoError → String
  | .notFound => "No such file or directory (os error 2)"
  | .alreadyExists => "File exists (os error 17)"
  | .notADirectory => "Not a directory (os error 20)"
  | .isADirectory => "Is a directory (os error 21)"
  | .filesystemLoop => "Too many levels of symbolic links (os error 40)"
  | .other text => text

inductive Node
  | dir
  | file (bytes : List UInt8)
  | link (target : Path)
  deriving DecidableEq

/-- A tree of nodes and the working directory. What has a parent has a directory as its parent. -/
@[ext]
structure FileSystem where
  node : Loc → Option Node
  cwd : Loc
  root_dir : node [] = some .dir
  parent_dir : ∀ l name x, node (l ++ [name]) = some x → node l = some .dir
  cwd_dir : node cwd = some .dir

/-- The tree that is only a root directory. -/
def FileSystem.bare : FileSystem where
  node l := if l = [] then some .dir else none
  cwd := []
  root_dir := rfl
  parent_dir := by
    intro l name x h
    simp at h
  cwd_dir := rfl

/-- What a path leads to: a node, or a place for one in a directory. -/
inductive Target
  | found (l : Loc)
  | missing (l : Loc)
  deriving DecidableEq

namespace FileSystem

/-- The bytes of a regular file. -/
def file (fs : FileSystem) (l : Loc) : Option (List UInt8) :=
  match fs.node l with
  | some (.file bytes) => some bytes
  | _ => none

/-- A place for a node that is not a directory already. -/
def Accepts (fs : FileSystem) (l : Loc) : Prop :=
  l ≠ [] ∧ fs.node l.dropLast = some .dir ∧ fs.node l ≠ some .dir

instance (fs : FileSystem) (l : Loc) : Decidable (fs.Accepts l) :=
  inferInstanceAs (Decidable (_ ∧ _ ∧ _))

/-- The tree with a node at a place that accepts one. -/
def insert (fs : FileSystem) (l : Loc) (x : Node) : FileSystem :=
  if h : fs.Accepts l then
    { node := fun m => if m = l then some x else fs.node m
      cwd := fs.cwd
      root_dir := by rw [if_neg h.1.symm, fs.root_dir]
      parent_dir := by
        intro m name y hy
        have hdir : fs.node m = some .dir := by
          split_ifs at hy with hm
          · have hparent := h.2.1
            rwa [← hm, List.dropLast_concat] at hparent
          · exact fs.parent_dir m name y hy
        rw [if_neg, hdir]
        rintro rfl
        exact h.2.2 hdir
      cwd_dir := by
        rw [if_neg, fs.cwd_dir]
        intro hcwd
        exact h.2.2 (hcwd ▸ fs.cwd_dir) }
  else fs

/-- The tree without a node that is not a directory. -/
def remove (fs : FileSystem) (l : Loc) : FileSystem :=
  if h : fs.node l = some .dir then fs
  else
    { node := fun m => if m = l then none else fs.node m
      cwd := fs.cwd
      root_dir := by
        rw [if_neg, fs.root_dir]
        rintro rfl
        exact h fs.root_dir
      parent_dir := by
        intro m name y hy
        split_ifs at hy with hm
        have hdir := fs.parent_dir m name y hy
        rw [if_neg, hdir]
        rintro rfl
        exact h hdir
      cwd_dir := by
        rw [if_neg, fs.cwd_dir]
        intro hcwd
        exact h (hcwd ▸ fs.cwd_dir) }

/-! ### Resolution -/

/-- One walk along steps; what a symbolic link on the way leads to is left to `jump`. The last
node is returned as it is if `follow` is off. -/
def walkWith (fs : FileSystem) (follow : Bool) (jump : Loc → List Step → Except IoError Target) :
    Loc → List Step → Except IoError Target
  | l, [] => .ok (.found l)
  | l, .stay :: rest => fs.walkWith follow jump l rest
  | l, .up :: rest => fs.walkWith follow jump l.dropLast rest
  | l, .down name :: rest =>
      match fs.node (l ++ [name]) with
      | none => if rest = [] then .ok (.missing (l ++ [name])) else .error .notFound
      | some .dir => fs.walkWith follow jump (l ++ [name]) rest
      | some (.file _) =>
          if rest = [] then .ok (.found (l ++ [name])) else .error .notADirectory
      | some (.link target) =>
          -- A relative target is resolved from the directory that holds the link.
          if rest = [] ∧ follow = false then .ok (.found (l ++ [name]))
          else jump (target.start l) (target.steps ++ rest)

/-- A walk that follows at most `n` symbolic links. -/
def walk (fs : FileSystem) (follow : Bool) : ℕ → Loc → List Step → Except IoError Target
  | 0 => fs.walkWith follow fun _ _ => .error .filesystemLoop
  | n + 1 => fs.walkWith follow (fs.walk follow n)

/-- The symbolic links that the system follows in one path. -/
def maxLinks : ℕ := 40

/-- The resolution of a path; the empty path names nothing. -/
def resolve (fs : FileSystem) (follow : Bool) (p : Path) : Except IoError Target :=
  if p.absolute = false ∧ p.steps = [] then .error .notFound
  else fs.walk follow maxLinks (p.start fs.cwd) p.steps

/-! ### System calls -/

/-- `mkdir` -/
def mkdir (fs : FileSystem) (p : Path) : Except IoError FileSystem :=
  match fs.resolve false p with
  | .error e => .error e
  | .ok (.found _) => .error .alreadyExists
  | .ok (.missing l) => .ok (fs.insert l .dir)

/-- `open` with `O_CREAT` and `O_TRUNC`, for writing: the opened file and the tree. -/
def create (fs : FileSystem) (p : Path) : Except IoError (Loc × FileSystem) :=
  match fs.resolve true p with
  | .error e => .error e
  | .ok (.missing l) => .ok (l, fs.insert l (.file []))
  | .ok (.found l) =>
      if fs.node l = some .dir then .error .isADirectory else .ok (l, fs.insert l (.file []))

/-- `write` at the end of an open file -/
def append (fs : FileSystem) (l : Loc) (bytes : List UInt8) : FileSystem :=
  match fs.file l with
  | some old => fs.insert l (.file (old ++ bytes))
  | none => fs

/-- `unlink` -/
def unlink (fs : FileSystem) (p : Path) : Except IoError FileSystem :=
  match fs.resolve false p with
  | .error e => .error e
  | .ok (.missing _) => .error .notFound
  | .ok (.found l) =>
      if fs.node l = some .dir then .error .isADirectory else .ok (fs.remove l)

/-- `open` for reading and `read` to the end -/
def read (fs : FileSystem) (p : Path) : Except IoError (List UInt8) :=
  match fs.resolve true p with
  | .error e => .error e
  | .ok (.missing _) => .error .notFound
  | .ok (.found l) =>
      match fs.file l with
      | some bytes => .ok bytes
      | none => .error .isADirectory

/-- `stat` -/
def stat (fs : FileSystem) (p : Path) : Except IoError (Option Node) :=
  match fs.resolve true p with
  | .error e => .error e
  | .ok (.missing _) => .error .notFound
  | .ok (.found l) => .ok (fs.node l)

def isDir (fs : FileSystem) (p : Path) : Bool := fs.stat p = .ok (some .dir)

/-- A call that may also fail by itself. -/
def faulty {ε α : Type} (fault : Option ε) (result : Except ε α) : Except ε α :=
  match fault with
  | some e => .error e
  | none => result

/-- The calls in the making of one directory, in their order. -/
inductive DirCall
  | mkdir
  | isDir
  | mkdirAgain
  | isDirAgain

/-- Makes the directory with these components, the last one first, after its ancestors. -/
def createDirAllFrom (fault : DirCall → Path → Option IoError) (absolute : Bool) :
    List Step → FileSystem → Except IoError Unit × FileSystem
  | [], fs => (.ok (), fs)
  | step :: rest, fs =>
      let p : Path := ⟨absolute, (step :: rest).reverse⟩
      match faulty (fault .mkdir p) (fs.mkdir p) with
      | .ok fs => (.ok (), fs)
      | .error .notFound =>
          match createDirAllFrom fault absolute rest fs with
          | (.error e, fs) => (.error e, fs)
          | (.ok (), fs) =>
              -- Another process may have made the directory by now, which is as good.
              match faulty (fault .mkdirAgain p) (fs.mkdir p) with
              | .ok fs => (.ok (), fs)
              | .error e =>
                  if fault .isDirAgain p = none ∧ fs.isDir p then (.ok (), fs) else (.error e, fs)
      | .error e => if fault .isDir p = none ∧ fs.isDir p then (.ok (), fs) else (.error e, fs)

/-- `create_dir_all` -/
def createDirAll (fault : DirCall → Path → Option IoError) (p : Path) (fs : FileSystem) :
    Except IoError Unit × FileSystem :=
  createDirAllFrom fault p.absolute p.components.reverse fs

/-! ### Nodes -/

variable {fs fs' : FileSystem} {l L m : Loc} {n : ℕ} {follow : Bool} {s : List Step}

theorem dir_dropLast (h : fs.node l = some .dir) : fs.node l.dropLast = some .dir := by
  rcases List.eq_nil_or_concat l with rfl | ⟨d, name, rfl⟩
  · exact h
  · rw [List.concat_eq_append] at h ⊢
    rw [List.dropLast_concat]
    exact fs.parent_dir d name _ h

theorem start_dir (p : Path) (h : fs.node l = some .dir) : fs.node (p.start l) = some .dir := by
  unfold Path.start
  split_ifs
  · exact fs.root_dir
  · exact h

theorem file_eq_some_iff {bytes : List UInt8} :
    fs.file l = some bytes ↔ fs.node l = some (.file bytes) := by
  unfold file
  split
  · rename_i b hb
    rw [hb]
    simp
  · rename_i h
    exact iff_of_false (by simp) fun hl => h _ hl

/-- Files are the same where nodes are. -/
theorem file_congr (h : fs'.node l = fs.node l) : fs'.file l = fs.file l := by
  unfold file
  rw [h]

theorem file_of_ne_file (h : ∀ bytes, fs.node l ≠ some (.file bytes)) : fs.file l = none := by
  cases hfile : fs.file l with
  | none => rfl
  | some bytes => exact absurd (file_eq_some_iff.1 hfile) (h bytes)

@[simp] theorem insert_cwd (x : Node) : (fs.insert l x).cwd = fs.cwd := by
  unfold insert
  split_ifs <;> rfl

@[simp] theorem remove_cwd : (fs.remove l).cwd = fs.cwd := by
  unfold remove
  split_ifs <;> rfl

theorem insert_node (h : fs.Accepts l) (x : Node) (m : Loc) :
    (fs.insert l x).node m = if m = l then some x else fs.node m := by
  unfold insert
  rw [dif_pos h]

theorem insert_node_ne (x : Node) (h : m ≠ l) : (fs.insert l x).node m = fs.node m := by
  unfold insert
  split_ifs
  · exact if_neg h
  · rfl

theorem remove_node (h : fs.node l ≠ some .dir) (m : Loc) :
    (fs.remove l).node m = if m = l then none else fs.node m := by
  unfold remove
  rw [dif_neg h]

theorem remove_node_ne (h : m ≠ l) : (fs.remove l).node m = fs.node m := by
  unfold remove
  split_ifs
  · rfl
  · exact if_neg h

/-! ### Resolution step by step -/

/-- Where a walk goes on behind a symbolic link, when it may follow `n` more. -/
def jump (fs : FileSystem) (follow : Bool) : ℕ → Loc → List Step → Except IoError Target
  | 0 => fun _ _ => .error .filesystemLoop
  | n + 1 => fs.walk follow n

theorem walk_eq (n : ℕ) : fs.walk follow n = fs.walkWith follow (fs.jump follow n) := by
  cases n <;> rfl

theorem walk_nil : fs.walk follow n l [] = .ok (.found l) := by
  rw [walk_eq, walkWith]

theorem walk_stay : fs.walk follow n l (.stay :: s) = fs.walk follow n l s := by
  rw [walk_eq, walkWith]

theorem walk_up : fs.walk follow n l (.up :: s) = fs.walk follow n l.dropLast s := by
  rw [walk_eq, walkWith]

theorem walk_missing {name : Name} (h : fs.node (l ++ [name]) = none) :
    fs.walk follow n l (.down name :: s) =
      if s = [] then .ok (.missing (l ++ [name])) else .error .notFound := by
  rw [walk_eq, walkWith, h]

theorem walk_dir {name : Name} (h : fs.node (l ++ [name]) = some .dir) :
    fs.walk follow n l (.down name :: s) = fs.walk follow n (l ++ [name]) s := by
  rw [walk_eq, walkWith, h]

theorem walk_file {name : Name} {bytes : List UInt8}
    (h : fs.node (l ++ [name]) = some (.file bytes)) :
    fs.walk follow n l (.down name :: s) =
      if s = [] then .ok (.found (l ++ [name])) else .error .notADirectory := by
  rw [walk_eq, walkWith, h]

theorem walk_link {name : Name} {target : Path}
    (h : fs.node (l ++ [name]) = some (.link target)) :
    fs.walk follow n l (.down name :: s) =
      if s = [] ∧ follow = false then .ok (.found (l ++ [name]))
      else fs.jump follow n (target.start l) (target.steps ++ s) := by
  rw [walk_eq, walkWith, h]

/-- The steps lead to the directory `L`, over at most `n` symbolic links. -/
def DirAt (fs : FileSystem) (n : ℕ) (l : Loc) (s : List Step) (L : Loc) : Prop :=
  fs.walk true n l s = .ok (.found L) ∧ fs.node L = some .dir

instance : Decidable (fs.DirAt n l s L) := inferInstanceAs (Decidable (_ ∧ _))

theorem DirAt.unique {L' : Loc} (h : fs.DirAt n l s L) (h' : fs.DirAt n l s L') : L = L' := by
  have heq := h.1.symm.trans h'.1
  simpa using heq

theorem dirAt_nil (h : fs.node l = some .dir) : fs.DirAt n l [] L ↔ L = l := by
  unfold DirAt
  rw [walk_nil]
  constructor
  · rintro ⟨heq, -⟩
    simpa using heq.symm
  · rintro rfl
    exact ⟨rfl, h⟩

theorem dirAt_stay : fs.DirAt n l (.stay :: s) L ↔ fs.DirAt n l s L := by
  unfold DirAt
  rw [walk_stay]

theorem dirAt_up : fs.DirAt n l (.up :: s) L ↔ fs.DirAt n l.dropLast s L := by
  unfold DirAt
  rw [walk_up]

/-- Going down leads to a directory through a directory or through a link. -/
theorem dirAt_down {name : Name} :
    fs.DirAt n l (.down name :: s) L ↔
      (fs.node (l ++ [name]) = some .dir ∧ fs.DirAt n (l ++ [name]) s L) ∨
        ∃ target k, fs.node (l ++ [name]) = some (.link target) ∧ n = k + 1 ∧
          fs.DirAt k (target.start l) (target.steps ++ s) L := by
  unfold DirAt
  cases hnode : fs.node (l ++ [name]) with
  | none =>
    rw [walk_missing hnode]
    refine iff_of_false ?_ (by simp)
    rintro ⟨h, -⟩
    split_ifs at h
    cases h
  | some x =>
    cases x with
    | dir =>
      rw [walk_dir hnode]
      simp
    | file bytes =>
      rw [walk_file hnode]
      refine iff_of_false ?_ (by simp)
      rintro ⟨h, hL⟩
      split_ifs at h
      obtain rfl : l ++ [name] = L := by simpa using h
      rw [hnode] at hL
      cases hL
    | link target =>
      rw [walk_link hnode, if_neg (by simp)]
      cases n with
      | zero => simp [jump]
      | succ k => simp [jump]

/-- Either the first steps lead to a directory and the walk goes on from there, or the walk
fails. -/
theorem walk_append (hl : fs.node l = some .dir) (s : List Step) :
    (∃ L k, fs.DirAt n l s L ∧ ∀ follow t, t ≠ [] →
        fs.walk follow n l (s ++ t) = fs.walk follow k L t) ∨
      ((∀ L, ¬ fs.DirAt n l s L) ∧ ∀ follow t, t ≠ [] →
        ∃ e, fs.walk follow n l (s ++ t) = .error e) := by
  induction n using Nat.strong_induction_on generalizing l s with
  | _ n ihn =>
    induction s generalizing l with
    | nil => exact Or.inl ⟨l, n, (dirAt_nil hl).2 rfl, fun follow t _ => rfl⟩
    | cons step s ihs =>
      cases step with
      | stay =>
        simp only [List.cons_append, walk_stay, dirAt_stay]
        exact ihs hl
      | up =>
        simp only [List.cons_append, walk_up, dirAt_up]
        exact ihs (dir_dropLast hl)
      | down name =>
        simp only [List.cons_append, dirAt_down]
        cases hnode : fs.node (l ++ [name]) with
        | none =>
          refine Or.inr ⟨by simp, fun follow t ht => ⟨.notFound, ?_⟩⟩
          rw [walk_missing hnode, if_neg (by simp [ht])]
        | some x =>
          cases x with
          | dir => simpa [walk_dir hnode] using ihs hnode
          | file bytes =>
            refine Or.inr ⟨by simp, fun follow t ht => ⟨.notADirectory, ?_⟩⟩
            rw [walk_file hnode, if_neg (by simp [ht])]
          | link target =>
            -- The rest of the walk starts with the steps of the link, and may follow one link less.
            have hlink : ∀ follow t, t ≠ [] → fs.walk follow n l (.down name :: (s ++ t)) =
                fs.jump follow n (target.start l) ((target.steps ++ s) ++ t) := by
              intro follow t ht
              rw [walk_link hnode, if_neg (by simp [ht]), List.append_assoc]
            cases n with
            | zero =>
              refine Or.inr ⟨by simp, fun follow t ht => ⟨.filesystemLoop, ?_⟩⟩
              rw [hlink follow t ht, jump]
            | succ k =>
              rcases ihn k (Nat.lt_succ_self k) (start_dir target hl) (target.steps ++ s) with
                ⟨L, j, hL, hwalk⟩ | ⟨hno, hfail⟩
              · refine Or.inl ⟨L, j, Or.inr ⟨target, k, rfl, rfl, hL⟩, fun follow t ht => ?_⟩
                rw [hlink follow t ht]
                exact hwalk follow t ht
              · refine Or.inr ⟨?_, fun follow t ht => ?_⟩
                · rintro L (⟨h, -⟩ | ⟨target', k', h, hk, hL⟩)
                  · cases h
                  · obtain rfl := Nat.succ.inj hk
                    obtain rfl : target = target' := by simpa using h
                    exact hno L hL
                · rw [hlink follow t ht]
                  exact hfail follow t ht

theorem DirAt.walk_append (hl : fs.node l = some .dir) (h : fs.DirAt n l s L) :
    ∃ k, ∀ follow t, t ≠ [] → fs.walk follow n l (s ++ t) = fs.walk follow k L t := by
  rcases FileSystem.walk_append hl s with ⟨L', k, hL, hwalk⟩ | ⟨hno, -⟩
  · obtain rfl := h.unique hL
    exact ⟨k, hwalk⟩
  · exact absurd h (hno L)

/-- A walk that succeeds passes through a directory after each proper part of its steps. -/
theorem dirAt_of_walk {t : List Step} {x : Target} (hl : fs.node l = some .dir) (ht : t ≠ [])
    (h : fs.walk follow n l (s ++ t) = .ok x) : ∃ L, fs.DirAt n l s L := by
  rcases FileSystem.walk_append hl s with ⟨L, k, hL, -⟩ | ⟨-, hfail⟩
  · exact ⟨L, hL⟩
  · obtain ⟨e, he⟩ := hfail follow t ht
    rw [he] at h
    cases h

/-- Steps that stay do not change which directory a walk leads to. -/
theorem dirAt_filter : fs.DirAt n l (s.filter (· ≠ .stay)) L ↔ fs.DirAt n l s L := by
  induction n using Nat.strong_induction_on generalizing l s with
  | _ n ihn =>
    induction s generalizing l with
    | nil => rfl
    | cons step s ihs =>
      cases step with
      | stay => simpa [dirAt_stay] using ihs
      | up => simpa [dirAt_up] using ihs
      | down name =>
        rw [List.filter_cons_of_pos (by simp), dirAt_down, dirAt_down, ihs]
        refine or_congr_right (exists_congr fun target => exists_congr fun k => ?_)
        refine and_congr_right fun _ => and_congr_right fun hk => ?_
        have hk' : k < n := by omega
        rw [← ihn k hk', ← ihn k hk' (s := target.steps ++ s), List.filter_append,
          List.filter_append, List.filter_filter]
        simp

/-! ### Changes that keep directories and links -/

/-- Directories stay, and the symbolic links are the same. -/
structure Keeps (fs fs' : FileSystem) : Prop where
  cwd : fs'.cwd = fs.cwd
  dir : ∀ l, fs.node l = some .dir → fs'.node l = some .dir
  link : ∀ l target, fs'.node l = some (.link target) ↔ fs.node l = some (.link target)

theorem Keeps.refl (fs : FileSystem) : Keeps fs fs := ⟨rfl, fun _ h => h, fun _ _ => Iff.rfl⟩

theorem Keeps.trans {fs'' : FileSystem} (h : Keeps fs fs') (h' : Keeps fs' fs'') : Keeps fs fs'' :=
  ⟨h'.cwd.trans h.cwd, fun l hl => h'.dir l (h.dir l hl),
    fun l target => (h'.link l target).trans (h.link l target)⟩

/-- Where a path led to a directory it still leads there. -/
theorem Keeps.dirAt (h : Keeps fs fs') (hs : fs.DirAt n l s L) : fs'.DirAt n l s L := by
  induction n using Nat.strong_induction_on generalizing l s with
  | _ n ihn =>
    induction s generalizing l with
    | nil =>
      obtain ⟨heq, hL⟩ := hs
      rw [walk_nil] at heq
      obtain rfl : l = L := by simpa using heq
      exact (dirAt_nil (h.dir l hL)).2 rfl
    | cons step s ihs =>
      cases step with
      | stay => exact dirAt_stay.2 (ihs (dirAt_stay.1 hs))
      | up => exact dirAt_up.2 (ihs (dirAt_up.1 hs))
      | down name =>
        rcases dirAt_down.1 hs with ⟨hnode, hrest⟩ | ⟨target, k, hnode, rfl, hrest⟩
        · exact dirAt_down.2 (Or.inl ⟨h.dir _ hnode, ihs hrest⟩)
        · refine dirAt_down.2 (Or.inr ⟨target, k, (h.link _ target).2 hnode, rfl, ?_⟩)
          exact ihn k (Nat.lt_succ_self k) hrest

/-- The tree with some more directories. -/
structure Extends (fs fs' : FileSystem) : Prop where
  cwd : fs'.cwd = fs.cwd
  node : ∀ l, fs'.node l = fs.node l ∨ (fs.node l = none ∧ fs'.node l = some .dir)

theorem Extends.refl (fs : FileSystem) : Extends fs fs := ⟨rfl, fun _ => Or.inl rfl⟩

theorem Extends.trans {fs'' : FileSystem} (h : Extends fs fs') (h' : Extends fs' fs'') :
    Extends fs fs'' := by
  refine ⟨h'.cwd.trans h.cwd, fun l => ?_⟩
  rcases h'.node l with hl' | ⟨hnone, hdir⟩
  · rw [hl']
    exact h.node l
  · rcases h.node l with hl | ⟨-, hl⟩
    · exact Or.inr ⟨hl ▸ hnone, hdir⟩
    · rw [hl] at hnone
      cases hnone

/-- What was there stays. -/
theorem Extends.node_of_some {x : Node} (h : Extends fs fs') (hl : fs.node l = some x) :
    fs'.node l = some x := by
  rcases h.node l with heq | ⟨hnone, -⟩
  · rw [heq, hl]
  · rw [hnone] at hl
    cases hl

/-- What is there and no directory was there before. -/
theorem Extends.node_of_ne_dir {x : Node} (h : Extends fs fs') (hl : fs'.node l = some x)
    (hx : x ≠ .dir) : fs.node l = some x := by
  rcases h.node l with heq | ⟨-, hdir⟩
  · rw [← heq, hl]
  · rw [hdir] at hl
    exact absurd (Option.some.inj hl).symm hx

theorem Extends.keeps (h : Extends fs fs') : Keeps fs fs' :=
  ⟨h.cwd, fun _ hl => h.node_of_some hl,
    fun _ _ => ⟨fun hl => h.node_of_ne_dir hl (by simp), fun hl => h.node_of_some hl⟩⟩

theorem Extends.file (h : Extends fs fs') (l : Loc) : fs'.file l = fs.file l := by
  rcases h.node l with heq | ⟨hnone, hdir⟩
  · exact file_congr heq
  · rw [file_of_ne_file (by simp [hdir]), file_of_ne_file (by simp [hnone])]

/-! ### Targets -/

theorem accepts_of_node {x : Node} (h : fs.node l = some x) (hx : x ≠ .dir) : fs.Accepts l := by
  refine ⟨?_, ?_, ?_⟩
  · rintro rfl
    rw [fs.root_dir] at h
    exact hx (Option.some.inj h).symm
  · rcases List.eq_nil_or_concat l with rfl | ⟨d, name, rfl⟩
    · exact fs.root_dir
    · rw [List.concat_eq_append] at h ⊢
      rw [List.dropLast_concat]
      exact fs.parent_dir d name x h
  · rw [h]
    intro heq
    exact hx (Option.some.inj heq)

/-- What a target says about the tree. -/
def Valid (fs : FileSystem) (follow : Bool) : Target → Prop
  | .missing m => fs.node m = none ∧ fs.Accepts m
  | .found m => ∃ x, fs.node m = some x ∧ (follow = true → ∀ target, x ≠ .link target)

theorem valid_of_walk {x : Target} (hl : fs.node l = some .dir)
    (h : fs.walk follow n l s = .ok x) : fs.Valid follow x := by
  induction n using Nat.strong_induction_on generalizing l s with
  | _ n ihn =>
    induction s generalizing l with
    | nil =>
      rw [walk_nil] at h
      obtain rfl := Except.ok.inj h
      exact ⟨.dir, hl, by simp⟩
    | cons step s ihs =>
      cases step with
      | stay =>
        rw [walk_stay] at h
        exact ihs hl h
      | up =>
        rw [walk_up] at h
        exact ihs (dir_dropLast hl) h
      | down name =>
        cases hnode : fs.node (l ++ [name]) with
        | none =>
          rw [walk_missing hnode] at h
          split_ifs at h
          obtain rfl := Except.ok.inj h
          exact ⟨hnode, by simp, by rw [List.dropLast_concat, hl], by simp [hnode]⟩
        | some y =>
          cases y with
          | dir =>
            rw [walk_dir hnode] at h
            exact ihs hnode h
          | file bytes =>
            rw [walk_file hnode] at h
            split_ifs at h
            obtain rfl := Except.ok.inj h
            exact ⟨.file bytes, hnode, by simp⟩
          | link target =>
            rw [walk_link hnode] at h
            split_ifs at h with hlast
            · obtain rfl := Except.ok.inj h
              exact ⟨.link target, hnode, by simp [hlast.2]⟩
            · cases n with
              | zero => cases h
              | succ k => exact ihn k (Nat.lt_succ_self k) (start_dir target hl) h

theorem walk_of_resolve {p : Path} {x : Target} (h : fs.resolve follow p = .ok x) :
    fs.walk follow maxLinks (p.start fs.cwd) p.steps = .ok x := by
  unfold resolve at h
  split_ifs at h
  exact h

theorem resolve_of_ne {p : Path} (h : p.steps ≠ []) :
    fs.resolve follow p = fs.walk follow maxLinks (p.start fs.cwd) p.steps := by
  unfold resolve
  rw [if_neg (by simp [h])]

theorem valid_of_resolve {p : Path} {x : Target} (h : fs.resolve follow p = .ok x) :
    fs.Valid follow x :=
  valid_of_walk (start_dir p fs.cwd_dir) (walk_of_resolve h)

/-! ### Calls -/

theorem mkdir_extends {p : Path} (h : fs.mkdir p = .ok fs') : Extends fs fs' := by
  unfold mkdir at h
  split at h
  · cases h
  · cases h
  · rename_i m hm
    obtain ⟨hnone, hacc⟩ := valid_of_resolve hm
    obtain rfl := Except.ok.inj h
    refine ⟨insert_cwd _, fun l => ?_⟩
    rw [insert_node hacc]
    split_ifs with hl
    · exact Or.inr ⟨hl ▸ hnone, rfl⟩
    · exact Or.inl rfl

/-- A file is opened at the place the path leads to, which is no directory, and emptied. -/
theorem create_eq_ok {p : Path} (h : fs.create p = .ok (m, fs')) :
    (∃ x, (x = .found m ∨ x = .missing m) ∧ fs.resolve true p = .ok x) ∧
      fs.Accepts m ∧ (∀ target, fs.node m ≠ some (.link target)) ∧
      fs' = fs.insert m (.file []) := by
  unfold create at h
  split at h
  · cases h
  · rename_i l hl
    obtain ⟨rfl, rfl⟩ := Prod.mk.inj (Except.ok.inj h)
    obtain ⟨hnone, hacc⟩ := valid_of_resolve hl
    exact ⟨⟨_, Or.inr rfl, hl⟩, hacc, by simp [hnone], rfl⟩
  · rename_i l hl
    split_ifs at h with hdir
    obtain ⟨rfl, rfl⟩ := Prod.mk.inj (Except.ok.inj h)
    obtain ⟨x, hx, hlink⟩ := valid_of_resolve hl
    refine ⟨⟨_, Or.inl rfl, hl⟩, accepts_of_node hx ?_, ?_, rfl⟩
    · rintro rfl
      exact hdir hx
    · intro target
      rw [hx]
      intro heq
      exact hlink rfl target (Option.some.inj heq)

theorem unlink_eq_ok {p : Path} (h : fs.unlink p = .ok fs') :
    ∃ m, fs.resolve false p = .ok (.found m) ∧ fs.node m ≠ some .dir ∧ fs' = fs.remove m := by
  unfold unlink at h
  split at h
  · cases h
  · cases h
  · rename_i m hm
    split_ifs at h with hdir
    exact ⟨m, hm, hdir, (Except.ok.inj h).symm⟩

/-- Writing to a file of the tree. -/
theorem append_eq {old : List UInt8} (h : fs.node m = some (.file old)) (bytes : List UInt8) :
    fs.append m bytes = fs.insert m (.file (old ++ bytes)) := by
  unfold append
  rw [file_eq_some_iff.2 h]

/-- What is written to a file that was just emptied is its whole content. -/
theorem insert_append (hacc : fs.Accepts m) (bytes : List UInt8) :
    (fs.insert m (.file [])).append m bytes = fs.insert m (.file bytes) := by
  have hnode : (fs.insert m (.file [])).node m = some (.file []) := by
    rw [insert_node hacc, if_pos rfl]
  rw [append_eq hnode, List.nil_append]
  have hacc' : (fs.insert m (.file [])).Accepts m := accepts_of_node hnode (by simp)
  ext1
  · funext l
    rw [insert_node hacc', insert_node hacc, insert_node hacc]
    split_ifs <;> rfl
  · simp

/-- A new content for a file that is no link keeps directories and links. -/
theorem keeps_insert_file (hacc : fs.Accepts m) (hlink : ∀ target, fs.node m ≠ some (.link target))
    (bytes : List UInt8) : Keeps fs (fs.insert m (.file bytes)) := by
  refine ⟨insert_cwd _, fun l hl => ?_, fun l target => ?_⟩
  · rw [insert_node hacc, if_neg, hl]
    rintro rfl
    exact hacc.2.2 hl
  · rw [insert_node hacc]
    split_ifs with hl
    · subst hl
      exact iff_of_false (by simp) (hlink target)
    · exact Iff.rfl

theorem keeps_remove (hdir : fs.node m ≠ some .dir)
    (hlink : ∀ target, fs.node m ≠ some (.link target)) : Keeps fs (fs.remove m) := by
  refine ⟨remove_cwd, fun l hl => ?_, fun l target => ?_⟩
  · rw [remove_node hdir, if_neg, hl]
    rintro rfl
    exact hdir hl
  · rw [remove_node hdir]
    split_ifs with hl
    · subst hl
      exact iff_of_false (by simp) (hlink target)
    · exact Iff.rfl

theorem faulty_eq_ok {ε α : Type} {fault : Option ε} {result : Except ε α} {x : α} :
    faulty fault result = .ok x ↔ fault = none ∧ result = .ok x := by
  cases fault <;> simp [faulty]

/-- Making a directory with its ancestors adds directories, also when it fails on the way. -/
theorem createDirAllFrom_extends (fault : DirCall → Path → Option IoError) (absolute : Bool)
    (components : List Step) (fs : FileSystem) :
    Extends fs (createDirAllFrom fault absolute components fs).2 := by
  induction components generalizing fs with
  | nil => exact Extends.refl fs
  | cons step rest ih =>
    rw [createDirAllFrom]
    split
    · rename_i fs₁ h
      exact mkdir_extends (faulty_eq_ok.1 h).2
    · have hrest := ih fs
      split
      · rename_i e fs₁ h
        rwa [h] at hrest
      · rename_i fs₁ h
        rw [h] at hrest
        split
        · rename_i fs₂ h₂
          exact hrest.trans (mkdir_extends (faulty_eq_ok.1 h₂).2)
        · split_ifs
          · exact hrest
          · exact hrest
    · split_ifs
      · exact Extends.refl fs
      · exact Extends.refl fs

theorem createDirAll_extends (fault : DirCall → Path → Option IoError) (p : Path)
    (fs : FileSystem) : Extends fs (createDirAll fault p fs).2 :=
  createDirAllFrom_extends fault p.absolute p.components.reverse fs

end FileSystem

end FileTree
