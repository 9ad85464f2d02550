import OaLibs.Base.PlainTree

/-!
# Places in a tree

Several programs may work below one directory at the same time, each with a file of its own, if no
file is where another one needs a directory.

* `LeadsTo.down`, `LeadsTo.dirs_of_down`: a path of names leads below a directory through
  directories only;
* `Room`: no file on the way to a place and no directory in it;
* `LeadsTo.mkdir_names`, `LeadsTo.mkdir_way`: the three answers when a directory on the way is made;
* `Apart`, `Touches`: places that are not below each other, and what work at some places may do to
  the tree; `Room.touches`, `Touches.node_apart`: it leaves the places apart from them alone;
* `Room.mkdir`, `Room.create`, `Room.read`: the calls at a place with room.
-/

namespace FileTree

open UnixPath

namespace FileSystem

variable {fs fs' : FileSystem} {l L M : Loc} {n : ℕ} {follow : Bool} {absolute : Bool}
  {c : List Step} {p : Path} {ns ns' r : List Name}

/-! ### Paths of names -/

/-- A walk through directories. -/
theorem walk_dirs (hdirs : ∀ r, r <+: ns → fs.node (L ++ r) = some .dir) :
    fs.walk follow n L (ns.map Step.down) = .ok (.found (L ++ ns)) := by
  induction ns generalizing L with
  | nil => rw [List.map_nil, walk_nil, List.append_nil]
  | cons name ns ih =>
    have hname : fs.node (L ++ [name]) = some .dir := hdirs [name] (by simp)
    rw [List.map_cons, walk_dir hname, ih, List.append_assoc, List.singleton_append]
    intro r hr
    rw [List.append_assoc, List.singleton_append]
    exact hdirs (name :: r) (List.cons_prefix_cons.2 ⟨rfl, hr⟩)

/-- The path without steps leads to where it starts. -/
theorem leadsTo_nil (absolute : Bool) (fs : FileSystem) : ∃ M, fs.LeadsTo ⟨absolute, []⟩ M :=
  ⟨_, walk_nil, start_dir _ fs.cwd_dir⟩

theorem LeadsTo.down (h : fs.LeadsTo ⟨absolute, c⟩ L)
    (hdirs : ∀ r, r <+: ns → fs.node (L ++ r) = some .dir) :
    fs.LeadsTo ⟨absolute, c ++ ns.map Step.down⟩ (L ++ ns) := by
  refine ⟨?_, hdirs ns List.prefix_rfl⟩
  cases ns with
  | nil => simpa using h.1
  | cons name ns =>
    obtain ⟨k, hk⟩ := DirAt.walk_append (start_dir _ fs.cwd_dir) h
    exact (hk true _ (by simp)).trans (walk_dirs hdirs)

/-- A path of names below a directory without links leads through directories only. -/
theorem LeadsTo.dirs_of_down (h : fs.LeadsTo ⟨absolute, c⟩ L) (hplain : fs.Plain L)
    (hM : fs.LeadsTo ⟨absolute, c ++ ns.map Step.down⟩ M) :
    ∀ r, r <+: ns → fs.node (L ++ r) = some .dir := by
  rcases List.eq_nil_or_concat ns with rfl | ⟨front, name, rfl⟩
  · intro r hr
    rw [List.prefix_nil.1 hr, List.append_nil]
    exact h.dir
  · rw [List.concat_eq_append] at hM ⊢
    have hne : c ++ (front ++ [name]).map Step.down ≠ [] := by simp
    have hw := h.plainWalk true hplain (t := (front ++ [name]).map Step.down) (by simp)
      (up_notMem_map_down _)
    have hresolve : fs.resolve true ⟨absolute, c ++ (front ++ [name]).map Step.down⟩ =
        .ok (.found M) := (resolve_of_ne hne).trans hM.1
    rw [hresolve] at hw
    obtain ⟨hdirs, hfound | hmissing⟩ := hw.of_ok
    · rw [names_map_down] at hfound
      intro r hr
      rcases List.prefix_concat_iff.1 hr with rfl | hr
      · rw [← Target.found.inj hfound]
        exact hM.dir
      · refine hdirs _ ⟨r.map Step.down, ?_, fun heq => ?_, by rw [names_map_down]⟩
        · exact (hr.trans (List.prefix_append front [name])).map _
        · have hlen := congrArg List.length heq
          have hle := hr.length_le
          simp only [List.length_map, List.length_append, List.length_singleton] at hlen
          omega
    · cases hmissing

theorem leadsTo_of_isDir (hne : p.steps ≠ []) (h : fs.isDir p = true) : ∃ M, fs.LeadsTo p M := by
  simp only [FileSystem.isDir, stat, decide_eq_true_eq, resolve_of_ne hne] at h
  split at h
  · cases h
  · cases h
  · rename_i M hM
    exact ⟨M, hM, Except.ok.inj h⟩

/-- What is below a directory is in directories. -/
theorem dir_of_append (h : fs.node (l ++ r) = some .dir) : fs.node l = some .dir := by
  induction r using List.reverseRecOn with
  | nil => rwa [List.append_nil] at h
  | append_singleton r name ih =>
    rw [← List.append_assoc] at h
    exact ih (fs.parent_dir _ name _ h)

/-! ### Room for a file -/

/-- There is room for a file: none is on the way, and there is no directory in its place. -/
structure Room (fs : FileSystem) (L : Loc) (ns : List Name) : Prop where
  way : ∀ r, r <+: ns → r ≠ ns → ∀ bytes, fs.node (L ++ r) ≠ some (.file bytes)
  place : fs.node (L ++ ns) ≠ some .dir

/-- Making a directory by a path of names: it is missing and is made, it is there, or the directory
above it is missing. -/
theorem LeadsTo.mkdir_names {front : List Name} {name : Name} (h : fs.LeadsTo ⟨absolute, c⟩ L)
    (hplain : fs.Plain L)
    (hno : ∀ r, r <+: front ++ [name] → ∀ bytes, fs.node (L ++ r) ≠ some (.file bytes)) :
    (fs.node (L ++ (front ++ [name])) = none ∧ fs.Accepts (L ++ (front ++ [name])) ∧
      fs.mkdir ⟨absolute, c ++ (front ++ [name]).map Step.down⟩ =
        .ok (fs.insert (L ++ (front ++ [name])) .dir)) ∨
    (fs.mkdir ⟨absolute, c ++ (front ++ [name]).map Step.down⟩ = .error .alreadyExists ∧
      fs.isDir ⟨absolute, c ++ (front ++ [name]).map Step.down⟩ = true) ∨
    (fs.mkdir ⟨absolute, c ++ (front ++ [name]).map Step.down⟩ = .error .notFound ∧
      ∀ M, ¬ fs.LeadsTo ⟨absolute, c ++ front.map Step.down⟩ M) := by
  have hw : ∀ follow, PlainWalk fs L ((front ++ [name]).map Step.down)
      (fs.resolve follow ⟨absolute, c ++ (front ++ [name]).map Step.down⟩) := fun follow =>
    h.plainWalk follow hplain (by simp) (up_notMem_map_down _)
  have hfalse := hw false
  generalize hresolve : fs.resolve false ⟨absolute, c ++ (front ++ [name]).map Step.down⟩ =
    result at hfalse
  cases hfalse with
  | blocked m bytes hm hfile =>
    obtain ⟨r, hr, -, rfl⟩ := through_map_down hm
    exact absurd hfile (hno r hr bytes)
  | absent m hm hnone hnofile =>
    refine Or.inr (Or.inr ⟨?_, fun M hM => ?_⟩)
    · unfold FileSystem.mkdir
      rw [hresolve]
    · -- What is missing is on the way to the directory above.
      obtain ⟨r, hr, hproper, rfl⟩ := through_map_down hm
      have hdir := h.dirs_of_down hplain hM r ((List.prefix_concat_iff.1 hr).resolve_left hproper)
      rw [hdir] at hnone
      cases hnone
  | reaches hdirs =>
    rw [names_map_down] at hresolve
    cases hnode : fs.node (L ++ (front ++ [name])) with
    | none =>
      rw [if_pos hnode] at hresolve
      obtain ⟨-, hacc⟩ := valid_of_resolve hresolve
      refine Or.inl ⟨rfl, hacc, ?_⟩
      unfold FileSystem.mkdir
      rw [hresolve]
    | some x =>
      have hx : x = .dir := by
        cases x with
        | dir => rfl
        | file bytes => exact absurd hnode (hno _ List.prefix_rfl bytes)
        | link target => exact absurd hnode (hplain _ (List.prefix_append L _) target)
      subst hx
      have hfound := (hw true).eq_of_dirs hdirs
      rw [names_map_down] at hfound
      rw [if_neg (by simp [hnode])] at hresolve hfound
      refine Or.inr (Or.inl ⟨?_, ?_⟩)
      · unfold FileSystem.mkdir
        rw [hresolve]
      · unfold FileSystem.isDir stat
        rw [hfound]
        simp [hnode]

/-- Making one of the directories on the way, which may be at the directory the names start from or
above it: the same three answers. -/
theorem LeadsTo.mkdir_way {pre : List Step} {step : Step} (h : fs.LeadsTo ⟨absolute, c⟩ L)
    (hplain : fs.Plain L) (hno : ∀ r, r <+: ns → ∀ bytes, fs.node (L ++ r) ≠ some (.file bytes))
    (hway : pre ++ [step] <+: c ++ ns.map Step.down) :
    (∃ r, r <+: ns ∧ pre ++ [step] = c ++ r.map Step.down ∧ fs.node (L ++ r) = none ∧
      fs.Accepts (L ++ r) ∧ fs.mkdir ⟨absolute, pre ++ [step]⟩ = .ok (fs.insert (L ++ r) .dir)) ∨
    (fs.mkdir ⟨absolute, pre ++ [step]⟩ = .error .alreadyExists ∧
      fs.isDir ⟨absolute, pre ++ [step]⟩ = true) ∨
    (fs.mkdir ⟨absolute, pre ++ [step]⟩ = .error .notFound ∧
      ∀ M, ¬ fs.LeadsTo ⟨absolute, pre⟩ M) := by
  have hne : (⟨absolute, pre ++ [step]⟩ : Path).steps ≠ [] := by simp
  rcases List.prefix_or_prefix_of_prefix hway (List.prefix_append c _) with ⟨u, rfl⟩ | ⟨t, ht⟩
  · obtain ⟨M, hM⟩ : ∃ M, fs.LeadsTo ⟨absolute, pre ++ [step]⟩ M := by
      rcases eq_or_ne u [] with rfl | hu
      · exact ⟨L, by simpa using h⟩
      · exact dirAt_of_walk (start_dir _ fs.cwd_dir) hu h.1
    exact Or.inr (Or.inl ⟨hM.mkdir hne, hM.isDir hne⟩)
  · -- Below it the path goes on with names.
    rw [← ht, List.prefix_append_right_inj] at hway
    obtain ⟨r, hr, rfl⟩ := List.prefix_map_iff.1 hway
    rcases List.eq_nil_or_concat r with rfl | ⟨front, name, rfl⟩
    · rw [List.map_nil, List.append_nil] at ht
      rw [← ht] at hne ⊢
      exact Or.inr (Or.inl ⟨h.mkdir hne, h.isDir hne⟩)
    rw [List.concat_eq_append] at hr ht
    obtain ⟨rfl, rfl⟩ : pre = c ++ front.map Step.down ∧ step = .down name := by
      rw [List.map_append, ← List.append_assoc] at ht
      obtain ⟨hpre, hstep⟩ := List.append_inj' ht rfl
      exact ⟨hpre.symm, (List.cons.inj hstep).1.symm⟩
    rw [← ht]
    rcases h.mkdir_names hplain fun r hr' => hno r (hr'.trans hr) with ⟨hnone, hacc, hmk⟩ | hrest
    · exact Or.inl ⟨front ++ [name], hr, rfl, hnone, hacc, hmk⟩
    · exact Or.inr hrest

/-! ### Places apart -/

/-- Neither place is below the other. -/
def Apart (ns ns' : List Name) : Prop := ¬ ns <+: ns' ∧ ¬ ns' <+: ns

instance (ns ns' : List Name) : Decidable (Apart ns ns') := inferInstanceAs (Decidable (_ ∧ _))

instance : Std.Symm Apart := ⟨fun _ _ h => ⟨h.2, h.1⟩⟩

/-- What work at some places may do to the tree: make directories on the way to them, and put files
in them. -/
structure Touches (L : Loc) (places : List (List Name)) (fs fs' : FileSystem) : Prop where
  keeps : Keeps fs fs'
  node : ∀ m, fs'.node m = fs.node m ∨
    (fs.node m = none ∧ fs'.node m = some .dir ∧
      ∃ ns ∈ places, ∃ r, r <+: ns ∧ r ≠ ns ∧ m = L ++ r) ∨
    ((∃ bytes, fs'.node m = some (.file bytes)) ∧ ∃ ns ∈ places, m = L ++ ns)

variable {places places' : List (List Name)}

theorem Touches.refl (fs : FileSystem) : Touches L places fs fs :=
  ⟨Keeps.refl fs, fun _ => Or.inl rfl⟩

theorem Touches.mono (h : Touches L places fs fs') (hsub : places ⊆ places') :
    Touches L places' fs fs' := by
  refine ⟨h.keeps, fun m => ?_⟩
  rcases h.node m with hsame | ⟨hnone, hdir, ns, hns, hr⟩ | ⟨hfile, ns, hns, hm⟩
  · exact Or.inl hsame
  · exact Or.inr (Or.inl ⟨hnone, hdir, ns, hsub hns, hr⟩)
  · exact Or.inr (Or.inr ⟨hfile, ns, hsub hns, hm⟩)

theorem Touches.trans {fs'' : FileSystem} (h : Touches L places fs fs')
    (h' : Touches L places fs' fs'') : Touches L places fs fs'' := by
  refine ⟨h.keeps.trans h'.keeps, fun m => ?_⟩
  rcases h'.node m with hsame' | ⟨hnone', hdir', hr'⟩ | hfile'
  · rw [hsame']
    exact h.node m
  · -- What was missing in between was missing before.
    rcases h.node m with hsame | ⟨-, hdir, -⟩ | ⟨⟨bytes, hfile⟩, -⟩
    · exact Or.inr (Or.inl ⟨hsame ▸ hnone', hdir', hr'⟩)
    · rw [hdir] at hnone'
      cases hnone'
    · rw [hfile] at hnone'
      cases hnone'
  · exact Or.inr (Or.inr hfile')

theorem Touches.insert_dir (hacc : fs.Accepts (L ++ r)) (hnone : fs.node (L ++ r) = none)
    (hr : r <+: ns) (hproper : r ≠ ns) : Touches L [ns] fs (fs.insert (L ++ r) .dir) := by
  have hnode : ∀ m, (fs.insert (L ++ r) .dir).node m = fs.node m ∨
      (fs.node m = none ∧ (fs.insert (L ++ r) .dir).node m = some .dir ∧ m = L ++ r) := by
    intro m
    rw [insert_node hacc]
    split_ifs with hm
    · exact Or.inr ⟨hm ▸ hnone, rfl, hm⟩
    · exact Or.inl rfl
  have hext : Extends fs (fs.insert (L ++ r) .dir) := by
    refine ⟨insert_cwd _, fun m => ?_⟩
    rcases hnode m with hsame | ⟨hm, hdir, -⟩
    · exact Or.inl hsame
    · exact Or.inr ⟨hm, hdir⟩
  refine ⟨hext.keeps, fun m => ?_⟩
  rcases hnode m with hsame | ⟨hm, hdir, heq⟩
  · exact Or.inl hsame
  · exact Or.inr (Or.inl ⟨hm, hdir, ns, List.mem_singleton_self ns, r, hr, hproper, heq⟩)

theorem Touches.insert_file (hacc : fs.Accepts (L ++ ns)) (hplain : fs.Plain L)
    (bytes : List UInt8) : Touches L [ns] fs (fs.insert (L ++ ns) (.file bytes)) := by
  refine ⟨keeps_insert_file hacc (hplain _ (List.prefix_append L ns)) bytes, fun m => ?_⟩
  rw [insert_node hacc]
  split_ifs with hm
  · exact Or.inr (Or.inr ⟨⟨bytes, rfl⟩, ns, List.mem_singleton_self ns, hm⟩)
  · exact Or.inl rfl

/-- A place apart stays as it is. -/
theorem Touches.node_apart (h : Touches L places fs fs') (hapart : ∀ ns ∈ places, Apart ns ns') :
    fs'.node (L ++ ns') = fs.node (L ++ ns') := by
  rcases h.node (L ++ ns') with hsame | ⟨-, -, ns, hns, r, hr, -, heq⟩ | ⟨-, ns, hns, heq⟩
  · exact hsame
  · obtain rfl := List.append_cancel_left heq
    exact absurd hr (hapart ns hns).2
  · obtain rfl := List.append_cancel_left heq
    exact absurd List.prefix_rfl (hapart ns' hns).1

/-- Work at some places leaves room there and at the places apart. -/
theorem Room.touches (h : fs.Room L ns') (ht : Touches L places fs fs')
    (hplaces : ∀ ns ∈ places, ns = ns' ∨ Apart ns ns') : fs'.Room L ns' := by
  constructor
  · intro r hr hproper bytes hfile
    rcases ht.node (L ++ r) with hsame | ⟨-, hdir, -⟩ | ⟨-, ns, hns, heq⟩
    · exact h.way r hr hproper bytes (hsame ▸ hfile)
    · rw [hdir] at hfile
      cases hfile
    · obtain rfl := List.append_cancel_left heq
      rcases hplaces r hns with hsame | hapart
      · exact hproper hsame
      · exact hapart.1 hr
  · intro hdir
    rcases ht.node (L ++ ns') with hsame | ⟨-, -, ns, hns, r, hr, hproper, heq⟩ |
      ⟨⟨bytes, hfile⟩, -⟩
    · exact h.place (hsame ▸ hdir)
    · obtain rfl := List.append_cancel_left heq
      rcases hplaces ns hns with rfl | hapart
      · exact hproper rfl
      · exact hapart.2 hr
    · rw [hfile] at hdir
      cases hdir

/-! ### Calls at a place with room -/

variable {s : List Step} {q : Path}

/-- A directory on the way to a place is made there, or it is there, or the one above it is
missing. -/
theorem Room.mkdir {pre : List Step} {step : Step} (hroom : fs.Room L ns)
    (h : fs.LeadsTo ⟨absolute, c⟩ L) (hplain : fs.Plain L) (hns : ns ≠ [])
    (hway : pre ++ [step] <+: c ++ ns.dropLast.map Step.down) :
    (∃ fs', fs.mkdir ⟨absolute, pre ++ [step]⟩ = .ok fs' ∧ Touches L [ns] fs fs' ∧
      fs'.node (L ++ ns) = fs.node (L ++ ns) ∧
      ∃ M, fs'.LeadsTo ⟨absolute, pre ++ [step]⟩ M) ∨
    (fs.mkdir ⟨absolute, pre ++ [step]⟩ = .error .alreadyExists ∧
      fs.isDir ⟨absolute, pre ++ [step]⟩ = true) ∨
    (fs.mkdir ⟨absolute, pre ++ [step]⟩ = .error .notFound ∧
      ∀ M, ¬ fs.LeadsTo ⟨absolute, pre⟩ M) := by
  have hfront : ∀ r, r <+: ns.dropLast → r <+: ns ∧ r ≠ ns := by
    intro r hr
    refine ⟨hr.trans (List.dropLast_prefix ns), ?_⟩
    rintro rfl
    have hle := hr.length_le
    have hpos := List.length_pos_iff.2 hns
    rw [List.length_dropLast] at hle
    omega
  have hno : ∀ r, r <+: ns.dropLast → ∀ bytes, fs.node (L ++ r) ≠ some (.file bytes) :=
    fun r hr => hroom.way r (hfront r hr).1 (hfront r hr).2
  rcases h.mkdir_way hplain hno hway with ⟨r, hr, hsteps, hnone, hacc, hmk⟩ | hthere | habove
  · have ht := Touches.insert_dir hacc hnone (hfront r hr).1 (hfront r hr).2
    have hdir : (fs.insert (L ++ r) .dir).node (L ++ r) = some .dir := by
      rw [insert_node hacc, if_pos rfl]
    have hleads : (fs.insert (L ++ r) .dir).LeadsTo ⟨absolute, pre ++ [step]⟩ (L ++ r) := by
      rw [hsteps]
      refine (h.keeps ht.keeps).down fun r' hr' => ?_
      obtain ⟨t, rfl⟩ := hr'
      refine dir_of_append (r := t) ?_
      rwa [List.append_assoc]
    have hplace : L ++ ns ≠ L ++ r := fun heq =>
      (hfront r hr).2 (List.append_cancel_left heq).symm
    exact Or.inl ⟨_, hmk, ht, insert_node_ne _ hplace, _, hleads⟩
  · exact Or.inr (Or.inl hthere)
  · exact Or.inr (Or.inr habove)

/-- What a walk with a last step down goes through. -/
theorem through_concat_down {front : List Step} {name : Name} {m : Loc}
    (h : Through L (front ++ [.down name]) m) : ∃ r, r <+: names front ∧ m = L ++ r := by
  obtain ⟨t, ht, hne, rfl⟩ := h
  exact ⟨names t, names_mono ((List.prefix_concat_iff.1 ht).resolve_left hne), rfl⟩

/-- A file is made at a place with room, or emptied there, once the directories are there. -/
theorem Room.create {front : List Step} {name : Name}
    (hroom : fs.Room L (names (front ++ [.down name]))) (h : fs.LeadsTo q L)
    (hplain : fs.Plain L) (hup : Step.up ∉ front ++ [.down name])
    (hdirs : ∀ r, r <+: names front → fs.node (L ++ r) = some .dir) :
    fs.Accepts (L ++ names (front ++ [.down name])) ∧
      fs.create ⟨q.absolute, q.steps ++ (front ++ [.down name])⟩ =
        .ok (L ++ names (front ++ [.down name]),
          fs.insert (L ++ names (front ++ [.down name])) (.file [])) := by
  have hresolve := (h.plainWalk true hplain (by simp) hup).eq_of_dirs fun m hm => by
    obtain ⟨r, hr, rfl⟩ := through_concat_down hm
    exact hdirs r hr
  have hplace := hroom.place
  generalize hplaceEq : L ++ names (front ++ [.down name]) = place at hresolve hplace ⊢
  have hacc : fs.Accepts place := by
    rw [← hplaceEq, names_append, names_down, names_nil, ← List.append_assoc] at hplace ⊢
    refine ⟨by simp, ?_, hplace⟩
    rw [List.dropLast_concat]
    exact hdirs _ List.prefix_rfl
  refine ⟨hacc, ?_⟩
  unfold FileSystem.create
  rw [hresolve]
  by_cases hnone : fs.node place = none
  · rw [if_pos hnone]
  · simp only [if_neg hnone, if_neg hplace]

/-- Reading at a place with room: what the file holds, if there is one. -/
theorem Room.read {front : List Step} {name : Name}
    (hroom : fs.Room L (names (front ++ [.down name]))) (h : fs.LeadsTo q L)
    (hplain : fs.Plain L) (hup : Step.up ∉ front ++ [.down name]) :
    fs.read ⟨q.absolute, q.steps ++ (front ++ [.down name])⟩ =
      match fs.file (L ++ names (front ++ [.down name])) with
      | some bytes => .ok bytes
      | none => .error .notFound := by
  have hnames : names (front ++ [.down name]) = names front ++ [name] := by
    rw [names_append, names_down, names_nil]
  have hwalk := h.plainWalk true hplain (by simp) hup
  unfold FileSystem.read
  generalize fs.resolve true ⟨q.absolute, q.steps ++ (front ++ [.down name])⟩ = result at hwalk ⊢
  cases hwalk with
  | blocked m bytes hm hfile =>
    obtain ⟨r, hr, rfl⟩ := through_concat_down hm
    refine absurd hfile (hroom.way r ?_ ?_ bytes)
    · rw [hnames]
      exact hr.trans (List.prefix_append _ _)
    · rintro rfl
      simpa [hnames] using hr.length_le
  | absent m hm hnone hno =>
    obtain ⟨r, ⟨t, ht⟩, rfl⟩ := through_concat_down hm
    have hplace : fs.node (L ++ names (front ++ [.down name])) = none := by
      rw [hnames, ← ht, List.append_assoc, ← List.append_assoc]
      exact node_append_of_none hnone _
    rw [file_of_ne_file (by simp [hplace])]
  | reaches hdirs =>
    cases hnode : fs.node (L ++ names (front ++ [.down name])) with
    | none => simp [file_of_ne_file, hnode]
    | some x =>
      cases x with
      | dir => exact absurd hnode hroom.place
      | file bytes => simp [file_eq_some_iff.2 hnode]
      | link target => exact absurd hnode (hplain _ (List.prefix_append L _) target)

end FileSystem

end FileTree
