import OaLibs.Base.FileTree

/-!
# Trees without symbolic links

Below a directory without symbolic links a path without `..` is resolved by its names alone.

* `Plain`: there is no symbolic link at a location or below it;
* `Through`: the locations that must be directories for a walk to lead anywhere;
* `walk_plain`: the three answers of a walk, by the nodes it goes through;
* `LeadsTo.createDirAllFrom`: making a directory with its ancestors succeeds when no file is in the
  way, and what it changes.
-/

namespace FileTree

open UnixPath

namespace FileSystem

variable {fs fs' : FileSystem} {l L m : Loc} {n : ℕ} {follow : Bool} {s : List Step}

/-- There is no symbolic link at or below a location. -/
def Plain (fs : FileSystem) (l : Loc) : Prop :=
  ∀ m, l <+: m → ∀ target, fs.node m ≠ some (.link target)

theorem Plain.below (h : fs.Plain l) (hm : l <+: m) : fs.Plain m :=
  fun k hk target => h k (hm.trans hk) target

theorem Plain.keeps (h : fs.Plain l) (hk : Keeps fs fs') : fs'.Plain l :=
  fun m hm target heq => h m hm target ((hk.link m target).1 heq)

/-- A location reached by a proper part of the steps. -/
def Through (l : Loc) (s : List Step) (m : Loc) : Prop :=
  ∃ t, t <+: s ∧ t ≠ s ∧ m = l ++ names t

theorem not_through_nil : ¬ Through l [] m := by
  rintro ⟨t, ht, hne, -⟩
  exact hne (List.prefix_nil.1 ht)

theorem through_cons {step : Step} :
    Through l (step :: s) m ↔ m = l ∨ Through (l ++ names [step]) s m := by
  constructor
  · rintro ⟨t, ht, hne, rfl⟩
    cases t with
    | nil => exact Or.inl (by simp)
    | cons step' t =>
      obtain ⟨rfl, ht'⟩ := List.cons_prefix_cons.1 ht
      refine Or.inr ⟨t, ht', fun h => hne (by rw [h]), ?_⟩
      rw [List.append_assoc, ← names_append, List.singleton_append]
  · rintro (rfl | ⟨t, ht, hne, rfl⟩)
    · exact ⟨[], List.nil_prefix, by simp, by simp⟩
    · refine ⟨step :: t, List.cons_prefix_cons.2 ⟨rfl, ht⟩, fun h => hne (List.cons.inj h).2, ?_⟩
      rw [List.append_assoc, ← names_append, List.singleton_append]

/-- Nothing is below a place without a node. -/
theorem node_append_of_none (h : fs.node l = none) (r : List Name) : fs.node (l ++ r) = none := by
  induction r using List.reverseRecOn with
  | nil => rwa [List.append_nil]
  | append_singleton r name ih =>
    cases hnode : fs.node (l ++ (r ++ [name])) with
    | none => rfl
    | some x =>
      rw [← List.append_assoc] at hnode
      rw [fs.parent_dir _ name x hnode] at ih
      cases ih

/-- The answers of a walk that meets no link: it fails at a file on the way, it finds nothing behind
a missing directory, or it leads to its names. -/
inductive PlainWalk (fs : FileSystem) (l : Loc) (s : List Step) : Except IoError Target → Prop
  | blocked (m : Loc) (bytes : List UInt8) (hm : Through l s m)
      (hfile : fs.node m = some (.file bytes)) : PlainWalk fs l s (.error .notADirectory)
  | absent (m : Loc) (hm : Through l s m) (hnone : fs.node m = none)
      (hno : ∀ m, Through l s m → ∀ bytes, fs.node m ≠ some (.file bytes)) :
      PlainWalk fs l s (.error .notFound)
  | reaches (hdir : ∀ m, Through l s m → fs.node m = some .dir) :
      PlainWalk fs l s (.ok (if fs.node (l ++ names s) = none then .missing (l ++ names s)
        else .found (l ++ names s)))

theorem PlainWalk.cons {step : Step} {r : Except IoError Target} (hl : fs.node l = some .dir)
    (h : PlainWalk fs (l ++ names [step]) s r) : PlainWalk fs l (step :: s) r := by
  cases h with
  | blocked m bytes hm hfile => exact .blocked m bytes (through_cons.2 (Or.inr hm)) hfile
  | absent m hm hnone hno =>
    refine .absent m (through_cons.2 (Or.inr hm)) hnone fun k hk bytes => ?_
    rcases through_cons.1 hk with rfl | hk
    · simp [hl]
    · exact hno k hk bytes
  | reaches hdir =>
    have hnames : l ++ names [step] ++ names s = l ++ names (step :: s) := by
      rw [List.append_assoc, ← names_append, List.singleton_append]
    rw [hnames]
    refine .reaches fun k hk => ?_
    rcases through_cons.1 hk with rfl | hk
    · exact hl
    · exact hdir k hk

/-- A last step down leads to its name, whether there is a node or not. -/
theorem plainWalk_last (hl : fs.node l = some .dir) (name : Name) :
    PlainWalk fs l [.down name] (.ok (if fs.node (l ++ [name]) = none then .missing (l ++ [name])
      else .found (l ++ [name]))) := by
  refine .reaches fun m hm => ?_
  rcases through_cons.1 hm with rfl | hm
  · exact hl
  · exact absurd hm not_through_nil

theorem walk_plain (hl : fs.node l = some .dir) (hplain : fs.Plain l) (hs : Step.up ∉ s) :
    PlainWalk fs l s (fs.walk follow n l s) := by
  induction s generalizing l with
  | nil =>
    have h : PlainWalk fs l [] _ := .reaches fun m hm => absurd hm not_through_nil
    rw [names_nil, List.append_nil, hl, if_neg (by simp)] at h
    rwa [walk_nil]
  | cons step s ih =>
    rw [List.mem_cons, not_or] at hs
    cases step with
    | up => exact absurd rfl hs.1
    | stay =>
      rw [walk_stay]
      exact .cons hl (by simpa using ih hl hplain hs.2)
    | down name =>
      have hthrough : s ≠ [] → Through l (.down name :: s) (l ++ [name]) := by
        intro hne
        refine through_cons.2 (Or.inr ⟨[], List.nil_prefix, hne.symm, ?_⟩)
        simp
      cases hnode : fs.node (l ++ [name]) with
      | none =>
        rw [walk_missing hnode]
        split_ifs with hlast
        · have h := plainWalk_last hl name
          rw [if_pos hnode] at h
          rwa [hlast]
        · refine .absent _ (hthrough hlast) hnode fun m hm bytes => ?_
          -- Behind the missing directory there are no nodes at all.
          rcases through_cons.1 hm with rfl | ⟨t, -, -, rfl⟩
          · simp [hl]
          · rw [names_down, names_nil, node_append_of_none hnode]
            simp
      | some x =>
        cases x with
        | dir =>
          rw [walk_dir hnode]
          exact .cons hl (ih hnode (hplain.below (List.prefix_append l [name])) hs.2)
        | file bytes =>
          rw [walk_file hnode]
          split_ifs with hlast
          · have h := plainWalk_last hl name
            rw [if_neg (by simp [hnode])] at h
            rwa [hlast]
          · exact .blocked _ bytes (hthrough hlast) hnode
        | link target => exact absurd hnode (hplain _ (List.prefix_append l [name]) target)

theorem PlainWalk.eq_of_dirs {r : Except IoError Target} (h : PlainWalk fs l s r)
    (hdirs : ∀ m, Through l s m → fs.node m = some .dir) :
    r = .ok (if fs.node (l ++ names s) = none then .missing (l ++ names s)
      else .found (l ++ names s)) := by
  cases h with
  | blocked m bytes hm hfile =>
    rw [hdirs m hm] at hfile
    cases hfile
  | absent m hm hnone hno =>
    rw [hdirs m hm] at hnone
    cases hnone
  | reaches => rfl

/-- A walk that succeeds goes through directories only, and leads to its names. -/
theorem PlainWalk.of_ok {x : Target} (h : PlainWalk fs l s (.ok x)) :
    (∀ m, Through l s m → fs.node m = some .dir) ∧
      (x = .found (l ++ names s) ∨ x = .missing (l ++ names s)) := by
  generalize hr : (Except.ok x : Except IoError Target) = r at h
  cases h with
  | blocked m bytes hm hfile => cases hr
  | absent m hm hnone hno => cases hr
  | reaches hdir =>
    obtain rfl := Except.ok.inj hr
    refine ⟨hdir, ?_⟩
    split_ifs
    · exact Or.inr rfl
    · exact Or.inl rfl

/-! ### Paths below a directory -/

/-- The path leads to the directory `L`. -/
def LeadsTo (fs : FileSystem) (p : Path) (L : Loc) : Prop :=
  fs.DirAt maxLinks (p.start fs.cwd) p.steps L

instance (p : Path) : Decidable (fs.LeadsTo p L) := inferInstanceAs (Decidable (fs.DirAt _ _ _ _))

variable {p : Path} {t : List Step}

theorem LeadsTo.unique {L' : Loc} (h : fs.LeadsTo p L) (h' : fs.LeadsTo p L') : L = L' :=
  DirAt.unique h h'

theorem LeadsTo.dir (h : fs.LeadsTo p L) : fs.node L = some .dir := h.2

theorem LeadsTo.keeps (h : fs.LeadsTo p L) (hk : Keeps fs fs') : fs'.LeadsTo p L := by
  unfold LeadsTo
  rw [hk.cwd]
  exact hk.dirAt h

/-- Steps that stay make no difference to where a path leads. -/
theorem LeadsTo.of_filter {absolute : Bool} {steps : List Step} (h : fs.LeadsTo ⟨absolute, s⟩ L)
    (heq : steps.filter (· ≠ .stay) = s.filter (· ≠ .stay)) : fs.LeadsTo ⟨absolute, steps⟩ L := by
  have hdir := dirAt_filter.2 h
  rw [← heq] at hdir
  exact dirAt_filter.1 hdir

/-- A longer path is resolved from the directory its front part leads to. -/
theorem LeadsTo.resolve_append (h : fs.LeadsTo p L) :
    ∃ k, ∀ follow t, t ≠ [] →
      fs.resolve follow ⟨p.absolute, p.steps ++ t⟩ = fs.walk follow k L t := by
  obtain ⟨k, hk⟩ := DirAt.walk_append (start_dir p fs.cwd_dir) h
  refine ⟨k, fun follow t ht => ?_⟩
  rw [resolve_of_ne (by simp [ht]), ← hk follow t ht]
  rfl

/-- If a longer path leads anywhere, its front part leads to a directory. -/
theorem leadsTo_of_resolve {x : Target} (ht : t ≠ [])
    (h : fs.resolve follow ⟨p.absolute, p.steps ++ t⟩ = .ok x) : ∃ L, fs.LeadsTo p L :=
  dirAt_of_walk (start_dir p fs.cwd_dir) ht (walk_of_resolve h)

/-- The answers for a path below a directory without links. -/
theorem LeadsTo.plainWalk (h : fs.LeadsTo p L) (follow : Bool) (hplain : fs.Plain L) (ht : t ≠ [])
    (hup : Step.up ∉ t) : PlainWalk fs L t (fs.resolve follow ⟨p.absolute, p.steps ++ t⟩) := by
  obtain ⟨k, hk⟩ := h.resolve_append
  rw [hk follow t ht]
  exact walk_plain h.dir hplain hup

theorem LeadsTo.isDir (h : fs.LeadsTo p L) (hne : p.steps ≠ []) : fs.isDir p = true := by
  unfold FileSystem.isDir stat
  rw [resolve_of_ne hne, h.1]
  simp [h.dir]

/-- A path to a directory is taken, also when its last node is a link. -/
theorem LeadsTo.mkdir (h : fs.LeadsTo p L) (hne : p.steps ≠ []) :
    fs.mkdir p = .error .alreadyExists := by
  obtain ⟨absolute, steps⟩ := p
  rcases List.eq_nil_or_concat steps with rfl | ⟨front, last, rfl⟩
  · exact absurd rfl hne
  rw [List.concat_eq_append] at h hne ⊢
  obtain ⟨M, hM⟩ := dirAt_of_walk (start_dir _ fs.cwd_dir) (by simp) h.1
  obtain ⟨k, hk⟩ := DirAt.walk_append (start_dir _ fs.cwd_dir) hM
  obtain ⟨hwalk, hdir⟩ := h
  rw [hk true [last] (by simp)] at hwalk
  have hfound : ∃ m, fs.walk false k M [last] = .ok (.found m) := by
    cases last with
    | stay => exact ⟨M, by rw [walk_stay, walk_nil]⟩
    | up => exact ⟨M.dropLast, by rw [walk_up, walk_nil]⟩
    | down name =>
      refine ⟨M ++ [name], ?_⟩
      cases hnode : fs.node (M ++ [name]) with
      | none =>
        rw [walk_missing hnode] at hwalk
        simp at hwalk
      | some x =>
        cases x with
        | dir => rw [walk_dir hnode, walk_nil]
        | file bytes => rw [walk_file hnode, if_pos rfl]
        | link target => rw [walk_link hnode, if_pos ⟨rfl, rfl⟩]
  obtain ⟨m, hm⟩ := hfound
  have hresolve : fs.resolve false ⟨absolute, front ++ [last]⟩ = .ok (.found m) := by
    rw [resolve_of_ne hne, ← hm]
    exact hk false [last] (by simp)
  unfold FileSystem.mkdir
  rw [hresolve]

/-! ### Directories with their ancestors -/

/-- The locations a path of names goes through are its proper prefixes. -/
theorem through_map_down {ns : List Name} (h : Through L (ns.map Step.down) m) :
    ∃ r, r <+: ns ∧ r ≠ ns ∧ m = L ++ r := by
  obtain ⟨t, ht, hne, rfl⟩ := h
  obtain ⟨k, hk⟩ : ∃ k, t = (ns.take k).map Step.down := by
    refine ⟨t.length, ?_⟩
    rw [List.map_take]
    exact List.prefix_iff_eq_take.1 ht
  rw [hk, names_map_down]
  refine ⟨ns.take k, List.take_prefix k ns, fun heq => hne ?_, rfl⟩
  rw [hk, heq]

theorem up_notMem_map_down (ns : List Name) : Step.up ∉ ns.map Step.down := by simp

/-- Making one directory in a directory, if there is no file of its name: it is made, or it was
there already. -/
theorem LeadsTo.mkdir_down {ns : List Name} {name : Name} (h : fs.LeadsTo p L)
    (hplain : fs.Plain L) (hdirs : ∀ r, r <+: ns → fs.node (L ++ r) = some .dir)
    (hno : ∀ bytes, fs.node (L ++ (ns ++ [name])) ≠ some (.file bytes)) :
    ∃ fs', (fs.mkdir ⟨p.absolute, p.steps ++ (ns ++ [name]).map Step.down⟩ = .ok fs' ∨
        fs.mkdir ⟨p.absolute, p.steps ++ (ns ++ [name]).map Step.down⟩ = .error .alreadyExists ∧
          fs.isDir ⟨p.absolute, p.steps ++ (ns ++ [name]).map Step.down⟩ = true ∧ fs' = fs) ∧
      (∀ r, r <+: ns ++ [name] → fs'.node (L ++ r) = some .dir) ∧
      ∀ m, fs'.node m = fs.node m ∨ m = L ++ (ns ++ [name]) := by
  have hresolve : ∀ follow,
      fs.resolve follow ⟨p.absolute, p.steps ++ (ns ++ [name]).map Step.down⟩ =
      .ok (if fs.node (L ++ (ns ++ [name])) = none then .missing (L ++ (ns ++ [name]))
        else .found (L ++ (ns ++ [name]))) := by
    intro follow
    have hw := h.plainWalk follow hplain (t := (ns ++ [name]).map Step.down) (by simp)
      (up_notMem_map_down _)
    have heq := hw.eq_of_dirs fun m hm => by
      obtain ⟨r, hr, hrne, rfl⟩ := through_map_down hm
      exact hdirs r ((List.prefix_concat_iff.1 hr).resolve_left hrne)
    rwa [names_map_down] at heq
  cases hnode : fs.node (L ++ (ns ++ [name])) with
  | none =>
    have hacc : fs.Accepts (L ++ (ns ++ [name])) := by
      refine ⟨by simp, ?_, by simp [hnode]⟩
      rw [← List.append_assoc, List.dropLast_concat]
      exact hdirs ns List.prefix_rfl
    refine ⟨fs.insert (L ++ (ns ++ [name])) .dir, Or.inl ?_, fun r hr => ?_, fun m => ?_⟩
    · unfold FileSystem.mkdir
      rw [hresolve false, if_pos hnode]
    · rw [insert_node hacc]
      split_ifs with heq
      · rfl
      · rcases List.prefix_concat_iff.1 hr with rfl | hr
        · exact absurd rfl heq
        · exact hdirs r hr
    · rw [insert_node hacc]
      split_ifs with heq
      · exact Or.inr heq
      · exact Or.inl rfl
  | some x =>
    have hx : x = .dir := by
      cases x with
      | dir => rfl
      | file bytes => exact absurd hnode (hno bytes)
      | link target => exact absurd hnode (hplain _ (List.prefix_append L _) target)
    subst hx
    refine ⟨fs, Or.inr ⟨?_, ?_, rfl⟩, fun r hr => ?_, fun m => Or.inl rfl⟩
    · unfold FileSystem.mkdir
      rw [hresolve false, if_neg (by simp [hnode])]
    · unfold FileSystem.isDir stat
      rw [hresolve true, if_neg (by simp [hnode])]
      simp [hnode]
    · rcases List.prefix_concat_iff.1 hr with rfl | hr
      · exact hnode
      · exact hdirs r hr

/-- Without failures of its own, making a directory with its ancestors below a directory succeeds
when no file is in the way, and makes what is missing of them. -/
theorem LeadsTo.createDirAllFrom {absolute : Bool} {c : List Step} (h : fs.LeadsTo ⟨absolute, c⟩ L)
    (hplain : fs.Plain L) (ns : List Name)
    (hno : ∀ r, r <+: ns → ∀ bytes, fs.node (L ++ r) ≠ some (.file bytes)) :
    ∃ fs', FileSystem.createDirAllFrom (fun _ _ => none) absolute
        (c ++ ns.map Step.down).reverse fs = (.ok (), fs') ∧
      (∀ r, r <+: ns → fs'.node (L ++ r) = some .dir) ∧
      ∀ m, fs'.node m = fs.node m ∨ ∃ r, r <+: ns ∧ m = L ++ r := by
  induction ns using List.reverseRecOn with
  | nil =>
    refine ⟨fs, ?_, ?_, fun m => Or.inl rfl⟩
    · rcases List.eq_nil_or_concat c with rfl | ⟨front, last, rfl⟩
      · rfl
      · rw [List.concat_eq_append] at h
        have hne : (⟨absolute, front ++ [last]⟩ : Path).steps ≠ [] := by simp
        have hmk := h.mkdir hne
        have hdir := h.isDir hne
        simp only [List.map_nil, List.append_nil, List.concat_eq_append, List.reverse_append,
          List.reverse_cons, List.reverse_nil, List.nil_append, List.singleton_append,
          FileSystem.createDirAllFrom, List.reverse_reverse, faulty, hmk, hdir]
        simp
    · intro r hr
      rw [List.prefix_nil.1 hr, List.append_nil]
      exact h.dir
  | append_singleton ns name ih =>
    have hrev : (c ++ (ns ++ [name]).map Step.down).reverse =
        .down name :: (c ++ ns.map Step.down).reverse := by simp
    have hpath : (Step.down name :: (c ++ ns.map Step.down).reverse).reverse =
        c ++ (ns ++ [name]).map Step.down := by rw [← hrev, List.reverse_reverse]
    rw [hrev, FileSystem.createDirAllFrom]
    simp only [hpath, faulty]
    have hw := h.plainWalk false hplain (t := (ns ++ [name]).map Step.down)
      (by simp) (up_notMem_map_down _)
    generalize hr : fs.resolve false ⟨absolute, c ++ (ns ++ [name]).map Step.down⟩ = r at hw
    cases hw with
    | blocked m bytes hm hfile =>
      obtain ⟨r, hr, -, rfl⟩ := through_map_down hm
      exact absurd hfile (hno r hr bytes)
    | absent m hm hnone _ =>
      -- The parent is missing: it is made first, and then the directory.
      have hfirst : fs.mkdir ⟨absolute, c ++ (ns ++ [name]).map Step.down⟩ = .error .notFound := by
        unfold FileSystem.mkdir
        rw [hr]
      obtain ⟨fs₁, hrun, hdirs, hnode⟩ := ih fun r hr => hno r (hr.trans (List.prefix_append _ _))
      have hext : Extends fs fs₁ := by
        have hall := createDirAllFrom_extends (fun _ _ => none) absolute
          (c ++ ns.map Step.down).reverse fs
        rwa [hrun] at hall
      obtain ⟨fs₂, hmk, hdirs₂, hnode₂⟩ := (h.keeps hext.keeps).mkdir_down
        (hplain.keeps hext.keeps) hdirs fun bytes hfile =>
          hno _ List.prefix_rfl bytes (hext.node_of_ne_dir hfile (by simp))
      refine ⟨fs₂, ?_, hdirs₂, fun m => ?_⟩
      · rcases hmk with hmk | ⟨hmk, hisDir, rfl⟩
        · simp only [hfirst, hrun, hmk]
        · simp only [hfirst, hrun, hmk, hisDir, and_self, if_true]
      · rcases hnode₂ m with heq | rfl
        · rw [heq]
          refine (hnode m).imp_right ?_
          rintro ⟨r, hr, rfl⟩
          exact ⟨r, hr.trans (List.prefix_append _ _), rfl⟩
        · exact Or.inr ⟨_, List.prefix_rfl, rfl⟩
    | reaches hdirs =>
      have hdirs' : ∀ r, r <+: ns → fs.node (L ++ r) = some .dir := by
        intro r hr
        refine hdirs _ ⟨r.map Step.down, ?_, ?_, by rw [names_map_down]⟩
        · exact (hr.trans (List.prefix_append ns [name])).map _
        · intro heq
          have hlen := congrArg List.length heq
          have hle := hr.length_le
          simp only [List.length_map, List.length_append, List.length_singleton] at hlen
          omega
      obtain ⟨fs', hmk, hdirs₂, hnode₂⟩ := h.mkdir_down hplain hdirs' (hno _ List.prefix_rfl)
      refine ⟨fs', ?_, hdirs₂, fun m => (hnode₂ m).imp_right fun heq => ⟨_, List.prefix_rfl, heq⟩⟩
      rcases hmk with hmk | ⟨hmk, hisDir, rfl⟩
      · simp only [hmk]
      · simp only [hmk, hisDir, and_self, if_true]

end FileSystem

end FileTree
