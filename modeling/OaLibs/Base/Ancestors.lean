import OaLibs.Base.PlainTree

/-!
# Reading a path while its directories are made

Directories are made for the front parts of a path. What is read from the whole path stays what it
was, in any tree, symbolic links included, as soon as the path is anchored: its part up to the last
`..` leads to a directory.

* `Keeps.resolve_file`: a file stays where it was found when directories and links are kept;
* `openRead`, `readAt`: reading a file in pieces;
* `mkdir_eq_ok`: where a directory is made;
* `Anchored`, `Anchored.read_mkdir`: the condition, and what it is good for.
-/

namespace FileTree

open UnixPath

namespace FileSystem

variable {fs fs' : FileSystem} {l L m : Loc} {n : ℕ} {s : List Step} {p q : Path}
  {bytes : List UInt8}

/-! ### Files that stay where they are -/

/-- A walk leads to a file where it led to a file or to a place for one before. -/
theorem Keeps.walk_file (h : Keeps fs fs') (hm : fs'.node m = some (.file bytes)) {x : Target}
    (hx : x = .found m ∨ x = .missing m) (hl : fs.node l = some .dir)
    (hwalk : fs.walk true n l s = .ok x) : fs'.walk true n l s = .ok (.found m) := by
  induction n using Nat.strong_induction_on generalizing l s with
  | _ n ihn =>
    induction s generalizing l with
    | nil =>
      rw [walk_nil] at hwalk
      obtain rfl := Except.ok.inj hwalk
      obtain rfl : l = m := by simpa using hx
      rw [h.dir l hl] at hm
      cases hm
    | cons step s ihs =>
      cases step with
      | stay =>
        rw [walk_stay] at hwalk ⊢
        exact ihs hl hwalk
      | up =>
        rw [walk_up] at hwalk ⊢
        exact ihs (dir_dropLast hl) hwalk
      | down name =>
        cases hnode : fs.node (l ++ [name]) with
        | none =>
          rw [walk_missing hnode] at hwalk
          split_ifs at hwalk with hlast
          obtain rfl := Except.ok.inj hwalk
          obtain rfl : l ++ [name] = m := by simpa using hx
          rw [FileSystem.walk_file hm, if_pos hlast]
        | some y =>
          cases y with
          | dir =>
            rw [walk_dir hnode] at hwalk
            rw [walk_dir (h.dir _ hnode)]
            exact ihs hnode hwalk
          | file old =>
            rw [FileSystem.walk_file hnode] at hwalk
            split_ifs at hwalk with hlast
            obtain rfl := Except.ok.inj hwalk
            obtain rfl : l ++ [name] = m := by simpa using hx
            rw [FileSystem.walk_file hm, if_pos hlast]
          | link target =>
            have hfollow : ¬ (s = [] ∧ true = false) := by simp
            rw [walk_link hnode, if_neg hfollow] at hwalk
            rw [walk_link ((h.link _ target).2 hnode), if_neg hfollow]
            cases n with
            | zero => cases hwalk
            | succ k => exact ihn k (Nat.lt_succ_self k) (start_dir target hl) hwalk

theorem Keeps.resolve_file (h : Keeps fs fs') (hm : fs'.node m = some (.file bytes)) {x : Target}
    (hx : x = .found m ∨ x = .missing m) (hresolve : fs.resolve true p = .ok x) :
    fs'.resolve true p = .ok (.found m) := by
  have hwalk := walk_of_resolve hresolve
  unfold resolve at hresolve ⊢
  split_ifs at hresolve with hempty
  rw [if_neg hempty, h.cwd]
  exact h.walk_file hm hx (start_dir p fs.cwd_dir) hwalk

/-- What is read from a path that leads to a file. -/
theorem read_of_file (hresolve : fs.resolve true p = .ok (.found m))
    (hm : fs.node m = some (.file bytes)) : fs.read p = .ok bytes := by
  unfold read
  rw [hresolve]
  simp only [file_eq_some_iff.2 hm]

/-! ### Opening a file -/

/-- `open` for reading, of a regular file -/
def openRead (fs : FileSystem) (p : Path) : Except IoError Loc :=
  match fs.resolve true p with
  | .error e => .error e
  | .ok (.missing _) => .error .notFound
  | .ok (.found l) => if (fs.file l).isSome then .ok l else .error .isADirectory

/-- `read` of at most `n` bytes at an offset of an open file; none are left at its end. -/
def readAt (fs : FileSystem) (l : Loc) (offset n : ℕ) : List UInt8 :=
  (((fs.file l).getD []).drop offset).take n

/-- Opening fails as reading fails, and reading reads the opened file. -/
theorem openRead_cases (fs : FileSystem) (p : Path) :
    (∃ l bytes, fs.openRead p = .ok l ∧ fs.resolve true p = .ok (.found l) ∧
      fs.node l = some (.file bytes) ∧ fs.read p = .ok bytes) ∨
    ∃ e, fs.openRead p = .error e ∧ fs.read p = .error e := by
  unfold openRead read
  cases hresolve : fs.resolve true p with
  | error e => exact .inr ⟨e, rfl, rfl⟩
  | ok x =>
    cases x with
    | missing m => exact .inr ⟨.notFound, rfl, rfl⟩
    | found m =>
      cases hfile : fs.file m with
      | none => exact .inr ⟨.isADirectory, by simp [hfile], by simp [hfile]⟩
      | some bytes =>
        exact .inl ⟨m, bytes, by simp [hfile], rfl, file_eq_some_iff.1 hfile, by simp [hfile]⟩

/-! ### Where directories are made -/

/-- A directory is made in the directory that the path without its last step leads to. -/
theorem mkdir_eq_ok (h : fs.mkdir p = .ok fs') :
    ∃ front name L, p.steps = front ++ [.down name] ∧ fs.LeadsTo ⟨p.absolute, front⟩ L ∧
      fs.node (L ++ [name]) = none ∧ fs' = fs.insert (L ++ [name]) .dir := by
  unfold mkdir at h
  split at h
  · cases h
  · cases h
  · rename_i m hm
    obtain rfl := Except.ok.inj h
    rcases List.eq_nil_or_concat p.steps with hnil | ⟨front, last, hlast⟩
    · have hwalk := walk_of_resolve hm
      rw [hnil, walk_nil] at hwalk
      cases hwalk
    · rw [List.concat_eq_append] at hlast
      have hp : p = ⟨p.absolute, front ++ [last]⟩ := by rw [← hlast]
      rw [hp] at hm
      obtain ⟨L, hL⟩ := leadsTo_of_resolve (p := ⟨p.absolute, front⟩) (List.cons_ne_nil _ _) hm
      obtain ⟨k, hk⟩ := hL.resolve_append
      rw [hk false [last] (List.cons_ne_nil _ _)] at hm
      cases last with
      | stay =>
        rw [walk_stay, walk_nil] at hm
        cases hm
      | up =>
        rw [walk_up, walk_nil] at hm
        cases hm
      | down name =>
        refine ⟨front, name, L, hlast, hL, ?_⟩
        cases hnode : fs.node (L ++ [name]) with
        | none =>
          rw [walk_missing hnode, if_pos rfl] at hm
          obtain rfl : L ++ [name] = m := by simpa using hm
          exact ⟨rfl, rfl⟩
        | some x =>
          cases x with
          | dir =>
            rw [walk_dir hnode, walk_nil] at hm
            cases hm
          | file old =>
            rw [walk_file hnode, if_pos rfl] at hm
            cases hm
          | link target =>
            rw [walk_link hnode, if_pos ⟨rfl, rfl⟩] at hm
            cases hm

/-! ### Anchored paths -/

/-- The part of a path up to its last `..` leads to a directory. -/
def Anchored (fs : FileSystem) (q : Path) : Prop :=
  ∃ front tail L, q.steps = front ++ tail ∧ Step.up ∉ tail ∧ fs.LeadsTo ⟨q.absolute, front⟩ L

theorem Anchored.extends (h : fs.Anchored q) (hext : Extends fs fs') : fs'.Anchored q := by
  obtain ⟨front, tail, L, hq, hup, hL⟩ := h
  exact ⟨front, tail, L, hq, hup, hL.keeps hext.keeps⟩

/-- An anchored path may go on without steps up. -/
theorem Anchored.append (h : fs.Anchored q) (hup : Step.up ∉ s) :
    fs.Anchored ⟨q.absolute, q.steps ++ s⟩ := by
  obtain ⟨front, tail, L, hq, htail, hL⟩ := h
  refine ⟨front, tail ++ s, L, ?_, ?_, hL⟩
  · rw [hq, List.append_assoc]
  · rw [List.mem_append]
    exact not_or.2 ⟨htail, hup⟩

/-- Steps down from a directory with nothing in it lead to nothing. -/
theorem walk_empty (hno : ∀ name, fs.node (l ++ [name]) = none) (hup : Step.up ∉ s)
    (hne : s.filter (· ≠ .stay) ≠ []) :
    (∃ m, fs.walk true n l s = .ok (.missing m)) ∨ fs.walk true n l s = .error .notFound := by
  induction s with
  | nil => exact absurd rfl hne
  | cons step s ih =>
    rw [List.mem_cons, not_or] at hup
    cases step with
    | stay =>
      rw [walk_stay]
      exact ih hup.2 (by simpa using hne)
    | up => exact absurd rfl hup.1
    | down name =>
      rw [walk_missing (hno name)]
      split_ifs
      · exact .inl ⟨_, rfl⟩
      · exact .inr rfl

theorem read_of_nothing (h : (∃ m, fs.resolve true p = .ok (.missing m)) ∨
    fs.resolve true p = .error .notFound) : fs.read p = .error .notFound := by
  unfold read
  rcases h with ⟨m, h⟩ | h <;> rw [h]

/-- A directory is made for a front part of an anchored path: the path goes on behind it, without
going up. -/
theorem Anchored.beyond (h : fs.Anchored q) (hmk : fs.mkdir p = .ok fs')
    (habs : p.absolute = q.absolute) (hp : p.steps <+: q.components.dropLast) :
    ∃ u name v L, q.steps = u ++ .down name :: v ∧ Step.up ∉ v ∧ v.filter (· ≠ .stay) ≠ [] ∧
      fs.LeadsTo ⟨q.absolute, u⟩ L ∧ fs.node (L ++ [name]) = none ∧
      fs' = fs.insert (L ++ [name]) .dir := by
  obtain ⟨w, name, L, hw, hL, hnone, hins⟩ := mkdir_eq_ok hmk
  rw [habs] at hL
  obtain ⟨rest, last, hlast, hcomp⟩ : ∃ rest last, last ≠ Step.stay ∧
      q.components = w ++ .down name :: (rest ++ [last]) := by
    obtain ⟨rest, hrest⟩ := hp
    have hne : q.components ≠ [] := by
      intro hnil
      rw [hw, hnil] at hrest
      simp at hrest
    have hsplit := List.dropLast_append_getLast hne
    rw [← hrest, hw] at hsplit
    refine ⟨rest, q.components.getLast hne, ?_, by simpa using hsplit.symm⟩
    -- Only the first component can be one that stays.
    intro hstay
    rw [hstay] at hsplit
    refine q.stay_notMem_tail ?_
    rw [← hsplit]
    cases w <;> simp
  -- The same split of the steps themselves.
  have hfilter := q.filter_components
  rw [hcomp, List.filter_append, List.filter_cons_of_pos (by simp)] at hfilter
  obtain ⟨u₁, rest', hq, hu₁, hrest'⟩ := List.filter_eq_append_iff.1 hfilter.symm
  obtain ⟨u₂, v, rfl, hu₂, -, hv⟩ := List.filter_eq_cons_iff.1 hrest'
  have hu : (u₁ ++ u₂).filter (· ≠ .stay) = w.filter (· ≠ .stay) := by
    rw [List.filter_append, hu₁, List.filter_eq_nil_iff.2 hu₂, List.append_nil]
  have hLu : fs.LeadsTo ⟨q.absolute, u₁ ++ u₂⟩ L := hL.of_filter hu
  rw [← List.append_assoc] at hq
  refine ⟨u₁ ++ u₂, name, v, L, hq, ?_, by rw [hv, List.filter_append]; simp [hlast], hLu, hnone,
    hins⟩
  obtain ⟨front, tail, M, hsteps, hup, hM⟩ := h
  rw [hsteps] at hq
  rcases List.append_eq_append_iff.1 hq with ⟨mid, -, htail⟩ | ⟨mid, hfront, htail⟩
  · rw [htail] at hup
    exact fun hv => hup (List.mem_append_right mid (List.mem_cons_of_mem _ hv))
  · cases mid with
    | nil =>
      rw [List.nil_append] at htail
      rw [← htail] at hup
      exact fun hv => hup (List.mem_cons_of_mem _ hv)
    | cons step mid =>
      obtain ⟨rfl, -⟩ := List.cons.inj htail
      -- The front part would lead to a directory through one that is missing.
      rw [hfront] at hM
      obtain ⟨k, hk⟩ := DirAt.walk_append (start_dir _ fs.cwd_dir) hLu
      have hdir : fs.DirAt k L (.down name :: mid) M :=
        ⟨(hk true (.down name :: mid) (by simp)).symm.trans hM.1, hM.dir⟩
      rcases dirAt_down.1 hdir with ⟨hnode, -⟩ | ⟨target, -, hnode, -⟩
      · rw [hnone] at hnode
        cases hnode
      · rw [hnone] at hnode
        cases hnode

/-- Making a directory for a front part of an anchored path does not change what is read from the
path: there was nothing and there is nothing. -/
theorem Anchored.read_mkdir (h : fs.Anchored q) (hmk : fs.mkdir p = .ok fs')
    (habs : p.absolute = q.absolute) (hp : p.steps <+: q.components.dropLast) :
    fs'.read q = fs.read q := by
  obtain ⟨u, name, v, L, hq, hup, hv, hL, hnone, rfl⟩ := h.beyond hmk habs hp
  have hvne : v ≠ [] := by
    rintro rfl
    exact hv rfl
  have hpath : q = ⟨q.absolute, u ++ .down name :: v⟩ := by rw [← hq]
  have hbefore : fs.read q = .error .notFound := by
    obtain ⟨k, hk⟩ := hL.resolve_append
    refine read_of_nothing (.inr ?_)
    rw [hpath]
    exact (hk true _ (by simp)).trans (by rw [walk_missing hnone, if_neg hvne])
  have hext := mkdir_extends hmk
  have hacc : fs.Accepts (L ++ [name]) := by
    refine ⟨by simp, ?_, by simp [hnone]⟩
    rw [List.dropLast_concat]
    exact hL.dir
  have hafter : (fs.insert (L ++ [name]) .dir).read q = .error .notFound := by
    obtain ⟨k, hk⟩ := (hL.keeps hext.keeps).resolve_append
    have hdir : (fs.insert (L ++ [name]) .dir).node (L ++ [name]) = some .dir := by
      rw [insert_node hacc, if_pos rfl]
    have hempty : ∀ name', (fs.insert (L ++ [name]) .dir).node (L ++ [name] ++ [name']) = none := by
      intro name'
      rw [insert_node_ne _ (by simp)]
      exact node_append_of_none hnone [name']
    refine read_of_nothing ?_
    rw [hpath]
    have hwalk := (hk true (.down name :: v) (by simp)).trans (walk_dir hdir)
    rw [hwalk]
    exact walk_empty hempty hup hv
  rw [hbefore, hafter]

end FileSystem

end FileTree
