import Mathlib

/-!
# Unix paths

Paths as byte strings, what their segments ask of a walk, and where a walk leads when no symbolic
link is in its way.

* `join`, `parse`: joining two paths, and reading one as the steps of a walk; `parse_join` says
  that joining a relative path appends its steps;
* `Path.components`, `Path.parent`: a path without the `.` segments that mean nothing;
* `Path.walk`, `Path.trail`: the location a path leads to, and every location on the way;
* `prefix_of_mem_scanl`: without `..` a walk never leaves the subtree it starts in.
-/

namespace UnixPath

/-- A path as it is written. -/
abbrev PathBuf := List UInt8

/-- The name of a directory entry. -/
abbrev Name := List UInt8

/-- A place in the tree: the names from the root directory down to it. -/
abbrev Loc := List Name

def slash : UInt8 := 47

def dot : UInt8 := 46

/-- What a segment of a path asks of a walk. -/
inductive Step
  | stay
  | up
  | down (name : Name)
  deriving DecidableEq

/-- The step of a segment that is not empty. -/
def Step.ofSegment (segment : Name) : Step :=
  if segment = [dot] then .stay else if segment = [dot, dot] then .up else .down segment

/-- A path as the steps of a walk. -/
structure Path where
  absolute : Bool
  steps : List Step
  deriving DecidableEq

/-- The parts of a path between its separators; empty parts mean nothing. -/
def segments (p : PathBuf) : List Name := (p.splitOn slash).filter (· ≠ [])

def parse (p : PathBuf) : Path := ⟨p.head? == some slash, (segments p).map Step.ofSegment⟩

/-- Joining a path to a base: an absolute path replaces the base, and a separator is written
unless the base ends in one. -/
def join (base p : PathBuf) : PathBuf :=
  if p.head? = some slash then p
  else if base ≠ [] ∧ base.getLast? ≠ some slash then base ++ slash :: p
  else base ++ p

theorem segments_append_slash (p q : PathBuf) :
    segments (p ++ slash :: q) = segments p ++ segments q := by
  unfold segments
  rw [List.splitOn_append_cons_self, List.filter_append]

theorem segments_nil : segments [] = [] := rfl

theorem segments_join {base p : PathBuf} (h : p.head? ≠ some slash) :
    segments (join base p) = segments base ++ segments p := by
  unfold join
  rw [if_neg h]
  split_ifs with hbase
  · exact segments_append_slash base p
  · rcases List.eq_nil_or_concat base with rfl | ⟨front, last, rfl⟩
    · rw [segments_nil, List.nil_append, List.nil_append]
    · -- The base ends in a separator, so the part after it is empty.
      have hlast : last = slash := by
        by_contra hne
        exact hbase ⟨by simp, by simpa using hne⟩
      rw [List.concat_eq_append, hlast, List.append_assoc, List.singleton_append,
        segments_append_slash, segments_append_slash, segments_nil, List.append_nil]

/-- Joining a relative path appends its steps to those of the base. -/
theorem parse_join {base p : PathBuf} (h : p.head? ≠ some slash) :
    parse (join base p) = ⟨(parse base).absolute, (parse base).steps ++ (parse p).steps⟩ := by
  have habs : ((join base p).head? == some slash) = (base.head? == some slash) := by
    unfold join
    rw [if_neg h]
    cases base with
    | nil => simpa using h
    | cons b base => split_ifs <;> rfl
  simp only [parse, habs, segments_join h, List.map_append]

/-! ### Components -/

/-- The steps of a path without those that stay, but for one in front of a relative path. -/
def Path.components (p : Path) : List Step :=
  if p.absolute = false ∧ p.steps.head? = some .stay then .stay :: p.steps.filter (· ≠ .stay)
  else p.steps.filter (· ≠ .stay)

/-- The path without its last component; the root directory and the empty path have none. -/
def Path.parent (p : Path) : Option Path :=
  if p.components = [] then none else some ⟨p.absolute, p.components.dropLast⟩

/-- A path has the same steps as its components, but for those that stay. -/
theorem Path.filter_components (p : Path) :
    p.components.filter (· ≠ .stay) = p.steps.filter (· ≠ .stay) := by
  unfold Path.components
  split_ifs <;> simp

/-- Only the first component of a path can be one that stays. -/
theorem Path.stay_notMem_tail (p : Path) : Step.stay ∉ p.components.tail := by
  unfold Path.components
  split_ifs
  · simp
  · intro hmem
    simpa using (List.mem_filter.1 (List.mem_of_mem_tail hmem)).2

/-! ### Walks -/

/-- The location after a step. The root directory is above itself. -/
def Step.move : Step → Loc → Loc
  | .stay, l => l
  | .up, l => l.dropLast
  | .down name, l => l ++ [name]

/-- Where the walk of a path starts. -/
def Path.start (p : Path) (cwd : Loc) : Loc := if p.absolute then [] else cwd

/-- Every location on the walk of a path, the start included. -/
def Path.trail (p : Path) (cwd : Loc) : List Loc :=
  p.steps.scanl (fun l s => s.move l) (p.start cwd)

/-- The location a path leads to. -/
def Path.walk (p : Path) (cwd : Loc) : Loc :=
  p.steps.foldl (fun l s => s.move l) (p.start cwd)

/-- The names that steps go down. -/
def names : List Step → List Name
  | [] => []
  | .down name :: steps => name :: names steps
  | _ :: steps => names steps

@[simp] theorem names_nil : names [] = [] := rfl

@[simp] theorem names_down (name : Name) (steps : List Step) :
    names (.down name :: steps) = name :: names steps := rfl

@[simp] theorem names_stay (steps : List Step) : names (.stay :: steps) = names steps := rfl

theorem names_append (s t : List Step) : names (s ++ t) = names s ++ names t := by
  induction s with
  | nil => rfl
  | cons step s ih => cases step <;> simp [names, ih]

theorem names_mono {s t : List Step} (h : s <+: t) : names s <+: names t := by
  obtain ⟨u, rfl⟩ := h
  rw [names_append]
  exact List.prefix_append _ _

/-- A front part of the names is what a front part of the steps goes down. -/
theorem exists_prefix_of_names {steps : List Step} {r : List Name} (h : r <+: names steps) :
    ∃ t, t <+: steps ∧ names t = r := by
  induction steps generalizing r with
  | nil => exact ⟨[], List.prefix_rfl, (List.prefix_nil.1 h).symm⟩
  | cons step steps ih =>
    cases step with
    | stay =>
      obtain ⟨t, ht, rfl⟩ := ih h
      exact ⟨.stay :: t, List.cons_prefix_cons.2 ⟨rfl, ht⟩, rfl⟩
    | up =>
      obtain ⟨t, ht, rfl⟩ := ih h
      exact ⟨.up :: t, List.cons_prefix_cons.2 ⟨rfl, ht⟩, rfl⟩
    | down name =>
      cases r with
      | nil => exact ⟨[], List.nil_prefix, rfl⟩
      | cons name' r =>
        rw [names_down, List.cons_prefix_cons] at h
        obtain ⟨rfl, h⟩ := h
        obtain ⟨t, ht, rfl⟩ := ih h
        exact ⟨.down name' :: t, List.cons_prefix_cons.2 ⟨rfl, ht⟩, rfl⟩

theorem names_map_down (ns : List Name) : names (ns.map Step.down) = ns := by
  induction ns with
  | nil => rfl
  | cons name ns ih => rw [List.map_cons, names_down, ih]

/-- The names of segments that do not go up are those that do not stay. -/
theorem names_map_ofSegment {segments : List Name} (h : [dot, dot] ∉ segments) :
    names (segments.map Step.ofSegment) = segments.filter (· ≠ [dot]) := by
  induction segments with
  | nil => rfl
  | cons segment segments ih =>
    rw [List.mem_cons, not_or] at h
    by_cases hdot : segment = [dot]
    · simp [Step.ofSegment, hdot, ih h.2]
    · simp [Step.ofSegment, hdot, Ne.symm h.1, ih h.2]

/-- Steps that never go up, without those that stay, are steps down. -/
theorem filter_stay_eq {steps : List Step} (h : Step.up ∉ steps) :
    steps.filter (· ≠ .stay) = (names steps).map Step.down := by
  induction steps with
  | nil => rfl
  | cons step steps ih =>
    rw [List.mem_cons, not_or] at h
    cases step with
    | stay => simpa using ih h.2
    | up => exact absurd rfl h.1
    | down name => simpa using ih h.2

/-! ### Paths that end in names -/

/-- The components of a path that goes on without steps up are those of its front part, up to steps
that stay, and then the names of the rest. -/
theorem components_append (absolute : Bool) (front : List Step) {steps : List Step}
    (h : Step.up ∉ steps) :
    ∃ c, (⟨absolute, front ++ steps⟩ : Path).components = c ++ (names steps).map Step.down ∧
      c.filter (· ≠ .stay) = front.filter (· ≠ .stay) := by
  unfold Path.components
  rw [List.filter_append, filter_stay_eq h]
  split_ifs
  · exact ⟨.stay :: front.filter (· ≠ .stay), rfl, by simp⟩
  · exact ⟨front.filter (· ≠ .stay), rfl, by simp⟩

/-- Dropping the last component of a path drops a component. -/
theorem components_dropLast (p : Path) :
    (⟨p.absolute, p.components.dropLast⟩ : Path).components = p.components.dropLast := by
  -- What is left of the steps without those that stay has none that stays.
  have hfilter : ((p.steps.filter (· ≠ .stay)).dropLast).filter (· ≠ .stay) =
      (p.steps.filter (· ≠ .stay)).dropLast := by
    refine List.filter_eq_self.2 fun step hstep => ?_
    exact (List.mem_filter.1 (List.mem_of_mem_dropLast hstep)).2
  have hhead : ((p.steps.filter (· ≠ .stay)).dropLast).head? ≠ some .stay := by
    intro hstay
    have hmem := List.mem_of_mem_head? hstay
    rw [← hfilter] at hmem
    simpa using (List.mem_filter.1 hmem).2
  by_cases hlead : p.absolute = false ∧ p.steps.head? = some .stay
  · rw [Path.components, Path.components, if_pos hlead]
    cases hrest : p.steps.filter (· ≠ .stay) with
    | nil => simp
    | cons step rest =>
      rw [hrest] at hfilter
      rw [List.dropLast_cons_cons, if_pos ⟨hlead.1, rfl⟩, List.filter_cons_of_neg (by simp),
        hfilter]
  · rw [Path.components, Path.components, if_neg hlead, if_neg fun h => hhead h.2, hfilter]

/-- Without a step up, a walk never leaves the subtree it starts in. -/
theorem prefix_of_mem_scanl {steps : List Step} {l m : Loc} (h : Step.up ∉ steps)
    (hm : m ∈ steps.scanl (fun l s => s.move l) l) : l <+: m := by
  induction steps generalizing l with
  | nil =>
    obtain rfl : m = l := by simpa using hm
    exact List.prefix_rfl
  | cons step steps ih =>
    rw [List.mem_cons, not_or] at h
    rw [List.scanl_cons, List.mem_cons] at hm
    rcases hm with rfl | hm
    · exact List.prefix_rfl
    · have hrest := ih h.2 hm
      cases step with
      | stay => exact hrest
      | up => exact absurd rfl h.1
      | down name => exact (List.prefix_append l [name]).trans hrest

/-- Steps that never go up lead down their names. -/
theorem foldl_move_eq {steps : List Step} (h : Step.up ∉ steps) (l : Loc) :
    steps.foldl (fun l s => s.move l) l = l ++ names steps := by
  induction steps generalizing l with
  | nil => exact (List.append_nil l).symm
  | cons step steps ih =>
    rw [List.mem_cons, not_or] at h
    rw [List.foldl_cons, ih h.2]
    cases step with
    | stay => rfl
    | up => exact absurd rfl h.1
    | down name => simp [Step.move]

/-- A trail ends where the walk leads. -/
theorem trail_eq_concat (p : Path) (cwd : Loc) : ∃ above, p.trail cwd = above ++ [p.walk cwd] :=
  List.getLast?_eq_some_iff.1 List.getLast?_scanl

/-- Appending steps to a path appends the walk of these steps to its trail. -/
theorem trail_append (p : Path) (steps : List Step) (cwd : Loc) :
    (⟨p.absolute, p.steps ++ steps⟩ : Path).trail cwd =
      p.trail cwd ++ (steps.scanl (fun l s => s.move l) (p.walk cwd)).tail := by
  show (p.steps ++ steps).scanl _ (p.start cwd) = _
  rw [List.scanl_append]
  rfl

end UnixPath
