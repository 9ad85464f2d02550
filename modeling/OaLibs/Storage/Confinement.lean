import OaLibs.Base.Runs
import OaLibs.Storage.Local

/-!
# Confinement to the root

Whatever the key, the path of a resolved key goes through the root and stays below it. So puts and
deletes on a root without symbolic links change no file outside, and each of them at most the file
at the key's own place below the root, also when system calls fail on the way.

* `LinkFree`: the root contains no symbolic links;
* `Write`, `writeStep`: the runs of puts and deletes;
* `Confined`: what one write may change;
* `path_confined`: the paths, and the runs.
-/

namespace OaLibs

namespace Storage

open UnixPath FileTree
open FileTree.FileSystem (Extends Keeps)

/-- A put or a delete, with the failures its system calls meet by themselves. -/
inductive Write
  | put (key : String) (body : List UInt8) (faults : PutFaults)
  | delete (key : String) (fault : Option IoError)

def Write.key : Write → String
  | .put key _ _ => key
  | .delete key _ => key

def Write.run (b : LocalBackend) : Write → FileSystem → Except StorageError Unit × FileSystem
  | .put key body faults, fs => b.put faults key body fs
  | .delete key fault, fs => b.delete fault key fs

def writeStep (b : LocalBackend) (fs : FileSystem) (w : Write) : Option FileSystem :=
  some (w.run b fs).2

/-- The root contains no symbolic link, wherever it leads once missing directories are made. -/
def LinkFree (fs : FileSystem) (root : Path) : Prop :=
  ∀ fs' L, Extends fs fs' → fs'.LeadsTo root L → fs.Plain L

variable {b : LocalBackend} {key : String} {fs fs' : FileSystem} {root : Path} {L : Loc}

theorem LinkFree.extends (h : LinkFree fs root) (hext : Extends fs fs') : LinkFree fs' root :=
  fun fs'' L hext' hL => (h fs'' L (hext.trans hext') hL).keeps hext.keeps

/-- Once the root is a directory, it is enough that this directory has no links. -/
theorem linkFree_of_leadsTo (hL : fs.LeadsTo root L) (hplain : fs.Plain L) :
    LinkFree fs root := by
  intro fs' L' hext hL'
  rwa [hL'.unique (hL.keeps hext.keeps)]

/-- What a write may do: directories and links stay, the root stays free of links, and the only
file that may change is the one that `steps` name below the root. -/
structure Confined (root : Path) (steps : List Step) (fs fs' : FileSystem) : Prop where
  keeps : Keeps fs fs'
  linkFree : LinkFree fs' root
  file : ∀ l, fs'.file l ≠ fs.file l → ∃ L, fs'.LeadsTo root L ∧ l = L ++ names steps

theorem confined_of_extends {steps : List Step} (h : LinkFree fs root) (hext : Extends fs fs') :
    Confined root steps fs fs' :=
  ⟨hext.keeps, h.extends hext, fun l hl => absurd (hext.file l) hl⟩

theorem confined_refl {steps : List Step} (h : LinkFree fs root) : Confined root steps fs fs :=
  confined_of_extends h (Extends.refl fs)

/-- A change at the place that a path below the root resolves to. -/
theorem confined_change {steps : List Step} {follow : Bool} {m : Loc} {x : Target}
    (hfree : LinkFree fs root) (hne : steps ≠ []) (hup : Step.up ∉ steps)
    (hx : x = .found m ∨ x = .missing m)
    (hresolve : fs.resolve follow ⟨root.absolute, root.steps ++ steps⟩ = .ok x)
    (hkeeps : fs.Plain m → Keeps fs fs') (hnode : ∀ l, l ≠ m → fs'.node l = fs.node l) :
    Confined root steps fs fs' := by
  obtain ⟨L, hL⟩ := FileSystem.leadsTo_of_resolve hne hresolve
  have hplain := hfree fs L (Extends.refl fs) hL
  have hwalk := hL.plainWalk follow hplain hne hup
  rw [hresolve] at hwalk
  have hm : m = L ++ names steps := by
    rcases hwalk.of_ok.2 with rfl | rfl <;> simpa [eq_comm] using hx
  have hkeeps' := hkeeps (hplain.below (hm ▸ List.prefix_append L _))
  refine ⟨hkeeps', linkFree_of_leadsTo (hL.keeps hkeeps') (hplain.keeps hkeeps'), fun l hl => ?_⟩
  refine ⟨L, hL.keeps hkeeps', ?_⟩
  by_contra hne'
  exact hl (FileSystem.file_congr (hnode l (hm ▸ hne')))

theorem Confined.of_extends {steps : List Step} {fs₁ : FileSystem} (hext : Extends fs fs₁)
    (h : Confined root steps fs₁ fs') : Confined root steps fs fs' :=
  ⟨hext.keeps.trans h.keeps, h.linkFree, fun l hl => h.file l (hext.file l ▸ hl)⟩

theorem put_confined (hkey : validateKey key = .ok ()) (hfree : LinkFree fs (parse b.root))
    (faults : PutFaults) (body : List UInt8) :
    Confined (parse b.root) (keySteps key) fs (b.put faults key body fs).2 := by
  unfold LocalBackend.put
  rw [resolvePath_of_ok hkey]
  show Confined _ _ fs (putAt faults (parse (join b.root (keyPath key))) body fs).2
  rw [parse_keyPath hkey]
  obtain ⟨fs₁, hext, heq | ⟨m, bytes, fs₂, hcreate, heq⟩⟩ := putAt_cases faults
    ⟨(parse b.root).absolute, (parse b.root).steps ++ keySteps key⟩ body fs
  · rw [heq]
    exact confined_of_extends hfree hext
  · rw [heq]
    obtain ⟨⟨x, hx, hresolve⟩, hacc, hlink, -⟩ := FileSystem.create_eq_ok hcreate
    refine .of_extends hext (confined_change (hfree.extends hext) (keySteps_ne_nil hkey)
      (up_notMem_keySteps hkey) hx hresolve (fun _ => FileSystem.keeps_insert_file hacc hlink _) ?_)
    exact fun l hl => FileSystem.insert_node_ne _ hl

theorem delete_confined (hkey : validateKey key = .ok ()) (hfree : LinkFree fs (parse b.root))
    (fault : Option IoError) :
    Confined (parse b.root) (keySteps key) fs (b.delete fault key fs).2 := by
  rcases delete_cases hkey fault fs (b := b) with heq | hunlink
  · rw [heq]
    exact confined_refl hfree
  · rw [parse_keyPath hkey] at hunlink
    obtain ⟨m, hm, hdir, heq⟩ := FileSystem.unlink_eq_ok hunlink
    rw [heq]
    refine confined_change hfree (keySteps_ne_nil hkey) (up_notMem_keySteps hkey) (Or.inl rfl) hm
      (fun hplain => FileSystem.keeps_remove hdir (hplain m List.prefix_rfl)) fun l hl => ?_
    exact FileSystem.remove_node_ne hl

/-- A write with a rejected key changes nothing. -/
theorem Write.run_of_rejected {w : Write} (h : validateKey w.key ≠ .ok ()) (fs : FileSystem) :
    (w.run b fs).2 = fs := by
  cases w with
  | put key body faults => exact put_of_rejected h faults body fs
  | delete key fault => exact delete_of_rejected h fault fs

theorem Write.confined (hfree : LinkFree fs (parse b.root)) (w : Write) :
    Confined (parse b.root) (keySteps w.key) fs (w.run b fs).2 := by
  by_cases hkey : validateKey w.key = .ok ()
  · cases w with
    | put key body faults => exact put_confined hkey hfree faults body
    | delete key fault => exact delete_confined hkey hfree fault
  · rw [w.run_of_rejected hkey]
    exact confined_refl hfree

/-- What a run of writes may do. -/
structure RunConfined (root : Path) (fs fs' : FileSystem) : Prop where
  linkFree : LinkFree fs' root
  file : ∀ l, (∀ L, fs'.LeadsTo root L → ¬ L <+: l) → fs'.file l = fs.file l

theorem run_confined {fs₀ : FileSystem} {ws : List Write} (hfree : LinkFree fs₀ (parse b.root))
    (h : Runs.run (writeStep b) fs₀ ws = some fs) : RunConfined (parse b.root) fs₀ fs := by
  refine Runs.run_invariant ⟨hfree, fun _ _ => rfl⟩ ?_ h
  intro fs w fs' hfs hstep
  obtain rfl := Option.some.inj hstep
  have hstep := w.confined hfs.linkFree
  refine ⟨hstep.linkFree, fun l hl => ?_⟩
  -- A place outside the root now was outside it before, since the root still leads there.
  have hbefore := hfs.file l fun L hL => hl L (hL.keeps hstep.keeps)
  rw [← hbefore]
  by_contra hchange
  obtain ⟨L, hL, rfl⟩ := hstep.file l hchange
  exact hl L hL (List.prefix_append L _)

/-- The walk of an accepted key's path passes through the root and stays below it from there. -/
theorem trail_keyPath (hkey : validateKey key = .ok ()) (cwd : Loc) :
    ∃ above below, (parse b.root).trail cwd = above ++ [(parse b.root).walk cwd] ∧
      (parse (join b.root (keyPath key))).trail cwd =
        above ++ (parse b.root).walk cwd :: below ∧
      ∀ l ∈ below, (parse b.root).walk cwd <+: l := by
  rw [parse_keyPath hkey, trail_append]
  obtain ⟨above, habove⟩ := trail_eq_concat (parse b.root) cwd
  refine ⟨above, ((keySteps key).scanl (fun l s => s.move l) ((parse b.root).walk cwd)).tail,
    habove, ?_, fun l hl => ?_⟩
  · rw [habove, List.append_assoc, List.singleton_append]
  · exact prefix_of_mem_scanl (up_notMem_keySteps hkey) (List.mem_of_mem_tail hl)

/-- For every root and key, the path of a resolved key passes through the root and never leaves its
subtree. In every run of puts and deletes with arbitrary keys, on a root without symbolic links, no
file outside the root changes; a call changes at most the file that its key names below the root,
and a call with a rejected key changes nothing. -/
theorem path_confined (b : LocalBackend) :
    (∀ key path, b.resolvePath key = .ok path ∨ resolveWithin b.root key = .ok path → ∀ cwd,
      ∃ above below, (parse b.root).trail cwd = above ++ [(parse b.root).walk cwd] ∧
        (parse path).trail cwd = above ++ (parse b.root).walk cwd :: below ∧
        ∀ l ∈ below, (parse b.root).walk cwd <+: l) ∧
    (∀ fs₀ ws fs, LinkFree fs₀ (parse b.root) → Runs.run (writeStep b) fs₀ ws = some fs →
      (∀ l, (∀ L, fs.LeadsTo (parse b.root) L → ¬ L <+: l) → fs.file l = fs₀.file l) ∧
      ∀ w : Write,
        (∀ l, (w.run b fs).2.file l ≠ fs.file l → ∃ L,
          (w.run b fs).2.LeadsTo (parse b.root) L ∧ l = L ++ names (keySteps w.key)) ∧
        (validateKey w.key ≠ .ok () → (w.run b fs).2 = fs)) := by
  refine ⟨fun key path hpath cwd => ?_, fun fs₀ ws fs hfree hrun => ?_⟩
  · rw [resolveWithin_eq, or_self, resolvePath_eq_ok] at hpath
    obtain ⟨hkey, rfl⟩ := hpath
    exact trail_keyPath hkey cwd
  · have hconfined := run_confined hfree hrun
    refine ⟨hconfined.file, fun w => ⟨?_, fun hkey => w.run_of_rejected hkey fs⟩⟩
    exact (w.confined hconfined.linkFree).file

theorem linkFree_sampleTree : LinkFree sampleTree (parse sampleBackend.root) := by
  intro fs' L hext hL m hm target
  rw [sampleTree_node]
  split_ifs <;> simp

/-- A put, a delete that tries to leave the root, and a put that fails in the middle. -/
def sampleWrites : List Write :=
  [.put "a/b" [1, 2] .none, .delete "../etc" none,
    .put "a/b" [3, 4] { PutFaults.none with write := some (1, .other "disk full") }]

theorem path_confined_sampleWrites :
    (∃ above below, (parse sampleBackend.root).trail [] =
        above ++ [(parse sampleBackend.root).walk []] ∧
      (parse (join sampleBackend.root (keyPath "a/./b"))).trail [] =
        above ++ (parse sampleBackend.root).walk [] :: below ∧
      ∀ l ∈ below, (parse sampleBackend.root).walk [] <+: l) ∧
    ∃ fs, Runs.run (writeStep sampleBackend) sampleTree sampleWrites = some fs ∧
      fs.file [segmentBytes "data", segmentBytes "a", segmentBytes "b"] = some [3] ∧
      fs.file [segmentBytes "etc"] = sampleTree.file [segmentBytes "etc"] := by
  refine ⟨(path_confined sampleBackend).1 "a/./b" _ (Or.inl (resolvePath_of_ok ?_)) [],
    ⟨_, rfl, ?_, ?_⟩⟩
  · decide +kernel
  · decide +kernel
  · refine ((path_confined sampleBackend).2 sampleTree sampleWrites _ linkFree_sampleTree rfl).1 _
      fun L hL => ?_
    obtain rfl : L = [segmentBytes "data"] := hL.unique (by decide +kernel)
    decide +kernel

end Storage

end OaLibs
