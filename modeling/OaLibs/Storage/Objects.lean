import OaLibs.Base.Runs
import OaLibs.Storage.Local

/-!
# The flat object store

What the interface of the backends promises: a map from keys to bodies. Next to it, what a list of
calls leaves in a tree of files, where keys are paths.

* `Call`, `Reply`, `Objects.call`: the interface, and the map behind it;
* `LocalBackend.call`: the same calls on the local backend, with no failures but those of the tree;
* `Storable`: a key that is accepted and not too long for the disk;
* `lastWrite`: what the last put or delete among some keys left; `Objects` after some calls and the
  files of the tree are instances of it;
* `IsDir`: the paths that became directories.
-/

namespace OaLibs

namespace Storage

open UnixPath FileTree

/-- A call of the storage interface. -/
inductive Call
  | put (key : String) (body : List UInt8)
  | get (key : String)
  | delete (key : String)
  | existsKey (key : String)

def Call.key : Call → String
  | .put key _ => key
  | .get key => key
  | .delete key => key
  | .existsKey key => key

inductive Reply
  | put (result : Except StorageError Unit)
  | get (result : Except StorageError (List UInt8))
  | delete (result : Except StorageError Unit)
  | existsKey (result : Except StorageError Bool)
  deriving DecidableEq

/-- The objects of a flat store by their keys. -/
abbrev Objects := String → Option (List UInt8)

/-- A call of the flat store: a put overwrites its own key, a delete always succeeds. -/
def Objects.call : Call → Objects → Reply × Objects
  | .put key body, objects => (.put (.ok ()), Function.update objects key (some body))
  | .get key, objects =>
      (.get (match objects key with
        | some body => .ok body
        | none => .error (.notFound key)), objects)
  | .delete key, objects => (.delete (.ok ()), Function.update objects key none)
  | .existsKey key, objects => (.existsKey (.ok (objects key).isSome), objects)

/-- A call of the local backend, where no system call fails by itself. -/
def LocalBackend.call (b : LocalBackend) : Call → FileSystem → Reply × FileSystem
  | .put key body, fs => (.put (b.put .none key body fs).1, (b.put .none key body fs).2)
  | .get key, fs => (.get (b.get none key fs), fs)
  | .delete key, fs => (.delete (b.delete none key fs).1, (b.delete none key fs).2)
  | .existsKey key, fs => (.existsKey (b.existsKey none key fs), fs)

/-! ### What calls leave behind -/

/-- What a call leaves under the keys in `p`, when `old` was there before. -/
def Call.leaves (p : String → Bool) (old : Option (List UInt8)) : Call → Option (List UInt8)
  | .put key body => if p key then some body else old
  | .delete key => if p key then none else old
  | _ => old

/-- What the last put or delete among the keys in `p` left. -/
def lastWrite (p : String → Bool) (hist : List Call) : Option (List UInt8) :=
  hist.foldl (Call.leaves p) none

/-- The names of a key's path below the root. -/
def keyNames (key : String) : List Name := names (keySteps key)

/-- An accepted key whose path on the disk the operating system takes: each of its names has at most
255 bytes, and the path at most 4095. -/
structure Storable (b : LocalBackend) (key : String) : Prop where
  valid : validateKey key = .ok ()
  names : ∀ name ∈ keyNames key, name.length ≤ 255
  path : (join b.root (keyPath key)).length ≤ 4095

theorem storable_iff {b : LocalBackend} {key : String} :
    Storable b key ↔ validateKey key = .ok () ∧ (∀ name ∈ keyNames key, name.length ≤ 255) ∧
      (join b.root (keyPath key)).length ≤ 4095 :=
  ⟨fun h => ⟨h.valid, h.names, h.path⟩, fun h => ⟨h.1, h.2.1, h.2.2⟩⟩

instance (b : LocalBackend) (key : String) : Decidable (Storable b key) :=
  decidable_of_iff _ storable_iff.symm

/-- What the last put or delete under a path left, whatever the spelling of its key. -/
def lastAt (path : List Name) (hist : List Call) : Option (List UInt8) :=
  lastWrite (fun key => keyNames key == path) hist

/-- What the last put or delete under exactly this key left. -/
def lastUnder (key : String) (hist : List Call) : Option (List UInt8) :=
  lastWrite (fun k => k == key) hist

/-- The path is the root or a proper part of the path of a key that was put. -/
def IsDir (hist : List Call) (path : List Name) : Prop :=
  path = [] ∨ ∃ key body, .put key body ∈ hist ∧ path <+: keyNames key ∧ path ≠ keyNames key

variable {hist : List Call} {path : List Name} {key : String}

theorem lastWrite_concat (p : String → Bool) (hist : List Call) (c : Call) :
    lastWrite p (hist ++ [c]) = c.leaves p (lastWrite p hist) := by
  unfold lastWrite
  rw [List.foldl_append, List.foldl_cons, List.foldl_nil]

/-- The flat store holds what the last put or delete under each key left. -/
theorem call_lastUnder (c : Call) :
    (Objects.call c fun key => lastUnder key hist).2 = fun key => lastUnder key (hist ++ [c]) := by
  funext key
  unfold lastUnder
  rw [lastWrite_concat]
  cases c with
  | put k body => by_cases h : key = k <;> simp [Objects.call, Call.leaves, h, Ne.symm]
  | get k => rfl
  | delete k => by_cases h : key = k <;> simp [Objects.call, Call.leaves, h, Ne.symm]
  | existsKey k => rfl

/-- What is above a directory is a directory. -/
theorem IsDir.of_prefix {path' : List Name} (h : IsDir hist path) (hp : path' <+: path) :
    IsDir hist path' := by
  rcases h with rfl | ⟨key, body, hmem, hpre, hne⟩
  · exact Or.inl (List.prefix_nil.1 hp)
  · refine Or.inr ⟨key, body, hmem, hp.trans hpre, ?_⟩
    rintro rfl
    exact hne (hpre.eq_of_length_le hp.length_le)

theorem isDir_concat_put {k : String} {body : List UInt8} :
    IsDir (hist ++ [.put k body]) path ↔
      IsDir hist path ∨ (path <+: keyNames k ∧ path ≠ keyNames k) := by
  unfold IsDir
  constructor
  · rintro (h | ⟨key, body', hmem, hpre, hne⟩)
    · exact Or.inl (Or.inl h)
    · rcases List.mem_append.1 hmem with hmem | hmem
      · exact Or.inl (Or.inr ⟨key, body', hmem, hpre, hne⟩)
      · obtain ⟨rfl, -⟩ := Call.put.inj (List.mem_singleton.1 hmem)
        exact Or.inr ⟨hpre, hne⟩
  · rintro ((h | ⟨key, body', hmem, hpre, hne⟩) | ⟨hpre, hne⟩)
    · exact Or.inl h
    · exact Or.inr ⟨key, body', List.mem_append_left _ hmem, hpre, hne⟩
    · exact Or.inr ⟨k, body, List.mem_append_right _ (List.mem_singleton.2 rfl), hpre, hne⟩

/-- Only puts make directories. -/
theorem isDir_concat {c : Call} (hc : ∀ k body, c ≠ .put k body) :
    IsDir (hist ++ [c]) path ↔ IsDir hist path := by
  unfold IsDir
  refine or_congr_right <| exists_congr fun key => exists_congr fun body =>
    and_congr_left fun _ => ?_
  rw [List.mem_append, List.mem_singleton]
  exact or_iff_left fun heq => hc key body heq.symm

end Storage

end OaLibs
