import OaLibs.Storage.Flat
import OaLibs.Storage.S3

/-!
# One backend in place of the other

The services reach their objects through one interface, and which backend is behind it is a matter
of configuration. Over a bucket that does what it is asked, the S3 backend is the flat object store,
and so it and the local backend can stand in for each other exactly as far as the local one is flat.

* `ObjectStore.Keeps`: a bucket that keeps its objects by their paths and answers every request;
* `S3Backend.call`, `Reply.plain`: the interface on the S3 backend, and replies without the text of
  a missing object, which each backend words in its own way;
* `Holds`: the objects of a bucket after some calls; `Holds.reply`, `Holds.call`: one call;
* `s3_replies_eq_flat`, `backends_agree_iff`: lists of calls on the S3 backend, and on both.
-/

namespace OaLibs

namespace Storage

open UnixPath FileTree

variable {σ : Type}

/-- A bucket whose objects are kept by their paths, with no failures but those of absent objects.
The empty path is that of no object. Whether deleting an absent object is an error differs between
services. -/
structure ObjectStore.Keeps (store : ObjectStore σ)
    (objects : σ → ObjectPath → Option (List UInt8)) : Prop where
  put : ∀ path body s, path ≠ [] → (store.put path body s).1 = .ok () ∧
    objects (store.put path body s).2 = Function.update (objects s) path (some body)
  get_some : ∀ path s bytes, path ≠ [] → objects s path = some bytes →
    store.get path s = .ok (.ok bytes)
  get_none : ∀ path s, path ≠ [] → objects s path = none →
    ∃ text, store.get path s = .error (.notFound text)
  delete : ∀ path s, path ≠ [] → ((store.delete path s).1 = .ok () ∨
      objects s path = none ∧ ∃ text, (store.delete path s).1 = .error (.notFound text)) ∧
    objects (store.delete path s).2 = Function.update (objects s) path none
  head_some : ∀ path s bytes, path ≠ [] → objects s path = some bytes → store.head path s = .ok ()
  head_none : ∀ path s, path ≠ [] → objects s path = none →
    ∃ text, store.head path s = .error (.notFound text)

/-- A call of the S3 backend. -/
def S3Backend.call (s3 : S3Backend σ) : Call → σ → Reply × σ
  | .put key body, s => (.put (s3.put key body s).1, (s3.put key body s).2)
  | .get key, s => (.get (s3.get key s), s)
  | .delete key, s => (.delete (s3.delete key s).1, (s3.delete key s).2)
  | .existsKey key, s => (.existsKey (s3.existsKey key s), s)

/-- A reply without the text of a missing object. -/
def Reply.plain : Reply → Reply
  | .get (.error (.notFound _)) => .get (.error (.notFound ""))
  | reply => reply

/-- The bucket after some calls: under the path of each accepted key, what the last put or delete of
this key left. -/
def Holds (s3 : S3Backend σ) (objects : σ → ObjectPath → Option (List UInt8)) (hist : List Call)
    (s : σ) : Prop :=
  ∀ key, validateKey key = .ok () → objects s (s3.path key) = lastUnder key hist

variable {s3 : S3Backend σ} {objects : σ → ObjectPath → Option (List UInt8)} {hist : List Call}
  {s : σ} {b : LocalBackend} {L : Loc} {fs : FileSystem} {c : Call}

theorem holds_empty (hempty : ∀ path, objects s path = none) : Holds s3 objects [] s :=
  fun _ _ => hempty _

/-! ### One call -/

/-- A call of the S3 backend is answered as the flat store answers it. -/
theorem Holds.reply (hkeeps : s3.store.Keeps objects) (h : Holds s3 objects hist s)
    (hkey : validateKey c.key = .ok ()) :
    (s3.call c s).1.plain = (Objects.call c fun key => lastUnder key hist).1.plain := by
  have hpath : s3.path c.key ≠ [] := path_ne_nil s3 hkey
  cases c with
  | put key body =>
    obtain ⟨hput, -⟩ := hkeeps.put (s3.path key) body s hpath
    simp only [S3Backend.call, S3Backend.put]
    cases hstore : s3.store.put (s3.path key) body s with
    | mk result s' =>
      rw [hstore] at hput
      obtain rfl : result = .ok () := hput
      rfl
  | get key =>
    have hobject : objects s (s3.path key) = lastUnder key hist := h key hkey
    simp only [S3Backend.call, S3Backend.get, Objects.call]
    cases hlast : lastUnder key hist with
    | some bytes =>
      rw [hkeeps.get_some (s3.path key) s bytes hpath (hobject.trans hlast)]
    | none =>
      obtain ⟨text, htext⟩ := hkeeps.get_none (s3.path key) s hpath (hobject.trans hlast)
      rw [htext]
      rfl
  | delete key =>
    obtain ⟨hdelete, -⟩ := hkeeps.delete (s3.path key) s hpath
    simp only [S3Backend.call, S3Backend.delete]
    cases hstore : s3.store.delete (s3.path key) s with
    | mk result s' =>
      rw [hstore] at hdelete
      rcases hdelete with hok | ⟨-, text, herr⟩
      · obtain rfl : result = .ok () := hok
        rfl
      · obtain rfl : result = .error (.notFound text) := herr
        rfl
  | existsKey key =>
    have hobject : objects s (s3.path key) = lastUnder key hist := h key hkey
    simp only [S3Backend.call, S3Backend.existsKey, Objects.call]
    cases hlast : lastUnder key hist with
    | some bytes =>
      rw [hkeeps.head_some (s3.path key) s bytes hpath (hobject.trans hlast)]
      rfl
    | none =>
      obtain ⟨text, htext⟩ := hkeeps.head_none (s3.path key) s hpath (hobject.trans hlast)
      rw [htext]
      rfl

/-- Only the object of the key changes: other accepted keys have other paths. -/
theorem Holds.update {result : Option (List UInt8)} {s' : σ} {key : String}
    (h : Holds s3 objects hist s) (hkey : validateKey key = .ok ())
    (hs' : objects s' = Function.update (objects s) (s3.path key) result)
    (hleaves : ∀ key', c.leaves (fun k => k == key') (lastUnder key' hist) =
      if key' = key then result else lastUnder key' hist) :
    Holds s3 objects (hist ++ [c]) s' := by
  intro key' hkey'
  have hpath : s3.path key' = s3.path key ↔ key' = key := sameObject_iff s3 hkey' hkey
  rw [lastUnder, lastWrite_concat]
  show _ = c.leaves (fun k => k == key') (lastUnder key' hist)
  rw [hs', hleaves, Function.update_apply]
  by_cases heq : key' = key
  · rw [if_pos heq, if_pos (hpath.2 heq)]
  · rw [if_neg heq, if_neg (mt hpath.1 heq), h key' hkey']

theorem Holds.call (hkeeps : s3.store.Keeps objects) (h : Holds s3 objects hist s)
    (hkey : validateKey c.key = .ok ()) : Holds s3 objects (hist ++ [c]) (s3.call c s).2 := by
  have hpath : s3.path c.key ≠ [] := path_ne_nil s3 hkey
  cases c with
  | put key body =>
    obtain ⟨hput, hstate⟩ := hkeeps.put (s3.path key) body s hpath
    have hs' : (s3.call (.put key body) s).2 = (s3.store.put (s3.path key) body s).2 := by
      simp only [S3Backend.call, S3Backend.put]
      cases hstore : s3.store.put (s3.path key) body s with
      | mk result s' => cases result <;> rfl
    have hkey₁ : validateKey key = .ok () := hkey
    refine h.update hkey₁ (hs' ▸ hstate) fun key' => ?_
    by_cases heq : key' = key
    · simp [Call.leaves, heq]
    · simp [Call.leaves, heq, Ne.symm heq]
  | get key =>
    intro key' hkey'
    rw [lastUnder, lastWrite_concat]
    exact h key' hkey'
  | delete key =>
    obtain ⟨-, hstate⟩ := hkeeps.delete (s3.path key) s hpath
    have hs' : (s3.call (.delete key) s).2 = (s3.store.delete (s3.path key) s).2 := by
      simp only [S3Backend.call, S3Backend.delete]
      cases hstore : s3.store.delete (s3.path key) s with
      | mk result s' =>
        cases result with
        | ok _ => rfl
        | error err => cases err <;> rfl
    have hkey₁ : validateKey key = .ok () := hkey
    refine h.update hkey₁ (hs' ▸ hstate) fun key' => ?_
    by_cases heq : key' = key
    · simp [Call.leaves, heq]
    · simp [Call.leaves, heq, Ne.symm heq]
  | existsKey key =>
    intro key' hkey'
    rw [lastUnder, lastWrite_concat]
    exact h key' hkey'

/-- The local backend names the key of a missing object. -/
theorem get_notFound {key text : String} (h : b.get none key fs = .error (.notFound text)) :
    text = key := by
  unfold LocalBackend.get at h
  split at h
  · rename_i err hpath
    unfold LocalBackend.resolvePath at hpath
    split at hpath
    · rename_i err' hkey
      obtain rfl := Except.error.inj hpath
      obtain rfl := Except.error.inj h
      cases validateKey_error hkey
    · cases hpath
  · split at h
    · cases h
    · exact (StorageError.notFound.inj (Except.error.inj h)).symm
    · cases h

/-- As the flat store does; so nothing is lost when the text is left out. -/
theorem plain_eq_iff (b : LocalBackend) (c : Call) (fs : FileSystem) (flat : Objects) :
    (b.call c fs).1.plain = (Objects.call c flat).1.plain ↔
      (b.call c fs).1 = (Objects.call c flat).1 := by
  refine ⟨fun h => ?_, congrArg Reply.plain⟩
  cases c with
  | put key body => exact h
  | delete key => exact h
  | existsKey key => exact h
  | get key =>
    have hlocal : ∀ text, b.get none key fs = .error (.notFound text) → text = key :=
      fun text => get_notFound
    simp only [LocalBackend.call, Objects.call] at h ⊢
    generalize b.get none key fs = result at h hlocal ⊢
    cases hflat : flat key with
    | some body =>
      rw [hflat] at h
      cases result with
      | ok bytes => exact h
      | error err => cases err <;> exact absurd h (by simp [Reply.plain])
    | none =>
      rw [hflat] at h
      cases result with
      | ok bytes => exact absurd h (by simp [Reply.plain])
      | error err =>
        cases err with
        | notFound text => rw [hlocal text rfl]
        | _ => exact absurd h (by simp [Reply.plain])

/-! ### Lists of calls -/

/-- Call by call, over the history of the calls made so far. -/
theorem plain_replies_eq_flat (hkeeps : s3.store.Keeps objects)
    (hempty : ∀ path, objects s path = none) {calls : List Call}
    (hkeys : ∀ c ∈ calls, validateKey c.key = .ok ()) :
    Runs.replies (fun c s => ((s3.call c s).1.plain, (s3.call c s).2)) calls s =
      Runs.replies (fun c flat => ((Objects.call c flat).1.plain, (Objects.call c flat).2)) calls
        (fun _ => none) := by
  refine (Runs.replies_eq_iff (V := fun c => validateKey c.key = .ok ()) (C := fun _ _ => True)
    (R := fun hist s flat => Holds s3 objects hist s ∧ flat = fun key => lastUnder key hist)
    ?_ ?_ hkeys ⟨holds_empty hempty, rfl⟩).2 fun _ _ _ _ => trivial
  · rintro hist s flat c hkey ⟨hholds, rfl⟩
    exact iff_of_true (hholds.reply hkeeps hkey) trivial
  · rintro hist s flat c hkey ⟨hholds, rfl⟩ -
    exact ⟨hholds.call hkeeps hkey, call_lastUnder c⟩

theorem keeps_sampleStore : sampleStore.Keeps id where
  put path body s _ := by
    refine ⟨rfl, funext fun p => ?_⟩
    rw [Function.update_apply]
    rfl
  get_some path s bytes _ h := by
    have h : s path = some bytes := h
    simp only [sampleStore, h, Option.elim]
  get_none path s _ h := by
    have h : s path = none := h
    exact ⟨_, by simp only [sampleStore, h, Option.elim]; rfl⟩
  delete path s _ := by
    refine ⟨Or.inl rfl, funext fun p => ?_⟩
    rw [Function.update_apply]
    rfl
  head_some path s bytes _ h := by
    have h : s path = some bytes := h
    simp only [sampleStore, h, Option.elim]
  head_none path s _ h := by
    have h : s path = none := h
    exact ⟨_, by simp only [sampleStore, h, Option.elim]; rfl⟩

/-- **Over a bucket that keeps its objects the S3 backend is the flat object store on the accepted
keys: every list of calls gets the same replies, but for the wording of a missing object.** -/
theorem s3_replies_eq_flat (hkeeps : s3.store.Keeps objects) (s : σ)
    (hempty : ∀ path, objects s path = none) (calls : List Call)
    (hkeys : ∀ c ∈ calls, validateKey c.key = .ok ()) :
    (Runs.replies s3.call calls s).map Reply.plain =
      (Runs.replies Objects.call calls (fun _ => none)).map Reply.plain := by
  rw [Runs.map_replies, Runs.map_replies]
  exact plain_replies_eq_flat hkeeps hempty hkeys

theorem s3_replies_eq_flat_nestedCalls :
    (Runs.replies (S3Backend.call ⟨sampleStore⟩) nestedCalls (fun _ => none)).map Reply.plain =
      (Runs.replies Objects.call nestedCalls (fun _ => none)).map Reply.plain :=
  s3_replies_eq_flat keeps_sampleStore (fun _ => none) (fun _ => rfl) nestedCalls
    (by decide)

/-- **From an empty root and an empty bucket, the two backends give the same replies to a list of
calls with keys that can be stored, but for the wording of a missing object, exactly if every call
fits the calls before it in the tree of files.** -/
theorem backends_agree_iff (hkeeps : s3.store.Keeps objects) (s : σ)
    (hempty : ∀ path, objects s path = none) (b : LocalBackend) (fs : FileSystem) (L : Loc)
    (hroot : fs.LeadsTo (parse b.root) L)
    (hbelow : ∀ path, path ≠ [] → fs.node (L ++ path) = none) (calls : List Call)
    (hstorable : ∀ c ∈ calls, Storable b c.key) :
    (Runs.replies b.call calls fs).map Reply.plain =
        (Runs.replies s3.call calls s).map Reply.plain ↔
      ∀ before c after, calls = before ++ c :: after → Fits before c := by
  have hkeys : ∀ c ∈ calls, validateKey c.key = .ok () := fun c hc => (hstorable c hc).valid
  rw [Runs.map_replies, Runs.map_replies, plain_replies_eq_flat hkeeps hempty hkeys]
  refine Runs.replies_eq_iff (V := fun c => validateKey c.key = .ok ()) (C := Fits)
    (R := fun hist fs flat => Represents b L hist fs ∧ flat = fun key => lastUnder key hist)
    ?_ ?_ hkeys ⟨represents_empty hroot hbelow, rfl⟩
  · rintro hist fs flat c hkey ⟨hrep, rfl⟩
    exact (plain_eq_iff b c fs _).trans (hrep.call_iff hkey)
  · rintro hist fs flat c hkey ⟨hrep, rfl⟩ hfits
    exact ⟨hrep.call hkey hfits, call_lastUnder c⟩

theorem backends_agree_iff_fittingCalls :
    (Runs.replies sampleBackend.call fittingCalls sampleTree).map Reply.plain =
        (Runs.replies (S3Backend.call ⟨sampleStore⟩) fittingCalls (fun _ => none)).map
          Reply.plain ∧
      ∀ before c after, fittingCalls = before ++ c :: after → Fits before c := by
  have hreplies : (Runs.replies sampleBackend.call fittingCalls sampleTree).map Reply.plain =
      (Runs.replies (S3Backend.call ⟨sampleStore⟩) fittingCalls (fun _ => none)).map
        Reply.plain := by decide
  refine ⟨hreplies, (backends_agree_iff keeps_sampleStore (fun _ => none) (fun _ => rfl)
    sampleBackend sampleTree _ leadsTo_sampleTree sampleTree_below fittingCalls ?_).1 hreplies⟩
  decide

end Storage

end OaLibs
