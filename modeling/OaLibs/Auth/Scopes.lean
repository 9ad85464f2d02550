import OaLibs.Auth.Extract

/-!
# Scopes

What an `AuthUser` asks of the claims, and what the scopes of a token grant. Module scopes and
resource scopes stand in one list of texts and are told apart by the colon of a resource scope.

* `require`: the questions of `AuthUser`, each answered with an error of its own;
* `resourceScope_inj`: a resource scope is read from the left, where the kind has no colon;
* `scopes_apart`: grants of one sort are never taken for grants of the other.
-/

namespace OaLibs

namespace Extract

/-- A requirement of a handler. -/
def require (holds : Bool) (code detail : String) : Except AppError Unit :=
  if holds then .ok () else .error (.forbidden code detail)

def requireRole (claims : Claims) (role : String) : Except AppError Unit :=
  require (claims.hasRole role) "AUTH_FORBIDDEN" "权限不足"

def requireAdmin (claims : Claims) : Except AppError Unit :=
  require claims.isAdmin "AUTH_FORBIDDEN" "需要管理员权限"

def requireScope (claims : Claims) (scope : String) : Except AppError Unit :=
  require (claims.hasScope scope) "AUTH_SCOPE_DENIED" "缺少模块访问权限"

def requireResourceScope (claims : Claims) (kind id : String) : Except AppError Unit :=
  require (claims.hasResourceScope kind id) "AUTH_SCOPE_DENIED" "缺少资源访问权限"

theorem require_ok_iff {holds : Bool} {code detail : String} :
    require holds code detail = .ok () ↔ holds = true := by
  cases holds <;> simp [require]

end Extract

namespace Claims

variable {c : Claims} {kind kind' id id' m : String}

theorem hasScope_iff : c.hasScope m = true ↔ m ∈ c.scopes := by
  simp [hasScope]

theorem hasResourceScope_iff :
    c.hasResourceScope kind id = true ↔ kind ++ ":" ++ id ∈ c.scopes := by
  simp [hasResourceScope]

theorem resourceScope_toList (kind id : String) :
    (kind ++ ":" ++ id).toList = kind.toList ++ ':' :: id.toList := by
  simp

theorem colon_mem_resourceScope (kind id : String) : ':' ∈ (kind ++ ":" ++ id).toList := by
  rw [resourceScope_toList]
  exact List.mem_append_right _ List.mem_cons_self

/-- The first colon ends the kind, whatever the id is. -/
theorem resourceScope_inj (hkind : ':' ∉ kind.toList) (hkind' : ':' ∉ kind'.toList) :
    kind ++ ":" ++ id = kind' ++ ":" ++ id' ↔ kind = kind' ∧ id = id' := by
  constructor
  · intro h
    have hl := congrArg (fun s => s.toList.reverse) h
    simp only [resourceScope_toList, List.reverse_append, List.reverse_cons, List.append_assoc,
      List.singleton_append] at hl
    obtain ⟨hid, hkinds⟩ :=
      Text.append_sep_inj (by simpa using hkind) (by simpa using hkind') hl
    exact ⟨String.toList_inj.1 (List.reverse_injective hkinds),
      String.toList_inj.1 (List.reverse_injective hid)⟩
  · rintro ⟨rfl, rfl⟩
    rfl

/-- The scopes are those of some modules and some resources, in any order and number. -/
def ScopesAre (c : Claims) (modules : Set String) (resources : Set (String × String)) : Prop :=
  ∀ s, s ∈ c.scopes ↔ s ∈ modules ∨ ∃ r ∈ resources, s = r.1 ++ ":" ++ r.2

section

variable {modules : Set String} {resources : Set (String × String)}
  (hscopes : c.ScopesAre modules resources)

include hscopes

theorem ScopesAre.hasScope_iff (hm : ':' ∉ m.toList) : c.hasScope m = true ↔ m ∈ modules := by
  rw [Claims.hasScope_iff, hscopes]
  refine or_iff_left ?_
  rintro ⟨r, -, rfl⟩
  exact hm (colon_mem_resourceScope r.1 r.2)

theorem ScopesAre.hasResourceScope_iff (hmodules : ∀ m ∈ modules, ':' ∉ m.toList)
    (hkinds : ∀ r ∈ resources, ':' ∉ r.1.toList) (hkind : ':' ∉ kind.toList) :
    c.hasResourceScope kind id = true ↔ (kind, id) ∈ resources := by
  rw [Claims.hasResourceScope_iff, hscopes]
  constructor
  · rintro (hmem | ⟨r, hr, heq⟩)
    · exact absurd (colon_mem_resourceScope kind id) (hmodules _ hmem)
    · obtain ⟨rfl, rfl⟩ := (resourceScope_inj hkind (hkinds r hr)).1 heq
      exact hr
  · intro hmem
    exact Or.inr ⟨(kind, id), hmem, rfl⟩

end

/-- **Module scopes and resource scopes never stand in for each other.** A token whose scopes are
one resource grant opens that resource only, and no module. -/
theorem scopes_apart (c : Claims) (modules : Set String) (resources : Set (String × String))
    (hmodules : ∀ m ∈ modules, ':' ∉ m.toList) (hkinds : ∀ r ∈ resources, ':' ∉ r.1.toList)
    (hscopes : c.ScopesAre modules resources) :
    (∀ m, ':' ∉ m.toList → (c.hasScope m = true ↔ m ∈ modules)) ∧
    (∀ kind id, ':' ∉ kind.toList →
      (c.hasResourceScope kind id = true ↔ (kind, id) ∈ resources)) ∧
    (∀ kind id, modules = ∅ → resources = {(kind, id)} →
      (∀ kind' id', ':' ∉ kind'.toList →
        (Extract.requireResourceScope c kind' id' = .ok () ↔ kind' = kind ∧ id' = id)) ∧
      ∀ m, ':' ∉ m.toList → Extract.requireScope c m ≠ .ok ()) := by
  refine ⟨fun m => hscopes.hasScope_iff,
    fun kind id => hscopes.hasResourceScope_iff hmodules hkinds, ?_⟩
  rintro kind id rfl rfl
  constructor
  · intro kind' id' hkind'
    unfold Extract.requireResourceScope
    rw [Extract.require_ok_iff, hscopes.hasResourceScope_iff hmodules hkinds hkind',
      Set.mem_singleton_iff, Prod.mk.injEq]
  · intro m hm
    unfold Extract.requireScope
    rw [Ne, Extract.require_ok_iff, hscopes.hasScope_iff hm]
    exact Set.notMem_empty m

/-- A guest with one grant, for a meeting whose id has a colon in it. -/
def sampleGuest : Claims where
  sub := "guest:g1"
  name := "guest"
  avatar := none
  roles := []
  scopes := ["meeting:2024:a", "meeting:2024:a"]
  guest := true
  accountType := none
  botPermissions := none
  iss := "https://oa.test"
  iat := 100
  exp := 200
  jti := "j1"

theorem scopes_apart_sampleGuest :
    Extract.requireResourceScope sampleGuest "meeting" "2024:a" = .ok () ∧
      Extract.requireScope sampleGuest "meeting" ≠ .ok () := by
  have hapart := scopes_apart sampleGuest ∅ {("meeting", "2024:a")} (by simp)
    (by
      rintro r rfl
      decide)
    (by
      intro s
      simp [sampleGuest])
  obtain ⟨hresource, hmodule⟩ := hapart.2.2 "meeting" "2024:a" rfl rfl
  exact ⟨(hresource "meeting" "2024:a" (by decide)).2 ⟨rfl, rfl⟩, hmodule "meeting" (by decide)⟩

end Claims

end OaLibs
