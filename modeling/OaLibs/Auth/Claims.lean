import OaLibs.Common.Json

/-!
# Access-token claims

`claims.rs`: the payload of an access token and the permission questions it answers. A human
account may use every module; a bot account only what its permission matrix grants.
-/

namespace OaLibs

/-- The payload of an access token. -/
structure Claims where
  sub : String
  name : String
  avatar : Option String
  roles : List String
  scopes : List String
  guest : Bool
  accountType : Option String
  botPermissions : Option Json
  iss : String
  iat : Int64
  exp : Int64
  jti : String

namespace Claims

def hasRole (c : Claims) (role : String) : Bool := c.roles.any (· == role)

def isAdmin (c : Claims) : Bool := c.hasRole "admin" || c.hasRole "superadmin"

/-- A module scope, such as `im`. -/
def hasScope (c : Claims) (scope : String) : Bool := c.scopes.any (· == scope)

/-- A resource scope, rendered as the kind, a colon and the id. -/
def hasResourceScope (c : Claims) (kind id : String) : Bool :=
  let expected := kind ++ ":" ++ id
  c.scopes.any (· == expected)

def isBot (c : Claims) : Bool := c.accountType == some "bot"

/-- Whether an operation on a module is allowed. -/
def allowModule (c : Claims) (module : String) (write : Bool) : Bool :=
  if !c.isBot then true
  else match c.botPermissions.bind (Json.get module) with
    | none => false
    | some matrix =>
      let key := if write then "write" else "read"
      ((matrix.get key).bind Json.asBool).getD false

/-- The permission matrix grants `key` on a module: the entry of the module is an object with the
JSON boolean `true` under `key`. -/
def Grants (c : Claims) (module key : String) : Prop :=
  ∃ matrix entry, c.botPermissions = some (.object matrix) ∧
    matrix.lookup module = some (.object entry) ∧ entry.lookup key = some (.bool true)

theorem isBot_eq_false_iff (c : Claims) : c.isBot = false ↔ c.accountType ≠ some "bot" := by
  simp [isBot]

/-- A bot is allowed exactly what its matrix grants; any other shape of the matrix denies. -/
theorem allowModule_iff (c : Claims) (module : String) (write : Bool) :
    c.allowModule module write = true ↔
      c.isBot = false ∨ c.Grants module (if write then "write" else "read") := by
  unfold allowModule
  cases hbot : c.isBot with
  | false => simp
  | true =>
    simp only [Bool.not_true, Bool.false_eq_true, if_false, false_or, reduceCtorEq]
    constructor
    · intro h
      cases hmod : c.botPermissions.bind (Json.get module) with
      | none => simp [hmod] at h
      | some entry =>
        obtain ⟨perms, hperms, hget⟩ := Option.bind_eq_some_iff.1 hmod
        obtain ⟨matrix, rfl, hlookup⟩ := Json.get_eq_some_iff.1 hget
        rw [hmod] at h
        rcases Option.getD_eq_iff.1 h with h | ⟨-, h⟩
        · obtain ⟨v, hv, hbool⟩ := Option.bind_eq_some_iff.1 h
          obtain ⟨members, rfl, hkey⟩ := Json.get_eq_some_iff.1 hv
          rw [Json.asBool_eq_some_iff.1 hbool] at hkey
          exact ⟨matrix, members, hperms, hlookup, hkey⟩
        · cases h
    · rintro ⟨matrix, entry, hperms, hlookup, hkey⟩
      simp [hperms, Json.get, hlookup, hkey, Json.asBool]

end Claims

end OaLibs
