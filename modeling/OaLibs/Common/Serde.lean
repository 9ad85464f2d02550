import OaLibs.Common.Json

/-!
# Derived readers and writers of records

What `#[derive(Serialize, Deserialize)]` generates for the fields of a struct. A record is written
as an object with one member for each field; an optional field may be skipped. It is read back from
an object, whose members may stand in any order, or from an array with the fields in their order.

* `i64`, `unsigned`, `vec`, `optional`: writers; `asI64`, `asUnsigned`, `asVec`, `asOption`: the
  readers that undo them;
* `member`: the field of a name in an object; a name that occurs twice is an error;
* `element`: the next field of an array;
* `member_perm`: the order of the members does not matter;
* `Writes`: a text that may also hold members which no field reads.
-/

namespace OaLibs

namespace Serde

variable {α : Type}

/-! ### Values -/

/-- An `i64` is written as a `u64` unless it is negative. -/
def i64 (n : Int64) : Json :=
  .number (if n.toInt < 0 then .negInt n else .posInt n.toUInt64)

/-- An `i64` is not read from a float, nor from a `u64` that is too large. -/
def asI64 : Json → Option Int64
  | .number (.posInt n) => if n.toNat < 2 ^ 63 then some n.toInt64 else none
  | .number (.negInt n) => some n
  | _ => none

/-- An unsigned number of at most 64 bits. -/
def unsigned (n : ℕ) : Json := .number (.posInt (UInt64.ofNat n))

/-- An unsigned number of so many bits; a float is refused, and a number that is too large. -/
def asUnsigned (bits : ℕ) : Json → Option ℕ
  | .number (.posInt n) => if n.toNat < 2 ^ bits then some n.toNat else none
  | .number (.negInt n) =>
      if 0 ≤ n.toInt ∧ n.toInt < 2 ^ bits then some n.toInt.toNat else none
  | _ => none

def vec (write : α → Json) (elems : List α) : Json := .array (elems.map write)

def asVec (read : Json → Option α) : Json → Option (List α)
  | .array elems => elems.mapM read
  | _ => none

/-- `null` is `None`, and any other value is `Some`. -/
def asOption (read : Json → Option α) : Json → Option (Option α)
  | .null => some none
  | v => (read v).map some

/-- A word that is not negative is the same number without its sign. -/
theorem toNat_toUInt64 {n : Int64} (h : 0 ≤ n.toInt) : (n.toUInt64.toNat : ℤ) = n.toInt := by
  have hlt := n.toBitVec.isLt
  show (n.toBitVec.toNat : ℤ) = n.toBitVec.toInt
  change 0 ≤ n.toBitVec.toInt at h
  rw [BitVec.toInt_eq_toNat_cond] at h ⊢
  split_ifs at h ⊢ <;> omega

@[simp] theorem asI64_i64 (n : Int64) : asI64 (i64 n) = some n := by
  unfold i64
  split_ifs with h
  · rfl
  · have hnat := toNat_toUInt64 (not_lt.1 h)
    have hlt := n.toInt_lt
    rw [asI64, if_pos (by omega)]
    rfl

theorem asUnsigned_unsigned {bits n : ℕ} (hbits : bits ≤ 64) (h : n < 2 ^ bits) :
    asUnsigned bits (unsigned n) = some n := by
  have hpow : 2 ^ bits ≤ 2 ^ 64 := Nat.pow_le_pow_right (by decide) hbits
  have hnat : (UInt64.ofNat n).toNat = n := UInt64.toNat_ofNat_of_lt' (h.trans_le hpow)
  rw [unsigned, asUnsigned, hnat, if_pos h]

/-- An array is read back if each of its elements is. -/
theorem asVec_vec {write : α → Json} {read : Json → Option α}
    (h : ∀ a, read (write a) = some a) (elems : List α) :
    asVec read (vec write elems) = some elems := by
  have hread : read ∘ write = some := funext h
  rw [vec, asVec, List.mapM_map, hread]
  induction elems with
  | nil => rfl
  | cons a elems ih => rw [List.mapM_cons, ih]; rfl

/-- An array is read if each of its elements is. -/
theorem asVec_of_forall₂ {read : Json → Option α} {elems : List α} {vs : List Json}
    (h : List.Forall₂ (fun a v => read v = some a) elems vs) :
    asVec read (.array vs) = some elems := by
  rw [asVec]
  induction h with
  | nil => rfl
  | cons hread _ ih => rw [List.mapM_cons, hread, ih]; rfl

@[simp] theorem asVec_string (elems : List String) :
    asVec Json.asStr (vec Json.string elems) = some elems :=
  @asVec_vec String Json.string Json.asStr (fun _ => rfl) elems

/-! ### Members -/

/-- A field that is skipped when it is `None`. -/
def optional (name : String) (write : α → Json) (a : Option α) : List (String × Json) :=
  a.toList.map fun a => (name, write a)

/-- The values under a name. -/
def entries (name : String) (members : List (String × Json)) : List Json :=
  (members.filter fun kv => kv.1 == name).map Prod.snd

/-- The field of a name. `absent` is what stands for a member that is not there, if it may be
missing. -/
def member (name : String) (read : Json → Option α) (absent : Option α)
    (members : List (String × Json)) : Option α :=
  match entries name members with
  | [] => absent
  | [v] => read v
  | _ => none

/-- The next field of an array; `absent` is as for `member`. -/
def element (read : Json → Option α) (absent : Option α) : List Json → Option (α × List Json)
  | [] => absent.map fun a => (a, [])
  | v :: elems => (read v).map fun a => (a, elems)

section

variable (name : String)

@[simp] theorem entries_nil : entries name [] = [] := rfl

@[simp] theorem entries_cons (kv : String × Json) (members : List (String × Json)) :
    entries name (kv :: members) =
      if kv.1 = name then kv.2 :: entries name members else entries name members := by
  unfold entries
  rw [List.filter_cons]
  by_cases h : kv.1 = name <;> simp [h]

@[simp] theorem entries_append (members members' : List (String × Json)) :
    entries name (members ++ members') = entries name members ++ entries name members' := by
  simp [entries]

@[simp] theorem entries_optional (field : String) (write : α → Json) (a : Option α) :
    entries name (optional field write a) =
      if field = name then a.toList.map write else [] := by
  cases a with
  | none => simp [optional]
  | some a => simp [optional]

end

/-- A member of another name is not found in an optional field. -/
theorem lookup_optional {name field : String} (h : name ≠ field) (write : α → Json) (a : Option α) :
    (optional field write a).lookup name = none := by
  cases a with
  | none => rfl
  | some a =>
    show [(field, write a)].lookup name = none
    rw [List.lookup_cons, beq_false_of_ne h]
    rfl

/-- Members may be written in any order. -/
theorem member_perm {members members' : List (String × Json)} (h : members.Perm members')
    (name : String) (read : Json → Option α) (absent : Option α) :
    member name read absent members = member name read absent members' := by
  have hperm : (entries name members).Perm (entries name members') := (h.filter _).map _
  unfold member
  generalize entries name members = vs at hperm
  generalize entries name members' = ws at hperm
  rcases vs with - | ⟨v, - | ⟨v', vs⟩⟩
  · rw [hperm.nil_eq]
  · rw [List.singleton_perm.1 hperm]
  · rcases ws with - | ⟨w, - | ⟨w', ws⟩⟩
    · cases hperm.length_eq
    · cases hperm.length_eq
    · rfl

/-- An object with these members in any order. It may hold others besides, under names that are not
among `fields`. -/
def Writes (fields : List String) (members : List (String × Json)) (v : Json) : Prop :=
  ∃ ms others, v = .object ms ∧ ms.Perm (members ++ others) ∧ ∀ kv ∈ others, kv.1 ∉ fields

theorem writes_object (fields : List String) (members : List (String × Json)) :
    Writes fields members (.object members) :=
  ⟨members, [], rfl, by rw [List.append_nil], fun _ h => absurd h List.not_mem_nil⟩

theorem entries_eq_nil {name : String} {members : List (String × Json)}
    (h : ∀ kv ∈ members, kv.1 ≠ name) : entries name members = [] := by
  have hnone : (members.filter fun kv => kv.1 == name) = [] := by
    rw [List.filter_eq_nil_iff]
    intro kv hkv
    simp [h kv hkv]
  rw [entries, hnone, List.map_nil]

/-- A field is read as if its object held no other members. -/
theorem Writes.member_eq {fields : List String} {members : List (String × Json)} {v : Json}
    (h : Writes fields members v) :
    ∃ ms, v = .object ms ∧ ∀ {β : Type} (name : String) (read : Json → Option β)
      (absent : Option β), name ∈ fields →
        member name read absent ms = member name read absent members := by
  obtain ⟨ms, others, rfl, hperm, hothers⟩ := h
  refine ⟨ms, rfl, fun name read absent hname => ?_⟩
  have hnil : entries name others = [] := by
    refine entries_eq_nil fun kv hkv heq => hothers kv hkv ?_
    rw [heq]
    exact hname
  rw [member_perm hperm, member, member, entries_append, hnil, List.append_nil]

end Serde

end OaLibs
