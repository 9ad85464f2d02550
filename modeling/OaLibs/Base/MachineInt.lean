import Mathlib.Tactic

/-!
# Signed machine integers with and without overflow checks

A primitive operation on a machine word has an exact integer value and a machine result. They
agree unless the operation overflows; a build with overflow checks then panics, a build without
them goes on with the machine result.

* `OverflowMode`, `outcome`: the two builds, and what an operation yields in each;
* `sub64`, `abs64`, `mul64`, `pow64`, `add32`, `sub32`, `addU32`, `subU32`: the primitive
  operations, with the exact range in which each of them does not overflow;
* `clamp`: a value moved between two bounds, and what an embedding makes of it.
-/

namespace MachineInt

/-- How a build treats a primitive operation that overflows. -/
inductive OverflowMode
  | checked
  | wrapping
  deriving DecidableEq

variable {α : Type}

/-- The outcome of a primitive operation whose exact value is `x` and whose machine result is
`r`; `none` is a panic. -/
def outcome (toInt : α → ℤ) (m : OverflowMode) (x : ℤ) (r : α) : Option α :=
  match m with
  | .wrapping => some r
  | .checked => if toInt r = x then some r else none

@[simp] theorem outcome_wrapping (toInt : α → ℤ) (x : ℤ) (r : α) :
    outcome toInt .wrapping x r = some r := rfl

theorem outcome_of_exact {toInt : α → ℤ} {x : ℤ} {r : α} (h : toInt r = x) (m : OverflowMode) :
    outcome toInt m x r = some r := by
  cases m with
  | checked => exact if_pos h
  | wrapping => rfl

theorem outcome_checked_of_ne {toInt : α → ℤ} {x : ℤ} {r : α} (h : toInt r ≠ x) :
    outcome toInt .checked x r = none := if_neg h

theorem outcome_eq_some {toInt : α → ℤ} {m : OverflowMode} {x : ℤ} {r a : α}
    (h : outcome toInt m x r = some a) : a = r := by
  cases m with
  | wrapping => exact (Option.some.inj h).symm
  | checked =>
    unfold outcome at h
    split_ifs at h
    exact (Option.some.inj h).symm

/-! ### Bounds -/

/-- A value moved between two bounds. -/
def clamp [LT α] [DecidableLT α] (x lo hi : α) : α :=
  if x < lo then lo
  else if hi < x then hi
  else x

theorem clamp_eq [LinearOrder α] {lo hi : α} (h : lo ≤ hi) (x : α) :
    clamp x lo hi = max lo (min x hi) := by
  unfold clamp
  split_ifs with hlo hhi
  · rw [min_eq_left (hlo.le.trans h), max_eq_left hlo.le]
  · rw [min_eq_right hhi.le, max_eq_right h]
  · rw [min_eq_left (not_lt.1 hhi), max_eq_right (not_lt.1 hlo)]

/-- A strictly monotone reading of the machine words commutes with the clamp. -/
theorem map_clamp {β : Type} [LT α] [DecidableLT α] [LT β] [DecidableLT β] {f : α → β}
    (hf : ∀ a b, f a < f b ↔ a < b) (x lo hi : α) :
    f (clamp x lo hi) = clamp (f x) (f lo) (f hi) := by
  unfold clamp
  rw [apply_ite f, apply_ite f]
  simp only [hf]

/-! ### 64-bit operations -/

/-- Subtraction of `i64` values. -/
def sub64 (m : OverflowMode) (a b : Int64) : Option Int64 :=
  outcome Int64.toInt m (a.toInt - b.toInt) (a - b)

/-- Absolute value of an `i64`. -/
def abs64 (m : OverflowMode) (a : Int64) : Option Int64 :=
  outcome Int64.toInt m |a.toInt| a.abs

/-- A result reduced to 64 bits is exact if and only if the exact value fits. -/
theorem toInt_eq_iff64 {r : Int64} {x : ℤ} (h : r.toInt = x.bmod (2 ^ 64)) :
    r.toInt = x ↔ -2 ^ 63 ≤ x ∧ x < 2 ^ 63 := by
  constructor
  · rintro rfl
    exact ⟨r.le_toInt, r.toInt_lt⟩
  · rintro ⟨hl, hu⟩
    rw [h]
    exact Int.bmod_eq_of_le (by omega) (by omega)

theorem toInt_sub_eq_iff (a b : Int64) :
    (a - b).toInt = a.toInt - b.toInt ↔
      -2 ^ 63 ≤ a.toInt - b.toInt ∧ a.toInt - b.toInt < 2 ^ 63 :=
  toInt_eq_iff64 (Int64.toInt_sub a b)

theorem toInt_abs (a : Int64) : a.abs.toInt = if a.toInt = -2 ^ 63 then -2 ^ 63 else |a.toInt| := by
  have hmin : a.toBitVec = BitVec.intMin 64 ↔ a.toInt = -2 ^ 63 := by
    rw [← BitVec.toInt_inj]
    exact Iff.rfl
  show a.toBitVec.abs.toInt = _
  rw [BitVec.toInt_abs_eq_natAbs]
  by_cases h : a.toInt = -2 ^ 63
  · rw [if_pos (hmin.2 h), if_pos h]
    rfl
  · rw [if_neg fun hb => h (hmin.1 hb), if_neg h, Int.abs_eq_natAbs]
    rfl

theorem toInt_abs_eq_iff (a : Int64) : a.abs.toInt = |a.toInt| ↔ a.toInt ≠ -2 ^ 63 := by
  rw [toInt_abs]
  split_ifs with h
  · simp [h]
  · exact ⟨fun _ => h, fun _ => rfl⟩

/-- Multiplication of `i64` values. -/
def mul64 (m : OverflowMode) (a b : Int64) : Option Int64 :=
  outcome Int64.toInt m (a.toInt * b.toInt) (a * b)

/-- A power of an `i64`. -/
def pow64 (m : OverflowMode) (a : Int64) (n : UInt32) : Option Int64 :=
  outcome Int64.toInt m (a.toInt ^ n.toNat) (a ^ n.toNat)

/-- A `u32` as an `i64`. -/
def fromU32 (a : UInt32) : Int64 := Int64.ofNat a.toNat

@[simp] theorem toInt_fromU32 (a : UInt32) : (fromU32 a).toInt = a.toNat := by
  have ha := a.toNat_lt
  exact Int64.toInt_ofNat_of_lt (by omega)

theorem toInt_mul64_eq_iff (a b : Int64) :
    (a * b).toInt = a.toInt * b.toInt ↔
      -2 ^ 63 ≤ a.toInt * b.toInt ∧ a.toInt * b.toInt < 2 ^ 63 :=
  toInt_eq_iff64 (Int64.toInt_mul a b)

theorem toInt_pow (a : Int64) (n : ℕ) : (a ^ n).toInt = (a.toInt ^ n).bmod (2 ^ 64) := by
  induction n with
  | zero =>
    rw [Int64.pow_zero, pow_zero]
    rfl
  | succ n ih => rw [Int64.pow_succ, Int64.toInt_mul, ih, Int.bmod_mul_bmod, pow_succ a.toInt n]

theorem toInt_pow64_eq_iff (a : Int64) (n : ℕ) :
    (a ^ n).toInt = a.toInt ^ n ↔ -2 ^ 63 ≤ a.toInt ^ n ∧ a.toInt ^ n < 2 ^ 63 :=
  toInt_eq_iff64 (toInt_pow a n)

theorem toInt_min64 (a b : Int64) : (min a b).toInt = min a.toInt b.toInt := by
  show (if a ≤ b then a else b).toInt = _
  rw [apply_ite Int64.toInt, min_def]
  simp only [Int64.le_iff_toInt_le]

/-! ### 32-bit operations -/

/-- Addition of `i32` values. -/
def add32 (m : OverflowMode) (a b : Int32) : Option Int32 :=
  outcome Int32.toInt m (a.toInt + b.toInt) (a + b)

/-- Subtraction of `i32` values. -/
def sub32 (m : OverflowMode) (a b : Int32) : Option Int32 :=
  outcome Int32.toInt m (a.toInt - b.toInt) (a - b)

/-- Addition of `u32` values. -/
def addU32 (m : OverflowMode) (a b : UInt32) : Option UInt32 :=
  outcome (fun r => (r.toNat : ℤ)) m (a.toNat + b.toNat) (a + b)

/-- Subtraction of `u32` values. -/
def subU32 (m : OverflowMode) (a b : UInt32) : Option UInt32 :=
  outcome (fun r => (r.toNat : ℤ)) m (a.toNat - b.toNat) (a - b)

/-- A result reduced to 32 bits is exact if and only if the exact value fits. -/
theorem toInt_eq_iff32 {r : Int32} {x : ℤ} (h : r.toInt = x.bmod (2 ^ 32)) :
    r.toInt = x ↔ -2 ^ 31 ≤ x ∧ x < 2 ^ 31 := by
  constructor
  · rintro rfl
    exact ⟨r.le_toInt, r.toInt_lt⟩
  · rintro ⟨hl, hu⟩
    rw [h]
    exact Int.bmod_eq_of_le (by omega) (by omega)

theorem toInt_add32_eq_iff (a b : Int32) :
    (a + b).toInt = a.toInt + b.toInt ↔
      -2 ^ 31 ≤ a.toInt + b.toInt ∧ a.toInt + b.toInt < 2 ^ 31 :=
  toInt_eq_iff32 (Int32.toInt_add a b)

theorem toInt_sub32_eq_iff (a b : Int32) :
    (a - b).toInt = a.toInt - b.toInt ↔
      -2 ^ 31 ≤ a.toInt - b.toInt ∧ a.toInt - b.toInt < 2 ^ 31 :=
  toInt_eq_iff32 (Int32.toInt_sub a b)

theorem toInt_succ_of_lt {a : Int32} (h : a.toInt < 2 ^ 31 - 1) : (a + 1).toInt = a.toInt + 1 := by
  have hone : (1 : Int32).toInt = 1 := rfl
  have hle := a.le_toInt
  exact (toInt_add32_eq_iff a 1).2 (by omega)

theorem toInt_pred_of_gt {a : Int32} (h : -2 ^ 31 < a.toInt) : (a - 1).toInt = a.toInt - 1 := by
  have hone : (1 : Int32).toInt = 1 := rfl
  have hlt := a.toInt_lt
  exact (toInt_sub32_eq_iff a 1).2 (by omega)

/-- The successor decides the number, as long as it is not past the last one. -/
theorem eq_of_toInt_succ {a b : Int32} (h : (a + 1).toInt = b.toInt + 1) :
    b = a ∧ a.toInt < 2 ^ 31 - 1 := by
  have hlt := (a + 1).toInt_lt
  -- Only the last number has a successor that is smaller, and it is not the successor of `a`.
  have hb : (b + 1).toInt = b.toInt + 1 := toInt_succ_of_lt (by omega)
  have hba : b = a := by
    have hsucc : b + 1 = a + 1 := Int32.toInt_inj.1 (hb.trans h.symm)
    calc b = b + 1 - 1 := (Int32.add_sub_cancel b 1).symm
      _ = a + 1 - 1 := by rw [hsucc]
      _ = a := Int32.add_sub_cancel a 1
  exact ⟨hba, by rw [← hba]; omega⟩

theorem toNat_addU32_eq_iff (a b : UInt32) :
    ((a + b).toNat : ℤ) = a.toNat + b.toNat ↔ a.toNat + b.toNat < 2 ^ 32 := by
  have ha := a.toNat_lt
  have hb := b.toNat_lt
  rw [UInt32.toNat_add]
  omega

theorem toNat_subU32_eq_iff (a b : UInt32) :
    ((a - b).toNat : ℤ) = a.toNat - b.toNat ↔ b.toNat ≤ a.toNat := by
  have ha := a.toNat_lt
  have hb := b.toNat_lt
  rw [UInt32.toNat_sub]
  omega

theorem toInt_clamp32 (x lo hi : Int32) :
    (clamp x lo hi).toInt = clamp x.toInt lo.toInt hi.toInt :=
  map_clamp (fun _ _ => Int32.lt_iff_toInt_lt.symm) x lo hi

theorem toNat_clampU32 (x lo hi : UInt32) :
    (clamp x lo hi).toNat = clamp x.toNat lo.toNat hi.toNat :=
  map_clamp (fun _ _ => UInt32.lt_iff_toNat_lt.symm) x lo hi

/-- A non-negative `i32` keeps its value as a `u32`. -/
theorem toNat_toUInt32 {a : Int32} (h : 0 ≤ a.toInt) : (a.toUInt32.toNat : ℤ) = a.toInt := by
  have hlt := a.toUInt32.toNat_lt
  have hcond : a.toInt = if 2 * a.toUInt32.toNat < 2 ^ 32 then (a.toUInt32.toNat : ℤ)
      else a.toUInt32.toNat - 2 ^ 32 := BitVec.toInt_eq_toNat_cond a.toBitVec
  rw [hcond] at h ⊢
  split_ifs at h ⊢ with hneg
  · rfl
  · omega

theorem addU32_of_lt {a b : UInt32} (h : a.toNat + b.toNat < 2 ^ 32) (m : OverflowMode) :
    addU32 m a b = some (a + b) :=
  @outcome_of_exact UInt32 (fun r => r.toNat) _ _ ((toNat_addU32_eq_iff a b).2 h) m

theorem subU32_of_le {a b : UInt32} (h : b.toNat ≤ a.toNat) (m : OverflowMode) :
    subU32 m a b = some (a - b) :=
  @outcome_of_exact UInt32 (fun r => r.toNat) _ _ ((toNat_subU32_eq_iff a b).2 h) m

theorem addU32_eq_none {m : OverflowMode} {a b : UInt32} (h : addU32 m a b = none) :
    ¬ a.toNat + b.toNat < 2 ^ 32 := by
  intro hlt
  rw [addU32_of_lt hlt m] at h
  cases h

end MachineInt
