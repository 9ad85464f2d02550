import Mathlib

/-!
# Percent-encoding

A byte of a set is written as `%` and two hexadecimal digits, any other byte as itself.

* `EncodeSet`: the sets of bytes to be encoded that have `%` in them; `encode` is the encoding;
* `Encoded`: the texts in which some bytes, but at least every `%`, have been encoded;
* `Encoded.unique`: such a text has been written for one sequence of bytes only, whatever the set
  was.
-/

namespace Percent

def percent : UInt8 := 37

/-- The bytes that are encoded. -/
structure EncodeSet where
  contains : UInt8 → Bool
  percent : contains percent = true

/-- An upper-case hexadecimal digit. -/
def hexDigit (n : ℕ) : UInt8 := UInt8.ofNat (if n < 10 then 48 + n else 55 + n)

/-- A byte as `%` and two digits. -/
def escape (b : UInt8) : List UInt8 := [percent, hexDigit (b.toNat / 16), hexDigit (b.toNat % 16)]

/-- The encoding of a byte; a byte outside ASCII is always encoded. -/
def encodeByte (set : EncodeSet) (b : UInt8) : List UInt8 :=
  if 128 ≤ b.toNat || set.contains b then escape b else [b]

def encode (set : EncodeSet) (bs : List UInt8) : List UInt8 := bs.flatMap (encodeByte set)

/-- Some of the bytes have been encoded, and each `%` was. -/
inductive Encoded : List UInt8 → List UInt8 → Prop
  | nil : Encoded [] []
  | escaped {b : UInt8} {bs out : List UInt8} (h : Encoded bs out) :
      Encoded (b :: bs) (escape b ++ out)
  | plain {b : UInt8} {bs out : List UInt8} (hb : b ≠ percent) (h : Encoded bs out) :
      Encoded (b :: bs) (b :: out)

theorem hexDigit_injective {m n : ℕ} (hm : m < 16) (hn : n < 16) (h : hexDigit m = hexDigit n) :
    m = n := by
  have hall : ∀ m < 16, ∀ n < 16, hexDigit m = hexDigit n → m = n := by decide
  exact hall m hm n hn h

theorem escape_injective : Function.Injective escape := by
  intro b c h
  have hb := b.toNat_lt
  have hc := c.toNat_lt
  simp only [escape, List.cons.injEq, and_true, true_and] at h
  have hhigh := hexDigit_injective (by omega) (by omega) h.1
  have hlow := hexDigit_injective (by omega) (by omega) h.2
  exact UInt8.toNat_inj.1 (by omega)

/-- What a text that starts like this was written for. -/
theorem Encoded.inv {cs out : List UInt8} (h : Encoded cs out) :
    (cs = [] ∧ out = []) ∨
      (∃ c cs' out', cs = c :: cs' ∧ out = escape c ++ out' ∧ Encoded cs' out') ∨
      ∃ c cs' out', cs = c :: cs' ∧ c ≠ percent ∧ out = c :: out' ∧ Encoded cs' out' := by
  cases h with
  | nil => exact .inl ⟨rfl, rfl⟩
  | escaped h => exact .inr (.inl ⟨_, _, _, rfl, rfl, h⟩)
  | plain hb h => exact .inr (.inr ⟨_, _, _, rfl, hb, rfl, h⟩)

/-- Nothing else has the same encoding. -/
theorem Encoded.unique {bs cs out : List UInt8} (h : Encoded bs out) (h' : Encoded cs out) :
    bs = cs := by
  induction h generalizing cs with
  | nil =>
    cases h'
    rfl
  | @escaped b bs out h ih =>
    rcases h'.inv with ⟨-, hout⟩ | ⟨c, cs', out', rfl, hout, h'⟩ | ⟨c, cs', out', rfl, hc, hout, h'⟩
    · cases hout
    · obtain ⟨hescape, rfl⟩ := List.append_inj hout rfl
      rw [escape_injective hescape, ih h']
    · exact absurd (List.cons.inj hout).1.symm hc
  | @plain b bs out hb h ih =>
    rcases h'.inv with ⟨-, hout⟩ | ⟨c, cs', out', rfl, hout, h'⟩ | ⟨c, cs', out', rfl, hc, hout, h'⟩
    · cases hout
    · exact absurd (List.cons.inj hout).1 hb
    · obtain ⟨rfl, rfl⟩ := List.cons.inj hout
      rw [ih h']

theorem encoded_encode (set : EncodeSet) (bs : List UInt8) : Encoded bs (encode set bs) := by
  induction bs with
  | nil => exact .nil
  | cons b bs ih =>
    rw [encode, List.flatMap_cons, encodeByte]
    split_ifs with hb
    · exact .escaped ih
    · refine .plain ?_ ih
      rintro rfl
      exact hb (by simp [set.percent])

theorem encoded_escape (bs : List UInt8) : Encoded bs (bs.flatMap escape) := by
  induction bs with
  | nil => exact .nil
  | cons b bs ih => exact .escaped ih

/-- The bytes of an encoding: `%`, digits and letters, and bytes that are not encoded. -/
theorem mem_encode {set : EncodeSet} {bs : List UInt8} {d : UInt8} (h : d ∈ encode set bs) :
    d = percent ∨ 48 ≤ d.toNat ∨ set.contains d = false := by
  obtain ⟨b, -, hd⟩ := List.mem_flatMap.1 h
  unfold encodeByte at hd
  split_ifs at hd with hb
  · have hdigit : ∀ n < 16, 48 ≤ (hexDigit n).toNat := by decide
    have hlt := b.toNat_lt
    simp only [escape, List.mem_cons, List.not_mem_nil, or_false] at hd
    rcases hd with rfl | rfl | rfl
    · exact .inl rfl
    · exact .inr (.inl (hdigit _ (by omega)))
    · exact .inr (.inl (hdigit _ (by omega)))
  · obtain rfl := List.mem_singleton.1 hd
    rw [Bool.or_eq_true, not_or] at hb
    exact .inr (.inr (by simpa using hb.2))

end Percent
