import Mathlib.Data.Prod.Lex
import Mathlib.Order.Lattice
import Mathlib.Tactic

/-!
# Points in time

A point in time is a second, counted from 1970 on, and a part of a second in nanoseconds, which is
a second or more during a leap second. Points are ordered by their seconds and then by the part.
-/

/-- A point in time, as `chrono` keeps it. -/
@[ext]
structure DateTime where
  secs : ℤ
  nanos : ℕ
  nanos_lt : nanos < 2000000000

namespace DateTime

/-- The Unix second, without the part of a second. -/
def timestamp (t : DateTime) : ℤ := t.secs

/-- The start of a second. -/
def fromTimestamp (secs : ℤ) : DateTime := ⟨secs, 0, by decide⟩

@[simp] theorem timestamp_fromTimestamp (secs : ℤ) : (fromTimestamp secs).timestamp = secs := rfl

theorem toLex_injective :
    Function.Injective fun t : DateTime => toLex (t.secs, t.nanos) := by
  intro a b h
  obtain ⟨hsecs, hnanos⟩ := Prod.mk.inj (toLex.injective h)
  exact DateTime.ext hsecs hnanos

instance : LinearOrder DateTime := LinearOrder.lift' _ toLex_injective

theorem le_iff {a b : DateTime} :
    a ≤ b ↔ a.secs < b.secs ∨ a.secs = b.secs ∧ a.nanos ≤ b.nanos :=
  Prod.Lex.toLex_le_toLex

/-- The start of its second is not after a point. -/
theorem fromTimestamp_le (t : DateTime) : fromTimestamp t.timestamp ≤ t :=
  le_iff.2 (Or.inr ⟨rfl, Nat.zero_le _⟩)

/-- Cutting the part of a second off makes a difference within that second only. -/
theorem le_fromTimestamp_iff {now t : DateTime} (h : t.nanos = 0 ∨ now.timestamp ≠ t.timestamp) :
    now ≤ fromTimestamp t.timestamp ↔ now ≤ t := by
  rw [le_iff, le_iff]
  rcases h with h | h
  · rw [h]
    rfl
  · exact or_congr_right (iff_of_false (fun hand => h hand.1) fun hand => h hand.1)

end DateTime
