import Mathlib.Tactic

/-!
# Slices of one length

A list is cut into slices of `s` elements: the `k`-th slice skips `k * s` elements and takes the
next `s`.

* `flatten_slices`, `flatten_fetched`: the first `n` slices, one after another, are a front part
  of the list;
* `mem_slice_zipIdx_iff`: an element of the list is in exactly one slice, that of its index
  divided by `s`;
* `Greatest`: the first `n` elements of a list that is sorted by a key, with no more said about
  elements of one key; `Greatest.eq_take_reverse` is the case in which the keys ascend.
-/

namespace Slices

variable {α β : Type*}

/-- The `k`-th slice of `s` elements. -/
def slice (s k : ℕ) (xs : List α) : List α := (xs.drop (k * s)).take s

theorem map_slice (f : α → β) (s k : ℕ) (xs : List α) :
    (slice s k xs).map f = slice s k (xs.map f) := by
  rw [slice, List.map_take, List.map_drop, slice]

/-- The first `n` slices, one after another. -/
theorem flatten_slices (s n : ℕ) (xs : List α) :
    ((List.range n).map fun k => slice s k xs).flatten = xs.take (n * s) := by
  induction n with
  | zero => simp
  | succ n ih =>
    -- the next slice starts where the ones before it end
    have hnext : xs.take ((n + 1) * s) = xs.take (n * s) ++ slice s n xs := by
      rw [Nat.succ_mul, List.take_add, slice]
    rw [List.range_succ, List.map_append, List.flatten_append, ih, List.map_singleton,
      List.flatten_singleton, hnext]

/-- The first `n` slices, if each of them is fetched on its own. -/
theorem flatten_fetched {s n : ℕ} {xs : List α} {fetch : ℕ → Option (List α)}
    (h : ∀ k < n, fetch k = some (slice s k xs)) :
    ((List.range n).mapM fetch).map List.flatten = some (xs.take (n * s)) := by
  have hmapM : ∀ l : List ℕ, (∀ k ∈ l, k < n) →
      l.mapM fetch = some (l.map fun k => slice s k xs) := by
    intro l hl
    induction l with
    | nil => rfl
    | cons k l ih =>
      rw [List.mapM_cons, h k (hl k List.mem_cons_self),
        ih fun j hj => hl j (List.mem_cons_of_mem k hj)]
      rfl
  rw [hmapM _ fun k hk => List.mem_range.1 hk, Option.map_some, flatten_slices]

theorem getElem?_slice (s k j : ℕ) (xs : List α) :
    (slice s k xs)[j]? = if j < s then xs[k * s + j]? else none := by
  rw [slice, List.getElem?_take, List.getElem?_drop]

/-- The numbered elements of a slice are those whose numbers are in its range. -/
theorem mem_slice_zipIdx {s k i : ℕ} {x : α} {xs : List α} :
    (x, i) ∈ slice s k xs.zipIdx ↔ xs[i]? = some x ∧ k * s ≤ i ∧ i < k * s + s := by
  rw [List.mem_iff_getElem?]
  constructor
  · rintro ⟨j, hj⟩
    rw [getElem?_slice] at hj
    split_ifs at hj with hlt
    obtain ⟨y, hy, heq⟩ := Option.map_eq_some_iff.1 (List.getElem?_zipIdx.symm.trans hj)
    obtain ⟨rfl, hi⟩ := Prod.mk.inj heq
    obtain rfl : k * s + j = i := by omega
    exact ⟨hy, by omega, by omega⟩
  · rintro ⟨hx, hle, hlt⟩
    refine ⟨i - k * s, ?_⟩
    have hi : k * s + (i - k * s) = i := by omega
    rw [getElem?_slice, if_pos (by omega), List.getElem?_zipIdx, hi, hx, Option.map_some,
      Nat.zero_add]

/-- An element is in the slice of its index divided by the length of a slice, and in no other. -/
theorem mem_slice_zipIdx_iff {s k i : ℕ} {x : α} {xs : List α} (hs : 0 < s)
    (hx : xs[i]? = some x) : (x, i) ∈ slice s k xs.zipIdx ↔ k = i / s := by
  have hdiv : i / s = k ↔ k * s ≤ i ∧ i ≤ k * s + s - 1 := Nat.div_eq_iff hs
  rw [mem_slice_zipIdx, eq_comm (a := k), hdiv]
  constructor
  · rintro ⟨-, hle, hlt⟩
    exact ⟨hle, by omega⟩
  · rintro ⟨hle, hlt⟩
    exact ⟨hx, hle, by omega⟩

/-! ### The greatest elements -/

/-- `n` elements with the greatest keys, in descending order. -/
structure Greatest {κ : Type*} [LinearOrder κ] (key : α → κ) (n : ℕ) (xs ys : List α) :
    Prop where
  length_eq : ys.length = min n xs.length
  descending : ys.Pairwise fun a b => key b ≤ key a
  split : ∃ rest, (ys ++ rest).Perm xs ∧ ∀ a ∈ ys, ∀ b ∈ rest, key b ≤ key a

section

variable {κ : Type*} [LinearOrder κ] {key : α → κ} {n : ℕ} {xs ys : List α}

theorem descending_mergeSort (key : α → κ) (xs : List α) :
    (xs.mergeSort fun a b => key b ≤ key a).Pairwise fun a b => key b ≤ key a := by
  refine (List.pairwise_mergeSort ?_ ?_ xs).imp fun hle => of_decide_eq_true hle
  · intro a b c hab hbc
    exact decide_eq_true ((of_decide_eq_true hbc).trans (of_decide_eq_true hab))
  · intro a b
    rcases le_total (key b) (key a) with hle | hle <;> simp [hle]

/-- The first elements of a descending list are the greatest ones. -/
theorem greatest_take (n : ℕ) (hperm : ys.Perm xs) (h : ys.Pairwise fun a b => key b ≤ key a) :
    Greatest key n xs (ys.take n) := by
  have hparts : (ys.take n ++ ys.drop n).Pairwise fun a b => key b ≤ key a := by
    rwa [List.take_append_drop]
  refine ⟨?_, (List.pairwise_append.1 hparts).1, ys.drop n, ?_, (List.pairwise_append.1 hparts).2.2⟩
  · rw [List.length_take, hperm.length_eq]
  · rwa [List.take_append_drop]

/-- If the keys ascend, the greatest elements are the last ones. -/
theorem Greatest.eq_take_reverse (h : Greatest key n xs ys)
    (hlt : xs.Pairwise fun a b => key a < key b) : ys = xs.reverse.take n := by
  obtain ⟨rest, hperm, hrest⟩ := h.split
  -- the elements that are left out are put in order behind the others
  have hsort := descending_mergeSort key rest
  have hall : (ys ++ rest.mergeSort fun a b => key b ≤ key a).Pairwise
      fun a b => key b ≤ key a := by
    rw [List.pairwise_append]
    exact ⟨h.descending, hsort, fun a ha b hb => hrest a ha b (List.mem_mergeSort.1 hb)⟩
  have hrev : xs.reverse.Pairwise fun a b => key b ≤ key a := by
    rw [List.pairwise_reverse]
    exact hlt.imp fun hab => hab.le
  have hperm' : (ys ++ rest.mergeSort fun a b => key b ≤ key a).Perm xs.reverse :=
    ((List.Perm.append_left ys (List.mergeSort_perm rest _)).trans hperm).trans
      xs.reverse_perm.symm
  have hnodup : (xs.map key).Nodup := by
    rw [List.Nodup, List.pairwise_map]
    exact hlt.imp fun hab => hab.ne
  have heq : (ys ++ rest.mergeSort fun a b => key b ≤ key a) = xs.reverse := by
    refine hperm'.eq_of_pairwise (fun a b ha hb hab hba => ?_) hall hrev
    exact List.inj_on_of_nodup_map hnodup (List.mem_reverse.1 (hperm'.subset ha))
      (List.mem_reverse.1 hb) (le_antisymm hba hab)
  have hlen : ys.length = min n xs.reverse.length := by rw [h.length_eq, List.length_reverse]
  calc ys = (ys ++ rest.mergeSort fun a b => key b ≤ key a).take ys.length := by
        rw [List.take_left]
    _ = xs.reverse.take n := by rw [heq, hlen, ← List.take_eq_take_min]

end

end Slices
