import OaLibs.Base.MachineInt
import OaLibs.Base.Slices

/-!
# Pagination

`pagination.rs`: the parameters of the list requests and how they are normalised. A cursor request
has a limit, a page request has a page number and a page size; both have a default and bounds.

* `limit`, `page`, `pageSize`, `offset`: the normalised parameters, and the OFFSET of the query;
* `select`, `fetchPage`: the rows that the query of a page returns;
* `pages_tile`: the pages put together give back the rows, and no offset overflows.
-/

namespace OaLibs

namespace Pagination

open MachineInt Slices

/-- The number of rows if a request names none. -/
def defaultLimit : UInt32 := 20

/-- The greatest number of rows on one page. -/
def maxLimit : UInt32 := 100

/-- A number of rows between 1 and `maxLimit`. -/
def normalizeLimit (limit : Option UInt32) : UInt32 :=
  clamp (limit.getD defaultLimit) 1 maxLimit

/-- The parameters of a cursor request. -/
structure CursorParams where
  cursor : Option String
  limit : Option UInt32

/-- The normalised number of rows. -/
def limit (params : CursorParams) : UInt32 := normalizeLimit params.limit

/-- The parameters of a page request; pages are counted from 1. -/
structure PageParams where
  page : Option UInt32
  pageSize : Option UInt32

/-- The normalised page number. -/
def page (params : PageParams) : UInt32 := max (params.page.getD 1) 1

/-- The normalised number of rows. -/
def pageSize (params : PageParams) : UInt32 := normalizeLimit params.pageSize

/-- The OFFSET of the query; `none` is an overflow that is checked. -/
def offset (m : OverflowMode) (params : PageParams) : Option Int64 := do
  let before ← subU32 m (page params) 1
  mul64 m (fromU32 before) (fromU32 (pageSize params))

/-- The answer to a page request. -/
structure Page (α : Type*) where
  items : List α
  total : Int64
  page : UInt32
  pageSize : UInt32

/-- The answer names the normalised parameters. -/
def Page.new {α : Type*} (items : List α) (total : Int64) (params : PageParams) : Page α where
  items := items
  total := total
  page := Pagination.page params
  pageSize := Pagination.pageSize params

/-! ### The parameters -/

theorem toNat_normalizeLimit (limit : Option UInt32) :
    (normalizeLimit limit).toNat = max 1 (min (limit.getD defaultLimit).toNat 100) := by
  rw [normalizeLimit, toNat_clampU32]
  exact clamp_eq (by decide) _

theorem normalizeLimit_pos (limit : Option UInt32) : 0 < (normalizeLimit limit).toNat := by
  rw [toNat_normalizeLimit]
  omega

theorem normalizeLimit_le (limit : Option UInt32) : (normalizeLimit limit).toNat ≤ 100 := by
  rw [toNat_normalizeLimit]
  omega

/-- A number within the bounds stays as it is. -/
theorem normalizeLimit_of_le {size : Option UInt32} (hpos : 1 ≤ (size.getD defaultLimit).toNat)
    (hle : (size.getD defaultLimit).toNat ≤ 100) :
    normalizeLimit size = size.getD defaultLimit := by
  apply UInt32.toNat_inj.1
  rw [toNat_normalizeLimit]
  omega

/-- A normalised number stays as it is. -/
theorem normalizeLimit_normalizeLimit (limit : Option UInt32) :
    normalizeLimit (some (normalizeLimit limit)) = normalizeLimit limit :=
  normalizeLimit_of_le (normalizeLimit_pos limit) (normalizeLimit_le limit)

theorem toNat_page (params : PageParams) :
    (page params).toNat = max (params.page.getD 1).toNat 1 := by
  show (if _ ≤ _ then _ else _ : UInt32).toNat = _
  rw [apply_ite UInt32.toNat]
  simp only [UInt32.le_iff_toNat_le]
  rfl

theorem page_pos (params : PageParams) : 1 ≤ (page params).toNat := by
  rw [toNat_page]
  omega

/-- A page number from 1 on stays as it is. -/
theorem page_of_ne_zero {n : UInt32} (h : n ≠ 0) (size : Option UInt32) :
    page ⟨some n, size⟩ = n := by
  have hn : n.toNat ≠ 0 := fun h0 => h (UInt32.toNat_inj.1 h0)
  apply UInt32.toNat_inj.1
  rw [toNat_page]
  show max n.toNat 1 = n.toNat
  omega

/-- The offset is exact: no page and no page size makes the subtraction or the product overflow. -/
theorem offset_exact (params : PageParams) :
    ∃ o : Int64, (∀ m, offset m params = some o) ∧
      o.toInt = ((page params).toNat - 1) * (pageSize params).toNat ∧ 0 ≤ o.toInt := by
  have hpage := page_pos params
  have hlt := (page params).toNat_lt
  have hsize := normalizeLimit_le params.pageSize
  have hfactor : (fromU32 (page params - 1)).toInt = (page params).toNat - 1 :=
    (toInt_fromU32 _).trans ((toNat_subU32_eq_iff (page params) 1).2 hpage)
  -- a page number has 32 bits and a page size at most 7
  have hle : (((page params).toNat : ℤ) - 1) * (pageSize params).toNat ≤ 2 ^ 32 * 100 :=
    mul_le_mul (by omega) (by exact_mod_cast hsize) (by omega) (by norm_num)
  have hnonneg : (0 : ℤ) ≤ ((page params).toNat - 1) * (pageSize params).toNat :=
    mul_nonneg (by omega) (by omega)
  have hmul : (fromU32 (page params - 1) * fromU32 (pageSize params)).toInt =
      (fromU32 (page params - 1)).toInt * (fromU32 (pageSize params)).toInt := by
    rw [toInt_mul64_eq_iff, hfactor, toInt_fromU32]
    constructor
    · omega
    · omega
  refine ⟨fromU32 (page params - 1) * fromU32 (pageSize params), fun m => ?_, ?_, ?_⟩
  · have hone : (1 : UInt32).toNat ≤ (page params).toNat := hpage
    rw [offset, subU32_of_le hone m, Option.bind_eq_bind, Option.bind_some, mul64,
      outcome_of_exact hmul]
  · rw [hmul, hfactor, toInt_fromU32]
  · rw [hmul, hfactor, toInt_fromU32]
    exact hnonneg

/-! ### The rows of a page -/

variable {α β : Type*}

/-- `OFFSET … LIMIT …`; the database refuses negative numbers. -/
def select (offset limit : ℤ) (rows : List α) : Option (List α) :=
  if 0 ≤ offset ∧ 0 ≤ limit then some ((rows.drop offset.toNat).take limit.toNat) else none

/-- The rows that the query of a page returns. -/
def fetchPage (m : OverflowMode) (params : PageParams) (rows : List α) : Option (List α) :=
  (offset m params).bind fun o => select o.toInt (pageSize params).toNat rows

/-- The page numbers from 1 to `last`. -/
def pagesUpTo (last : UInt32) : List UInt32 :=
  (List.range last.toNat).map fun k => UInt32.ofNat (k + 1)

example : (pagesUpTo 3).map (fun p => fetchPage .checked ⟨some p, some 2⟩ [7, 8, 9]) =
    [some [7, 8], some [9], some []] := by decide

/-- A page is a slice of the rows. -/
theorem fetchPage_eq (m : OverflowMode) (params : PageParams) (rows : List α) :
    fetchPage m params rows =
      some (slice (pageSize params).toNat ((page params).toNat - 1) rows) := by
  obtain ⟨o, hoffset, ho, hnonneg⟩ := offset_exact params
  have hpage := page_pos params
  have htoNat : o.toInt.toNat = ((page params).toNat - 1) * (pageSize params).toNat := by
    apply Int.ofNat_inj.1
    rw [Int.toNat_of_nonneg hnonneg, ho]
    push_cast [Nat.cast_sub hpage]
    rfl
  rw [fetchPage, hoffset, Option.bind_some, select, if_pos ⟨hnonneg, Int.natCast_nonneg _⟩, htoNat,
    Int.toNat_natCast, slice]

/-- A request with the parameters that an answer names returns the same rows again. -/
theorem fetchPage_new (m : OverflowMode) (params : PageParams) (items : List β) (total : Int64)
    (rows : List α) :
    fetchPage m ⟨some (Page.new items total params).page,
      some (Page.new items total params).pageSize⟩ rows = fetchPage m params rows := by
  have hpage : page ⟨some (page params), some (pageSize params)⟩ = page params := by
    apply page_of_ne_zero
    intro h0
    have hpos := page_pos params
    rw [h0] at hpos
    exact absurd hpos (by decide)
  have hsize : pageSize ⟨some (page params), some (pageSize params)⟩ = pageSize params :=
    normalizeLimit_normalizeLimit params.pageSize
  rw [fetchPage_eq, fetchPage_eq, Page.new, hpage, hsize]

theorem toNat_ofNat_succ {k : ℕ} (hk : k + 1 < 2 ^ 32) : (UInt32.ofNat (k + 1)).toNat = k + 1 :=
  UInt32.toNat_ofNat_of_lt' hk

theorem ofNat_succ_ne_zero {k : ℕ} (hk : k + 1 < 2 ^ 32) : UInt32.ofNat (k + 1) ≠ 0 := by
  intro h0
  have hzero : (UInt32.ofNat (k + 1)).toNat = 0 := congrArg UInt32.toNat h0
  rw [toNat_ofNat_succ hk] at hzero
  exact Nat.succ_ne_zero k hzero

/-- The page of a number `k + 1` is the `k`-th slice. -/
theorem fetchPage_ofNat {k : ℕ} (hk : k + 1 < 2 ^ 32) (m : OverflowMode) (size : Option UInt32)
    (rows : List α) :
    fetchPage m ⟨some (UInt32.ofNat (k + 1)), size⟩ rows =
      some (slice (normalizeLimit size).toNat k rows) := by
  rw [fetchPage_eq, page_of_ne_zero (ofNat_succ_ne_zero hk), toNat_ofNat_succ hk,
    Nat.add_sub_cancel, pageSize]

/-! ### The pages together -/

/-- The pages from 1 to `last`, one after another. -/
def concatPages (m : OverflowMode) (size : Option UInt32) (last : UInt32) (rows : List α) :
    Option (List α) :=
  ((pagesUpTo last).mapM fun p => fetchPage m ⟨some p, size⟩ rows).map List.flatten

/-- The greatest page number. -/
def maxPage : UInt32 := 4294967295

/-- The number of rows that the pages with `u32` numbers reach. -/
def reach (size : Option UInt32) : ℕ := maxPage.toNat * (normalizeLimit size).toNat

/-- The pages of one size tile the rows. -/
structure Tiled (m : OverflowMode) (size : Option UInt32) (rows : List α) : Prop where
  /-- A page has between one row and a hundred. -/
  bounded : 1 ≤ (normalizeLimit size).toNat ∧ (normalizeLimit size).toNat ≤ 100
  /-- A size within these bounds is kept, and an absent one is 20. -/
  kept : ∀ n : UInt32, size.getD 20 = n → 1 ≤ n.toNat → n.toNat ≤ 100 → normalizeLimit size = n
  /-- The pages up to any number are a front part of the rows. -/
  front : ∀ last : UInt32, concatPages m size last rows =
    some (rows.take (last.toNat * (normalizeLimit size).toNat))
  /-- All pages are all rows. -/
  whole : rows.length ≤ reach size → concatPages m size maxPage rows = some rows
  /-- Numbering the rows does not change the pages. -/
  numbered : ∀ p, fetchPage m ⟨p, size⟩ rows =
    (fetchPage m ⟨p, size⟩ rows.zipIdx).map (List.map Prod.fst)
  /-- Each numbered row is on exactly one page. -/
  onePage : ∀ i x, rows[i]? = some x → i < reach size → ∃! p : UInt32, p ≠ 0 ∧
    ∃ rowsOfPage, fetchPage m ⟨some p, size⟩ rows.zipIdx = some rowsOfPage ∧ (x, i) ∈ rowsOfPage

theorem concatPages_eq (m : OverflowMode) (size : Option UInt32) (last : UInt32) (rows : List α) :
    concatPages m size last rows =
      some (rows.take (last.toNat * (normalizeLimit size).toNat)) := by
  have hlast := last.toNat_lt
  rw [concatPages, pagesUpTo, List.mapM_map]
  exact flatten_fetched fun k hk => fetchPage_ofNat (by omega) m size rows

theorem mem_fetchPage_iff {m : OverflowMode} {size : Option UInt32} {rows : List α} {i : ℕ} {x : α}
    (hx : rows[i]? = some x) {p : UInt32} (hp : p ≠ 0) :
    (∃ rowsOfPage, fetchPage m ⟨some p, size⟩ rows.zipIdx = some rowsOfPage ∧
      (x, i) ∈ rowsOfPage) ↔ p.toNat = i / (normalizeLimit size).toNat + 1 := by
  have hpos : p.toNat ≠ 0 := fun h0 => hp (UInt32.toNat_inj.1 h0)
  have hslice := mem_slice_zipIdx_iff (k := p.toNat - 1) (normalizeLimit_pos size) hx
  rw [fetchPage_eq, page_of_ne_zero hp, pageSize]
  constructor
  · rintro ⟨_, heq, hmem⟩
    obtain rfl := Option.some.inj heq
    have hk := hslice.1 hmem
    omega
  · intro hp
    exact ⟨_, rfl, hslice.2 (by omega)⟩

/-- The pages of any size tile any list of rows, and every offset is exact. -/
theorem pages_tile (m : OverflowMode) (size : Option UInt32) (rows : List α) :
    Tiled m size rows ∧ ∀ params : PageParams, ∃ o : Int64, (∀ m, offset m params = some o) ∧
      o.toInt = ((page params).toNat - 1) * (pageSize params).toNat ∧ 0 ≤ o.toInt := by
  refine ⟨⟨⟨normalizeLimit_pos size, normalizeLimit_le size⟩, ?_,
    fun last => concatPages_eq m size last rows, fun hle => ?_, fun p => ?_,
    fun i x hx hi => ?_⟩, offset_exact⟩
  · rintro n rfl hpos hle
    exact normalizeLimit_of_le hpos hle
  · rw [concatPages_eq, ← reach, List.take_of_length_le hle]
  · rw [fetchPage_eq, fetchPage_eq, Option.map_some, map_slice, List.zipIdx_map_fst]
  · -- the row at `i` is on the page `i / s + 1`, and that number is still a `u32`
    have hlt : i / (normalizeLimit size).toNat < 2 ^ 32 - 1 :=
      Nat.div_lt_of_lt_mul (by rwa [Nat.mul_comm])
    have htoNat := toNat_ofNat_succ (Nat.add_lt_of_lt_sub hlt)
    have hne := ofNat_succ_ne_zero (Nat.add_lt_of_lt_sub hlt)
    refine ⟨_, ⟨hne, (mem_fetchPage_iff hx hne).2 htoNat⟩, ?_⟩
    rintro p ⟨hp, hmem⟩
    exact UInt32.toNat_inj.1 (((mem_fetchPage_iff hx hp).1 hmem).trans htoNat.symm)

end Pagination

end OaLibs
