import AlbionApi.Api.Trades
import AlbionApi.Foundations.Listing

/-! # Pagination of the trade routes

Both paginated trade routes slice a list by a page number and a page size of
32 bits, with offsets in 64 bits. Checked operations are `none` where the
program would overflow or slice out of range.
-/

namespace AlbionApi

variable {α : Type}

/-- `u32::saturating_sub(1)`. -/
def prevPage (page : UInt32) : UInt32 := if page = 0 then 0 else page - 1

/-- `u64::div_ceil`. -/
def divCeil (a b : UInt64) : UInt64 := if a % b > 0 then a / b + 1 else a / b

def checkedMul (a b : UInt64) : Option UInt64 :=
  if a.toNat * b.toNat < 2 ^ 64 then some (a * b) else none

def checkedAdd (a b : UInt64) : Option UInt64 :=
  if a.toNat + b.toNat < 2 ^ 64 then some (a + b) else none

/-- `items[start..end]`. -/
def slice (items : List α) (start stop : UInt64) : Option (List α) :=
  if start ≤ stop ∧ stop.toNat ≤ items.length then
    some ((items.take stop.toNat).drop start.toNat)
  else none

/-- `isize::MAX`, which no length of a vector exceeds. -/
def isizeMax : ℕ := 2 ^ 63 - 1

/-- `items.len()`. -/
def len (items : List α) : UInt64 := UInt64.ofNat items.length

def pageSlice (items : List α) (page pageSize : UInt32) : Option (List α) := do
  let offset ← checkedMul (prevPage page).toUInt64 pageSize.toUInt64
  if offset ≥ len items then return []
  else
    let stop ← checkedAdd offset pageSize.toUInt64
    slice items offset (min stop (len items))

def totalPages (total : UInt64) (pageSize : UInt32) : UInt64 :=
  if pageSize = 0 then 0 else divCeil total pageSize.toUInt64

def pagination (total : UInt64) (page pageSize : UInt32) : TradesPagination where
  page := page
  pageSize := pageSize
  totalTrades := total
  totalPages := totalPages total pageSize
  hasMore := page.toUInt64 < totalPages total pageSize

theorem toNat_prevPage (page : UInt32) : (prevPage page).toNat = page.toNat - 1 := by
  unfold prevPage
  split_ifs with h
  · rw [h]
    rfl
  · have h0 : page.toNat ≠ 0 := fun e => h (UInt32.toNat_inj.1 e)
    have h1 : (1 : UInt32) ≤ page := by
      rw [UInt32.le_iff_toNat_le, UInt32.toNat_one]
      omega
    rw [UInt32.toNat_sub_of_le _ _ h1, UInt32.toNat_one]

theorem toNat_len {items : List α} (h : items.length ≤ isizeMax) :
    (len items).toNat = items.length := by
  rw [isizeMax] at h
  rw [len, UInt64.toNat_ofNat']
  omega

theorem toNat_min (a b : UInt64) : (min a b).toNat = min a.toNat b.toNat := by
  rw [show min a b = if a ≤ b then a else b from rfl, Nat.min_def, apply_ite UInt64.toNat]
  simp only [UInt64.le_iff_toNat_le]

theorem toNat_divCeil (a b : UInt64) (hb : 0 < b.toNat) :
    (divCeil a b).toNat = Listing.pageCount a.toNat b.toNat := by
  have hlt := a.toNat_lt
  have hd : a.toNat / b.toNat * b.toNat + a.toNat % b.toNat = a.toNat :=
    Nat.div_add_mod' a.toNat b.toNat
  have hm : a.toNat % b.toNat < b.toNat := Nat.mod_lt _ hb
  have hq : a.toNat / b.toNat ≤ a.toNat / b.toNat * b.toNat := Nat.le_mul_of_pos_right _ hb
  have hr : a % b > 0 ↔ 0 < a.toNat % b.toNat := by
    rw [gt_iff_lt, UInt64.lt_iff_toNat_lt, UInt64.toNat_mod]
    rfl
  unfold divCeil
  split_ifs with h
  · have h0 := hr.1 h
    have hlt' : a.toNat / b.toNat + 1 < 2 ^ 64 := by
      generalize a.toNat / b.toNat = q at *
      omega
    have hs : (a / b + 1).toNat = a.toNat / b.toNat + 1 := by
      rw [UInt64.toNat_add, UInt64.toNat_div, UInt64.toNat_one, Nat.mod_eq_of_lt hlt']
    rw [hs]
    apply le_antisymm ((Listing.lt_pageCount_iff hb).2 (by omega))
    rw [Listing.pageCount_le_iff hb, Nat.add_mul]
    omega
  · have h0 : ¬ 0 < a.toNat % b.toNat := fun h' => h (hr.2 h')
    rw [UInt64.toNat_div]
    refine le_antisymm ?_ ((Listing.pageCount_le_iff hb).2 (by omega))
    rcases Nat.eq_zero_or_pos (a.toNat / b.toNat) with hz | hz
    · omega
    · obtain ⟨q, hq'⟩ := Nat.exists_eq_add_of_lt hz
      rw [hq'] at hd ⊢
      apply (Listing.lt_pageCount_iff hb).2
      rw [Nat.add_mul] at hd
      omega

theorem toNat_totalPages (total : UInt64) (pageSize : UInt32) :
    (totalPages total pageSize).toNat = Listing.pageCount total.toNat pageSize.toNat := by
  unfold totalPages
  split_ifs with h
  · simp [h, Listing.pageCount]
  · have h0 : pageSize.toNat ≠ 0 := fun e => h (UInt32.toNat_inj.1 e)
    rw [toNat_divCeil _ _ (by rw [UInt32.toNat_toUInt64]; omega), UInt32.toNat_toUInt64]

/-- No page number and no page size makes the slice overflow or leave its range. -/
theorem pageSlice_eq {items : List α} (h : items.length ≤ isizeMax) (page pageSize : UInt32) :
    pageSlice items page pageSize = some (Listing.page items pageSize.toNat page.toNat) := by
  have hp := page.toNat_lt
  have hs := pageSize.toNat_lt
  have hl := toNat_len h
  have hprev : (prevPage page).toUInt64.toNat = page.toNat - 1 := by
    rw [UInt32.toNat_toUInt64, toNat_prevPage]
  -- the largest offset and end are far below the 64-bit range
  have hle : (page.toNat - 1) * pageSize.toNat ≤ (2 ^ 32 - 2) * (2 ^ 32 - 1) :=
    Nat.mul_le_mul (by omega) (by omega)
  have hmul : checkedMul (prevPage page).toUInt64 pageSize.toUInt64 =
      some ((prevPage page).toUInt64 * pageSize.toUInt64) := by
    rw [checkedMul, hprev, UInt32.toNat_toUInt64, if_pos (by omega)]
  have hoff : ((prevPage page).toUInt64 * pageSize.toUInt64).toNat =
      (page.toNat - 1) * pageSize.toNat := by
    rw [UInt64.toNat_mul, hprev, UInt32.toNat_toUInt64, Nat.mod_eq_of_lt (by omega)]
  simp only [pageSlice, hmul, Option.bind_eq_bind, Option.bind_some]
  generalize (prevPage page).toUInt64 * pageSize.toUInt64 = offset at hoff
  split_ifs with hge
  · rw [ge_iff_le, UInt64.le_iff_toNat_le, hl, hoff] at hge
    rw [Listing.page, List.drop_eq_nil_of_le hge, List.take_nil]
    rfl
  · rw [ge_iff_le, UInt64.le_iff_toNat_le, hl, hoff] at hge
    have hadd : checkedAdd offset pageSize.toUInt64 = some (offset + pageSize.toUInt64) := by
      rw [checkedAdd, hoff, UInt32.toNat_toUInt64, if_pos (by omega)]
    have hstop : (offset + pageSize.toUInt64).toNat =
        (page.toNat - 1) * pageSize.toNat + pageSize.toNat := by
      rw [UInt64.toNat_add, hoff, UInt32.toNat_toUInt64, Nat.mod_eq_of_lt (by omega)]
    rw [hadd, Option.bind_some]
    have hmin : (min (offset + pageSize.toUInt64) (len items)).toNat =
        min ((page.toNat - 1) * pageSize.toNat + pageSize.toNat) items.length := by
      rw [toNat_min, hstop, hl]
    have hc : offset ≤ min (offset + pageSize.toUInt64) (len items) ∧
        (min (offset + pageSize.toUInt64) (len items)).toNat ≤ items.length := by
      rw [UInt64.le_iff_toNat_le, hmin, hoff]
      omega
    rw [slice, if_pos hc, hmin, hoff, Listing.page, List.drop_take]
    congr 1
    rw [List.take_eq_take_iff, List.length_drop]
    omega

/-! ## The law of pages -/

/-- The pages that requests get of a list, by page size and page number, and
the pagination they are told of. -/
structure PagesOf (items : List α) (pageAt : UInt32 → UInt32 → List α)
    (info : UInt32 → UInt32 → TradesPagination) : Prop where
  total : ∀ pageSize page, (info pageSize page).totalTrades.toNat = items.length
  concat : ∀ pageSize n, n < 2 ^ 32 →
    ((List.range' 1 n).flatMap fun p => pageAt pageSize (UInt32.ofNat p)) =
      items.take (n * pageSize.toNat)
  complete : ∀ pageSize page, 0 < pageSize → (info pageSize page).totalPages.toNat < 2 ^ 32 →
    ((List.range' 1 (info pageSize page).totalPages.toNat).flatMap
      fun p => pageAt pageSize (UInt32.ofNat p)) = items
  beyond : ∀ pageSize page, (info pageSize page).totalPages < page.toUInt64 →
    pageAt pageSize page = []
  hasMore : ∀ pageSize page, page < 4294967295 →
    ((info pageSize page).hasMore = true ↔ pageAt pageSize (page + 1) ≠ [])
  hasMore_last : ∀ pageSize,
    ((info pageSize 4294967295).hasMore = true ↔
      0 < pageSize ∧ 4294967295 * pageSize.toNat < items.length)

theorem pagination_hasMore {items : List α} (h : items.length ≤ isizeMax)
    (page pageSize : UInt32) : (pagination (len items) page pageSize).hasMore = true ↔
      page.toNat < Listing.pageCount items.length pageSize.toNat := by
  rw [pagination, decide_eq_true_iff, UInt64.lt_iff_toNat_lt, toNat_totalPages,
    UInt32.toNat_toUInt64, toNat_len h]

/-- Every page request is answered, and the answers obey the law of pages. -/
theorem pagesOf_pageSlice {items : List α} (h : items.length ≤ isizeMax)
    {pageAt : UInt32 → UInt32 → List α}
    (hp : ∀ pageSize page, pageSlice items page pageSize = some (pageAt pageSize page)) :
    PagesOf items pageAt fun pageSize page => pagination (len items) page pageSize := by
  have he (pageSize page) : pageAt pageSize page =
      Listing.page items pageSize.toNat page.toNat :=
    Option.some.inj ((hp pageSize page).symm.trans (pageSlice_eq h page pageSize))
  have hc (pageSize : UInt32) (n : ℕ) (hn : n < 2 ^ 32) :
      ((List.range' 1 n).flatMap fun p => pageAt pageSize (UInt32.ofNat p)) =
        items.take (n * pageSize.toNat) := by
    rw [← Listing.flatMap_page]
    apply List.flatMap_congr
    intro p hp
    have := (List.mem_range'_1.1 hp).2
    rw [he, UInt32.toNat_ofNat', Nat.mod_eq_of_lt (by omega)]
  refine ⟨fun _ _ => toNat_len h, hc, ?_, ?_, ?_, ?_⟩
  · intro pageSize page h0 hn
    have hcount : (totalPages (len items) pageSize).toNat =
        Listing.pageCount items.length pageSize.toNat := by
      rw [toNat_totalPages, toNat_len h]
    have h0' : 0 < pageSize.toNat := UInt32.lt_iff_toNat_lt.1 h0
    simp only [pagination] at hn ⊢
    rw [hc _ _ hn, hcount, List.take_of_length_le ((Listing.pageCount_le_iff h0').1 le_rfl)]
  · intro pageSize page hlt
    simp only [pagination, UInt64.lt_iff_toNat_lt, toNat_totalPages, toNat_len h,
      UInt32.toNat_toUInt64] at hlt
    rw [he]
    rcases Nat.eq_zero_or_pos pageSize.toNat with h0 | h0
    · rw [h0, Listing.page_size_zero]
    · exact Listing.page_of_pageCount_lt items h0 hlt
  · intro pageSize page hlt
    have hnext : (page + 1).toNat = page.toNat + 1 := by
      have : page.toNat < 4294967295 := UInt32.lt_iff_toNat_lt.1 hlt
      rw [UInt32.toNat_add, UInt32.toNat_one, Nat.mod_eq_of_lt (by omega)]
    rw [pagination_hasMore h, he, hnext]
    rcases Nat.eq_zero_or_pos pageSize.toNat with h0 | h0
    · simp [h0, Listing.page_size_zero, Listing.pageCount]
    · exact (Listing.page_succ_ne_nil_iff items h0 _).symm
  · intro pageSize
    rw [pagination_hasMore h, UInt32.lt_iff_toNat_lt]
    rcases Nat.eq_zero_or_pos pageSize.toNat with h0 | h0
    · simp [h0, Listing.pageCount]
    · rw [Listing.lt_pageCount_iff h0]
      exact (and_iff_right h0).symm

end AlbionApi
