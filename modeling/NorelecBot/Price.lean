import NorelecBot.House
import NorelecBot.Lib.Signed

/-! # What the next copy costs

The loop as the machine runs it, the numbers it stays within, and the order it keeps.
-/

namespace NorelecBot

open Lib.Signed

/-- `inflate` with every operation on signed 64-bit numbers. -/
def inflateSigned (factor : ℤ) : ℕ → ℤ → Option ℤ
  | 0, price => some price
  | copies + 1, price => do
    let top ← exact (int64Max.tdiv factor)
    if price > top then return int64Max
    let product ← exact (price * factor)
    let grown ← exact (product.tdiv 100)
    inflateSigned factor copies grown

/-- `inflated` with every operation on signed 64-bit numbers. -/
def inflatedSigned (cost : ℤ) (copies : ℕ) (inflation : ℤ) : Option ℤ :=
  if cost ≤ 0 then some 0 else do
    let factor ← exact (100 + max inflation 0)
    inflateSigned factor copies cost

/-- The price after one more copy, if nothing stopped it. -/
def grownOnce (factor price : ℤ) : ℤ := price * factor / 100

theorem passes_iff {price factor : ℤ} (hfactor : 0 < factor) :
    price > int64Max.tdiv factor ↔ int64Max < price * factor := by
  have htop : (0 : ℤ) ≤ int64Max := by decide
  rw [Int.tdiv_eq_ediv_of_nonneg htop, gt_iff_lt, Int.ediv_lt_iff_lt_mul hfactor]

theorem tdiv_hundred {price factor : ℤ} (hprice : 0 ≤ price) (hfactor : 0 ≤ factor) :
    (price * factor).tdiv 100 = grownOnce factor price :=
  Int.tdiv_eq_ediv_of_nonneg (mul_nonneg hprice hfactor)

theorem le_grownOnce {price factor : ℤ} (hprice : 0 ≤ price) (hfactor : 100 ≤ factor) :
    price ≤ grownOnce factor price := by
  rw [grownOnce, Int.le_ediv_iff_mul_le (by omega)]
  exact mul_le_mul_of_nonneg_left hfactor hprice

theorem grownOnce_le_grownOnce {price dearer factor steeper : ℤ} (hprice : 0 ≤ price)
    (hfactor : 0 ≤ factor) (hle : price ≤ dearer) (hsteeper : factor ≤ steeper) :
    grownOnce factor price ≤ grownOnce steeper dearer :=
  Int.ediv_le_ediv (by omega) (mul_le_mul hle hsteeper hfactor (le_trans hprice hle))

/-- One turn of the loop: the largest number, or the grown price for the copies left. -/
theorem inflate_succ {factor price : ℤ} (copies : ℕ) (hprice : 0 ≤ price) (hfactor : 0 < factor) :
    inflate factor (copies + 1) price =
      if int64Max < price * factor then int64Max else inflate factor copies (grownOnce factor price) := by
  rw [inflate, tdiv_hundred hprice (le_of_lt hfactor)]
  apply if_congr (passes_iff hfactor) rfl rfl

section
variable {factor : ℤ} (hfactor : 100 ≤ factor)
include hfactor

theorem grownOnce_le_most {price : ℤ} (hprice : 0 ≤ price) (hfits : price * factor ≤ int64Max) :
    grownOnce factor price ≤ int64Max := by
  apply le_trans _ hfits
  rw [grownOnce]
  exact Int.ediv_le_self _ (mul_nonneg hprice (by omega))

theorem inflate_bounds (copies : ℕ) {price : ℤ} (hprice : 0 ≤ price) (hmost : price ≤ int64Max) :
    price ≤ inflate factor copies price ∧ inflate factor copies price ≤ int64Max := by
  induction copies generalizing price with
  | zero => exact ⟨le_rfl, hmost⟩
  | succ copies ih =>
    rw [inflate_succ copies hprice (by omega)]
    by_cases hpast : int64Max < price * factor
    · rw [if_pos hpast]
      exact ⟨hmost, le_rfl⟩
    · rw [if_neg hpast]
      have hgrown := le_grownOnce hprice hfactor
      have hrest := ih (le_trans hprice hgrown) (grownOnce_le_most hfactor hprice (by omega))
      exact ⟨le_trans hgrown hrest.1, hrest.2⟩

/-- The machine's loop never leaves the 64-bit numbers, so it is the exact one. -/
theorem inflateSigned_eq (copies : ℕ) {price : ℤ} (hprice : 0 ≤ price) (hmost : price ≤ int64Max) :
    inflateSigned factor copies price = some (inflate factor copies price) := by
  induction copies generalizing price with
  | zero => rfl
  | succ copies ih =>
    have htop : Fits (int64Max.tdiv factor) := by
      apply fits_of_nonneg
      · exact Int.tdiv_nonneg (by decide) (by omega)
      · exact Int.tdiv_le_self _ (by decide)
    rw [inflateSigned, inflate, exact_of_fits htop]
    by_cases hpast : price > int64Max.tdiv factor
    · simp [hpast]
    · have hfits : price * factor ≤ int64Max := by
        rw [passes_iff (by omega)] at hpast
        omega
      have hproduct : 0 ≤ price * factor := mul_nonneg hprice (by omega)
      have hgrown := grownOnce_le_most hfactor hprice hfits
      have hless := le_trans hprice (le_grownOnce hprice hfactor)
      rw [tdiv_hundred hprice (by omega)]
      simp [hpast, exact_of_fits (fits_of_nonneg hproduct hfits), tdiv_hundred hprice (show 0 ≤ factor by omega),
        exact_of_fits (fits_of_nonneg hless hgrown), ih hless hgrown]

/-- Two runs side by side: the dearer one is ahead at every turn, or has stopped at the top. -/
theorem inflate_mono {steeper price dearer : ℤ} {copies more : ℕ} (hsteeper : factor ≤ steeper)
    (hprice : 0 ≤ price) (hle : price ≤ dearer) (hmost : dearer ≤ int64Max) (hcopies : copies ≤ more) :
    inflate factor copies price ≤ inflate steeper more dearer := by
  induction copies generalizing price dearer more with
  | zero => exact le_trans hle (inflate_bounds (le_trans hfactor hsteeper) more (le_trans hprice hle) hmost).1
  | succ copies ih =>
    obtain ⟨more, rfl⟩ := Nat.exists_eq_add_of_le' hcopies
    rw [show more + (copies + 1) = (more + copies) + 1 by omega, inflate_succ _ hprice (by omega),
      inflate_succ _ (le_trans hprice hle) (by omega)]
    have hproducts : price * factor ≤ dearer * steeper :=
      mul_le_mul hle hsteeper (by omega) (le_trans hprice hle)
    by_cases hdear : int64Max < dearer * steeper
    · rw [if_pos hdear]
      by_cases hpast : int64Max < price * factor
      · rw [if_pos hpast]
      · rw [if_neg hpast]
        have hless := le_trans hprice (le_grownOnce hprice hfactor)
        exact (inflate_bounds hfactor copies hless (grownOnce_le_most hfactor hprice (by omega))).2
    · rw [if_neg hdear, if_neg (by omega)]
      apply ih (le_trans hprice (le_grownOnce hprice hfactor))
        (grownOnce_le_grownOnce hprice (by omega) hle hsteeper)
        (grownOnce_le_most (le_trans hfactor hsteeper) (le_trans hprice hle) (by omega)) (by omega)

theorem inflate_of_fits {copies : ℕ} {price : ℤ} (hprice : 0 ≤ price)
    (hfits : ∀ turn < copies, (grownOnce factor)^[turn] price * factor ≤ int64Max) :
    inflate factor copies price = (grownOnce factor)^[copies] price := by
  induction copies generalizing price with
  | zero => rfl
  | succ copies ih =>
    have hfirst : price * factor ≤ int64Max := hfits 0 (by omega)
    rw [inflate_succ copies hprice (by omega), if_neg (by omega), Function.iterate_succ_apply]
    apply ih (le_trans hprice (le_grownOnce hprice hfactor))
    intro turn hturn
    have hlater := hfits (turn + 1) (by omega)
    rwa [Function.iterate_succ_apply] at hlater

theorem inflate_of_past {copies turn : ℕ} {price : ℤ} (hprice : 0 ≤ price) (hturn : turn < copies)
    (hpast : int64Max < (grownOnce factor)^[turn] price * factor) :
    inflate factor copies price = int64Max := by
  induction turn generalizing copies price with
  | zero =>
    obtain ⟨copies, rfl⟩ := Nat.exists_eq_succ_of_ne_zero (show copies ≠ 0 by omega)
    rw [inflate_succ copies hprice (by omega)]
    exact if_pos hpast
  | succ turn ih =>
    obtain ⟨copies, rfl⟩ := Nat.exists_eq_succ_of_ne_zero (show copies ≠ 0 by omega)
    rw [inflate_succ copies hprice (by omega)]
    by_cases hnow : int64Max < price * factor
    · exact if_pos hnow
    · rw [if_neg hnow]
      rw [Function.iterate_succ_apply] at hpast
      exact ih (le_trans hprice (le_grownOnce hprice hfactor)) (by omega) hpast

end

theorem inflated_of_pos {cost : ℤ} (copies : ℕ) (inflation : ℤ) (h : 0 < cost) :
    inflated cost copies inflation = inflate (100 + max inflation 0) copies cost :=
  if_neg (by omega)

theorem inflated_of_nonpos {cost : ℤ} (copies : ℕ) (inflation : ℤ) (h : cost ≤ 0) :
    inflated cost copies inflation = 0 := if_pos h

theorem inflated_range {cost : ℤ} (copies : ℕ) (inflation : ℤ) (hcost : cost ≤ int64Max) :
    0 ≤ inflated cost copies inflation ∧ cost ≤ inflated cost copies inflation ∧
      inflated cost copies inflation ≤ int64Max := by
  by_cases hpos : 0 < cost
  · rw [inflated_of_pos copies inflation hpos]
    have hbounds := inflate_bounds (show 100 ≤ 100 + max inflation 0 by omega) copies (le_of_lt hpos) hcost
    exact ⟨by omega, hbounds.1, hbounds.2⟩
  · rw [inflated_of_nonpos copies inflation (by omega)]
    exact ⟨le_rfl, by omega, by decide⟩

theorem inflatedSigned_eq {cost inflation : ℤ} (copies : ℕ) (hcost : cost ≤ int64Max)
    (hfactor : 100 + max inflation 0 ≤ 1100) :
    inflatedSigned cost copies inflation = some (inflated cost copies inflation) := by
  by_cases hpos : 0 < cost
  · have hfits : Fits (100 + max inflation 0) :=
      fits_of_nonneg (by omega) (le_trans hfactor (by decide))
    rw [inflated_of_pos copies inflation hpos, inflatedSigned, if_neg (by omega), exact_of_fits hfits]
    exact inflateSigned_eq (by omega) copies (le_of_lt hpos) hcost
  · rw [inflated_of_nonpos copies inflation (by omega), inflatedSigned, if_pos (by omega)]

theorem inflated_mono {cost dearer inflation steeper : ℤ} {copies more : ℕ} (hcost : cost ≤ dearer)
    (hdearer : dearer ≤ int64Max) (hcopies : copies ≤ more) (hinflation : inflation ≤ steeper) :
    inflated cost copies inflation ≤ inflated dearer more steeper := by
  by_cases hpos : 0 < cost
  · rw [inflated_of_pos copies inflation hpos, inflated_of_pos more steeper (by omega)]
    exact inflate_mono (by omega) (by omega) (le_of_lt hpos) hcost hdearer hcopies
  · rw [inflated_of_nonpos copies inflation (by omega)]
    exact (inflated_range more steeper hdearer).1

/-- What the price of one more copy does for every cost, number of copies and inflation. -/
theorem price_holds {cost inflation : ℤ} (copies : ℕ) (hcost : cost ≤ int64Max)
    (hfactor : 100 + max inflation 0 ≤ 1100) :
    inflatedSigned cost copies inflation = some (inflated cost copies inflation) ∧
    (0 ≤ inflated cost copies inflation ∧ inflated cost copies inflation ≤ int64Max) ∧
    (cost ≤ 0 → inflated cost copies inflation = 0) ∧
    (0 < cost → cost ≤ inflated cost copies inflation) ∧
    (0 < cost → (∀ turn < copies, (grownOnce (100 + max inflation 0))^[turn] cost * (100 + max inflation 0) ≤ int64Max) →
      inflated cost copies inflation = (grownOnce (100 + max inflation 0))^[copies] cost) ∧
    (0 < cost → (∃ turn < copies, int64Max < (grownOnce (100 + max inflation 0))^[turn] cost * (100 + max inflation 0)) →
      inflated cost copies inflation = int64Max) ∧
    ∀ dearer steeper more, cost ≤ dearer → dearer ≤ int64Max → copies ≤ more → inflation ≤ steeper →
      100 + max steeper 0 ≤ 1100 → inflated cost copies inflation ≤ inflated dearer more steeper := by
  have hrange := inflated_range copies inflation hcost
  have hhundred : 100 ≤ 100 + max inflation 0 := by omega
  refine ⟨inflatedSigned_eq copies hcost hfactor, ⟨hrange.1, hrange.2.2⟩, inflated_of_nonpos copies inflation,
    fun _ => hrange.2.1, ?_, ?_, ?_⟩
  · intro hpos hfits
    rw [inflated_of_pos copies inflation hpos]
    exact inflate_of_fits hhundred (le_of_lt hpos) hfits
  · rintro hpos ⟨turn, hturn, hpast⟩
    rw [inflated_of_pos copies inflation hpos]
    exact inflate_of_past hhundred (le_of_lt hpos) hturn hpast
  · intro dearer steeper more hdearer hmost hmore hsteeper _
    exact inflated_mono hdearer hmost hmore hsteeper

/-- An emoji of 100 at the default inflation. -/
theorem price_holds_hundred :
    inflatedSigned 100 3 50 = some (inflated 100 3 50) ∧ inflated 100 3 50 = 337 :=
  ⟨(price_holds 3 (by decide) (by decide)).1, by decide⟩

end NorelecBot
