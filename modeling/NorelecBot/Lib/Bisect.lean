import Mathlib.Data.List.Basic
import Mathlib.Data.Nat.Init
import Mathlib.Tactic.Common

/-! # The first that is not below, by halves

A stretch of a list is halved until nothing is left of it. Where all that are below come
first, the search stops at the first that is not. Elsewhere it stops where the halves lead.
-/

namespace NorelecBot.Lib

variable {α : Type*} (below : α → Bool) (xs : List α)

/-- Where the search stops among so many from a place on. -/
def lowerPlace : ℕ → ℕ → ℕ → ℕ
  | 0, first, _ => first
  | fuel + 1, first, count =>
    if count = 0 then first
    else if (xs[first + count / 2]?).any below then lowerPlace fuel (first + count / 2 + 1) (count - count / 2 - 1)
    else lowerPlace fuel first (count / 2)

/-- The stretch never loses the place where those below end. -/
theorem lowerPlace_eq {split : ℕ} (hsplit : ∀ place x, xs[place]? = some x → (below x = true ↔ place < split))
    {fuel first count : ℕ} (h : count ≤ fuel) (hfirst : first ≤ split) (hlast : split ≤ first + count)
    (hinside : first + count ≤ xs.length) : lowerPlace below xs fuel first count = split := by
  induction fuel generalizing first count with
  | zero =>
    rw [lowerPlace]
    omega
  | succ fuel ih =>
    rw [lowerPlace]
    by_cases hnone : count = 0
    · rw [if_pos hnone]
      omega
    · rw [if_neg hnone]
      have hplace : first + count / 2 < xs.length := by omega
      have hbelow := hsplit (first + count / 2) _ (List.getElem?_eq_getElem hplace)
      rw [List.getElem?_eq_getElem hplace, Option.any_some]
      by_cases hlow : below xs[first + count / 2] = true
      · have hlt := hbelow.mp hlow
        rw [if_pos hlow]
        apply ih <;> omega
      · have hle := mt hbelow.mpr hlow
        rw [if_neg hlow]
        apply ih <;> omega

/-- The first that is not below, if there is any. -/
def firstNotBelow : Option α := xs[lowerPlace below xs xs.length 0 xs.length]?

/-- When nothing below comes after something that is not. -/
theorem firstNotBelow_eq_find? (h : xs.Pairwise fun x y => below y = true → below x = true) :
    firstNotBelow below xs = xs.find? fun x => !below x := by
  have hsplit (place : ℕ) (x : α) (hx : xs[place]? = some x) : below x = true ↔ place < xs.findIdx fun x => !below x := by
    obtain ⟨hplace, rfl⟩ := List.getElem?_eq_some_iff.mp hx
    constructor
    · intro hlow
      by_contra hge
      have hlength : (xs.findIdx fun x => !below x) < xs.length := Nat.lt_of_le_of_lt (Nat.not_lt.mp hge) hplace
      have hfound : (!below xs[xs.findIdx fun x => !below x]) = true := @List.findIdx_getElem α (fun x => !below x) xs hlength
      rcases Nat.eq_or_lt_of_le (Nat.not_lt.mp hge) with heq | hlt
      · simp only [heq, hlow] at hfound
        exact absurd hfound (by decide)
      · rw [List.pairwise_iff_getElem.mp h _ _ hlength hplace hlt hlow] at hfound
        exact absurd hfound (by decide)
    · intro hlt
      simpa using List.not_of_lt_findIdx hlt
  rw [firstNotBelow, lowerPlace_eq below xs hsplit (Nat.le_refl _) (Nat.zero_le _) (by simpa using List.findIdx_le_length) (by simp)]
  exact List.find?_eq_getElem?_findIdx.symm

end NorelecBot.Lib
