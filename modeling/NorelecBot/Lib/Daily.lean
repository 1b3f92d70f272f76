import Mathlib.Algebra.Order.Ring.Int
import Mathlib.Data.List.Basic
import Mathlib.Data.List.Nodup

/-! # What is done once a day

A bell that is wanted now and then, and rings if it did not ring today. While the
days do not go back it rings once on every day it is wanted, and on no other.
-/

namespace NorelecBot.Lib.Daily

structure Moment where
  day : ℤ
  wanted : Bool
  deriving DecidableEq, Repr

def Moment.rings (moment : Moment) (last : ℤ) : Bool := moment.wanted && last ≠ moment.day

def Moment.next (moment : Moment) (last : ℤ) : ℤ := if moment.rings last then moment.day else last

def rings : ℤ → List Moment → List ℤ
  | _, [] => []
  | last, moment :: moments =>
    if moment.rings last then moment.day :: rings moment.day moments else rings last moments

def lastDay (last : ℤ) (moments : List Moment) : ℤ := moments.foldl (fun last moment => moment.next last) last

def Onward (last : ℤ) (moments : List Moment) : Prop :=
  (∀ moment ∈ moments, last ≤ moment.day) ∧ moments.Pairwise fun one other => one.day ≤ other.day

variable {last : ℤ} {moment : Moment} {moments : List Moment}

theorem Onward.tail (h : Onward last (moment :: moments)) : Onward last moments :=
  ⟨fun other hother => h.1 other (List.mem_cons_of_mem moment hother), (List.pairwise_cons.mp h.2).2⟩

theorem Onward.ring (h : Onward last (moment :: moments)) : Onward moment.day moments :=
  ⟨(List.pairwise_cons.mp h.2).1, (List.pairwise_cons.mp h.2).2⟩

theorem Onward.first (h : Onward last (moment :: moments)) : last ≤ moment.day := h.1 moment List.mem_cons_self

def WantedOn (day : ℤ) (moments : List Moment) : Prop := ∃ moment ∈ moments, moment.day = day ∧ moment.wanted = true

instance (day : ℤ) (moments : List Moment) : Decidable (WantedOn day moments) :=
  inferInstanceAs (Decidable (∃ moment ∈ moments, _))

theorem wantedOn_cons {day : ℤ} :
    WantedOn day (moment :: moments) ↔ (moment.day = day ∧ moment.wanted = true) ∨ WantedOn day moments := by
  simp [WantedOn]

theorem rings_iff : moment.rings last = true ↔ moment.wanted = true ∧ last ≠ moment.day := by
  simp [Moment.rings]

/-- It rings once on a day it is wanted, unless it had rung on it already. -/
theorem count_rings (h : Onward last moments) (day : ℤ) :
    (rings last moments).count day = if last ≠ day ∧ WantedOn day moments then 1 else 0 := by
  induction moments generalizing last with
  | nil => simp [rings, WantedOn]
  | cons moment moments ih =>
    rw [rings]
    by_cases hrings : moment.rings last = true
    · obtain ⟨hwanted, hnot⟩ := rings_iff.mp hrings
      rw [if_pos hrings, List.count_cons, ih h.ring]
      by_cases hday : moment.day = day
      · simp [wantedOn_cons, hday, hwanted, hday ▸ hnot]
      · have hlater : WantedOn day moments → last ≠ day := by
          rintro ⟨other, hother, rfl, -⟩
          have hfirst := h.first
          have hnext := h.ring.1 other hother
          omega
        by_cases hwantedOn : WantedOn day moments
        · simp [wantedOn_cons, hday, hwantedOn, hlater hwantedOn]
        · simp [wantedOn_cons, hday, hwantedOn]
    · have hsame : moment.day = day ∧ moment.wanted = true → last = day := by
        rintro ⟨rfl, hwanted⟩
        by_contra hnot
        exact hrings (rings_iff.mpr ⟨hwanted, hnot⟩)
      rw [if_neg hrings, ih h.tail]
      by_cases hlast : last = day
      · simp [hlast]
      · have hnot : ¬ (moment.day = day ∧ moment.wanted = true) := fun hthere => hlast (hsame hthere)
        simp only [wantedOn_cons, hnot, false_or]

/-- A bell that never rang rings on the days it is wanted, once each. -/
theorem rings_once (h : Onward 0 moments) (hlate : ∀ moment ∈ moments, 0 < moment.day) :
    (rings 0 moments).Nodup ∧ ∀ day, day ∈ rings 0 moments ↔ WantedOn day moments := by
  constructor
  · rw [List.nodup_iff_count_le_one]
    intro day
    rw [count_rings h]
    split <;> simp
  · intro day
    rw [← List.count_pos_iff, count_rings h]
    have hday : WantedOn day moments → 0 ≠ day := by
      rintro ⟨moment, hmoment, rfl, -⟩
      exact (hlate moment hmoment).ne
    by_cases hwanted : WantedOn day moments
    · simp [hwanted, hday hwanted]
    · simp [hwanted]

@[simp] theorem lastDay_nil : lastDay last [] = last := rfl

theorem lastDay_cons : lastDay last (moment :: moments) = lastDay (moment.next last) moments := rfl

/-- Whether today is the day it last rang. -/
theorem lastDay_eq_iff (h : Onward last moments) {day : ℤ} (hday : ∀ moment ∈ moments, moment.day ≤ day) :
    lastDay last moments = day ↔ last = day ∨ WantedOn day moments := by
  induction moments generalizing last with
  | nil => simp [WantedOn]
  | cons moment moments ih =>
    have hthese := hday moment List.mem_cons_self
    have hthose := fun other hother => hday other (List.mem_cons_of_mem moment hother)
    have hfirst := h.first
    rw [lastDay_cons, Moment.next, wantedOn_cons]
    by_cases hrings : moment.rings last = true
    · obtain ⟨hwanted, hnot⟩ := rings_iff.mp hrings
      have hpast : last ≠ day := by omega
      rw [if_pos hrings, ih h.ring hthose]
      simp [hwanted, hpast]
    · have hsame : moment.day = day ∧ moment.wanted = true → last = day := by
        rintro ⟨rfl, hwanted⟩
        by_contra hnot
        exact hrings (rings_iff.mpr ⟨hwanted, hnot⟩)
      rw [if_neg hrings, ih h.tail hthose]
      tauto

end NorelecBot.Lib.Daily
