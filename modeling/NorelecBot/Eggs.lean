import NorelecBot.GrowthPassages
import Mathlib.Tactic.Ring

/-! # The eggs do not depend on the rounds

A round pays the whole minutes since the last time paid for and puts that time
forward by as many. What is left of a minute waits, so any rounds between two times
pay what one round would.
-/

namespace NorelecBot
open Lib

def laidPerMinute (state : ConquisterState) (rules : RaidRules) (player : Str) : ℤ :=
  houseCopies state player .hen * rules.henPerMinute

theorem laidPerMinute_congr {s s' : ConquisterState} (h : s'.furniture = s.furniture) (rules : RaidRules)
    (player : Str) : laidPerMinute s' rules player = laidPerMinute s rules player := by
  simp only [laidPerMinute, houseCopies, slotsOf, h]

theorem counter_payAll (laid : List (Str × ℤ)) (scores : Counters) (player : Str) :
    counter (laid.foldl payEggs scores) player =
      counter scores player + ((laid.filter (·.1 = player)).map Prod.snd).sum := by
  induction laid generalizing scores with
  | nil => simp
  | cons eggs laid ih =>
    rw [List.foldl_cons, ih, payEggs, counter_set]
    by_cases hsame : eggs.1 = player
    · rw [if_pos hsame.symm, List.filter_cons_of_pos (by simpa using hsame), List.map_cons, List.sum_cons, hsame]
      ring
    · rw [if_neg fun h => hsame h.symm, List.filter_cons_of_neg (by simpa using hsame)]

theorem houseCopies_of_no_house {s : ConquisterState} {player : Str} (h : player ∉ s.furniture.keys) :
    houseCopies s player .hen = 0 := by
  rw [houseCopies, slotsOf, storedIn, OrderedMap.find_eq_none.mpr h]
  rfl

/-- A player has one house, or none and no hens. -/
theorem eggsLaid_of (s : ConquisterState) (minutes : ℤ) (rules : RaidRules) (player : Str) :
    (((eggsLaid s minutes rules).filter (·.1 = player)).map Prod.snd).sum =
      laidPerMinute s rules player * minutes := by
  have hone (keys : List Str) (hkeys : keys.Nodup) :
      ((((keys.filter fun owner => 0 < houseCopies s owner .hen).map fun owner =>
        (owner, houseCopies s owner .hen * rules.henPerMinute * minutes)).filter (·.1 = player)).map Prod.snd).sum =
      if player ∈ keys then laidPerMinute s rules player * minutes else 0 := by
    induction keys with
    | nil => simp
    | cons owner keys ih =>
      obtain ⟨hnew, hkeys⟩ := List.nodup_cons.mp hkeys
      have hrest := ih hkeys
      have hnone : houseCopies s owner .hen ≤ 0 → laidPerMinute s rules owner = 0 := by
        intro hhens
        rw [laidPerMinute, le_antisymm hhens (countPower_nonneg _ _), zero_mul]
      by_cases hhens : 0 < houseCopies s owner .hen
      · rw [List.filter_cons_of_pos (by simpa using hhens), List.map_cons]
        by_cases hsame : owner = player
        · subst hsame
          rw [if_neg hnew] at hrest
          rw [List.filter_cons_of_pos (by simp), List.map_cons, List.sum_cons, hrest, if_pos List.mem_cons_self, add_zero]
          rfl
        · rw [List.filter_cons_of_neg (by simpa using hsame), hrest]
          simp [Ne.symm hsame]
      · rw [List.filter_cons_of_neg (by simpa using hhens), hrest]
        by_cases hsame : owner = player
        · subst hsame
          rw [if_neg hnew, if_pos List.mem_cons_self, hnone (not_lt.mp hhens), zero_mul]
        · simp [Ne.symm hsame]
  rw [eggsLaid, hone s.furniture.keys s.furniture.nodup]
  split
  · rfl
  · rename_i hnot
    rw [laidPerMinute, houseCopies_of_no_house hnot, zero_mul, zero_mul]

@[simp] theorem layEggs_furniture (s : ConquisterState) (now : ℤ) (rules : RaidRules) :
    (layEggs s now rules).furniture = s.furniture := by
  rw [layEggs]
  split_ifs <;> rfl

/-- What a round pays to each player. -/
theorem counter_layEggs (s : ConquisterState) (now : ℤ) (rules : RaidRules) (player : Str) :
    counter (layEggs s now rules).scores player =
      counter s.scores player + laidPerMinute s rules player * eggMinutes s now rules := by
  rw [layEggs]
  split_ifs with hnone hlate hsoon
  · rw [eggMinutes, if_pos (.inl hnone), mul_zero, add_zero]
  · rw [eggMinutes, if_pos (.inr hlate), mul_zero, add_zero]
  · rw [le_antisymm hsoon (eggMinutes_nonneg s now rules), mul_zero, add_zero]
  · rw [counter_payAll, eggsLaid_of]

theorem layEggs_first (s : ConquisterState) (now : ℤ) {rules : RaidRules} (hrate : 0 < rules.henPerMinute)
    (hunset : s.eggsAt ≤ 0) : eggMinutes s now rules = 0 ∧ (layEggs s now rules).eggsAt = now := by
  rw [eggMinutes, if_pos (.inr (.inl hunset)), layEggs, if_neg (not_le.mpr hrate), if_pos (.inl hunset)]
  exact ⟨rfl, rfl⟩

theorem layEggs_later (s : ConquisterState) (now : ℤ) {rules : RaidRules} (hrate : 0 < rules.henPerMinute)
    (hset : 0 < s.eggsAt) (hnow : s.eggsAt ≤ now) : eggMinutes s now rules = (now - s.eggsAt) / 60 ∧
      (layEggs s now rules).eggsAt = s.eggsAt + 60 * ((now - s.eggsAt) / 60) := by
  have hminutes : eggMinutes s now rules = (now - s.eggsAt) / 60 := by
    rw [eggMinutes, if_neg (by omega), Int.tdiv_eq_ediv_of_nonneg (by omega)]
  refine ⟨hminutes, ?_⟩
  rw [layEggs, if_neg (not_le.mpr hrate), if_neg (by omega), hminutes]
  split
  · have hnonneg : 0 ≤ (now - s.eggsAt) / 60 := Int.ediv_nonneg (by omega) (by norm_num)
    omega
  · rw [mul_comm]

/-- Rounds at some times and what they paid in all. In between anything may happen to anything but the houses
and the time that is paid up to. -/
inductive EggRounds (rules : RaidRules) : ConquisterState → List ℤ → (Str → ℤ) → ConquisterState → Prop
  | done (s : ConquisterState) : EggRounds rules s [] (fun _ => 0) s
  | round {s last : ConquisterState} {now : ℤ} {times : List ℤ} {paid : Str → ℤ} :
    EggRounds rules (layEggs s now rules) times paid last →
    EggRounds rules s (now :: times) (fun player =>
      counter (layEggs s now rules).scores player - counter s.scores player + paid player) last
  | between {s s' last : ConquisterState} {times : List ℤ} {paid : Str → ℤ} :
    s'.furniture = s.furniture → s'.eggsAt = s.eggsAt → EggRounds rules s' times paid last →
    EggRounds rules s times paid last

/-- From a round on, whose time is less than a minute after what is paid for. -/
theorem EggRounds.later {rules : RaidRules} {s last : ConquisterState} {times : List ℤ} {paid : Str → ℤ}
    (h : EggRounds rules s times paid last) (before : ℤ) (hrate : 0 < rules.henPerMinute) (hset : 0 < s.eggsAt)
    (hbefore : s.eggsAt ≤ before ∧ before < s.eggsAt + 60) (hsorted : (before :: times).Pairwise (· ≤ ·)) :
    (∀ player, paid player = laidPerMinute s rules player * ((times.getLastD before - s.eggsAt) / 60)) ∧
      last.eggsAt = s.eggsAt + 60 * ((times.getLastD before - s.eggsAt) / 60) := by
  induction h generalizing before with
  | done s =>
    have hnone : (before - s.eggsAt) / 60 = 0 := by omega
    rw [List.getLastD_nil, hnone]
    simp
  | @round s last now times paid hrest ih =>
    obtain ⟨hless, hsortedRest⟩ := List.pairwise_cons.mp hsorted
    have hnow := hless now List.mem_cons_self
    obtain ⟨hminutes, heggsAt⟩ := layEggs_later s now hrate hset (by omega)
    rw [heggsAt] at ih
    obtain ⟨hpaid, hlast⟩ := ih now (by omega) (by omega) hsortedRest
    rw [List.getLastD_cons]
    -- The minutes of this round and those of the others are the minutes of all.
    have hsum : (times.getLastD now - s.eggsAt) / 60 = (now - s.eggsAt) / 60 +
        (times.getLastD now - (s.eggsAt + 60 * ((now - s.eggsAt) / 60))) / 60 := by omega
    refine ⟨fun player => ?_, by omega⟩
    have hthen := hpaid player
    rw [laidPerMinute_congr (layEggs_furniture s now rules)] at hthen
    dsimp only
    rw [counter_layEggs, hminutes, hthen, hsum]
    ring
  | between hhouses heggsAt hrest ih =>
    rw [heggsAt] at ih
    obtain ⟨hpaid, hlast⟩ := ih before hset hbefore hsorted
    refine ⟨fun player => ?_, hlast⟩
    rw [hpaid, laidPerMinute_congr hhouses]

/-- From before the first round, which only sets the time. -/
theorem EggRounds.all {rules : RaidRules} {s last : ConquisterState} {times : List ℤ} {paid : Str → ℤ} {first final : ℤ}
    (h : EggRounds rules s times paid last) (hrate : 0 < rules.henPerMinute) (hunset : s.eggsAt ≤ 0)
    (hsorted : times.Pairwise (· ≤ ·)) (hpositive : ∀ time ∈ times, 0 < time) (hfirst : times.head? = some first)
    (hfinal : times.getLast? = some final) :
    (∀ player, paid player = laidPerMinute s rules player * ((final - first) / 60)) ∧
      last.eggsAt = first + 60 * ((final - first) / 60) := by
  induction h with
  | done s => cases hfirst
  | @round s last now times paid hrest ih =>
    cases hfirst
    obtain ⟨hminutes, heggsAt⟩ := layEggs_first s first hrate hunset
    have hnow := hpositive first List.mem_cons_self
    obtain ⟨hpaid, hlast⟩ := hrest.later first hrate (by omega) (by omega) hsorted
    have hend : times.getLastD first = final := by
      rw [List.getLast?_cons] at hfinal
      rw [← Option.some.inj hfinal, List.getLastD_eq_getLast?]
    rw [heggsAt, hend] at hpaid hlast
    refine ⟨fun player => ?_, hlast⟩
    have hthen := hpaid player
    rw [laidPerMinute_congr (layEggs_furniture s first rules)] at hthen
    dsimp only
    rw [counter_layEggs, hminutes, hthen]
    ring
  | between hhouses heggsAt hrest ih =>
    obtain ⟨hpaid, hlast⟩ := ih (heggsAt ▸ hunset) hsorted hpositive hfirst hfinal
    refine ⟨fun player => ?_, hlast⟩
    rw [hpaid, laidPerMinute_congr hhouses]

/-- Two sequences of rounds from the first time to the last pay the same. -/
theorem eggs_whenever {rules : RaidRules} {s s' last last' : ConquisterState} {times times' : List ℤ}
    {paid paid' : Str → ℤ} {first final : ℤ} (hrate : 0 < rules.henPerMinute)
    (h : EggRounds rules s times paid last) (h' : EggRounds rules s' times' paid' last')
    (hunset : s.eggsAt ≤ 0) (hunset' : s'.eggsAt ≤ 0) (hhouses : s'.furniture = s.furniture)
    (hsorted : times.Pairwise (· ≤ ·)) (hsorted' : times'.Pairwise (· ≤ ·))
    (hpositive : ∀ time ∈ times, 0 < time) (hpositive' : ∀ time ∈ times', 0 < time)
    (hfirst : times.head? = some first) (hfirst' : times'.head? = some first)
    (hfinal : times.getLast? = some final) (hfinal' : times'.getLast? = some final) :
    (∀ player, paid player = houseCopies s player .hen * rules.henPerMinute * ((final - first) / 60) ∧
        paid' player = paid player) ∧
      last.eggsAt = first + 60 * ((final - first) / 60) ∧ last'.eggsAt = last.eggsAt := by
  obtain ⟨hpaid, hlast⟩ := h.all hrate hunset hsorted hpositive hfirst hfinal
  obtain ⟨hpaid', hlast'⟩ := h'.all hrate hunset' hsorted' hpositive' hfirst' hfinal'
  refine ⟨fun player => ⟨hpaid player, ?_⟩, hlast, hlast'.trans hlast.symm⟩
  rw [hpaid', hpaid, laidPerMinute_congr hhouses]

def henHouse : ConquisterState :=
  { furniture := OrderedMap.empty.set (utf8 "ada") (utf8 "🐔") }

theorem eggs_whenever_hen : ∃ paid last paid' last',
    EggRounds { henPerMinute := 2 } henHouse [100, 170, 230, 259] paid last ∧
      EggRounds { henPerMinute := 2 } henHouse [100, 259] paid' last' ∧
      (∀ player, paid player = houseCopies henHouse player .hen * 2 * ((259 - 100) / 60) ∧
        paid' player = paid player) ∧
      last.eggsAt = 100 + 60 * ((259 - 100) / 60) ∧ last'.eggsAt = last.eggsAt := by
  refine ⟨_, _, _, _, .round (.round (.round (.round (.done _)))), .round (.round (.done _)), ?_⟩
  have hrate : 0 < ({ henPerMinute := 2 } : RaidRules).henPerMinute := by decide
  exact eggs_whenever hrate (.round (.round (.round (.round (.done _)))))
    (.round (.round (.done _))) (by decide) (by decide) rfl (by decide) (by decide) (by decide) (by decide) rfl rfl
    rfl rfl

end NorelecBot
