import NorelecBot.Lib.Meter
import NorelecBot.Runs

/-! # A hold is paid second by second, once

From the moment somebody comes in, a meter runs at the percent of the ⚡ on him;
each time fewer of them are left once something is brought back to the place, it
is read out and runs slower. Whatever ends the hold pays what the meter shows.
-/

namespace NorelecBot
open Lib

/-- What a second is worth, in percent, with that many ⚡ and each worth so much. -/
def percentOf (lightning bolts : ℤ) : ℤ := if 0 < bolts ∧ 0 < lightning then 100 + bolts * lightning else 100

/-- What some seconds in a row are worth, rounded down. -/
def stretchWorth (lightning bolts seconds : ℤ) : ℤ := seconds * percentOf lightning bolts / 100

abbrev HoldMeter := Meter ℤ ℤ ℤ

/-- Whether the seconds since the last reading are too many to multiply. -/
def TooLong (lightning : ℤ) (meter : HoldMeter) (now : ℤ) : Prop :=
  100 < percentOf lightning meter.rate ∧ int64Max / percentOf lightning meter.rate < now - meter.since

instance (lightning : ℤ) (meter : HoldMeter) (now : ℤ) : Decidable (TooLong lightning meter now) :=
  inferInstanceAs (Decidable (_ ∧ _))

def Holder.lastCounted (hold : Holder) : ℤ := max hold.since hold.countedFrom

/-- A hold that goes with a meter. With no ⚡ in force nothing is read out when one is lost, and every second
is worth the same before and after. -/
structure Holder.Runs (lightning : ℤ) (meter : HoldMeter) (hold : Holder) : Prop where
  percent : hold.lightningPercent = if 0 < meter.rate ∧ 0 < lightning then percentOf lightning meter.rate else 0
  bolts : hold.bolts = if 0 < meter.rate ∧ 0 < lightning then meter.rate else 0
  counted : hold.lastCounted ≤ meter.since
  lit : 0 < meter.rate ∧ 0 < lightning → hold.lastCounted = meter.since
  banked : hold.banked + stretchWorth lightning meter.rate (meter.since - hold.lastCounted) = meter.banked

section
variable {lightning : ℤ} {meter : HoldMeter} {hold : Holder}

theorem percentOf_lit {bolts : ℤ} (h : 0 < bolts ∧ 0 < lightning) : 100 < percentOf lightning bolts := by
  have hmore := Int.mul_pos h.1 h.2
  rw [percentOf, if_pos h]
  omega

theorem percentOf_dark {bolts : ℤ} (h : ¬ (0 < bolts ∧ 0 < lightning)) : percentOf lightning bolts = 100 := if_neg h

theorem lit_of_percentOf {bolts : ℤ} (h : 100 < percentOf lightning bolts) : 0 < bolts ∧ 0 < lightning := by
  by_contra hdark
  rw [percentOf_dark hdark] at h
  exact absurd h (lt_irrefl 100)

theorem stretchWorth_dark {bolts : ℤ} (h : ¬ (0 < bolts ∧ 0 < lightning)) (seconds : ℤ) :
    stretchWorth lightning bolts seconds = seconds := by
  rw [stretchWorth, percentOf_dark h]
  exact Int.mul_ediv_cancel _ (by norm_num)

theorem stretchWorth_zero (lightning bolts : ℤ) : stretchWorth lightning bolts 0 = 0 := by
  rw [stretchWorth, zero_mul, Int.zero_ediv]

theorem uncounted_eq {now : ℤ} (h : hold.lastCounted ≤ now) : uncounted hold now = now - hold.lastCounted := by
  rw [uncounted]
  split
  · rfl
  · rename_i hlate
    change ¬ now > hold.lastCounted at hlate
    omega

theorem Holder.Runs.read (h : hold.Runs lightning meter) (now : ℤ) :
    hold.banked + stretchWorth lightning meter.rate (now - hold.lastCounted) =
      meter.read (stretchWorth lightning) now := by
  rw [Meter.read, ← h.banked]
  by_cases hlit : 0 < meter.rate ∧ 0 < lightning
  · rw [h.lit hlit, sub_self, stretchWorth_zero, add_zero]
  · rw [stretchWorth_dark hlit, stretchWorth_dark hlit, stretchWorth_dark hlit]
    omega

/-- What the hold made since it was counted, unless the seconds are too many. -/
theorem Holder.Runs.holdValue_eq (h : hold.Runs lightning meter) {now : ℤ} (hnow : meter.since ≤ now) :
    holdValue hold now =
      if TooLong lightning meter now then .error .overflow
      else .ok
        { earned := stretchWorth lightning meter.rate (now - hold.lastCounted)
          lightning := hold.lightningPercent
          zodiacPercent := dayPercent } := by
  have hseconds := uncounted_eq (h.counted.trans hnow)
  have hnonneg := uncounted_nonneg hold now
  rw [hseconds] at hnonneg
  by_cases hlit : 0 < meter.rate ∧ 0 < lightning
  · have hpercent := h.percent
    rw [if_pos hlit] at hpercent
    have hmore := percentOf_lit hlit
    have hlong : TooLong lightning meter now ↔
        now - hold.lastCounted > int64Max.tdiv (percentOf lightning meter.rate) := by
      rw [TooLong, h.lit hlit, Int.tdiv_eq_ediv_of_nonneg (by decide)]
      exact and_iff_right hmore
    rw [holdValue, hpercent, if_pos hmore, hseconds]
    simp only [hlong]
    rw [byTheDay_eq, stretchWorth, Int.tdiv_eq_ediv_of_nonneg (mul_nonneg hnonneg (by omega))]
  · have hpercent := h.percent
    rw [if_neg hlit] at hpercent
    have hshort : ¬ TooLong lightning meter now := fun hlong => hlit (lit_of_percentOf hlong.1)
    rw [holdValue, hpercent, if_neg (by norm_num), if_neg hshort, hseconds, byTheDay_eq, stretchWorth_dark hlit]

theorem Holder.Runs.settleHold_eq (h : hold.Runs lightning meter) {now : ℤ} (hnow : meter.since ≤ now)
    (s : ConquisterState) :
    settleHold s hold now =
      if TooLong lightning meter now ∨ (0 < counter s.scores hold.username ∧
          int64Max - counter s.scores hold.username < meter.read (stretchWorth lightning) now) then
        .error .overflow
      else .ok
        ({ earned := meter.read (stretchWorth lightning) now
           lightning := hold.lightningPercent
           zodiacPercent := dayPercent },
          { s with
            scores := s.scores.set hold.username
              (counter s.scores hold.username + meter.read (stretchWorth lightning) now) }) := by
  have hread := h.read now
  rw [add_comm] at hread
  rw [settleHold, h.holdValue_eq hnow]
  by_cases hlong : TooLong lightning meter now
  · rw [if_pos hlong, if_pos (.inl hlong)]
  · rw [if_neg hlong]
    simp only [hread, hlong, false_or]

/-- A hold goes with its meter whatever its 🦞 look like. -/
theorem Holder.Runs.congr {hold' : Holder} (h : hold.Runs lightning meter) (hsame : hold'.account = hold.account) :
    hold'.Runs lightning meter ∧ hold'.username = hold.username := by
  obtain ⟨-, hname, hsince, hpercent, hbolts, hbanked, hcounted, -⟩ := Holder.mk.inj hsame
  have hfrom : hold'.lastCounted = hold.lastCounted := by rw [Holder.lastCounted, hsince, hcounted]; rfl
  refine ⟨⟨?_, ?_, ?_, ?_, ?_⟩, hname⟩
  · rw [hpercent, h.percent]
  · rw [hbolts, h.bolts]
  · rw [hfrom]
    exact h.counted
  · rw [hfrom]
    exact h.lit
  · rw [hbanked, hfrom, h.banked]

/-- The instant a ⚡ is lost the hold is counted up to there, and goes with the slower meter. -/
theorem Holder.Runs.slows (h : hold.Runs lightning meter) {now left : ℤ} (hnow : meter.since ≤ now)
    (hnonneg : 0 ≤ left) (hfewer : left < meter.rate) (hlightning : 0 < lightning) :
    ((hold.bank (stretchWorth lightning meter.rate (now - hold.lastCounted)) now).withBolts left).Runs lightning
      (meter.change (stretchWorth lightning) now left) := by
  have hlit : 0 < meter.rate ∧ 0 < lightning := ⟨hnonneg.trans_lt hfewer, hlightning⟩
  have hpercent := h.percent
  have hbolts := h.bolts
  rw [if_pos hlit, percentOf, if_pos hlit] at hpercent
  rw [if_pos hlit] at hbolts
  -- The share of one ⚡ is read back from the percent they stand for together.
  have hshare : (hold.lightningPercent - 100).tdiv hold.bolts = lightning := by
    rw [hpercent, hbolts, add_sub_cancel_left]
    exact Int.mul_tdiv_cancel_left _ hlit.1.ne'
  have hsince : hold.since ≤ now := (le_max_left _ _).trans (h.counted.trans hnow)
  have hcounted : ((hold.bank (stretchWorth lightning meter.rate (now - hold.lastCounted)) now).withBolts
      left).lastCounted = now := by
    change max hold.since (max now hold.since) = now
    omega
  refine ⟨?_, ?_, hcounted.le, fun _ => hcounted, ?_⟩
  · change (if left > 0 then 100 + left * (hold.lightningPercent - 100).tdiv hold.bolts else 0) =
      if 0 < left ∧ 0 < lightning then percentOf lightning left else 0
    rw [hshare, percentOf]
    simp only [hlightning, and_true]
    split <;> rfl
  · change left = if 0 < left ∧ 0 < lightning then left else 0
    split <;> omega
  · rw [hcounted]
    change hold.banked + stretchWorth lightning meter.rate (now - hold.lastCounted) +
      stretchWorth lightning left (now - now) = _
    rw [sub_self, stretchWorth_zero, add_zero, h.read now]
    rfl

/-- Where ⚡ are worth nothing, the meter that is read out goes with the hold all the same. -/
theorem Holder.Runs.unlit (h : hold.Runs lightning meter) {now left : ℤ} (hnow : meter.since ≤ now)
    (hdark : ¬ 0 < lightning) : hold.Runs lightning (meter.change (stretchWorth lightning) now left) := by
  have hbefore : ¬ (0 < meter.rate ∧ 0 < lightning) := fun hlit => hdark hlit.2
  have hafter : ¬ (0 < left ∧ 0 < lightning) := fun hlit => hdark hlit.2
  refine ⟨?_, ?_, h.counted.trans hnow, fun hlit => absurd hlit.2 hdark, ?_⟩
  · rw [h.percent, if_neg hbefore]
    exact (if_neg hafter).symm
  · rw [h.bolts, if_neg hbefore]
    exact (if_neg hafter).symm
  · change hold.banked + stretchWorth lightning left (now - hold.lastCounted) =
      meter.read (stretchWorth lightning) now
    rw [stretchWorth_dark hafter, ← h.read now,
      stretchWorth_dark hbefore]

end

section
variable [SlotCodec]

theorem carriedCopies_nonneg (s : ConquisterState) (player : Str) (power : Power) :
    0 ≤ carriedCopies s player power := Int.natCast_nonneg _

/-- What the holder shows depends on whose the hold is and on what his 🦞 came in as. -/
theorem carriedCopies_hold {s t : ConquisterState} {hold hold' : Holder} (hheld : s.current = some hold)
    (hheld' : t.current = some hold') (hname : hold'.username = hold.username)
    (hlobsters : hold'.lobsters = hold.lobsters) (hgear : t.equipped = s.equipped) (player : Str) (power : Power) :
    carriedCopies t player power = carriedCopies s player power := by
  rw [carriedCopies, carriedCopies, shownGear, shownGear, hheld, hheld']
  simp only [hname, hlobsters, gearOf, hgear]

theorem newHold_runs (s : ConquisterState) (userId : ℤ) (username : Str) {now : ℤ} (lightning : ℤ)
    (lobsters : SortedMap Str) (hnow : 0 ≤ now) :
    (newHold s userId username now lightning lobsters).Runs lightning
      ⟨now, carriedCopies { s with current := some (newHold s userId username now lightning lobsters) } username .bolt,
        0⟩ := by
  let bare : Holder := { userId := userId, username := username, since := now, lobsters := lobsters }
  have hbolts : carriedCopies { s with current := some (newHold s userId username now lightning lobsters) } username
      .bolt = carriedCopies { s with current := some bare } username .bolt :=
    carriedCopies_hold (s := { s with current := some bare }) rfl rfl rfl rfl rfl username .bolt
  rw [hbolts]
  have hcounted : (newHold s userId username now lightning lobsters).lastCounted = now := max_eq_left hnow
  generalize hb : carriedCopies { s with current := some bare } username .bolt = bolts
  have hpercent : (newHold s userId username now lightning lobsters).lightningPercent =
      if 0 < bolts ∧ 0 < lightning then percentOf lightning bolts else 0 := by
    rw [percentOf, ← hb]
    change (if _ then _ else _) = _
    split_ifs <;> rfl
  refine ⟨hpercent, ?_, hcounted.le, fun _ => hcounted, ?_⟩
  · change (if (newHold s userId username now lightning lobsters).lightningPercent > 0 then
      carriedCopies { s with current := some bare } username .bolt else 0) = if 0 < bolts ∧ 0 < lightning then bolts else 0
    rw [hpercent, hb]
    by_cases hlit : 0 < bolts ∧ 0 < lightning
    · have hmore := percentOf_lit hlit
      rw [if_pos hlit, if_pos (by omega), if_pos hlit]
    · rw [if_neg hlit, if_neg (lt_irrefl 0), if_neg hlit]
  · rw [hcounted, sub_self, stretchWorth_zero]
    rfl

/-- What is left of the ⚡ is read off, and the meter runs slower if it is fewer of them. -/
theorem loseBolts_runs {s t : ConquisterState} {now lightning : ℤ} {hold : Holder} {meter : HoldMeter}
    (hheld : s.current = some hold) (hruns : hold.Runs lightning meter) (hnow : meter.since ≤ now)
    (h : loseBolts s now = .ok t) :
    ∃ hold', t.current = some hold' ∧ hold'.username = hold.username ∧ hold'.Runs lightning
      (meter.watch (stretchWorth lightning) [(now, carriedCopies t hold.username .bolt)]) := by
  have hbolts := hruns.bolts
  have hnonneg := carriedCopies_nonneg s hold.username .bolt
  rw [loseBolts, hheld] at h
  dsimp only at h
  rw [Meter.watch_cons]
  split at h
  · rename_i hsame
    cases h
    refine ⟨hold, hheld, rfl, ?_⟩
    split
    · rename_i hfewer
      dsimp only at hfewer
      have hdark : ¬ 0 < lightning := by
        intro hlightning
        rw [if_pos ⟨hnonneg.trans_lt hfewer, hlightning⟩] at hbolts
        omega
      exact hruns.unlit hnow hdark
    · exact hruns
  · rename_i hlost
    rw [hruns.holdValue_eq hnow] at h
    split at h
    · cases h
    · rename_i value hvalue
      split at hvalue
      · cases hvalue
      · cases hvalue
        have ht := Except.ok.inj h
        have hheld' := congrArg ConquisterState.current ht.symm
        have hgear : t.equipped = s.equipped := by rw [← ht]
        have hleft := carriedCopies_hold hheld hheld' rfl rfl hgear hold.username .bolt
        have hlit : 0 < meter.rate ∧ 0 < lightning := by
          by_contra hdark
          rw [if_neg hdark] at hbolts
          omega
        rw [if_pos hlit] at hbolts
        rw [hleft, if_pos (by dsimp only; omega)]
        exact ⟨_, hheld', rfl, hruns.slows hnow hnonneg (by omega) hlit.2⟩

end

end NorelecBot
