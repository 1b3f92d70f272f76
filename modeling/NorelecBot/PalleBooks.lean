import NorelecBot.OperationPassages

/-! # The books of the palle

Palle are on the scores and on the rides. What an operation brings in or takes
out is written here kind by kind; robberies, salt, gifts, ways back and
homecomings have no line of their own.
-/

namespace NorelecBot
open Lib

section
variable [SlotCodec]

/-- The sender is free to set off for somebody else, with palle he has and an emoji that cannot go. -/
def Op.Forfeits (state : ConquisterState) : Op → Prop
  | .raidStart userId username now rules errand _ =>
    let known := rememberPlatform state username userId
    ¬ homewards known userId username errand ∧ raidOf known username = none ∧
      frozenFor known username now ≤ 0 ∧ whereabouts known username ≠ .conquister ∧
      0 < errand.gift ∧ errand.gift ≤ counter known.scores username ∧
      ∃ target, playerByName known errand.target errand.kind = some target ∧
        cannotCarry known username target errand rules.furnitureLimit ≠ none
  | _ => False

theorem load_forfeited {s t : ConquisterState} {username known : Str} {now : ℤ} {rules : RaidRules}
    {errand : Errand} {draws : StartDraws} {result : RaidResult}
    (h : load s username known now rules errand draws = .ok (result, t)) :
    result.forfeited errand =
      if cannotCarry s username known errand rules.furnitureLimit = none then 0 else errand.gift := by
  rw [load] at h
  dsimp only at h
  rw [cannotCarry_takePalle] at h
  split at h
  · rename_i status hcannot
    cases h
    rw [RaidResult.forfeited, if_pos (cannotCarry_eq_some hcannot), hcannot, if_neg (Option.some_ne_none _)]
  · rename_i hcan
    rw [RaidResult.forfeited, (depart_eq_ok h).1, if_neg (by decide), if_pos hcan]

theorem setOff_forfeited {s t : ConquisterState} {username known : Str} {now : ℤ} {rules : RaidRules}
    {errand : Errand} {draws : StartDraws} {result : RaidResult}
    (h : setOff s username known now rules errand draws = .ok (result, t)) :
    result.forfeited errand ≠ 0 ↔ raidOf s username = none ∧ frozenFor s username now ≤ 0 ∧
      whereabouts s username ≠ .conquister ∧ 0 < errand.gift ∧ errand.gift ≤ counter s.scores username ∧
      cannotCarry s username known errand rules.furnitureLimit ≠ none := by
  rw [setOff] at h
  split at h
  · rename_i travelling hroad
    cases h
    simp [RaidResult.forfeited, hroad]
  · rename_i hroad
    split at h
    · rename_i hblow
      cases h
      -- A blow takes no palle along.
      have hnone : errand.gift = 0 := by
        simp only [Errand.blow, Bool.and_eq_true, decide_eq_true_eq] at hblow
        exact hblow.1.1
      simp [RaidResult.forfeited, hnone]
    · split at h
      · rename_i hfrozen
        cases h
        simp [RaidResult.forfeited, hfrozen]
      · rename_i hfree
        split at h
        · rename_i hplace
          cases h
          simp [RaidResult.forfeited, hplace]
        · rename_i hplace
          split at h
          · rename_i hnegative
            cases h
            simp [RaidResult.forfeited, hnegative.le]
          · rename_i hgift
            split at h
            · rename_i hshort
              cases h
              simp [RaidResult.forfeited, hshort.2]
            · rename_i henough
              rw [load_forfeited h]
              split
              · rename_i hcan
                simp [hcan]
              · rename_i hcannot
                refine ⟨fun hne => ⟨hroad, not_lt.mp hfree, hplace, ?_, ?_, hcannot⟩, fun hall => ?_⟩
                · omega
                · omega
                · exact hall.2.2.2.1.ne'

theorem raidStart_forfeited {s t : ConquisterState} {userId : ℤ} {username : Str} {now : ℤ} {rules : RaidRules}
    {errand : Errand} {draws : StartDraws} {result : RaidResult}
    (h : raidStart s userId username now rules errand draws = .ok (result, t)) :
    result.forfeited errand ≠ 0 ↔ (Op.raidStart userId username now rules errand draws).Forfeits s := by
  rw [Op.Forfeits]
  rw [raidStart] at h
  generalize rememberPlatform s username userId = known at h
  split at h
  · rename_i hhome
    rcases rideHome_status h with hstatus | hstatus | hstatus <;> simp [RaidResult.forfeited, hstatus, hhome]
  · rename_i haway
    split at h
    · rename_i hnobody
      cases h
      simp [RaidResult.forfeited, hnobody]
    · rename_i target htarget
      rw [setOff_forfeited h]
      simp [haway, htarget]

/-- Only what is thrown at the place starts anything over or blows anything up. -/
theorem furnitureBurn_spares {s t : ConquisterState} {player emoji : Str} {now : ℤ} {rules : RaidRules}
    {destroy : Bool} {draws : LandDraws} {result : FurnitureBurnResult}
    (h : furnitureBurn s player emoji now rules destroy draws = .ok (result, t))
    (hnot : ¬ (result.status = .burned ∧ destroy = false)) : result.reset = false ∧ result.blown = [] := by
  rw [furnitureBurn] at h
  split at h
  · cases h
    exact ⟨rfl, rfl⟩
  · split at h
    · split_ifs at h <;> cases h <;> exact ⟨rfl, rfl⟩
    · split at h
      · obtain ⟨rfl, -⟩ := thenLoseBolts_eq_ok h
        exact ⟨rfl, rfl⟩
      · rename_i hkept
        refine absurd ⟨?_, by simpa using hkept⟩ hnot
        split at h
        · cases h
          rfl
        · obtain ⟨rfl, -⟩ := thenLoseBolts_eq_ok h
          rw [throwAtPlace]
          split <;> rfl

/-- With the emoji taken, no palle have moved yet: a ☢️ wipes them all. -/
theorem furnitureBurn_palle {s t : ConquisterState} {player emoji : Str} {now : ℤ} {rules : RaidRules}
    {destroy : Bool} {draws : LandDraws} {result : FurnitureBurnResult}
    (h : furnitureBurn s player emoji now rules destroy draws = .ok (result, t)) :
    totalPalle t = totalPalle s + if result.reset then -totalPalle s else 0 := by
  have hspared (hnot : ¬ (result.status = .burned ∧ destroy = false)) : result.reset = false :=
    (furnitureBurn_spares h hnot).1
  rcases furnitureBurn_passage h with ⟨hstatus, rfl⟩ | ⟨-, hdestroy, child, -, -, hburnt⟩ | ⟨-, taken, tended, htaken, hburnt⟩
  · rw [hspared fun hburnt => hstatus hburnt.1, if_neg Bool.false_ne_true, add_zero]
  · rw [hspared fun hburnt => (by rw [hburnt.2] at hdestroy; cases hdestroy), if_neg Bool.false_ne_true]
    exact hburnt.palle
  · have htake := (takeEmoji_passage htaken).palle
    rw [hburnt.palle, burnToll]
    rw [add_zero] at htake
    split
    · change totalPalle s + (0 + -totalPalle taken) = totalPalle s + -totalPalle s
      rw [htake, zero_add]
    · change totalPalle s + (0 + 0) = totalPalle s + 0
      rw [zero_add]

theorem playerLink_palle {s t : ConquisterState} {userId : ℤ} {username otherName accountName : Str}
    {status : LinkStatus} (hs : Solvent s) (h : playerLink s userId username otherName accountName = .ok (status, t)) :
    totalPalle t = totalPalle s := by
  rcases playerLink_passage h with hlink | ⟨secondary, -, hassets, hlink⟩
  · exact hlink.palle.trans (add_zero _)
  · -- Whoever is merged in has nothing to lose.
    have hnone : ¬ 0 < counter s.scores secondary := by
      intro hpos
      simp [hasAssets, hpos] at hassets
    have hscore := hs.scores secondary
    rw [hlink.palle]
    dsimp only
    omega

theorem growth_palle (s : ConquisterState) (now : ℤ) (rules : RaidRules) :
    (growthDue s now rules).palle = 0 := (growth_paid now rules _ _).2.1

variable [Clock]

/-- What an operation brings into the game, or takes out of it. -/
def Op.palleBooks (state : ConquisterState) : Op → Reply → ℤ
  | .claim .., .claim result => result.earned
  | .raidStart .., .raidStart result => result.earned
  | .raidDue now rules draws, .raidDue _ =>
    eggs state now rules + (strikes now rules draws.ride (beforeRides state now rules draws).2.raids.length 0
      (beforeRides state now rules draws).2).palle
  | .buy .., .buy result => result.departure.earned - result.spent
  | .move .., .move result => result.departure.earned
  | .burn .., .burn result => if result.reset then -totalPalle state else 0
  | .palleBurn .., .palleBurn result => -result.amount
  | .take .., .gear result => result.departure.earned
  | .store .., .gear result => result.departure.earned
  | .quoteAdd _ _ cost, .quoteAdd result => -result.spent cost
  | .reward .., .reward paid => rewarded paid
  | _, _ => 0

theorem raidDue_palle {s t : ConquisterState} {now : ℤ} {rules : RaidRules} {draws : DueDraws}
    {events : List RaidEvent} (hs : Solvent s) (h : raidDue s now rules draws = .ok (events, t)) :
    totalPalle t = totalPalle s + (Op.raidDue now rules draws).palleBooks s (.raidDue events) := by
  obtain ⟨-, palle, hround, hpalle⟩ := raidDue_round h
  have hentry := hpalle hs
  rw [roundEntry, Receipt.palle_add, Receipt.palle_add, growth_palle, add_zero] at hentry
  rw [hround.palle]
  exact congrArg (totalPalle s + ·) hentry

/-- In a game where nobody owes anything the palle change by what is on the books, unless somebody sets
off with palle and an emoji that cannot go. -/
theorem step_balances {files files' : Files} {op : Op} {reply : Reply} (hs : Solvent files.state)
    (h : step files op = .ok (reply, files')) :
    totalPalle files'.state = totalPalle files.state + op.palleBooks files.state reply ↔
      ¬ op.Forfeits files.state := by
  cases op with
  | raidStart userId username now rules errand draws =>
    obtain ⟨result, hstart, rfl, -⟩ := Files.only_eq_ok h
    rw [← raidStart_forfeited hstart, not_not, (raidStart_passage hstart).palle]
    simp only [Op.palleBooks, Receipt.palle_add, Receipt.palle_pay]
    omega
  | claim userId username now rules draws =>
    obtain ⟨result, hclaim, rfl, -⟩ := Files.only_eq_ok h
    obtain ⟨tended, hpassage⟩ := conquisterClaim_passage hclaim
    exact iff_of_true hpassage.palle id
  | raidDue now rules draws =>
    obtain ⟨events, hdue, rfl, -⟩ := Files.only_eq_ok h
    exact iff_of_true (raidDue_palle hs hdue) id
  | buy username emoji position cost limit now inflation =>
    obtain ⟨result, hbuy, rfl, -⟩ := Files.only_eq_ok h
    exact iff_of_true (furnitureBuy_passage hbuy).palle id
  | move username source target limit now =>
    obtain ⟨result, hmove, rfl, -⟩ := Files.only_eq_ok h
    exact iff_of_true (furnitureMove_passage hmove).palle id
  | burn player emoji now rules destroy draws =>
    obtain ⟨result, hburn, rfl, -⟩ := Files.only_eq_ok h
    exact iff_of_true (furnitureBurn_palle hburn) id
  | palleBurn player amount =>
    cases h
    exact iff_of_true (palleBurn_passage files.state player amount).palle id
  | take player emoji swap now =>
    obtain ⟨result, htake, rfl, -⟩ := Files.only_eq_ok h
    exact iff_of_true (gearTake_passage htake).palle id
  | store player emoji limit now =>
    obtain ⟨result, hstore, rfl, -⟩ := Files.only_eq_ok h
    exact iff_of_true (gearStore_passage hstore).palle id
  | sortOut =>
    cases h
    exact iff_of_true (equipmentSortOut_passage files.state).palle id
  | seen userId username accountName furnitureLimit now =>
    cases h
    exact iff_of_true (playerSeen_passage files.state userId username accountName furnitureLimit now).palle id
  | link userId username otherName accountName =>
    obtain ⟨status, hlink, rfl, -⟩ := Files.only_eq_ok h
    exact iff_of_true ((playerLink_palle hs hlink).trans (add_zero _).symm) id
  | handOut furnitureLimit =>
    cases h
    exact iff_of_true (balloonsHandOut_passage files.state furnitureLimit).palle id
  | quoteAdd username quote cost =>
    rw [step] at h
    split at h
    · cases h
    · rename_i result state quotes hadd
      cases h
      exact iff_of_true (quoteAdd_passage hadd).palle id
  | quoteDelete selector =>
    have hquiet := quoteDelete_quiet files.state files.quotes selector
    rw [step] at h
    split at h
    rename_i removed state quotes hdelete
    cases h
    rw [hdelete] at hquiet
    exact iff_of_true (Passage.quiet [] hquiet).palle id
  | guide player =>
    cases h
    exact iff_of_true (Passage.quiet [] (guideDue_quiet files.state player)).palle id
  | invite newcomer inviter platform now =>
    have hquiet := inviteRecord_quiet files.state newcomer inviter platform now
    rw [step] at h
    split at h
    rename_i status shown state hinvite
    cases h
    rw [hinvite] at hquiet
    exact iff_of_true (Passage.quiet [] hquiet).palle id
  | reward newcomer samePerson =>
    cases h
    exact iff_of_true (inviteDue_passage files.state newcomer samePerson).palle id
  | debug username wanted =>
    cases h
    exact iff_of_true (add_zero _).symm id

end

/-- Two players, one of them with ten palle. -/
def pocket : ConquisterState :=
  { scores := (OrderedMap.empty.set (utf8 "alice") 10).set (utf8 "bob") 0 }

theorem pocket_solvent : Solvent pocket := by
  refine ⟨fun player => ?_, nofun⟩
  rw [pocket, counter_set, counter_set]
  split_ifs
  · exact le_rfl
  · norm_num
  · exact le_rfl

/-- Four palle for the other one. -/
def present : Errand := { target := utf8 "bob", gift := 4 }

def emptyHanded : Errand := { present with giftEmoji := utf8 "🍕" }

def setsOff (errand : Errand) : Op := .raidStart 0 (utf8 "alice") 0 {} errand ⟨[0], [1]⟩

theorem step_balances_present : ∃ reply files',
    @step _ utc { state := pocket } (setsOff present) = .ok (reply, files') ∧
    (totalPalle files'.state = totalPalle pocket + @Op.palleBooks _ utc pocket (setsOff present) reply ↔
      ¬ (setsOff present).Forfeits pocket) :=
  ⟨_, _, rfl, @step_balances _ utc { state := pocket } _ _ _ pocket_solvent rfl⟩

/-- The palle leave with nobody. -/
theorem emptyHanded_unbalanced : ∃ reply files', Solvent pocket ∧
    @step _ utc { state := pocket } (setsOff emptyHanded) = .ok (reply, files') ∧
    totalPalle files'.state ≠ totalPalle pocket + @Op.palleBooks _ utc pocket (setsOff emptyHanded) reply := by
  refine ⟨_, _, pocket_solvent, rfl, ?_⟩
  decide +kernel

end NorelecBot
