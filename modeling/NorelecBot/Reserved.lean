import NorelecBot.Holes
import NorelecBot.Onward

/-! # The slot an emoji comes back to

Whoever sets off with an emoji has a free slot on him. On the road nothing is put on
him, and whatever is taken off him leaves a hole, so the slot is still there when he
comes back.
-/

namespace NorelecBot
open Lib

def HasRoom (state : ConquisterState) (player : Str) : Prop := firstEmpty (gearOf state player) < carriedLimit

theorem freeSlot_isSome {slots : List Str} {limit : ℕ} :
    (freeSlot slots limit).isSome = true ↔ firstEmpty slots < limit := by
  rw [freeSlot]
  split <;> simp_all

theorem putOn_of_hasRoom {s : ConquisterState} {player : Str} (h : HasRoom s player) (emoji : Str) :
    (putOn s player emoji).isSome = true := by
  rw [HasRoom] at h
  rw [putOn, putIn, freeSlot, if_pos h]
  rfl

def Awaited (state : ConquisterState) (player : Str) : Prop := counter state.welcomed player ≠ 0 ∧ HasRoom state player

structure Reserves (player : Str) (s t : ConquisterState) : Prop where
  welcomed : counter s.welcomed player ≠ 0 → counter t.welcomed player ≠ 0
  room : counter s.welcomed player ≠ 0 → HasRoom s player → HasRoom t player

namespace Reserves
variable {player : Str} {s t u : ConquisterState}

theorem refl (player : Str) (s : ConquisterState) : Reserves player s s := ⟨id, fun _ => id⟩

theorem trans (h : Reserves player s t) (hnext : Reserves player t u) : Reserves player s u where
  welcomed hs := hnext.welcomed (h.welcomed hs)
  room hs hroom := hnext.room (h.welcomed hs) (h.room hs hroom)

theorem awaited (h : Reserves player s t) (hs : Awaited s player) : Awaited t player :=
  ⟨h.welcomed hs.1, h.room hs.1 hs.2⟩

theorem of_same (hwelcomed : t.welcomed = s.welcomed) (hgear : t.equipped.find player = s.equipped.find player) :
    Reserves player s t where
  welcomed hs := by rwa [hwelcomed]
  room _ hroom := by rwa [HasRoom, gearOf, storedIn, hgear]

theorem foldl {α : Type} {f : ConquisterState → α → ConquisterState} (hf : ∀ s a, Reserves player s (f s a))
    (those : List α) (s : ConquisterState) : Reserves player s (those.foldl f s) := by
  induction those generalizing s with
  | nil => exact refl player s
  | cons a those ih => exact (hf s a).trans (ih _)

end Reserves

/-- On the road, whoever else may be in the place under a name like his. -/
def Riding (state : ConquisterState) (player : Str) : Prop := player ∈ state.raids.map Raid.raider

theorem Riding.not_home {s : ConquisterState} {player : Str} (h : Riding s player) : whereabouts s player ≠ .home := by
  obtain ⟨raid, hraid, hraider⟩ := List.mem_map.mp h
  have hroad : (s.raids.any fun raid => raid.raider = player) = true := by
    rw [List.any_eq_true]
    exact ⟨raid, hraid, decide_eq_true hraider⟩
  rw [whereabouts, hroad]
  split <;> simp

variable {player : Str}

theorem hang_reserves (s : ConquisterState) (player other : Str) (slots : List Str) :
    Reserves player s (hang s other slots) := .of_same rfl rfl

theorem hangGear_reserves (s : ConquisterState) {other : Str} (h : player ≠ other) (slots : List Str) :
    Reserves player s (hangGear s other slots) :=
  .of_same rfl (find_hangIn_of_ne _ h _)

/-- What is taken off somebody leaves a hole. -/
theorem emptied_reserves (s : ConquisterState) (player other : Str) {slot : ℕ} (h : slot < (gearOf s other).length) :
    Reserves player s (hangGear s other ((gearOf s other).set slot [])) := by
  by_cases hother : player = other
  · subst hother
    refine ⟨id, fun _ hroom => ?_⟩
    have hfirst : firstEmpty (gearOf (hangGear s player ((gearOf s player).set slot [])) player) =
        min slot (firstEmpty (gearOf s player)) := by
      rw [gearOf_hangGear, if_pos rfl]
      exact firstEmpty_emptied _ h
    rw [HasRoom] at hroom ⊢
    omega
  · exact hangGear_reserves s hother _

theorem gearSlotHolding_lt {s : ConquisterState} {player emoji : Str} {slot : ℕ}
    (h : gearSlotHolding s player emoji = some slot) : slot < (gearOf s player).length := by
  have hmem := List.mem_of_find?_eq_some h
  exact List.mem_range.mp hmem

theorem takeEmoji_reserves {s t : ConquisterState} {other emoji : Str} (player : Str)
    (h : takeEmoji s other emoji = some t) : Reserves player s t := by
  rw [takeEmoji] at h
  split at h
  · rename_i slot hslot
    cases h
    exact emptied_reserves s player other (gearSlotHolding_lt hslot)
  · obtain ⟨slot, -, rfl⟩ := Option.map_eq_some_iff.mp h
    exact hang_reserves s player other _

theorem putInHouse_reserves {s t : ConquisterState} {other emoji : Str} {limit : ℕ} (player : Str)
    (h : putInHouse s other emoji limit = some t) : Reserves player s t := by
  obtain ⟨slots, -, rfl⟩ := Option.map_eq_some_iff.mp h
  exact hang_reserves s player other slots

theorem putOn_reserves {s t : ConquisterState} {other emoji : Str} (hne : player ≠ other)
    (h : putOn s other emoji = some t) : Reserves player s t := by
  obtain ⟨slots, -, rfl⟩ := Option.map_eq_some_iff.mp h
  exact hangGear_reserves s hne slots

/-- What reaches somebody on the road stays in his house. -/
theorem receive_reserves {s t : ConquisterState} {other emoji : Str} {limit : ℕ} {onHim : Bool}
    (haway : whereabouts s player ≠ .home) (h : receive s other emoji limit = some (onHim, t)) :
    Reserves player s t := by
  rw [receive] at h
  split at h
  · rename_i worn hworn
    cases h
    split at hworn
    · rename_i hhome
      apply putOn_reserves _ hworn
      rintro rfl
      exact haway hhome.2
    · cases hworn
  · obtain ⟨kept, hkept, hsame⟩ := Option.map_eq_some_iff.mp h
    cases hsame
    exact putInHouse_reserves player hkept

theorem blowUp_reserves (s : ConquisterState) (player target : Str) (onHim : Bool) (draw : ℕ) :
    Reserves player s (blowUp s target onHim draw).2 := by
  cases hblown : blowUp s target onHim draw with
  | mk blown after =>
    rcases blowUp_eq hblown with ⟨-, rfl⟩ | ⟨slot, hslot, -, -, rfl⟩
    · exact .refl player _
    · cases onHim with
      | true => exact emptied_reserves s player target hslot
      | false => exact hang_reserves s player target _

theorem startOverFor_reserves (s : ConquisterState) (player other : Str) (now : ℤ) :
    Reserves player s (startOverFor s other now) := by
  by_cases h : player = other
  · subst h
    refine ⟨id, fun _ _ => ?_⟩
    have hgear : gearOf (startOverFor s player now) player = [Power.balloon.emoji] := by
      have hstored : (startOverFor s player now).equipped.find player = some Power.balloon.emoji :=
        OrderedMap.find_set_self _ _ _
      rw [gearOf, storedIn, hstored]
      decide +kernel
    rw [HasRoom, hgear]
    decide
  · exact .of_same rfl (OrderedMap.find_set_of_ne _ _ h)

theorem land_reserves (s : ConquisterState) (player thrown thrower victim : Str) (site : Whereabouts) (now : ℤ)
    (rules : RaidRules) (draws : LandDraws) : Reserves player s (land s thrown thrower victim site now rules draws).2 := by
  simp only [land, smear]
  split_ifs
  · exact .of_same rfl rfl
  · exact .refl player s
  · exact blowUp_reserves s player thrower true draws.hit
  · exact blowUp_reserves s player victim _ draws.hit
  · exact startOverFor_reserves s player victim now
  · exact .of_same rfl rfl
  · exact .of_same rfl rfl
  · exact .refl player s
  · exact .refl player s

theorem salt_reserves (s : ConquisterState) (player raider target : Str) (now : ℤ) (rules : RaidRules) :
    Reserves player s (salt s raider target now rules).2 := by
  simp only [salt]
  split <;> exact .of_same rfl rfl

theorem jaws_reserves (s : ConquisterState) (player raider target : Str) (rules : RaidRules) (draws : RaidDraws) :
    Reserves player s (jaws s raider target rules draws).2 := by
  simp only [jaws]
  split
  · exact blowUp_reserves s player raider true draws.eaten
  · exact .refl player s

theorem balloonAttempt_reserves (s : ConquisterState) (player other : Str) (site : Whereabouts) (now : ℤ) (draw : ℕ) :
    Reserves player s (balloonAttempt s other site now draw).2 := by
  rw [balloonAttempt]
  split_ifs <;> exact .of_same rfl rfl

theorem defendedAtHome_reserves (s : ConquisterState) (player target : Str) (event : RaidEvent) (now : ℤ) (draw : ℕ) :
    Reserves player s (defendedAtHome s target event now draw).2.2 := by
  have hattempt := balloonAttempt_reserves s player target .home now draw
  rw [defendedAtHome]
  split <;> rename_i after hroll <;> rw [hroll] at hattempt <;> exact hattempt

theorem onRide_reserves (s : ConquisterState) (player : Str) (index : ℕ) (f : Raid → Raid) :
    Reserves player s (onRide s index f) := .of_same rfl rfl

/-- Only the raider carries off what he boards. -/
theorem board_reserves (s : ConquisterState) {raid : Raid} (h : player ≠ raid.raider) (rules : RaidRules)
    (draws : RaidDraws) : Reserves player s (board s raid rules draws).2 := by
  rcases board_cases s raid rules draws with hsame | ⟨taken, -, -, place, -, hafter⟩
  · rw [hsame]
    exact .refl player s
  · rw [hafter]
    exact (hang_reserves s player raid.target _).trans (hangGear_reserves _ h _)

theorem rob_reserves [Clock] {s t : ConquisterState} {index : ℕ} {raid : Raid} {event outcome : RaidEvent} {now : ℤ}
    {rules : RaidRules} {draws : RaidDraws} (hraider : player ≠ raid.raider)
    (h : rob s index raid event now rules draws = .ok (outcome, t)) : Reserves player s t := by
  rw [rob] at h
  split at h
  · cases h
  · rename_i fromId settled hfrom
    split at h
    · cases h
    · rename_i toId mapped hto
      obtain ⟨-, rfl⟩ := Prod.mk.inj (Except.ok.inj h)
      obtain ⟨ids, rfl⟩ := playerId_eq_ok hfrom
      obtain ⟨ids', rfl⟩ := playerId_eq_ok hto
      apply Reserves.trans _ (board_reserves _ hraider rules draws)
      rw [takeLoot]
      split <;> exact .of_same rfl rfl

theorem raidHouse_reserves [Clock] {s t : ConquisterState} {index : ℕ} {raid : Raid} {event outcome : RaidEvent}
    {now : ℤ} {rules : RaidRules} {draws : RaidDraws} (hraider : player ≠ raid.raider)
    (h : raidHouse s index raid event now rules draws = .ok (outcome, t)) : Reserves player s t := by
  rw [raidHouse] at h
  dsimp only at h
  generalize sneaks s raid now rules draws.stealth = stealth at h
  generalize hguarded : (if stealth.1 = true then
    (false, { event with sneaked := stealth.1, alarmed := stealth.2 }, s)
    else defendedAtHome s raid.target { event with sneaked := stealth.1, alarmed := stealth.2 } now
      draws.balloon) = guarded at h
  have hquiet : Reserves player s guarded.2.2 := by
    rw [← hguarded]
    split
    · exact .refl player s
    · exact defendedAtHome_reserves s player raid.target _ now draws.balloon
  split at h
  · cases h
    exact hquiet.trans (onRide_reserves _ _ _ _)
  · generalize (if stealth.1 = true then (0 : ℤ)
      else upToAll (houseCopies guarded.2.2 raid.target .dog) rules.dogPercent) = chance at h
    split at h
    · cases h
      exact hquiet.trans (onRide_reserves _ _ _ _)
    · exact hquiet.trans (rob_reserves hraider h)

theorem atTheDoor_reserves (s : ConquisterState) (player : Str) (raid : Raid) (event : RaidEvent) (now : ℤ)
    (rules : RaidRules) (draws : RaidDraws) : Reserves player s (atTheDoor s raid event now rules draws).2 := by
  have hsalted := salt_reserves s player raid.raider raid.target now rules
  have heaten := jaws_reserves (salt s raid.raider raid.target now rules).2 player raid.raider raid.target rules draws
  simp only [atTheDoor]
  split <;> exact hsalted.trans heaten

theorem deliverPalle_reserves (s : ConquisterState) (player : Str) (index : ℕ) (raid : Raid) :
    Reserves player s (deliverPalle s index raid) := by
  rw [deliverPalle]
  split <;> exact .of_same rfl rfl

theorem Riding.of_raiders {s t : ConquisterState} (h : Riding s player)
    (hsame : t.raids.map Raid.raider = s.raids.map Raid.raider) : Riding t player := by
  rwa [Riding, hsame]

theorem raiders_modify (raids : List Raid) (index : ℕ) {f : Raid → Raid} (hf : ∀ raid, (f raid).raider = raid.raider) :
    (raids.modify index f).map Raid.raider = raids.map Raid.raider := by
  apply List.ext_getElem?
  intro place
  rw [List.getElem?_map, List.getElem?_map, List.getElem?_modify]
  cases raids[place]? with
  | none => rfl
  | some raid =>
    split
    · exact congrArg some (hf raid)
    · rfl

/-- Nothing is put on somebody who is on the road as something is delivered. -/
theorem deliver_reserves {s : ConquisterState} (hriding : Riding s player) (index : ℕ) (raid : Raid) (event : RaidEvent)
    (now : ℤ) (rules : RaidRules) (draws : RaidDraws) :
    Reserves player s (deliver s index raid event now rules draws).2 := by
  have hpaid := deliverPalle_reserves s player index raid
  have haway : whereabouts (deliverPalle s index raid) player ≠ .home := by
    apply Riding.not_home
    apply hriding.of_raiders
    rw [deliverPalle]
    split
    · exact raiders_modify s.raids index fun _ => rfl
    · rfl
  simp only [deliver]
  split
  · exact hpaid
  · apply hpaid.trans
    generalize deliverPalle s index raid = paid at haway
    simp only [deliverEmoji]
    split
    · exact .refl player paid
    · split
      · simp only [throwAtHouse]
        exact (land_reserves paid player _ _ _ _ now _ _).trans (onRide_reserves _ _ _ _)
      · split
        · rename_i onHim kept hreceive
          exact (receive_reserves haway hreceive).trans (onRide_reserves _ _ _ _)
        · exact .refl player paid

/-- A ride that gets there leaves room to everybody on the road, but for the raider who comes to rob. -/
theorem arrival_reserves [Clock] {s t : ConquisterState} {index : ℕ} {raid : Raid} {now : ℤ} {rules : RaidRules}
    {draws : RaidDraws} {event : RaidEvent} (hriding : Riding s player)
    (hraider : raid.giftEmoji = [] → player ≠ raid.raider)
    (h : arrival s index raid now rules draws = .ok (event, t)) : Reserves player s t := by
  have hthere := onRide_reserves s player index Raid.reached
  have hstill : Riding (onRide s index Raid.reached) player :=
    hriding.of_raiders (raiders_modify s.raids index fun _ => rfl)
  simp only [arrival] at h
  generalize onRide s index Raid.reached = there at h hthere hstill
  generalize hmet : (if raid.gift = 0 ∧ raid.giftEmoji = [] then
    atTheDoor there raid (arrivalEvent there raid now) now rules draws
    else (arrivalEvent there raid now, there)) = met at h
  have hdoor : Reserves player there met.2 ∧ met.2.raids = there.raids := by
    rw [← hmet]
    split
    · exact ⟨atTheDoor_reserves there player raid _ now rules draws,
        (atTheDoor_round there [] raid (arrivalEvent there raid now) now rules draws rfl).2.1⟩
    · exact ⟨.refl player there, rfl⟩
  split at h
  · cases h
  · rename_i outcome after houtcome
    cases h
    apply (hthere.trans hdoor.1).trans
    split at houtcome
    · have hdelivered : (deliver met.2 index raid met.1 now rules draws).2 = t :=
        congrArg Prod.snd (Except.ok.inj houtcome)
      rw [← hdelivered]
      exact deliver_reserves (hstill.of_raiders (by rw [hdoor.2])) index raid met.1 now rules draws
    · rename_i hrobs
      have hnothing : raid.gift ≤ 0 ∧ raid.giftEmoji = [] := by simpa [Raid.brings] using hrobs
      exact raidHouse_reserves (hraider hnothing.2) houtcome

/-- A ride that comes with no emoji goes back with none. -/
theorem arrival_unladen [Clock] {s t : ConquisterState} {index : ℕ} {raid raid' : Raid} {now : ℤ} {rules : RaidRules}
    {draws : RaidDraws} {event : RaidEvent} (hs : s.raids[index]? = some raid) (hfresh : raid.arrived = false)
    (hnothing : raid.giftEmoji = []) (h : arrival s index raid now rules draws = .ok (event, t))
    (hafter : t.raids[index]? = some raid') : raid'.giftEmoji = [] := by
  have hlt := (List.getElem?_eq_some_iff.mp hs).1
  have hthere : (onRide s index Raid.reached).raids = s.raids.set index raid.reached := modify_eq_set hs Raid.reached
  have hreached : (onRide s index Raid.reached).raids[index]? = some raid.reached := by
    rw [hthere, List.getElem?_set_self hlt]
  simp only [arrival] at h
  generalize onRide s index Raid.reached = there at h hreached
  have hltThere := (List.getElem?_eq_some_iff.mp hreached).1
  split at h
  · cases h
  · rename_i outcome after houtcome
    cases h
    split at houtcome
    · rename_i hbrings
      have hgift : ¬ (raid.gift = 0 ∧ raid.giftEmoji = []) := by
        rintro ⟨hgift, -⟩
        rw [Raid.brings, hgift, hnothing] at hbrings
        cases hbrings
      rw [if_neg hgift, deliver, if_pos hnothing] at houtcome
      cases houtcome
      rw [deliverPalle_raids hreached, List.getElem?_set_self hltThere] at hafter
      cases hafter
      rw [(handed_settled raid).2, hnothing]
    · rename_i hrobs
      have hnone : raid.gift ≤ 0 ∧ raid.giftEmoji = [] := by simpa [Raid.brings] using hrobs
      generalize hmet : (if raid.gift = 0 ∧ raid.giftEmoji = [] then
        atTheDoor there raid (arrivalEvent there raid now) now rules draws
        else (arrivalEvent there raid now, there)) = met at houtcome
      have hraids : met.2.raids = there.raids := by
        rw [← hmet]
        split
        · exact (atTheDoor_round there [] raid (arrivalEvent there raid now) now rules draws rfl).2.1
        · rfl
      obtain ⟨amount, hlooted, -, -⟩ := raidHouse_round hs hfresh hnone houtcome
      rw [hlooted, hraids, modify_eq_set hreached, List.getElem?_set_self hltThere] at hafter
      cases hafter
      exact hnothing

theorem bringBack_reserves (s : ConquisterState) {raider : Str} (h : player ≠ raider) (giftEmoji : Str) :
    Reserves player s (bringBack s raider giftEmoji) := by
  by_cases hemoji : giftEmoji = []
  · rw [bringBack, if_pos hemoji]
    exact .refl player s
  · rcases bringBack_cases s raider hemoji with hworn | hkept
    · exact putOn_reserves h hworn
    · exact putInHouse_reserves player hkept

theorem homecoming_reserves (s : ConquisterState) {raid : Raid} (h : player ≠ raid.raider) (now : ℤ) :
    Reserves player s (homecoming s raid now).2 := by
  have hpaid : Reserves player s (bringPalle s raid) := by
    rw [bringPalle]
    split
    · exact .of_same rfl rfl
    · exact .refl player s
  exact hpaid.trans (bringBack_reserves _ h _)

theorem growOne_reserves (s : ConquisterState) (player : Str) (now : ℤ) (rules : RaidRules) (child : Child) :
    Reserves player s (growOne s now rules child).2.2 := by
  simp only [growOne]
  split_ifs <;> exact .of_same rfl rfl

theorem growAll_reserves (player : Str) (now : ℤ) (rules : RaidRules) (children : List Child) (s : ConquisterState) :
    Reserves player s (growAll now rules children s).2.2 := by
  induction children generalizing s with
  | nil => exact .refl player s
  | cons child children ih => exact (growOne_reserves s player now rules child).trans (ih _)

theorem birth_reserves (s : ConquisterState) (player : Str) (pregnancy : Pregnancy) (now : ℤ) (rules : RaidRules)
    (draws : BirthDraws) : Reserves player s (birth s pregnancy now rules draws).2 := by
  simp only [birth]
  split <;> exact .of_same rfl rfl

theorem birthsFrom_reserves (player : Str) (now : ℤ) (rules : RaidRules) (draws : ℕ → BirthDraws)
    (pregnancies : List Pregnancy) (index : ℕ) (s : ConquisterState) :
    Reserves player s (birthsFrom now rules draws pregnancies index s).2 := by
  induction pregnancies generalizing index s with
  | nil => exact .refl player s
  | cons pregnancy pregnancies ih =>
    rw [birthsFrom]
    split
    · exact ih (index + 1) s
    · exact (birth_reserves s player pregnancy now rules (draws index)).trans (ih (index + 1) _)

/-- Children are born and grow in the houses, and what is on anybody stays. -/
theorem beforeRides_reserves (s : ConquisterState) (player : Str) (now : ℤ) (rules : RaidRules) (draws : DueDraws) :
    Reserves player s (beforeRides s now rules draws).2 := by
  have heggs : Reserves player s (layEggs (wash s now) now rules) := by
    rw [layEggs]
    split_ifs <;> exact .of_same rfl rfl
  have hgrown : Reserves player s (grow (layEggs (wash s now) now rules) now rules draws.courting).2 :=
    heggs.trans ((growAll_reserves player now rules _ _).trans (.of_same rfl rfl))
  exact hgrown.trans ((birthsFrom_reserves player now rules draws.birth _ 0 _).trans (.of_same rfl rfl))

theorem goHome_reserves {s t : ConquisterState} {other : Str} {now : ℤ} {departure : Departure} (player : Str)
    (h : goHome s other now = .ok (departure, t)) : Reserves player s t := by
  rcases goHome_eq_ok h with ⟨-, rfl⟩ | ⟨hold, settled, -, -, hsettled, -⟩
  · exact .refl player t
  · obtain ⟨-, rfl⟩ := settleHold_eq_ok hsettled
    exact .of_same rfl rfl

/-- Whoever is at home is nobody who rides. -/
theorem Riding.ne_atHome {s : ConquisterState} {other : Str} (h : Riding s player) (hhome : atHome s other) :
    player ≠ other := by
  rintro rfl
  exact h.not_home hhome

theorem hangBought_reserves (s : ConquisterState) {other : Str} (hne : player ≠ other) (emoji : Str) (withHim : Bool)
    (slot : ℕ) (charged : ℤ) : Reserves player s (hangBought s other emoji withHim slot charged) := by
  have hpaid : Reserves player s { s with scores := s.scores.set other (counter s.scores other - charged) } :=
    .of_same rfl rfl
  simp only [hangBought]
  split
  · exact hpaid.trans (hangGear_reserves _ hne _)
  · exact hpaid.trans (hang_reserves _ player other _)

theorem buyAtHome_reserves (s : ConquisterState) {other : Str} (hne : player ≠ other) (departure : Departure)
    (emoji : Str) (position cost : ℤ) (limit : ℕ) (inflation : ℤ) :
    Reserves player s (buyAtHome s departure other emoji position cost limit inflation).2 := by
  simp only [buyAtHome]
  split
  · exact .refl player s
  · split
    · exact .refl player s
    · split
      · exact .refl player s
      · split
        · exact .refl player s
        · exact hangBought_reserves s hne emoji _ _ _

theorem furnitureBuy_reserves {s t : ConquisterState} {other emoji : Str} {position cost : ℤ} {limit : ℕ}
    {now inflation : ℤ} {result : FurnitureResult} (hriding : Riding s player)
    (h : furnitureBuy s other emoji position cost limit now inflation = .ok (result, t)) : Reserves player s t := by
  rw [furnitureBuy] at h
  split at h
  · cases h
  · rename_i departure away hgo
    have haway := goHome_reserves player hgo
    split at h
    · cases h
      exact haway
    · rename_i hhome
      have hne := (hriding.of_raiders (congrArg _ (goHome_aside hgo).raids)).ne_atHome (not_not.mp hhome)
      have hbought := haway.trans (buyAtHome_reserves away hne departure emoji position cost limit inflation)
      rwa [Except.ok.inj h] at hbought

theorem furnitureMove_reserves {s t : ConquisterState} {other : Str} {source target : ℤ} {limit : ℕ} {now : ℤ}
    {result : FurnitureMoveResult} (player : Str)
    (h : furnitureMove s other source target limit now = .ok (result, t)) : Reserves player s t := by
  simp only [furnitureMove] at h
  split at h
  · cases h
    exact .refl player s
  · split at h
    · cases h
      exact .refl player s
    · split at h
      · cases h
      · rename_i departure away hgo
        have haway := goHome_reserves player hgo
        split at h
        · cases h
          exact haway
        · have hdone := Except.ok.inj h
          simp only [moveAtHome] at hdone
          split at hdone
          · cases hdone
            exact haway
          · cases hdone
            exact haway.trans (.of_same rfl rfl)

theorem exchange_reserves (s : ConquisterState) {other : Str} (hne : player ≠ other) (source target : ℕ)
    (swapped : Str) : Reserves player s (exchange s other source target swapped) :=
  (hang_reserves s player other _).trans (hangGear_reserves _ hne _)

theorem takeAtHome_reserves (s : ConquisterState) {other : Str} (hne : player ≠ other) (departure : Departure)
    (emoji swap : Str) : Reserves player s (takeAtHome s departure other emoji swap).2 := by
  simp only [takeAtHome]
  split
  · exact .refl player s
  · split
    · split
      · exact .refl player s
      · exact exchange_reserves s hne _ _ _
    · split
      · exact .refl player s
      · exact exchange_reserves s hne _ _ _

theorem gearTake_reserves {s t : ConquisterState} {other emoji swap : Str} {now : ℤ} {result : GearResult}
    (hriding : Riding s player) (h : gearTake s other emoji swap now = .ok (result, t)) : Reserves player s t := by
  rw [gearTake] at h
  split at h
  · cases h
  · rename_i departure away hgo
    have haway := goHome_reserves player hgo
    split at h
    · cases h
      exact haway
    · rename_i hhome
      have hne := (hriding.of_raiders (congrArg _ (goHome_aside hgo).raids)).ne_atHome (not_not.mp hhome)
      have htaken := haway.trans (takeAtHome_reserves away hne departure emoji swap)
      rwa [Except.ok.inj h] at htaken

theorem storeAtHome_reserves (s : ConquisterState) {other : Str} (hne : player ≠ other) (departure : Departure)
    (emoji : Str) (limit : ℕ) : Reserves player s (storeAtHome s departure other emoji limit).2 := by
  simp only [storeAtHome]
  split
  · exact .refl player s
  · split
    · exact .refl player s
    · rename_i kept hkept
      exact (putInHouse_reserves player hkept).trans (hangGear_reserves kept hne _)

theorem gearStore_reserves {s t : ConquisterState} {other emoji : Str} {limit : ℕ} {now : ℤ} {result : GearResult}
    (hriding : Riding s player) (h : gearStore s other emoji limit now = .ok (result, t)) : Reserves player s t := by
  rw [gearStore] at h
  split at h
  · cases h
  · rename_i departure away hgo
    have haway := goHome_reserves player hgo
    split at h
    · cases h
      exact haway
    · rename_i hhome
      have hne := (hriding.of_raiders (congrArg _ (goHome_aside hgo).raids)).ne_atHome (not_not.mp hhome)
      have hstored := haway.trans (storeAtHome_reserves away hne departure emoji limit)
      rwa [Except.ok.inj h] at hstored

end NorelecBot
