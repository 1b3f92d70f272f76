import NorelecBot.Reserved
import NorelecBot.Routines
import NorelecBot.Linking

/-! # What travels comes back

A ride that brings an emoji has a slot waiting for it on its raider: setting off
leaves one free, nothing that happens meanwhile takes it, and so the emoji nobody
took goes back on him. The one exception is somebody on whom more emoji are read
than anybody can carry, and who sets off with one of those past the last slot.
-/

namespace NorelecBot
open Lib

variable {player : Str}

theorem rememberPlatform_reserves (s : ConquisterState) (player other : Str) (userId : ℤ) :
    Reserves player s (rememberPlatform s other userId) := by
  rw [rememberPlatform, rememberIrc, rememberTelegram]
  split_ifs <;> exact .of_same rfl rfl

theorem settleHold_reserves {s t : ConquisterState} {hold : Holder} {now : ℤ} {settled : Settlement} (player : Str)
    (h : settleHold s hold now = .ok (settled, t)) : Reserves player s t := by
  obtain ⟨-, rfl⟩ := settleHold_eq_ok h
  exact .of_same rfl rfl

theorem leavePlace_reserves {s t : ConquisterState} {now : ℤ} {settled : Settlement} (player : Str)
    (h : leavePlace s now = .ok (settled, t)) : Reserves player s t := by
  rw [leavePlace] at h
  split at h
  · cases h
    exact .refl player s
  · have hvacated : Reserves player s { s with current := none } := .of_same rfl rfl
    exact hvacated.trans (settleHold_reserves player h)

theorem enter_reserves (s : ConquisterState) (player : Str) (outcome : ClaimResult) (userId : ℤ) (username : Str)
    (now : ℤ) (rules : ClaimRules) : Reserves player s (enter s outcome userId username now rules).2 := by
  simp only [enter]
  split_ifs <;> exact .of_same rfl rfl

theorem kick_reserves {s t : ConquisterState} {hold : Holder} {userId : ℤ} {username : Str} {now : ℤ}
    {rules : ClaimRules} {draws : ClaimDraws} {result : ClaimResult} (player : Str)
    (h : kick s hold userId username now rules draws = .ok (result, t)) : Reserves player s t := by
  simp only [kick] at h
  generalize (!(newcomer s username now && _) && _ && _ && _) = sneaked at h
  generalize (newcomer s username now && _) = first at h
  generalize hattempt : (if (sneaked || first) = true then (BalloonRoll.none, s)
    else balloonAttempt s hold.username .conquister now draws.balloon) = attempt at h
  have hquiet : Reserves player s attempt.2 := by
    rw [← hattempt]
    split
    · exact .refl player s
    · exact balloonAttempt_reserves s player hold.username .conquister now draws.balloon
  split at h
  · cases h
    split
    · exact hquiet.trans (.of_same rfl rfl)
    · exact hquiet
  · split at h
    · cases h
    · rename_i settled paid hsettled
      obtain ⟨-, rfl⟩ := Prod.mk.inj (Except.ok.inj h)
      apply Reserves.trans _ (enter_reserves paid player _ userId username now rules)
      apply Reserves.trans _ (settleHold_reserves player hsettled)
      split
      · exact hquiet
      · exact hquiet.trans (.of_same rfl rfl)

theorem claimFree_reserves {s t : ConquisterState} {userId : ℤ} {username : Str} {now : ℤ} {rules : ClaimRules}
    {draws : ClaimDraws} {result : ClaimResult} (player : Str)
    (h : claimFree s userId username now rules draws = .ok (result, t)) : Reserves player s t := by
  rw [claimFree] at h
  split at h
  · cases h
    exact .refl player s
  · split at h
    · cases h
      exact .refl player s
    · split at h
      · obtain ⟨-, rfl⟩ := Prod.mk.inj (Except.ok.inj h)
        exact enter_reserves s player _ userId username now rules
      · exact kick_reserves player h

theorem conquisterClaim_reserves {s t : ConquisterState} {userId : ℤ} {username : Str} {now : ℤ}
    {rules : ClaimRules} {draws : ClaimDraws} {result : ClaimResult} (player : Str)
    (h : conquisterClaim s userId username now rules draws = .ok (result, t)) : Reserves player s t := by
  have hknown := rememberPlatform_reserves s player username userId
  simp only [conquisterClaim] at h
  generalize rememberPlatform s username userId = known at h hknown
  split at h
  · cases h
    exact hknown
  · split at h
    · cases h
      exact hknown
    · have hlapsed : Reserves player known { known with cooldowns := known.cooldowns.erase username } :=
        .of_same rfl rfl
      exact (hknown.trans hlapsed).trans (claimFree_reserves player h)

theorem takePalle_reserves (s : ConquisterState) (player username : Str) (gift : ℤ) :
    Reserves player s (takePalle s username gift) := by
  rw [takePalle]
  split <;> exact .of_same rfl rfl

theorem takeAlong_reserves (s : ConquisterState) (player username giftEmoji : Str) :
    Reserves player s (takeAlong s username giftEmoji) := by
  rw [takeAlong]
  split
  · exact .refl player s
  · cases htaken : takeEmoji s username giftEmoji with
    | none => exact .refl player s
    | some taken => exact takeEmoji_reserves player htaken

theorem raidStart_reserves {s t : ConquisterState} {userId : ℤ} {username : Str} {now : ℤ} {rules : RaidRules}
    {errand : Errand} {draws : StartDraws} {result : RaidResult} (player : Str)
    (h : raidStart s userId username now rules errand draws = .ok (result, t)) : Reserves player s t := by
  simp only [raidStart] at h
  apply (rememberPlatform_reserves s player username userId).trans
  generalize rememberPlatform s username userId = known at h ⊢
  split at h
  · rw [rideHome] at h
    split at h
    · cases h
      exact .of_same rfl rfl
    · split at h
      · split at h
        · cases h
        · rename_i settled away hleave
          cases h
          exact leavePlace_reserves player hleave
      · cases h
        exact .refl player _
  · split at h
    · cases h
      exact .refl player _
    · rename_i target htarget
      rw [setOff] at h
      split at h
      · cases h
        exact .refl player _
      · split_ifs at h
        iterate 5
          · cases h
            exact .refl player _
        have hlight := takePalle_reserves known player username errand.gift
        simp only [load] at h
        split at h
        · cases h
          exact hlight
        · obtain ⟨-, -, ids, rfl⟩ := depart_eq_ok h
          apply (hlight.trans (takeAlong_reserves _ player username errand.giftEmoji)).trans
          exact .of_same rfl rfl

theorem loseBolts_reserves {s t : ConquisterState} {now : ℤ} (player : Str) (h : loseBolts s now = .ok t) :
    Reserves player s t := by
  obtain ⟨current, rfl, -⟩ := loseBolts_current h
  exact .of_same rfl rfl

/-- What is brought to the place leaves everybody his room, or the whole game starts over and nobody rides. -/
theorem furnitureBurn_reserves {s t : ConquisterState} {other emoji : Str} {now : ℤ} {rules : RaidRules}
    {destroy : Bool} {draws : LandDraws} {result : FurnitureBurnResult} (player : Str)
    (h : furnitureBurn s other emoji now rules destroy draws = .ok (result, t)) :
    Reserves player s t ∨ t.raids = [] := by
  rw [furnitureBurn] at h
  split at h
  · cases h
    exact .inl (.refl player s)
  · split at h
    · split at h
      · cases h
        exact .inl (.refl player s)
      · split at h
        · cases h
          exact .inl (.refl player s)
        · cases h
          rw [burnChild]
          split <;> exact .inl (.of_same rfl rfl)
    · rename_i taken htaken
      have htake := takeEmoji_reserves player htaken
      split at h
      · obtain ⟨-, hloses⟩ := thenLoseBolts_eq_ok h
        exact .inl (htake.trans (loseBolts_reserves player hloses))
      · split at h
        · cases h
          exact .inr rfl
        · obtain ⟨-, hloses⟩ := thenLoseBolts_eq_ok h
          refine .inl ((htake.trans ?_).trans (loseBolts_reserves player hloses))
          rw [throwAtPlace]
          split
          · exact .refl player taken
          · exact land_reserves taken player emoji other _ .conquister now rules draws

/-- A welcome puts a 🎈 on nobody who was welcomed before. -/
theorem welcome_reserves (s : ConquisterState) (player other : Str) (limit : ℕ) :
    Reserves player s (welcome s other limit) := by
  have hmarked : Reserves player s (markWelcomed s other) := by
    refine ⟨fun hs => ?_, fun _ hroom => hroom⟩
    rw [markWelcomed, counter_set]
    split
    · exact one_ne_zero
    · exact hs
  rw [welcome]
  split
  · exact .refl player s
  · rename_i hnew
    split
    · exact hmarked
    · cases hhung : hangBalloon (markWelcomed s other) other limit with
      | none => exact hmarked
      | some hung =>
        by_cases hother : player = other
        · subst hother
          exact ⟨fun hs => absurd hs hnew, fun hs => absurd hs hnew⟩
        · apply hmarked.trans
          rw [hangBalloon] at hhung
          split at hhung
          · cases hhung
          · split at hhung
            · rename_i worn hworn
              cases hhung
              exact putOn_reserves hother hworn
            · exact putInHouse_reserves player hhung

theorem balloonsHandOut_reserves (s : ConquisterState) (player : Str) (limit : ℕ) :
    Reserves player s (balloonsHandOut s limit) :=
  .foldl (fun s other => welcome_reserves s player other limit) (knownPlayers s) s

theorem introduce_reserves (s : ConquisterState) (player : Str) (userId : ℤ) (username accountName : Str) (now : ℤ) :
    Reserves player s (introduce s userId username accountName now) := by
  simp only [introduce, join, rememberPlatform, rememberIrc, rememberTelegram, showName, takeName, bindAccount]
  split_ifs <;> exact .of_same rfl rfl

theorem playerSeen_reserves [Clock] (s : ConquisterState) (player : Str) (userId : ℤ) (username accountName : Str)
    (limit : ℕ) (now : ℤ) : Reserves player s (playerSeen s userId username accountName limit now).2 := by
  have hday (t : ConquisterState) (key : Str) : Reserves player t (countDay t key now) := by
    rw [countDay]
    split <;> exact .of_same rfl rfl
  apply (introduce_reserves s player userId username accountName now).trans
  exact (welcome_reserves _ player _ limit).trans (hday _ _)

/-- Whoever was seen is welcome. -/
theorem playerSeen_welcomed [Clock] (s : ConquisterState) (userId : ℤ) (username accountName : Str) (limit : ℕ)
    (now : ℤ) : counter (playerSeen s userId username accountName limit now).2.welcomed
      (keyFor s userId username accountName) ≠ 0 := by
  have hday (t : ConquisterState) (key : Str) : (countDay t key now).welcomed = t.welcomed := by
    rw [countDay]
    split <;> rfl
  rw [playerSeen, hday]
  generalize introduce s userId username accountName now = known
  generalize keyFor s userId username accountName = key
  have hmarked : counter (markWelcomed known key).welcomed key ≠ 0 := by
    rw [markWelcomed, counter_set, if_pos rfl]
    exact one_ne_zero
  rw [welcome]
  split
  · assumption
  · split
    · exact hmarked
    · cases hhung : hangBalloon (markWelcomed known key) key limit with
      | none => exact hmarked
      | some hung =>
        rw [Option.getD_some]
        rw [hangBalloon] at hhung
        split at hhung
        · cases hhung
        · split at hhung
          · rename_i worn hworn
            cases hhung
            obtain ⟨slots, -, rfl⟩ := Option.map_eq_some_iff.mp hworn
            exact hmarked
          · obtain ⟨slots, -, rfl⟩ := Option.map_eq_some_iff.mp hhung
            exact hmarked

/-- Whoever rides has something to lose, and is not the one who is dropped. -/
theorem playerLink_reserves {s t : ConquisterState} {userId : ℤ} {username otherName accountName : Str}
    {status : LinkStatus} (hriding : Riding s player)
    (h : playerLink s userId username otherName accountName = .ok (status, t)) : Reserves player s t := by
  rcases playerLink_cases h with ⟨-, -, requests, rfl⟩ | ⟨keys, mine, theirs, -, -, -, hnotBoth, rfl⟩
  · exact .of_same rfl rfl
  · have hassets : hasAssets s player = true := by
      obtain ⟨raid, hraid, hraider⟩ := List.mem_map.mp hriding
      have hriders : (s.raids.any fun raid => raid.raider = player || raid.target = player) = true :=
        List.any_eq_true.mpr ⟨raid, hraid, by simp [hraider]⟩
      simp [hasAssets, hriders]
    have hkept : player ≠ droppedKey s keys := by
      rintro rfl
      rw [droppedKey] at hassets
      split at hassets
      · rename_i hother
        exact hnotBoth ⟨hassets, hother⟩
      · rename_i hother
        exact hother hassets
    refine ⟨fun hs => ?_, fun _ hroom => ?_⟩
    · rwa [merge, counter, OrderedMap.find_erase_of_ne _ hkept]
    · rwa [HasRoom, gearOf, storedIn, merge, OrderedMap.find_erase_of_ne _ hkept]

theorem palleBurn_reserves (s : ConquisterState) (player other : Str) (amount : ℤ) :
    Reserves player s (palleBurn s other amount).2 := by
  simp only [palleBurn]
  split
  · exact .refl player s
  · split
    · exact .refl player s
    · split
      · exact .refl player s
      · exact .of_same rfl rfl

theorem quoteAdd_reserves {s t : ConquisterState} {quotes quotes' : Quotes} {username quote : Str} {cost : ℤ}
    {result : QuoteAddResult} (player : Str) (h : quoteAdd s quotes username quote cost = .ok (result, t, quotes')) :
    Reserves player s t := by
  simp only [quoteAdd] at h
  split_ifs at h <;> cases h <;> exact .of_same rfl rfl

theorem quoteDelete_reserves (s : ConquisterState) (player : Str) (quotes : Quotes) (selector : Str) :
    Reserves player s (quoteDelete s quotes selector).2.1 := by
  rw [quoteDelete]
  split
  · exact .refl player s
  · rename_i index _
    change Reserves player s (forgetAuthor s (quotes.getD index []))
    rw [forgetAuthor]
    split <;> exact .of_same rfl rfl

theorem guideDue_reserves (s : ConquisterState) (player other : Str) : Reserves player s (guideDue s other).2 := by
  rw [guideDue]
  split <;> exact .of_same rfl rfl

theorem inviteRecord_reserves (s : ConquisterState) (player newcomer inviter : Str) (platform : RaidTargetKind)
    (now : ℤ) : Reserves player s (inviteRecord s newcomer inviter platform now).2.2 := by
  rw [inviteRecord]
  split
  · exact .refl player s
  · split
    · exact .refl player s
    · split
      · exact .refl player s
      · split
        · exact .refl player s
        · split <;> exact .of_same rfl rfl

theorem inviteDue_reserves (s : ConquisterState) (player newcomer : Str) (samePerson : Bool) :
    Reserves player s (inviteDue s newcomer samePerson).2 := by
  rw [inviteDue]
  split
  · exact .refl player s
  · split <;> exact .of_same rfl rfl

instance (state : ConquisterState) (username target : Str) (now : ℤ) (rules : RaidRules) (errand : Errand) :
    Decidable (FitToGo state username target now rules errand) :=
  decidable_of_iff
    (raidOf state username = none ∧ frozenFor state username now ≤ 0 ∧ whereabouts state username ≠ .conquister ∧
      0 ≤ errand.gift ∧ (errand.gift > 0 → errand.gift ≤ counter state.scores username) ∧
      cannotCarry state username target errand rules.furnitureLimit = none)
    ⟨fun ⟨free, thawed, notInPlace, gift, affords, carries⟩ => ⟨free, thawed, notInPlace, gift, affords, carries⟩,
      fun fit => ⟨fit.free, fit.thawed, fit.notInPlace, fit.gift, fit.affords, fit.carries⟩⟩

/-- The emoji is read on him past the last slot he can put one in, and none of those is empty. -/
def pastTheLast (state : ConquisterState) (player emoji : Str) : Bool :=
  carriedLimit ≤ firstEmpty (gearOf state player) && (gearSlotHolding state player emoji).any (carriedLimit ≤ ·)

/-- Somebody sets off with an emoji he has nowhere to put back. -/
def givesUpHisRoom (state : ConquisterState) (userId : ℤ) (username : Str) (now : ℤ) (rules : RaidRules)
    (errand : Errand) : Bool :=
  errand.giftEmoji ≠ [] && pastTheLast state username errand.giftEmoji &&
    !homewards (rememberPlatform state username userId) userId username errand &&
    (playerByName (rememberPlatform state username userId) errand.target errand.kind).any fun target =>
      FitToGo state username target now rules errand && !(errand.blow && newcomer state target now)

theorem hasRoom_congr {s t : ConquisterState} (h : t.equipped.find player = s.equipped.find player) :
    HasRoom t player ↔ HasRoom s player := by
  rw [HasRoom, HasRoom, gearOf, gearOf, storedIn, storedIn, h]

/-- Taking an emoji along leaves him room: the slot it was in, or the one looked for before it was taken in his
house. -/
theorem takeAlong_hasRoom {s : ConquisterState} {username known : Str} {errand : Errand} {limit : ℕ}
    (hemoji : errand.giftEmoji ≠ []) (hcarries : cannotCarry s username known errand limit = none)
    (hfits : pastTheLast s username errand.giftEmoji = false) :
    HasRoom (takeAlong s username errand.giftEmoji) username := by
  rw [takeAlong, if_neg hemoji, takeEmoji]
  cases hslot : gearSlotHolding s username errand.giftEmoji with
  | some slot =>
    have hlt := gearSlotHolding_lt hslot
    rw [pastTheLast, hslot] at hfits
    simp only [Option.any_some, Bool.and_eq_false_iff, decide_eq_false_iff_not, not_le] at hfits
    have hfirst : firstEmpty (gearOf (hangGear s username ((gearOf s username).set slot [])) username) =
        min slot (firstEmpty (gearOf s username)) := by
      rw [gearOf_hangGear, if_pos rfl]
      exact firstEmpty_emptied _ hlt
    change HasRoom (hangGear s username ((gearOf s username).set slot [])) username
    rw [HasRoom, hfirst]
    omega
  | none =>
    have hroom : HasRoom s username := by
      rw [cannotCarry, if_neg hemoji] at hcarries
      simp only [hslot, Option.isSome_none, Bool.false_eq_true, not_false_eq_true, true_and] at hcarries
      split_ifs at hcarries with hnowhere hfull
      apply freeSlot_isSome.mp
      simpa [Option.isSome_iff_ne_none] using hfull
    cases hhouse : slotHolding s username errand.giftEmoji with
    | none => exact hroom
    | some slot => exact (hasRoom_congr rfl).mpr hroom

/-- Whoever sets off with an emoji has room for it. -/
theorem raidStart_hasRoom {s t : ConquisterState} {userId : ℤ} {username : Str} {now : ℤ} {rules : RaidRules}
    {errand : Errand} {draws : StartDraws} {result : RaidResult}
    (h : raidStart s userId username now rules errand draws = .ok (result, t)) (hoff : result.status = .started)
    (hemoji : errand.giftEmoji ≠ []) (hfits : pastTheLast s username errand.giftEmoji = false) :
    HasRoom t username := by
  have hgear : (rememberPlatform s username userId).equipped = s.equipped := by
    rw [rememberPlatform, rememberIrc, rememberTelegram]
    split_ifs <;> rfl
  rw [raidStart] at h
  generalize rememberPlatform s username userId = known at h hgear
  split at h
  · rcases rideHome_status h with hstatus | hstatus | hstatus <;> rw [hstatus] at hoff <;> cases hoff
  · split at h
    · cases h
      cases hoff
    · rename_i target _
      rw [setOff] at h
      split at h
      · cases h
        cases hoff
      · split_ifs at h
        iterate 5
          · cases h
            cases hoff
        rw [load] at h
        dsimp only at h
        have hlight : (takePalle known username errand.gift).equipped = s.equipped := by
          rw [takePalle]
          split <;> exact hgear
        split at h
        · rename_i status hcannot
          cases h
          rcases cannotCarry_eq_some hcannot with rfl | rfl | rfl <;> cases hoff
        · rename_i hcarries
          obtain ⟨-, -, ids, rfl⟩ := depart_eq_ok h
          have hsame : gearOf (takePalle known username errand.gift) username = gearOf s username := by
            rw [gearOf, gearOf, hlight]
          have hstill : pastTheLast (takePalle known username errand.gift) username errand.giftEmoji = false := by
            rw [pastTheLast, gearSlotHolding, hsame]
            exact hfits
          exact takeAlong_hasRoom hemoji hcarries hstill

/-- Whoever rides with an emoji was welcomed before he set off, and has room for it. -/
structure Reserved (state : ConquisterState) : Prop where
  apart : Apart state
  awaited : ∀ raid ∈ state.raids, raid.giftEmoji ≠ [] → Awaited state raid.raider

/-- The same as the keeper, who has settled the rides before an index, walks the list: those that are over have
their emoji back. -/
structure OnTheWay (now : ℤ) (index : ℕ) (state : ConquisterState) : Prop where
  riders : (state.raids.map Raid.raider).Nodup
  awaited : ∀ place raid, state.raids[place]? = some raid → raid.giftEmoji ≠ [] →
    (place < index → raid.over now = false) → Awaited state raid.raider

theorem riding_of_getElem? {s : ConquisterState} {place : ℕ} {raid : Raid} (h : s.raids[place]? = some raid) :
    Riding s raid.raider :=
  List.mem_map_of_mem (List.mem_of_getElem? h)

theorem raider_ne {raids : List Raid} (h : (raids.map Raid.raider).Nodup) {place index : ℕ} {raid other : Raid}
    (hraid : raids[place]? = some raid) (hother : raids[index]? = some other) (hne : place ≠ index) :
    raid.raider ≠ other.raider := by
  intro hsame
  have hlt : place < (raids.map Raid.raider).length := by
    rw [List.length_map]
    exact (List.getElem?_eq_some_iff.mp hraid).1
  apply hne
  apply (List.getElem?_inj hlt h).mp
  rw [List.getElem?_map, List.getElem?_map, hraid, hother, Option.map_some, Option.map_some, hsame]

section
variable [Clock]

omit [Clock] in
/-- What is struck down brings nothing any more, and the rest is as it was. -/
theorem laden_of_struck {raids : List Raid} {victim : Str} {reset : Bool} {now : ℤ} {place : ℕ} {raid : Raid}
    (h : (struckRides raids victim reset now)[place]? = some raid) (hemoji : raid.giftEmoji ≠ []) :
    raids[place]? = some raid := by
  rw [struckRides] at h
  split at h
  · rw [callOff, List.getElem?_map] at h
    obtain ⟨old, hold, rfl⟩ := Option.map_eq_some_iff.mp h
    by_cases hstruck : old.raider = victim
    · rw [if_pos hstruck] at hemoji
      exact absurd rfl hemoji
    · rw [if_neg hstruck]
      exact hold
  · exact h

theorem settleArrival_onTheWay {s t : ConquisterState} {index : ℕ} {now : ℤ} {rules : RaidRules} {draws : RaidDraws}
    {events : List RaidEvent} (hs : OnTheWay now index s)
    (h : settleArrival s index now rules draws = .ok (events, t)) : OnTheWay now index t := by
  rw [settleArrival] at h
  split at h
  · cases h
    exact hs
  · rename_i raid hraid
    split at h
    · rename_i hdue
      split at h
      · cases h
      · rename_i event after harrival
        cases h
        have hfresh : raid.arrived = false := by
          simp only [Raid.due, Bool.and_eq_true, Bool.not_eq_true'] at hdue
          exact hdue.1
        obtain ⟨-, raid', hsettled, hafter, -⟩ := arrival_round hraid hraid hfresh harrival
        refine ⟨?_, fun place ride hride hemoji hsettledBefore => ?_⟩
        · rw [hafter, map_struckRides Raid.raider fun _ _ => rfl, map_set_same hraid Raid.raider hsettled.raider]
          exact hs.riders
        · have hkept : (s.raids.set index raid')[place]? = some ride := by
            rw [hafter] at hride
            exact laden_of_struck hride hemoji
          by_cases hplace : place = index
          · -- the ride that arrived: what it still brings it came with
            subst hplace
            have hcame : raid.giftEmoji ≠ [] := fun hnothing =>
              hemoji (arrival_unladen hraid hfresh hnothing harrival hride)
            rw [List.getElem?_set_self (List.getElem?_eq_some_iff.mp hraid).1] at hkept
            cases hkept
            have hreserves : Reserves raid.raider s t :=
              arrival_reserves (riding_of_getElem? hraid) (fun hnothing => absurd hnothing hcame) harrival
            rw [hsettled.raider]
            exact hreserves.awaited (hs.awaited place raid hraid hcame fun hlt => absurd hlt (lt_irrefl place))
          · rw [List.getElem?_set_ne (Ne.symm hplace)] at hkept
            have hreserves : Reserves ride.raider s t :=
              arrival_reserves (riding_of_getElem? hkept)
                (fun _ => raider_ne hs.riders hkept hraid hplace) harrival
            exact hreserves.awaited (hs.awaited place ride hkept hemoji hsettledBefore)
    · cases h
      exact hs

omit [Clock] in
/-- Whoever comes home with an emoji has a slot for it. -/
theorem OnTheWay.putOn {s : ConquisterState} {index : ℕ} {now : ℤ} {raid : Raid} (hs : OnTheWay now index s)
    (hraid : s.raids[index]? = some raid) (hemoji : raid.giftEmoji ≠ []) :
    (putOn (bringPalle s raid) raid.raider raid.giftEmoji).isSome = true := by
  have hroom := (hs.awaited index raid hraid hemoji fun hlt => absurd hlt (lt_irrefl index)).2
  apply putOn_of_hasRoom
  rw [bringPalle]
  split
  · exact (hasRoom_congr rfl).mpr hroom
  · exact hroom

omit [Clock] in
theorem settleHomecoming_onTheWay {s : ConquisterState} {index : ℕ} {now : ℤ} (hs : OnTheWay now index s) :
    OnTheWay now (index + 1) (settleHomecoming s index now).2 := by
  have hraids := (settleHomecoming_round s index now).2
  refine ⟨by rw [hraids]; exact hs.riders, fun place ride hride hemoji hsettled => ?_⟩
  rw [hraids] at hride
  have hbefore : place < index → ride.over now = false := fun hlt => hsettled (Nat.lt_succ_of_lt hlt)
  have hawaited := hs.awaited place ride hride hemoji hbefore
  rw [settleHomecoming]
  split
  · exact hawaited
  · rename_i raid hraid
    split
    · rename_i hover
      have hplace : place ≠ index := by
        rintro rfl
        rw [hraid] at hride
        cases hride
        rw [hsettled (Nat.lt_succ_self place)] at hover
        cases hover
      exact (homecoming_reserves s (raider_ne hs.riders hride hraid hplace) now).awaited hawaited
    · exact hawaited

theorem settleRides_onTheWay {now : ℤ} {rules : RaidRules} {draws : ℕ → RaidDraws} {count index : ℕ}
    {s t : ConquisterState} {events : List RaidEvent} (hs : OnTheWay now index s)
    (h : settleRides now rules draws count index s = .ok (events, t)) : OnTheWay now (index + count) t := by
  induction count generalizing index s events with
  | zero =>
    cases h
    exact hs
  | succ count ih =>
    rw [settleRides] at h
    split at h
    · cases h
    · rename_i first settled hfirst
      split at h
      · cases h
      · rename_i others after hothers
        cases h
        rw [settleRide] at hfirst
        split at hfirst
        · cases hfirst
        · rename_i arrived there harrived
          cases hfirst
          have hthere := settleArrival_onTheWay hs harrived
          have hrest := ih (settleHomecoming_onTheWay hthere) hothers
          rwa [Nat.add_right_comm] at hrest

omit [Clock] in
theorem beforeRides_onTheWay {s : ConquisterState} (hs : Reserved s) (now : ℤ) (rules : RaidRules) (draws : DueDraws) :
    OnTheWay now 0 (beforeRides s now rules draws).2 := by
  have hraids := (beforeRides_aside s now rules draws).raids
  refine ⟨by rw [hraids]; exact hs.apart.riders, fun place raid hraid hemoji _ => ?_⟩
  rw [hraids] at hraid
  exact (beforeRides_reserves s raid.raider now rules draws).awaited
    (hs.awaited raid (List.mem_of_getElem? hraid) hemoji)

theorem raidDue_awaited {s t : ConquisterState} {now : ℤ} {rules : RaidRules} {draws : DueDraws}
    {events : List RaidEvent} (hs : Reserved s) (h : raidDue s now rules draws = .ok (events, t)) :
    ∀ raid ∈ t.raids, raid.giftEmoji ≠ [] → Awaited t raid.raider := by
  simp only [raidDue] at h
  split at h
  · cases h
  · rename_i walked after hwalk
    cases h
    have hway := settleRides_onTheWay (beforeRides_onTheWay hs now rules draws) hwalk
    intro raid hraid hemoji
    obtain ⟨hmem, hunder⟩ := List.mem_filter.mp hraid
    obtain ⟨place, hplace⟩ := List.mem_iff_getElem?.mp hmem
    exact hway.awaited place raid hplace hemoji fun _ => by simpa using hunder

/-- Whether an operation lets somebody set off with an emoji he has nowhere to put back. -/
def givesUpRoom (state : ConquisterState) : Op → Bool
  | .raidStart userId username now rules errand _ => givesUpHisRoom state userId username now rules errand
  | _ => false

def Op.greeted (state : ConquisterState) : Op → Prop
  | .raidStart _ username .. => counter state.welcomed username ≠ 0
  | _ => True

/-- Not what is done once for saves from before there were two places. -/
def Op.playedBy : Op → Bool
  | .sortOut => false
  | _ => true

omit [Clock] in
theorem laden_turned {raids : List Raid} {username : Str} {now : ℤ} {raid : Raid}
    (h : raid ∈ onFirst raids username fun raid => raid.turned now) :
    ∃ old ∈ raids, raid.raider = old.raider ∧ raid.giftEmoji = old.giftEmoji := by
  induction raids with
  | nil => cases h
  | cons first raids ih =>
    rw [onFirst] at h
    split at h
    · rcases List.mem_cons.mp h with rfl | hrest
      · exact ⟨first, List.mem_cons_self, rfl, rfl⟩
      · exact ⟨raid, List.mem_cons_of_mem _ hrest, rfl, rfl⟩
    · rcases List.mem_cons.mp h with rfl | hrest
      · exact ⟨raid, List.mem_cons_self, rfl, rfl⟩
      · obtain ⟨old, hold, hsame⟩ := ih hrest
        exact ⟨old, List.mem_cons_of_mem _ hold, hsame⟩

omit [Clock] in
theorem raidStart_awaited {s t : ConquisterState} {userId : ℤ} {username : Str} {now : ℤ} {rules : RaidRules}
    {errand : Errand} {draws : StartDraws} {result : RaidResult} (hs : Reserved s)
    (hgreeted : counter s.welcomed username ≠ 0)
    (hroom : givesUpHisRoom s userId username now rules errand = false)
    (h : raidStart s userId username now rules errand draws = .ok (result, t)) :
    ∀ raid ∈ t.raids, raid.giftEmoji ≠ [] → Awaited t raid.raider := by
  have hreserves (player : Str) : Reserves player s t := raidStart_reserves player h
  intro raid hraid hemoji
  obtain ⟨-, hoff⟩ := raidStart_setsOff h
  cases hoff with
  | stays notOff notTurned same =>
    rw [same] at hraid
    exact (hreserves raid.raider).awaited (hs.awaited raid hraid hemoji)
  | turns comes riding turned =>
    rw [turned] at hraid
    obtain ⟨old, hold, hraider, hsame⟩ := laden_turned hraid
    rw [hsame] at hemoji
    rw [hraider]
    exact (hreserves old.raider).awaited (hs.awaited old hold hemoji)
  | off target started away known fair fit pushed =>
    rw [pushed, List.mem_append, List.mem_singleton] at hraid
    rcases hraid with hold | rfl
    · exact (hreserves raid.raider).awaited (hs.awaited raid hold hemoji)
    · change errand.giftEmoji ≠ [] at hemoji
      change Awaited t username
      have hfits : pastTheLast s username errand.giftEmoji = false := by
        apply Bool.eq_false_iff.mpr
        intro hpast
        apply Bool.eq_false_iff.mp hroom
        have hpresent : errand.blow = false ∨ newcomer s target now = false := by
          cases hblow : errand.blow with
          | false => exact .inl rfl
          | true => exact .inr (fair hblow)
        simp [givesUpHisRoom, hemoji, hpast, away, known, fit, hpresent]
      exact ⟨(hreserves username).welcomed hgreeted, raidStart_hasRoom h started hemoji hfits⟩

/-- What an operation that is neither the keeper's round nor a departure leaves somebody on the road. -/
theorem step_reserves {files files' : Files} {op : Op} {reply : Reply} (hplayed : op.playedBy = true)
    (hdue : ∀ now rules draws, op ≠ .raidDue now rules draws) (hriding : Riding files.state player)
    (h : step files op = .ok (reply, files')) : Reserves player files.state files'.state ∨ files'.state.raids = [] := by
  cases op with
  | claim userId username now rules draws =>
    obtain ⟨result, hclaim, -, -⟩ := Files.only_eq_ok h
    exact .inl (conquisterClaim_reserves player hclaim)
  | raidStart userId username now rules errand draws =>
    obtain ⟨result, hstart, -, -⟩ := Files.only_eq_ok h
    exact .inl (raidStart_reserves player hstart)
  | raidDue now rules draws => exact absurd rfl (hdue now rules draws)
  | buy username emoji position cost limit now inflation =>
    obtain ⟨result, hbuy, -, -⟩ := Files.only_eq_ok h
    exact .inl (furnitureBuy_reserves hriding hbuy)
  | move username source target limit now =>
    obtain ⟨result, hmove, -, -⟩ := Files.only_eq_ok h
    exact .inl (furnitureMove_reserves player hmove)
  | burn other emoji now rules destroy draws =>
    obtain ⟨result, hburn, -, -⟩ := Files.only_eq_ok h
    exact furnitureBurn_reserves player hburn
  | palleBurn other amount =>
    cases h
    exact .inl (palleBurn_reserves _ player other amount)
  | take other emoji swap now =>
    obtain ⟨result, htake, -, -⟩ := Files.only_eq_ok h
    exact .inl (gearTake_reserves hriding htake)
  | store other emoji limit now =>
    obtain ⟨result, hstore, -, -⟩ := Files.only_eq_ok h
    exact .inl (gearStore_reserves hriding hstore)
  | sortOut => cases hplayed
  | seen userId username accountName furnitureLimit now =>
    cases h
    exact .inl (playerSeen_reserves _ player userId username accountName furnitureLimit now)
  | link userId username otherName accountName =>
    obtain ⟨status, hlink, -, -⟩ := Files.only_eq_ok h
    exact .inl (playerLink_reserves hriding hlink)
  | handOut furnitureLimit =>
    cases h
    exact .inl (balloonsHandOut_reserves _ player furnitureLimit)
  | quoteAdd username quote cost =>
    rw [step] at h
    split at h
    · cases h
    · rename_i result state quotes hadd
      cases h
      exact .inl (quoteAdd_reserves player hadd)
  | quoteDelete selector =>
    have hdeleted := quoteDelete_reserves files.state player files.quotes selector
    rw [step] at h
    split at h
    rename_i removed state quotes hdelete
    cases h
    rw [hdelete] at hdeleted
    exact .inl hdeleted
  | guide other =>
    cases h
    exact .inl (guideDue_reserves _ player other)
  | invite newcomer inviter platform now =>
    have hrecorded := inviteRecord_reserves files.state player newcomer inviter platform now
    rw [step] at h
    split at h
    rename_i status shown state hrecord
    cases h
    rw [hrecord] at hrecorded
    exact .inl hrecorded
  | reward newcomer samePerson =>
    cases h
    exact .inl (inviteDue_reserves _ player newcomer samePerson)
  | debug username wanted =>
    cases h
    exact .inl (.of_same rfl rfl)

/-- Whatever is asked of the game, what travels has its slot back. -/
theorem step_reserved {files files' : Files} {op : Op} {reply : Reply} (hs : Reserved files.state)
    (hplayed : op.playedBy = true) (hgreeted : op.greeted files.state) (hroom : givesUpRoom files.state op = false)
    (h : step files op = .ok (reply, files')) : Reserved files'.state := by
  obtain ⟨receipt, hpassage, -, -⟩ := step_passage h
  refine ⟨hpassage.apart hs.apart, fun raid hraid hemoji => ?_⟩
  by_cases hdue : ∃ now rules draws, op = .raidDue now rules draws
  · obtain ⟨now, rules, draws, rfl⟩ := hdue
    obtain ⟨events, hround, -, -⟩ := Files.only_eq_ok h
    exact raidDue_awaited hs hround raid hraid hemoji
  · have hother : ∀ now rules draws, op ≠ .raidDue now rules draws :=
      fun now rules draws hop => hdue ⟨now, rules, draws, hop⟩
    have hstays (hsame : files'.state.raids = files.state.raids) : Awaited files'.state raid.raider := by
      have hold : raid ∈ files.state.raids := by rwa [← hsame]
      rcases step_reserves hplayed hother (List.mem_map_of_mem hold) h with hreserves | hnone
      · exact hreserves.awaited (hs.awaited raid hold hemoji)
      · rw [hnone] at hraid
        cases hraid
    cases (step_goes h).rides with
    | same hsame => exact hstays hsame
    | start setsOff =>
      obtain ⟨result, hstart, -, -⟩ := Files.only_eq_ok h
      exact raidStart_awaited hs hgreeted hroom hstart raid hraid hemoji
    | @due now rules draws events _ round => exact absurd rfl (hother now rules draws)
    | burn rides =>
      rcases rides with ⟨-, hsame⟩ | ⟨-, hnone⟩
      · exact hstays hsame
      · rw [hnone] at hraid
        cases hraid

/-- Whether something was asked for, and done, that lets somebody set off with an emoji he has nowhere to put
back. -/
def Call.givesUpRoom (call : Call) : Bool := call.reply.isSome && NorelecBot.givesUpRoom call.before.state call.op

/-- Nothing a message asked for gives up what is reserved. -/
def keepsRoom (bot : Bot) : Event → Bool
  | .message message => (bot.hear message).2.calls.all fun call => !call.givesUpRoom
  | _ => true

def keepsAllRoom : Bot → List Event → Bool
  | _, [] => true
  | bot, event :: events => keepsRoom bot event && keepsAllRoom (bot.after event) events

/-- Whatever happens while the game is played. -/
def Event.played : Event → Bool
  | .sortOut => false
  | _ => true

/-- What was asked of the game since then, and that it leaves every raider what was reserved for him. -/
def Reserving (before after : Desk) : Prop :=
  ∃ since, after.calls = before.calls ++ since ∧
    ((∀ call ∈ since, call.givesUpRoom = false) → Reserved before.files.state → Reserved after.files.state)

omit [Clock] in
theorem Reserving.of_same {before after : Desk} (hcalls : after.calls = before.calls) (hfiles : after.files = before.files) :
    Reserving before after :=
  ⟨[], by rw [hcalls, List.append_nil], fun _ hs => hfiles ▸ hs⟩

theorem ask_reserving (moment : Moment) {op : Op} {desk : Desk} (hplayed : op.playedBy = true)
    (hgreeted : op.greeted desk.files.state) : Reserving desk (ask moment op desk).2 := by
  rcases ask_cases moment op desk with hask | ⟨reply, files, hstep, hask⟩
  · rw [hask]
    exact ⟨_, rfl, fun _ hs => hs⟩
  · rw [hask]
    refine ⟨_, rfl, fun hkept hs => ?_⟩
    have hroom := hkept ⟨desk.files, op, some reply⟩ List.mem_cons_self
    exact step_reserved hs hplayed hgreeted hroom hstep

omit [Clock] in
theorem reserving_preorder : IsPreorder Desk Reserving where
  refl := fun _ => .of_same rfl rfl
  trans := by
    rintro first second third ⟨since, hcalls, hkeeps⟩ ⟨later, hcalls', hkeeps'⟩
    refine ⟨since ++ later, by rw [hcalls', hcalls, List.append_assoc], fun hkept hs => ?_⟩
    rw [List.forall_mem_append] at hkept
    exact hkeeps' hkept.2 (hkeeps hkept.1 hs)

theorem reserving_routine (context : CommandContext) (moment : Moment) : Routine context moment Reserving where
  preorder := reserving_preorder
  ask op hop desk := by
    apply ask_reserving moment
    · cases op with
      | sortOut => cases hop
      | _ => rfl
    · cases op with
      | raidStart => cases hop
      | _ => trivial
  consult _ _ := .of_same rfl rfl
  remember :=
    have := reserving_preorder
    remember_of_ask (fun _ => ask_reserving moment rfl trivial) fun _ _ => .of_same rfl rfl
  unblock _ _ := .of_same rfl rfl
  tellBlocked _ _ _ := .of_same rfl rfl

/-- Whoever was seen may set off: he is welcome. -/
theorem message_reserving (context : CommandContext) (moment : Moment) (text : Str) :
    (commandDispatch context moment text).Within Reserving := by
  have hway (desk : Desk) (op : Op)
      (hknown : context.username ≠ [] → counter desk.files.state.welcomed desk.bound ≠ 0)
      (hname : context.username ≠ []) (hop : op.onHisWay desk.bound) : Reserving desk (ask moment op desk).2 := by
    cases op with
    | claim => exact ask_reserving moment rfl trivial
    | raidStart userId username now rules errand draws =>
      cases hop
      exact ask_reserving moment rfl (hknown hname)
    | _ => cases hop
  apply @Routine.message _ _ _ _ _ (reserving_routine context moment)
    (fun files bound => context.username ≠ [] → counter files.state.welcomed bound ≠ 0) hway
  intro desk desk' hrun hname
  cases hopen : moment.fails desk.opened with
  | true =>
    rw [rememberSender_failed hname hopen] at hrun
    cases hrun
  | false =>
    rw [rememberSender_ok hname hopen] at hrun
    cases hrun
    exact playerSeen_welcomed _ _ _ _ _ _

theorem after_reserved {bot : Bot} {event : Event} (hs : Reserved bot.files.state) (hplayed : event.played = true)
    (hroom : keepsRoom bot event = true) : Reserved (bot.after event).files.state := by
  have hop {op : Op} (hplayed : op.playedBy = true) (hgreeted : op.greeted bot.files.state)
      (hkept : givesUpRoom bot.files.state op = false) : Reserved (bot.files.after op).state := by
    cases hstep : step bot.files op with
    | error failure =>
      rw [Files.after, hstep]
      exact hs
    | ok result =>
      obtain ⟨reply, files'⟩ := result
      rw [Files.after_eq hstep]
      exact step_reserved hs hplayed hgreeted hkept hstep
  cases event with
  | message message =>
    obtain ⟨since, hcalls, hkeeps⟩ := message_reserving message.context message.moment message.text bot.desk
    apply hkeeps _ hs
    intro call hcall
    rw [keepsRoom, List.all_eq_true] at hroom
    have hmem : call ∈ (bot.hear message).2.calls := by
      change call ∈ (commandDispatch message.context message.moment message.text bot.desk).2.calls
      rw [hcalls]
      exact List.mem_append_right _ hcall
    simpa using hroom call hmem
  | raidDue now rules draws => exact hop rfl trivial rfl
  | handOut furnitureLimit => exact hop rfl trivial rfl
  | sortOut => cases hplayed
  | block player until' => exact hs

theorem run_reserved {bot : Bot} {events : List Event} (hs : Reserved bot.files.state)
    (hplayed : ∀ event ∈ events, event.played = true) (hroom : keepsAllRoom bot events = true) :
    Reserved (bot.run events).files.state := by
  induction events generalizing bot with
  | nil => exact hs
  | cons event events ih =>
    rw [List.forall_mem_cons] at hplayed
    rw [keepsAllRoom, Bool.and_eq_true] at hroom
    exact ih (after_reserved hs hplayed.1 hroom.1) hplayed.2 hroom.2

/-- The ride at an index is over as the keeper, who has settled those before it, gets to it. -/
def ComesHome (state : ConquisterState) (now : ℤ) (rules : RaidRules) (draws : DueDraws) (index : ℕ) (raid : Raid)
    (there : ConquisterState) : Prop :=
  ∃ before settled arrived,
    settleRides now rules draws.ride index 0 (beforeRides state now rules draws).2 = .ok (before, settled) ∧
      settleArrival settled index now rules (draws.ride index) = .ok (arrived, there) ∧
      there.raids[index]? = some raid ∧ raid.over now = true

/-- In the course of the game whoever rides with an emoji has a free slot on him, and when he comes home with it
still, in whatever round, that is where it goes. -/
theorem what_travels_has_its_slot_back {bot : Bot} (hnobody : bot.files.state.raids = []) {events : List Event}
    (hplayed : ∀ event ∈ events, event.played = true) (hroom : keepsAllRoom bot events = true) :
    (∀ raid ∈ (bot.run events).files.state.raids, raid.giftEmoji ≠ [] →
      (freeSlot (gearOf (bot.run events).files.state raid.raider) carriedLimit).isSome = true) ∧
    ∀ now rules draws index raid there,
      ComesHome (bot.run events).files.state now rules draws index raid there → raid.giftEmoji ≠ [] →
        putOn (bringPalle there raid) raid.raider raid.giftEmoji =
          some (bringBack (bringPalle there raid) raid.raider raid.giftEmoji) := by
  have hempty : Reserved bot.files.state := by
    refine ⟨⟨?_, fun hold _ raid hraid => ?_⟩, fun raid hraid => ?_⟩
    · rw [hnobody]
      exact List.nodup_nil
    all_goals
      rw [hnobody] at hraid
      cases hraid
  have hreserved := run_reserved hempty hplayed hroom
  refine ⟨fun raid hraid hemoji => freeSlot_isSome.mpr (hreserved.awaited raid hraid hemoji).2, ?_⟩
  rintro now rules draws index raid there ⟨before, settled, arrived, hbefore, harrived, hraid, hover⟩ hemoji
  have hway := settleRides_onTheWay (beforeRides_onTheWay hreserved now rules draws) hbefore
  rw [Nat.zero_add] at hway
  obtain ⟨worn, hworn⟩ := Option.isSome_iff_exists.mp ((settleArrival_onTheWay hway harrived).putOn hraid hemoji)
  rw [bringBack, if_neg hemoji, hworn]

end

/-- What somebody on IRC writes at some time, with houses in two places. -/
def onIrcAt (name : String) (now : ℤ) (text : String) : Event := .message
  { context := { username := utf8 name }, moment := { now := now, start := ⟨[1], [2]⟩ }, text := utf8 text }

/-- She rides with a beer, and turns back before she is there. -/
def bringsBeer : List Event := [
  onIrcAt "bob" (day 1) "/help",
  onIrcAt "alice" (day 1) "We @TheConquister37",
  onIrcAt "alice" (day 90) "/back",
  onIrcAt "alice" (day 90) "/buy 🍺",
  onIrcAt "alice" (day 90) "/give bob 🍺",
  onIrcAt "alice" (day 90 + 2) "/back"]

theorem what_travels_has_its_slot_back_beer :
    (∀ raid ∈ (@Bot.run _ utc {} bringsBeer).files.state.raids, raid.giftEmoji ≠ [] →
      (freeSlot (gearOf (@Bot.run _ utc {} bringsBeer).files.state raid.raider) carriedLimit).isSome = true) ∧
    (@Bot.run _ utc {} bringsBeer).files.state.raids.map Raid.giftEmoji = [utf8 "🍺"] :=
  ⟨(@what_travels_has_its_slot_back utc {} rfl bringsBeer (by decide) (by decide +kernel)).1, by decide +kernel⟩

/-- The same with five slots read on her as six: what she burns was read in one piece with what came after. -/
def hoards : List Event := [
  onIrcAt "bob" (day 1) "/help",
  onIrcAt "alice" (day 1) "We @TheConquister37",
  onIrcAt "alice" (day 90) "/back",
  onIrcAt "alice" (day 90) "/buy 👨‍", onIrcAt "alice" (day 90) "/take 👨‍",
  onIrcAt "alice" (day 90) "/buy 1⃣", onIrcAt "alice" (day 90) "/take 1⃣",
  onIrcAt "alice" (day 90) "/buy 👍", onIrcAt "alice" (day 90) "/take 👍",
  onIrcAt "alice" (day 90) "/buy 🍕", onIrcAt "alice" (day 90) "/take 🍕",
  onIrcAt "alice" (day 90) "/buy 🍺", onIrcAt "alice" (day 90) "/take 🍺",
  onIrcAt "alice" (day 90) "/burn 👨‍",
  onIrcAt "alice" (day 90) "/buy 🐟", onIrcAt "alice" (day 90) "/take 🐟",
  onIrcAt "alice" (day 90) "/give bob 🍺"]

theorem hoards_has_no_slot :
    ∃ raid ∈ (@Bot.run _ utc {} hoards).files.state.raids, raid.giftEmoji ≠ [] ∧
      (freeSlot (gearOf (@Bot.run _ utc {} hoards).files.state raid.raider) carriedLimit).isSome = false := by
  decide +kernel

end NorelecBot
