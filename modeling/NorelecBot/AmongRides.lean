import NorelecBot.AmongNames
import NorelecBot.DuePassages

/-! # Nobody out of nowhere: rides, and what time brings

A ride is between its raider and its target, a child comes to the house of its
mother, and the eggs are laid in a house that is there.
-/

namespace NorelecBot
open Lib

theorem growAll_sublist [SlotCodec] (now : ℤ) (rules : RaidRules) (children : List Child) (s : ConquisterState) :
    (growAll now rules children s).1.Sublist children := by
  induction children generalizing s with
  | nil => exact List.Sublist.refl []
  | cons child children ih =>
    rw [growAll]
    dsimp only
    split
    · exact (ih _).cons_cons child
    · exact (ih _).cons child

namespace Among
variable {people : Str → Prop} {s t : ConquisterState} {player other : Str} {now : ℤ}

section
variable {index : ℕ} {raid : Raid} {id : ℤ}

theorem onRide (h : Among people s) (index : ℕ) {f : Raid → Raid}
    (hf : ∀ raid, (f raid).raider = raid.raider ∧ (f raid).target = raid.target) : Among people (onRide s index f) := by
  refine { h with rides := fun raid hraid => ?_ }
  obtain ⟨place, hplace, hget⟩ := List.mem_iff_getElem.mp hraid
  have hbefore : place < s.raids.length := by
    rwa [NorelecBot.onRide, List.length_modify] at hplace
  have hmem := h.rides _ (List.getElem_mem hbefore)
  simp only [NorelecBot.onRide, List.getElem_modify] at hget
  rw [← hget]
  split
  · rw [(hf _).1, (hf _).2]
    exact hmem
  · exact hmem

theorem playerId {draws : List ℕ} (h : Among people s) (hplayer : people player)
    (hid : playerId s player draws = .ok (id, t)) : Among people t := by
  rw [NorelecBot.playerId] at hid
  split at hid
  · cases hid
    exact h
  · split at hid
    · cases hid
    · cases hid
      exact { h with ids := h.ids.set hplayer _ }

variable [SlotCodec] {rules : RaidRules} {errand : Errand}

omit [SlotCodec] in
theorem rideHome {result : RaidResult} (h : Among people s) (hhome : rideHome s player now = .ok (result, t)) :
    Among people t := by
  rw [NorelecBot.rideHome] at hhome
  split at hhome
  · cases hhome
    exact { h with rides := onFirst_all h.rides player h.rides }
  · split at hhome
    · split at hhome
      · cases hhome
      · rename_i settled away hleave
        cases hhome
        exact h.leavePlace hleave
    · cases hhome
      exact h

theorem takeAlong (h : Among people s) (hplayer : people player) (emoji : Str) :
    Among people (takeAlong s player emoji) := by
  rw [NorelecBot.takeAlong]
  split
  · exact h
  · cases htaken : NorelecBot.takeEmoji s player emoji with
    | none => exact h
    | some taken => exact h.takeEmoji hplayer htaken

theorem depart {outcome result : RaidResult} {draws : StartDraws} (h : Among people s) (hplayer : people player)
    (hother : people other) (hdepart : depart s outcome player other now rules errand draws = .ok (result, t)) :
    Among people t := by
  rw [NorelecBot.depart] at hdepart
  split at hdepart
  · cases hdepart
  · rename_i homeId settled hsettled
    split at hdepart
    · cases hdepart
    · rename_i theirId mapped hmapped
      have hgone := (h.playerId hplayer hsettled).playerId hother hmapped
      cases hdepart
      refine { hgone with rides := fun raid hraid => ?_ }
      rcases List.mem_append.mp hraid with hold | hnew
      · exact hgone.rides raid hold
      · cases List.mem_singleton.mp hnew
        exact ⟨hplayer, hother⟩

theorem load {result : RaidResult} {draws : StartDraws} (h : Among people s) (hplayer : people player)
    (hother : people other) (hload : load s player other now rules errand draws = .ok (result, t)) :
    Among people t := by
  have hlight : Among people (takePalle s player errand.gift) := by
    rw [takePalle]
    split
    · exact h
    · exact h.score hplayer _
  rw [NorelecBot.load] at hload
  dsimp only at hload
  split at hload
  · cases hload
    exact hlight
  · exact (hlight.takeAlong hplayer errand.giftEmoji).depart hplayer hother hload

theorem setOff {result : RaidResult} {draws : StartDraws} (h : Among people s) (hplayer : people player)
    (hother : people other) (hoff : setOff s player other now rules errand draws = .ok (result, t)) :
    Among people t := by
  rw [NorelecBot.setOff] at hoff
  split at hoff
  · cases hoff
    exact h
  · split_ifs at hoff
    iterate 5
      · cases hoff
        exact h
    exact h.load hplayer hother hoff

theorem raidStart {userId : ℤ} {result : RaidResult} {draws : StartDraws} (h : Among people s)
    (hplayer : people player) (hstart : raidStart s userId player now rules errand draws = .ok (result, t)) :
    Among people t := by
  have hknown := h.rememberPlatform hplayer userId
  simp only [NorelecBot.raidStart] at hstart
  split at hstart
  · exact hknown.rideHome hstart
  · split at hstart
    · cases hstart
      exact hknown
    · rename_i target htarget
      exact hknown.setOff hplayer (hknown.playerByName htarget) hstart

end

section
variable [SlotCodec] {raid : Raid} {event outcome : RaidEvent} {rules : RaidRules} {index : ℕ}

theorem salt (h : Among people s) (hplayer : people player) (hother : people other) (now : ℤ) (rules : RaidRules) :
    Among people (salt s player other now rules).2 := by
  have hrecent : ∀ knock ∈ s.knocks.filter (fun knock => ¬ now - knock.stamp > saltSeconds),
      people knock.raider ∧ people knock.target := fun knock hknock => h.knocks knock (List.mem_of_mem_filter hknock)
  simp only [NorelecBot.salt]
  split
  · refine { h with knocks := fun knock hknock => ?_ }
    rcases List.mem_append.mp hknock with hold | hnew
    · exact hrecent knock hold
    · cases List.mem_singleton.mp hnew
      exact ⟨hplayer, hother⟩
  · exact { h with
      knocks := fun knock hknock => hrecent knock (List.mem_of_mem_filter hknock)
      scores := (h.scores.set hplayer _).set hother _ }

theorem jaws (h : Among people s) (hplayer : people player) (other : Str) (rules : RaidRules) (draws : RaidDraws) :
    Among people (jaws s player other rules draws).2 := by
  simp only [NorelecBot.jaws]
  split
  · exact h.blowUp hplayer true draws.eaten
  · exact h

theorem defendedAtHome (h : Among people s) (hplayer : people player) (event : RaidEvent) (now : ℤ) (draw : ℕ) :
    Among people (defendedAtHome s player event now draw).2.2 := by
  have hattempt := h.balloonAttempt hplayer .home now draw
  rw [NorelecBot.defendedAtHome]
  split <;> rename_i after hroll <;> rw [hroll] at hattempt <;> exact hattempt

theorem board (h : Among people s) (hraider : people raid.raider) (htarget : people raid.target) (rules : RaidRules)
    (draws : RaidDraws) : Among people (board s raid rules draws).2 := by
  rcases board_cases s raid rules draws with hsame | ⟨taken, -, -, place, -, hafter⟩
  · rw [hsame]
    exact h
  · rw [hafter]
    exact (h.hang htarget _).hangGear hraider _

theorem rob [Clock] {draws : RaidDraws} (h : Among people s) (hraider : people raid.raider)
    (htarget : people raid.target) (hrob : rob s index raid event now rules draws = .ok (outcome, t)) :
    Among people t := by
  rw [NorelecBot.rob] at hrob
  split at hrob
  · cases hrob
  · rename_i fromId settled hfrom
    split at hrob
    · cases hrob
    · rename_i toId mapped hto
      obtain ⟨-, rfl⟩ := Prod.mk.inj (Except.ok.inj hrob)
      have hmapped := (h.playerId hraider hfrom).playerId htarget hto
      refine Among.board ?_ hraider htarget rules draws
      rw [takeLoot]
      split
      · exact (hmapped.score htarget _).onRide index fun _ => ⟨rfl, rfl⟩
      · exact hmapped.onRide index fun _ => ⟨rfl, rfl⟩

theorem raidHouse [Clock] {draws : RaidDraws} (h : Among people s) (hraider : people raid.raider)
    (htarget : people raid.target) (hraid : raidHouse s index raid event now rules draws = .ok (outcome, t)) :
    Among people t := by
  rw [NorelecBot.raidHouse] at hraid
  dsimp only at hraid
  generalize sneaks s raid now rules draws.stealth = stealth at hraid
  generalize hguarded : (if stealth.1 = true then
    (false, { event with sneaked := stealth.1, alarmed := stealth.2 }, s)
    else NorelecBot.defendedAtHome s raid.target { event with sneaked := stealth.1, alarmed := stealth.2 } now
      draws.balloon) = guarded at hraid
  have hquiet : Among people guarded.2.2 := by
    rw [← hguarded]
    split
    · exact h
    · exact h.defendedAtHome htarget _ now draws.balloon
  split at hraid
  · cases hraid
    exact hquiet.onRide index fun _ => ⟨rfl, rfl⟩
  · generalize (if stealth.1 = true then (0 : ℤ)
      else upToAll (houseCopies guarded.2.2 raid.target .dog) rules.dogPercent) = chance at hraid
    split at hraid
    · cases hraid
      exact hquiet.onRide index fun _ => ⟨rfl, rfl⟩
    · exact hquiet.rob hraider htarget hraid

theorem atTheDoor (h : Among people s) (hraider : people raid.raider) (htarget : people raid.target)
    (event : RaidEvent) (now : ℤ) (rules : RaidRules) (draws : RaidDraws) :
    Among people (atTheDoor s raid event now rules draws).2 := by
  have heaten := (h.salt hraider htarget now rules).jaws hraider raid.target rules draws
  simp only [NorelecBot.atTheDoor]
  split <;> exact heaten

theorem deliver (h : Among people s) (index : ℕ) (hraider : people raid.raider) (htarget : people raid.target)
    (event : RaidEvent) (now : ℤ) (rules : RaidRules) (draws : RaidDraws) :
    Among people (deliver s index raid event now rules draws).2 := by
  have hpaid : Among people (deliverPalle s index raid) := by
    rw [deliverPalle]
    split
    · exact (h.score htarget _).onRide index fun _ => ⟨rfl, rfl⟩
    · exact h
  have hstruck (back : Bool) : people (struck raid back) := by
    cases back with
    | true => exact hraider
    | false => exact htarget
  simp only [NorelecBot.deliver]
  split
  · exact hpaid
  · generalize deliverPalle s index raid = paid at hpaid
    simp only [deliverEmoji]
    split
    · exact hpaid
    · split
      · simp only [throwAtHouse]
        exact (hpaid.land hraider (hstruck _) _ now _).onRide index fun _ => ⟨rfl, rfl⟩
      · split
        · rename_i onHim kept hreceive
          exact (hpaid.receive htarget hreceive).onRide index fun _ => ⟨rfl, rfl⟩
        · exact hpaid

theorem arrival [Clock] {draws : RaidDraws} (h : Among people s) (hraider : people raid.raider)
    (htarget : people raid.target) (harrival : arrival s index raid now rules draws = .ok (event, t)) :
    Among people t := by
  have hthere : Among people (NorelecBot.onRide s index Raid.reached) := h.onRide index fun _ => ⟨rfl, rfl⟩
  simp only [NorelecBot.arrival] at harrival
  generalize NorelecBot.onRide s index Raid.reached = there at harrival hthere
  generalize hmet : (if raid.gift = 0 ∧ raid.giftEmoji = [] then
    NorelecBot.atTheDoor there raid (arrivalEvent there raid now) now rules draws
    else (arrivalEvent there raid now, there)) = met at harrival
  have hdoor : Among people met.2 := by
    rw [← hmet]
    split
    · exact hthere.atTheDoor hraider htarget _ now rules draws
    · exact hthere
  split at harrival
  · cases harrival
  · rename_i reached after houtcome
    cases harrival
    split at houtcome
    · have hdelivered : (NorelecBot.deliver met.2 index raid met.1 now rules draws).2 = t :=
        congrArg Prod.snd (Except.ok.inj houtcome)
      rw [← hdelivered]
      exact hdoor.deliver index hraider htarget met.1 now rules draws
    · exact hdoor.raidHouse hraider htarget houtcome

theorem homecoming (h : Among people s) (hraider : people raid.raider) (now : ℤ) :
    Among people (homecoming s raid now).2 := by
  have hpaid : Among people (bringPalle s raid) := by
    rw [bringPalle]
    split
    · exact h.score hraider _
    · exact h
  change Among people (bringBack (bringPalle s raid) raid.raider raid.giftEmoji)
  by_cases hemoji : raid.giftEmoji = []
  · rw [bringBack, if_pos hemoji]
    exact hpaid
  · rcases bringBack_cases (bringPalle s raid) raid.raider hemoji with hworn | hkept
    · exact hpaid.putOn hraider hworn
    · exact hpaid.putInHouse hraider hkept

theorem settleRide [Clock] {draws : RaidDraws} {events : List RaidEvent} (h : Among people s)
    (hsettle : settleRide s index now rules draws = .ok (events, t)) : Among people t := by
  rw [NorelecBot.settleRide] at hsettle
  split at hsettle
  · cases hsettle
  · rename_i arrived there harrived
    cases hsettle
    have hthere : Among people there := by
      rw [settleArrival] at harrived
      split at harrived
      · cases harrived
        exact h
      · rename_i raid hraid
        obtain ⟨hraider, htarget⟩ := h.rides raid (List.mem_of_getElem? hraid)
        split at harrived
        · split at harrived
          · cases harrived
          · rename_i event after harrival
            cases harrived
            exact h.arrival hraider htarget harrival
        · cases harrived
          exact h
    rw [settleHomecoming]
    split
    · exact hthere
    · rename_i raid hraid
      split
      · exact hthere.homecoming (hthere.rides raid (List.mem_of_getElem? hraid)).1 now
      · exact hthere

theorem settleRides [Clock] {draws : ℕ → RaidDraws} {count : ℕ} {events : List RaidEvent} (h : Among people s)
    (hsettle : settleRides now rules draws count index s = .ok (events, t)) : Among people t := by
  induction count generalizing index s events with
  | zero =>
    cases hsettle
    exact h
  | succ count ih =>
    rw [NorelecBot.settleRides] at hsettle
    split at hsettle
    · cases hsettle
    · rename_i first settled hfirst
      split at hsettle
      · cases hsettle
      · rename_i others after hothers
        cases hsettle
        exact ih (h.settleRide hfirst) hothers

theorem layEggs (h : Among people s) (now : ℤ) (rules : RaidRules) : Among people (layEggs s now rules) := by
  have hpaid (laid : List (Str × ℤ)) (hlaid : ∀ eggs ∈ laid, people eggs.1) {scores : Counters}
      (hscores : scores.KeysIn people) : (laid.foldl payEggs scores).KeysIn people := by
    induction laid generalizing scores with
    | nil => exact hscores
    | cons eggs laid ih =>
      have hone := hscores.set (hlaid eggs List.mem_cons_self) (counter scores eggs.1 + eggs.2)
      exact ih (fun later hlater => hlaid later (List.mem_cons_of_mem eggs hlater)) hone
  rw [NorelecBot.layEggs]
  split_ifs
  · exact h
  · exact { h with }
  · exact h
  · refine { h with scores := hpaid _ (fun eggs heggs => ?_) h.scores }
    obtain ⟨owner, howner, rfl⟩ := List.mem_map.mp heggs
    exact h.furniture owner (List.mem_of_mem_filter howner)

theorem growAll {children : List Child} (h : Among people s) (hchildren : ∀ child ∈ children, people child.owner)
    (now : ℤ) (rules : RaidRules) : Among people (growAll now rules children s).2.2 := by
  induction children generalizing s with
  | nil => exact h
  | cons child children ih =>
    have howner := hchildren child List.mem_cons_self
    refine ih ?_ fun later hlater => hchildren later (List.mem_cons_of_mem child hlater)
    simp only [growOne]
    split_ifs
    · exact h
    · exact h.hang howner _
    · exact h.hang howner _
    · exact h

theorem grow (h : Among people s) (now : ℤ) (rules : RaidRules) (draws : ℕ → ℕ) :
    Among people (grow s now rules draws).2 := by
  have hgrown := h.growAll h.children now rules
  have hstay : ∀ child ∈ (NorelecBot.growAll now rules s.children s).1, people child.owner := fun child hchild =>
    h.children child ((growAll_sublist now rules s.children s).mem hchild)
  refine { hgrown with pregnancies := fun pregnancy hpregnancy => ?_, children := fun child hchild => ?_ }
  · rcases List.mem_append.mp hpregnancy with hold | hnew
    · exact hgrown.pregnancies pregnancy hold
    · obtain ⟨place, -, hplace⟩ := List.mem_flatMap.mp hnew
      split at hplace
      · cases hplace
      · rename_i girl hgirl
        split at hplace
        · cases List.mem_singleton.mp hplace
          exact ⟨hstay girl (List.mem_of_getElem? hgirl), h.nobody⟩
        · cases hplace
  · obtain ⟨before, hbefore, rfl⟩ := List.mem_map.mp hchild
    rw [court]
    split
    · exact hstay before hbefore
    · exact hstay before hbefore

theorem birthsFrom {pregnancies : List Pregnancy} (h : Among people s) (now : ℤ) (rules : RaidRules)
    (draws : ℕ → BirthDraws) (index : ℕ) (hmothers : ∀ pregnancy ∈ pregnancies, people pregnancy.mother) :
    Among people (birthsFrom now rules draws pregnancies index s).2 := by
  induction pregnancies generalizing index s with
  | nil => exact h
  | cons pregnancy pregnancies ih =>
    have hmother := hmothers pregnancy List.mem_cons_self
    have hlater : ∀ later ∈ pregnancies, people later.mother := fun later hmem =>
      hmothers later (List.mem_cons_of_mem pregnancy hmem)
    rw [NorelecBot.birthsFrom]
    split
    · exact ih h _ hlater
    · refine ih ?_ _ hlater
      simp only [birth]
      split
      · exact h
      · refine { h.hang hmother _ with children := fun child hchild => ?_ }
        rcases List.mem_append.mp hchild with hold | hnew
        · exact h.children child hold
        · cases List.mem_singleton.mp hnew
          exact hmother

theorem beforeRides (h : Among people s) (now : ℤ) (rules : RaidRules) (draws : DueDraws) :
    Among people (beforeRides s now rules draws).2 := by
  have hclean : Among people (wash s now) :=
    { h with smeared := h.smeared.filter _, frozen := h.frozen.filter _ }
  have hgrown := (hclean.layEggs now rules).grow now rules draws.courting
  have hborn := hgrown.birthsFrom now rules draws.birth 0 fun pregnancy hpregnancy =>
    (hgrown.pregnancies pregnancy hpregnancy).1
  exact { hborn with
    pregnancies := fun pregnancy hpregnancy => hgrown.pregnancies pregnancy (List.mem_of_mem_filter hpregnancy) }

theorem raidDue [Clock] {draws : DueDraws} {events : List RaidEvent} (h : Among people s)
    (hdue : raidDue s now rules draws = .ok (events, t)) : Among people t := by
  rw [NorelecBot.raidDue] at hdue
  split at hdue
  · cases hdue
  · rename_i others after hsettled
    cases hdue
    have hwalked := (h.beforeRides now rules draws).settleRides hsettled
    exact { hwalked with rides := fun raid hraid => hwalked.rides raid (List.mem_of_mem_filter hraid) }

end

end Among

end NorelecBot
