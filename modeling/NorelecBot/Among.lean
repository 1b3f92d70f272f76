import NorelecBot.LandingPassages
import NorelecBot.Lib.Confined

/-! # Nobody out of nowhere

Whatever happens, it names nobody but who was there before and who does it. Here it
is what a player does at home, and what is thrown.
-/

namespace NorelecBot
open Lib

/-- Whoever is named anywhere is one of some people, and so is whoever an account not on file yet would be. -/
structure Among (people : Str → Prop) (state : ConquisterState) : Prop where
  nobody : people []
  strangers : ∀ userId username accountName, state.accounts.find (platformKey userId username accountName) = none →
    people (platformKey userId username accountName)
  seat : ∀ hold, state.current = some hold → people hold.username
  scores : state.scores.KeysIn people
  quotesAdded : state.quotesAdded.KeysIn people
  balloons : state.balloons.KeysIn people
  cooldowns : state.cooldowns.KeysIn people
  ids : state.ids.KeysIn people
  telegramIds : state.telegramIds.KeysIn people
  ircNames : state.ircNames.KeysIn people
  accounts : state.accounts.ValsIn people
  displayNames : state.displayNames.KeysIn people
  telegramNames : state.telegramNames.ValsIn people
  ircNicks : state.ircNicks.ValsIn people
  rides : ∀ raid ∈ state.raids, people raid.raider ∧ people raid.target
  quoteAuthors : state.quoteAuthors.ValsIn people
  furniture : state.furniture.KeysIn people
  debugging : state.debugging.KeysIn people
  smeared : state.smeared.KeysIn people
  welcomed : state.welcomed.KeysIn people
  frozen : state.frozen.KeysIn people
  pregnancies : ∀ pregnancy ∈ state.pregnancies, people pregnancy.mother ∧ people pregnancy.father
  children : ∀ child ∈ state.children, people child.owner
  knocks : ∀ knock ∈ state.knocks, people knock.raider ∧ people knock.target
  equipped : state.equipped.KeysIn people
  pugliesi : state.pugliesi.KeysIn people
  joined : state.joined.KeysIn people
  guided : state.guided.KeysIn people
  entered : state.entered.KeysIn people
  brought : state.invitedBy.KeysIn people
  inviters : state.invitedBy.ValsIn people
  inviteDays : state.inviteDays.KeysIn people
  inviteLastDay : state.inviteLastDay.KeysIn people
  invitePaid : state.invitePaid.KeysIn people

theorem keysIn_hangIn [SlotCodec] {people : Str → Prop} {place : Authors} {player : Str} (h : place.KeysIn people)
    (hplayer : people player) (slots : List Str) : (hangIn place player slots).KeysIn people := by
  rw [hangIn]
  split
  · exact h.erase player
  · exact h.set hplayer _

theorem mem_of_mem_firstOf {players : List Str} {player : Str} (hplayer : player ∈ firstOf players) : player ∈ players := by
  have hfold (known : List Str) (hmem : player ∈ players.foldl
      (fun known player => if player ∈ known then known else known ++ [player]) known) :
      player ∈ known ∨ player ∈ players := by
    clear hplayer
    induction players generalizing known with
    | nil => exact Or.inl hmem
    | cons first players ih =>
      rw [List.foldl_cons] at hmem
      rcases ih _ hmem with hknown | hlater
      · split at hknown
        · exact Or.inl hknown
        · rcases List.mem_append.mp hknown with hbefore | hfirst
          · exact Or.inl hbefore
          · exact Or.inr (List.mem_cons.mpr (Or.inl (List.mem_singleton.mp hfirst)))
      · exact Or.inr (List.mem_cons_of_mem first hlater)
  exact (hfold [] hplayer).resolve_left List.not_mem_nil

theorem keysIn_balloonOn {people : Str → Prop} {players : List Str} {place : Authors}
    (hplayers : ∀ player ∈ players, people player) (hplace : place.KeysIn people) : (players.foldl balloonOn place).KeysIn people := by
  induction players generalizing place with
  | nil => exact hplace
  | cons player players ih =>
    have hone := hplace.set (hplayers player List.mem_cons_self) Power.balloon.emoji
    exact ih (fun later hlater => hplayers later (List.mem_cons_of_mem player hlater)) hone

namespace Among
variable {people : Str → Prop} {s t : ConquisterState} {player other : Str} {now : ℤ}

theorem score (h : Among people s) (hplayer : people player) (value : ℤ) :
    Among people { s with scores := s.scores.set player value } :=
  { h with scores := h.scores.set hplayer value }

theorem vacated (h : Among people s) : Among people { s with current := none } :=
  { h with seat := fun _ hhold => by cases hhold }

theorem settleHold {hold : Holder} {settled : Settlement} (h : Among people s) (hhold : people hold.username)
    (hsettle : settleHold s hold now = .ok (settled, t)) : Among people t := by
  simp only [NorelecBot.settleHold] at hsettle
  split at hsettle
  · cases hsettle
  · split at hsettle
    · cases hsettle
    · cases hsettle
      exact h.score hhold _

theorem leavePlace {settled : Settlement} (h : Among people s) (hleave : leavePlace s now = .ok (settled, t)) :
    Among people t := by
  rw [NorelecBot.leavePlace] at hleave
  split at hleave
  · cases hleave
    exact h
  · rename_i hold hhold
    exact h.vacated.settleHold (h.seat hold hhold) hleave

theorem goHome {departure : Departure} (h : Among people s) (hgo : goHome s player now = .ok (departure, t)) :
    Among people t := by
  rw [NorelecBot.goHome] at hgo
  split at hgo
  · cases hgo
    exact h
  · split at hgo
    · cases hgo
    · rename_i settled away hleave
      cases hgo
      exact h.leavePlace hleave


theorem markWelcomed (h : Among people s) (hplayer : people player) : Among people (markWelcomed s player) :=
  { h with welcomed := h.welcomed.set hplayer 1 }

theorem palleBurn (h : Among people s) (hplayer : people player) (amount : ℤ) :
    Among people (palleBurn s player amount).2 := by
  simp only [NorelecBot.palleBurn]
  split_ifs
  · exact h
  · exact h
  · exact h
  · exact h.score hplayer _

/-- A list of steps, each about somebody who may be named. -/
theorem foldl {α : Type} {f : ConquisterState → α → ConquisterState} (who : α → Str) (h : Among people s)
    (hf : ∀ s one, Among people s → people (who one) → Among people (f s one)) {steps : List α}
    (hsteps : ∀ one ∈ steps, people (who one)) : Among people (steps.foldl f s) := by
  induction steps generalizing s with
  | nil => exact h
  | cons one steps ih =>
    have hone := hf s one h (hsteps one List.mem_cons_self)
    exact ih hone fun later hlater => hsteps later (List.mem_cons_of_mem one hlater)

section
variable [SlotCodec] {emoji : Str} {limit : ℕ}

theorem hang (h : Among people s) (hplayer : people player) (slots : List Str) : Among people (hang s player slots) :=
  { h with furniture := keysIn_hangIn h.furniture hplayer slots }

theorem hangGear (h : Among people s) (hplayer : people player) (slots : List Str) :
    Among people (hangGear s player slots) :=
  { h with equipped := keysIn_hangIn h.equipped hplayer slots }

theorem putOn (h : Among people s) (hplayer : people player) (hput : putOn s player emoji = some t) :
    Among people t := by
  obtain ⟨slots, -, rfl⟩ := Option.map_eq_some_iff.mp hput
  exact h.hangGear hplayer slots

theorem putInHouse (h : Among people s) (hplayer : people player)
    (hput : putInHouse s player emoji limit = some t) : Among people t := by
  obtain ⟨slots, -, rfl⟩ := Option.map_eq_some_iff.mp hput
  exact h.hang hplayer slots

theorem receive {onHim : Bool} (h : Among people s) (hplayer : people player)
    (hreceive : receive s player emoji limit = some (onHim, t)) : Among people t := by
  rw [NorelecBot.receive] at hreceive
  split at hreceive
  · rename_i worn hworn
    cases hreceive
    split at hworn
    · exact h.putOn hplayer hworn
    · cases hworn
  · obtain ⟨kept, hkept, hsame⟩ := Option.map_eq_some_iff.mp hreceive
    cases hsame
    exact h.putInHouse hplayer hkept

theorem takeEmoji (h : Among people s) (hplayer : people player) (htake : takeEmoji s player emoji = some t) :
    Among people t := by
  rw [NorelecBot.takeEmoji] at htake
  split at htake
  · cases htake
    exact h.hangGear hplayer _
  · obtain ⟨slot, -, rfl⟩ := Option.map_eq_some_iff.mp htake
    exact h.hang hplayer _

theorem burnChild (h : Among people s) (hplayer : people player) (emoji : Str) :
    Among people (burnChild s player emoji) := by
  rw [NorelecBot.burnChild]
  split
  · exact h
  · have hfewer : Among people { s with children := s.children.eraseP (looksLike player (slotsOf s player) emoji) } :=
      { h with children := fun child hchild => h.children child (List.mem_of_mem_eraseP hchild) }
    exact hfewer.hang hplayer _

theorem hangBalloon (h : Among people s) (hplayer : people player) (hhung : hangBalloon s player limit = some t) :
    Among people t := by
  rw [NorelecBot.hangBalloon] at hhung
  split at hhung
  · cases hhung
  · split at hhung
    · rename_i worn hworn
      cases hhung
      exact h.putOn hplayer hworn
    · exact h.putInHouse hplayer hhung

theorem welcome (h : Among people s) (hplayer : people player) (limit : ℕ) :
    Among people (welcome s player limit) := by
  have hmarked : Among people (NorelecBot.markWelcomed s player) := h.markWelcomed hplayer
  rw [NorelecBot.welcome]
  split
  · exact h
  · split
    · exact hmarked
    · cases hhung : NorelecBot.hangBalloon (NorelecBot.markWelcomed s player) player limit with
      | none => exact hmarked
      | some hung => exact hmarked.hangBalloon hplayer hhung

theorem furnitureBuy {position cost inflation : ℤ} {result : FurnitureResult} (h : Among people s)
    (hplayer : people player)
    (hbuy : furnitureBuy s player emoji position cost limit now inflation = .ok (result, t)) : Among people t := by
  rw [NorelecBot.furnitureBuy] at hbuy
  split at hbuy
  · cases hbuy
  · rename_i departure away hgo
    have haway := h.goHome hgo
    split at hbuy
    · cases hbuy
      exact haway
    · obtain ⟨-, ⟨-, rfl⟩ | ⟨-, withHim, slot, -, -, -, -, -, rfl⟩⟩ := buyAtHome_eq (Except.ok.inj hbuy)
      · exact haway
      · simp only [hangBought]
        split
        · exact (haway.score hplayer _).hangGear hplayer _
        · exact (haway.score hplayer _).hang hplayer _

theorem furnitureMove {source target : ℤ} {result : FurnitureMoveResult} (h : Among people s) (hplayer : people player)
    (hmove : furnitureMove s player source target limit now = .ok (result, t)) : Among people t := by
  simp only [NorelecBot.furnitureMove] at hmove
  split at hmove
  · cases hmove
    exact h
  · split at hmove
    · cases hmove
      exact h
    · split at hmove
      · cases hmove
      · rename_i departure away hgo
        have haway := h.goHome hgo
        split at hmove
        · cases hmove
          exact haway
        · have hdone := Except.ok.inj hmove
          simp only [moveAtHome] at hdone
          split at hdone
          · cases hdone
            exact haway
          · cases hdone
            have hswapped : Among people { away with
                children := away.children.map (·.swapped player (source - 1).toNat (target - 1).toNat) } := by
              refine { haway with children := fun child hchild => ?_ }
              obtain ⟨before, hbefore, rfl⟩ := List.mem_map.mp hchild
              have howner : (before.swapped player (source - 1).toNat (target - 1).toNat).owner = before.owner := by
                rw [Child.swapped]
                split_ifs <;> rfl
              rw [howner]
              exact haway.children before hbefore
            exact hswapped.hang hplayer _

theorem gearTake {swap : Str} {result : GearResult} (h : Among people s) (hplayer : people player)
    (htake : gearTake s player emoji swap now = .ok (result, t)) : Among people t := by
  rw [NorelecBot.gearTake] at htake
  split at htake
  · cases htake
  · rename_i departure away hgo
    have haway := h.goHome hgo
    have hexchanged (source target : ℕ) (swapped : Str) : Among people (exchange away player source target swapped) :=
      (haway.hang hplayer _).hangGear hplayer _
    split at htake
    · cases htake
      exact haway
    · have hdone := Except.ok.inj htake
      rw [takeAtHome] at hdone
      split at hdone
      · cases hdone
        exact haway
      · split at hdone
        · split at hdone
          · cases hdone
            exact haway
          · cases hdone
            exact hexchanged _ _ _
        · split at hdone
          · cases hdone
            exact haway
          · cases hdone
            exact hexchanged _ _ _

theorem gearStore {result : GearResult} (h : Among people s) (hplayer : people player)
    (hstore : gearStore s player emoji limit now = .ok (result, t)) : Among people t := by
  rw [NorelecBot.gearStore] at hstore
  split at hstore
  · cases hstore
  · rename_i departure away hgo
    have haway := h.goHome hgo
    split at hstore
    · cases hstore
      exact haway
    · have hdone := Except.ok.inj hstore
      rw [storeAtHome] at hdone
      split at hdone
      · cases hdone
        exact haway
      · split at hdone
        · cases hdone
          exact haway
        · rename_i kept hkept
          cases hdone
          exact (haway.putInHouse hplayer hkept).hangGear hplayer _

theorem sortOut (h : Among people s) (hplayer : people player) (stored : Str) :
    Among people (sortOut s player stored) := by
  rw [NorelecBot.sortOut]
  generalize sortOutFrom s player _ _ _ _ = sorted
  obtain ⟨house, gear, moved⟩ := sorted
  have hhung : Among people (NorelecBot.hangGear (NorelecBot.hang s player house) player gear) :=
    (h.hang hplayer house).hangGear hplayer gear
  dsimp only
  split
  · exact h
  · split
    · exact hhung
    · rename_i hold hhold
      split
      · exact hhung
      · refine { hhung with seat := fun after hafter => ?_ }
        cases hafter
        exact hhung.seat hold hhold

theorem equipmentSortOut (h : Among people s) : Among people (equipmentSortOut s) := by
  rw [NorelecBot.equipmentSortOut]
  split
  · exact h
  · have hsorted := h.foldl (fun house : Str × Str => house.1)
      (fun _ house hbefore hhouse => hbefore.sortOut hhouse house.2)
      fun house hhouse => h.furniture house.1 (List.mem_map.mpr ⟨house, hhouse, rfl⟩)
    exact { hsorted with }

end

section
variable [SlotCodec] {thrown emoji : Str} {limit : ℕ} {rules : RaidRules}

theorem blowUp (h : Among people s) (hplayer : people player) (onHim : Bool) (draw : ℕ) :
    Among people (blowUp s player onHim draw).2 := by
  cases hblown : NorelecBot.blowUp s player onHim draw with
  | mk blown after =>
    rcases blowUp_eq hblown with ⟨-, rfl⟩ | ⟨slot, -, -, -, rfl⟩
    · exact h
    cases onHim with
    | true => exact h.hangGear hplayer _
    | false => exact h.hang hplayer _

omit [SlotCodec] in
theorem zeroScore (h : Among people s) (hplayer : people player) : (zeroScore s.scores player).KeysIn people := by
  rw [NorelecBot.zeroScore]
  split
  · exact h.scores.set hplayer 0
  · exact h.scores

theorem startOverFor (h : Among people s) (hplayer : people player) (now : ℤ) :
    Among people (startOverFor s player now) :=
  { h.hang hplayer [] with
    scores := h.zeroScore hplayer
    seat := fun hold hhold => by
      change (if whereabouts s player = .conquister then none else s.current) = some hold at hhold
      split at hhold
      · cases hhold
      · exact h.seat hold hhold
    rides := fun raid hraid => by
      obtain ⟨before, hbefore, rfl⟩ := List.mem_map.mp hraid
      split
      · exact h.rides before hbefore
      · exact h.rides before hbefore
    equipped := h.equipped.set hplayer _
    pregnancies := fun pregnancy hpregnancy => h.pregnancies pregnancy (List.mem_of_mem_filter hpregnancy)
    children := fun child hchild => h.children child (List.mem_of_mem_filter hchild)
    balloons := h.balloons.erase player
    cooldowns := h.cooldowns.erase player
    smeared := h.smeared.erase player }

theorem land (h : Among people s) (hplayer : people player) (hother : people other) (site : Whereabouts) (now : ℤ)
    (draws : LandDraws) : Among people (land s thrown player other site now rules draws).2 := by
  simp only [NorelecBot.land, smear]
  split_ifs
  · exact { h with smeared := h.smeared.set hother _ }
  · exact h
  · exact h.blowUp hplayer true draws.hit
  · exact h.blowUp hother _ draws.hit
  · exact h.startOverFor hother now
  · refine { h with pregnancies := fun pregnancy hpregnancy => ?_ }
    rcases List.mem_append.mp hpregnancy with hold | hnew
    · exact h.pregnancies pregnancy hold
    · cases List.mem_singleton.mp hnew
      exact ⟨hother, hplayer⟩
  · exact { h with frozen := h.frozen.set hother _ }
  · exact h
  · exact h

omit [SlotCodec] in
/-- Everybody the game knows is among them. -/
theorem knownPlayers (h : Among people s) : ∀ player ∈ knownPlayers s, people player := by
  intro player hplayer
  rcases List.mem_append.mp (mem_of_mem_firstOf hplayer) with hseat | hfiled
  · obtain ⟨hold, hhold, rfl⟩ := List.mem_map.mp (List.mem_of_mem_filter hseat)
    exact h.seat hold (Option.mem_toList.mp hhold)
  · simp only [List.flatMap_cons, List.flatMap_nil, List.append_nil, List.mem_append] at hfiled
    rcases hfiled with (hkey | hkey | hkey | hkey | hkey) | hkey | hkey | hkey
    · exact h.scores player hkey
    · exact h.ids player hkey
    · exact h.balloons player hkey
    · exact h.telegramIds player hkey
    · exact h.ircNames player hkey
    · exact h.furniture player hkey
    · exact h.equipped player hkey
    · exact h.displayNames player hkey

theorem balloonsHandOut (h : Among people s) (limit : ℕ) : Among people (balloonsHandOut s limit) :=
  h.foldl id (fun _ _ hbefore hplayer => hbefore.welcome hplayer limit) h.knownPlayers

omit [SlotCodec] in
theorem startOver (h : Among people s) : Among people (startOver s) := by
  have hscores : Among people { s with scores := s.scores.mapVals fun _ => 0 } :=
    { h with scores := h.scores.mapVals _ }
  exact { hscores with
    seat := fun _ hhold => by cases hhold
    furniture := .empty
    equipped := keysIn_balloonOn hscores.knownPlayers .empty
    rides := fun _ hraid => absurd hraid List.not_mem_nil
    balloons := .empty
    cooldowns := .empty
    smeared := .empty
    frozen := .empty
    pregnancies := fun _ hpregnancy => absurd hpregnancy List.not_mem_nil
    children := fun _ hchild => absurd hchild List.not_mem_nil
    knocks := fun _ hknock => absurd hknock List.not_mem_nil
    pugliesi := .empty }

theorem loseBolts (h : Among people s) (hlose : loseBolts s now = .ok t) : Among people t := by
  obtain ⟨current, rfl, hsame⟩ := loseBolts_current hlose
  refine { h with seat := fun hold hhold => ?_ }
  obtain ⟨before, hbefore, hname⟩ := hsame hold hhold
  rw [← hname]
  exact h.seat before hbefore

theorem throwAtPlace (h : Among people s) (hplayer : people player) (draws : LandDraws) :
    Among people (throwAtPlace s player emoji now rules draws).2 := by
  rw [NorelecBot.throwAtPlace]
  split
  · exact h
  · rename_i holder hholder
    split at hholder
    · obtain ⟨hold, hhold, hname⟩ := Option.map_eq_some_iff.mp (Option.eq_some_of_filter_eq_some hholder)
      exact h.land hplayer (hname ▸ h.seat hold hhold) _ now draws
    · cases hholder

theorem furnitureBurn {destroy : Bool} {draws : LandDraws} {result : FurnitureBurnResult} (h : Among people s)
    (hplayer : people player) (hburn : furnitureBurn s player emoji now rules destroy draws = .ok (result, t)) :
    Among people t := by
  rw [NorelecBot.furnitureBurn] at hburn
  split at hburn
  · cases hburn
    exact h
  · split at hburn
    · split at hburn
      · cases hburn
        exact h
      · split at hburn
        · cases hburn
          exact h
        · cases hburn
          exact h.burnChild hplayer emoji
    · rename_i taken htaken
      have htake := h.takeEmoji hplayer htaken
      split_ifs at hburn
      · exact htake.loseBolts (thenLoseBolts_eq_ok hburn).2
      · cases hburn
        exact htake.startOver
      · exact (htake.throwAtPlace hplayer draws).loseBolts (thenLoseBolts_eq_ok hburn).2

end

end Among

end NorelecBot
