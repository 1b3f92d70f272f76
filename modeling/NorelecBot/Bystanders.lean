import NorelecBot.Registers
import NorelecBot.DuePassages

/-! # Whoever has nothing to do with it

What is thrown works on the thrower or on whoever it strikes, and a ride on its
raider and its target. Everybody else keeps what he has, and the register stays
as it is.
-/

namespace NorelecBot
open Lib

/-- Nothing of his is touched, and nobody's name is; what becomes of the rides is left open. -/
structure Spares (player : Str) (s t : ConquisterState) : Prop where
  register : register t = register s
  score : counter t.scores player = counter s.scores player
  house : t.furniture.find player = s.furniture.find player
  gear : t.equipped.find player = s.equipped.find player
  smeared : t.smeared.find player = s.smeared.find player
  frozen : t.frozen.find player = s.frozen.find player
  expecting : t.pregnancies.filter (fun pregnancy => pregnancy.mother = player) =
    s.pregnancies.filter fun pregnancy => pregnancy.mother = player
  children : t.children.filter (fun child => child.owner = player) =
    s.children.filter fun child => child.owner = player

namespace Spares
variable {player : Str} {s t u : ConquisterState}

theorem refl (player : Str) (s : ConquisterState) : Spares player s s := ⟨rfl, rfl, rfl, rfl, rfl, rfl, rfl, rfl⟩

theorem trans (h : Spares player s t) (hnext : Spares player t u) : Spares player s u where
  register := hnext.register.trans h.register
  score := hnext.score.trans h.score
  house := hnext.house.trans h.house
  gear := hnext.gear.trans h.gear
  smeared := hnext.smeared.trans h.smeared
  frozen := hnext.frozen.trans h.frozen
  expecting := hnext.expecting.trans h.expecting
  children := hnext.children.trans h.children

end Spares

/-- Nor is anything written about quotes and invites. -/
structure Bypasses (player : Str) (s t : ConquisterState) : Prop extends Spares player s t where
  ledgers : ledgers t = ledgers s

namespace Bypasses
variable {player : Str} {s t u : ConquisterState}

theorem refl (player : Str) (s : ConquisterState) : Bypasses player s s := ⟨.refl player s, rfl⟩

theorem trans (h : Bypasses player s t) (hnext : Bypasses player t u) : Bypasses player s u :=
  ⟨h.toSpares.trans hnext.toSpares, hnext.ledgers.trans h.ledgers⟩

theorem books (h : Bypasses player s t) : SameBooks s t := ⟨h.register, h.ledgers⟩

theorem raids (s : ConquisterState) (player : Str) (raids : List Raid) : Bypasses player s { s with raids := raids } :=
  ⟨⟨rfl, rfl, rfl, rfl, rfl, rfl, rfl, rfl⟩, rfl⟩

theorem onRide (s : ConquisterState) (player : Str) (index : ℕ) (f : Raid → Raid) :
    Bypasses player s (NorelecBot.onRide s index f) :=
  .raids s player _

theorem score_set (s : ConquisterState) {player other : Str} (h : player ≠ other) (value : ℤ) :
    Bypasses player s { s with scores := s.scores.set other value } :=
  ⟨⟨rfl, by rw [counter_set, if_neg h], rfl, rfl, rfl, rfl, rfl, rfl⟩, rfl⟩

end Bypasses

theorem find_hangIn_of_ne [SlotCodec] (place : Authors) {player other : Str} (h : player ≠ other)
    (slots : List Str) : (hangIn place other slots).find player = place.find player := by
  rw [hangIn]
  split
  · exact OrderedMap.find_erase_of_ne _ h
  · exact OrderedMap.find_set_of_ne _ _ h

variable [SlotCodec] {player : Str}

theorem hang_spares (s : ConquisterState) {other : Str} (h : player ≠ other) (slots : List Str) :
    Bypasses player s (hang s other slots) :=
  ⟨⟨rfl, rfl, find_hangIn_of_ne _ h _, rfl, rfl, rfl, rfl, rfl⟩, rfl⟩

theorem hangGear_spares (s : ConquisterState) {other : Str} (h : player ≠ other) (slots : List Str) :
    Bypasses player s (hangGear s other slots) :=
  ⟨⟨rfl, rfl, rfl, find_hangIn_of_ne _ h _, rfl, rfl, rfl, rfl⟩, rfl⟩

theorem putOn_spares {s t : ConquisterState} {other emoji : Str} (h : player ≠ other)
    (hput : putOn s other emoji = some t) : Bypasses player s t := by
  obtain ⟨slots, -, rfl⟩ := Option.map_eq_some_iff.mp hput
  exact hangGear_spares s h slots

theorem putInHouse_spares {s t : ConquisterState} {other emoji : Str} {limit : ℕ} (h : player ≠ other)
    (hput : putInHouse s other emoji limit = some t) : Bypasses player s t := by
  obtain ⟨slots, -, rfl⟩ := Option.map_eq_some_iff.mp hput
  exact hang_spares s h slots

theorem receive_spares {s t : ConquisterState} {other emoji : Str} {limit : ℕ} {onHim : Bool} (h : player ≠ other)
    (hreceive : receive s other emoji limit = some (onHim, t)) : Bypasses player s t := by
  rw [receive] at hreceive
  split at hreceive
  · rename_i worn hworn
    cases hreceive
    split at hworn
    · exact putOn_spares h hworn
    · cases hworn
  · obtain ⟨kept, hkept, hsame⟩ := Option.map_eq_some_iff.mp hreceive
    cases hsame
    exact putInHouse_spares h hkept

theorem takeEmoji_spares {s t : ConquisterState} {other emoji : Str} (h : player ≠ other)
    (htake : takeEmoji s other emoji = some t) : Bypasses player s t := by
  rw [takeEmoji] at htake
  split at htake
  · cases htake
    exact hangGear_spares s h _
  · obtain ⟨slot, -, rfl⟩ := Option.map_eq_some_iff.mp htake
    exact hang_spares s h _

theorem blowUp_spares (s : ConquisterState) {target : Str} (h : player ≠ target) (onHim : Bool) (draw : ℕ) :
    Bypasses player s (blowUp s target onHim draw).2 := by
  cases hblown : blowUp s target onHim draw with
  | mk blown after =>
    rcases blowUp_eq hblown with ⟨-, rfl⟩ | ⟨slot, -, -, -, rfl⟩
    · exact .refl player _
    cases onHim with
    | true => exact hangGear_spares s h _
    | false => exact hang_spares s h _

omit [SlotCodec] in
theorem filter_filter_ne {α : Type} (owner : α → Str) {player other : Str} (h : player ≠ other) (those : List α) :
    (those.filter fun one => owner one ≠ other).filter (fun one => owner one = player) =
      those.filter fun one => owner one = player := by
  rw [List.filter_filter]
  apply List.filter_congr
  intro one _
  by_cases hone : owner one = player
  · simp [hone, h]
  · simp [hone]

theorem startOverFor_spares (s : ConquisterState) {other : Str} (h : player ≠ other) (now : ℤ) :
    Bypasses player s (startOverFor s other now) where
  register := rfl
  score := by
    change counter (zeroScore s.scores other) player = _
    rw [zeroScore]
    split
    · rw [counter_set, if_neg h]
    · rfl
  house := find_hangIn_of_ne _ h _
  gear := OrderedMap.find_set_of_ne _ _ h
  smeared := OrderedMap.find_erase_of_ne _ h
  frozen := rfl
  expecting := filter_filter_ne Pregnancy.mother h _
  children := filter_filter_ne Child.owner h _
  ledgers := rfl

/-- A 💣 that is no good goes off on the thrower; everything else works on the victim alone. -/
theorem land_spares (s : ConquisterState) {thrown thrower victim : Str} (hthrower : player ≠ thrower)
    (hvictim : player ≠ victim) (site : Whereabouts) (now : ℤ) (rules : RaidRules) (draws : LandDraws) :
    Bypasses player s (land s thrown thrower victim site now rules draws).2 := by
  simp only [land, smear]
  split_ifs
  · exact ⟨⟨rfl, rfl, rfl, rfl, OrderedMap.find_set_of_ne _ _ hvictim, rfl, rfl, rfl⟩, rfl⟩
  · exact .refl player s
  · exact blowUp_spares s hthrower true draws.hit
  · exact blowUp_spares s hvictim _ draws.hit
  · exact startOverFor_spares s hvictim now
  · refine ⟨⟨rfl, rfl, rfl, rfl, rfl, rfl, ?_, rfl⟩, rfl⟩
    rw [List.filter_append, List.filter_singleton]
    simp [Ne.symm hvictim]
  · exact ⟨⟨rfl, rfl, rfl, rfl, rfl, OrderedMap.find_set_of_ne _ _ hvictim, rfl, rfl⟩, rfl⟩
  · exact .refl player s
  · exact .refl player s

theorem salt_spares (s : ConquisterState) {raider target : Str} (hraider : player ≠ raider)
    (htarget : player ≠ target) (now : ℤ) (rules : RaidRules) :
    Bypasses player s (salt s raider target now rules).2 := by
  simp only [salt]
  split
  · exact ⟨⟨rfl, rfl, rfl, rfl, rfl, rfl, rfl, rfl⟩, rfl⟩
  · refine ⟨⟨rfl, ?_, rfl, rfl, rfl, rfl, rfl, rfl⟩, rfl⟩
    simp only [payTo, counter_set, if_neg hraider, if_neg htarget]

theorem jaws_spares (s : ConquisterState) {raider : Str} (target : Str) (hraider : player ≠ raider)
    (rules : RaidRules) (draws : RaidDraws) : Bypasses player s (jaws s raider target rules draws).2 := by
  simp only [jaws]
  split
  · exact blowUp_spares s hraider true draws.eaten
  · exact .refl player s

theorem defendedAtHome_spares (s : ConquisterState) (target : Str) (event : RaidEvent) (now : ℤ) (draw : ℕ) :
    Bypasses player s (defendedAtHome s target event now draw).2.2 := by
  have hattempt : Bypasses player s (balloonAttempt s target .home now draw).2 := by
    rw [balloonAttempt]
    split_ifs <;> exact ⟨⟨rfl, rfl, rfl, rfl, rfl, rfl, rfl, rfl⟩, rfl⟩
  rw [defendedAtHome]
  split <;> rename_i after hroll <;> rw [hroll] at hattempt <;> exact hattempt

omit [SlotCodec] in
theorem playerId_spares {s t : ConquisterState} {other : Str} {draws : List ℕ} {id : ℤ}
    (h : playerId s other draws = .ok (id, t)) : Bypasses player s t := by
  obtain ⟨ids, rfl⟩ := playerId_eq_ok h
  exact ⟨⟨rfl, rfl, rfl, rfl, rfl, rfl, rfl, rfl⟩, rfl⟩

theorem board_spares (s : ConquisterState) {raid : Raid} (hraider : player ≠ raid.raider)
    (htarget : player ≠ raid.target) (rules : RaidRules) (draws : RaidDraws) :
    Bypasses player s (board s raid rules draws).2 := by
  rcases board_cases s raid rules draws with hsame | ⟨taken, -, -, place, -, hafter⟩
  · rw [hsame]
    exact .refl player s
  · rw [hafter]
    exact (hang_spares s htarget _).trans (hangGear_spares _ hraider _)

omit [SlotCodec] in
theorem takeLoot_spares (s : ConquisterState) (index : ℕ) {target : Str} (h : player ≠ target) (amount : ℤ) :
    Bypasses player s (takeLoot s index target amount) := by
  rw [takeLoot]
  split
  · exact (Bypasses.score_set s h _).trans (.onRide _ _ _ _)
  · exact .onRide _ _ _ _

/-- Whatever comes of a robbery, it is between the two of them. -/
theorem rob_spares [Clock] {s t : ConquisterState} {index : ℕ} {raid : Raid} {event outcome : RaidEvent} {now : ℤ}
    {rules : RaidRules} {draws : RaidDraws} (hraider : player ≠ raid.raider) (htarget : player ≠ raid.target)
    (h : rob s index raid event now rules draws = .ok (outcome, t)) : Bypasses player s t := by
  rw [rob] at h
  split at h
  · cases h
  · rename_i fromId settled hfrom
    split at h
    · cases h
    · rename_i toId mapped hto
      obtain ⟨-, rfl⟩ := Prod.mk.inj (Except.ok.inj h)
      have hto' : Bypasses player _ _ := playerId_spares hto
      have hmapped := (playerId_spares hfrom).trans hto'
      exact (hmapped.trans (takeLoot_spares mapped index htarget _)).trans (board_spares _ hraider htarget rules draws)

theorem raidHouse_spares [Clock] {s t : ConquisterState} {index : ℕ} {raid : Raid} {event outcome : RaidEvent}
    {now : ℤ} {rules : RaidRules} {draws : RaidDraws} (hraider : player ≠ raid.raider) (htarget : player ≠ raid.target)
    (h : raidHouse s index raid event now rules draws = .ok (outcome, t)) : Bypasses player s t := by
  rw [raidHouse] at h
  dsimp only at h
  generalize sneaks s raid now rules draws.stealth = stealth at h
  generalize hguarded : (if stealth.1 = true then
    (false, { event with sneaked := stealth.1, alarmed := stealth.2 }, s)
    else defendedAtHome s raid.target { event with sneaked := stealth.1, alarmed := stealth.2 } now
      draws.balloon) = guarded at h
  have hquiet : Bypasses player s guarded.2.2 := by
    rw [← hguarded]
    split
    · exact .refl player s
    · exact defendedAtHome_spares s raid.target _ now draws.balloon
  split at h
  · cases h
    exact hquiet.trans (.onRide _ _ _ _)
  · generalize (if stealth.1 = true then (0 : ℤ)
      else upToAll (houseCopies guarded.2.2 raid.target .dog) rules.dogPercent) = chance at h
    split at h
    · cases h
      exact hquiet.trans (.onRide _ _ _ _)
    · exact hquiet.trans (rob_spares hraider htarget h)

theorem atTheDoor_spares (s : ConquisterState) {raid : Raid} (hraider : player ≠ raid.raider)
    (htarget : player ≠ raid.target) (event : RaidEvent) (now : ℤ) (rules : RaidRules) (draws : RaidDraws) :
    Bypasses player s (atTheDoor s raid event now rules draws).2 := by
  have hsalted := salt_spares s hraider htarget now rules
  have heaten := jaws_spares (salt s raid.raider raid.target now rules).2 raid.target hraider rules draws
  simp only [atTheDoor]
  split <;> exact hsalted.trans heaten

omit [SlotCodec] in
theorem deliverPalle_spares (s : ConquisterState) (index : ℕ) {raid : Raid} (htarget : player ≠ raid.target) :
    Bypasses player s (deliverPalle s index raid) := by
  rw [deliverPalle]
  split
  · exact (Bypasses.score_set s htarget _).trans (.onRide _ _ _ _)
  · exact .refl player s

omit [SlotCodec] in
theorem struck_ne {raid : Raid} (hraider : player ≠ raid.raider) (htarget : player ≠ raid.target) (back : Bool) :
    player ≠ struck raid back := by
  cases back with
  | true => exact hraider
  | false => exact htarget

theorem deliver_spares (s : ConquisterState) (index : ℕ) {raid : Raid} (hraider : player ≠ raid.raider)
    (htarget : player ≠ raid.target) (event : RaidEvent) (now : ℤ) (rules : RaidRules) (draws : RaidDraws) :
    Bypasses player s (deliver s index raid event now rules draws).2 := by
  have hpaid := deliverPalle_spares s index htarget
  simp only [deliver]
  split
  · exact hpaid
  · refine hpaid.trans ?_
    generalize deliverPalle s index raid = paid
    simp only [deliverEmoji]
    split
    · exact .refl player paid
    · split
      · simp only [throwAtHouse]
        exact (land_spares paid hraider (struck_ne hraider htarget _) _ now _ _).trans (.onRide _ _ _ _)
      · split
        · rename_i onHim kept hreceive
          exact (receive_spares htarget hreceive).trans (.onRide _ _ _ _)
        · exact .refl player paid

/-- A ride that reaches its target is between its raider and its target. -/
theorem arrival_spares [Clock] {s t : ConquisterState} {index : ℕ} {raid : Raid} {now : ℤ} {rules : RaidRules}
    {draws : RaidDraws} {event : RaidEvent} (hraider : player ≠ raid.raider) (htarget : player ≠ raid.target)
    (h : arrival s index raid now rules draws = .ok (event, t)) : Bypasses player s t := by
  have hthere := Bypasses.onRide s player index Raid.reached
  simp only [arrival] at h
  generalize onRide s index Raid.reached = there at h hthere
  generalize hmet : (if raid.gift = 0 ∧ raid.giftEmoji = [] then
    atTheDoor there raid (arrivalEvent there raid now) now rules draws
    else (arrivalEvent there raid now, there)) = met at h
  have hdoor : Bypasses player there met.2 := by
    rw [← hmet]
    split
    · exact atTheDoor_spares there hraider htarget _ now rules draws
    · exact .refl player there
  split at h
  · cases h
  · rename_i outcome after houtcome
    cases h
    refine (hthere.trans hdoor).trans ?_
    split at houtcome
    · have hdelivered : (deliver met.2 index raid met.1 now rules draws).2 = t :=
        congrArg Prod.snd (Except.ok.inj houtcome)
      rw [← hdelivered]
      exact deliver_spares met.2 index hraider htarget met.1 now rules draws
    · exact raidHouse_spares hraider htarget houtcome

theorem bringBack_spares (s : ConquisterState) {raider : Str} (h : player ≠ raider) (giftEmoji : Str) :
    Bypasses player s (bringBack s raider giftEmoji) := by
  by_cases hemoji : giftEmoji = []
  · rw [bringBack, if_pos hemoji]
    exact .refl player s
  · rcases bringBack_cases s raider hemoji with hworn | hkept
    · exact putOn_spares h hworn
    · exact putInHouse_spares h hkept

theorem homecoming_spares (s : ConquisterState) {raid : Raid} (h : player ≠ raid.raider) (now : ℤ) :
    Bypasses player s (homecoming s raid now).2 := by
  have hpaid : Bypasses player s (bringPalle s raid) := by
    rw [bringPalle]
    split
    · exact .score_set s h _
    · exact .refl player s
  exact hpaid.trans (bringBack_spares _ h _)

omit [SlotCodec] in
/-- There is always somebody else. -/
theorem exists_bystander (raid : Raid) : ∃ player : Str, player ≠ raid.raider ∧ player ≠ raid.target := by
  refine ⟨raid.raider ++ raid.target ++ [0], fun heq => ?_, fun heq => ?_⟩
  · have hlength := congrArg List.length heq
    simp only [List.length_append, List.length_singleton] at hlength
    omega
  · have hlength := congrArg List.length heq
    simp only [List.length_append, List.length_singleton] at hlength
    omega

theorem settleRide_books [Clock] {s t : ConquisterState} {index : ℕ} {now : ℤ} {rules : RaidRules}
    {draws : RaidDraws} {events : List RaidEvent} (h : settleRide s index now rules draws = .ok (events, t)) :
    SameBooks s t := by
  rw [settleRide] at h
  split at h
  · cases h
  · rename_i arrived there harrived
    cases h
    have hthere : SameBooks s there := by
      rw [settleArrival] at harrived
      split at harrived
      · cases harrived
        exact .refl s
      · rename_i raid _
        split at harrived
        · split at harrived
          · cases harrived
          · rename_i event after harrival
            cases harrived
            obtain ⟨player, hraider, htarget⟩ := exists_bystander raid
            exact (arrival_spares hraider htarget harrival).books
        · cases harrived
          exact .refl _
    refine hthere.trans ?_
    rw [settleHomecoming]
    split
    · exact .refl there
    · rename_i raid _
      split
      · obtain ⟨player, hraider, -⟩ := exists_bystander raid
        exact (homecoming_spares there hraider now).books
      · exact .refl there

theorem settleRides_books [Clock] {now : ℤ} {rules : RaidRules} {draws : ℕ → RaidDraws} {count index : ℕ}
    {s t : ConquisterState} {events : List RaidEvent}
    (h : settleRides now rules draws count index s = .ok (events, t)) : SameBooks s t := by
  induction count generalizing index s events with
  | zero =>
    cases h
    exact .refl _
  | succ count ih =>
    rw [settleRides] at h
    split at h
    · cases h
    · rename_i first settled hfirst
      split at h
      · cases h
      · rename_i others after hothers
        cases h
        exact (settleRide_books hfirst).trans (ih hothers)

theorem raidDue_books [Clock] {s t : ConquisterState} {now : ℤ} {rules : RaidRules} {draws : DueDraws}
    {events : List RaidEvent} (h : raidDue s now rules draws = .ok (events, t)) : SameBooks s t := by
  simp only [raidDue] at h
  split at h
  · cases h
  · rename_i walked after hwalk
    cases h
    exact ((beforeRides_aside s now rules draws).books.trans (settleRides_books hwalk)).trans ⟨rfl, rfl⟩

end NorelecBot
