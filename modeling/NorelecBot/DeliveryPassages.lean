import NorelecBot.ArrivalPassages

/-! # A ride that brings something, as edits -/

namespace NorelecBot
open Lib

theorem whereabouts_conquister (s : ConquisterState) (player : Str) : whereabouts s player = .conquister ↔
    (s.current.any fun hold => Text.equalsIgnoreCase hold.username player) = true := by
  rw [whereabouts]
  split_ifs with hplace <;> simp [hplace]

variable [SlotCodec]

/-- The rides after something landed: a ☢️ calls off those of whoever it struck. -/
def struckRides (raids : List Raid) (victim : Str) (reset : Bool) (now : ℤ) : List Raid :=
  if reset then callOff raids victim now else raids

theorem startOverFor_riding (s : ConquisterState) (raids : List Raid) (player : Str) (now : ℤ) :
    startOverFor (s.riding raids) player now = (startOverFor s player now).riding (callOff raids player now) := by
  have hplace : (whereabouts (s.riding raids) player = .conquister) = (whereabouts s player = .conquister) :=
    propext ((whereabouts_conquister _ _).trans (whereabouts_conquister s player).symm)
  simp only [startOverFor, hplace]
  rfl

/-- A landing looks at none of the rides. -/
theorem land_riding (s : ConquisterState) (raids : List Raid) (thrown thrower victim : Str) (site : Whereabouts)
    (now : ℤ) (rules : RaidRules) (draws : LandDraws) :
    land (s.riding raids) thrown thrower victim site now rules draws =
      ((land s thrown thrower victim site now rules draws).1,
        (land s thrown thrower victim site now rules draws).2.riding
          (struckRides raids victim (land s thrown thrower victim site now rules draws).1.reset now)) := by
  have hmelt : carriedCopies (s.riding raids) victim .fire = carriedCopies s victim .fire := rfl
  simp only [land, blowUp_riding, startOverFor_riding, hmelt, smear]
  split_ifs <;> rfl

theorem land_raids (s : ConquisterState) (thrown thrower victim : Str) (site : Whereabouts) (now : ℤ)
    (rules : RaidRules) (draws : LandDraws) :
    (land s thrown thrower victim site now rules draws).2.raids =
      struckRides s.raids victim (land s thrown thrower victim site now rules draws).1.reset now :=
  congrArg (fun landed => landed.2.raids) (land_riding s s.raids thrown thrower victim site now rules draws)

/-- A ride as it stands once the palle it came with are handed over. -/
def Raid.handed (raid : Raid) : Raid := if raid.gift > 0 then raid.reached.withoutGift else raid.reached

theorem deliverPalle_round (s : ConquisterState) {raids : List Raid} {index : ℕ} {raid : Raid}
    (h : raids[index]? = some raid) :
    Round (s.riding raids) 0 ((deliverPalle s index raid).riding (raids.set index raid.handed)) := by
  have horder (hs : Solvent (s.riding raids)) : raid.Orderly := hs.rides raid (List.mem_of_getElem? h)
  rw [deliverPalle, Raid.handed]
  split
  · rename_i hgift
    have hride := becomes_passage s h raid.reached.withoutGift ⟨rfl, rfl, .inl rfl⟩
      (fun hs => ⟨(horder hs).loot, le_rfl, nofun⟩) fun _ hone => hone.imp id fun hnone => ⟨rfl, hnone.2⟩
    have hscore := Passage.score [] (s.riding (raids.set index raid.reached.withoutGift)) raid.target
      (counter s.scores raid.target + raid.gift) fun hs => add_nonneg (hs.scores raid.target) hgift.le
    refine .of ((hride.trans hscore).entered ?_) rfl
    ext
    · change raid.loot + 0 - (raid.loot + raid.gift) +
        (counter s.scores raid.target + raid.gift - counter s.scores raid.target) = 0
      omega
    · change unit raid.giftEmoji _ - unit raid.giftEmoji _ + 0 = 0
      omega
    all_goals simp
  · have hride := becomes_passage s h raid.reached ⟨rfl, rfl, .inl rfl⟩
      (fun hs => ⟨(horder hs).loot, (horder hs).gift, nofun⟩) fun _ hone => hone
    refine .of (hride.entered ?_) rfl
    ext
    · exact sub_self _
    · exact sub_self _
    all_goals simp

omit [SlotCodec] in
/-- Taking the emoji off a ride and calling rides off may be done in either order. -/
theorem struckRides_modify {raids : List Raid} {index : ℕ} {ride : Raid} (h : raids[index]? = some ride)
    (victim : Str) (reset : Bool) (now : ℤ) :
    (struckRides raids victim reset now).modify index Raid.withoutEmoji =
      struckRides (raids.set index ride.withoutEmoji) victim reset now := by
  cases reset with
  | false => exact modify_eq_set h Raid.withoutEmoji
  | true =>
    have hoff : (callOff raids victim now)[index]? =
        some (if ride.raider = victim then ride.calledOff now else ride) := by
      rw [callOff, List.getElem?_map, h, Option.map_some]
    simp only [struckRides, if_true]
    rw [modify_eq_set hoff, callOff, callOff, List.map_set, show ride.withoutEmoji.raider = ride.raider from rfl]
    split <;> rfl

theorem withoutEmoji_round (s : ConquisterState) {raids : List Raid} {index : ℕ} {raid : Raid}
    (h : raids[index]? = some raid) :
    Round (s.riding raids) { emoji := -unit raid.giftEmoji } (s.riding (raids.set index raid.withoutEmoji)) := by
  have horder (hs : Solvent (s.riding raids)) : raid.Orderly := hs.rides raid (List.mem_of_getElem? h)
  have hride := becomes_passage s h raid.withoutEmoji ⟨rfl, rfl, .inr rfl⟩
    (fun hs => ⟨(horder hs).loot, (horder hs).gift, (horder hs).before⟩) fun _ hone => hone.imp id fun hnone => ⟨hnone.1, rfl⟩
  refine .of (hride.entered ?_) rfl
  have hpalle : raid.withoutEmoji.loot + raid.withoutEmoji.gift - (raid.loot + raid.gift) = 0 := sub_self _
  rw [hpalle, show raid.withoutEmoji.giftEmoji = [] from rfl, unit_nil, zero_sub]

theorem land_round (s : ConquisterState) (raids : List Raid) (thrown thrower victim : Str) (site : Whereabouts)
    (now : ℤ) (rules : RaidRules) (draws : LandDraws) :
    Round (s.riding raids)
      (landingToll (s.riding raids) victim (land s thrown thrower victim site now rules draws).1)
      ((land s thrown thrower victim site now rules draws).2.riding
        (struckRides raids victim (land s thrown thrower victim site now rules draws).1.reset now)) := by
  refine .of (land_passage (land_riding s raids thrown thrower victim site now rules draws)) ?_
  rw [landingToll, strike]
  split <;> rfl

theorem throwAtHouse_round (s : ConquisterState) {raids : List Raid} {index : ℕ} {raid ride : Raid}
    (h : raids[index]? = some ride) (hemoji : ride.giftEmoji = raid.giftEmoji)
    (hride : s.raids[index]? = some ride)
    (event : RaidEvent) (now : ℤ) (rules : RaidRules) (draws : RaidDraws) :
    (throwAtHouse s index raid event now rules draws).2.raids =
        struckRides (s.raids.set index ride.withoutEmoji)
          (struck raid (throwAtHouse s index raid event now rules draws).1.sentBack)
          (throwAtHouse s index raid event now rules draws).1.reset now ∧
      Round (s.riding raids)
        ({ emoji := -(unit raid.giftEmoji + shelf (throwAtHouse s index raid event now rules draws).1.blown) } +
          strike (s.riding (raids.set index ride.withoutEmoji))
            (struck raid (throwAtHouse s index raid event now rules draws).1.sentBack)
            (throwAtHouse s index raid event now rules draws).1.reset)
        ((throwAtHouse s index raid event now rules draws).2.riding
          (struckRides (raids.set index ride.withoutEmoji)
            (struck raid (throwAtHouse s index raid event now rules draws).1.sentBack)
            (throwAtHouse s index raid event now rules draws).1.reset now)) := by
  rw [throwAtHouse]
  dsimp only
  generalize sentBack s raid rules draws.mailbox = back
  generalize hwhich : (if back = true then { rules with bombDudPercent := 0 } else rules) = rules'
  have hraids := land_raids s raid.giftEmoji raid.raider (struck raid back) .home now rules' draws.landing
  have hlanded := land_round s (raids.set index ride.withoutEmoji) raid.giftEmoji raid.raider (struck raid back)
    .home now rules' draws.landing
  generalize land s raid.giftEmoji raid.raider (struck raid back) .home now rules' draws.landing = landed at *
  have hoff := withoutEmoji_round s h
  refine ⟨?_, (hoff.trans hlanded).entered ?_⟩
  · change landed.2.raids.modify index Raid.withoutEmoji = _
    rw [hraids]
    exact struckRides_modify hride _ _ now
  · rw [hemoji, landingToll, add_left_comm, add_comm (strike _ _ _)]
    congr 1
    ext <;> simp
    omega

theorem putOn_riding (s : ConquisterState) (raids : List Raid) (player emoji : Str) :
    putOn (s.riding raids) player emoji = (putOn s player emoji).map (·.riding raids) := by
  rw [putOn, putOn, Option.map_map]
  rfl

theorem putInHouse_riding (s : ConquisterState) (raids : List Raid) (player emoji : Str) (limit : ℕ) :
    putInHouse (s.riding raids) player emoji limit =
      (putInHouse s player emoji limit).map (·.riding raids) := by
  rw [putInHouse, putInHouse, Option.map_map]
  rfl

/-- An emoji that comes off a ride, onto somebody or into a house. -/
theorem takenIn_round {s t : ConquisterState} {raids : List Raid} {player emoji : Str} {limit : ℕ}
    (h : putOn s player emoji = some t ∨ putInHouse s player emoji limit = some t) {raid : Raid}
    (hraid : raid ∈ raids) (hemoji : raid.giftEmoji = emoji) :
    Round (s.riding raids) { emoji := unit emoji } (t.riding raids) ∧ t.raids = s.raids := by
  have hown (P : Str → Prop) (_ : Lawful P) (hs : Kept P (s.riding raids)) : AllOf P [emoji] := by
    intro other hother hne
    rw [List.mem_singleton.mp hother, ← hemoji] at hne ⊢
    exact hs.rides raid hraid hne
  rcases h with hworn | hkept
  · have hworn' : putOn (s.riding raids) player emoji = some (t.riding raids) := by
      rw [putOn_riding, hworn, Option.map_some]
    refine ⟨.of ((putOn_passage hworn').unvouched hown []) rfl, ?_⟩
    rw [putOn, Option.map_eq_some_iff] at hworn
    obtain ⟨slots, -, rfl⟩ := hworn
    rfl
  · have hkept' : putInHouse (s.riding raids) player emoji limit = some (t.riding raids) := by
      rw [putInHouse_riding, hkept, Option.map_some]
    refine ⟨.of ((putInHouse_passage hkept').unvouched hown []) rfl, ?_⟩
    rw [putInHouse, Option.map_eq_some_iff] at hkept
    obtain ⟨slots, -, rfl⟩ := hkept
    rfl

/-- What the event of a delivery starts from: nothing has landed yet. -/
structure RaidEvent.Bringing (event : RaidEvent) : Prop where
  kind : event.kind = .delivered
  blown : event.blown = []
  reset : event.reset = false
  nobodyHome : event.nobodyHome = false

theorem deliverEmoji_round (s : ConquisterState) {raids : List Raid} {index : ℕ} {raid ride : Raid}
    (h : raids[index]? = some ride) (hs : s.raids[index]? = some ride) (hemoji : ride.giftEmoji = raid.giftEmoji)
    (event : RaidEvent) (hevent : event.Bringing) (now : ℤ) (rules : RaidRules) (draws : RaidDraws) :
    (deliverEmoji s index raid event now rules draws).1.kind = .delivered ∧
    ∃ ride', (ride' = ride ∨ ride' = ride.withoutEmoji) ∧
      (deliverEmoji s index raid event now rules draws).2.raids =
        struckRides (s.raids.set index ride')
          (struck raid (deliverEmoji s index raid event now rules draws).1.sentBack)
          (deliverEmoji s index raid event now rules draws).1.reset now ∧
      Round (s.riding raids)
        ({ emoji := (deliverEmoji s index raid event now rules draws).1.entry } +
          strike (s.riding (raids.set index ride.withoutEmoji))
            (struck raid (deliverEmoji s index raid event now rules draws).1.sentBack)
            (deliverEmoji s index raid event now rules draws).1.reset)
        ((deliverEmoji s index raid event now rules draws).2.riding
          (struckRides (raids.set index ride')
            (struck raid (deliverEmoji s index raid event now rules draws).1.sentBack)
            (deliverEmoji s index raid event now rules draws).1.reset now)) := by
  obtain ⟨hkind, hblown, hreset, hsomebody⟩ := hevent
  have hself (raids : List Raid) (h : raids[index]? = some ride) : raids.set index ride = raids := by
    obtain ⟨hlt, rfl⟩ := List.getElem?_eq_some_iff.mp h
    exact List.set_getElem_self hlt
  rw [deliverEmoji]
  dsimp only
  split
  · refine ⟨hkind, ride, .inl rfl, ?_, ?_⟩
    · rw [hreset, struckRides, if_neg Bool.false_ne_true, hself _ hs]
    · rw [hreset, struckRides, if_neg Bool.false_ne_true, hself _ h, strike_spared, add_zero]
      simp only [RaidEvent.entry, hkind]
      exact (Round.refl _).entered (by simp)
  · split
    · rename_i hthrows
      obtain ⟨hthrown, hintact⟩ : isThrown raid.giftEmoji = true ∧ raid.intact = false := by
        simpa [Raid.throws] using hthrows
      obtain ⟨hraids, hlanded⟩ := throwAtHouse_round s h hemoji hs
        { event with giftEmoji := raid.giftEmoji, intact := raid.intact } now rules draws
      refine ⟨hkind, ride.withoutEmoji, .inr rfl, hraids, hlanded.entered ?_⟩
      congr 1
      rw [RaidEvent.entry]
      have hkind' : (throwAtHouse s index raid { event with giftEmoji := raid.giftEmoji, intact := raid.intact }
        now rules draws).1.kind = .delivered := hkind
      rw [hkind']
      dsimp only
      rw [if_pos]
      · rfl
      · exact ⟨hthrown, hintact, hsomebody⟩
    · rename_i hthrows
      have hgiven : ¬ (isThrown raid.giftEmoji = true ∧ raid.intact = false ∧ event.nobodyHome = false) := by
        rintro ⟨hthrown, hintact, -⟩
        exact hthrows (by simp [Raid.throws, hthrown, hintact])
      split
      · rename_i onHim kept hkept
        obtain ⟨hin, hraids⟩ := takenIn_round (receive_cases hkept) (List.mem_of_getElem? h) hemoji
        have hoff := withoutEmoji_round kept h
        refine ⟨hkind, ride.withoutEmoji, .inr rfl, ?_, ?_⟩
        · rw [hreset, struckRides, if_neg Bool.false_ne_true]
          change kept.raids.modify index Raid.withoutEmoji = _
          rw [hraids, modify_eq_set hs]
        · rw [hreset, struckRides, if_neg Bool.false_ne_true, strike_spared, add_zero]
          refine (hin.trans hoff).entered ?_
          simp only [RaidEvent.entry, hkind]
          rw [if_neg hgiven, hemoji]
          ext <;> simp
      · refine ⟨hkind, ride, .inl rfl, ?_, ?_⟩
        · rw [hreset, struckRides, if_neg Bool.false_ne_true, hself _ hs]
        · rw [hreset, struckRides, if_neg Bool.false_ne_true, hself _ h, strike_spared, add_zero]
          refine (Round.refl _).entered ?_
          simp only [RaidEvent.entry, hkind]
          rw [if_neg hgiven]
          rfl

/-- What stays the same of a ride that has arrived. -/
structure Raid.Settled (raid raid' : Raid) : Prop where
  raider : raid'.raider = raid.raider
  target : raid'.target = raid.target
  arrive : raid'.arrive = raid.arrive
  back : raid'.back = raid.back
  arrived : raid'.arrived = true

/-- What a ride that reached a house brings into the game and takes out of it, besides what its event
says: all that a ☢️ struck, as it landed. -/
def struckDown (s : ConquisterState) (raids : List Raid) (index : ℕ) (raid : Raid) (event : RaidEvent) : Receipt :=
  strike ((deliverPalle s index raid).riding (raids.set index raid.handed.withoutEmoji))
    (struck raid event.sentBack) event.reset

omit [SlotCodec] in
theorem handed_settled (raid : Raid) : raid.Settled raid.handed ∧ raid.handed.giftEmoji = raid.giftEmoji := by
  rw [Raid.handed]
  split <;> exact ⟨⟨rfl, rfl, rfl, rfl, rfl⟩, rfl⟩

omit [SlotCodec] in
theorem deliverPalle_raids {s : ConquisterState} {index : ℕ} {raid : Raid} (h : s.raids[index]? = some raid.reached) :
    (deliverPalle s index raid).raids = s.raids.set index raid.handed := by
  rw [deliverPalle, Raid.handed]
  split
  · exact modify_eq_set h Raid.withoutGift
  · obtain ⟨hlt, hget⟩ := List.getElem?_eq_some_iff.mp h
    rw [← hget, List.set_getElem_self]

theorem deliver_round (s : ConquisterState) {raids : List Raid} {index : ℕ} {raid : Raid}
    (h : raids[index]? = some raid) (hs : s.raids[index]? = some raid.reached) (event : RaidEvent)
    (hnothing : event.giftEmoji = [] ∧ event.blown = [] ∧ event.reset = false ∧ event.nobodyHome = false)
    (now : ℤ) (rules : RaidRules) (draws : RaidDraws) :
    (deliver s index raid event now rules draws).1.kind = .delivered ∧
    ∃ raid', raid.Settled raid' ∧
      (deliver s index raid event now rules draws).2.raids =
        struckRides (s.raids.set index raid')
          (struck raid (deliver s index raid event now rules draws).1.sentBack)
          (deliver s index raid event now rules draws).1.reset now ∧
      Round (s.riding raids)
        ({ emoji := (deliver s index raid event now rules draws).1.entry } +
          struckDown s raids index raid (deliver s index raid event now rules draws).1)
        ((deliver s index raid event now rules draws).2.riding
          (struckRides (raids.set index raid')
            (struck raid (deliver s index raid event now rules draws).1.sentBack)
            (deliver s index raid event now rules draws).1.reset now)) := by
  obtain ⟨hempty, hblown, hreset, hsomebody⟩ := hnothing
  obtain ⟨hsettled, hemoji⟩ := handed_settled raid
  have hpaid := deliverPalle_round s h
  have hraids := deliverPalle_raids hs
  have hlt := (List.getElem?_eq_some_iff.mp h).1
  have hlts := (List.getElem?_eq_some_iff.mp hs).1
  rw [deliver]
  split
  · refine ⟨rfl, raid.handed, hsettled, ?_, ?_⟩
    · rw [hreset, struckRides, if_neg Bool.false_ne_true, hraids]
    · rw [struckDown, hreset, struckRides, if_neg Bool.false_ne_true, strike_spared, add_zero]
      refine hpaid.entered ?_
      simp only [RaidEvent.entry, hempty]
      rw [if_neg fun hthrown => absurd hthrown.1 (by decide)]
      rfl
  · have hthere : (deliverPalle s index raid).raids[index]? = some raid.handed := by
      rw [hraids, List.getElem?_set_self hlts]
    obtain ⟨hkind, ride, hride, hafter, hround⟩ := deliverEmoji_round (deliverPalle s index raid)
      (List.getElem?_set_self hlt) hthere hemoji { event with kind := .delivered, gift := raid.gift }
      ⟨rfl, hblown, hreset, hsomebody⟩ now rules draws
    refine ⟨hkind, ride, ?_, ?_, ?_⟩
    · rcases hride with rfl | rfl
      · exact hsettled
      · exact ⟨hsettled.raider, hsettled.target, hsettled.arrive, hsettled.back, hsettled.arrived⟩
    · rw [hafter, hraids, List.set_set]
    · have hboth := hpaid.trans hround
      rw [List.set_set, List.set_set, zero_add] at hboth
      exact hboth

omit [SlotCodec] in
theorem deliverPalle_riding (s : ConquisterState) (raids : List Raid) (index : ℕ) (raid : Raid) :
    (deliverPalle (onRide s index Raid.reached) index raid).riding raids =
      (deliverPalle s index raid).riding raids := by
  rw [deliverPalle, deliverPalle]
  split <;> rfl

theorem noteChanges_keeps (event : RaidEvent) (raid : Raid) (then_ : RaidEvent) (s : ConquisterState) :
    (noteChanges event raid then_ s).entry = event.entry ∧ (noteChanges event raid then_ s).kind = event.kind ∧
      (noteChanges event raid then_ s).reset = event.reset ∧
      (noteChanges event raid then_ s).sentBack = event.sentBack := by
  simp only [noteChanges]
  split_ifs <;> exact ⟨rfl, rfl, rfl, rfl⟩

/-- An arrival rewrites its own ride and, if something struck there, those of whoever it struck; the
palle and the emoji move as its event says. -/
theorem arrival_round [Clock] {s t : ConquisterState} {raids : List Raid} {index : ℕ} {raid : Raid}
    {now : ℤ} {rules : RaidRules} {draws : RaidDraws} {event : RaidEvent}
    (h : raids[index]? = some raid) (hs : s.raids[index]? = some raid) (hfresh : raid.arrived = false)
    (harrival : arrival s index raid now rules draws = .ok (event, t)) :
    (event.kind = .stolen ∨ event.kind = .delivered) ∧
    ∃ raid', raid.Settled raid' ∧
      t.raids = struckRides (s.raids.set index raid') (struck raid event.sentBack) event.reset now ∧
      Round (s.riding raids) ({ emoji := event.entry } + struckDown s raids index raid event)
        (t.riding (struckRides (raids.set index raid') (struck raid event.sentBack) event.reset now)) := by
  have hlts := (List.getElem?_eq_some_iff.mp hs).1
  let there := onRide s index Raid.reached
  have hthere : there.raids = s.raids.set index raid.reached := modify_eq_set hs Raid.reached
  have hreached : there.raids[index]? = some raid.reached := by rw [hthere, List.getElem?_set_self hlts]
  rw [arrival] at harrival
  split at harrival
  · cases harrival
  · rename_i outcome after houtcome
    obtain ⟨rfl, rfl⟩ := Prod.mk.inj (Except.ok.inj harrival)
    obtain ⟨hentry, hkind, hreset, hsent⟩ := noteChanges_keeps outcome raid (arrivalEvent there raid now) after
    rw [hentry, hkind, hreset, hsent, struckDown, hreset, hsent]
    split at houtcome
    · rename_i hbrings
      have hnot : ¬ (raid.gift = 0 ∧ raid.giftEmoji = []) := by
        rintro ⟨hgift, hemoji⟩
        rw [Raid.brings, hgift, hemoji] at hbrings
        cases hbrings
      rw [if_neg hnot] at houtcome
      have hdelivered : deliver there index raid (arrivalEvent there raid now) now rules draws = (outcome, after) :=
        Except.ok.inj houtcome
      obtain ⟨hstatus, raid', hsettled, hafter, hround⟩ := deliver_round there h hreached
        (arrivalEvent there raid now) ⟨rfl, rfl, rfl, rfl⟩ now rules draws
      rw [hdelivered] at hstatus hafter hround
      rw [hthere, List.set_set] at hafter
      rw [struckDown, deliverPalle_riding] at hround
      exact ⟨.inr hstatus, raid', hsettled, hafter, hround⟩
    · rename_i hbrings
      have hrob : raid.gift ≤ 0 ∧ raid.giftEmoji = [] := by simpa [Raid.brings] using hbrings
      generalize hmet : (if raid.gift = 0 ∧ raid.giftEmoji = [] then
        atTheDoor there raid (arrivalEvent there raid now) now rules draws
        else (arrivalEvent there raid now, there)) = met at houtcome
      obtain ⟨hdoor, hraids, hstatus, hspared⟩ : Round (s.riding raids) { emoji := -unit met.1.eaten }
          (met.2.riding raids) ∧ met.2.raids = there.raids ∧ met.1.kind = .stolen ∧ met.1.reset = false := by
        rw [← hmet]
        split
        · exact atTheDoor_round there raids raid (arrivalEvent there raid now) now rules draws rfl
        · exact ⟨(Round.refl _).entered (by simp [arrivalEvent]), rfl, rfl, rfl⟩
      obtain ⟨amount, hafter, hrobbing, hround⟩ := raidHouse_round h hfresh hrob houtcome
      have hkind' : outcome.kind = .stolen := hrobbing.kind.trans hstatus
      rw [hrobbing.reset, hspared, strike_spared, add_zero]
      simp only [struckRides, Bool.false_eq_true, if_false]
      refine ⟨.inl hkind', raid.reached.withLoot amount, ⟨rfl, rfl, rfl, rfl, rfl⟩, ?_, ?_⟩
      · rw [hafter, hraids, modify_eq_set hreached, hthere, List.set_set]
      · refine (hdoor.trans hround).entered ?_
        simp only [RaidEvent.entry, hkind']
        rw [add_zero, hrobbing.eaten]

end NorelecBot
