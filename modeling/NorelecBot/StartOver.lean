import NorelecBot.Bystanders
import NorelecBot.EditPlaces

/-! # A ☢️ on a house and a ☢️ on the place

The one starts over the player who lives there, the other starts the game over. What
both leave of him is compared table by table, and what the first leaves of everybody
else with what was there.
-/

namespace NorelecBot
open Lib

/-- Everything about a player that starting over is about. -/
structure Standing where
  score : Option ℤ
  house : Option Str
  gear : Option Str
  hold : Option Holder
  wear : Option ℤ
  penalty : Option ℤ
  smeared : Option ℤ
  frozen : Option ℤ
  expecting : List Pregnancy
  children : List Child
  /-- The raids that reached a house lately, his own and those on him. -/
  knocks : List Knock
  /-- The palle and the emoji on his ride. -/
  palle : ℤ
  emoji : List Str
  deriving DecidableEq

def standing (state : ConquisterState) (player : Str) : Standing where
  score := state.scores.find player
  house := state.furniture.find player
  gear := state.equipped.find player
  hold := state.current.filter fun hold => hold.username = player
  wear := state.balloons.find player
  penalty := state.cooldowns.find player
  smeared := state.smeared.find player
  frozen := state.frozen.find player
  expecting := state.pregnancies.filter fun pregnancy => pregnancy.mother = player
  children := state.children.filter fun child => child.owner = player
  knocks := state.knocks.filter fun knock => knock.raider = player ∨ knock.target = player
  palle := ((ridesOf state player).map fun raid => raid.loot + raid.gift).sum
  emoji := ((ridesOf state player).map Raid.giftEmoji).filter (· ≠ [])

theorem ridesOf_callOff (s : ConquisterState) (player : Str) (now : ℤ) :
    (callOff s.raids player now).filter (fun raid => raid.raider = player) =
      (ridesOf s player).map (·.calledOff now) := by
  rw [callOff, List.filter_map, ridesOf]
  have hsame : (fun raid : Raid => decide (raid.raider = player)) ∘
      (fun raid => if raid.raider = player then raid.calledOff now else raid) =
        fun raid => decide (raid.raider = player) := by
    funext raid
    by_cases hraider : raid.raider = player <;> simp [hraider, Raid.calledOff]
  rw [hsame]
  apply List.map_congr_left
  intro raid hraid
  exact if_pos (by simpa using (List.mem_filter.mp hraid).2)

theorem ridesOf_callOff_of_ne (s : ConquisterState) {player other : Str} (h : other ≠ player) (now : ℤ) :
    (callOff s.raids player now).filter (fun raid => raid.raider = other) = ridesOf s other := by
  rw [callOff, List.filter_map, ridesOf]
  have hsame : (fun raid : Raid => decide (raid.raider = other)) ∘
      (fun raid => if raid.raider = player then raid.calledOff now else raid) =
        fun raid => decide (raid.raider = other) := by
    funext raid
    by_cases hraider : raid.raider = player <;> simp [hraider, Raid.calledOff]
  rw [hsame]
  conv_rhs => rw [← List.map_id (s.raids.filter _)]
  apply List.map_congr_left
  intro raid hraid
  have hraider : raid.raider = other := by simpa using (List.mem_filter.mp hraid).2
  exact if_neg (hraider ▸ h)

theorem sum_calledOff (raids : List Raid) (now : ℤ) :
    ((raids.map (·.calledOff now)).map fun raid => raid.loot + raid.gift).sum = 0 := by
  simp [Raid.calledOff, Function.comp_def]

theorem emoji_calledOff (raids : List Raid) (now : ℤ) :
    ((raids.map (·.calledOff now)).map Raid.giftEmoji).filter (· ≠ []) = [] := by
  simp [Raid.calledOff, Function.comp_def]

theorem callOff_over (s : ConquisterState) (player : Str) (now : ℤ) :
    ∀ raid ∈ (startOverFor s player now).raids, raid.raider = player → raid.arrived = true ∧ raid.back = now := by
  intro raid hraid hraider
  obtain ⟨before, -, rfl⟩ := List.mem_map.mp hraid
  split
  · exact ⟨rfl, rfl⟩
  · rename_i hother
    rw [if_neg hother] at hraider
    exact absurd hraider hother

theorem find_zeroScore (scores : Counters) (player other : Str) : (zeroScore scores player).find other =
    if other = player then (scores.find player).map fun _ => 0 else scores.find other := by
  rw [zeroScore]
  cases hscore : scores.find player with
  | none =>
    rw [if_neg (by simp)]
    by_cases hsame : other = player
    · rw [if_pos hsame, hsame, hscore]
      rfl
    · rw [if_neg hsame]
  | some score =>
    have hentry : (some score).isSome = true := rfl
    rw [if_pos hentry, OrderedMap.find_set]
    rfl

theorem knownPlayers_mapVals (s : ConquisterState) :
    knownPlayers { s with scores := s.scores.mapVals fun _ => 0 } = knownPlayers s := by
  simp [knownPlayers]

/-- What starting the game over leaves of a player it knows. -/
theorem standing_startOver {s : ConquisterState} {player : Str} (h : player ∈ knownPlayers s) :
    standing (startOver s) player =
      { score := (s.scores.find player).map fun _ => 0, house := none, gear := some Power.balloon.emoji, hold := none
        wear := none, penalty := none, smeared := none, frozen := none, expecting := [], children := [], knocks := []
        palle := 0, emoji := [] } := by
  have hgear : (startOver s).equipped.find player = some Power.balloon.emoji := by
    rw [startOver, find_balloons, knownPlayers_mapVals, if_pos h]
  rw [standing, hgear]
  simp [startOver, ridesOf, OrderedMap.find_mapVals]

theorem hold_startOverFor (s : ConquisterState) (player : Str) (now : ℤ) :
    ((startOverFor s player now).current.filter fun hold => hold.username = player) = none := by
  change Option.filter _ (if whereabouts s player = .conquister then none else s.current) = none
  split
  · rfl
  · rename_i haway
    rw [Option.filter_eq_none_iff]
    intro hold hhold hname
    have hsame : hold.username = player := by simpa using hname
    refine haway (if_pos ?_)
    rw [hhold, Option.any_some, hsame]
    exact Text.equalsIgnoreCase_refl player

/-- What starting one player over leaves of him: all that starting the game over does, his freeze and the
raids that reached a house. -/
theorem standing_startOverFor (s : ConquisterState) (player : Str) (now : ℤ) :
    standing (startOverFor s player now) player =
      { score := (s.scores.find player).map fun _ => 0, house := none, gear := some Power.balloon.emoji, hold := none
        wear := none, penalty := none, smeared := none, frozen := s.frozen.find player, expecting := [], children := []
        knocks := s.knocks.filter fun knock => knock.raider = player ∨ knock.target = player, palle := 0, emoji := [] } := by
  have hscore : (startOverFor s player now).scores.find player = (s.scores.find player).map fun _ => 0 :=
    (find_zeroScore s.scores player player).trans (if_pos rfl)
  have hhouse : (startOverFor s player now).furniture.find player = none := by
    have hempty : SlotCodec.stored [] = [] := rfl
    change (hangIn s.furniture player []).find player = none
    rw [hangIn, if_pos hempty, OrderedMap.find_erase_self]
  have hgear : (startOverFor s player now).equipped.find player = some Power.balloon.emoji :=
    OrderedMap.find_set_self _ _ _
  have hrides : ridesOf (startOverFor s player now) player = (ridesOf s player).map (·.calledOff now) :=
    ridesOf_callOff s player now
  have hexpecting : (startOverFor s player now).pregnancies.filter (fun pregnancy => pregnancy.mother = player) = [] := by
    simp [startOverFor, List.filter_filter]
  have hchildren : (startOverFor s player now).children.filter (fun child => child.owner = player) = [] := by
    simp [startOverFor, List.filter_filter]
  have herase (counters : Counters) : (counters.erase player).find player = none := OrderedMap.find_erase_self _ _
  rw [standing, hscore, hhouse, hgear, hold_startOverFor, hexpecting, hchildren, hrides, sum_calledOff, emoji_calledOff]
  simp only [Standing.mk.injEq, true_and, and_true]
  exact ⟨herase _, herase _, herase _, rfl, rfl⟩

/-- Nobody else but a holder of the same name in other letters is touched. -/
theorem standing_startOverFor_of_ne (s : ConquisterState) {player other : Str} (h : other ≠ player) (now : ℤ) :
    standing (startOverFor s player now) other =
      { standing s other with
        hold := if whereabouts s player = .conquister then none
          else s.current.filter fun hold => hold.username = other } := by
  have hspared := startOverFor_spares s h now
  have hscore : (startOverFor s player now).scores.find other = s.scores.find other :=
    (find_zeroScore s.scores player other).trans (if_neg h)
  have hrides : ridesOf (startOverFor s player now) other = ridesOf s other := ridesOf_callOff_of_ne s h now
  have herase (counters : Counters) : (counters.erase player).find other = counters.find other :=
    OrderedMap.find_erase_of_ne _ h
  have hhold : ((startOverFor s player now).current.filter fun hold => hold.username = other) =
      if whereabouts s player = .conquister then none else s.current.filter fun hold => hold.username = other := by
    change Option.filter _ (if whereabouts s player = .conquister then none else s.current) = _
    split <;> rfl
  rw [standing, hscore, hspared.house, hspared.gear, hspared.smeared, hspared.frozen, hspared.expecting,
    hspared.children, hrides, hhold]
  simp only [Standing.mk.injEq, true_and, and_true, standing]
  exact ⟨herase _, herase _, rfl⟩

/-- Whether a ☢️ on his house does to a player what one on the place does, and nothing to anybody else. -/
def StartsOverAlone (s : ConquisterState) (player : Str) (now : ℤ) : Prop :=
  standing (startOverFor s player now) player = standing (startOver s) player ∧
    (∀ raid ∈ (startOverFor s player now).raids, raid.raider = player → raid.arrived = true ∧ raid.back = now) ∧
    ∀ other, other ≠ player → standing (startOverFor s player now) other = standing s other ∧
      ridesOf (startOverFor s player now) other = ridesOf s other

theorem startsOverAlone_iff {s : ConquisterState} {player : Str} (h : player ∈ knownPlayers s) (now : ℤ) :
    StartsOverAlone s player now ↔ s.frozen.find player = none ∧
      (∀ knock ∈ s.knocks, knock.raider ≠ player ∧ knock.target ≠ player) ∧
      ∀ hold, s.current = some hold → Text.equalsIgnoreCase hold.username player = true → hold.username = player := by
  have hown : standing (startOverFor s player now) player = standing (startOver s) player ↔
      s.frozen.find player = none ∧ ∀ knock ∈ s.knocks, knock.raider ≠ player ∧ knock.target ≠ player := by
    rw [standing_startOverFor, standing_startOver h]
    simp [List.filter_eq_nil_iff]
  have hothers : (∀ other, other ≠ player → standing (startOverFor s player now) other = standing s other ∧
      ridesOf (startOverFor s player now) other = ridesOf s other) ↔
      ∀ hold, s.current = some hold → Text.equalsIgnoreCase hold.username player = true →
        hold.username = player := by
    constructor
    · intro hall hold hhold hsame
      by_contra hother
      obtain ⟨hkept, -⟩ := hall hold.username hother
      have hplace : whereabouts s player = .conquister := if_pos (by rw [hhold, Option.any_some, hsame])
      rw [standing_startOverFor_of_ne s hother, if_pos hplace] at hkept
      have hlost := congrArg Standing.hold hkept
      simp [standing, hhold, Option.filter] at hlost
    · intro hholder other hother
      refine ⟨?_, ridesOf_callOff_of_ne s hother now⟩
      rw [standing_startOverFor_of_ne s hother]
      split
      · rename_i hplace
        -- It is the player himself who lost the place.
        have hnone : (s.current.filter fun hold => hold.username = other) = none := by
          rw [Option.filter_eq_none_iff]
          intro hold hhold hname
          have hsame : Text.equalsIgnoreCase hold.username player = true := by
            rw [whereabouts, hhold] at hplace
            split at hplace
            · assumption
            · split at hplace <;> cases hplace
          have hplayer := hholder hold hhold hsame
          exact hother ((by simpa using hname : hold.username = other).symm.trans hplayer)
        rw [← hnone]
        rfl
      · rfl
  constructor
  · rintro ⟨hleft, -, hright⟩
    obtain ⟨hfrozen, hknocks⟩ := hown.mp hleft
    exact ⟨hfrozen, hknocks, hothers.mp hright⟩
  · rintro ⟨hfrozen, hknocks, hholder⟩
    exact ⟨hown.mpr ⟨hfrozen, hknocks⟩, callOff_over s player now, hothers.mpr hholder⟩

def bobFrozen : ConquisterState :=
  { scores := OrderedMap.empty.set (utf8 "bob") 900
    frozen := OrderedMap.empty.set (utf8 "bob") 5000 }

/-- He starts over alone once he has thawed. -/
theorem startsOverAlone_iff_frozen :
    StartsOverAlone { bobFrozen with frozen := .empty } (utf8 "bob") 1000 ∧ ¬ StartsOverAlone bobFrozen (utf8 "bob") 1000 := by
  constructor
  · exact (startsOverAlone_iff (by decide) 1000).mpr ⟨rfl, by simp [bobFrozen], by simp [bobFrozen]⟩
  · intro halone
    exact absurd ((startsOverAlone_iff (by decide) 1000).mp halone).1 (by decide)

theorem frozen_player_stays_frozen : ¬ ∀ (s : ConquisterState) (player : Str) (now : ℤ),
    player ∈ knownPlayers s → StartsOverAlone s player now := by
  intro h
  obtain ⟨hleft, -⟩ := h bobFrozen (utf8 "bob") 1000 (by decide)
  exact absurd hleft (by decide)

end NorelecBot
