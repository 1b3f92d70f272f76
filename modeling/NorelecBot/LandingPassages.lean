import NorelecBot.IdentityPassages

/-! # What lands somewhere, as edits

A 💣 takes what it reports; a ☢️ on a house wipes one player, and hands him a 🎈.
-/

namespace NorelecBot
open Lib

def ridesOf (state : ConquisterState) (player : Str) : List Raid :=
  state.raids.filter fun raid => raid.raider = player

def kidsOf (state : ConquisterState) (player : Str) : Multiset (Str × Bool × ℤ) :=
  ((state.children.filter fun child => child.owner = player).map Child.self : List _)

theorem palleRiding_callOff (raids : List Raid) (player : Str) (now : ℤ) :
    palleRiding (callOff raids player now) =
      palleRiding raids - palleRiding (raids.filter fun raid => raid.raider = player) := by
  induction raids with
  | nil => rfl
  | cons raid raids ih =>
    rw [callOff, List.map_cons, ← callOff, palleRiding_cons, palleRiding_cons, ih, List.filter_cons]
    by_cases hraider : raid.raider = player
    · rw [if_pos hraider, if_pos (by simpa using hraider), palleRiding_cons]
      change 0 + 0 + _ = _
      omega
    · rw [if_neg hraider, if_neg (by simpa using hraider)]
      omega

theorem emojiRiding_callOff (raids : List Raid) (player : Str) (now : ℤ) :
    emojiRiding (callOff raids player now) =
      emojiRiding raids - emojiRiding (raids.filter fun raid => raid.raider = player) := by
  induction raids with
  | nil => simp [callOff]
  | cons raid raids ih =>
    rw [callOff, List.map_cons, ← callOff, emojiRiding_cons, emojiRiding_cons, ih, List.filter_cons]
    by_cases hraider : raid.raider = player
    · rw [if_pos hraider, if_pos (by simpa using hraider), emojiRiding_cons, Raid.calledOff, unit_nil,
        zero_add, add_sub_add_left_eq_sub]
    · rw [if_neg hraider, if_neg (by simpa using hraider), add_sub_assoc]

theorem callOff_rewritten (raids : List Raid) (player : Str) (now : ℤ) :
    List.Forall₂ Raid.Rewritten raids (callOff raids player now) := by
  rw [callOff, List.forall₂_map_right_iff]
  refine List.forall₂_same.mpr fun raid _ => ?_
  split
  · exact ⟨rfl, rfl, .inr rfl⟩
  · exact ⟨rfl, rfl, .inl rfl⟩

/-- A ride that is called off is in order, whatever is asked of one that brings nothing. -/
theorem callOff_all {P : Raid → Prop} {raids : List Raid} (h : ∀ raid ∈ raids, P raid) (player : Str)
    {now : ℤ} (hoff : ∀ raid : Raid, P (raid.calledOff now)) : ∀ raid ∈ callOff raids player now, P raid := by
  intro raid hraid
  obtain ⟨old, hold, rfl⟩ := List.mem_map.mp hraid
  split
  · exact hoff old
  · exact h old hold

variable [SlotCodec]

/-- What a ☢️ on a house takes out of the game: all that is the player's, at home, on him and on the
road, against the one 🎈 he is handed. -/
def wiped (state : ConquisterState) (player : Str) : Receipt :=
  { palle := -(counter state.scores player + palleRiding (ridesOf state player))
    emoji := unit Power.balloon.emoji -
      (shelf (slotsOf state player) + shelf (gearOf state player) + emojiRiding (ridesOf state player))
    left := kidsOf state player }

theorem zeroScore_passage (s : ConquisterState) (player : Str) : Passage [] s
    { palle := -counter s.scores player } { s with scores := zeroScore s.scores player } := by
  rw [zeroScore]
  split
  · exact (Passage.score [] s player 0 fun _ => le_rfl).entered (by rw [zero_sub])
  · rename_i hnone
    have hzero : counter s.scores player = 0 := by
      rw [counter, Option.not_isSome_iff_eq_none.mp hnone, Option.getD_none]
    exact (Passage.refl [] s).entered (by rw [hzero, neg_zero, Receipt.mk_zero])

theorem callOff_passage (s : ConquisterState) (player : Str) (now : ℤ) : Passage [] s
    { palle := -palleRiding (ridesOf s player), emoji := -emojiRiding (ridesOf s player) }
    { s with raids := callOff s.raids player now } := by
  refine (Passage.edit [] (.rides s _ (callOff_rewritten s.raids player now)
    (fun hs => callOff_all hs.rides player fun _ => ⟨le_rfl, le_rfl, fun _ => rfl⟩)
    fun _ hs => callOff_all hs player fun _ => .inl rfl) rfl rfl).entered ?_
  rw [palleRiding_callOff, emojiRiding_callOff, sub_sub_cancel_left, sub_sub_cancel_left]
  rfl

theorem outOfPlace_passage (s : ConquisterState) (player : Str) : Passage [] s 0
    { s with current := if whereabouts s player = .conquister then none else s.current } := by
  split
  · exact .edit [] (.leaves s) rfl rfl
  · exact .refl [] s

/-- What is left of a player's house once his children are no more. -/
theorem emptied_passage (s : ConquisterState) (player : Str)
    (hkids : ∀ child ∈ s.children, child.owner ≠ player) :
    Passage [] s { emoji := -shelf (slotsOf s player) } (hang s player []) := by
  have hspared : KidsSpared s player [] := fun child hchild howner => absurd howner (hkids child hchild)
  refine (Passage.edit [] (.house s player [] 0 hspared fun P _ _ => allOf_nil) rfl rfl).entered ?_
  rw [shelf_nil, zero_sub]

theorem startOverFor_passage (s : ConquisterState) (player : Str) (now : ℤ) :
    Passage [] s (wiped s player) (startOverFor s player now) := by
  let away : ConquisterState :=
    { s with current := if whereabouts s player = .conquister then none else s.current }
  let bare : ConquisterState :=
    { away with scores := zeroScore s.scores player, raids := callOff s.raids player now }
  let childless : ConquisterState :=
    { bare with children := bare.children.filter fun child => child.owner ≠ player }
  have haway : Passage [] s 0 away := outOfPlace_passage s player
  have hscore := zeroScore_passage away player
  have hrides := callOff_passage { away with scores := zeroScore s.scores player } player now
  have horphaned : Passage [] bare _ childless := .edit [] (.orphaned bare player) rfl rfl
  have hhouse := emptied_passage childless player
    fun child hchild => by simpa using (List.mem_filter.mp hchild).2
  have hgear := Passage.edit [] (.balloon (hang childless player []) player) rfl rfl
  have hquiet : SamePlay { hang childless player [] with equipped := balloonOn childless.equipped player }
      (startOverFor s player now) := ⟨rfl, rfl, rfl, rfl, rfl, rfl⟩
  refine ((((((haway.trans hscore).trans hrides).trans horphaned).trans hhouse).trans hgear).trans
    (.quiet [] hquiet)).entered ?_
  refine Receipt.ext ?_ ?_ (by simp [wiped]) (by simp [wiped]) (by simp [wiped]) ?_ rfl
  · change 0 + -counter s.scores player + -palleRiding (ridesOf s player) + 0 + 0 + 0 + 0 =
      -(counter s.scores player + palleRiding (ridesOf s player))
    omega
  · funext kind
    change 0 + 0 + -emojiRiding (ridesOf s player) kind + 0 + -shelf (slotsOf s player) kind +
      (unit Power.balloon.emoji kind - shelf (gearOf s player) kind) + 0 = unit Power.balloon.emoji kind -
        (shelf (slotsOf s player) kind + shelf (gearOf s player) kind + emojiRiding (ridesOf s player) kind)
    omega
  · change 0 + 0 + 0 + kidsOf s player + 0 + 0 + 0 = kidsOf s player
    simp

omit [SlotCodec] in
theorem not_exposed_of_age {male : Bool} {emoji : Str} (h : emoji ∈ ageEmoji male) :
    exposed emoji = false := by
  cases male <;> simp only [ageEmoji, boyLooks, girlLooks, Bool.false_eq_true, if_false, if_true,
    List.mem_cons, List.not_mem_nil, or_false] at h <;> rcases h with rfl | rfl | rfl | rfl <;> decide

omit [SlotCodec] in
theorem mem_slotsWhere {slots : List Str} {test : ℕ → Str → Bool} {slot : ℕ}
    (h : slot ∈ slotsWhere slots test) : slot < slots.length ∧ test slot (slotAt slots slot) = true := by
  rw [slotsWhere, List.mem_filter, List.mem_range] at h
  exact h

omit [SlotCodec] in
/-- What is drawn from a list is on it. -/
theorem drawn_mem {slots : List ℕ} (h : slots ≠ []) (draw : ℕ) :
    slots.getD (randomIndex draw slots.length) 0 ∈ slots := by
  have hlt := randomIndex_lt draw (List.length_pos_iff.mpr h)
  rw [List.getD_eq_getElem?_getD, List.getElem?_eq_getElem hlt]
  exact List.getElem_mem hlt

/-- A slot is cleared whose emoji is none of a child's. -/
theorem take_house (s : ConquisterState) (player : Str) {slot : ℕ}
    (hlt : slot < (slotsOf s player).length)
    (hkids : ∀ male, slotAt (slotsOf s player) slot ∉ ageEmoji male) :
    Passage [] s { emoji := -unit (slotAt (slotsOf s player) slot) }
      (hang s player ((slotsOf s player).set slot [])) := by
  have hspared : KidsSpared s player ((slotsOf s player).set slot []) := by
    intro child _ _ _ hthere
    rw [slotAt_set, if_neg]
    rintro ⟨rfl, -⟩
    exact hkids child.male hthere
  have hedit := Edit.house s player _ 0 hspared fun P hs _ => (hs.house player).cleared slot
  rw [shelf_set_sub hlt, unit_nil, zero_sub] at hedit
  exact .edit [] hedit rfl rfl

/-- Everything a 💣 going off can come to. -/
theorem blowUp_eq {s t : ConquisterState} {target : Str} {onHim : Bool} {draw : ℕ} {blown : List Str}
    (h : blowUp s target onHim draw = (blown, t)) :
    (blown = [] ∧ t = s) ∨ ∃ slot,
      slot < (if onHim then gearOf s target else slotsOf s target).length ∧
      exposed (slotAt (if onHim then gearOf s target else slotsOf s target) slot) = true ∧
      blown = [slotAt (if onHim then gearOf s target else slotsOf s target) slot] ∧
      t = if onHim then hangGear s target ((gearOf s target).set slot [])
        else hang s target ((slotsOf s target).set slot []) := by
  simp only [blowUp] at h
  by_cases hthere : slotsWhere (if onHim then gearOf s target else slotsOf s target)
      (fun _ emoji => exposed emoji) = []
  · rw [if_pos hthere] at h
    cases h
    exact .inl ⟨rfl, rfl⟩
  · rw [if_neg hthere] at h
    have hmem := mem_slotsWhere (drawn_mem hthere draw)
    obtain ⟨rfl, rfl⟩ := Prod.mk.inj h
    refine .inr ⟨_, hmem.1, hmem.2, rfl, ?_⟩
    cases onHim <;> rfl

theorem blowUp_passage {s t : ConquisterState} {target : Str} {onHim : Bool} {draw : ℕ} {blown : List Str}
    (h : blowUp s target onHim draw = (blown, t)) : Passage [] s { emoji := -shelf blown } t := by
  have hone (emoji : Str) : shelf [emoji] = unit emoji := by simp [shelf]
  rcases blowUp_eq h with ⟨rfl, rfl⟩ | ⟨slot, hlt, hexposed, rfl, rfl⟩
  · exact (Passage.refl [] _).entered (by rw [shelf_nil, neg_zero, Receipt.mk_zero])
  · rw [hone]
    cases onHim with
    | true =>
      refine clear_gear s target (fun hnil => ?_) []
      rw [if_pos rfl, hnil] at hexposed
      cases hexposed
    | false =>
      refine take_house s target hlt fun male hage => ?_
      exact Bool.false_ne_true ((not_exposed_of_age hage).symm.trans hexposed)

/-- What a ☢️ takes out of the game, if it was one. -/
def strike (s : ConquisterState) (victim : Str) (reset : Bool) : Receipt := if reset then wiped s victim else 0

theorem strike_spared (s : ConquisterState) (victim : Str) : strike s victim false = 0 :=
  if_neg Bool.false_ne_true

/-- What a landing takes out of the game, the 🎈 of a ☢️ set against it. -/
def landingToll (s : ConquisterState) (victim : Str) (landing : Landing) : Receipt :=
  strike s victim landing.reset + { emoji := -shelf landing.blown }

omit [SlotCodec] in
theorem smear_quiet (s : ConquisterState) (player : Str) (now seconds : ℤ) :
    SamePlay s (smear s player now seconds) := by
  rw [smear]
  split <;> exact ⟨rfl, rfl, rfl, rfl, rfl, rfl⟩

theorem Passage.unharmed {s t : ConquisterState} (same : SamePlay s t) (victim : Str) {landing : Landing}
    (hreset : landing.reset = false) (hblown : landing.blown = []) :
    Passage [] s (landingToll s victim landing) t := by
  rw [landingToll, hreset, strike_spared, hblown, shelf_nil, neg_zero, Receipt.mk_zero, add_zero]
  exact .quiet [] same

theorem Passage.blown {s t : ConquisterState} {landing : Landing}
    (h : Passage [] s { emoji := -shelf landing.blown } t) (victim : Str) (hreset : landing.reset = false) :
    Passage [] s (landingToll s victim landing) t := by
  rw [landingToll, hreset, strike_spared, zero_add]
  exact h

theorem land_passage {s t : ConquisterState} {thrown thrower victim : Str} {site : Whereabouts} {now : ℤ}
    {rules : RaidRules} {draws : LandDraws} {landing : Landing}
    (h : land s thrown thrower victim site now rules draws = (landing, t)) :
    Passage [] s (landingToll s victim landing) t := by
  simp only [land] at h
  split at h
  · obtain ⟨rfl, rfl⟩ := Prod.mk.inj h
    exact .unharmed (smear_quiet s victim now _) victim rfl rfl
  · split at h
    · split at h
      · obtain ⟨rfl, rfl⟩ := Prod.mk.inj h
        exact .blown (blowUp_passage rfl) victim rfl
      · obtain ⟨rfl, rfl⟩ := Prod.mk.inj h
        exact .blown (blowUp_passage rfl) victim rfl
    · split at h
      · obtain ⟨rfl, rfl⟩ := Prod.mk.inj h
        refine (startOverFor_passage s victim now).entered ?_
        rw [landingToll, shelf_nil, neg_zero, Receipt.mk_zero, add_zero]
        rfl
      · split at h
        · obtain ⟨rfl, rfl⟩ := Prod.mk.inj h
          refine .unharmed ?_ victim ?_ ?_
          · exact ⟨rfl, rfl, rfl, rfl, rfl, rfl⟩
          · rfl
          · rfl
        · split at h
          · obtain ⟨rfl, rfl⟩ := Prod.mk.inj h
            refine .unharmed ?_ victim rfl rfl
            split <;> exact ⟨rfl, rfl, rfl, rfl, rfl, rfl⟩
          · obtain ⟨rfl, rfl⟩ := Prod.mk.inj h
            exact .unharmed ⟨rfl, rfl, rfl, rfl, rfl, rfl⟩ victim rfl rfl

omit [SlotCodec] in
theorem land_reset [SlotCodec] {s : ConquisterState} {thrown thrower victim : Str} {site : Whereabouts}
    {now : ℤ} {rules : RaidRules} {draws : LandDraws}
    (h : (land s thrown thrower victim site now rules draws).1.reset = true) :
    isPower thrown .nuke = true := by
  simp only [land] at h
  split at h
  · cases h
  · split at h
    · split at h <;> cases h
    · split at h
      · assumption
      · split at h
        · cases h
        · split at h <;> cases h

theorem loseBolts_passage {s t : ConquisterState} {now : ℤ} (h : loseBolts s now = .ok t) :
    ∃ tended, Passage [] s { tended := tended } t := by
  rw [loseBolts] at h
  split at h
  · cases h
    exact ⟨0, .refl [] _⟩
  · rename_i hold hheld
    split at h
    · cases h
      exact ⟨0, .refl [] _⟩
    · split at h
      · cases h
      · rename_i value hvalue
        cases h
        refine ⟨1, .edit [] (.banks s hold _ hheld rfl fun hbanked => ?_) rfl rfl⟩
        exact add_nonneg hbanked (holdValue_nonneg hvalue)

/-- What an emoji brought back to the place takes with it, besides itself. -/
def burnToll (taken : ConquisterState) (result : FurnitureBurnResult) : Receipt :=
  if result.reset then
    { palle := -totalPalle taken
      emoji := (knownPlayers taken).length • unit Power.balloon.emoji - census taken
      left := kids taken }
  else { emoji := -shelf result.blown }

theorem burnToll_of_blown (taken : ConquisterState) {result : FurnitureBurnResult}
    (hreset : result.reset = false) : burnToll taken result = { emoji := -shelf result.blown } := by
  rw [burnToll, hreset, if_neg Bool.false_ne_true]

theorem throwAtPlace_passage {s t : ConquisterState} {player emoji : Str} {now : ℤ} {rules : RaidRules}
    {draws : LandDraws} {result : FurnitureBurnResult} (hnuke : isPower emoji .nuke = false)
    (h : throwAtPlace s player emoji now rules draws = (result, t)) :
    Passage [] s { emoji := -shelf result.blown } t ∧ result.reset = false := by
  rw [throwAtPlace] at h
  split at h
  · cases h
    exact ⟨(Passage.refl [] _).entered (by rw [shelf_nil, neg_zero, Receipt.mk_zero]), rfl⟩
  · rename_i holder _
    cases hland : land s emoji player holder .conquister now rules draws with
    | mk landing landed =>
      simp only [hland] at h
      obtain ⟨rfl, rfl⟩ := Prod.mk.inj h
      have hreset : landing.reset = false := by
        rw [← Bool.not_eq_true]
        intro hreset
        have hthrown := land_reset ((congrArg (·.1.reset) hland).trans hreset)
        exact Bool.false_ne_true (hnuke.symm.trans hthrown)
      have hpassage := land_passage hland
      rw [landingToll, hreset, strike_spared, zero_add] at hpassage
      exact ⟨hpassage, rfl⟩

theorem thenLoseBolts_eq_ok {α : Type} {outcome outcome' : α} {s t : ConquisterState} {now : ℤ}
    (h : thenLoseBolts outcome s now = .ok (outcome', t)) : outcome' = outcome ∧ loseBolts s now = .ok t := by
  rw [thenLoseBolts] at h
  split at h
  · cases h
  · rename_i settled hsettled
    cases h
    exact ⟨rfl, hsettled⟩

/-- Everything that bringing an emoji back to the place can come to: what it was, what is left of the
game, and what it took with it. -/
theorem furnitureBurn_passage {s t : ConquisterState} {player emoji : Str} {now : ℤ} {rules : RaidRules}
    {destroy : Bool} {draws : LandDraws} {result : FurnitureBurnResult}
    (h : furnitureBurn s player emoji now rules destroy draws = .ok (result, t)) :
    (result.status ≠ .burned ∧ t = s) ∨
      (result.status = .burned ∧ destroy = true ∧ ∃ child ∈ s.children,
        looksLike player (slotsOf s player) emoji child = true ∧
        Passage [] s { emoji := -unit emoji, left := {child.self} } t) ∨
      (result.status = .burned ∧ ∃ taken tended, takeEmoji s player emoji = some taken ∧
        Passage [] s ({ emoji := -unit emoji } + { burnToll taken result with tended := tended }) t) := by
  rw [furnitureBurn] at h
  split at h
  · cases h
    exact .inl ⟨nofun, rfl⟩
  · split at h
    · split at h
      · cases h
        exact .inl ⟨nofun, rfl⟩
      · rename_i hnamed
        split at h
        · cases h
          exact .inl ⟨nofun, rfl⟩
        · rename_i hdestroy
          cases h
          exact .inr (.inl ⟨rfl, not_not.mp hdestroy, burnChild_passage (not_not.mp hnamed)⟩)
    · rename_i taken htaken
      have htake := takeEmoji_passage htaken
      refine .inr (.inr ?_)
      split at h
      · obtain ⟨rfl, hbolts⟩ := thenLoseBolts_eq_ok h
        obtain ⟨tended, hcounted⟩ := loseBolts_passage hbolts
        refine ⟨rfl, taken, tended, htaken, htake.trans (hcounted.entered ?_)⟩
        rw [burnToll_of_blown taken rfl, shelf_nil, neg_zero]
      · split at h
        · cases h
          exact ⟨rfl, taken, 0, htaken, htake.trans (.edit [] (.startsOver taken) rfl rfl)⟩
        · rename_i hnuke
          obtain ⟨hresult, hbolts⟩ := thenLoseBolts_eq_ok h
          obtain ⟨hthrown, hreset⟩ := throwAtPlace_passage (Bool.not_eq_true _ ▸ hnuke)
            (Prod.ext hresult.symm rfl)
          obtain ⟨tended, hcounted⟩ := loseBolts_passage hbolts
          refine ⟨?_, taken, tended, htaken, htake.trans ((hthrown.trans hcounted).entered ?_)⟩
          · rw [hresult, throwAtPlace]
            split <;> rfl
          · rw [burnToll_of_blown taken hreset]
            ext <;> simp

end NorelecBot
