import NorelecBot.GrowthPassages

/-! # A ride that arrives, as edits

While the rides are walked, those already settled are still on file. The edits
run over the same game with its rides rewritten: they never look at what else is
on the list.
-/

namespace NorelecBot
open Lib

/-- The same game with other rides under way. -/
def ConquisterState.riding (state : ConquisterState) (raids : List Raid) : ConquisterState :=
  { state with raids := raids }

variable [SlotCodec]

/-- A run of edits that pays no hold, with its palle as entered when nobody owes anything. -/
def Round (s : ConquisterState) (f : Receipt) (t : ConquisterState) : Prop :=
  f.paid = 0 ∧ ∃ palle, Passage [] s { f with palle := palle } t ∧ (Solvent s → palle = f.palle)

namespace Round

variable {s t u : ConquisterState} {f g : Receipt}

theorem of (h : Passage [] s f t) (hpaid : f.paid = 0) : Round s f t := ⟨hpaid, f.palle, h, fun _ => rfl⟩

theorem refl (s : ConquisterState) : Round s 0 s := .of (.refl [] s) rfl

theorem quiet (same : SamePlay s t) : Round s 0 t := .of (.quiet [] same) rfl

theorem trans (h : Round s f t) (hnext : Round t g u) : Round s (f + g) u := by
  obtain ⟨hpaid, palle, hfirst, hpalle⟩ := h
  obtain ⟨hpaid', palle', hrest, hpalle'⟩ := hnext
  refine ⟨by rw [Receipt.paid_add, hpaid, hpaid', add_zero], palle + palle', hfirst.trans hrest, fun hs => ?_⟩
  have hmid := hfirst.solvent_of_unpaid hpaid hs
  rw [hpalle hs, hpalle' hmid, Receipt.palle_add]

theorem entered (h : Round s f t) (hfg : f = g) : Round s g t := hfg ▸ h

/-- Palle that are in order once nobody owes anything. -/
theorem settles (palle : ℤ) {emoji : Str → ℤ} (h : Passage [] s { palle := palle, emoji := emoji } t)
    (hpalle : Solvent s → palle = 0) : Round s { emoji := emoji } t := ⟨rfl, palle, h, hpalle⟩

end Round

section
variable {raids : List Raid} {index : ℕ} {raid : Raid} (h : raids[index]? = some raid)
include h

omit [SlotCodec] in
theorem modify_eq_set (f : Raid → Raid) : raids.modify index f = raids.set index (f raid) := by
  refine List.ext_getElem? fun place => ?_
  rw [List.getElem?_modify, List.getElem?_set]
  obtain ⟨hlt, hget⟩ := List.getElem?_eq_some_iff.mp h
  by_cases heq : index = place
  · subst heq
    simp [hget, hlt]
  · simp [heq]

omit [SlotCodec] in
theorem palleRiding_set (raid' : Raid) : palleRiding (raids.set index raid') =
    palleRiding raids + (raid'.loot + raid'.gift - (raid.loot + raid.gift)) := by
  induction raids generalizing index with
  | nil => cases h
  | cons first raids ih =>
    cases index with
    | zero =>
      cases h
      rw [List.set_cons_zero, palleRiding_cons, palleRiding_cons]
      omega
    | succ index =>
      rw [List.set_cons_succ, palleRiding_cons, palleRiding_cons, ih h, ← add_assoc]

omit [SlotCodec] in
theorem emojiRiding_set (raid' : Raid) : emojiRiding (raids.set index raid') =
    emojiRiding raids + (unit raid'.giftEmoji - unit raid.giftEmoji) := by
  induction raids generalizing index with
  | nil => cases h
  | cons first raids ih =>
    cases index with
    | zero =>
      cases h
      rw [List.set_cons_zero, emojiRiding_cons, emojiRiding_cons]
      funext kind
      simp only [Pi.add_apply, Pi.sub_apply]
      omega
    | succ index =>
      rw [List.set_cons_succ, emojiRiding_cons, emojiRiding_cons, ih h, ← add_assoc]

omit [SlotCodec] in
theorem set_rewritten {raid' : Raid} (hsame : raid.Rewritten raid') :
    List.Forall₂ Raid.Rewritten raids (raids.set index raid') := by
  have hrefl (raids : List Raid) : List.Forall₂ Raid.Rewritten raids raids :=
    List.forall₂_same.mpr fun _ _ => ⟨rfl, rfl, .inl rfl⟩
  induction raids generalizing index with
  | nil => cases h
  | cons first raids ih =>
    cases index with
    | zero =>
      cases h
      exact .cons hsame (hrefl raids)
    | succ index => exact .cons ⟨rfl, rfl, .inl rfl⟩ (ih h)

end

omit [SlotCodec] in
theorem set_all {P : Raid → Prop} {raids : List Raid} (h : ∀ raid ∈ raids, P raid) {raid' : Raid}
    (hraid : P raid') (index : ℕ) : ∀ raid ∈ raids.set index raid', P raid := fun raid hmem =>
  (List.mem_or_eq_of_mem_set hmem).elim (h raid) fun heq => heq ▸ hraid

/-- The ride at an index has become another one. -/
theorem becomes_passage (s : ConquisterState) {raids : List Raid} {index : ℕ} {raid : Raid}
    (h : raids[index]? = some raid) (raid' : Raid) (hsame : raid.Rewritten raid')
    (horderly : Solvent (s.riding raids) → raid'.Orderly)
    (hsingle : Solvent (s.riding raids) → raid.Single → raid'.Single) :
    Passage [] (s.riding raids)
      { palle := raid'.loot + raid'.gift - (raid.loot + raid.gift)
        emoji := unit raid'.giftEmoji - unit raid.giftEmoji } (s.riding (raids.set index raid')) := by
  refine (Passage.edit [] (.rides (s.riding raids) _ (set_rewritten h hsame)
    (fun hs => set_all hs.rides (horderly hs) index)
    fun hs hone => set_all hone (hsingle hs (hone raid (List.mem_of_getElem? h))) index) rfl rfl).entered ?_
  change Receipt.mk (palleRiding (raids.set index raid') - palleRiding raids)
    (emojiRiding (raids.set index raid') - emojiRiding raids) 0 0 0 0 0 = _
  rw [palleRiding_set h, emojiRiding_set h, add_sub_cancel_left, add_sub_cancel_left]

omit [SlotCodec] in
/-- A share in percent is no more than all. -/
theorem share_bounds {amount share : ℤ} (hamount : 0 ≤ amount) (hpos : 0 ≤ share) (hle : share ≤ 100) :
    0 ≤ (amount * share).tdiv 100 ∧ (amount * share).tdiv 100 ≤ amount := by
  have hprod := mul_nonneg hamount hpos
  refine ⟨Int.tdiv_nonneg hprod (by norm_num), ?_⟩
  rw [Int.tdiv_eq_ediv_of_nonneg hprod]
  exact Int.ediv_le_of_le_mul (by omega) (mul_le_mul_of_nonneg_left hle hamount)

omit [SlotCodec] in
theorem saltPaid_bounds (s : ConquisterState) (raider : Str) {share : ℤ} (hpos : 0 ≤ share) (hle : share ≤ 100) :
    0 ≤ saltPaid s raider share ∧ saltPaid s raider share ≤ max (counter s.scores raider) 0 :=
  share_bounds (le_max_right _ _) hpos hle

/-- The 🧂 move palle from one to the other. -/
theorem payTo_passage (s : ConquisterState) (raider target : Str) {paid : ℤ}
    (hpaid : 0 ≤ paid ∧ paid ≤ max (counter s.scores raider) 0) :
    Passage [] s { palle := max (counter s.scores raider) 0 - counter s.scores raider }
      { s with scores := payTo s.scores raider target (max (counter s.scores raider) 0) paid } := by
  have hhis := Passage.score [] s raider (max (counter s.scores raider) 0 - paid) fun _ => sub_nonneg.mpr hpaid.2
  let poorer : ConquisterState :=
    { s with scores := s.scores.set raider (max (counter s.scores raider) 0 - paid) }
  have htheirs := Passage.score [] poorer target (counter poorer.scores target + paid)
    fun hs => add_nonneg (hs.scores target) hpaid.1
  refine (hhis.trans htheirs).entered ?_
  ext
  · simp only [Receipt.palle_add]
    omega
  all_goals simp

theorem salt_round (s : ConquisterState) (raids : List Raid) (raider target : Str) (now : ℤ) (rules : RaidRules) :
    Round (s.riding raids) 0 ((salt s raider target now rules).2.riding raids) := by
  simp only [salt]
  split
  · exact .quiet ⟨rfl, rfl, rfl, rfl, rfl, rfl⟩
  · rename_i hshare
    obtain ⟨hshare, -⟩ := not_or.mp hshare
    have hbounds := saltPaid_bounds s raider (not_le.mp hshare).le (upToAll_le _ _)
    have hpaid := payTo_passage (s.riding raids) raider target hbounds
    have hsettled := Round.settles _ hpaid fun hs => by
      rw [max_eq_left (hs.scores raider), sub_self]
    refine (hsettled.trans (.quiet ?_)).entered (add_zero _)
    exact ⟨rfl, rfl, rfl, rfl, rfl, rfl⟩

theorem salt_raids (s : ConquisterState) (raider target : Str) (now : ℤ) (rules : RaidRules) :
    (salt s raider target now rules).2.raids = s.raids := by
  simp only [salt]
  split <;> rfl

/-- An explosion looks at none of the rides. -/
theorem blowUp_riding (s : ConquisterState) (raids : List Raid) (target : Str) (onHim : Bool) (draw : ℕ) :
    blowUp (s.riding raids) target onHim draw =
      ((blowUp s target onHim draw).1, (blowUp s target onHim draw).2.riding raids) := by
  have hgear : gearOf (s.riding raids) target = gearOf s target := rfl
  have hhouse : slotsOf (s.riding raids) target = slotsOf s target := rfl
  simp only [blowUp, hgear, hhouse]
  split_ifs <;> rfl

theorem blowUp_raids (s : ConquisterState) (target : Str) (onHim : Bool) (draw : ℕ) :
    (blowUp s target onHim draw).2.raids = s.raids := by
  rcases blowUp_eq (Prod.mk.eta (p := blowUp s target onHim draw)).symm with
    ⟨-, hsame⟩ | ⟨slot, -, -, -, hafter⟩
  · rw [hsame]
  · rw [hafter]
    cases onHim <;> rfl

theorem jaws_round (s : ConquisterState) (raids : List Raid) (raider target : Str) (rules : RaidRules)
    (draws : RaidDraws) :
    Round (s.riding raids) { emoji := -shelf (jaws s raider target rules draws).1 }
      ((jaws s raider target rules draws).2.riding raids) ∧
      (jaws s raider target rules draws).2.raids = s.raids ∧
      (jaws s raider target rules draws).1.length ≤ 1 := by
  simp only [jaws]
  split
  · refine ⟨.of (blowUp_passage (blowUp_riding s raids raider true draws.eaten)) rfl, blowUp_raids _ _ _ _, ?_⟩
    rcases blowUp_eq (Prod.mk.eta (p := blowUp s raider true draws.eaten)).symm with
      ⟨hnone, -⟩ | ⟨slot, -, -, hone, -⟩
    · rw [hnone]
      exact Nat.zero_le 1
    · rw [hone]
      exact le_rfl
  · exact ⟨(Round.refl _).entered (by rw [shelf_nil, neg_zero, Receipt.mk_zero]), rfl, Nat.zero_le 1⟩

theorem atTheDoor_round (s : ConquisterState) (raids : List Raid) (raid : Raid) (event : RaidEvent) (now : ℤ)
    (rules : RaidRules) (draws : RaidDraws) (heaten : event.eaten = []) :
    Round (s.riding raids) { emoji := -unit (atTheDoor s raid event now rules draws).1.eaten }
      ((atTheDoor s raid event now rules draws).2.riding raids) ∧
      (atTheDoor s raid event now rules draws).2.raids = s.raids ∧
      (atTheDoor s raid event now rules draws).1.kind = event.kind ∧
      (atTheDoor s raid event now rules draws).1.reset = event.reset := by
  have hsalt := salt_round s raids raid.raider raid.target now rules
  obtain ⟨hjaws, hraids, hone⟩ := jaws_round (salt s raid.raider raid.target now rules).2 raids raid.raider
    raid.target rules draws
  rw [salt_raids] at hraids
  simp only [atTheDoor]
  split
  · rename_i hnone
    rw [hnone] at hjaws
    refine ⟨(hsalt.trans hjaws).entered ?_, hraids, rfl, rfl⟩
    rw [heaten, zero_add, shelf_nil, unit_nil]
  · rename_i emoji others hsome
    rw [hsome] at hjaws hone
    have hlast : others = [] := List.length_eq_zero_iff.mp (by simpa using hone)
    refine ⟨(hsalt.trans hjaws).entered ?_, hraids, rfl, rfl⟩
    rw [hlast, zero_add]
    simp [shelf]

/-- A ride that came to rob takes an amount there is off its target. -/
theorem robbed_round (s : ConquisterState) {raids : List Raid} {index : ℕ} {raid : Raid}
    (h : raids[index]? = some raid) (hfresh : raid.arrived = false)
    (hrob : raid.gift ≤ 0 ∧ raid.giftEmoji = []) (target : Str) {amount : ℤ}
    (hnonneg : 0 ≤ counter s.scores target → 0 ≤ amount ∧ amount ≤ counter s.scores target) :
    Round (s.riding raids) 0
      ((if amount > 0 then
        { s with scores := s.scores.set target (counter s.scores target - amount) } else s).riding
          (raids.set index (raid.reached.withLoot amount))) := by
  have horder (hs : Solvent (s.riding raids)) : raid.Orderly := hs.rides raid (List.mem_of_getElem? h)
  have hloot (hs : Solvent (s.riding raids)) : raid.loot = 0 := (horder hs).before hfresh
  have hride := becomes_passage s h (raid.reached.withLoot amount) ⟨rfl, rfl, .inl rfl⟩
    (fun hs => ⟨(hnonneg (hs.scores target)).1, (horder hs).gift, nofun⟩)
    fun hs _ => .inr ⟨le_antisymm hrob.1 (horder hs).gift, hrob.2⟩
  have hemoji : unit (raid.reached.withLoot amount).giftEmoji - unit raid.giftEmoji = 0 := sub_self _
  have hpalle : (raid.reached.withLoot amount).loot + (raid.reached.withLoot amount).gift -
      (raid.loot + raid.gift) = amount - raid.loot := by
    change amount + raid.gift - (raid.loot + raid.gift) = _
    omega
  rw [hemoji, hpalle] at hride
  split
  · have hscore := Passage.score [] (s.riding (raids.set index (raid.reached.withLoot amount)))
      target (counter s.scores target - amount)
      fun hs => sub_nonneg.mpr (hnonneg (hs.scores target)).2
    have hboth := hride.trans hscore
    refine Round.settles (-raid.loot) (hboth.entered ?_) fun hs => by rw [hloot hs, neg_zero]
    ext
    · change amount - raid.loot + (counter s.scores target - amount - counter s.scores target) = -raid.loot
      omega
    all_goals simp
  · refine Round.settles _ hride fun hs => ?_
    have hamount := (hnonneg (hs.scores target)).1
    rw [hloot hs]
    omega

/-- Everything boarding can come to. -/
theorem board_cases (s : ConquisterState) (raid : Raid) (rules : RaidRules) (draws : RaidDraws) :
    (board s raid rules draws).2 = s ∨
      ∃ taken, slotAt (slotsOf s raid.target) taken ≠ [] ∧ isChild s raid.target taken = false ∧
        ∃ place, freeSlot (gearOf s raid.raider) carriedLimit = some place ∧
          (board s raid rules draws).2 =
            hangGear (hang s raid.target ((slotsOf s raid.target).set taken [])) raid.raider
              (fillSlot (gearOf s raid.raider) place (slotAt (slotsOf s raid.target) taken)) := by
  rw [board]
  dsimp only
  split
  · exact .inl rfl
  · rename_i hboards
    split
    · exact .inl rfl
    · rename_i hthere
      obtain ⟨-, htest⟩ := mem_slotsWhere (drawn_mem hthere draws.boarded)
      obtain ⟨-, hboards⟩ := not_or.mp hboards
      obtain ⟨-, hroom⟩ := not_or.mp hboards
      obtain ⟨place, hplace⟩ := Option.ne_none_iff_exists'.mp (by simpa using hroom)
      simp only [Bool.and_eq_true, Bool.not_eq_true', decide_eq_true_eq] at htest
      refine .inr ⟨_, htest.1.1, htest.1.2, place, hplace, ?_⟩
      rw [putOn, putIn, gearOf_hang, hplace]
      rfl

theorem board_round (s : ConquisterState) (raids : List Raid) (raid : Raid) (rules : RaidRules)
    (draws : RaidDraws) :
    Round (s.riding raids) 0 ((board s raid rules draws).2.riding raids) ∧
      (board s raid rules draws).2.raids = s.raids := by
  rcases board_cases s raid rules draws with hsame | ⟨taken, hfilled, hkid, place, hplace, hafter⟩
  · rw [hsame]
    exact ⟨.refl _, rfl⟩
  · obtain ⟨hfits, hempty⟩ := freeSlot_eq_some hplace
    have hworn := (fill_gear (s.riding raids) raid.raider (slotAt (slotsOf s raid.target) taken) hempty
      hfits).unvouched (fun P _ hs emoji hemoji hne => by
        rw [List.mem_singleton.mp hemoji] at hne ⊢
        exact (hs.house raid.target).slotAt hne) []
    have hleft := clear_house (hangGear (s.riding raids) raid.raider (fillSlot (gearOf s raid.raider) place
      (slotAt (slotsOf s raid.target) taken))) raid.target hfilled hkid []
    rw [hafter]
    refine ⟨.of ((hworn.trans hleft).entered ?_) rfl, rfl⟩
    ext <;> simp
    exact add_neg_cancel _

/-- Somebody is never robbed of more than he has. -/
theorem loot_bounds [Clock] (s : ConquisterState) (raid : Raid) (event : RaidEvent) {distance : ℤ} (now : ℤ)
    (rules : RaidRules) (hdistance : 0 ≤ distance) (htheirs : 0 ≤ counter s.scores raid.target) :
    0 ≤ (loot s raid event distance now rules).loot ∧
      (loot s raid event distance now rules).loot ≤ counter s.scores raid.target := by
  have hwalked : 0 ≤ (if rules.lootDivisor > 0 then distance.tdiv rules.lootDivisor else distance) := by
    split
    · exact Int.tdiv_nonneg hdistance (by omega)
    · exact hdistance
  have hpleaded := upToAll_nonneg (countPower_nonneg (slotsOf s raid.target) .pleading) rules.pleadingPercent
  have hpleaded' := upToAll_le (houseCopies s raid.target .pleading) rules.pleadingPercent
  simp only [loot]
  generalize (if rules.lootDivisor > 0 then distance.tdiv rules.lootDivisor else distance) = walked at hwalked ⊢
  have hcarried : 0 ≤ (walked * dayPercent).tdiv dayPercent *
      (if (decide (0 ≤ rules.goldenHour) && decide (Clock.localHour now = rules.goldenHour)) = true
        then 2 else 1) := by
    refine mul_nonneg (Int.tdiv_nonneg (mul_nonneg hwalked (by decide)) (by decide)) ?_
    split <;> norm_num
  generalize ((walked * dayPercent).tdiv dayPercent * _ : ℤ) = carried at hcarried ⊢
  have htaken : 0 ≤ min (counter s.scores raid.target) carried := le_min htheirs hcarried
  have hspared := share_bounds htaken hpleaded hpleaded'
  have hmost : min (counter s.scores raid.target) carried ≤ counter s.scores raid.target := min_le_left _ _
  exact ⟨sub_nonneg.mpr hspared.2, (sub_le_self _ hspared.1).trans hmost⟩

/-- What the event of a robbery keeps of the one it started from. -/
structure RaidEvent.Robbing (event outcome : RaidEvent) : Prop where
  kind : outcome.kind = event.kind
  eaten : outcome.eaten = event.eaten
  reset : outcome.reset = event.reset

omit [SlotCodec] in
theorem takeLoot_eq (s : ConquisterState) (index : ℕ) (target : Str) (amount : ℤ) (raids : List Raid) :
    (takeLoot s index target amount).raids = s.raids.modify index (·.withLoot amount) ∧
      (takeLoot s index target amount).riding raids =
        (if amount > 0 then
          { s with scores := s.scores.set target (counter s.scores target - amount) } else s).riding raids := by
  rw [takeLoot]
  split <;> exact ⟨rfl, rfl⟩

theorem rob_round [Clock] {s t : ConquisterState} {raids : List Raid} {index : ℕ} {raid : Raid}
    {event outcome : RaidEvent} {now : ℤ} {rules : RaidRules} {draws : RaidDraws}
    (hride : raids[index]? = some raid) (hfresh : raid.arrived = false)
    (hrob : raid.gift ≤ 0 ∧ raid.giftEmoji = [])
    (h : rob s index raid event now rules draws = .ok (outcome, t)) :
    ∃ amount, t.raids = s.raids.modify index (·.withLoot amount) ∧ event.Robbing outcome ∧
      Round (s.riding raids) 0 (t.riding (raids.set index (raid.reached.withLoot amount))) := by
  rw [rob] at h
  split at h
  · cases h
  · rename_i settled hsettled
    split at h
    · cases h
    · rename_i mapped hmapped
      obtain ⟨ids, rfl⟩ := playerId_eq_ok hsettled
      obtain ⟨ids', rfl⟩ := playerId_eq_ok hmapped
      dsimp only at h
      generalize hcoming : ({ event with undefended := _ } : RaidEvent) = coming at h
      generalize hlooted : loot { s with ids := ids' } raid coming _ now rules = looted at h
      have hnonneg : 0 ≤ counter s.scores raid.target →
          0 ≤ looted.loot ∧ looted.loot ≤ counter s.scores raid.target := fun htheirs =>
        hlooted ▸ loot_bounds { s with ids := ids' } raid coming now rules (Int.natCast_nonneg _) htheirs
      obtain ⟨htaken, hriding⟩ := takeLoot_eq { s with ids := ids' } index raid.target looted.loot
        (raids.set index (raid.reached.withLoot looted.loot))
      have hrobbed := robbed_round { s with ids := ids' } hride hfresh hrob raid.target hnonneg
      rw [← hriding] at hrobbed
      obtain ⟨hboarded, hraids⟩ := board_round (takeLoot { s with ids := ids' } index raid.target looted.loot)
        (raids.set index (raid.reached.withLoot looted.loot)) raid rules draws
      obtain ⟨houtcome, rfl⟩ := Prod.mk.inj (Except.ok.inj h)
      have hquiet : SamePlay (s.riding raids) (ConquisterState.riding { s with ids := ids' } raids) :=
        ⟨rfl, rfl, rfl, rfl, rfl, rfl⟩
      refine ⟨looted.loot, hraids.trans htaken, ?_, ?_⟩
      · rw [← houtcome, ← hlooted, ← hcoming]
        split <;> exact ⟨rfl, rfl, rfl⟩
      · exact (((Round.quiet hquiet).trans hrobbed).trans hboarded).entered (by simp)

omit [SlotCodec] in
theorem SamePlay.riding {s t : ConquisterState} (same : SamePlay s t) (raids : List Raid) :
    SamePlay (s.riding raids) (t.riding raids) :=
  ⟨same.scores, rfl, same.hold, same.furniture, same.equipped, same.children⟩

theorem defendedAtHome_quiet (s : ConquisterState) (target : Str) (event : RaidEvent) (now : ℤ) (draw : ℕ) :
    SamePlay s (defendedAtHome s target event now draw).2.2 ∧
      event.Robbing (defendedAtHome s target event now draw).2.1 := by
  have hquiet := (balloonAttempt_quiet s target .home now draw).1
  rw [defendedAtHome]
  split <;> rename_i after hattempt <;> rw [hattempt] at hquiet <;> exact ⟨hquiet, ⟨rfl, rfl, rfl⟩⟩

/-- Whoever is kept out takes nothing home. -/
theorem keptOut_round {s : ConquisterState} {raids : List Raid} {index : ℕ} {raid : Raid}
    (hride : raids[index]? = some raid) (hfresh : raid.arrived = false)
    (hrob : raid.gift ≤ 0 ∧ raid.giftEmoji = []) :
    Round (s.riding raids) 0 (s.riding (raids.set index (raid.reached.withLoot 0))) := by
  have hrobbed := robbed_round s hride hfresh hrob raid.target fun htheirs => ⟨le_rfl, htheirs⟩
  rwa [if_neg (lt_irrefl 0)] at hrobbed

theorem raidHouse_round [Clock] {s t : ConquisterState} {raids : List Raid} {index : ℕ} {raid : Raid}
    {event outcome : RaidEvent} {now : ℤ} {rules : RaidRules} {draws : RaidDraws}
    (hride : raids[index]? = some raid) (hfresh : raid.arrived = false)
    (hrob : raid.gift ≤ 0 ∧ raid.giftEmoji = [])
    (h : raidHouse s index raid event now rules draws = .ok (outcome, t)) :
    ∃ amount, t.raids = s.raids.modify index (·.withLoot amount) ∧ event.Robbing outcome ∧
      Round (s.riding raids) 0 (t.riding (raids.set index (raid.reached.withLoot amount))) := by
  rw [raidHouse] at h
  dsimp only at h
  generalize hstealth : sneaks s raid now rules draws.stealth = stealth at h
  generalize hguarded : (if stealth.1 = true then
    (false, { event with sneaked := stealth.1, alarmed := stealth.2 }, s)
    else defendedAtHome s raid.target { event with sneaked := stealth.1, alarmed := stealth.2 } now
      draws.balloon) = guarded at h
  obtain ⟨hquiet, hevent⟩ : SamePlay s guarded.2.2 ∧ event.Robbing guarded.2.1 := by
    rw [← hguarded]
    split
    · exact ⟨.refl s, ⟨rfl, rfl, rfl⟩⟩
    · obtain ⟨hquiet, hrobbing⟩ := defendedAtHome_quiet s raid.target
        { event with sneaked := stealth.1, alarmed := stealth.2 } now draws.balloon
      exact ⟨hquiet, ⟨hrobbing.kind, hrobbing.eaten, hrobbing.reset⟩⟩
  have hmet := Round.quiet (hquiet.riding raids)
  split at h
  · obtain ⟨rfl, rfl⟩ := Prod.mk.inj (Except.ok.inj h)
    refine ⟨0, by rw [← hquiet.raids]; rfl, hevent, ?_⟩
    exact (hmet.trans (keptOut_round hride hfresh hrob)).entered (add_zero _)
  · generalize (if stealth.1 = true then (0 : ℤ)
      else upToAll (houseCopies guarded.2.2 raid.target .dog) rules.dogPercent) = chance at h
    split at h
    · obtain ⟨rfl, rfl⟩ := Prod.mk.inj (Except.ok.inj h)
      refine ⟨0, by rw [← hquiet.raids]; rfl, ⟨hevent.kind, hevent.eaten, hevent.reset⟩, ?_⟩
      exact (hmet.trans (keptOut_round hride hfresh hrob)).entered (add_zero _)
    · obtain ⟨amount, hraids, hrobbing, hrobbed⟩ := rob_round hride hfresh hrob h
      refine ⟨amount, by rw [hraids, hquiet.raids], ⟨hrobbing.kind.trans hevent.kind,
        hrobbing.eaten.trans hevent.eaten, hrobbing.reset.trans hevent.reset⟩, ?_⟩
      exact (hmet.trans hrobbed).entered (add_zero _)

end NorelecBot
