import NorelecBot.HousePassages

/-! # Being seen, and two accounts becoming one player, as edits -/

namespace NorelecBot
open Lib

variable [SlotCodec]

theorem hangBalloon_isSome (s : ConquisterState) (player : Str) (limit : ℕ) :
    (hangBalloon s player limit).isSome = (limit ≠ 0 && ((freeSlot (gearOf s player) carriedLimit).isSome ||
      (freeSlot (slotsOf s player) limit).isSome)) := by
  rw [hangBalloon, putOn, putIn]
  by_cases hlimit : limit = 0
  · simp [hlimit]
  · rw [if_neg hlimit]
    cases hgear : freeSlot (gearOf s player) carriedLimit with
    | some slot => simp [hlimit]
    | none => simp [hlimit, putInHouse, putIn]

/-- Whether somebody is handed a 🎈 is decided by whether he was welcomed, his house and his gear. -/
theorem handsBalloon_congr {s t : ConquisterState} {player : Str}
    (hwelcomed : counter t.welcomed player = counter s.welcomed player)
    (hhouse : slotsOf t player = slotsOf s player) (hgear : gearOf t player = gearOf s player) (limit : ℕ) :
    handsBalloon t player limit = handsBalloon s player limit := by
  have hslots (u : ConquisterState) : slotsOf (markWelcomed u player) player = slotsOf u player := rfl
  have hgears (u : ConquisterState) : gearOf (markWelcomed u player) player = gearOf u player := rfl
  rw [handsBalloon, handsBalloon, hangBalloon_isSome, hangBalloon_isSome, hasBalloon, hasBalloon]
  simp only [hslots, hgears, hhouse, hgear, hwelcomed]

omit [SlotCodec] in
theorem rememberPlatform_quiet (s : ConquisterState) (username : Str) (userId : ℤ) :
    SamePlay s (rememberPlatform s username userId) := by
  rw [rememberPlatform, rememberIrc, rememberTelegram]
  split_ifs <;> exact ⟨rfl, rfl, rfl, rfl, rfl, rfl⟩

omit [SlotCodec] in
theorem introduce_quiet (s : ConquisterState) (userId : ℤ) (username accountName : Str) (now : ℤ) :
    SamePlay s (introduce s userId username accountName now) ∧
      (introduce s userId username accountName now).welcomed = s.welcomed := by
  simp only [introduce, join, rememberPlatform, rememberIrc, rememberTelegram, showName, takeName, bindAccount]
  split_ifs <;> exact ⟨⟨rfl, rfl, rfl, rfl, rfl, rfl⟩, rfl⟩

theorem playerSeen_passage [Clock] (s : ConquisterState) (userId : ℤ) (username accountName : Str)
    (limit : ℕ) (now : ℤ) :
    Passage [] s
      { emoji := if handsBalloon s (keyFor s userId username accountName) limit then
          unit Power.balloon.emoji else 0 }
      (playerSeen s userId username accountName limit now).2 := by
  obtain ⟨hquiet, hwelcomed⟩ := introduce_quiet s userId username accountName now
  have hhands : handsBalloon (introduce s userId username accountName now)
      (keyFor s userId username accountName) limit =
      handsBalloon s (keyFor s userId username accountName) limit :=
    handsBalloon_congr (by rw [hwelcomed]) (by rw [slotsOf, slotsOf, hquiet.furniture])
      (by rw [gearOf, gearOf, hquiet.equipped]) limit
  have hwelcome := welcome_passage (introduce s userId username accountName now)
    (keyFor s userId username accountName) limit
  rw [hhands] at hwelcome
  have hcounted (t : ConquisterState) (key : Str) : Passage [] t 0 (countDay t key now) := by
    refine .quiet [] ?_
    rw [countDay]
    split <;> exact ⟨rfl, rfl, rfl, rfl, rfl, rfl⟩
  exact (((Passage.quiet [] hquiet).trans hwelcome).trans (hcounted _ _)).entered
    ((add_zero _).trans (zero_add _))

theorem welcome_others {s : ConquisterState} {player other : Str} {limit : ℕ} (h : other ≠ player) :
    counter (welcome s player limit).welcomed other = counter s.welcomed other ∧
      slotsOf (welcome s player limit) other = slotsOf s other ∧
      gearOf (welcome s player limit) other = gearOf s other := by
  have hmark : counter (markWelcomed s player).welcomed other = counter s.welcomed other := by
    rw [markWelcomed, counter_set, if_neg h]
  have hput (t : ConquisterState) (ht : hangBalloon (markWelcomed s player) player limit = some t) :
      counter t.welcomed other = counter s.welcomed other ∧ slotsOf t other = slotsOf s other ∧
        gearOf t other = gearOf s other := by
    rw [hangBalloon] at ht
    split at ht
    · cases ht
    · split at ht
      · rename_i worn hworn
        cases ht
        rw [putOn, Option.map_eq_some_iff] at hworn
        obtain ⟨slots, -, rfl⟩ := hworn
        exact ⟨hmark, rfl, by rw [gearOf_hangGear, if_neg h]; rfl⟩
      · rw [putInHouse, Option.map_eq_some_iff] at ht
        obtain ⟨slots, -, rfl⟩ := ht
        exact ⟨hmark, by rw [slotsOf_hang, if_neg h]; rfl, rfl⟩
  rw [welcome]
  split
  · exact ⟨rfl, rfl, rfl⟩
  · split
    · exact ⟨hmark, rfl, rfl⟩
    · cases hhang : hangBalloon (markWelcomed s player) player limit with
      | none => exact ⟨hmark, rfl, rfl⟩
      | some t => exact hput t hhang

theorem welcomeAll_passage (players : List Str) (hnodup : players.Nodup) (s : ConquisterState) (limit : ℕ) :
    Passage [] s
      { emoji := players.countP (handsBalloon s · limit) • unit Power.balloon.emoji }
      (players.foldl (fun known player => welcome known player limit) s) := by
  induction players generalizing s with
  | nil => exact (Passage.refl [] s).entered (by rw [List.countP_nil, zero_nsmul, Receipt.mk_zero])
  | cons player players ih =>
    rw [List.nodup_cons] at hnodup
    have hsame : players.countP (handsBalloon (welcome s player limit) · limit) =
        players.countP (handsBalloon s · limit) := by
      refine List.countP_congr fun other hother => ?_
      have hne : other ≠ player := fun heq => hnodup.1 (heq ▸ hother)
      obtain ⟨hwelcomed, hhouse, hgear⟩ := welcome_others hne
      rw [handsBalloon_congr hwelcomed hhouse hgear]
    have hrun := (welcome_passage s player limit).trans (ih hnodup.2 (welcome s player limit))
    rw [hsame] at hrun
    rw [List.foldl_cons]
    refine hrun.entered ?_
    rw [List.countP_cons, add_nsmul, add_comm (_ • _)]
    split
    · rw [one_nsmul]
      simp [Receipt.ext_iff]
    · simp

theorem balloonsHandOut_passage (s : ConquisterState) (limit : ℕ) :
    Passage [] s
      { emoji := (knownPlayers s).countP (handsBalloon s · limit) • unit Power.balloon.emoji }
      (balloonsHandOut s limit) :=
  welcomeAll_passage (knownPlayers s) (firstOf_nodup _) s limit

omit [SlotCodec] in
theorem shelf_filter (slots : List Str) : shelf (slots.filter (· ≠ [])) = shelf slots := by
  induction slots with
  | nil => rfl
  | cons slot slots ih =>
    by_cases h : slot = []
    · rw [List.filter_cons_of_neg (by simpa using h), ih, h]
      exact (zero_add _).symm
    · rw [List.filter_cons_of_pos (by simpa using h)]
      exact congrArg (unit slot + ·) ih

theorem shelf_owned (s : ConquisterState) (player : Str) :
    shelf (owned s player) = shelf (slotsOf s player) + shelf (gearOf s player) := by
  rw [owned, shelf_filter]
  exact shelfSum_append unit _ _

/-- Whoever has nothing worth keeping has nothing but the welcome 🎈. -/
theorem owned_of_noAssets {s : ConquisterState} {key : Str} (h : hasAssets s key = false) :
    counter s.scores key ≤ 0 ∧
      (owned s key = [] ∨ ∃ one, owned s key = [one] ∧ isPower one .balloon = true) := by
  simp only [hasAssets, Bool.or_eq_false_iff, decide_eq_false_iff_not, not_lt] at h
  refine ⟨h.1.1.1.1.1, ?_⟩
  have howned := h.1.1.2
  match hlist : owned s key with
  | [] => exact .inl rfl
  | [one] => exact .inr ⟨one, rfl, by simpa [hlist, onlyTheWelcome] using howned⟩
  | one :: two :: rest => simp [hlist, onlyTheWelcome] at howned

omit [SlotCodec] in
theorem ageEmoji_not_balloon {male : Bool} {emoji : Str} (h : emoji ∈ ageEmoji male) :
    isPower emoji .balloon = false := by
  revert emoji
  cases male <;> decide

/-- Nobody merged in has a child. -/
theorem childless_of_noAssets {s : ConquisterState} {key : Str} (h : hasAssets s key = false) :
    ∀ child ∈ s.children, child.owner = key →
      slotAt (slotsOf s key) child.slot.toNat ∉ ageEmoji child.male := by
  rintro child - rfl hage
  have hmem : slotAt (slotsOf s child.owner) child.slot.toNat ∈ owned s child.owner := by
    rw [owned, List.mem_filter]
    exact ⟨List.mem_append_left _ (slotAt_mem (ageEmoji_ne_nil hage)), by simpa using ageEmoji_ne_nil hage⟩
  rcases (owned_of_noAssets h).2 with hnil | ⟨one, hone, hballoon⟩
  · rw [hnil] at hmem
    cases hmem
  · rw [hone, List.mem_singleton] at hmem
    rw [← hmem, ageEmoji_not_balloon hage] at hballoon
    cases hballoon

theorem merge_passage {s : ConquisterState} {secondary : Str} (h : hasAssets s secondary = false)
    (mine theirs primary : Str) :
    Passage [] s { palle := -counter s.scores secondary, emoji := -shelf (owned s secondary) }
      (merge s mine theirs secondary primary) := by
  have hchildless := childless_of_noAssets h
  have hscore : Passage [] s { palle := -counter s.scores secondary }
      { s with scores := s.scores.erase secondary } := .edit [] (.forget s secondary) rfl rfl
  have hhouse : Passage [] { s with scores := s.scores.erase secondary }
      { emoji := -shelf (slotsOf s secondary) }
      { s with scores := s.scores.erase secondary, furniture := s.furniture.erase secondary } :=
    .edit [] (.unhouse _ secondary hchildless) rfl rfl
  have hgear : Passage []
      { s with scores := s.scores.erase secondary, furniture := s.furniture.erase secondary }
      { emoji := -shelf (gearOf s secondary) }
      { s with
        scores := s.scores.erase secondary
        furniture := s.furniture.erase secondary
        equipped := s.equipped.erase secondary } := .edit [] (.ungear _ secondary) rfl rfl
  have hrest : SamePlay
      { s with
        scores := s.scores.erase secondary
        furniture := s.furniture.erase secondary
        equipped := s.equipped.erase secondary } (merge s mine theirs secondary primary) :=
    ⟨rfl, rfl, rfl, rfl, rfl, rfl⟩
  refine (((hscore.trans hhouse).trans hgear).trans (.quiet [] hrest)).entered ?_
  rw [shelf_owned, neg_add]
  ext <;> simp

/-- Linking leaves everything as it is, but for somebody with nothing worth keeping who is merged in. -/
theorem playerLink_passage {s t : ConquisterState} {userId : ℤ} {username otherName accountName : Str}
    {status : LinkStatus} (h : playerLink s userId username otherName accountName = .ok (status, t)) :
    Passage [] s 0 t ∨ ∃ secondary, status = .linked ∧ hasAssets s secondary = false ∧
      Passage [] s { palle := -counter s.scores secondary, emoji := -shelf (owned s secondary) } t := by
  simp only [playerLink] at h
  split at h
  · cases h
    exact .inl (.refl [] _)
  · split at h
    · cases h
      exact .inl (.refl [] _)
    · split at h
      · split at h
        · cases h
          exact .inl (.refl [] _)
        · split at h
          · cases h
            exact .inl (.quiet [] ⟨rfl, rfl, rfl, rfl, rfl, rfl⟩)
          · have hboth := Except.ok.inj h
            rw [linkBoth] at hboth
            split at hboth
            · cases hboth
              exact .inl (.refl [] _)
            · split at hboth
              · cases hboth
                exact .inl (.refl [] _)
              · rename_i hassets
                split at hboth
                · rename_i hother
                  cases hboth
                  exact .inr ⟨_, rfl, by simpa [hother] using hassets, merge_passage (by simpa [hother] using hassets) _ _ _⟩
                · rename_i hother
                  cases hboth
                  exact .inr ⟨_, rfl, by simpa using hother, merge_passage (by simpa using hother) _ _ _⟩
      · cases h

end NorelecBot
