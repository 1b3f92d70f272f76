import NorelecBot.Runs

/-! # What an operation leaves alone

The register says who is who and since when: only being seen and being linked
write in it. Only setting off, the keeper's round and a ☢️ touch the rides.
-/

namespace NorelecBot
open Lib

/-- Accounts, names, link requests, where everybody plays and when he first showed up. -/
structure Register where
  accounts : Authors
  displayNames : Authors
  telegramNames : Authors
  ircNicks : Authors
  linkRequests : Authors
  telegramIds : Counters
  ircNames : Counters
  joined : Counters

def register (state : ConquisterState) : Register where
  accounts := state.accounts
  displayNames := state.displayNames
  telegramNames := state.telegramNames
  ircNicks := state.ircNicks
  linkRequests := state.linkRequests
  telegramIds := state.telegramIds
  ircNames := state.ircNames
  joined := state.joined

structure Ledgers where
  quotesAdded : Counters
  quoteAuthors : Authors
  invitedBy : Authors
  inviteDays : Counters
  inviteLastDay : Counters
  invitePaid : Counters

def ledgers (state : ConquisterState) : Ledgers where
  quotesAdded := state.quotesAdded
  quoteAuthors := state.quoteAuthors
  invitedBy := state.invitedBy
  inviteDays := state.inviteDays
  inviteLastDay := state.inviteLastDay
  invitePaid := state.invitePaid

/-- Neither the register nor the rides are touched. -/
structure Aside (s t : ConquisterState) : Prop where
  register : register t = register s
  raids : t.raids = s.raids

namespace Aside
variable {s t u : ConquisterState}

theorem refl (s : ConquisterState) : Aside s s := ⟨rfl, rfl⟩

theorem trans (h : Aside s t) (hnext : Aside t u) : Aside s u :=
  ⟨hnext.register.trans h.register, hnext.raids.trans h.raids⟩

end Aside

/-- Whatever becomes of the rides, the same is on file about who is who, about quotes and about invites. -/
structure SameBooks (s t : ConquisterState) : Prop where
  register : register t = register s
  ledgers : ledgers t = ledgers s

namespace SameBooks
variable {s t u : ConquisterState}

theorem refl (s : ConquisterState) : SameBooks s s := ⟨rfl, rfl⟩

theorem trans (h : SameBooks s t) (hnext : SameBooks t u) : SameBooks s u :=
  ⟨hnext.register.trans h.register, hnext.ledgers.trans h.ledgers⟩

end SameBooks

structure SameBalloons (s t : ConquisterState) : Prop extends SameBooks s t where
  balloons : t.balloons = s.balloons

theorem SameBalloons.refl (s : ConquisterState) : SameBalloons s s := ⟨.refl s, rfl⟩

/-- Nor is anything written about quotes and invites. -/
structure OffBooks (s t : ConquisterState) : Prop extends Aside s t where
  ledgers : ledgers t = ledgers s

namespace OffBooks
variable {s t u : ConquisterState}

theorem refl (s : ConquisterState) : OffBooks s s := ⟨.refl s, rfl⟩

theorem trans (h : OffBooks s t) (hnext : OffBooks t u) : OffBooks s u :=
  ⟨h.toAside.trans hnext.toAside, hnext.ledgers.trans h.ledgers⟩

theorem books (h : OffBooks s t) : SameBooks s t := ⟨h.register, h.ledgers⟩

end OffBooks

structure Unworn (s t : ConquisterState) : Prop extends OffBooks s t where
  balloons : t.balloons = s.balloons

namespace Unworn
variable {s t u : ConquisterState}

theorem refl (s : ConquisterState) : Unworn s s := ⟨.refl s, rfl⟩

theorem trans (h : Unworn s t) (hnext : Unworn t u) : Unworn s u :=
  ⟨h.toOffBooks.trans hnext.toOffBooks, hnext.balloons.trans h.balloons⟩

theorem worn (h : Unworn s t) : SameBalloons s t := ⟨h.books, h.balloons⟩

/-- A list of steps, each of which leaves the 🎈 alone. -/
theorem foldl {α : Type} {f : ConquisterState → α → ConquisterState} (hf : ∀ s a, Unworn s (f s a))
    (steps : List α) (s : ConquisterState) : Unworn s (steps.foldl f s) := by
  induction steps generalizing s with
  | nil => exact refl s
  | cons step steps ih => exact (hf s step).trans (ih _)

end Unworn

/-- Where somebody plays is noted before anything else. -/
theorem rememberPlatform_raids (s : ConquisterState) (username : Str) (userId : ℤ) :
    (rememberPlatform s username userId).raids = s.raids := by
  rw [rememberPlatform, rememberIrc, rememberTelegram]
  split_ifs <;> rfl

theorem settleHold_aside {s t : ConquisterState} {hold : Holder} {now : ℤ} {settled : Settlement}
    (h : settleHold s hold now = .ok (settled, t)) : Unworn s t := by
  simp only [settleHold] at h
  split at h
  · cases h
  · split at h
    · cases h
    · cases h
      exact ⟨⟨⟨rfl, rfl⟩, rfl⟩, rfl⟩

theorem leavePlace_aside {s t : ConquisterState} {now : ℤ} {settled : Settlement}
    (h : leavePlace s now = .ok (settled, t)) : Unworn s t := by
  rw [leavePlace] at h
  split at h
  · cases h
    exact .refl s
  · have hout : Unworn s { s with current := none } := ⟨⟨⟨rfl, rfl⟩, rfl⟩, rfl⟩
    exact hout.trans (settleHold_aside h)

theorem goHome_aside {s t : ConquisterState} {player : Str} {now : ℤ} {departure : Departure}
    (h : goHome s player now = .ok (departure, t)) : Unworn s t := by
  rw [goHome] at h
  split at h
  · cases h
    exact .refl s
  · split at h
    · cases h
    · rename_i settled away hleave
      cases h
      exact leavePlace_aside hleave

section
variable [SlotCodec]

theorem putOn_aside {s t : ConquisterState} {player emoji : Str} (h : putOn s player emoji = some t) :
    Unworn s t := by
  obtain ⟨slots, -, rfl⟩ := Option.map_eq_some_iff.mp h
  exact ⟨⟨⟨rfl, rfl⟩, rfl⟩, rfl⟩

theorem putInHouse_aside {s t : ConquisterState} {player emoji : Str} {limit : ℕ}
    (h : putInHouse s player emoji limit = some t) : Unworn s t := by
  obtain ⟨slots, -, rfl⟩ := Option.map_eq_some_iff.mp h
  exact ⟨⟨⟨rfl, rfl⟩, rfl⟩, rfl⟩

theorem takeEmoji_aside {s t : ConquisterState} {player emoji : Str} (h : takeEmoji s player emoji = some t) :
    Unworn s t := by
  rw [takeEmoji] at h
  split at h
  · cases h
    exact ⟨⟨⟨rfl, rfl⟩, rfl⟩, rfl⟩
  · obtain ⟨slot, -, rfl⟩ := Option.map_eq_some_iff.mp h
    exact ⟨⟨⟨rfl, rfl⟩, rfl⟩, rfl⟩

theorem burnChild_aside (s : ConquisterState) (player emoji : Str) : Unworn s (burnChild s player emoji) := by
  rw [burnChild]
  split <;> exact ⟨⟨⟨rfl, rfl⟩, rfl⟩, rfl⟩

theorem buyAtHome_aside {s t : ConquisterState} {departure : Departure} {username emoji : Str}
    {position cost : ℤ} {limit : ℕ} {inflation : ℤ} {result : FurnitureResult}
    (h : buyAtHome s departure username emoji position cost limit inflation = (result, t)) : Unworn s t := by
  obtain ⟨-, ⟨-, rfl⟩ | ⟨-, withHim, slot, -, -, -, -, -, rfl⟩⟩ := buyAtHome_eq h
  · exact .refl _
  · simp only [hangBought]
    split <;> exact ⟨⟨⟨rfl, rfl⟩, rfl⟩, rfl⟩

theorem furnitureBuy_aside {s t : ConquisterState} {username emoji : Str} {position cost : ℤ} {limit : ℕ}
    {now inflation : ℤ} {result : FurnitureResult}
    (h : furnitureBuy s username emoji position cost limit now inflation = .ok (result, t)) : Unworn s t := by
  rw [furnitureBuy] at h
  split at h
  · cases h
  · rename_i departure away hgo
    have haway := goHome_aside hgo
    split at h
    · cases h
      exact haway
    · exact haway.trans (buyAtHome_aside (Except.ok.inj h))

theorem furnitureMove_aside {s t : ConquisterState} {username : Str} {source target : ℤ} {limit : ℕ}
    {now : ℤ} {result : FurnitureMoveResult}
    (h : furnitureMove s username source target limit now = .ok (result, t)) : Unworn s t := by
  simp only [furnitureMove] at h
  split at h
  · cases h
    exact .refl s
  · split at h
    · cases h
      exact .refl s
    · split at h
      · cases h
      · rename_i departure away hgo
        have haway := goHome_aside hgo
        split at h
        · cases h
          exact haway
        · have hdone := Except.ok.inj h
          simp only [moveAtHome] at hdone
          split at hdone
          · cases hdone
            exact haway
          · cases hdone
            exact haway.trans ⟨⟨⟨rfl, rfl⟩, rfl⟩, rfl⟩

theorem gearTake_aside {s t : ConquisterState} {player emoji swap : Str} {now : ℤ} {result : GearResult}
    (h : gearTake s player emoji swap now = .ok (result, t)) : Unworn s t := by
  rw [gearTake] at h
  split at h
  · cases h
  · rename_i departure away hgo
    have haway := goHome_aside hgo
    split at h
    · cases h
      exact haway
    · have hdone := Except.ok.inj h
      rw [takeAtHome] at hdone
      split at hdone
      · cases hdone
        exact haway
      · split at hdone
        · split at hdone
          · cases hdone
            exact haway
          · cases hdone
            exact haway.trans ⟨⟨⟨rfl, rfl⟩, rfl⟩, rfl⟩
        · split at hdone
          · cases hdone
            exact haway
          · cases hdone
            exact haway.trans ⟨⟨⟨rfl, rfl⟩, rfl⟩, rfl⟩

theorem gearStore_aside {s t : ConquisterState} {player emoji : Str} {limit : ℕ} {now : ℤ} {result : GearResult}
    (h : gearStore s player emoji limit now = .ok (result, t)) : Unworn s t := by
  rw [gearStore] at h
  split at h
  · cases h
  · rename_i departure away hgo
    have haway := goHome_aside hgo
    split at h
    · cases h
      exact haway
    · have hdone := Except.ok.inj h
      rw [storeAtHome] at hdone
      split at hdone
      · cases hdone
        exact haway
      · split at hdone
        · cases hdone
          exact haway
        · rename_i kept hkept
          cases hdone
          exact haway.trans ((putInHouse_aside hkept).trans ⟨⟨⟨rfl, rfl⟩, rfl⟩, rfl⟩)

theorem sortOut_aside (s : ConquisterState) (player stored : Str) : Unworn s (sortOut s player stored) := by
  rw [sortOut]
  generalize sortOutFrom s player _ _ _ _ = sorted
  obtain ⟨house, gear, moved⟩ := sorted
  dsimp only
  split
  · exact .refl s
  · split
    · exact ⟨⟨⟨rfl, rfl⟩, rfl⟩, rfl⟩
    · split <;> exact ⟨⟨⟨rfl, rfl⟩, rfl⟩, rfl⟩

theorem equipmentSortOut_aside (s : ConquisterState) : Unworn s (equipmentSortOut s) := by
  rw [equipmentSortOut]
  split
  · exact .refl s
  · have hall := Unworn.foldl (fun s (house : Str × Str) => sortOut_aside s house.1 house.2)
      s.furniture.entries s
    exact hall.trans ⟨⟨⟨rfl, rfl⟩, rfl⟩, rfl⟩

omit [SlotCodec] in
theorem palleBurn_aside (s : ConquisterState) (player : Str) (amount : ℤ) :
    Unworn s (palleBurn s player amount).2 := by
  simp only [palleBurn]
  split_ifs <;> exact ⟨⟨⟨rfl, rfl⟩, rfl⟩, rfl⟩

theorem enter_aside (s : ConquisterState) (outcome : ClaimResult) (userId : ℤ) (username : Str) (now : ℤ)
    (rules : ClaimRules) : Unworn s (enter s outcome userId username now rules).2 := by
  simp only [enter]
  split_ifs <;> exact ⟨⟨⟨rfl, rfl⟩, rfl⟩, rfl⟩

theorem balloonAttempt_aside (s : ConquisterState) (player : Str) (site : Whereabouts) (now : ℤ) (draw : ℕ) :
    OffBooks s (balloonAttempt s player site now draw).2 := by
  rw [balloonAttempt]
  split_ifs <;> exact ⟨⟨rfl, rfl⟩, rfl⟩

theorem kick_aside {s t : ConquisterState} {hold : Holder} {userId : ℤ} {username : Str} {now : ℤ}
    {rules : ClaimRules} {draws : ClaimDraws} {result : ClaimResult}
    (h : kick s hold userId username now rules draws = .ok (result, t)) : OffBooks s t := by
  rw [kick] at h
  dsimp only at h
  generalize hsneaked : (!(newcomer s username now && _) && _ && _ && _ : Bool) = sneaked at h
  generalize hfirst : (newcomer s username now && decide (counter s.entered username = 0) : Bool) = first at h
  generalize hattempt : (if (sneaked || first) = true then (BalloonRoll.none, s)
    else balloonAttempt s hold.username .conquister now draws.balloon) = attempt at h
  have hquiet : OffBooks s attempt.2 := by
    rw [← hattempt]
    split
    · exact .refl s
    · exact balloonAttempt_aside s _ _ now _
  split at h
  · cases h
    refine hquiet.trans ?_
    split <;> exact ⟨⟨rfl, rfl⟩, rfl⟩
  · generalize hworn : (if (sneaked || first) = true then attempt.2
      else { attempt.2 with balloons := attempt.2.balloons.erase hold.username }) = worn at h
    have hfresh : OffBooks s worn := by
      rw [← hworn]
      split
      · exact hquiet
      · exact hquiet.trans ⟨⟨rfl, rfl⟩, rfl⟩
    split at h
    · cases h
    · rename_i settled paid hsettled
      obtain ⟨-, rfl⟩ := Prod.mk.inj (Except.ok.inj h)
      exact (hfresh.trans (settleHold_aside hsettled).toOffBooks).trans (enter_aside _ _ _ _ _ _).toOffBooks

theorem claimFree_aside {s t : ConquisterState} {userId : ℤ} {username : Str} {now : ℤ} {rules : ClaimRules}
    {draws : ClaimDraws} {result : ClaimResult}
    (h : claimFree s userId username now rules draws = .ok (result, t)) : OffBooks s t := by
  rw [claimFree] at h
  split at h
  · cases h
    exact .refl _
  · split at h
    · cases h
      exact .refl _
    · split at h
      · obtain ⟨-, rfl⟩ := Prod.mk.inj (Except.ok.inj h)
        exact (enter_aside _ _ _ _ _ _).toOffBooks
      · exact kick_aside h

theorem conquisterClaim_aside {s t : ConquisterState} {userId : ℤ} {username : Str} {now : ℤ}
    {rules : ClaimRules} {draws : ClaimDraws} {result : ClaimResult}
    (h : conquisterClaim s userId username now rules draws = .ok (result, t)) :
    OffBooks (rememberPlatform s username userId) t := by
  simp only [conquisterClaim] at h
  have hlapsed (known : ConquisterState) : OffBooks known { known with cooldowns := known.cooldowns.erase username } :=
    ⟨⟨rfl, rfl⟩, rfl⟩
  split at h
  · cases h
    exact .refl _
  · split at h
    · cases h
      exact .refl _
    · exact (hlapsed _).trans (claimFree_aside h)

theorem welcome_aside (s : ConquisterState) (player : Str) (limit : ℕ) : Unworn s (welcome s player limit) := by
  rw [welcome]
  split
  · exact .refl s
  · split
    · exact ⟨⟨⟨rfl, rfl⟩, rfl⟩, rfl⟩
    · have hmarked : Unworn s (markWelcomed s player) := ⟨⟨⟨rfl, rfl⟩, rfl⟩, rfl⟩
      cases hhung : hangBalloon (markWelcomed s player) player limit with
      | none => exact hmarked
      | some hung =>
        rw [hangBalloon] at hhung
        split at hhung
        · cases hhung
        · split at hhung
          · rename_i worn hworn
            cases hhung
            exact hmarked.trans (putOn_aside hworn)
          · exact hmarked.trans (putInHouse_aside hhung)

theorem balloonsHandOut_aside (s : ConquisterState) (limit : ℕ) : Unworn s (balloonsHandOut s limit) :=
  Unworn.foldl (fun s player => welcome_aside s player limit) (knownPlayers s) s

end

theorem quoteAdd_aside {s t : ConquisterState} {quotes quotes' : Quotes} {username quote : Str} {cost : ℤ}
    {result : QuoteAddResult} (h : quoteAdd s quotes username quote cost = .ok (result, t, quotes')) :
    Aside s t := by
  simp only [quoteAdd] at h
  split_ifs at h <;> cases h <;> exact ⟨rfl, rfl⟩

theorem quoteDelete_aside (s : ConquisterState) (quotes : Quotes) (selector : Str) :
    Aside s (quoteDelete s quotes selector).2.1 := by
  rw [quoteDelete]
  split
  · exact .refl s
  · simp only [forgetAuthor]
    split <;> exact ⟨rfl, rfl⟩

theorem guideDue_aside (s : ConquisterState) (player : Str) : Unworn s (guideDue s player).2 := by
  rw [guideDue]
  split <;> exact ⟨⟨⟨rfl, rfl⟩, rfl⟩, rfl⟩

theorem inviteRecord_aside (s : ConquisterState) (newcomer inviter : Str) (platform : RaidTargetKind) (now : ℤ) :
    Aside s (inviteRecord s newcomer inviter platform now).2.2 := by
  rw [inviteRecord]
  split
  · exact .refl s
  · split
    · exact .refl s
    · split
      · exact .refl s
      · split
        · exact .refl s
        · split <;> exact ⟨rfl, rfl⟩

theorem inviteDue_aside (s : ConquisterState) (newcomer : Str) (samePerson : Bool) :
    Aside s (inviteDue s newcomer samePerson).2 := by
  rw [inviteDue]
  split
  · exact .refl s
  · split <;> exact ⟨rfl, rfl⟩

section
variable [SlotCodec]

theorem blowUp_aside (s : ConquisterState) (target : Str) (onHim : Bool) (draw : ℕ) :
    Unworn s (blowUp s target onHim draw).2 := by
  simp only [blowUp]
  split_ifs <;> exact ⟨⟨⟨rfl, rfl⟩, rfl⟩, rfl⟩

theorem land_books (s : ConquisterState) (thrown thrower victim : Str) (site : Whereabouts) (now : ℤ)
    (rules : RaidRules) (draws : LandDraws) :
    SameBooks s (land s thrown thrower victim site now rules draws).2 := by
  simp only [land, smear]
  split_ifs
  · exact ⟨rfl, rfl⟩
  · exact .refl s
  · exact (blowUp_aside s thrower true draws.hit).books
  · exact (blowUp_aside s victim _ draws.hit).books
  all_goals exact ⟨rfl, rfl⟩

theorem loseBolts_aside {s t : ConquisterState} {now : ℤ} (h : loseBolts s now = .ok t) : Unworn s t := by
  obtain ⟨current, rfl, -⟩ := loseBolts_current h
  exact ⟨⟨⟨rfl, rfl⟩, rfl⟩, rfl⟩

/-- A 🎈 wears by what lands on its owner only when he starts over. -/
theorem land_balloons (s : ConquisterState) (thrown thrower victim : Str) (site : Whereabouts) (now : ℤ)
    (rules : RaidRules) (draws : LandDraws) :
    (land s thrown thrower victim site now rules draws).2.balloons =
      if (land s thrown thrower victim site now rules draws).1.reset then s.balloons.erase victim else s.balloons := by
  simp only [land, smear]
  split_ifs
  all_goals first
    | rfl
    | exact (blowUp_aside s thrower true draws.hit).balloons
    | exact (blowUp_aside s victim _ draws.hit).balloons
    | simp_all

/-- Whatever is brought to the place touches neither books nor rides, unless the whole game starts over. -/
theorem furnitureBurn_cases {s t : ConquisterState} {player emoji : Str} {now : ℤ} {rules : RaidRules}
    {destroy : Bool} {draws : LandDraws} {result : FurnitureBurnResult}
    (h : furnitureBurn s player emoji now rules destroy draws = .ok (result, t)) :
    result.reset = false ∧ Unworn s t ∨ result.reset = true ∧ ∃ taken, Unworn s taken ∧ t = startOver taken := by
  rw [furnitureBurn] at h
  split at h
  · cases h
    exact Or.inl ⟨rfl, .refl _⟩
  · split at h
    · split at h
      · cases h
        exact Or.inl ⟨rfl, .refl _⟩
      · split at h
        · cases h
          exact Or.inl ⟨rfl, .refl _⟩
        · cases h
          exact Or.inl ⟨rfl, burnChild_aside s player emoji⟩
    · rename_i taken htaken
      have htake := takeEmoji_aside htaken
      split at h
      · obtain ⟨hresult, hloses⟩ := thenLoseBolts_eq_ok h
        exact Or.inl ⟨by rw [hresult], htake.trans (loseBolts_aside hloses)⟩
      · split at h
        · cases h
          exact Or.inr ⟨rfl, taken, htake, rfl⟩
        · rename_i hnuke
          have hthrown : Unworn taken (throwAtPlace taken player emoji now rules draws).2 := by
            rw [throwAtPlace]
            split
            · exact .refl taken
            · rename_i holder _
              have hspared : (land taken emoji player holder .conquister now rules draws).1.reset = false :=
                Bool.eq_false_iff.mpr fun hreset => hnuke (land_reset hreset)
              have hbooks := land_books taken emoji player holder .conquister now rules draws
              have hrides := land_raids taken emoji player holder .conquister now rules draws
              have hballoons := land_balloons taken emoji player holder .conquister now rules draws
              rw [hspared] at hrides hballoons
              exact ⟨⟨⟨hbooks.register, hrides⟩, hbooks.ledgers⟩, hballoons⟩
          have hnobody : (throwAtPlace taken player emoji now rules draws).1.reset = false := by
            rw [throwAtPlace]
            split <;> rfl
          obtain ⟨hresult, hloses⟩ := thenLoseBolts_eq_ok h
          exact Or.inl ⟨by rw [hresult, hnobody], (htake.trans hthrown).trans (loseBolts_aside hloses)⟩

theorem furnitureBurn_rides {s t : ConquisterState} {player emoji : Str} {now : ℤ} {rules : RaidRules}
    {destroy : Bool} {draws : LandDraws} {result : FurnitureBurnResult}
    (h : furnitureBurn s player emoji now rules destroy draws = .ok (result, t)) :
    SameBooks s t ∧ (result.reset = false ∧ t.raids = s.raids ∨ result.reset = true ∧ t.raids = []) := by
  rcases furnitureBurn_cases h with ⟨hspared, hquiet⟩ | ⟨hreset, taken, htaken, rfl⟩
  · exact ⟨hquiet.books, Or.inl ⟨hspared, hquiet.raids⟩⟩
  · exact ⟨htaken.books.trans ⟨rfl, rfl⟩, Or.inr ⟨hreset, rfl⟩⟩

omit [SlotCodec] in
theorem playerId_aside {s t : ConquisterState} {player : Str} {draws : List ℕ} {id : ℤ}
    (h : playerId s player draws = .ok (id, t)) : Unworn s t := by
  obtain ⟨ids, rfl⟩ := playerId_eq_ok h
  exact ⟨⟨⟨rfl, rfl⟩, rfl⟩, rfl⟩

omit [SlotCodec] in
theorem takePalle_aside (s : ConquisterState) (username : Str) (gift : ℤ) : Unworn s (takePalle s username gift) := by
  rw [takePalle]
  split <;> exact ⟨⟨⟨rfl, rfl⟩, rfl⟩, rfl⟩

theorem takeAlong_aside (s : ConquisterState) (username giftEmoji : Str) :
    Unworn s (takeAlong s username giftEmoji) := by
  rw [takeAlong]
  split
  · exact .refl s
  · cases htaken : takeEmoji s username giftEmoji with
    | none => exact .refl s
    | some taken => exact takeEmoji_aside htaken

/-- Nothing keeps somebody at home, or in the place, who wants to go there. -/
structure FitToGo (state : ConquisterState) (username target : Str) (now : ℤ) (rules : RaidRules)
    (errand : Errand) : Prop where
  free : raidOf state username = none
  thawed : frozenFor state username now ≤ 0
  notInPlace : whereabouts state username ≠ .conquister
  gift : 0 ≤ errand.gift
  affords : errand.gift > 0 → errand.gift ≤ counter state.scores username
  carries : cannotCarry state username target errand rules.furnitureLimit = none

/-- What setting off does to the rides: nothing, the sender's turned round, or one more at the end, which is
no blow against a newcomer. -/
inductive SetsOff (state : ConquisterState) (userId : ℤ) (username : Str) (now : ℤ) (rules : RaidRules)
    (errand : Errand) (result : RaidResult) (raids : List Raid) : Prop
  | stays (notOff : result.status ≠ .started) (notTurned : result.status ≠ .comingHome) (same : raids = state.raids)
  | turns (comes : result.status = .comingHome) (riding : (raidOf state username).isSome)
      (turned : raids = onFirst state.raids username fun raid => raid.turned now)
  | off (target : Str) (started : result.status = .started)
      (away : ¬ homewards (rememberPlatform state username userId) userId username errand = true)
      (known : playerByName (rememberPlatform state username userId) errand.target errand.kind = some target)
      (fair : errand.blow = true → newcomer state target now = false)
      (fit : FitToGo state username target now rules errand)
      (pushed : raids = state.raids ++ [errand.ride username target now result.seconds])

theorem load_setsOff {s t : ConquisterState} {username known : Str} {now : ℤ} {rules : RaidRules}
    {errand : Errand} {draws : StartDraws} {result : RaidResult}
    (h : load s username known now rules errand draws = .ok (result, t)) :
    SameBalloons s t ∧ ((result.status ≠ .started ∧ result.status ≠ .comingHome) ∧ t.raids = s.raids ∨ result.status = .started ∧
      cannotCarry s username known errand rules.furnitureLimit = none ∧
      t.raids = s.raids ++ [errand.ride username known now result.seconds]) := by
  have hpalle := takePalle_aside s username errand.gift
  rw [load] at h
  dsimp only at h
  split at h
  · rename_i status hcannot
    cases h
    refine ⟨hpalle.worn, Or.inl ⟨⟨?_, ?_⟩, hpalle.raids⟩⟩
    all_goals rcases cannotCarry_eq_some hcannot with rfl | rfl | rfl <;> simp
  · rename_i hcarries
    rw [cannotCarry_takePalle] at hcarries
    have halong := hpalle.trans (takeAlong_aside _ username errand.giftEmoji)
    obtain ⟨hstarted, -, ids, rfl⟩ := depart_eq_ok h
    exact ⟨⟨halong.books.trans ⟨rfl, rfl⟩, halong.balloons⟩, Or.inr ⟨hstarted, hcarries, by rw [← halong.raids]⟩⟩

theorem setOff_setsOff {s t : ConquisterState} {username known : Str} {now : ℤ} {rules : RaidRules}
    {errand : Errand} {draws : StartDraws} {result : RaidResult}
    (h : setOff s username known now rules errand draws = .ok (result, t)) :
    SameBalloons s t ∧ ((result.status ≠ .started ∧ result.status ≠ .comingHome) ∧ t.raids = s.raids ∨ result.status = .started ∧
      (errand.blow = true → newcomer s known now = false) ∧ FitToGo s username known now rules errand ∧
      t.raids = s.raids ++ [errand.ride username known now result.seconds]) := by
  rw [setOff] at h
  split at h
  · cases h
    exact ⟨.refl _, Or.inl ⟨⟨by simp, by simp⟩, rfl⟩⟩
  · rename_i hroad
    split at h
    · cases h
      exact ⟨.refl _, Or.inl ⟨⟨by simp, by simp⟩, rfl⟩⟩
    · rename_i hfair
      split_ifs at h with hfrozen hplace hnegative hpoor
      iterate 4
        · cases h
          exact ⟨.refl _, Or.inl ⟨⟨by simp, by simp⟩, rfl⟩⟩
      obtain ⟨hbooks, hstays | ⟨hstarted, hcarries, hpushed⟩⟩ := load_setsOff h
      · exact ⟨hbooks, Or.inl hstays⟩
      · have hfit : FitToGo s username known now rules errand :=
          ⟨hroad, not_lt.mp hfrozen, hplace, not_lt.mp hnegative, fun hgift => by omega, hcarries⟩
        refine ⟨hbooks, Or.inr ⟨hstarted, fun hblow => ?_, hfit, hpushed⟩⟩
        simpa [hblow] using hfair

theorem raidStart_setsOff {s t : ConquisterState} {userId : ℤ} {username : Str} {now : ℤ} {rules : RaidRules}
    {errand : Errand} {draws : StartDraws} {result : RaidResult}
    (h : raidStart s userId username now rules errand draws = .ok (result, t)) :
    SameBalloons (rememberPlatform s username userId) t ∧
      SetsOff s userId username now rules errand result t.raids := by
  have hraids := rememberPlatform_raids s username userId
  have hfitted {target : Str} (hfit : FitToGo (rememberPlatform s username userId) username target now rules errand) :
      FitToGo s username target now rules errand := by
    rw [rememberPlatform, rememberIrc, rememberTelegram] at hfit
    split_ifs at hfit <;> exact ⟨hfit.free, hfit.thawed, hfit.notInPlace, hfit.gift, hfit.affords, hfit.carries⟩
  have hjoined : (rememberPlatform s username userId).joined = s.joined := by
    rw [rememberPlatform, rememberIrc, rememberTelegram]
    split_ifs <;> rfl
  simp only [raidStart] at h
  split at h
  · rw [rideHome] at h
    split at h
    · rename_i travelling hriding
      cases h
      have hsome : (raidOf s username).isSome = true := by
        rw [raidOf, ← hraids, ← raidOf, hriding]
        rfl
      refine ⟨⟨⟨rfl, rfl⟩, rfl⟩, .turns rfl hsome ?_⟩
      rw [← hraids]
    · split at h
      · split at h
        · cases h
        · rename_i settled away hleave
          cases h
          have hleft := leavePlace_aside hleave
          exact ⟨hleft.worn, .stays (by simp) (by simp) (hleft.raids.trans hraids)⟩
      · cases h
        exact ⟨.refl _, .stays (by simp) (by simp) hraids⟩
  · rename_i haway
    split at h
    · cases h
      exact ⟨.refl _, .stays (by simp) (by simp) hraids⟩
    · rename_i target htarget
      obtain ⟨hbooks, ⟨hnot, hsame⟩ | ⟨hstarted, hfair, hfit, hpushed⟩⟩ := setOff_setsOff h
      · exact ⟨hbooks, .stays hnot.1 hnot.2 (hsame.trans hraids)⟩
      · refine ⟨hbooks, .off target hstarted haway htarget ?_ (hfitted hfit) ?_⟩
        · rw [newcomer, hjoined] at hfair
          exact hfair
        · rw [hpushed, hraids]

theorem growOne_aside (s : ConquisterState) (now : ℤ) (rules : RaidRules) (child : Child) :
    Unworn s (growOne s now rules child).2.2 := by
  simp only [growOne]
  split_ifs <;> exact ⟨⟨⟨rfl, rfl⟩, rfl⟩, rfl⟩

theorem growAll_aside (now : ℤ) (rules : RaidRules) (children : List Child) (s : ConquisterState) :
    Unworn s (growAll now rules children s).2.2 := by
  induction children generalizing s with
  | nil => exact .refl s
  | cons child children ih => exact (growOne_aside s now rules child).trans (ih _)

theorem birth_aside (s : ConquisterState) (pregnancy : Pregnancy) (now : ℤ) (rules : RaidRules)
    (draws : BirthDraws) : Unworn s (birth s pregnancy now rules draws).2 := by
  simp only [birth]
  split <;> exact ⟨⟨⟨rfl, rfl⟩, rfl⟩, rfl⟩

theorem birthsFrom_aside (now : ℤ) (rules : RaidRules) (draws : ℕ → BirthDraws) (pregnancies : List Pregnancy)
    (index : ℕ) (s : ConquisterState) : Unworn s (birthsFrom now rules draws pregnancies index s).2 := by
  induction pregnancies generalizing index s with
  | nil => exact .refl s
  | cons pregnancy pregnancies ih =>
    rw [birthsFrom]
    split
    · exact ih (index + 1) s
    · exact (birth_aside s pregnancy now rules (draws index)).trans (ih (index + 1) _)

theorem beforeRides_aside (s : ConquisterState) (now : ℤ) (rules : RaidRules) (draws : DueDraws) :
    Unworn s (beforeRides s now rules draws).2 := by
  have hwash : Unworn s (wash s now) := ⟨⟨⟨rfl, rfl⟩, rfl⟩, rfl⟩
  have heggs : Unworn (wash s now) (layEggs (wash s now) now rules) := by
    rw [layEggs]
    split_ifs <;> exact ⟨⟨⟨rfl, rfl⟩, rfl⟩, rfl⟩
  have hgrow (laid : ConquisterState) : Unworn laid (grow laid now rules draws.courting).2 :=
    (growAll_aside now rules laid.children laid).trans ⟨⟨⟨rfl, rfl⟩, rfl⟩, rfl⟩
  have hborn (grown : ConquisterState) : Unworn grown (births grown now rules draws.birth).2 :=
    (birthsFrom_aside now rules draws.birth _ 0 _).trans ⟨⟨⟨rfl, rfl⟩, rfl⟩, rfl⟩
  exact ((hwash.trans heggs).trans (hgrow _)).trans (hborn _)

end

end NorelecBot
