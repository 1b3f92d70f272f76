import NorelecBot.Among
import NorelecBot.Linking

/-! # Nobody out of nowhere: who comes, and who is called

A name leads to somebody who is on file, and so does an account, or else to a new
player under its own key.
-/

namespace NorelecBot
open Lib

namespace Among
variable {people : Str → Prop} {s t : ConquisterState} {player other : Str} {now : ℤ}

theorem rememberPlatform (h : Among people s) (hplayer : people player) (userId : ℤ) :
    Among people (rememberPlatform s player userId) := by
  rw [NorelecBot.rememberPlatform, rememberIrc, rememberTelegram]
  split_ifs
  · exact { h with ircNames := h.ircNames.set hplayer 1 }
  · exact h
  · exact { h with telegramIds := h.telegramIds.set hplayer userId }
  · exact h

section
variable [SlotCodec] {userId : ℤ}

theorem balloonAttempt (h : Among people s) (hplayer : people player) (site : Whereabouts) (now : ℤ) (draw : ℕ) :
    Among people (balloonAttempt s player site now draw).2 := by
  rw [NorelecBot.balloonAttempt]
  split_ifs
  · exact { h with balloons := h.balloons.erase player }
  · exact { h with balloons := h.balloons.set hplayer _ }
  · exact h

variable {rules : ClaimRules} {draws : ClaimDraws} {result : ClaimResult}

theorem enter (h : Among people s) (hplayer : people player) (outcome : ClaimResult) (userId now : ℤ)
    (rules : ClaimRules) : Among people (enter s outcome userId player now rules).2 := by
  rw [NorelecBot.enter]
  dsimp only
  generalize hmarked : (if (s.joined.find player).isSome = true then
    { s with entered := s.entered.set player 1 } else s) = known
  have hknown : Among people known := by
    rw [← hmarked]
    split
    · exact { h with entered := h.entered.set hplayer 1 }
    · exact h
  refine { hknown with seat := fun hold hhold => ?_ }
  cases hhold
  exact hplayer

theorem kick {hold : Holder} (h : Among people s) (hplayer : people player) (hhold : people hold.username)
    (hkick : kick s hold userId player now rules draws = .ok (result, t)) : Among people t := by
  rw [NorelecBot.kick] at hkick
  dsimp only at hkick
  generalize hsneaked : (!(newcomer s player now && _) && _ && _ && _ : Bool) = sneaked at hkick
  generalize hfirst : (newcomer s player now && decide (counter s.entered player = 0) : Bool) = first at hkick
  generalize hattempt : (if (sneaked || first) = true then (BalloonRoll.none, s)
    else NorelecBot.balloonAttempt s hold.username .conquister now draws.balloon) = attempt at hkick
  have htried : Among people attempt.2 := by
    rw [← hattempt]
    split
    · exact h
    · exact h.balloonAttempt hhold .conquister now draws.balloon
  split at hkick
  · cases hkick
    split
    · exact { htried with cooldowns := htried.cooldowns.set hplayer _ }
    · exact htried
  · generalize hworn : (if (sneaked || first) = true then attempt.2
      else { attempt.2 with balloons := attempt.2.balloons.erase hold.username }) = worn at hkick
    have hfresh : Among people worn := by
      rw [← hworn]
      split
      · exact htried
      · exact { htried with balloons := htried.balloons.erase hold.username }
    split at hkick
    · cases hkick
    · rename_i settled paid hsettled
      obtain ⟨-, rfl⟩ := Prod.mk.inj (Except.ok.inj hkick)
      exact (hfresh.settleHold hhold hsettled).enter hplayer _ userId now rules

theorem conquisterClaim (h : Among people s) (hplayer : people player)
    (hclaim : conquisterClaim s userId player now rules draws = .ok (result, t)) : Among people t := by
  have hknown := h.rememberPlatform hplayer userId
  simp only [NorelecBot.conquisterClaim] at hclaim
  generalize NorelecBot.rememberPlatform s player userId = known at hclaim hknown
  split at hclaim
  · cases hclaim
    exact hknown
  · split at hclaim
    · cases hclaim
      exact hknown
    · have hlapsed : Among people { known with cooldowns := known.cooldowns.erase player } :=
        { hknown with cooldowns := hknown.cooldowns.erase player }
      rw [claimFree] at hclaim
      split at hclaim
      · cases hclaim
        exact hlapsed
      · split at hclaim
        · cases hclaim
          exact hlapsed
        · split at hclaim
          · obtain ⟨-, rfl⟩ := Prod.mk.inj (Except.ok.inj hclaim)
            exact hlapsed.enter hplayer _ userId now rules
          · rename_i hold hhold
            exact hlapsed.kick hplayer (hlapsed.seat hold (Option.eq_some_of_filter_eq_some hhold)) hclaim

end

section
variable {userId : ℤ} {username accountName name found : Str} {platform : RaidTargetKind}

theorem knownPlayer (h : Among people s) (hfound : knownPlayer s name = some found) : people found := by
  rw [NorelecBot.knownPlayer] at hfound
  have hspelled {counters : Counters} {entry : Str × ℤ} (hcounters : counters.KeysIn people)
      (hentry : findIgnoreCase counters name = some entry) : people entry.1 := by
    rw [findIgnoreCase] at hentry
    exact hcounters entry.1 (List.mem_map.mpr ⟨entry, List.mem_of_find?_eq_some hentry, rfl⟩)
  split at hfound
  · rename_i entry hentry
    cases hfound
    obtain ⟨counters, hcounters, hmatch⟩ := List.exists_of_findSome?_eq_some hentry
    simp only [List.mem_cons, List.not_mem_nil, or_false] at hcounters
    rcases hcounters with rfl | rfl | rfl | rfl | rfl
    · exact hspelled h.scores hmatch
    · exact hspelled h.quotesAdded hmatch
    · exact hspelled h.ids hmatch
    · exact hspelled h.balloons hmatch
    · exact hspelled h.cooldowns hmatch
  · obtain ⟨hold, hhold, rfl⟩ := Option.map_eq_some_iff.mp hfound
    exact h.seat hold (Option.eq_some_of_filter_eq_some hhold)

/-- Whoever a name reaches. -/
theorem playerByName (h : Among people s) (hfound : playerByName s name platform = some found) : people found := by
  have hlegacy {platform : RaidTargetKind} (hby : legacyByName s name platform = some found) : people found :=
    h.knownPlayer (Option.eq_some_of_filter_eq_some hby)
  cases platform with
  | telegram =>
    rcases Option.or_eq_some_iff.mp hfound with hname | ⟨-, hby⟩
    · exact h.telegramNames _ found hname
    · exact hlegacy hby
  | irc =>
    rcases Option.or_eq_some_iff.mp hfound with hname | ⟨-, hby⟩
    · exact h.ircNicks _ found hname
    · exact hlegacy hby
  | any =>
    rcases Option.or_eq_some_iff.mp hfound with hnamed | ⟨-, hknown⟩
    · rcases Option.or_eq_some_iff.mp hnamed with hname | ⟨-, hnick⟩
      · exact h.telegramNames _ found hname
      · exact h.ircNicks _ found hnick
    · exact h.knownPlayer hknown

theorem legacyCandidate (h : Among people s) (hfound : legacyCandidate s userId username = some found) :
    people found := by
  rw [NorelecBot.legacyCandidate] at hfound
  split at hfound
  · split at hfound
    · obtain ⟨hold, hhold, rfl⟩ := Option.map_eq_some_iff.mp hfound
      exact h.seat hold (Option.eq_some_of_filter_eq_some hhold)
    · rename_i key hkeys
      cases hfound
      exact h.telegramIds.filter (fun _ id => id = userId) found (by rw [hkeys]; exact List.mem_singleton_self found)
    · cases hfound
  · exact h.knownPlayer (Option.eq_some_of_filter_eq_some hfound)

/-- Whoever an account leads to. -/
theorem keyFor (h : Among people s) : people (keyFor s userId username accountName) := by
  rw [NorelecBot.keyFor]
  split
  · rename_i key hkey
    exact h.accounts _ key hkey
  · rename_i hnew
    cases hlegacy : legacyOwner s userId username accountName with
    | none => exact h.strangers userId username accountName hnew
    | some candidate => exact h.legacyCandidate (Option.eq_some_of_filter_eq_some hlegacy)

end


section
variable {userId : ℤ} {username accountName name found : Str}

theorem bindAccount (h : Among people s) (userId : ℤ) (username accountName : Str) :
    Among people (bindAccount s userId username accountName) := by
  rw [NorelecBot.bindAccount]
  split
  · exact h
  · refine { h with accounts := h.accounts.set _ h.keyFor, strangers := fun id shown account hnew => ?_ }
    rw [OrderedMap.find_set] at hnew
    split at hnew
    · cases hnew
    · exact h.strangers id shown account hnew

theorem takeName (h : Among people s) (hplayer : people player) (userId : ℤ) (username : Str) :
    Among people (takeName s userId username player) := by
  rw [NorelecBot.takeName]
  split
  · exact { h with telegramNames := (h.telegramNames.filter _).set _ hplayer }
  · exact { h with ircNicks := (h.ircNicks.filter _).set _ hplayer }

theorem showName (h : Among people s) (hplayer : people player) (userId : ℤ) (username : Str) :
    Among people (showName s userId username player) := by
  rw [NorelecBot.showName]
  split
  · exact { h with displayNames := h.displayNames.set hplayer _ }
  · exact h

theorem join (h : Among people s) (hplayer : people player) (now : ℤ) : Among people (join s player now) := by
  rw [NorelecBot.join]
  split
  · exact { h with joined := h.joined.set hplayer now }
  · exact h

theorem countDay [Clock] (h : Among people s) (hplayer : people player) (now : ℤ) :
    Among people (countDay s player now) := by
  rw [NorelecBot.countDay]
  split
  · exact { h with inviteLastDay := h.inviteLastDay.set hplayer _, inviteDays := h.inviteDays.set hplayer _ }
  · exact h

theorem playerSeen [SlotCodec] [Clock] (h : Among people s) (limit : ℕ) (now : ℤ) :
    Among people (playerSeen s userId username accountName limit now).2 := by
  have hkey : people (NorelecBot.keyFor s userId username accountName) := h.keyFor
  have hnamed := (h.bindAccount userId username accountName).takeName hkey userId username
  have hshown := (hnamed.showName hkey userId username).rememberPlatform hkey userId
  exact ((hshown.join hkey now).welcome hkey limit).countDay hkey now

theorem merge {kept dropped : Str} (h : Among people s) (hkept : people kept) (mine theirs : Str) :
    Among people (merge s mine theirs dropped kept) := by
  have hreplaced (key : Str) (hkey : people key) : people (replaceKey dropped kept key) := by
    rw [replaceKey]
    split
    · exact hkept
    · exact hkey
  refine { h with
    accounts := h.accounts.mapVals hreplaced
    strangers := fun id shown account hnew => ?_
    scores := h.scores.erase dropped
    quotesAdded := h.quotesAdded.erase dropped
    balloons := h.balloons.erase dropped
    cooldowns := h.cooldowns.erase dropped
    ids := h.ids.erase dropped
    debugging := h.debugging.erase dropped
    welcomed := h.welcomed.erase dropped
    smeared := h.smeared.erase dropped
    frozen := h.frozen.erase dropped
    furniture := h.furniture.erase dropped
    equipped := h.equipped.erase dropped
    telegramNames := h.telegramNames.mapVals hreplaced
    ircNicks := h.ircNicks.mapVals hreplaced
    telegramIds := ?_
    ircNames := ?_
    displayNames := ?_ }
  · change (s.accounts.mapVals (replaceKey dropped kept)).find _ = none at hnew
    rw [OrderedMap.find_mapVals, Option.map_eq_none_iff] at hnew
    exact h.strangers id shown account hnew
  · change (mergeTelegram s.telegramIds dropped kept).KeysIn people
    rw [mergeTelegram]
    split
    · exact (h.telegramIds.set hkept _).erase dropped
    · exact h.telegramIds
  · change (mergeIrc s.ircNames dropped kept).KeysIn people
    rw [mergeIrc]
    split
    · exact (h.ircNames.erase dropped).set hkept 1
    · exact h.ircNames
  · simp only [NorelecBot.merge]
    split
    · exact (h.displayNames.erase dropped).set hkept _
    · exact h.displayNames.erase dropped

theorem linkKeys {keys : Str × Str} (h : Among people s) {otherName : Str}
    (hkeys : linkKeys s userId username otherName accountName = some keys) : people keys.1 ∧ people keys.2 := by
  obtain ⟨theirs, -, hboth⟩ := Option.bind_eq_some_iff.mp hkeys
  obtain ⟨mineKey, hmine, hother⟩ := Option.bind_eq_some_iff.mp hboth
  obtain ⟨otherKey, htheirs, rfl⟩ := Option.map_eq_some_iff.mp hother
  exact ⟨h.accounts _ mineKey hmine, h.accounts _ otherKey htheirs⟩

theorem playerLink [SlotCodec] {otherName : Str} {status : LinkStatus} (h : Among people s)
    (hlink : playerLink s userId username otherName accountName = .ok (status, t)) : Among people t := by
  rcases playerLink_cases hlink with ⟨-, -, requests, rfl⟩ | ⟨keys, mine, theirs, -, hkeys, -, -, rfl⟩
  · exact { h with }
  · have hkept : people (keptKey s keys) := by
      rw [keptKey]
      split
      · exact (h.linkKeys hkeys).2
      · exact (h.linkKeys hkeys).1
    exact h.merge hkept mine theirs

end

theorem quoteAdd {quotes quotes' : Quotes} {quote : Str} {cost : ℤ} {result : QuoteAddResult} (h : Among people s)
    (hplayer : people player) (hadd : quoteAdd s quotes player quote cost = .ok (result, t, quotes')) :
    Among people t := by
  simp only [NorelecBot.quoteAdd] at hadd
  split_ifs at hadd
  · cases hadd
    exact h
  · cases hadd
    exact h
  · cases hadd
    exact { h with
      quoteAuthors := h.quoteAuthors.set quote hplayer
      scores := h.scores.set hplayer _
      quotesAdded := h.quotesAdded.set hplayer _ }

theorem quoteDelete (h : Among people s) (quotes : Quotes) (selector : Str) :
    Among people (quoteDelete s quotes selector).2.1 := by
  rw [NorelecBot.quoteDelete]
  split
  · exact h
  · dsimp only
    rw [forgetAuthor]
    split
    · exact h
    · rename_i author hauthor
      refine { h with quotesAdded := ?_, quoteAuthors := h.quoteAuthors.filter _ }
      dsimp only
      split
      · exact h.quotesAdded.set (h.quoteAuthors _ author hauthor) _
      · exact h.quotesAdded

theorem guideDue (h : Among people s) (hplayer : people player) : Among people (guideDue s player).2 := by
  rw [NorelecBot.guideDue]
  split
  · exact h
  · exact { h with guided := h.guided.set hplayer 1 }

theorem inviteRecord (h : Among people s) (hplayer : people player) (inviter : Str) (platform : RaidTargetKind)
    (now : ℤ) : Among people (inviteRecord s player inviter platform now).2.2 := by
  rw [NorelecBot.inviteRecord]
  split
  · exact h
  · split
    · exact h
    · split
      · exact h
      · split
        · exact h
        · rename_i known hknown
          split
          · exact h
          · exact { h with
              brought := h.brought.set hplayer known
              inviters := h.inviters.set player (h.playerByName hknown) }

theorem inviteDue (h : Among people s) (hplayer : people player) (samePerson : Bool) :
    Among people (inviteDue s player samePerson).2 := by
  rw [NorelecBot.inviteDue]
  split
  · exact h
  · rename_i inviter hinviter
    have hinvites : people inviter := by
      rw [rewardDue] at hinviter
      split at hinviter
      · cases hinviter
      · exact h.inviters player inviter hinviter
    have hsettled (mark : ℤ) : Among people { s with invitePaid := s.invitePaid.set player mark } :=
      { h with invitePaid := h.invitePaid.set hplayer mark }
    split
    · exact hsettled (-1)
    · exact { hsettled 1 with scores := (h.scores.set hinvites _).set hplayer _ }

theorem debugSet (h : Among people s) (hplayer : people player) (wanted : Bool) :
    Among people (debugSet s player wanted) := by
  refine { h with debugging := ?_ }
  dsimp only [NorelecBot.debugSet]
  split
  · exact h.debugging.set hplayer 1
  · exact h.debugging.erase player

end Among

end NorelecBot
