import NorelecBot.AmongRides
import NorelecBot.Authority
import NorelecBot.Isolation

/-! # Whoever is merged in stays forgotten

Nobody is named along a run but who was on file and who asks for something. So the
key that linking dropped, if nothing names it any more, is credited nothing ever
again.
-/

namespace NorelecBot
open Lib

section
variable [SlotCodec] [Clock] {people : Str → Prop} {files files' : Files} {ops : List Op}

/-- Nobody is named by an operation but whoever asks for it and whoever was named before. -/
theorem step_among {op : Op} {reply : Reply} (h : Among people files.state)
    (hactor : ∀ player, op.actor = some player → people player) (hstep : step files op = .ok (reply, files')) :
    Among people files'.state := by
  cases op with
  | claim userId username now rules draws =>
    obtain ⟨result, hclaim, -, -⟩ := Files.only_eq_ok hstep
    exact h.conquisterClaim (hactor username rfl) hclaim
  | raidStart userId username now rules errand draws =>
    obtain ⟨result, hstart, -, -⟩ := Files.only_eq_ok hstep
    exact h.raidStart (hactor username rfl) hstart
  | raidDue now rules draws =>
    obtain ⟨events, hdue, -, -⟩ := Files.only_eq_ok hstep
    exact h.raidDue hdue
  | buy username emoji position cost limit now inflation =>
    obtain ⟨result, hbuy, -, -⟩ := Files.only_eq_ok hstep
    exact h.furnitureBuy (hactor username rfl) hbuy
  | move username source target limit now =>
    obtain ⟨result, hmove, -, -⟩ := Files.only_eq_ok hstep
    exact h.furnitureMove (hactor username rfl) hmove
  | burn player emoji now rules destroy draws =>
    obtain ⟨result, hburn, -, -⟩ := Files.only_eq_ok hstep
    exact h.furnitureBurn (hactor player rfl) hburn
  | palleBurn player amount =>
    cases hstep
    exact h.palleBurn (hactor player rfl) amount
  | take player emoji swap now =>
    obtain ⟨result, htake, -, -⟩ := Files.only_eq_ok hstep
    exact h.gearTake (hactor player rfl) htake
  | store player emoji limit now =>
    obtain ⟨result, hstore, -, -⟩ := Files.only_eq_ok hstep
    exact h.gearStore (hactor player rfl) hstore
  | sortOut =>
    cases hstep
    exact h.equipmentSortOut
  | seen userId username accountName furnitureLimit now =>
    cases hstep
    exact h.playerSeen furnitureLimit now
  | link userId username otherName accountName =>
    obtain ⟨status, hlink, -, -⟩ := Files.only_eq_ok hstep
    exact h.playerLink hlink
  | handOut furnitureLimit =>
    cases hstep
    exact h.balloonsHandOut furnitureLimit
  | quoteAdd username quote cost =>
    rw [step] at hstep
    split at hstep
    · cases hstep
    · rename_i result state quotes hadd
      cases hstep
      exact h.quoteAdd (hactor username rfl) hadd
  | quoteDelete selector =>
    have hdeleted := h.quoteDelete files.quotes selector
    rw [step] at hstep
    split at hstep
    rename_i removed state quotes hdelete
    cases hstep
    rw [hdelete] at hdeleted
    exact hdeleted
  | guide player =>
    cases hstep
    exact h.guideDue (hactor player rfl)
  | invite newcomer inviter platform now =>
    have hrecorded := h.inviteRecord (hactor newcomer rfl) inviter platform now
    rw [step] at hstep
    split at hstep
    rename_i status shown state hrecord
    cases hstep
    rw [hrecord] at hrecorded
    exact hrecorded
  | reward newcomer samePerson =>
    cases hstep
    exact h.inviteDue (hactor newcomer rfl) samePerson
  | debug username wanted =>
    cases hstep
    exact h.debugSet (hactor username rfl) wanted

theorem run_among (h : Among people files.state)
    (hactors : ∀ op ∈ ops, ∀ player, op.actor = some player → people player) : Among people (files.run ops).state := by
  induction ops generalizing files with
  | nil => exact h
  | cons op ops ih =>
    refine ih ?_ fun later hlater => hactors later (List.mem_cons_of_mem op hlater)
    cases hop : step files op with
    | error failure =>
      rw [Files.after, hop]
      exact h
    | ok result =>
      obtain ⟨reply, files'⟩ := result
      rw [Files.after_eq hop]
      exact step_among h (hactors op List.mem_cons_self) hop

end

section
variable {key : Str} {s : ConquisterState}

theorem knows_eq_false {α : Type} {table : OrderedMap Str α} : knows table key = false ↔ table.KeysIn (· ≠ key) := by
  rw [knows, Option.isSome_eq_false_iff, Option.isNone_iff_eq_none, OrderedMap.find_eq_none]
  exact ⟨fun hnot other hother hsame => hnot (hsame ▸ hother), fun hnone hkey => hnone key hkey rfl⟩

theorem namesOwner_eq_false {table : Authors} : namesOwner table key = false ↔ table.ValsIn (· ≠ key) := by
  simp only [namesOwner, List.any_eq_false, decide_eq_true_eq, OrderedMap.ValsIn, OrderedMap.find_eq_some]
  exact ⟨fun hall account owner hmem => hall (account, owner) hmem, fun hall entry hmem => hall entry.1 entry.2 hmem⟩

/-- Nothing names a key, and no account that is still to come would lead to it, exactly when everybody named is
somebody else. -/
theorem among_others_iff : Among (· ≠ key) s ↔ mentioned s key = false ∧ key ≠ [] ∧
    ∀ userId username accountName, s.accounts.find (platformKey userId username accountName) = none →
      platformKey userId username accountName ≠ key := by
  simp only [mentioned, leftover, List.any_cons, List.any_nil, Bool.or_false, Bool.or_eq_false_iff, knows_eq_false,
    namesOwner_eq_false, List.any_eq_false, Option.any_eq_false, decide_eq_true_eq, decide_eq_false_iff_not,
    Bool.or_eq_true, not_or]
  constructor
  · intro h
    exact ⟨⟨⟨⟨⟨⟨⟨⟨⟨⟨⟨h.pregnancies, h.children⟩, h.knocks⟩, h.pugliesi, h.joined, h.guided, h.entered, h.inviteDays,
      h.inviteLastDay, h.invitePaid⟩, h.brought⟩, h.inviters⟩, h.accounts, h.telegramNames, h.ircNicks, h.quoteAuthors⟩,
      h.scores, h.quotesAdded, h.balloons, h.cooldowns, h.ids, h.telegramIds, h.ircNames, h.debugging, h.smeared,
      h.welcomed, h.frozen⟩, h.displayNames, h.furniture, h.equipped⟩, h.rides⟩, h.seat⟩, h.nobody.symm, h.strangers⟩
  · rintro ⟨⟨⟨⟨⟨⟨⟨⟨⟨⟨⟨hpregnancies, hchildren⟩, hknocks⟩, hpugliesi, hjoined, hguided, hentered, hdays, hlastDay, hpaid⟩,
      hbrought⟩, hinviters⟩, haccounts, htelegramNames, hircNicks, hauthors⟩, hscores, hquotes, hballoons, hcooldowns, hids,
      htelegramIds, hircNames, hdebugging, hsmeared, hwelcomed, hfrozen⟩, hshown, hfurniture, hequipped⟩, hrides⟩, hseat⟩,
      hnamed, hstrangers⟩
    exact ⟨hnamed.symm, hstrangers, hseat, hscores, hquotes, hballoons, hcooldowns, hids, htelegramIds, hircNames,
      haccounts, hshown, htelegramNames, hircNicks, hrides, hauthors, hfurniture, hdebugging, hsmeared, hwelcomed,
      hfrozen, hpregnancies, hchildren, hknocks, hequipped, hpugliesi, hjoined, hguided, hentered, hbrought, hinviters,
      hdays, hlastDay, hpaid⟩

end

section
variable [SlotCodec] [Clock] {s t : ConquisterState} {userId : ℤ} {username otherName accountName : Str}
  {keys : Str × Str} {ops : List Op}

omit [SlotCodec] [Clock] in
/-- Whoever is merged in keeps his account on file, so that it leads nobody back to his key. -/
theorem strangers_merge {kept dropped mine theirs : Str}
    (hfiled : colon ∈ dropped → (s.accounts.find dropped).isSome = true) (userId : ℤ) (username accountName : Str)
    (hnew : (merge s mine theirs dropped kept).accounts.find (platformKey userId username accountName) = none) :
    platformKey userId username accountName ≠ dropped := by
  rintro rfl
  have hbound := hfiled (colon_mem_platformKey userId username accountName)
  change (s.accounts.mapVals _).find _ = none at hnew
  rw [OrderedMap.find_mapVals, Option.map_eq_none_iff] at hnew
  rw [hnew] at hbound
  cases hbound

/-- The key that linking dropped, once none of the tables passed over names it, is never named again, whatever
anybody else asks for: no palle and no emoji go to it, and no account leads to it. -/
theorem dropped_stays_forgotten (quotes : Quotes)
    (h : playerLink s userId username otherName accountName = .ok (.linked, t))
    (hkeys : linkKeys s userId username otherName accountName = some keys)
    (hleft : leftover s (droppedKey s keys) = false) (hnamed : droppedKey s keys ≠ [])
    (hfiled : colon ∈ droppedKey s keys → (s.accounts.find (droppedKey s keys)).isSome = true)
    (hothers : ∀ op ∈ ops, op.actor ≠ some (droppedKey s keys)) :
    mentioned (Files.run ⟨t, quotes⟩ ops).state (droppedKey s keys) = false ∧
      counter (Files.run ⟨t, quotes⟩ ops).state.scores (droppedKey s keys) = 0 ∧
      (Files.run ⟨t, quotes⟩ ops).state.furniture.find (droppedKey s keys) = none ∧
      (Files.run ⟨t, quotes⟩ ops).state.equipped.find (droppedKey s keys) = none ∧
      ∀ userId username accountName,
        keyFor (Files.run ⟨t, quotes⟩ ops).state userId username accountName ≠ droppedKey s keys := by
  rcases playerLink_cases h with ⟨hnot, -⟩ | ⟨linked, mine, theirs, -, hlinked, hne, hassets, rfl⟩
  · exact absurd rfl hnot
  rw [hkeys] at hlinked
  cases hlinked
  have hgone := mentioned_merge (droppedKey_noAssets hassets) (droppedKey_ne_keptKey (s := s) hne) mine theirs
  have hmerged := among_others_iff.mpr ⟨hgone.trans hleft, hnamed, strangers_merge hfiled⟩
  have hrun : Among (· ≠ droppedKey s keys)
      (Files.run ⟨merge s mine theirs (droppedKey s keys) (keptKey s keys), quotes⟩ ops).state :=
    run_among hmerged fun op hop player hactor hsame => hothers op hop (hsame ▸ hactor)
  have hnone {α : Type} {table : OrderedMap Str α} (htable : table.KeysIn (· ≠ droppedKey s keys)) :
      table.find (droppedKey s keys) = none :=
    OrderedMap.find_eq_none.mpr fun hkey => htable _ hkey rfl
  refine ⟨(among_others_iff.mp hrun).1, ?_, hnone hrun.furniture, hnone hrun.equipped, fun _ _ _ => hrun.keyFor⟩
  rw [counter, hnone hrun.scores]
  rfl

end

/-- Two who played before there were newcomers ask to be one player. -/
def adaOfOld : List Op := [
  .seen 1 (utf8 "ada") [] 10 0,
  .seen 0 (utf8 "adair") [] 10 0,
  .link 0 (utf8 "adair") (utf8 "ada") []]

example : ∃ t, playerLink (@Files.run _ utc {} adaOfOld).state 1 (utf8 "ada") (utf8 "adair") [] = .ok (.linked, t) ∧
    droppedKey (@Files.run _ utc {} adaOfOld).state (utf8 "tg:1", utf8 "irc:adair") = utf8 "irc:adair" ∧
    leftover (@Files.run _ utc {} adaOfOld).state (utf8 "irc:adair") = false ∧
    ((@Files.run _ utc {} adaOfOld).state.accounts.find (utf8 "irc:adair")).isSome = true := by
  refine ⟨(@Files.after _ utc (@Files.run _ utc {} adaOfOld) adaLinks).state, ?_, ?_, ?_, ?_⟩ <;> decide +kernel

end NorelecBot
